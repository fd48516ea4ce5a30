/-
**What a cache holds, from what it was asked.**

The cache serves requests while its clock does not go back. Of every request that it has served, a
log keeps the readings of the clock and the key of the entry that was driven out.
-/

import FoundationLang.Caching.Represented
import FoundationLang.Library.Machine

namespace FoundationLang.Caching

open Library Outcome Standard List

variable {T : Type}

/-! ### The log -/

/-- The entries that a `Set` under a key leaves when those that have expired and the one under the
key are gone. -/
def live (current : State T) (now : MonotonicInstant) (key : Text) : List (Entry T) :=
  (current.entries.items.filter (!isExpired · now)).filter fun item => !decide (item.key = key)

/-- There is no room for another entry. -/
def Full (current : State T) (now : MonotonicInstant) (key : Text) : Prop :=
  0 < current.maxEntries ∧ current.maxEntries ≤ (live current now key).length

instance (current : State T) (now : MonotonicInstant) (key : Text) :
    Decidable (Full current now key) :=
  inferInstanceAs (Decidable (_ ∧ _))

/-- The key of the entry that a request drives out: of those that are left, the one with the least
sequence number. -/
def driven (current : State T) (now : MonotonicInstant) : Operation T → Option Text
  | .set payload =>
    if Full current now payload.key then
      ((live current now payload.key).find? fun item =>
        (live current now payload.key).all fun entry => item.sequence ≤ entry.sequence).map
          Entry.key
    else none
  | _ => none

/-- A request that was served, and what it drove out. -/
structure Served (T : Type) where
  call : Timed (Operation T)
  evicted : Option Text

/-- How many entries were stored. -/
def stored : List (Served T) → ℕ
  | [] => 0
  | ⟨⟨.set _, _, _⟩, _⟩ :: earlier => stored earlier + 1
  | _ :: earlier => stored earlier

/-- **The entry of the last `Set`** of a key, unless it was invalidated or driven out since. The log
has the last request in front. -/
def lastSet (defaultTTL : ℤ) (key : Text) : List (Served T) → Option (Entry T)
  | [] => none
  | ⟨⟨.set payload, _, written⟩, evicted⟩ :: earlier =>
    if payload.key = key then
      some ⟨key, payload.value, written, if payload.ttl > 0 then payload.ttl else defaultTTL,
        stored earlier⟩
    else if evicted = some key then none
    else lastSet defaultTTL key earlier
  | ⟨⟨.invalidate gone, _, _⟩, _⟩ :: earlier =>
    if gone = key then none else lastSet defaultTTL key earlier
  | _ :: earlier => lastSet defaultTTL key earlier

/-! ### The machine -/

/-- The task, its clock, and the log of what it served. -/
structure Serving (T : Type) where
  cache : State T
  clock : MonotonicInstant
  log : List (Served T)

/-- **A cache that serves requests.** The clock does not go back. -/
def serving (cloneValue : T → Outcome Empty T) (defaultTTL maxEntries : ℤ) :
    Machine (Serving T) (Timed (Operation T)) (Stop Empty) where
  initial := ⟨newCache cloneValue defaultTTL maxEntries, ⟨0⟩, []⟩
  Allowed state call := state.clock ≤ call.now ∧ call.now ≤ call.written
  step call state :=
    (apply state.cache call.now call.written call.operation).map fun (_, after) =>
      ⟨after, call.written, ⟨call, driven state.cache call.now call.operation⟩ :: state.log⟩

instance (cloneValue : T → Outcome Empty T) (defaultTTL maxEntries : ℤ) (state : Serving T)
    (call : Timed (Operation T)) :
    Decidable ((serving cloneValue defaultTTL maxEntries).Allowed state call) :=
  inferInstanceAs (Decidable (_ ∧ _))

/-! ### Expiry -/

theorem isExpired_mono {item : Entry T} {now later : MonotonicInstant} (ordered : now ≤ later)
    (expired : isExpired item now = true) : isExpired item later = true := by
  unfold isExpired at expired ⊢
  split at expired
  · cases expired
  · rename_i pos
    rw [if_neg pos]
    split at expired
    · cases expired
    · rename_i elapsed measured
      obtain ⟨longer, measured', lasted⟩ := MonotonicInstant.since_mono ordered measured
      rw [measured']
      simp only [decide_eq_true_eq] at expired ⊢
      omega

theorem filter_expired (found : Option (Entry T)) {now later : MonotonicInstant}
    (ordered : now ≤ later) :
    (found.filter (!isExpired · now)).filter (!isExpired · later) =
      found.filter (!isExpired · later) := by
  rcases found with _ | _
  · rfl
  · rw [Option.filter_some]
    split
    · rfl
    · rename_i gone
      simp only [Bool.not_eq_true', Bool.not_eq_false] at gone
      rw [Option.filter_some, isExpired_mono ordered gone]
      rfl

/-! ### The cache and its log -/

/-- **The cache holds what its log says**, as far as it has not expired. -/
structure Held {limit : ℕ} (defaultTTL : ℤ) (state : Serving T) (shelf : Entries T limit) :
    Prop where
  represents : Represents state.cache shelf
  counted : state.cache.nextSequence = stored state.log
  found : ∀ key later, state.clock ≤ later →
    (shelf.find key).filter (!isExpired · later) =
      (lastSet defaultTTL key state.log).filter (!isExpired · later)

variable {limit : ℕ} {shelf : Entries T limit} {s : State T}

theorem live_perm (rep : Represents s shelf) (now : MonotonicInstant) (key : Text) :
    (live s now key).Perm ((shelf.keep (!isExpired · now)).remove key).items :=
  (rep.items.filter _).filter _

theorem Full_iff (rep : Represents s shelf) (now : MonotonicInstant) (key : Text) :
    Full s now key ↔ ((shelf.keep (!isExpired · now)).remove key).Full := by
  have same := (live_perm rep now key).length_eq
  have limited := rep.limited
  unfold Full Shelf.Full
  rw [same]
  omega

theorem find_least {items : List (Entry T)} {first : Entry T} {rest : List (Entry T)}
    (perm : items.Perm (first :: rest))
    (aged : (first :: rest).Pairwise fun older younger => older.sequence < younger.sequence) :
    (items.find? fun item => items.all fun entry => item.sequence ≤ entry.sequence) =
      some first := by
  rw [pairwise_cons] at aged
  have mem : first ∈ items := perm.mem_iff.mpr mem_cons_self
  have least : ∀ item ∈ items, item = first ∨ first.sequence < item.sequence := by
    intro item mem
    rcases mem_cons.mp (perm.mem_iff.mp mem) with same | mem
    · exact .inl same
    · exact .inr (aged.1 item mem)
  rcases found : items.find? fun item => items.all fun entry => item.sequence ≤ entry.sequence
    with _ | item
  · refine absurd ?_ (List.find?_eq_none.mp found first mem)
    rw [all_eq_true]
    intro entry mem'
    rcases least entry mem' with rfl | smaller
    · simp
    · simp only [decide_eq_true_eq]
      omega
  · have all := List.find?_some
      (p := fun item : Entry T => items.all fun entry => item.sequence ≤ entry.sequence) found
    have below := all_eq_true.mp all first mem
    simp only [decide_eq_true_eq] at below
    rcases least item (mem_of_find?_eq_some found) with rfl | smaller
    · exact found
    · omega

theorem driven_eq (rep : Represents s shelf) (now : MonotonicInstant)
    (payload : SetPayload T) :
    driven s now (.set payload) =
      ((shelf.keep (!isExpired · now)).remove payload.key).evicted := by
  have perm := live_perm rep now payload.key
  have aged : ((shelf.keep (!isExpired · now)).remove payload.key).items.Pairwise
      fun older younger => older.sequence < younger.sequence :=
    (rep.aged.filter _).filter _
  rw [driven, Shelf.evicted]
  by_cases full : Full s now payload.key
  · rw [if_pos full, if_pos ((Full_iff rep now payload.key).mp full)]
    rcases xs : ((shelf.keep (!isExpired · now)).remove payload.key).items with _ | ⟨_, _⟩
    · rw [xs] at perm
      rw [perm_nil.mp perm]
      rfl
    · rw [xs] at perm aged
      rw [find_least perm aged]
      rfl
  · rw [if_neg full, if_neg fun holds => full ((Full_iff rep now payload.key).mpr holds)]

/-- **One request.** -/
theorem apply_held {defaultTTL : ℤ} {clock now out : MonotonicInstant} {log : List (Served T)}
    {t : State T} {op : Operation T} {reply : Response T}
    (held : Held defaultTTL ⟨s, clock, log⟩ shelf) (default : s.defaultTTL = defaultTTL)
    (ordered : clock ≤ now) (ordered' : now ≤ out)
    (applied : apply s now out op = .ok (reply, t)) :
    ∃ shelf' : Entries T limit, Held defaultTTL
      ⟨t, out, ⟨⟨op, now, out⟩, driven s now op⟩ :: log⟩ shelf' := by
  obtain ⟨purged, purges, counted, rep⟩ := purgeExpired_represents held.represents now
  have settings := purgeExpired_settings purges
  have counted := counted.trans held.counted
  -- after the purge the log is as right as before
  have found : ∀ key later, out ≤ later →
      ((shelf.keep (!isExpired · now)).find key).filter (!isExpired · later) =
        (lastSet defaultTTL key log).filter (!isExpired · later) := by
    intro key later ordered''
    rw [Shelf.find_keep, filter_expired _ (Nat.le_trans ordered' ordered'')]
    exact held.found key later (Nat.le_trans ordered (Nat.le_trans ordered' ordered''))
  obtain ⟨purged', purges', answered⟩ := bind_eq_ok.mp applied
  obtain rfl : purged = purged' := Except.ok.inj (purges.symm.trans purges')
  cases op with
  | get key =>
    obtain ⟨⟨_, _⟩, looked, answered⟩ := bind_eq_ok.mp answered
    cases answered
    obtain ⟨after', rep', counted', same⟩ := getValue_represents rep key
    have final : t = after' := by
      rw [same] at looked
      split at looked
      · cases looked
        rfl
      · rename_i item _
        rcases cloned : purged.cloneValue item.value with _ | _
        · rw [cloned] at looked
          cases looked
        · rw [cloned] at looked
          cases looked
          rfl
    rw [← final] at rep' counted'
    exact ⟨_, rep', counted'.trans counted, found⟩
  | set payload =>
    obtain ⟨final, stores, answered⟩ := bind_eq_ok.mp answered
    cases answered
    obtain ⟨counted', rep'⟩ := (storeValue_represents rep payload.key payload.value _
      out).1 t stores
    refine ⟨_, rep', ?_, ?_⟩
    · rw [counted', counted]
      rfl
    · intro key later ordered''
      rw [Shelf.find_put, ← driven_eq held.represents, lastSet]
      by_cases same : key = payload.key
      · subst same
        rw [if_pos rfl, if_pos rfl, counted]
        have effective : effectiveTTL purged payload.ttl =
            if payload.ttl > 0 then payload.ttl else defaultTTL := by
          have lifetime : purged.defaultTTL = defaultTTL :=
            (congrArg (fun settings => settings.2.1) settings).trans default
          rw [effectiveTTL, lifetime]
        rw [effective]
      · rw [if_neg same, if_neg (Ne.symm same)]
        split
        · rfl
        · exact found key later ordered''
  | invalidate gone =>
    obtain ⟨_, removes, answered⟩ := bind_eq_ok.mp answered
    cases answered
    obtain ⟨after', removes', counted', rep'⟩ := removeKey_represents rep gone
    obtain rfl : t = after' := Except.ok.inj (removes.symm.trans removes')
    refine ⟨_, rep', counted'.trans counted, ?_⟩
    intro key later ordered''
    rw [Shelf.find_remove, lastSet]
    by_cases same : key = gone
    · rw [if_pos same, if_pos same.symm]
    · rw [if_neg same, if_neg (Ne.symm same)]
      exact found key later ordered''
  | len =>
    cases answered
    exact ⟨_, rep, counted, found⟩

section Runs

variable {cloneValue : T → Outcome Empty T} {defaultTTL maxEntries : ℤ}
  {calls : List (Timed (Operation T))} {state : Serving T}

/-- **Any requests.** -/
theorem run_held (run : (serving cloneValue defaultTTL maxEntries).Run calls state) :
    (∃ shelf : Entries T maxEntries.toNat, Held defaultTTL state shelf) ∧
      state.cache.settings = (cloneValue, defaultTTL, maxEntries) := by
  refine Machine.Run.invariant (fun state =>
    (∃ shelf : Entries T maxEntries.toNat, Held defaultTTL state shelf) ∧
      state.cache.settings = (cloneValue, defaultTTL, maxEntries)) ?_ ?_ run
  · exact ⟨⟨_, new_represents cloneValue defaultTTL maxEntries, rfl, fun _ _ _ => rfl⟩, rfl⟩
  · rintro ⟨s, _, _⟩ _ ⟨operation, now, written⟩ ⟨⟨_, held⟩, settings⟩
      ⟨ordered, ordered'⟩ taken
    change (apply s now written operation).map _ = _ at taken
    rcases applied : apply s now written operation with _ | ⟨_, _⟩
    · rw [applied] at taken
      cases taken
    · rw [applied] at taken
      cases taken
      have default : s.defaultTTL = defaultTTL :=
        congrArg (fun settings => settings.2.1) settings
      exact ⟨apply_held held default ordered ordered' applied,
        (apply_settings applied).trans settings⟩

/-- **A `Get` returns what the log says.** -/
theorem get_held {shelf : Entries T maxEntries.toNat} (held : Held defaultTTL state shelf)
    (clones : state.cache.cloneValue = cloneValue) {now : MonotonicInstant}
    (ordered : state.clock ≤ now) (out : MonotonicInstant) (key : Text) :
    ∃ after, apply state.cache now out (.get key) =
      match (lastSet defaultTTL key state.log).filter (!isExpired · now) with
      | none => .ok (.maybeValue none, after)
      | some item =>
        (cloneValue item.value).map fun v => (.maybeValue (some v), after) := by
  obtain ⟨purged, purges, _, rep⟩ := purgeExpired_represents held.represents now
  have clones' : purged.cloneValue = cloneValue :=
    (congrArg Prod.fst (purgeExpired_settings purges)).trans clones
  obtain ⟨after, _, _, same⟩ := getValue_represents rep key
  refine ⟨after, ?_⟩
  unfold apply
  rw [purges, ok_bind, answer, same, Shelf.find_keep, held.found key now ordered, clones']
  rcases (lastSet defaultTTL key state.log).filter (!isExpired · now) with _ | item
  · rfl
  · dsimp only
    rcases cloneValue item.value with stop | v <;> rfl

/-- **A `Set` into a full cache drives out the entry with the least number**, among those that have
not expired and are not replaced. -/
theorem set_held {shelf : Entries T maxEntries.toNat} (held : Held defaultTTL state shelf)
    {now out : MonotonicInstant} {payload : SetPayload T} {reply : Response T} {t : State T}
    (applied : apply state.cache now out (.set payload) = .ok (reply, t)) :
    ∃ entry : Entry T, entry.key = payload.key ∧ entry.value = payload.value ∧
      entry.written = out ∧ entry.sequence = state.cache.nextSequence ∧
      (¬Full state.cache now payload.key →
        t.entries.items.Perm (entry :: live state.cache now payload.key)) ∧
      (Full state.cache now payload.key → ∃ oldest rest,
        (live state.cache now payload.key).Perm (oldest :: rest) ∧
        (∀ item ∈ rest, oldest.sequence < item.sequence) ∧
        t.entries.items.Perm (entry :: rest)) := by
  obtain ⟨purged, purges, counted, rep⟩ := purgeExpired_represents held.represents now
  obtain ⟨purged', purges', answered⟩ := bind_eq_ok.mp applied
  obtain rfl : purged = purged' := Except.ok.inj (purges.symm.trans purges')
  obtain ⟨final, stores, answered⟩ := bind_eq_ok.mp answered
  cases answered
  obtain ⟨_, rep'⟩ := (storeValue_represents rep payload.key payload.value _
    out).1 t stores
  have perm := live_perm held.represents now payload.key
  have full := Full_iff held.represents now payload.key
  have xs := rep'.items.trans (perm_append_singleton _ _)
  refine ⟨⟨payload.key, payload.value, out, effectiveTTL purged payload.ttl,
    purged.nextSequence⟩, rfl, rfl, rfl, counted, ?_, ?_⟩
  · intro room
    refine xs.trans (List.Perm.cons _ (List.Perm.trans ?_ perm.symm))
    change List.Perm (if ((shelf.keep (!isExpired · now)).remove payload.key).Full then _ else _) _
    rw [if_neg fun holds => room (full.mpr holds)]
  · intro none
    have aged : ((shelf.keep (!isExpired · now)).remove payload.key).items.Pairwise
        fun older younger => older.sequence < younger.sequence :=
      (held.represents.aged.filter _).filter _
    have crowded := full.mp none
    rcases same : ((shelf.keep (!isExpired · now)).remove payload.key).items
      with _ | ⟨oldest, rest⟩
    · have := crowded.1
      have := crowded.2
      rw [same, length_nil] at this
      omega
    · rw [same] at perm aged
      rw [pairwise_cons] at aged
      refine ⟨oldest, rest, perm, aged.1, xs.trans (List.Perm.cons _ ?_)⟩
      change List.Perm (if ((shelf.keep (!isExpired · now)).remove payload.key).Full then
        ((shelf.keep (!isExpired · now)).remove payload.key).items.tail else _) _
      rw [if_pos crowded, same, tail_cons]

/-- **The cache in any state that it reaches.** Every key occurs once, a positive maximum is kept, a
`Set` drives out an entry only if there is no room when the expired ones and the replaced one are
gone, and then the one with the least sequence number, and a `Get` returns the value of the last
`Set`, cloned, unless it has expired, was invalidated or was driven out. A `Set` returns unless a
counter overflows. -/
theorem cache_invariants (run : (serving cloneValue defaultTTL maxEntries).Run calls state) :
    (state.cache.entries.items.map Entry.key).Nodup ∧
    (0 < maxEntries → (state.cache.entries.len : ℤ) ≤ maxEntries) ∧
    (∀ (now written : MonotonicInstant) (payload : SetPayload T), state.clock ≤ now →
      now ≤ written →
      (state.cache.nextSequence + 1 < 2 ^ 64 → state.cache.entries.len + 1 < 2 ^ 31 →
        ∃ after, apply state.cache now written (.set payload) = .ok (.done, after)) ∧
      ∀ reply after, apply state.cache now written (.set payload) = .ok (reply, after) →
        ∃ entry : Entry T, entry.key = payload.key ∧ entry.value = payload.value ∧
          entry.written = written ∧ entry.sequence = state.cache.nextSequence ∧
          (¬Full state.cache now payload.key →
            after.entries.items.Perm (entry :: live state.cache now payload.key)) ∧
          (Full state.cache now payload.key → ∃ oldest rest,
            (live state.cache now payload.key).Perm (oldest :: rest) ∧
            (∀ item ∈ rest, oldest.sequence < item.sequence) ∧
            after.entries.items.Perm (entry :: rest))) ∧
    (∀ (now written : MonotonicInstant) (key : Text), state.clock ≤ now →
      ∃ after, apply state.cache now written (.get key) =
        match (lastSet defaultTTL key state.log).filter (!isExpired · now) with
        | none => .ok (.maybeValue none, after)
        | some item =>
          (cloneValue item.value).map fun value => (.maybeValue (some value), after)) := by
  obtain ⟨⟨shelf, held⟩, settings⟩ := run_held run
  refine ⟨held.represents.distinct_keys, ?_, ?_, ?_⟩
  · intro positive
    have bound := shelf.bound (by omega)
    unfold LinkedList.len
    rw [held.represents.items.length_eq]
    omega
  · intro now written payload _ _
    refine ⟨?_, fun reply after applied => set_held held applied⟩
    intro small short
    obtain ⟨purged, purges, counted, represents⟩ := purgeExpired_represents held.represents now
    have fewer : purged.entries.len ≤ state.cache.entries.len := by
      unfold LinkedList.len
      rw [represents.items.length_eq, held.represents.items.length_eq]
      exact length_filter_le _ _
    obtain ⟨after, stores⟩ := (storeValue_represents represents payload.key payload.value
      (effectiveTTL purged payload.ttl) written).2 (by omega) (by omega)
    refine ⟨after, ?_⟩
    unfold apply
    rw [purges, ok_bind, answer, applySet, stores]
    rfl
  · intro now written key ordered
    exact get_held held (congrArg Prod.fst settings) ordered written key

/-- Two values are stored where there is room for one. -/
theorem cache_invariants_sample :
    ∃ state, (serving (fun value : ℕ => .ok value) 0 1).follow
        [⟨.set ⟨Text.empty, 7, 0⟩, ⟨1⟩, ⟨2⟩⟩, ⟨.set ⟨Text.literal [97], 8, 0⟩, ⟨3⟩, ⟨3⟩⟩]
        (serving (fun value : ℕ => .ok value) 0 1).initial = some state ∧
      (state.cache.entries.len : ℤ) ≤ 1 ∧
      ∃ after, apply state.cache ⟨4⟩ ⟨4⟩ (.get (Text.literal [97])) =
        .ok (.maybeValue (some 8), after) := by
  refine ⟨_, rfl, ?_⟩
  have invariants := cache_invariants (Machine.Run.follow (.start) (rfl :
    (serving (fun value : ℕ => .ok value) 0 1).follow
        [⟨.set ⟨Text.empty, 7, 0⟩, ⟨1⟩, ⟨2⟩⟩, ⟨.set ⟨Text.literal [97], 8, 0⟩, ⟨3⟩, ⟨3⟩⟩]
        (serving (fun value : ℕ => .ok value) 0 1).initial = some _))
  exact ⟨invariants.2.1 (by decide), invariants.2.2.2 ⟨4⟩ ⟨4⟩ (Text.literal [97]) (by decide)⟩

end Runs

end FoundationLang.Caching
