/-
**The entries of the task.**

* `setValue_cases`, `getValue_ok`, `deleteValue_ok`, `removeExpired_ok` — what the functions return,
  and which entries they leave, up to their order.
-/

import FoundationLang.SafeMap.Table

namespace FoundationLang.SafeMap

open Library Outcome Standard List

/-! ### What the functions promise -/

/-- **The functions that a map is built from.** -/
structure Callbacks {K V : Type} (equal : K → K → Bool) (cloneKey : K → K) (cloneValue : V → V)
    (hash : K → ℕ) : Prop where
  equates : Equates equal
  hashed : ∀ first second, equal first second = true → hash first = hash second
  key_cloned : ∀ key, equal (cloneKey key) key = true
  value_cloned : ∀ value, cloneValue value = value

variable {K V : Type} {s : State K V}

/-- What a task was built from is sound. -/
abbrev State.Sound (current : State K V) : Prop :=
  Callbacks current.equal current.cloneKey current.cloneValue current.hash

/-- What an entry is in a table. -/
def Entry.stored (item : Entry K V) : Stored V :=
  ⟨item.value, deadline item.ttl item.written⟩

/-- The entry under a key. -/
def State.find (current : State K V) (key : K) : Option (Stored V) :=
  (lookup current.equal Entry.key current.entries.items key).map Entry.stored

/-- The entries of the task are in order: each is in the bucket of its key, and no key has two. -/
structure State.Tidy (current : State K V) : Prop where
  bucketed : ∀ item ∈ current.entries.items, item.bucket = bucketFor current item.key
  distinct : DistinctKeys current.equal Entry.key current.entries.items

/-! ### Expiry and keys -/

theorem expired_eq (item : Entry K V) (now : MonotonicInstant) :
    expired item now = !item.stored.live now := by
  unfold expired Entry.stored Stored.live deadline maximumDuration MonotonicInstant.since
    fromNanoseconds maximumDuration
  by_cases never : item.ttl ≤ 0
  · rw [if_pos never, if_neg (by omega)]
    rfl
  · rw [if_neg never]
    by_cases early : now.nanoseconds < item.written.nanoseconds
    · rw [if_pos early]
      by_cases last : 0 < item.ttl ∧ item.ttl < 9223372036854775807
      · rw [if_pos last]
        simp only [Bool.false_eq, Bool.not_eq_false', decide_eq_true_eq]
        omega
      · rw [if_neg last]
        rfl
    · rw [if_neg early]
      by_cases last : 0 < item.ttl ∧ item.ttl < 9223372036854775807
      · rw [if_pos last]
        rw [← decide_not, decide_eq_decide]
        split <;> dsimp only <;> omega
      · rw [if_neg last]
        rw [Bool.not_true, decide_eq_false_iff_not]
        split <;> dsimp only <;> omega

theorem keyMatches_eq (sound : s.Sound) {item : Entry K V}
    (bucketed : item.bucket = bucketFor s item.key) (key : K) :
    keyMatches s key item = s.equal key item.key := by
  unfold keyMatches
  rw [bucketed]
  rcases same : s.equal key item.key with _ | _
  · rw [ite_self]
  · have buckets : bucketFor s key = bucketFor s item.key := by
      unfold bucketFor
      rw [sound.hashed key item.key same]
    rw [buckets, if_neg (by simp)]

/-! ### What the functions do -/

/-- The entries whose key is another one. -/
def others (current : State K V) (key : K) (items : List (Entry K V)) : List (Entry K V) :=
  items.filter fun item => !current.equal key item.key

/-- An entry with a new value. -/
def rewritten (current : State K V) (value : V) (written : MonotonicInstant) (item : Entry K V) :
    Entry K V :=
  { item with value := current.cloneValue value, written, ttl := current.ttl }

theorem others_eq_self {key : K} {items : List (Entry K V)}
    (apart : ∀ item ∈ items, s.equal key item.key = false) :
    others s key items = items := by
  rw [others, filter_eq_self]
  intro item mem
  rw [apart item mem]
  rfl

theorem restore_found (s : State K V) (key : K) (v : V) (out : MonotonicInstant)
    (source : List (Entry K V)) (restored : LinkedList (Entry K V))
    (small : source.length + restored.items.length < 2 ^ 31) :
    ∃ after, restore s key v out source true restored = .ok (true, after) ∧
      after.items = source.reverse ++ restored.items := by
  induction source generalizing restored with
  | nil => exact ⟨restored, rfl, rfl⟩
  | cons item source ih =>
    rw [length_cons] at small
    obtain ⟨longer, pushed, xs⟩ := restored.pushFront_ok (ε := Empty) item (by omega)
    obtain ⟨after, ran, final⟩ := ih longer (by rw [xs, length_cons]; omega)
    refine ⟨after, ?_, by simp [final, xs]⟩
    rw [restore, if_neg (by simp), pushed]
    exact ran

/-- **The loop of `setValue`.** At most one entry is written. -/
theorem restore_ok (sound : s.Sound) (key : K) (v : V)
    (out : MonotonicInstant) {source : List (Entry K V)}
    (bucketed : ∀ item ∈ source, item.bucket = bucketFor s item.key)
    (distinct : DistinctKeys s.equal Entry.key source) (restored : LinkedList (Entry K V))
    (small : source.length + restored.items.length < 2 ^ 31) :
    (∃ after, restore s key v out source false restored = .ok (false, after) ∧
      (∀ item ∈ source, s.equal key item.key = false) ∧
      after.items.Perm (source ++ restored.items)) ∨
    (∃ after, ∃ item ∈ source,
      restore s key v out source false restored = .ok (true, after) ∧
      s.equal key item.key = true ∧
      after.items.Perm (rewritten s v out item ::
        (others s key source ++ restored.items))) := by
  induction source generalizing restored with
  | nil =>
    refine .inl ⟨restored, rfl, ?_, .refl _⟩
    rintro item ⟨⟩
  | cons x source ih =>
    rw [length_cons] at small
    rw [DistinctKeys, pairwise_cons] at distinct
    rw [restore, keyMatches_eq sound (bucketed x mem_cons_self)]
    rcases same : s.equal key x.key with _ | _
    · obtain ⟨longer, pushed, xs⟩ := restored.pushFront_ok (ε := Empty) x (by omega)
      have moved : ∀ rest : List (Entry K V),
          (rest ++ longer.items).Perm (x :: rest ++ restored.items) := by
        intro rest
        rw [xs]
        exact perm_middle
      have step := ih (fun item mem => bucketed item (mem_cons_of_mem _ mem))
        distinct.2 longer (by rw [xs, length_cons]; omega)
      rw [if_neg (by simp), pushed]
      rcases step with ⟨after, ran, apart, perm⟩ | ⟨after, item, mem, ran, found, perm⟩
      · refine .inl ⟨after, ran, ?_, perm.trans (moved source)⟩
        intro item mem
        rcases mem_cons.mp mem with rfl | mem
        · exact same
        · exact apart item mem
      · refine .inr ⟨after, item, mem_cons_of_mem _ mem, ran, found, perm.trans ?_⟩
        have stays : others s key (x :: source) = x :: others s key source :=
          filter_cons_of_pos (by simp [same])
        rw [stays]
        exact (moved _).cons _
    · obtain ⟨longer, pushed, xs⟩ := restored.pushFront_ok (ε := Empty)
        (rewritten s v out x) (by omega)
      obtain ⟨after, ran, final⟩ := restore_found s key v out source longer
        (by rw [xs, length_cons]; omega)
      have apart : ∀ item ∈ source, s.equal key item.key = false := by
        intro item mem
        rw [sound.equates.congr same]
        exact distinct.1 item mem
      refine .inr ⟨after, x, mem_cons_self, ?_, same, ?_⟩
      · rw [if_pos (by simp)]
        change (restored.pushFront (rewritten s v out x) >>= _) = _
        rw [pushed]
        exact ran
      · rw [final, xs, others, filter_cons_of_neg (by simp [same])]
        change List.Perm _ (_ :: (others s key source ++ _))
        rw [others_eq_self apart]
        exact perm_middle.trans ((reverse_perm source).append_right _ |>.cons _)

/-- **`setValue` writes one entry**, or the list has no room for another. -/
theorem setValue_cases (sound : s.Sound) (tidy : s.Tidy) (key : K)
    (v : V) (out : MonotonicInstant) :
    (setValue s key v out = panic .overflow ∧
      2 ^ 31 ≤ s.entries.items.length + 1) ∨
    ∃ entries new, setValue s key v out = .ok { s with entries } ∧
      s.equal key new.key = true ∧ new.bucket = bucketFor s new.key ∧
      new.stored = ⟨v, deadline s.ttl out⟩ ∧
      entries.items.Perm (new :: others s key s.entries.items) := by
  rcases restore_ok sound key v out tidy.bucketed tidy.distinct .newList
      s.entries.bounded with
    ⟨after, ran, apart, perm⟩ | ⟨after, item, mem, ran, same, perm⟩
  · rw [LinkedList.newList_items, append_nil] at perm
    have unfolded : setValue s key v out =
        (after.pushFront ⟨key, v, bucketFor s key, out, s.ttl⟩).map
          fun entries => { s with entries } := by
      unfold setValue
      rw [ran]
      rfl
    rw [unfolded]
    by_cases small : after.items.length + 1 < 2 ^ 31
    · obtain ⟨longer, pushed, xs⟩ := after.pushFront_ok (ε := Empty)
        ⟨key, v, bucketFor s key, out, s.ttl⟩ small
      refine .inr ⟨longer, ⟨key, v, bucketFor s key, out, s.ttl⟩,
        by rw [pushed]; rfl, sound.equates.refl key, rfl, rfl, ?_⟩
      rw [xs, others_eq_self apart]
      exact perm.cons _
    · refine .inl ⟨?_, ?_⟩
      · unfold LinkedList.pushFront
        rw [dif_neg (by simpa using small)]
        rfl
      · rw [← perm.length_eq]
        omega
  · rw [LinkedList.newList_items, append_nil] at perm
    refine .inr ⟨after, rewritten s v out item, ?_, same,
      tidy.bucketed item mem, ?_, perm⟩
    · unfold setValue
      rw [ran]
      rfl
    · change (⟨s.cloneValue v, _⟩ : Stored V) = _
      rw [sound.value_cloned]
      rfl

/-- The entry under a key, unless it has expired. -/
def State.alive (current : State K V) (now : MonotonicInstant) (key : K) : Option (Stored V) :=
  (current.find key).filter (Stored.live now)

theorem alive_eq (s : State K V) (now : MonotonicInstant) (key : K) :
    s.alive now key =
      ((lookup s.equal Entry.key s.entries.items key).filter
        fun item => !expired item now).map Entry.stored := by
  unfold State.alive State.find
  rcases lookup s.equal Entry.key s.entries.items key with _ | _
  · rfl
  · rw [Option.map_some, Option.filter_some, Option.filter_some, expired_eq, Bool.not_not]
    split <;> rfl

section Loops

variable {s : State K V} (sound : s.Sound) (key : K) (now : MonotonicInstant)
  {source : List (Entry K V)}

include sound

section

variable (bucketed : ∀ item ∈ source, item.bucket = bucketFor s item.key)
include bucketed

theorem remembered_look_none
    (apart : ∀ item ∈ source, s.equal key item.key = false) (result : Option V) :
    remembered (look s key now) source result = result := by
  induction source with
  | nil => rfl
  | cons x rest ih =>
    have skipped : (look s key now result x).1 = result := by
      unfold look
      rw [keyMatches_eq sound (bucketed x mem_cons_self), apart x mem_cons_self]
      split <;> rfl
    rw [remembered, skipped]
    exact ih (fun item mem => bucketed item (mem_cons_of_mem _ mem))
      fun item mem => apart item (mem_cons_of_mem _ mem)

theorem remembered_look
    (distinct : DistinctKeys s.equal Entry.key source) :
    remembered (look s key now) source none =
      ((lookup s.equal Entry.key source key).filter fun item => !expired item now).map
        Entry.value := by
  induction source with
  | nil => rfl
  | cons x rest ih =>
    rw [DistinctKeys, pairwise_cons] at distinct
    have bucketed' : ∀ item ∈ rest, item.bucket = bucketFor s item.key :=
      fun item mem => bucketed item (mem_cons_of_mem _ mem)
    rw [remembered, lookup_cons]
    rcases same : s.equal key x.key with _ | _
    · have skipped : (look s key now none x).1 = none := by
        unfold look
        rw [keyMatches_eq sound (bucketed x mem_cons_self), same]
        split <;> rfl
      rw [skipped, if_neg Bool.false_ne_true]
      exact ih bucketed' distinct.2
    · have apart : ∀ item ∈ rest, s.equal key item.key = false := by
        intro item mem
        rw [sound.equates.congr same]
        exact distinct.1 item mem
      rw [remembered_look_none sound key now bucketed' apart, if_pos rfl, Option.filter_some]
      unfold look
      rw [keyMatches_eq sound (bucketed x mem_cons_self), same, sound.value_cloned]
      cases expired x now <;> rfl

theorem remembered_strike
    (distinct : DistinctKeys s.equal Entry.key source) (deleted : Bool) :
    remembered (strike s key now) source deleted =
      (deleted || ((lookup s.equal Entry.key source key).filter
        fun item => !expired item now).isSome) := by
  induction source generalizing deleted with
  | nil => exact (Bool.or_false _).symm
  | cons x rest ih =>
    rw [DistinctKeys, pairwise_cons] at distinct
    rw [remembered, lookup_cons, ih
      (fun item mem => bucketed item (mem_cons_of_mem _ mem)) distinct.2]
    unfold strike
    rw [keyMatches_eq sound (bucketed x mem_cons_self)]
    rcases same : s.equal key x.key with _ | _
    · rw [if_neg Bool.false_ne_true, Bool.or_false]
      rcases expired x now with _ | _
      · rfl
      · simp
    · have apart : lookup s.equal Entry.key rest key = none := by
        rw [lookup_eq_none]
        intro item mem
        rw [sound.equates.congr same]
        exact distinct.1 item mem
      rw [apart, if_pos rfl, Bool.or_true, if_pos rfl, Option.filter_some]
      cases expired x now <;> simp

end

end Loops

/-- **`getValue` finds what is still there**, and throws away what has expired. -/
theorem getValue_ok (sound : s.Sound) (tidy : s.Tidy) (key : K)
    (now : MonotonicInstant) :
    ∃ entries, getValue s key now =
        .ok ((s.alive now key).map Stored.value, { s with entries }) ∧
      entries.items.Perm (s.entries.items.filter (!expired · now)) := by
  have decides : ∀ result item, (look s key now result item).2 = !expired item now := by
    intro result item
    unfold look
    cases expired item now <;> cases keyMatches s key item <;> rfl
  obtain ⟨entries, swept, xs⟩ := sweep_filter (ε := Empty) _ decides s.entries none
  refine ⟨entries, ?_, xs ▸ reverse_perm _⟩
  change (sweep (fun result item => .ok (look s key now result item)) _ _ _ >>= _) = _
  rw [swept, remembered_look sound key now tidy.bucketed tidy.distinct, alive_eq, Option.map_map]
  rfl

/-- **`deleteValue` deletes what is still there**, and throws away what has expired. -/
theorem deleteValue_ok (sound : s.Sound) (tidy : s.Tidy) (key : K)
    (now : MonotonicInstant) :
    ∃ entries, deleteValue s key now =
        .ok ((s.alive now key).isSome, { s with entries }) ∧
      entries.items.Perm (others s key (s.entries.items.filter (!expired · now))) := by
  have decides : ∀ deleted item, (strike s key now deleted item).2 =
      !(expired item now || keyMatches s key item) := by
    intro deleted item
    unfold strike
    cases expired item now <;> cases keyMatches s key item <;> rfl
  obtain ⟨entries, swept, xs⟩ := sweep_filter (ε := Empty) _ decides s.entries false
  refine ⟨entries, ?_, ?_⟩
  · change (sweep (fun deleted item => .ok (strike s key now deleted item)) _ _ _ >>= _) = _
    rw [swept, remembered_strike sound key now tidy.bucketed tidy.distinct, alive_eq,
      Option.isSome_map, Bool.false_or]
    rfl
  · have same : s.entries.items.filter
          (fun item => !(expired item now || keyMatches s key item)) =
        others s key (s.entries.items.filter (!expired · now)) := by
      rw [others, filter_filter]
      refine filter_congr fun item mem => ?_
      rw [keyMatches_eq sound (tidy.bucketed item mem), Bool.not_or, Bool.and_comm]
    rw [xs, same]
    exact reverse_perm _

theorem removeExpired_ok (s : State K V) (now : MonotonicInstant) :
    ∃ entries, removeExpired s now = .ok { s with entries } ∧
      entries.items.Perm (s.entries.items.filter (!expired · now)) := by
  obtain ⟨entries, swept, xs⟩ := @sweep_filter _ _ Empty (fun _ item => ((), !expired item now))
    (!expired · now) (fun _ _ => rfl) s.entries ()
  refine ⟨entries, ?_, xs ▸ reverse_perm _⟩
  change (sweep (fun _ item => .ok ((), !expired item now)) _ _ _ >>= _) = _
  rw [swept]
  rfl

end FoundationLang.SafeMap
