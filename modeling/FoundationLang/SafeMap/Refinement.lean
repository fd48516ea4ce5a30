/-
**The task is a table with expiry times.**

* `safemap_refines` — every sequence of requests, for every number of shards.
-/

import FoundationLang.SafeMap.Entries

namespace FoundationLang.SafeMap

open Library Outcome Standard List

variable {K V : Type}

/-- **The task represents a table** from a time on. -/
structure Represents {equal : K → K → Bool} (equates : Equates equal) (current : State K V)
    (clock : MonotonicInstant) (table : Timed.Table (Quotient equates.setoid) V) : Prop where
  same : current.equal = equal
  sound : current.Sound
  tidy : current.Tidy
  found : ∀ key, AgreeFrom Stored.live clock (current.find key)
    (table.entries (Quotient.mk equates.setoid key))
  ttl : table.ttl = current.ttl

/-! ### The task and its table -/

section Steps

variable {equal : K → K → Bool} {equates : Equates equal} {s : State K V}
variable {entries : LinkedList (Entry K V)} {xs : List (Entry K V)}

  {clock now out : MonotonicInstant} {table : Timed.Table (Quotient equates.setoid) V}

theorem State.Tidy.perm (equates : Equates s.equal) (perm : entries.items.Perm xs)
    (bucketed : ∀ item ∈ xs, item.bucket = bucketFor s item.key)
    (distinct : DistinctKeys s.equal Entry.key xs) : State.Tidy { s with entries } :=
  ⟨fun item mem => bucketed item (perm.mem_iff.mp mem),
    equates.distinct_perm perm.symm distinct⟩

theorem State.Tidy.find_perm (equates : Equates s.equal) (perm : entries.items.Perm xs)
    (distinct : DistinctKeys s.equal Entry.key xs) (key : K) :
    State.find { s with entries } key =
      (lookup s.equal Entry.key xs key).map Entry.stored := by
  unfold State.find
  rw [← equates.lookup_perm perm.symm distinct]

section

variable (rep : Represents equates s clock table)
include rep

theorem Represents.mono
    (ordered : clock ≤ now) : Represents equates s now table :=
  { rep with found := fun key => (rep.found key).mono ordered }

theorem Represents.read
    (ordered : clock ≤ now) (key : K) :
    (s.alive now key).map Stored.value =
      Timed.read table now (Quotient.mk equates.setoid key) :=
  congrArg _ (rep.found key now ordered)

theorem Represents.purged
    (ordered : clock ≤ now)
    (perm : entries.items.Perm (s.entries.items.filter (!expired · now))) :
    Represents equates { s with entries } now table ∧
      (∀ key, State.find { s with entries } key = s.alive now key) ∧
      entries.items.length ≤ s.entries.items.length := by
  obtain ⟨same, sound, tidy, found, ttl⟩ := rep
  have distinct : DistinctKeys s.equal Entry.key
      (s.entries.items.filter (!expired · now)) := List.Pairwise.filter _ tidy.distinct
  have kept : ∀ key, State.find { s with entries } key = s.alive now key := by
    intro key
    rw [State.Tidy.find_perm sound.equates perm distinct,
      sound.equates.lookup_filter tidy.distinct, alive_eq]
  refine ⟨⟨same, sound, .perm sound.equates perm ?_ distinct, ?_, ttl⟩, kept, ?_⟩
  · exact fun item mem => tidy.bucketed item (mem_filter.mp mem).1
  · intro key
    rw [kept]
    exact (found key).purge live_fades ordered
  · rw [perm.length_eq]
    exact length_filter_le _ _

theorem Represents.put
    (entries : LinkedList (Entry K V)) {key : K} {stored : Option (Stored V)}
    (tidy : State.Tidy { s with entries })
    (changed : ∀ y, s.equal y key = true →
      State.find { s with entries } y = stored)
    (kept : ∀ y, s.equal y key = false →
      State.find { s with entries } y = s.find y) :
    Represents equates { s with entries } clock
      (Timed.put table (Quotient.mk equates.setoid key) stored) := by
  obtain ⟨same, sound, _, found, ttl⟩ := rep
  refine ⟨same, sound, tidy, ?_, ttl⟩
  intro y
  unfold Timed.put
  dsimp only
  rw [equates.mk_eq]
  rcases apart : equal y key with _ | _
  · rw [if_neg Bool.false_ne_true, kept y (same ▸ apart)]
    exact found y
  · rw [if_pos rfl, changed y (same ▸ apart)]
    exact .refl _

end

theorem lookup_others (sound : s.Sound)
    (distinct : DistinctKeys s.equal Entry.key xs) (key other : K) :
    lookup s.equal Entry.key (others s key xs) other =
      if s.equal other key then none else lookup s.equal Entry.key xs other := by
  rw [others, sound.equates.lookup_filter distinct]
  rcases found : lookup s.equal Entry.key xs other with _ | item
  · rw [ite_self]
    rfl
  · obtain ⟨_, same⟩ := (sound.equates.lookup_eq_some distinct).mp found
    have alike : s.equal key item.key = s.equal other key := by
      rw [sound.equates.comm other key]
      rw [sound.equates.comm key, sound.equates.comm key]
      exact (sound.equates.congr same key).symm
    rw [Option.filter_some, alike]
    cases s.equal other key <;> rfl

section

variable (rep : Represents equates s clock table)
include rep

/-- **`deleteValue` deletes from the table.** -/
theorem Represents.delete
    (ordered : clock ≤ now) (key : K) :
    ∃ entries, deleteValue s key now =
        .ok ((s.alive now key).isSome, { s with entries }) ∧
      Represents equates { s with entries } now
        (Timed.put table (Quotient.mk equates.setoid key) none) ∧
      entries.items.length ≤ s.entries.items.length := by
  obtain ⟨entries, deleted, perm⟩ := deleteValue_ok rep.sound rep.tidy key now
  obtain ⟨purged, _, perm'⟩ := getValue_ok rep.sound rep.tidy key now
  have sound := rep.sound
  obtain ⟨rep', _, _⟩ := rep.purged ordered perm'
  have distinct : DistinctKeys s.equal Entry.key
      (s.entries.items.filter (!expired · now)) :=
    List.Pairwise.filter _ rep.tidy.distinct
  have distinct' : DistinctKeys s.equal Entry.key
      (others s key (s.entries.items.filter (!expired · now))) :=
    List.Pairwise.filter _ distinct
  have found : ∀ other, State.find { s with entries } other =
      if s.equal other key then none
      else State.find { s with entries := purged } other := by
    intro other
    rw [State.Tidy.find_perm sound.equates perm distinct', lookup_others sound distinct,
      State.Tidy.find_perm sound.equates perm' distinct]
    split <;> rfl
  refine ⟨entries, deleted, rep'.put entries ?_ ?_ ?_, ?_⟩
  · refine .perm sound.equates perm ?_ distinct'
    intro item mem
    exact rep.tidy.bucketed item
      (mem_filter.mp (mem_filter.mp mem).1).1
  · intro other same
    rw [found, if_pos same]
  · intro other apart
    rw [found, if_neg (by rw [apart]; exact Bool.false_ne_true)]
  · rw [perm.length_eq]
    exact Nat.le_trans (length_filter_le _ _) (length_filter_le _ _)

theorem Represents.set
    (ordered : clock ≤ out) (key : K) (v : V) :
    (setValue s key v out = panic .overflow ∧
      2 ^ 31 ≤ s.entries.items.length + 1) ∨
    ∃ entries, setValue s key v out = .ok { s with entries } ∧
      Represents equates { s with entries } out
        (Timed.write table (Quotient.mk equates.setoid key) v out) ∧
      entries.items.length ≤ s.entries.items.length + 1 := by
  have sound := rep.sound
  have tidy := rep.tidy
  rcases setValue_cases sound tidy key v out with
    full | ⟨entries, new, set, same, bucketed, stored, perm⟩
  · exact .inl full
  · have kept : DistinctKeys s.equal Entry.key
        (others s key s.entries.items) := List.Pairwise.filter _ tidy.distinct
    have distinct : DistinctKeys s.equal Entry.key
        (new :: others s key s.entries.items) := by
      rw [DistinctKeys, pairwise_cons]
      refine ⟨?_, kept⟩
      intro item mem
      rw [← sound.equates.congr same]
      simpa using (mem_filter.mp mem).2
    have found : ∀ other, State.find { s with entries } other =
        if s.equal other key then some ⟨v, deadline s.ttl out⟩
        else s.find other := by
      intro other
      have alike : s.equal other new.key = s.equal other key := by
        rw [sound.equates.comm other, sound.equates.comm other]
        exact (sound.equates.congr same other).symm
      rw [State.Tidy.find_perm sound.equates perm distinct, lookup_cons, alike,
        lookup_others sound tidy.distinct]
      split
      · rw [Option.map_some, stored]
      · rfl
    refine .inr ⟨entries, set, ?_, ?_⟩
    · unfold Timed.write
      rw [rep.ttl]
      refine (rep.mono ordered).put entries (.perm sound.equates perm ?_ distinct) ?_ ?_
      · intro item mem
        rcases mem_cons.mp mem with rfl | mem
        · exact bucketed
        · exact tidy.bucketed item (mem_filter.mp mem).1
      · intro other same
        rw [found, if_pos same]
      · intro other apart
        rw [found, if_neg (by rw [apart]; exact Bool.false_ne_true)]
    · rw [perm.length_eq, length_cons]
      exact Nat.succ_le_succ (length_filter_le _ _)

theorem Represents.get
    (ordered : clock ≤ now) {key wanted : K} (same : equal key wanted = true) :
    ∃ entries, getValue s key now =
        .ok (Timed.read table now (Quotient.mk equates.setoid wanted), { s with entries }) ∧
      Represents equates { s with entries } now table ∧
      entries.items.length ≤ s.entries.items.length := by
  obtain ⟨entries, found, perm⟩ := getValue_ok rep.sound rep.tidy key now
  obtain ⟨rep', _, fewer⟩ := rep.purged ordered perm
  refine ⟨entries, ?_, rep', fewer⟩
  rw [found, rep.read ordered, equates.mk_eq.mpr same]

theorem Represents.length
    (ordered : clock ≤ now) :
    ∃ entries, currentLength s now =
        .ok (Set.ncard {key | (Timed.read table now key).isSome = true}, { s with entries }) ∧
      Represents equates { s with entries } now table ∧
      entries.items.length ≤ s.entries.items.length := by
  obtain ⟨entries, removed, perm⟩ := removeExpired_ok s now
  obtain ⟨rep', kept, fewer⟩ := rep.purged ordered perm
  refine ⟨entries, ?_, rep', fewer⟩
  have there : {named | (Timed.read table now named).isSome = true} =
      {named | ∃ wanted, Quotient.mk equates.setoid wanted = named ∧
        (lookup equal Entry.key entries.items wanted).isSome = true} := by
    have found : ∀ wanted, (lookup equal Entry.key entries.items wanted).isSome =
        (Timed.read table now (Quotient.mk equates.setoid wanted)).isSome := by
      intro wanted
      rw [← rep.read ordered wanted, ← kept, Option.isSome_map]
      change _ = (Option.map _ (lookup s.equal _ _ _)).isSome
      rw [Option.isSome_map, rep.same]
    ext named
    constructor
    · intro some
      obtain ⟨wanted, rfl⟩ := Quotient.exists_rep named
      exact ⟨wanted, rfl, (found wanted).trans some⟩
    · rintro ⟨wanted, rfl, some⟩
      exact (found wanted).symm.trans some
  have distinct : DistinctKeys equal Entry.key entries.items :=
    rep.same ▸ rep'.tidy.distinct
  unfold currentLength
  rw [removed, there, equates.ncard_found distinct]
  rfl

end

/-- What a step of the task does, against the step of the table: the same, unless there are too many
entries to count. -/
def Follows {α : Type} (equates : Equates equal) (current : State K V) (clock : MonotonicInstant)
    (result : Outcome Empty (α × State K V))
    (expected : Outcome Empty (α × Timed.Table (Quotient equates.setoid) V)) : Prop :=
  (result = panic .overflow ∧ 2 ^ 31 ≤ current.entries.items.length + 1) ∨
  (∃ stop, result = .error stop ∧ expected = .error stop) ∨
  ∃ reply after table, result = .ok (reply, after) ∧ expected = .ok (reply, table) ∧
    Represents equates after clock table ∧
    after.entries.items.length ≤ current.entries.items.length + 1

theorem Follows.map {α β : Type} {r : Outcome Empty (α × State K V)}
    {want : Outcome Empty (α × Timed.Table (Quotient equates.setoid) V)}
    (follows : Follows equates s clock r want) (convert : α → β) :
    Follows equates s clock
      (do
        let (reply, after) ← r
        return (convert reply, after))
      (do
        let (reply, table) ← want
        return (convert reply, table)) := by
  rcases follows with
    ⟨rfl, many⟩ | ⟨stop, rfl, rfl⟩ | ⟨reply, after, table, rfl, rfl, rep, few⟩
  · exact .inl ⟨rfl, many⟩
  · exact .inr (.inl ⟨stop, rfl, rfl⟩)
  · exact .inr (.inr ⟨convert reply, after, table, rfl, rfl, rep, few⟩)

section

variable (rep : Represents equates s clock table)
include rep

omit rep in
/-- Store a value after the entries that have expired were thrown away. -/
theorem Represents.set_after {α : Type}
    (rep' : Represents equates { s with entries } now table)
    (fewer : entries.items.length ≤ s.entries.items.length) (ordered : now ≤ out)
    (key : K) (v : V) (reply : α) :
    Follows equates s out
      (do return (reply, ← setValue { s with entries } key v out))
      (.ok (reply, Timed.write table (Quotient.mk equates.setoid key) v out)) := by
  rcases rep'.set ordered key v with
    ⟨full, many⟩ | ⟨entries', set, represents'', few⟩
  · rw [full]
    refine .inl ⟨rfl, Nat.le_trans many (Nat.succ_le_succ fewer)⟩
  · rw [set]
    exact .inr (.inr ⟨reply, _, _, rfl, rfl, represents'',
      Nat.le_trans few (Nat.succ_le_succ fewer)⟩)

theorem Represents.getOrSet
    (ordered : clock ≤ now) (ordered' : now ≤ out) (key : K) (v : V) :
    Follows equates s out (getOrSetValue s key v now out)
      (match Timed.read table now (Quotient.mk equates.setoid key) with
        | some found => .ok (found, table)
        | none =>
          .ok (v, Timed.write table (Quotient.mk equates.setoid key) v out)) := by
  obtain ⟨_, got, rep', fewer⟩ := rep.get ordered
    (rep.same ▸ rep.sound.key_cloned key)
  change Follows _ _ _ (getValue s (s.cloneKey key) now >>= _) _
  rw [got, ok_bind]
  rcases Timed.read table now (Quotient.mk equates.setoid key) with _ | found
  · change Follows _ _ _ (storeDefault _ _ _ _) _
    unfold storeDefault
    rw [rep'.sound.value_cloned]
    exact rep'.set_after fewer ordered' key v v
  · exact .inr (.inr ⟨found, _, table, rfl, rfl, rep'.mono ordered',
      Nat.le_trans fewer (Nat.le_succ _)⟩)

theorem Represents.compute
    (ordered : clock ≤ now) (ordered' : now ≤ out) (key : K) (initial : V)
    (update : V → Outcome Empty V) :
    Follows equates s out (computeValue s key initial update now out)
      (do
        let next ← update
          ((Timed.read table now (Quotient.mk equates.setoid key)).getD initial)
        return (next, Timed.write table (Quotient.mk equates.setoid key) next out)) := by
  obtain ⟨_, got, rep', fewer⟩ := rep.get ordered
    (rep.same ▸ rep.sound.key_cloned key)
  change Follows _ _ _ (getValue s (s.cloneKey key) now >>= _) _
  rw [got, ok_bind]
  dsimp only
  rcases update _ with stop | next
  · exact .inr (.inl ⟨stop, rfl, rfl⟩)
  · rw [ok_bind, ok_bind, rep'.sound.value_cloned]
    exact rep'.set_after fewer ordered' key next next

/-- **One request.** -/
theorem apply_represents
    (ordered : clock ≤ now) (ordered' : now ≤ out) (op : Operation K V) :
    Follows equates s out (apply s now out op)
      (Timed.answer table now out (op.mapKey (Quotient.mk equates.setoid))) := by
  cases op with
  | set key v =>
    exact (rep.mono ordered).set_after (Nat.le_refl _) ordered' key v
      Response.done
  | get key =>
    obtain ⟨entries, got, rep', fewer⟩ := rep.get ordered (equates.refl key)
    change Follows _ _ _ (getValue s key now >>= _) _
    rw [got]
    exact .inr (.inr ⟨_, _, table, rfl, rfl, rep'.mono ordered',
      Nat.le_trans fewer (Nat.le_succ _)⟩)
  | delete key =>
    obtain ⟨entries, deleted, rep', fewer⟩ := rep.delete ordered key
    change Follows _ _ _ (deleteValue s key now >>= _) _
    rw [deleted, ← Option.isSome_map, rep.read ordered]
    exact .inr (.inr ⟨_, _, _, rfl, rfl, rep'.mono ordered',
      Nat.le_trans fewer (Nat.le_succ _)⟩)
  | has key =>
    obtain ⟨entries, got, rep', fewer⟩ := rep.get ordered (equates.refl key)
    change Follows _ _ _ (hasValue s key now >>= _) _
    unfold hasValue
    rw [got]
    exact .inr (.inr ⟨_, _, table, rfl, rfl, rep'.mono ordered',
      Nat.le_trans fewer (Nat.le_succ _)⟩)
  | len =>
    obtain ⟨_, counted, rep', fewer⟩ := rep.length ordered
    change Follows _ _ _ (currentLength s now >>= _) _
    rw [counted]
    exact .inr (.inr ⟨_, _, table, rfl, rfl, rep'.mono ordered',
      Nat.le_trans fewer (Nat.le_succ _)⟩)
  | clear =>
    refine .inr (.inr ⟨_, _, _, rfl, rfl, ?_, Nat.zero_le _⟩)
    refine ⟨rep.same, rep.sound, ⟨?_, List.Pairwise.nil⟩, ?_, rep.ttl⟩
    · rintro _ ⟨⟩
    · exact fun key => .refl none
  | getOrSet key v =>
    have follows := (rep.getOrSet ordered ordered' key v).map Response.value
    change Follows _ _ _ (getOrSetValue s key v now out >>= _)
      (match Timed.read table now (Quotient.mk equates.setoid key) with
        | some found => _
        | none => _)
    revert follows
    rcases Timed.read table now (Quotient.mk equates.setoid key) with _ | _
    all_goals exact id
  | compute key initial update =>
    have follows := (rep.compute ordered ordered' key initial update).map Response.value
    change Follows _ _ _ (computeValue s key initial update now out >>= _)
      (update ((Timed.read table now (Quotient.mk equates.setoid key)).getD initial) >>= _)
    revert follows
    rcases update _ with _ | _
    all_goals exact id
  | configureExpiry =>
    refine .inr (.inr ⟨_, _, _, rfl, rfl, ?_, Nat.le_succ _⟩)
    have rep' := (rep.mono ordered).mono ordered'
    exact ⟨rep'.same, rep'.sound,
      ⟨rep'.tidy.bucketed, rep'.tidy.distinct⟩, rep'.found, rfl⟩

/-- Requests one after the other. -/
theorem run_represents {calls : List (Call K V)} (ordered : Ordered clock calls) :
    run s calls =
        Timed.answers table (calls.map (Call.mapKey (Quotient.mk equates.setoid))) ∨
      (run s calls = panic .overflow ∧
        2 ^ 31 ≤ s.entries.items.length + calls.length) := by
  induction calls generalizing s clock table with
  | nil => exact .inl rfl
  | cons call calls ih =>
    obtain ⟨operation, now, out⟩ := call
    obtain ⟨ordered, ordered', later⟩ := ordered
    change (apply s now out operation >>= _) =
        (Timed.answer table now out (operation.mapKey (Quotient.mk equates.setoid)) >>= _) ∨
      ((apply s now out operation >>= _) = _ ∧ _)
    rw [length_cons]
    rcases apply_represents rep ordered ordered' operation with
      ⟨full, many⟩ | ⟨stop, stopped, stopped'⟩ | ⟨reply, after, table', ran, ran', next, few⟩
    · rw [full]
      exact .inr ⟨rfl, by omega⟩
    · rw [stopped, stopped']
      exact .inl rfl
    · rw [ran, ran', ok_bind, ok_bind]
      dsimp only
      rcases ih next later with same | ⟨full, many⟩
      · rw [same]
        exact .inl rfl
      · rw [full]
        exact .inr ⟨rfl, by omega⟩

end

end Steps

end FoundationLang.SafeMap
