/-
**The number of shards does not matter.**
-/

import FoundationLang.SafeMap.Refinement

namespace FoundationLang.SafeMap

open Library Outcome Standard

variable {K V : Type}

/-- The same entry in the only shard. -/
def Entry.unsharded (item : Entry K V) : Entry K V :=
  { item with bucket := 0 }

/-- **The same task with one shard.** -/
def State.unsharded (current : State K V) : State K V where
  entries := current.entries.map Entry.unsharded
  equal := current.equal
  cloneKey := current.cloneKey
  cloneValue := current.cloneValue
  hash := singleShard
  shardCount := 1
  ttl := current.ttl
  sharded := Nat.one_pos

theorem bind_unsharded {α β : Type} {x x' : Outcome Empty (α × State K V)}
    {next next' : α × State K V → Outcome Empty (β × State K V)}
    (same : x' = x.map fun (result, after) => (result, after.unsharded))
    (onward : ∀ result after, x = .ok (result, after) → next' (result, after.unsharded) =
      (next (result, after)).map fun (result, after) => (result, after.unsharded)) :
    (x' >>= next') =
      (x >>= next).map fun (result, after) => (result, after.unsharded) := by
  rw [same]
  rcases x with stop | ⟨result, after⟩
  · rfl
  · exact onward result after rfl

/-- A loop over the entries that does the same with one shard. -/
theorem sweep_unsharded {σ : Type} {s : State K V} {visit visit' : σ → Entry K V → σ × Bool}
    (same : ∀ memory, ∀ item ∈ s.entries.items,
      visit' memory item.unsharded = visit memory item) (memory : σ) :
    (sweep (fun memory item => .ok (visit' memory item)) s.unsharded.entries.items memory
        .newList >>= fun (result, restored) =>
        (.ok (result, { s.unsharded with entries := restored }) : Outcome Empty _)) =
      (sweep (fun memory item => .ok (visit memory item)) s.entries.items memory .newList >>=
        fun (result, restored) => .ok (result, { s with entries := restored })).map
          fun (result, after) => (result, after.unsharded) := by
  have swept := sweep_map (ε := Empty) Entry.unsharded
    (fun memory item => .ok (visit memory item)) (fun memory item => .ok (visit' memory item))
    s.entries.items (fun memory item mem => congrArg _ (same memory item mem)) memory
    .newList
  change (sweep _ (s.entries.items.map Entry.unsharded) memory
    ((LinkedList.newList : LinkedList (Entry K V)).map Entry.unsharded) >>= _) = _
  rw [swept]
  rcases sweep _ _ _ _ with stop | ⟨result, after⟩ <;> rfl

section Agreement

variable {s : State K V} (sound : s.Sound) (tidy : s.Tidy)
  {now out : MonotonicInstant} (key : K) (value : V)

include sound

theorem keyMatches_unsharded {item : Entry K V}
    (bucketed : item.bucket = bucketFor s item.key) :
    keyMatches s.unsharded key item.unsharded = keyMatches s key item := by
  have sound' : s.unsharded.Sound :=
    { sound with hashed := fun _ _ _ => rfl }
  rw [keyMatches_eq sound bucketed, keyMatches_eq sound' (Nat.mod_one 0).symm]
  rfl

theorem restore_unsharded (out : MonotonicInstant) {src : List (Entry K V)}
    (bucketed : ∀ item ∈ src, item.bucket = bucketFor s item.key) (found : Bool)
    (restored : LinkedList (Entry K V)) :
    restore s.unsharded key value out (src.map Entry.unsharded) found
        (restored.map Entry.unsharded) =
      (restore s key value out src found restored).map fun (found, after) =>
        (found, after.map Entry.unsharded) := by
  induction src generalizing found restored with
  | nil => rfl
  | cons item src ih =>
    have bucketed' : ∀ item ∈ src, item.bucket = bucketFor s item.key :=
      fun item mem => bucketed item (List.mem_cons_of_mem _ mem)
    rw [List.map_cons, restore, restore,
      keyMatches_unsharded sound key (bucketed item List.mem_cons_self)]
    split
    · have pushed := LinkedList.map_pushFront (ε := Empty) Entry.unsharded restored
        (rewritten s value out item)
      change ((restored.map Entry.unsharded).pushFront
        (rewritten s value out item).unsharded >>= _) =
          Except.map _ (restored.pushFront (rewritten s value out item) >>= _)
      rw [pushed]
      rcases restored.pushFront (rewritten s value out item) with stop | longer
      · rfl
      · exact ih bucketed' true longer
    · rw [LinkedList.map_pushFront]
      rcases restored.pushFront item with _ | longer
      · rfl
      · exact ih bucketed' found longer

include tidy

theorem setValue_unsharded :
    setValue s.unsharded key value out =
      (setValue s key value out).map State.unsharded := by
  have restored := restore_unsharded sound key value out tidy.bucketed false .newList
  change (restore s.unsharded key value out (s.entries.items.map Entry.unsharded)
    false ((LinkedList.newList : LinkedList (Entry K V)).map Entry.unsharded) >>= _) = _
  rw [restored]
  unfold setValue
  rcases restore s key value out s.entries.items false .newList with
    stop | ⟨found, after⟩
  · rfl
  · change (insertMissing s.unsharded key value out found
      (after.map Entry.unsharded) >>= _) =
      (insertMissing s key value out found after >>= _).map State.unsharded
    cases found with
    | true => rfl
    | false =>
      have pushed := LinkedList.map_pushFront (ε := Empty) Entry.unsharded after
        ⟨key, value, bucketFor s key, out, s.ttl⟩
      have missing : insertMissing s.unsharded key value out false
          (after.map Entry.unsharded) = (after.map Entry.unsharded).pushFront
            (Entry.unsharded ⟨key, value, bucketFor s key, out, s.ttl⟩) := rfl
      have missing' : insertMissing s key value out false after =
          after.pushFront ⟨key, value, bucketFor s key, out, s.ttl⟩ := rfl
      rw [missing, missing', pushed]
      rcases after.pushFront _ with stop | longer <;> rfl

theorem getValue_unsharded (now : MonotonicInstant) :
    getValue s.unsharded key now =
      (getValue s key now).map fun (result, after) => (result, after.unsharded) := by
  refine sweep_unsharded (fun result item mem => ?_) none
  unfold look
  rw [keyMatches_unsharded sound key (tidy.bucketed item mem)]
  rfl

theorem deleteValue_unsharded :
    deleteValue s.unsharded key now =
      (deleteValue s key now).map fun (deleted, after) => (deleted, after.unsharded) := by
  refine sweep_unsharded (fun deleted item mem => ?_) false
  unfold strike
  rw [keyMatches_unsharded sound key (tidy.bucketed item mem)]
  rfl

omit sound tidy in
theorem currentLength_unsharded (s : State K V) (now : MonotonicInstant) :
    currentLength s.unsharded now =
      (currentLength s now).map fun (length, after) => (length, after.unsharded) := by
  have swept := sweep_map (ε := Empty) Entry.unsharded
    (fun _ item => .ok ((), !expired item now)) (fun _ item => .ok ((), !expired item now))
    s.entries.items (fun _ _ _ => rfl) () .newList
  change ((sweep (fun _ item => .ok ((), !expired item now))
    (s.entries.items.map Entry.unsharded) ()
    ((LinkedList.newList : LinkedList (Entry K V)).map Entry.unsharded) >>= _) >>= _) = _
  rw [swept]
  unfold currentLength removeExpired
  rcases sweep _ _ _ _ with _ | ⟨_, after⟩
  · rfl
  · change Except.ok ((after.map Entry.unsharded).items.length, _) = _
    rw [LinkedList.map, List.length_map]
    rfl
theorem getValue_tidy {r : Option V} {t : State K V}
    (got : getValue s key now = .ok (r, t)) : t.Sound ∧ t.Tidy := by
  obtain ⟨_, found, perm⟩ := getValue_ok sound tidy key now
  rw [found] at got
  cases got
  refine ⟨sound, .perm sound.equates perm ?_ (List.Pairwise.filter _ tidy.distinct)⟩
  exact fun item mem => tidy.bucketed item (List.mem_filter.mp mem).1

theorem getOrSetValue_unsharded :
    getOrSetValue s.unsharded key value now out =
      (getOrSetValue s key value now out).map fun (result, after) =>
        (result, after.unsharded) := by
  refine bind_unsharded (getValue_unsharded sound tidy (s.cloneKey key) now) fun result after got =>
    ?_
  obtain ⟨sound', tidy'⟩ := getValue_tidy sound tidy _ got
  cases result with
  | some => rfl
  | none =>
    change (setValue after.unsharded key value out >>= _) =
      Except.map _ (setValue after key value out >>= _)
    rw [setValue_unsharded sound' tidy']
    rcases setValue after key value out with stop | final <;> rfl

theorem computeValue_unsharded (initial : V) (update : V → Outcome Empty V) :
    computeValue s.unsharded key initial update now out =
      (computeValue s key initial update now out).map fun (result, after) =>
        (result, after.unsharded) := by
  refine bind_unsharded (getValue_unsharded sound tidy (s.cloneKey key) now)
    fun existing after got => ?_
  obtain ⟨sound', tidy'⟩ := getValue_tidy sound tidy _ got
  change (update (existing.getD initial) >>= _) =
    Except.map _ (update (existing.getD initial) >>= _)
  rcases update (existing.getD initial) with stop | next
  · rfl
  · change (setValue after.unsharded key (after.cloneValue next) out >>= _) =
      Except.map _ (setValue after key (after.cloneValue next) out >>= _)
    rw [setValue_unsharded sound' tidy']
    rcases setValue after key _ out with stop | final <;> rfl

/-- **One shard or many**, a request does the same. -/
theorem apply_unsharded (op : Operation K V) :
    apply s.unsharded now out op =
      (apply s now out op).map fun (reply, after) => (reply, after.unsharded) := by
  cases op with
  | set key value =>
    change (setValue s.unsharded key value out >>= _) =
      Except.map _ (setValue s key value out >>= _)
    rw [setValue_unsharded sound tidy]
    rcases setValue s key value out with stop | after <;> rfl
  | get key => exact bind_unsharded (getValue_unsharded sound tidy key now) fun _ _ _ => rfl
  | delete key => exact bind_unsharded (deleteValue_unsharded sound tidy key) fun _ _ _ => rfl
  | has key =>
    exact bind_unsharded (bind_unsharded (getValue_unsharded sound tidy key now) fun _ _ _ => rfl)
      fun _ _ _ => rfl
  | len => exact bind_unsharded (currentLength_unsharded s now) fun _ _ _ => rfl
  | clear | configureExpiry => rfl
  | getOrSet key value =>
    exact bind_unsharded (getOrSetValue_unsharded sound tidy key value) fun _ _ _ => rfl
  | compute key initial update =>
    exact bind_unsharded (computeValue_unsharded sound tidy key initial update) fun _ _ _ => rfl

end Agreement

/-! ### Runs -/

theorem run_unsharded {equal : K → K → Bool} {equates : Equates equal} {s : State K V}
    {clock : MonotonicInstant} {table : Timed.Table (Quotient equates.setoid) V}
    (rep : Represents equates s clock table) {calls : List (Call K V)}
    (ordered : Ordered clock calls) : run s.unsharded calls = run s calls := by
  induction calls generalizing s clock table with
  | nil => rfl
  | cons call calls ih =>
    obtain ⟨operation, now, out⟩ := call
    obtain ⟨ordered, ordered', later⟩ := ordered
    change (apply s.unsharded now out operation >>= _) =
      (apply s now out operation >>= _)
    rw [apply_unsharded rep.sound rep.tidy]
    rcases apply_represents rep ordered ordered' operation with
      ⟨full, _⟩ | ⟨stop, stopped, _⟩ | ⟨reply, after, table', ran, _, next, _⟩
    · rw [full]
      rfl
    · rw [stopped]
      rfl
    · rw [ran]
      change (run after.unsharded calls >>= _) = (run after calls >>= _)
      rw [ih next later]

theorem newMap_represents {equal : K → K → Bool} {cloneKey : K → K} {cloneValue : V → V}
    {hash : K → ℕ} (callbacks : Callbacks equal cloneKey cloneValue hash) (shardCount : ℕ)
    (sharded : 0 < shardCount) :
    Represents callbacks.equates (newMap equal cloneKey cloneValue hash shardCount sharded) ⟨0⟩
      {} := by
  refine ⟨rfl, callbacks, ⟨?_, List.Pairwise.nil⟩, ?_, rfl⟩
  · rintro _ ⟨⟩
  · exact fun key => .refl none

/-- **`std.safemap` is a table with expiry times**: whatever its clients ask for while the clock
does not go back, they get what a table answers, or the program stops after at least `2 ^ 31`
requests because the entries cannot be counted. With another number of shards, and with the map that
has only one, they get the same. -/
theorem safemap_refines {equal : K → K → Bool} {cloneKey : K → K} {cloneValue : V → V}
    {hash : K → ℕ} (callbacks : Callbacks equal cloneKey cloneValue hash) (calls : List (Call K V))
    (ordered : Ordered ⟨0⟩ calls) (shardCount : ℤ) :
    (run (newSharded equal cloneKey cloneValue hash shardCount) calls =
        Timed.answers {} (calls.map (Call.mapKey (Quotient.mk callbacks.equates.setoid))) ∨
      (run (newSharded equal cloneKey cloneValue hash shardCount) calls = panic .overflow ∧
        2 ^ 31 ≤ calls.length)) ∧
    run (newSharded equal cloneKey cloneValue hash shardCount) calls =
      run (new equal cloneKey cloneValue) calls := by
  have represents := newMap_represents callbacks (normalizedShardCount shardCount)
    (normalizedShardCount_pos shardCount)
  refine ⟨?_, ?_⟩
  · rcases run_represents represents ordered with same | ⟨full, many⟩
    · exact .inl same
    · refine .inr ⟨full, ?_⟩
      change 2 ^ 31 ≤ 0 + calls.length at many
      omega
  · exact (run_unsharded represents ordered).symm

/-- Numbers compared by their last digit, in as many shards as there are without a choice. -/
theorem safemap_refines_sample :
    (run (newSharded (fun left right => left % 10 == right % 10) id id (fun key => key % 10) 0)
        [⟨.set 1 'a', ⟨5⟩, ⟨6⟩⟩, ⟨.configureExpiry 2, ⟨7⟩, ⟨7⟩⟩, ⟨.set 12 'b', ⟨7⟩, ⟨8⟩⟩,
          ⟨.get 11, ⟨20⟩, ⟨20⟩⟩, ⟨.get 2, ⟨21⟩, ⟨21⟩⟩] =
      .ok [.done, .done, .done, .maybeValue (some 'a'), .maybeValue none]) ∧
    run (newSharded (fun left right => left % 10 == right % 10) id id (fun key => key % 10) 0)
        [⟨.set 1 'a', ⟨5⟩, ⟨6⟩⟩, ⟨.configureExpiry 2, ⟨7⟩, ⟨7⟩⟩, ⟨.set 12 'b', ⟨7⟩, ⟨8⟩⟩,
          ⟨.get 11, ⟨20⟩, ⟨20⟩⟩, ⟨.get 2, ⟨21⟩, ⟨21⟩⟩] =
      run (new (fun left right => left % 10 == right % 10) id id)
        [⟨.set 1 'a', ⟨5⟩, ⟨6⟩⟩, ⟨.configureExpiry 2, ⟨7⟩, ⟨7⟩⟩, ⟨.set 12 'b', ⟨7⟩, ⟨8⟩⟩,
          ⟨.get 11, ⟨20⟩, ⟨20⟩⟩, ⟨.get 2, ⟨21⟩, ⟨21⟩⟩] := by
  have callbacks : Callbacks (fun left right : ℕ => left % 10 == right % 10) id (id : Char → Char)
      (fun key => key % 10) :=
    { equates :=
        { refl := fun key => by simp
          symm := fun first second same => by simpa using (beq_iff_eq.mp same).symm
          trans := fun first second third same same' => by
            rw [beq_iff_eq] at same same' ⊢
            exact same.trans same' }
      hashed := fun first second same => beq_iff_eq.mp same
      key_cloned := fun key => by simp
      value_cloned := fun _ => rfl }
  refine ⟨?_, (safemap_refines callbacks _ ?_ 0).2⟩
  · rfl
  · simp [Ordered, MonotonicInstant.le_iff]

end FoundationLang.SafeMap
