/-
**The bulkhead in every run.**
-/

import FoundationLang.Resiliency.Order
import Mathlib.Data.Set.Card

namespace FoundationLang.Resiliency

open List

open FoundationLang.Library

variable {handle : Handle} {id : OperationId} {thread : ThreadId} {found : Bulkhead} {label : Label}
variable {state : State}

/-! ### Soundness -/

/-- **What holds in every state of a run.** -/
structure Sound (state : State) : Prop where
  listed : Listed state
  located : ∃ place, Located state place
  disciplined : Disciplined state
  referenced : Referenced state
  guarded : Guarded state
  traced : Traced state
  counted : Counted state

theorem sound_initial : Sound bulkheads.initial where
  listed := ⟨nodup_nil, by rintro _ ⟨⟩, rfl⟩
  located := by
    refine ⟨fun _ => .absent, ⟨fun id => ?_, fun handle id => ?_, fun thread id status => ?_,
      fun id => ?_, ?_, fun handle => nodup_nil⟩⟩
    · exact iff_of_true rfl (Nat.zero_le id)
    · exact iff_of_false not_mem_nil (by rintro ⟨⟩)
    · exact iff_of_false (by rintro ⟨⟩) (by rintro ⟨⟩)
    · exact iff_of_false (by rintro ⟨⟩) (by rintro ⟨⟩)
    · rintro _ _ ⟨⟩
  disciplined := by
    refine ⟨?_, fun id made => absurd made (Nat.not_lt_zero id), fun id made =>
      absurd made (Nat.not_lt_zero id)⟩
    rintro _ _ ⟨⟩
  referenced := fun _ => rfl
  guarded := by rintro _ _ ⟨⟩
  traced := by
    refine ⟨fun _ => InOrder.empty, ?_, fun _ => rfl⟩
    rintro _ ⟨⟩
  counted := rfl

theorem Sound.change {s after : State} (sound : Sound s)
    (allowed : Allowed s label) (taken : step label s = .ok after) :
    Change label s after := by
  refine step_change (fun thread id started => ?_) allowed taken
  refine sound.disciplined.busy thread id ?_
  rw [started]
  rfl

/-- **Every change keeps a sound state sound.** -/
theorem Change.sound {s after : State} (sound : Sound s)
    (change : Change label s after) : Sound after := by
  obtain ⟨_, located⟩ := sound.located
  exact {
    listed := change.listed sound.listed
    located := change.located sound.listed located
    disciplined := change.disciplined located sound.disciplined
    referenced := change.referenced sound.listed sound.referenced
    guarded :=
      change.guarded sound.listed located sound.disciplined sound.referenced sound.guarded
    traced := change.traced sound.listed located sound.disciplined sound.traced
    counted := change.counted sound.listed sound.guarded sound.counted }

/-- **Every state of a run is sound.** -/
theorem sound_of_run {labels : List Label} (run : bulkheads.Run labels state) :
    Sound state :=
  run.invariant Sound sound_initial fun _ _ _ sound allowed taken =>
    (sound.change allowed taken).sound sound

/-! ### Panics -/

section

variable {state : State} (sound : Sound state)

include sound

theorem Sound.user_of_holds (holds : state.Holds id) :
    id ∈ state.users (state.operation id).handle := by
  obtain ⟨_, located⟩ := sound.located
  obtain ⟨made, used⟩ := located.used_of_holds sound.disciplined holds
  exact mem_users.2 ⟨made, rfl, used⟩

theorem Sound.user_of_waits (waits : id ∈ state.queue handle) :
    state.Pending id ∧ id ∈ state.users handle := by
  obtain ⟨_, located⟩ := sound.located
  have there := (located.waiting handle id).1 waits
  have made : id < state.operations := by
    by_contra unmade
    exact (located.unmade (Nat.not_lt.1 unmade)).1 handle waits
  have uncompleted : (state.operation id).completed = false := by
    by_contra completed
    have done := (located.done id).1 (by simpa using completed)
    rw [there] at done
    cases done
  have pending := sound.disciplined.pending id made uncompleted
  refine ⟨⟨made, pending⟩, mem_users.2 ⟨made, located.home handle id there, ?_⟩⟩
  rw [pending]
  rintro ⟨⟩

theorem Sound.inactive (reg : state.bulkhead handle = some found)
    (unused : ∀ id ∈ state.users handle, ¬ state.Holds id ∧ ¬ state.Pending id) :
    found.running = 0 ∧ found.queued = 0 ∧ found.waiters = [] := by
  obtain ⟨gate, keeps, holders⟩ := sound.guarded handle found reg
  have nobody : gate.holders = ∅ := by
    refine Finset.eq_empty_of_forall_notMem fun id mem => ?_
    obtain ⟨rfl, holds⟩ := (holders id).1 mem
    exact (unused id (sound.user_of_holds holds)).1 holds
  have empty : found.waiters = [] := by
    refine eq_nil_iff_forall_not_mem.2 fun id mem => ?_
    rw [← queue_of_bulkhead reg] at mem
    obtain ⟨pending, user⟩ := sound.user_of_waits mem
    exact (unused id user).2 pending
  refine ⟨?_, ?_, empty⟩
  · rw [← keeps.running, nobody, Finset.card_empty]
  · rw [← keeps.queued, keeps.waiting, empty]
    rfl

end

theorem bulkheadRelease_ok {panic : Panic}
    (reg : state.bulkhead handle = some found) (referred : 0 < found.references)
    (inactive : found.references = 1 →
      (found.running = 0 ∧ found.queued = 0 ∧ found.waiters = []) ∧ state.bulkheadCount ≠ 0) :
    bulkheadRelease handle state ≠ .error panic := by
  unfold bulkheadRelease
  split
  · rintro ⟨⟩
  · rw [reg]
    simp only
    rw [if_neg (Nat.ne_of_gt referred)]
    split
    · rintro ⟨⟩
    · rename_i last
      obtain ⟨⟨still, short, empty⟩, counted⟩ := inactive (not_not.1 last)
      rw [if_neg (by simp [still, short, empty]), if_neg counted]
      rintro ⟨⟩

theorem Listed.counted_pos (listed : Listed state)
    (reg : state.bulkhead handle = some found) : state.bulkheadCount ≠ 0 := by
  rw [listed.counted]
  exact Nat.ne_of_gt (length_pos_of_mem (mem_of_find?_eq_some reg))

/-- The panics that only counters near their largest value end in. -/
def overflows : List Panic :=
  ["bulkhead count overflow", "bulkhead waiter count overflow", "invalid bulkhead retain"]

section

variable {state : State} (sound : Sound state) {panic : Panic}

include sound

theorem Sound.registered_of_owner (owned : 0 < state.owners handle) :
    ∃ found, state.bulkhead handle = some found ∧ 0 < found.references := by
  cases reg : state.bulkhead handle with
  | none => exact absurd (sound.referenced.unused reg).1 (Nat.ne_of_gt owned)
  | some found =>
    have references := sound.referenced handle
    rw [references_of_bulkhead reg] at references
    exact ⟨found, rfl, by omega⟩

theorem Sound.drop_ok (owned : 0 < state.owners handle) :
    bulkheadRelease handle (state.setOwners handle (state.owners handle - 1)) ≠ .error panic := by
  obtain ⟨found, reg, referred⟩ := sound.registered_of_owner owned
  refine bulkheadRelease_ok reg referred fun last =>
    ⟨sound.inactive reg fun id user => ?_, sound.listed.counted_pos reg⟩
  have references := sound.referenced handle
  rw [references_of_bulkhead reg, last] at references
  have used := Finset.card_pos.2 ⟨id, user⟩
  omega

theorem Sound.discard_ok (made : id < state.operations) (spent : (state.operation id).Spent) :
    bulkheadRelease (state.operation id).handle
      (state.setOperation id { state.operation id with stage := .finished }) ≠ .error panic := by
  obtain ⟨place, located⟩ := sound.located
  have stage : (state.operation id).stage ≠ .pending ∧ (state.operation id).stage ≠ .finished := by
    rcases spent with released | ⟨returned, -⟩
    · simp [released]
    · simp [returned]
  obtain ⟨found, reg⟩ := sound.referenced.registered made stage.2
  have mem : id ∈ state.users (state.operation id).handle := mem_users.2 ⟨made, rfl, stage.2⟩
  have references := sound.referenced (state.operation id).handle
  rw [references_of_bulkhead reg] at references
  have used := Finset.card_pos.2 ⟨id, mem⟩
  refine bulkheadRelease_ok reg (by omega) fun last =>
    ⟨sound.inactive reg fun y user => ?_, sound.listed.counted_pos reg⟩
  -- the operation that is spent is the only user
  obtain rfl : y = id :=
    Finset.card_le_one.1 (by omega) y user id mem
  refine ⟨?_, fun pending => stage.1 pending.2⟩
  rintro (⟨_, flies⟩ | ⟨-, admitted, unspent⟩)
  · exact stage.1 (located.pending sound.disciplined flies).1.2
  · rcases spent with released | ⟨-, refused⟩
    · simp [released] at unspent
    · exact refused admitted

omit sound in
/-- A step that acquires ends in no panic but an overflow. -/
theorem start_error (failed : start thread handle state = .error panic) :
    panic = "bulkhead waiter count overflow" := by
  have unfolded := failed
  unfold start at unfolded
  change (bulkheadAcquire handle state.operations (entering thread handle state) >>= _) = _
    at unfolded
  unfold bulkheadAcquire at unfolded
  split at unfolded
  · cases unfolded
  · split at unfolded
    · cases unfolded
    · split at unfolded
      · cases unfolded
      · split at unfolded
        · cases unfolded
          rfl
        · cases unfolded

theorem Sound.release_ok (made : id < state.operations)
    (returned : (state.operation id).stage = .returned)
    (admitted : (state.operation id).status = .admitted) :
    release thread id state ≠ .error panic := by
  intro failed
  have unfolded := failed
  unfold release at unfolded
  change (permitRelease (state.operation id).handle
    (state.setOperation id { state.operation id with stage := .released }) >>= _) = _ at unfolded
  obtain ⟨found, reg⟩ := sound.referenced.registered made (by simp [returned])
  obtain ⟨gate, keeps, holders⟩ := sound.guarded _ found reg
  have running : found.running ≠ 0 := by
    have inside :=
      (holders id).2 (outstanding_of_returned sound.disciplined made returned admitted)
    rw [← keeps.running]
    exact Nat.ne_of_gt (Finset.card_pos.2 ⟨id, inside⟩)
  unfold permitRelease at unfolded
  rw [bulkhead_setOperation, reg] at unfolded
  simp only at unfolded
  rw [if_neg running] at unfolded
  split at unfolded
  · cases unfolded
  · rename_i waiter rest x
    have pos := sound.guarded.queued_pos reg (x ▸ mem_cons_self)
    have le := sound.counted.le reg
    rw [if_neg (by rw [State.setOperation_waiterCount]; omega)] at unfolded
    cases unfolded

theorem Sound.complete_ok {status : Status}
    (flies : (state.activity thread).completes = some (id, status)) :
    ∃ after, step (.complete thread) state = .ok after
      ∧ (after.operation id).completed = true ∧ (after.operation id).status = status := by
  obtain ⟨_, located⟩ := sound.located
  have uncompleted := (located.pending sound.disciplined flies).2
  have taken : step (.complete thread) state =
      .ok (((state.setActivity thread (state.activity thread).afterwards).setOperation id
        { state.operation id with status := status, completed := true }).record
        (.completed id)) := by
    simp only [step, flies, reactorComplete, State.setActivity_operation]
    rw [if_neg (by rw [uncompleted]; rintro ⟨⟩)]
  exact ⟨_, taken, by simp, by simp⟩

/-- **The panics of a step.** Apart from overflows there is one: a cancellation has no waiter. -/
theorem Sound.step_error (allowed : Allowed state label)
    (failed : step label state = .error panic) :
    panic ∈ overflows ∨ panic = "bulkhead cancellation has no waiter"
      ∧ ∃ thread id, label = .callback thread ∧ state.activity thread = .cancelling id
        ∧ ∀ handle, id ∉ state.queue handle := by
  cases label with
  | openBulkhead =>
    simp only [step, bulkheadOpen] at failed
    split at failed
    · cases failed
    · split at failed
      · cases failed
        exact .inl (by simp [overflows])
      · cases failed
  | clone =>
    obtain ⟨found, reg, -⟩ := sound.registered_of_owner allowed
    simp only [step, bulkheadRetain, bulkhead_setOwners, reg] at failed
    split at failed
    · cases failed
      exact .inl (by simp [overflows])
    · cases failed
  | dropBulkhead => exact absurd failed (sound.drop_ok allowed)
  | start =>
    rw [start_error failed]
    exact .inl (by simp [overflows])
  | complete =>
    obtain ⟨⟨id, status⟩, flies⟩ := Option.isSome_iff_exists.1 allowed
    obtain ⟨after, taken, -⟩ := sound.complete_ok flies
    rw [taken] at failed
    cases failed
  | endPoll =>
    obtain ⟨id, -, started⟩ := allowed
    simp only [step, started] at failed
    split at failed
    · cases failed
    · cases failed
  | cancel | resume => cases failed
  | callback thread =>
    obtain ⟨id, -, calls⟩ := allowed
    simp only [step, calls, bulkheadCancel, State.setActivity_bulkheads] at failed
    split at failed
    · rename_i search
      cases failed
      refine .inr ⟨rfl, thread, id, rfl, calls, fun handle waits => ?_⟩
      unfold State.queue at waits
      split at waits
      · rename_i found reg
        have absent := List.find?_eq_none.1 search found (mem_of_find?_eq_some reg)
        simp [waits] at absent
      · cases waits
    · rename_i found search
      obtain ⟨reg, waits⟩ := bulkhead_of_search sound.listed search
      have pos := sound.guarded.queued_pos reg waits
      have le := sound.counted.le reg
      rw [if_neg (by rw [State.setActivity_waiterCount]; omega)] at failed
      cases failed
  | release =>
    exact absurd failed (sound.release_ok allowed.2.1 allowed.2.2.1 allowed.2.2.2)
  | discard => exact absurd failed (sound.discard_ok allowed.1 allowed.2)

end

/-! ### Runs -/

/-- **The bulkhead over all interleavings.** The counters are those of its queue and of the permits
that are outstanding, waiters are served in the order in which they came, and every operation is
completed once: until then it waits in one queue or one thread has it in hand. -/
theorem bulkhead_safety {labels : List Label} {state : State}
    (run : bulkheads.Run labels state) :
    (∀ handle found, state.bulkhead handle = some found →
      found.running ≤ found.maxConcurrent
        ∧ found.queued = found.waiters.length ∧ found.queued ≤ found.maxQueue
        ∧ (found.waiters ≠ [] → found.running = found.maxConcurrent)
        ∧ Set.ncard {id | state.Outstanding handle id} = found.running)
    ∧ (∀ handle, InOrder (arrivals handle state.trace) (withdrawals handle state.trace)
        (grants handle state.trace) (state.queue handle))
    ∧ (∀ id < state.operations,
        (state.operation id).completed = true ∧ state.trace.count (.completed id) = 1
          ∨ (state.operation id).completed = false ∧ state.trace.count (.completed id) = 0
            ∧ ((∃! handle, id ∈ state.queue handle)
              ∨ ∃! thread, ∃ status, (state.activity thread).completes = some (id, status)))
    ∧ (∀ thread id status, (state.activity thread).completes = some (id, status) →
        ∃ after, step (.complete thread) state = .ok after
          ∧ (after.operation id).completed = true ∧ (after.operation id).status = status)
    ∧ ∀ label, Allowed state label →
        step label state ≠ .error "reactor operation completed twice" := by
  have sound := sound_of_run run
  obtain ⟨place, located⟩ := sound.located
  refine ⟨fun handle found registered => ?_, sound.traced.order, fun id made => ?_,
    fun thread id status flies => sound.complete_ok flies, fun label allowed failed => ?_⟩
  · obtain ⟨gate, keeps, holders⟩ := sound.guarded handle found registered
    have outstanding : {id | state.Outstanding handle id} = ↑gate.holders := by
      ext id
      exact (holders id).symm
    refine ⟨?_, ?_, ?_, fun waits => ?_, ?_⟩
    · rw [← keeps.running, ← keeps.capacity]
      exact gate.few
    · rw [← keeps.queued, keeps.waiting]
    · rw [← keeps.queued, ← keeps.limit]
      exact gate.short
    · rw [← keeps.running, ← keeps.capacity]
      exact gate.full (by rw [keeps.waiting]; exact waits)
    · rw [outstanding, Set.ncard_coe_finset, keeps.running]
  · have once := sound.traced.completions id
    cases there : place id with
    | absent => exact absurd ((located.absent id).1 there) (Nat.not_le.2 made)
    | done =>
      have completed := (located.done id).2 there
      rw [completed] at once
      exact .inl ⟨completed, once⟩
    | waiting handle =>
      have uncompleted : (state.operation id).completed = false := by
        by_contra completed
        rw [(located.done id).1 (by simpa using completed)] at there
        cases there
      rw [uncompleted] at once
      refine .inr ⟨uncompleted, once, .inl ⟨handle, (located.waiting handle id).2 there, ?_⟩⟩
      intro other waits
      rw [(located.waiting other id).1 waits] at there
      cases there
      rfl
    | flight thread status =>
      have flies := (located.flight thread id status).2 there
      have uncompleted := (located.pending sound.disciplined flies).2
      rw [uncompleted] at once
      refine .inr ⟨uncompleted, once, .inr ⟨thread, ⟨status, flies⟩, ?_⟩⟩
      rintro other ⟨outcome, again⟩
      rw [(located.flight other id outcome).1 again] at there
      cases there
      rfl
  · rcases sound.step_error allowed failed with overflow | ⟨other, -⟩
    · simp [overflows] at overflow
    · simp at other

/-- Two acquires of a bulkhead that admits one: the second waits, and the release of the first
hands the permit over. -/
def handOver : List Label :=
  [.openBulkhead 1 1 1, .clone 1, .start 0 1, .complete 0, .endPoll 0 false, .resume 0, .start 1 1,
    .endPoll 1 false, .release 0 0]

theorem bulkhead_safety_handOver :
    ∃ state, bulkheads.Run handOver state ∧ state.activity 0 = .granting 1
      ∧ Set.ncard {id | state.Outstanding 1 id} = 1
      ∧ InOrder (arrivals 1 state.trace) (withdrawals 1 state.trace) (grants 1 state.trace)
        (state.queue 1) := by
  obtain ⟨state, followed, granting, ⟨found, registered, running⟩⟩ :
      ∃ state, bulkheads.follow handOver bulkheads.initial = some state
        ∧ state.activity 0 = .granting 1
        ∧ ∃ found, state.bulkhead 1 = some found ∧ found.running = 1 := ⟨_, rfl, rfl, _, rfl, rfl⟩
  have run : bulkheads.Run handOver state := Machine.Run.start.follow followed
  obtain ⟨bounds, order, -⟩ := bulkhead_safety run
  refine ⟨state, run, granting, ?_, order 1⟩
  rw [(bounds 1 found registered).2.2.2.2, running]

end FoundationLang.Resiliency
