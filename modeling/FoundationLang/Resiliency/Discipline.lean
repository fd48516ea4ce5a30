/-
**What the threads and the tasks of the bulkheads have in hand.**
-/

import FoundationLang.Resiliency.Places

namespace FoundationLang.Resiliency

open Function

open FoundationLang.Library

variable {thread : ThreadId} {id : OperationId} {activity : Activity} {handle : Handle}

/-- The operation whose poll or cancellation a thread is inside. -/
def Activity.polls : Activity → Option OperationId
  | .acquired operation _ | .started operation | .cancelling operation | .withdrawn operation =>
    some operation
  | .idle | .granting _ => none

/-- What the threads and the tasks have in hand. -/
structure Disciplined (state : State) : Prop where
  busy : ∀ thread id, (state.activity thread).polls = some id →
    state.Pending id ∧ (state.operation id).thread = thread
  pending : ∀ id < state.operations, (state.operation id).completed = false →
    (state.operation id).stage = .pending
  admitted : ∀ id < state.operations, (state.operation id).stage = .released →
    (state.operation id).status = .admitted

/-! ### Discipline -/

section

variable {s : State} (disciplined : Disciplined s)

include disciplined

theorem Disciplined.setActivity
    (busy : ∀ id, activity.polls = some id →
      s.Pending id ∧ (s.operation id).thread = thread) :
    Disciplined (s.setActivity thread activity) where
  busy y id polls := by
    rw [State.setActivity_activity, update_apply] at polls
    split at polls
    · rename_i here
      rw [here]
      exact busy id polls
    · exact disciplined.busy y id polls
  pending := disciplined.pending
  admitted := disciplined.admitted

theorem Disciplined.setOperation {op : Operation}
    (pending : op.completed = false → op.stage = .pending)
    (released : op.stage = .released → op.status = .admitted)
    (busy : ∀ thread, (s.activity thread).polls = some id →
      op.stage = .pending ∧ op.thread = thread) :
    Disciplined (s.setOperation id op) where
  busy thread y polls := by
    obtain ⟨⟨made, stage⟩, own⟩ := disciplined.busy thread y polls
    unfold State.Pending
    rw [State.setOperation_operation, update_apply]
    split
    · rename_i here
      obtain ⟨stage, own⟩ := busy thread (here ▸ polls)
      exact ⟨⟨made, stage⟩, own⟩
    · exact ⟨⟨made, stage⟩, own⟩
  pending y made := by
    rw [State.setOperation_operation, update_apply]
    split
    · exact pending
    · exact disciplined.pending y made
  admitted y made := by
    rw [State.setOperation_operation, update_apply]
    split
    · exact released
    · exact disciplined.admitted y made

theorem Disciplined.same {after : State} (operations : after.operations = s.operations)
    (operation : after.operation = s.operation) (activity : after.activity = s.activity) :
    Disciplined after := by
  constructor
  · unfold State.Pending
    rw [operations, operation, activity]
    exact disciplined.busy
  · rw [operations, operation]
    exact disciplined.pending
  · rw [operations, operation]
    exact disciplined.admitted

/-- A new operation is made. -/
theorem Disciplined.enter :
    Disciplined (entering thread handle s) where
  busy y id polls := by
    obtain ⟨⟨made, stage⟩, own⟩ := disciplined.busy y id polls
    have old : id ≠ s.operations := Nat.ne_of_lt made
    unfold State.Pending
    rw [entering, State.setOwners_operation, makeOperation_operation, State.setOperation_operation,
      update_of_ne old]
    exact ⟨⟨Nat.lt_succ_of_lt made, stage⟩, own⟩
  pending id made := by
    rw [entering, State.setOwners_operation, makeOperation_operation, State.setOperation_operation,
      update_apply]
    split
    · exact fun _ => rfl
    · rename_i old
      exact disciplined.pending id (Nat.lt_of_le_of_ne (Nat.le_of_lt_succ made) old)
  admitted id made := by
    rw [entering, State.setOwners_operation, makeOperation_operation, State.setOperation_operation,
      update_apply]
    split
    · exact fun _ => rfl
    · rename_i old
      exact disciplined.admitted id (Nat.lt_of_le_of_ne (Nat.le_of_lt_succ made) old)

theorem Disciplined.enterAs (polls : activity.polls = some s.operations) :
    Disciplined ((entering thread handle s).setActivity thread activity) := by
  refine disciplined.enter.setActivity fun id polled => ?_
  obtain rfl : id = s.operations := by
    rw [polls, Option.some.injEq] at polled
    exact polled.symm
  refine ⟨⟨Nat.lt_succ_self _, ?_⟩, ?_⟩
  · rw [operation_enter]
  · rw [operation_enter]

end

theorem polls_afterwards (polls : activity.afterwards.polls = some id) :
    activity.polls = some id := by
  cases activity with
  | acquired => exact polls
  | idle | started | cancelling | withdrawn | granting => cases polls

theorem GivenBack.disciplined {s after : State}
    (disciplined : Disciplined s) (back : GivenBack handle s after) :
    Disciplined after := by
  cases back with
  | none | kept | destroyed => exact disciplined.same rfl rfl rfl

theorem Located.pending {s : State} {place : OperationId → Place}
    (located : Located s place) (disciplined : Disciplined s) {st : Status}
    (flies : (s.activity thread).completes = some (id, st)) :
    s.Pending id ∧ (s.operation id).completed = false := by
  have there := (located.flight thread id st).1 flies
  have made : id < s.operations := by
    by_contra unmade
    exact (located.unmade (Nat.not_lt.1 unmade)).2.1 thread st flies
  have uncompleted : (s.operation id).completed = false := by
    by_contra completed
    have := (located.done id).1 (by simpa using completed)
    simp [there] at this
  exact ⟨⟨made, disciplined.pending id made uncompleted⟩, uncompleted⟩

theorem Disciplined.release {s : State} (disciplined : Disciplined s)
    (made : id < s.operations) (returned : (s.operation id).stage = .returned)
    (admitted : (s.operation id).status = .admitted) :
    Disciplined (s.setOperation id { s.operation id with stage := .released }) := by
  refine disciplined.setOperation (fun uncompleted => ?_) (fun _ => admitted) fun thread polls => ?_
  · have pending := disciplined.pending id made uncompleted
    rw [returned] at pending
    cases pending
  · have pending := (disciplined.busy thread id polls).1.2
    rw [returned] at pending
    cases pending

/-- **Threads and tasks keep to their operations.** -/
theorem Change.disciplined {label : Label} {s after : State} {place : OperationId → Place}
    (located : Located s place) (disciplined : Disciplined s)
    (change : Change label s after) : Disciplined after := by
  cases change with
  | none | opened | retained => exact disciplined.same rfl rfl rfl
  | dropped owned back =>
    refine back.disciplined ?_
    exact disciplined.same rfl rfl rfl
  | @discarded id _ made spent back =>
    have unpending : (s.operation id).stage ≠ .pending := by
      intro pending
      rcases spent with released | ⟨returned, -⟩
      · rw [pending] at released
        cases released
      · rw [pending] at returned
        cases returned
    refine back.disciplined (disciplined.setOperation (fun uncompleted => ?_) (by rintro ⟨⟩) ?_)
    · exact absurd (disciplined.pending id made uncompleted) unpending
    · intro thread polls
      exact absurd (disciplined.busy thread id polls).1.2 unpending
  | unregistered | refused => exact disciplined.enterAs rfl
  | admitted | queued => exact (disciplined.enterAs rfl).same rfl rfl rfl
  | @completed thread id status flies =>
    obtain ⟨⟨made, pending⟩, -⟩ := located.pending disciplined flies
    have acts : Disciplined (s.setActivity thread (s.activity thread).afterwards) :=
      disciplined.setActivity fun y polls =>
        disciplined.busy thread y (polls_afterwards polls)
    have lands : Disciplined ((s.setActivity thread
        (s.activity thread).afterwards).setOperation id
        { s.operation id with status := status, completed := true }) := by
      refine acts.setOperation (fun _ => pending) (fun released => ?_) fun y polls => ?_
      · rw [pending] at released
        cases released
      · exact ⟨pending, (acts.busy y id polls).2⟩
    exact lands.same rfl rfl rfl
  | @requested thread id asked free pending own =>
    have asks : Disciplined (s.setOperation id
        { s.operation id with cancellationRequested := true }) :=
      disciplined.setOperation (disciplined.pending id pending.1)
        (disciplined.admitted id pending.1)
        fun y polls => ⟨pending.2, (disciplined.busy y id polls).2⟩
    refine asks.setActivity fun y polls => ?_
    cases polls
    unfold State.Pending
    rw [State.setOperation_operation, update_self]
    exact ⟨pending, own⟩
  | rested => exact disciplined.setActivity (by rintro _ ⟨⟩)
  | @withdrawn thread id found calls =>
    have acts : Disciplined (s.setActivity thread (.withdrawn id)) :=
      disciplined.setActivity fun y polls =>
        disciplined.busy thread y (by rw [calls]; exact polls)
    exact acts.same rfl rfl rfl
  | @resumed id idle pending completed =>
    refine disciplined.setOperation (fun uncompleted => ?_) (by rintro ⟨⟩) fun thread polls => ?_
    · rw [completed] at uncompleted
      cases uncompleted
    · have own := (disciplined.busy thread id polls).2
      rw [← own, idle] at polls
      cases polls
  | released made returned admitted =>
    exact (disciplined.release made returned admitted).same rfl rfl rfl
  | @granted thread id waiter rest found releases idle made returned admitted =>
    have acts : Disciplined ((s.setOperation id
        { s.operation id with stage := .released }).setActivity thread (.granting waiter)) :=
      (disciplined.release made returned admitted).setActivity (by rintro _ ⟨⟩)
    exact acts.same rfl rfl rfl

end FoundationLang.Resiliency
