/-
**What a step of the bulkheads can do.**

Every step that an owner or a thread may take, and that returns, makes one of a few changes.
-/

import FoundationLang.Resiliency.Bulkhead

namespace FoundationLang.Resiliency

open FoundationLang.Library

/-- The state in which a new operation acquires a bulkhead. -/
def entering (thread : ThreadId) (handle : Handle) (state : State) : State :=
  (makeOperation thread handle state).setOwners handle (state.owners handle - 1)

/-! ### Reading a state that was changed -/

section

variable (s : State) (handle other : Handle) (id : OperationId) (op : Operation)
  (thread : ThreadId) (activity : Activity) (event : Event) (r : Bulkhead) (n : ℕ)

@[simp] theorem bulkhead_setOperation :
    (s.setOperation id op).bulkhead handle = s.bulkhead handle := rfl

@[simp] theorem bulkhead_setActivity :
    (s.setActivity thread activity).bulkhead handle = s.bulkhead handle := rfl

@[simp] theorem bulkhead_setOwners :
    (s.setOwners other n).bulkhead handle = s.bulkhead handle := rfl

@[simp] theorem bulkhead_setWaiterCount :
    (s.setWaiterCount n).bulkhead handle = s.bulkhead handle := rfl

@[simp] theorem bulkhead_record :
    (s.record event).bulkhead handle = s.bulkhead handle := rfl

@[simp] theorem bulkhead_insert :
    (s.insert r).bulkhead handle =
      if r.handle = handle then some r else s.bulkhead handle := by
  unfold State.bulkhead State.insert
  by_cases same : r.handle = handle <;> simp [same]

@[simp] theorem bulkhead_remove :
    (s.remove other).bulkhead handle =
      if handle = other then none else s.bulkhead handle := by
  unfold State.bulkhead State.remove
  simp only
  induction s.bulkheads with
  | nil => simp
  | cons x =>
    by_cases same : x.handle = other <;> by_cases here : x.handle = handle
    all_goals simp_all

theorem handle_of_bulkhead {s : State} {handle : Handle} {found : Bulkhead}
    (reg : s.bulkhead handle = some found) : found.handle = handle := by
  simpa using List.find?_some reg

@[simp] theorem bulkhead_setBulkhead :
    (s.setBulkhead r).bulkhead handle =
      if handle = r.handle then (s.bulkhead handle).map fun _ => r
      else s.bulkhead handle := by
  unfold State.bulkhead State.setBulkhead
  simp only
  induction s.bulkheads with
  | nil => simp
  | cons x =>
    by_cases same : x.handle = r.handle <;> by_cases here : x.handle = handle
    all_goals simp_all
    grind

end

/-! ### The changes -/

/-- A reference to a bulkhead is given back; the last one destroys it. -/
inductive GivenBack (handle : Handle) (before : State) : State → Prop
  | none (zero : handle = 0) : GivenBack handle before before
  | kept {found : Bulkhead} (registered : before.bulkhead handle = some found)
    (more : 1 < found.references) :
    GivenBack handle before
      (before.setBulkhead { found with references := found.references - 1 })
  | destroyed {found : Bulkhead} (registered : before.bulkhead handle = some found)
    (last : found.references = 1) (still : found.running = 0) (short : found.queued = 0)
    (empty : found.waiters = []) (counted : before.bulkheadCount ≠ 0) :
    GivenBack handle before (before.remove handle)

/-- **What a step can do.** -/
inductive Change (label : Label) (before : State) : State → Prop
  | none : Change label before before
  | opened {handle : Handle} {maxConcurrent maxQueue : ℕ} (nonzero : handle ≠ 0)
    (free : before.bulkhead handle = none) :
    Change label before
      ((before.setOwners handle 1).insert ⟨handle, [], 1, 0, 0, maxConcurrent, maxQueue⟩)
  | retained {handle : Handle} {found : Bulkhead} (registered : before.bulkhead handle = some found) :
    Change label before
      ((before.setOwners handle (before.owners handle + 1)).setBulkhead
        { found with references := found.references + 1 })
  | dropped {handle : Handle} {after : State} (owned : 0 < before.owners handle)
    (back : GivenBack handle (before.setOwners handle (before.owners handle - 1)) after) :
    Change label before after
  | discarded {id : OperationId} {after : State} (made : id < before.operations)
    (spent : (before.operation id).Spent)
    (back : GivenBack (before.operation id).handle
      (before.setOperation id { before.operation id with stage := .finished }) after) :
    Change label before after
  | unregistered {thread : ThreadId} {handle : Handle}
    (idle : before.activity thread = .idle) (owned : 0 < before.owners handle)
    (missing : before.bulkhead handle = none) :
    Change label before
      ((entering thread handle before).setActivity thread
        (.acquired before.operations .unregistered))
  | admitted {thread : ThreadId} {handle : Handle} {found : Bulkhead}
    (idle : before.activity thread = .idle) (owned : 0 < before.owners handle)
    (registered : before.bulkhead handle = some found)
    (room : found.running < found.maxConcurrent) :
    Change label before
      (((entering thread handle before).setBulkhead
          { found with running := found.running + 1 }).setActivity thread
        (.acquired before.operations .admitted))
  | refused {thread : ThreadId} {handle : Handle} {found : Bulkhead}
    (idle : before.activity thread = .idle) (owned : 0 < before.owners handle)
    (registered : before.bulkhead handle = some found) :
    Change label before
      ((entering thread handle before).setActivity thread (.acquired before.operations .queueFull))
  | queued {thread : ThreadId} {handle : Handle} {found : Bulkhead}
    (idle : before.activity thread = .idle) (owned : 0 < before.owners handle)
    (registered : before.bulkhead handle = some found)
    (full : found.maxConcurrent ≤ found.running) (room : found.queued < found.maxQueue) :
    Change label before
      (((((entering thread handle before).setBulkhead
            { found with
              waiters := found.waiters ++ [before.operations]
              queued := found.queued + 1 }).setWaiterCount (before.waiterCount + 1)).record
        (.queued handle before.operations)).setActivity thread (.started before.operations))
  | completed {thread : ThreadId} {id : OperationId} {status : Status}
    (flies : (before.activity thread).completes = some (id, status)) :
    Change label before
      (((before.setActivity thread (before.activity thread).afterwards).setOperation id
          { before.operation id with status := status, completed := true }).record (.completed id))
  | requested {thread : ThreadId} {id : OperationId}
    (asked : label = .cancel thread id
      ∨ label = .endPoll thread true ∧ before.activity thread = .started id)
    (free : before.activity thread = .idle ∨ before.activity thread = .started id)
    (pending : before.Pending id) (own : (before.operation id).thread = thread)
    (uncompleted : (before.operation id).completed = false) :
    Change label before
      ((before.setOperation id { before.operation id with
          cancellationRequested := true }).setActivity thread (.cancelling id))
  | rested {thread : ThreadId} {id : OperationId}
    (free : before.activity thread = .idle ∨ before.activity thread = .started id) :
    Change label before (before.setActivity thread .idle)
  | withdrawn {thread : ThreadId} {id : OperationId} {found : Bulkhead}
    (calls : before.activity thread = .cancelling id)
    (search : before.bulkheads.find? (id ∈ ·.waiters) = some found) :
    Change label before
      ((((before.setActivity thread (.withdrawn id)).setBulkhead
            { found with
              waiters := found.waiters.erase id
              queued := found.queued - 1 }).setWaiterCount (before.waiterCount - 1)).record
        (.withdrawn found.handle id))
  | resumed {id : OperationId} (idle : before.activity (before.operation id).thread = .idle)
    (pending : before.Pending id) (completed : (before.operation id).completed = true) :
    Change label before (before.setOperation id { before.operation id with stage := .returned })
  | released {id : OperationId} {found : Bulkhead} (made : id < before.operations)
    (returned : (before.operation id).stage = .returned)
    (admitted : (before.operation id).status = .admitted)
    (registered : before.bulkhead (before.operation id).handle = some found)
    (running : found.running ≠ 0) (nobody : found.waiters = []) :
    Change label before
      ((before.setOperation id { before.operation id with stage := .released }).setBulkhead
        { found with running := found.running - 1 })
  | granted {thread : ThreadId} {id waiter : OperationId} {rest : List OperationId}
    {found : Bulkhead} (releases : label = .release thread id)
    (idle : before.activity thread = .idle) (made : id < before.operations)
    (returned : (before.operation id).stage = .returned)
    (admitted : (before.operation id).status = .admitted)
    (registered : before.bulkhead (before.operation id).handle = some found)
    (first : found.waiters = waiter :: rest) :
    Change label before
      (((((before.setOperation id { before.operation id with stage := .released }).setBulkhead
            { found with waiters := rest, queued := found.queued - 1 }).setWaiterCount
          (before.waiterCount - 1)).record
        (.granted (before.operation id).handle waiter)).setActivity thread (.granting waiter))

/-! ### The steps -/

theorem bulkheadRelease_givenBack {handle : Handle} {s after : State}
    (taken : bulkheadRelease handle s = .ok after) : GivenBack handle s after := by
  unfold bulkheadRelease at taken
  split at taken
  · rename_i zero
    cases taken
    exact .none zero
  · split at taken
    · cases taken
    · rename_i found reg
      split at taken
      · cases taken
      · split at taken
        · rename_i some more
          cases taken
          exact .kept reg (by omega)
        · split at taken
          · cases taken
          · rename_i last busy
            obtain ⟨still, short, empty⟩ : found.running = 0 ∧ found.queued = 0
              ∧ found.waiters = [] := by simpa [not_or] using busy
            split at taken
            · cases taken
            · rename_i counted
              cases taken
              exact .destroyed reg (by omega) still short empty counted

theorem start_change {label : Label} {thread : ThreadId} {handle : Handle} {s after : State}
    (idle : s.activity thread = .idle) (owned : 0 < s.owners handle)
    (taken : start thread handle s = .ok after) : Change label s after := by
  have unfolded := taken
  unfold start at unfolded
  change (bulkheadAcquire handle s.operations (entering thread handle s) >>= _) = _
    at unfolded
  have same : (entering thread handle s).bulkhead handle = s.bulkhead handle := rfl
  unfold bulkheadAcquire at unfolded
  rw [same] at unfolded
  split at unfolded
  · rename_i missing
    cases unfolded
    exact .unregistered idle owned missing
  · rename_i found reg
    split at unfolded
    · rename_i room
      cases unfolded
      exact .admitted idle owned reg room
    · rename_i full
      split at unfolded
      · cases unfolded
        exact .refused idle owned reg
      · rename_i room
        split at unfolded
        · cases unfolded
        · cases unfolded
          exact .queued idle owned reg (Nat.not_lt.1 full) (Nat.not_le.1 room)

theorem cancelWait_change {label : Label} {thread : ThreadId} {id : OperationId} {s : State}
    (asked : label = .cancel thread id
      ∨ label = .endPoll thread true ∧ s.activity thread = .started id)
    (free : s.activity thread = .idle ∨ s.activity thread = .started id)
    (pending : s.Pending id) (own : (s.operation id).thread = thread) :
    Change label s (cancelWait thread id s) := by
  unfold cancelWait requestCancellation
  by_cases heard : (!(s.operation id).completed
      && !(s.operation id).cancellationRequested) = true
  · simp only [heard, if_true]
    refine .requested asked free pending own ?_
    simp only [Bool.and_eq_true, Bool.not_eq_true'] at heard
    exact heard.1
  · simp only [heard, if_false, Bool.false_eq_true]
    exact .rested free

theorem release_change {thread : ThreadId} {id : OperationId} {s after : State}
    (idle : s.activity thread = .idle) (made : id < s.operations)
    (returned : (s.operation id).stage = .returned)
    (admitted : (s.operation id).status = .admitted)
    (taken : release thread id s = .ok after) : Change (.release thread id) s after := by
  have unfolded := taken
  unfold release at unfolded
  change (permitRelease (s.operation id).handle
    (s.setOperation id { s.operation id with stage := .released }) >>= _) = _ at unfolded
  unfold permitRelease at unfolded
  rw [bulkhead_setOperation] at unfolded
  split at unfolded
  · cases unfolded
  · rename_i found reg
    split at unfolded
    · cases unfolded
    · rename_i running
      split at unfolded
      · rename_i nobody
        cases unfolded
        exact .released made returned admitted reg running nobody
      · rename_i waiter rest x
        split at unfolded
        · cases unfolded
        · cases unfolded
          exact .granted rfl idle made returned admitted reg x

/-- **Every step makes one of the changes.** A thread between two locks of one operation is taken
to be the thread of that operation, and the operation to be pending. -/
theorem step_change {label : Label} {s after : State}
    (busy : ∀ thread id, s.activity thread = .started id →
      s.Pending id ∧ (s.operation id).thread = thread)
    (allowed : Allowed s label) (taken : step label s = .ok after) :
    Change label s after := by
  cases label with
  | openBulkhead =>
    simp only [step, bulkheadOpen] at taken
    split at taken
    · cases taken
      exact .none
    · split at taken
      · cases taken
      · cases taken
        exact .opened allowed.1 allowed.2
  | clone =>
    simp only [step, bulkheadRetain, bulkhead_setOwners] at taken
    split at taken
    · cases taken
    · rename_i found reg
      split at taken
      · cases taken
      · cases taken
        exact .retained reg
  | dropBulkhead => exact .dropped allowed (bulkheadRelease_givenBack taken)
  | start => exact start_change allowed.1 allowed.2 taken
  | complete =>
    simp only [step] at taken
    split at taken
    · rename_i id status flies
      simp only [reactorComplete] at taken
      split at taken
      · cases taken
      · cases taken
        exact .completed flies
    · cases taken
      exact .none
  | endPoll thread cancelled =>
    obtain ⟨id, -, started⟩ := allowed
    obtain ⟨pending, own⟩ := busy thread id started
    simp only [step, started] at taken
    split at taken
    · rename_i cancelled
      cases taken
      exact cancelWait_change (.inr ⟨by rw [cancelled], started⟩) (.inr started) pending own
    · cases taken
      exact .rested (.inr started)
  | cancel =>
    cases taken
    exact cancelWait_change (.inl rfl) (.inl allowed.1) allowed.2.1 allowed.2.2
  | callback =>
    obtain ⟨_, -, calls⟩ := allowed
    simp only [step, calls, bulkheadCancel] at taken
    split at taken
    · cases taken
    · rename_i found search
      split at taken
      · cases taken
      · cases taken
        exact .withdrawn calls search
  | resume =>
    cases taken
    exact .resumed allowed.1 allowed.2.1 allowed.2.2
  | release =>
    exact release_change allowed.1 allowed.2.1 allowed.2.2.1 allowed.2.2.2 taken
  | discard => exact .discarded allowed.1 allowed.2 (bulkheadRelease_givenBack taken)

end FoundationLang.Resiliency
