/-
**The bulkhead and its acquire operations.**

The bulkheads of `resiliency.c` and the reactor operations of `reactor.c` behind `Acquire`. Every
function is the part that runs under one lock. What a thread does between two locks is its
`Activity`, so that the steps of other threads can come in between.

* `Label`, `step` — one section of one thread.

Left out are the count of the operations of a reactor and the list by which it wakes tasks: a
completed operation is resumed at any later time.
-/

import FoundationLang.Library.Machine
import Mathlib.Algebra.Group.Nat.Defs
import Mathlib.Algebra.GroupWithZero.Nat
import Mathlib.Logic.Function.Basic
import Mathlib.Tactic.Simps.Basic

namespace FoundationLang.Resiliency

open FoundationLang.Library

/-- The text of a panic. -/
abbrev Panic := String

/-- The address of a bulkhead; 0 is none. -/
abbrev Handle := ℕ

/-- Operations are numbered as they are made. -/
abbrev OperationId := ℕ

/-- A thread of the program. -/
abbrev ThreadId := ℕ

/-- The largest `uint64_t`. -/
def wordMax : ℕ :=
  2 ^ 64 - 1

/-! ### Data -/

/-- How an acquire ends: 0, 1, 2 and 3. -/
inductive Status
  | admitted
  | queueFull
  | cancelled
  | unregistered
deriving DecidableEq, Repr

/-- `fdn_bulkhead`. The list from `head` to `tail` is `waiters`. -/
structure Bulkhead where
  handle : Handle
  waiters : List OperationId
  references : ℕ
  running : ℕ
  queued : ℕ
  maxConcurrent : ℕ
  maxQueue : ℕ
deriving DecidableEq, Repr

/-- How far the task of an acquire and the owner of its permit are: the reactor operation is there,
the poll returned its status, the permit was released, the bulkhead was given back. -/
inductive Stage
  | pending
  | returned
  | released
  | finished
deriving DecidableEq, Repr

/-- `fdn_reactor_operation`, with the bulkhead that is acquired and the thread of its reactor. -/
structure Operation where
  thread : ThreadId
  handle : Handle
  status : Status
  completed : Bool
  cancellationRequested : Bool
  stage : Stage
deriving DecidableEq, Repr

/-- Where a thread is between two locks. -/
inductive Activity
  | idle
  /-- `bulkhead_acquire` has left the lock and completes the operation. -/
  | acquired (operation : OperationId) (status : Status)
  /-- `fdn_reactor_poll` has called `start`. -/
  | started (operation : OperationId)
  /-- The reactor has recorded the cancellation and calls `bulkhead_cancel`. -/
  | cancelling (operation : OperationId)
  /-- `bulkhead_cancel` has left the lock and completes the operation. -/
  | withdrawn (operation : OperationId)
  /-- `bulkhead_permit_release` has left the lock and completes the operation of the waiter. -/
  | granting (operation : OperationId)
deriving DecidableEq, Repr

/-- What the sections did. -/
inductive Event
  | queued (handle : Handle) (operation : OperationId)
  | granted (handle : Handle) (operation : OperationId)
  | withdrawn (handle : Handle) (operation : OperationId)
  | completed (operation : OperationId)
deriving DecidableEq, Repr

/-- The bulkheads are listed from `fdn_bulkheads` on. `owners` counts the `Bulkhead` values of the
program, without those inside an acquire or a permit. -/
structure State where
  bulkheads : List Bulkhead
  bulkheadCount : ℕ
  waiterCount : ℕ
  operation : OperationId → Operation
  operations : ℕ
  activity : ThreadId → Activity
  owners : Handle → ℕ
  trace : List Event

/-- The operation that a thread is about to complete, and how. -/
def Activity.completes : Activity → Option (OperationId × Status)
  | .acquired operation status => some (operation, status)
  | .withdrawn operation => some (operation, .cancelled)
  | .granting operation => some (operation, .admitted)
  | .idle | .started _ | .cancelling _ => none

/-- Where the thread is after it has completed the operation. -/
def Activity.afterwards : Activity → Activity
  | .acquired operation _ => .started operation
  | _ => .idle

namespace State

/-- The bulkhead with a handle, if it is registered: `fdn_bulkhead_registered`. -/
def bulkhead (state : State) (handle : Handle) : Option Bulkhead :=
  state.bulkheads.find? (·.handle = handle)

/-- The bulkhead at the handle of a record is changed to that record. -/
@[simps] def setBulkhead (state : State) (bulkhead : Bulkhead) : State :=
  { state with
    bulkheads := state.bulkheads.map fun old => if old.handle = bulkhead.handle then bulkhead else old }

/-- Changes one operation. -/
@[simps] def setOperation (state : State) (id : OperationId) (operation : Operation) : State :=
  { state with operation := Function.update state.operation id operation }

/-- Changes what one thread is at. -/
@[simps] def setActivity (state : State) (thread : ThreadId) (activity : Activity) : State :=
  { state with activity := Function.update state.activity thread activity }

/-- Changes the owners of one bulkhead. -/
@[simps] def setOwners (state : State) (handle : Handle) (owners : ℕ) : State :=
  { state with owners := Function.update state.owners handle owners }

/-- Changes the count of waiters. -/
@[simps] def setWaiterCount (state : State) (count : ℕ) : State :=
  { state with waiterCount := count }

/-- A bulkhead becomes the first of the list. -/
@[simps] def insert (state : State) (bulkhead : Bulkhead) : State :=
  { state with
    bulkheads := bulkhead :: state.bulkheads, bulkheadCount := state.bulkheadCount + 1 }

/-- `fdn_bulkhead_remove`. -/
@[simps] def remove (state : State) (handle : Handle) : State :=
  { state with
    bulkheads := state.bulkheads.filter (·.handle ≠ handle)
    bulkheadCount := state.bulkheadCount - 1 }

/-- Writes an event down. -/
@[simps] def record (state : State) (event : Event) : State :=
  { state with trace := state.trace ++ [event] }

end State

/-! ### Under the bulkhead lock -/

/-- `foundation_runtime_bulkhead_open` with the address that the allocation returns. -/
def bulkheadOpen (handle : Handle) (maxConcurrent maxQueue : ℕ) (state : State) :
    Except Panic State :=
  if maxConcurrent = 0 then .ok state
  else if state.bulkheadCount = wordMax then .error "bulkhead count overflow"
  else .ok ((state.setOwners handle 1).insert ⟨handle, [], 1, 0, 0, maxConcurrent, maxQueue⟩)

/-- `foundation_runtime_bulkhead_retain`. -/
def bulkheadRetain (handle : Handle) (state : State) : Except Panic State :=
  match state.bulkhead handle with
  | none => .error "invalid bulkhead retain"
  | some bulkhead =>
    if bulkhead.references = wordMax then .error "invalid bulkhead retain"
    else .ok (state.setBulkhead { bulkhead with references := bulkhead.references + 1 })

/-- `foundation_runtime_bulkhead_release`. -/
def bulkheadRelease (handle : Handle) (state : State) : Except Panic State :=
  if handle = 0 then .ok state
  else match state.bulkhead handle with
    | none => .error "invalid bulkhead release"
    | some bulkhead =>
      if bulkhead.references = 0 then .error "invalid bulkhead release"
      else if bulkhead.references ≠ 1 then
        .ok (state.setBulkhead { bulkhead with references := bulkhead.references - 1 })
      else if bulkhead.running ≠ 0 ∨ bulkhead.queued ≠ 0 ∨ bulkhead.waiters ≠ [] then
        .error "cannot destroy active bulkhead"
      else if state.bulkheadCount = 0 then .error "bulkhead count underflow"
      else .ok (state.remove handle)

/-- `foundation_runtime_bulkhead_acquire` up to the end of the lock: the status that it completes
the operation with, or none when the operation waits. -/
def bulkheadAcquire (handle : Handle) (operation : OperationId) (state : State) :
    Except Panic (State × Option Status) :=
  match state.bulkhead handle with
  | none => .ok (state, some .unregistered)
  | some bulkhead =>
    if bulkhead.running < bulkhead.maxConcurrent then
      .ok (state.setBulkhead { bulkhead with running := bulkhead.running + 1 }, some .admitted)
    else if bulkhead.maxQueue ≤ bulkhead.queued then .ok (state, some .queueFull)
    else if state.waiterCount = wordMax then .error "bulkhead waiter count overflow"
    else
      let bulkhead := { bulkhead with
        waiters := bulkhead.waiters ++ [operation], queued := bulkhead.queued + 1 }
      .ok (((state.setBulkhead bulkhead).setWaiterCount (state.waiterCount + 1)).record
        (.queued handle operation), none)

/-- `foundation_runtime_bulkhead_cancel` up to the end of the lock. The bulkheads are searched in
the order of their list. -/
def bulkheadCancel (operation : OperationId) (state : State) : Except Panic State :=
  match state.bulkheads.find? (operation ∈ ·.waiters) with
  | none => .error "bulkhead cancellation has no waiter"
  | some bulkhead =>
    if bulkhead.queued = 0 ∨ state.waiterCount = 0 then .error "bulkhead waiter count underflow"
    else
      let left := { bulkhead with
        waiters := bulkhead.waiters.erase operation, queued := bulkhead.queued - 1 }
      .ok (((state.setBulkhead left).setWaiterCount (state.waiterCount - 1)).record
        (.withdrawn bulkhead.handle operation))

/-- `foundation_runtime_bulkhead_permit_release` up to the end of the lock: the operation of the
waiter that it completes, if there is one. -/
def permitRelease (handle : Handle) (state : State) :
    Except Panic (State × Option OperationId) :=
  match state.bulkhead handle with
  | none => .error "invalid bulkhead permit release"
  | some bulkhead =>
    if bulkhead.running = 0 then .error "invalid bulkhead permit release"
    else match bulkhead.waiters with
      | [] =>
        .ok (state.setBulkhead { bulkhead with running := bulkhead.running - 1 }, none)
      | waiter :: rest =>
        if bulkhead.queued = 0 ∨ state.waiterCount = 0 then
          .error "bulkhead waiter count underflow"
        else
          let left := { bulkhead with waiters := rest, queued := bulkhead.queued - 1 }
          .ok (((state.setBulkhead left).setWaiterCount (state.waiterCount - 1)).record
            (.granted handle waiter), some waiter)

/-! ### Under the lock of a reactor -/

/-- `fdn_reactor_request_cancellation` up to the end of the lock: whether the callback is called. -/
def requestCancellation (id : OperationId) (state : State) : State × Bool :=
  let operation := state.operation id
  if !operation.completed && !operation.cancellationRequested then
    (state.setOperation id { operation with cancellationRequested := true }, true)
  else (state, false)

/-- `fdn_reactor_complete`. -/
def reactorComplete (id : OperationId) (status : Status) (state : State) : Except Panic State :=
  let operation := state.operation id
  if operation.completed then .error "reactor operation completed twice"
  else .ok
    ((state.setOperation id { operation with status := status, completed := true }).record
      (.completed id))

/-- The first call of `fdn_reactor_poll` makes the operation. -/
@[simps] def makeOperation (thread : ThreadId) (handle : Handle) (state : State) : State :=
  { state.setOperation state.operations ⟨thread, handle, .admitted, false, false, .pending⟩ with
    operations := state.operations + 1 }

/-! ### Steps -/

/-- A section of some thread. -/
inductive Label
  /-- `NewBulkhead` -/
  | openBulkhead (handle : Handle) (maxConcurrent maxQueue : ℕ)
  /-- `Bulkhead.Clone` -/
  | clone (handle : Handle)
  /-- `Bulkhead.drop` -/
  | dropBulkhead (handle : Handle)
  /-- A task of `Acquire` calls `acquireBulkheadNative`, up to the end of the bulkhead lock. -/
  | start (thread : ThreadId) (handle : Handle)
  /-- The thread calls `fdn_reactor_complete` for the operation that it took out of the bulkhead. -/
  | complete (thread : ThreadId)
  /-- The end of the first `fdn_reactor_poll`; the task has been cancelled or not. -/
  | endPoll (thread : ThreadId) (cancelled : Bool)
  /-- The task of an operation is cancelled while it is parked: `fdn_reactor_cancel_wait`. -/
  | cancel (thread : ThreadId) (operation : OperationId)
  /-- The reactor calls `bulkhead_cancel`. -/
  | callback (thread : ThreadId)
  /-- The task of a completed operation is resumed: the second `fdn_reactor_poll`. -/
  | resume (operation : OperationId)
  /-- `Permit.Release` or `Permit.drop`, up to the end of the bulkhead lock. -/
  | release (thread : ThreadId) (operation : OperationId)
  /-- The bulkhead of a released permit or of a failed acquire is given back. -/
  | discard (operation : OperationId)
deriving DecidableEq, Repr

/-- A thread asks for the cancellation of an operation. -/
def cancelWait (thread : ThreadId) (operation : OperationId) (state : State) : State :=
  let (next, called) := requestCancellation operation state
  next.setActivity thread (if called then .cancelling operation else .idle)

/-- A thread asks for a permit. -/
def start (thread : ThreadId) (handle : Handle) (state : State) : Except Panic State := do
  let operation := state.operations
  let made := (makeOperation thread handle state).setOwners handle (state.owners handle - 1)
  let (next, result) ← bulkheadAcquire handle operation made
  match result with
  | some status => .ok (next.setActivity thread (.acquired operation status))
  | none => .ok (next.setActivity thread (.started operation))

/-- A thread gives its permit back. -/
def release (thread : ThreadId) (id : OperationId) (state : State) : Except Panic State := do
  let operation := state.operation id
  let (next, waiter) ← permitRelease operation.handle
    (state.setOperation id { operation with stage := .released })
  match waiter with
  | some waiter => .ok (next.setActivity thread (.granting waiter))
  | none => .ok next

/-- One step of one thread. -/
def step : Label → State → Except Panic State
  | .openBulkhead handle maxConcurrent maxQueue, state =>
    bulkheadOpen handle maxConcurrent maxQueue state
  | .clone handle, state =>
    bulkheadRetain handle (state.setOwners handle (state.owners handle + 1))
  | .dropBulkhead handle, state =>
    bulkheadRelease handle (state.setOwners handle (state.owners handle - 1))
  | .start thread handle, state => start thread handle state
  | .complete thread, state =>
    match (state.activity thread).completes with
    | some (operation, status) =>
      reactorComplete operation status
        (state.setActivity thread (state.activity thread).afterwards)
    | none => .ok state
  | .endPoll thread cancelled, state =>
    match state.activity thread with
    | .started operation =>
      if cancelled then .ok (cancelWait thread operation state)
      else .ok (state.setActivity thread .idle)
    | _ => .ok state
  | .cancel thread operation, state => .ok (cancelWait thread operation state)
  | .callback thread, state =>
    match state.activity thread with
    | .cancelling operation =>
      bulkheadCancel operation (state.setActivity thread (.withdrawn operation))
    | _ => .ok state
  | .resume id, state =>
    .ok (state.setOperation id { state.operation id with stage := .returned })
  | .release thread operation, state => release thread operation state
  | .discard id, state =>
    bulkheadRelease (state.operation id).handle
      (state.setOperation id { state.operation id with stage := .finished })

/-! ### Who may take a step -/

/-- The operation is given back next: its permit was released, or it brought none. -/
def Operation.Spent (operation : Operation) : Prop :=
  operation.stage = .released ∨ operation.stage = .returned ∧ operation.status ≠ .admitted

instance (operation : Operation) : Decidable operation.Spent :=
  inferInstanceAs (Decidable (_ ∨ _ ∧ _))

/-- The operation is in the hands of the task that polls it. -/
def State.Pending (state : State) (id : OperationId) : Prop :=
  id < state.operations ∧ (state.operation id).stage = .pending

instance (state : State) (id : OperationId) : Decidable (state.Pending id) :=
  inferInstanceAs (Decidable (_ ∧ _))

/-- **Who may take a step.** The addresses of bulkheads are their own, a bulkhead or a permit is
used by its owner, a permit is released once, and a thread does one thing at a time. -/
def Allowed (state : State) : Label → Prop
  | .openBulkhead handle _ _ => handle ≠ 0 ∧ state.bulkhead handle = none
  | .clone handle => 0 < state.owners handle
  | .dropBulkhead handle => 0 < state.owners handle
  | .start thread handle => state.activity thread = .idle ∧ 0 < state.owners handle
  | .complete thread => ((state.activity thread).completes).isSome
  | .endPoll thread _ => ∃ operation < state.operations, state.activity thread = .started operation
  | .cancel thread operation =>
    state.activity thread = .idle ∧ state.Pending operation
      ∧ (state.operation operation).thread = thread
  | .callback thread =>
    ∃ operation < state.operations, state.activity thread = .cancelling operation
  | .resume operation =>
    state.activity (state.operation operation).thread = .idle ∧ state.Pending operation
      ∧ (state.operation operation).completed = true
  | .release thread operation =>
    state.activity thread = .idle ∧ operation < state.operations
      ∧ (state.operation operation).stage = .returned
      ∧ (state.operation operation).status = .admitted
  | .discard operation => operation < state.operations ∧ (state.operation operation).Spent

instance (state : State) : (label : Label) → Decidable (Allowed state label)
  | .openBulkhead _ _ _ => inferInstanceAs (Decidable (_ ∧ _))
  | .clone _ => inferInstanceAs (Decidable (_ < _))
  | .dropBulkhead _ => inferInstanceAs (Decidable (_ < _))
  | .start _ _ => inferInstanceAs (Decidable (_ ∧ _))
  | .complete _ => inferInstanceAs (Decidable (_ = true))
  | .endPoll _ _ => inferInstanceAs (Decidable (∃ _ < _, _))
  | .cancel _ _ => inferInstanceAs (Decidable (_ ∧ _ ∧ _))
  | .callback _ => inferInstanceAs (Decidable (∃ _ < _, _))
  | .resume _ => inferInstanceAs (Decidable (_ ∧ _ ∧ _))
  | .release _ _ => inferInstanceAs (Decidable (_ ∧ _ ∧ _ ∧ _))
  | .discard _ => inferInstanceAs (Decidable (_ ∧ _))

/-- What stands for an operation before it is made. -/
def Operation.blank : Operation :=
  ⟨0, 0, .admitted, false, false, .finished⟩

/-- **The bulkheads of a program.** -/
def bulkheads : Machine State Label Panic where
  initial := ⟨[], 0, 0, fun _ => .blank, 0, fun _ => .idle, fun _ => 0, []⟩
  Allowed := Allowed
  step := step

instance (state : State) (label : Label) : Decidable (bulkheads.Allowed state label) :=
  inferInstanceAs (Decidable (Allowed state label))

end FoundationLang.Resiliency
