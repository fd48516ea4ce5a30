/-
**The pool of parallel workers.**

The functions of `pool.c`. A job is on two lists that are built into it: the pending jobs, and all jobs
that are not done. What a thread does while it holds the lock of the pool is one step.

Every job has the number of its submission. The numbers, and what is recorded of the tasks that were
submitted, taken up and run, are read by no function.
-/

import FoundationLang.Library.Chains
import FoundationLang.Library.Machine
import Mathlib.Algebra.Group.Nat.Defs

namespace FoundationLang.Parallel

open Library

/-- The address of a job. -/
abbrev Address := ℕ

/-- The text of a panic. -/
abbrev Panic := String

/-- The use of memory that was freed. -/
def freed : Panic := "use after free"

/-- A loop that does not end. -/
def endless : Panic := "loop does not end"

/-! ### Records -/

/-- `fdn_parallel_job`, with the number of its submission. -/
structure Job (T : Type) where
  pendingNext : Option Address
  allNext : Option Address
  task : Option T
  cancellationRequested : Bool
  ticket : ℕ
deriving DecidableEq, Repr

/-- `fdn_parallel_pool`, without its lock, its condition variable and its threads. -/
structure Pool where
  pendingHead : Option Address
  pendingTail : Option Address
  allHead : Option Address
  jobs : ℕ
  workerCount : ℕ
  stopping : Bool
  joined : Bool
deriving DecidableEq, Repr

/-- Where a worker is. -/
inductive Worker
  /-- It comes to the lock and looks for work. -/
  | looking
  /-- It sleeps on `work_ready`. -/
  | waiting
  /-- It has a job and is to run its task. -/
  | holding (job : Address)
  /-- It has run the task and comes to the lock. -/
  | finished (job : Address)
  /-- Its thread has ended. -/
  | exited
deriving DecidableEq, Repr

/-- **The pool, its memory and its threads.** The owner is outside of `fdn_parallel_join`, or it waits
there for the thread of an index. -/
structure State (T : Type) where
  heap : Address → Option (Job T)
  pool : Pool
  worker : ℕ → Worker
  owner : Option ℕ
  submitted : List T
  taken : List (ℕ × ℕ)
  ran : List (ℕ × ℕ × T)

variable {T : Type}

namespace State

/-- `job->pending_next`. -/
def nextPending (state : State T) (job : Address) : Option Address :=
  (state.heap job).bind Job.pendingNext

/-- `job->all_next`. -/
def nextAll (state : State T) (job : Address) : Option Address :=
  (state.heap job).bind Job.allNext

/-- A record at an address. -/
def write (state : State T) (job : Address) (record : Job T) : State T :=
  { state with heap := Function.update state.heap job (some record) }

/-- A worker at another point. -/
def move (state : State T) (id : ℕ) (worker : Worker) : State T :=
  { state with worker := Function.update state.worker id worker }

/-- `fdn_dealloc`. -/
def free (state : State T) (job : Address) : State T :=
  { state with heap := Function.update state.heap job none }

/-- The record of a job; to read a freed one is an error. -/
def read (state : State T) (job : Address) : Except Panic (Job T) :=
  match state.heap job with
  | none => .error freed
  | some record => .ok record

end State

/-! ### The lists -/

/-- `fdn_parallel_pop`. -/
def pop (state : State T) : Except Panic (Option (Address × Job T) × State T) :=
  match state.pool.pendingHead with
  | none => .ok (none, state)
  | some job => do
    let record ← state.read job
    let pool := { state.pool with pendingHead := record.pendingNext }
    let pool := if pool.pendingHead = none then { pool with pendingTail := none } else pool
    let record := { record with pendingNext := none }
    return (some (job, record), { state with pool }.write job record)

/-- The loop of `fdn_parallel_remove`: the place of the link to the job, or of the last link. -/
def seek (state : State T) (job : Address) : ℕ → Link Address → Except Panic (Link Address × Bool)
  | 0, _ => .error endless
  | fuel + 1, current =>
    match current.read state.nextAll state.pool.allHead with
    | none => .ok (current, false)
    | some other =>
      if other = job then .ok (current, true)
      else do
        let _ ← state.read other
        seek state job fuel (.next other)

/-- The link at a place of the list of all jobs is written. -/
def relink (state : State T) (link : Option Address) : Link Address → Except Panic (State T)
  | .head => .ok { state with pool := { state.pool with allHead := link } }
  | .next other => do
    let record ← state.read other
    return state.write other { record with allNext := link }

/-- `fdn_parallel_remove`. -/
def remove (state : State T) (job : Address) : Except Panic (State T) := do
  let (current, found) ← seek state job (state.pool.jobs + 1) .head
  if !found || state.pool.jobs == 0 then .error "parallel pool lost submitted work"
  else do
    let record ← state.read job
    let state ← relink state record.allNext current
    let record ← state.read job
    let state := state.write job { record with allNext := none }
    return { state with pool := { state.pool with jobs := state.pool.jobs - 1 } }

/-- The loop of `fdn_parallel_join` that requests the cancellation of all jobs. -/
def requestCancellation : ℕ → Option Address → State T → Except Panic (State T)
  | _, none, state => .ok state
  | 0, some _, _ => .error endless
  | fuel + 1, some job, state => do
    let record ← state.read job
    requestCancellation fuel record.allNext
      (state.write job { record with cancellationRequested := true })

/-- The cancellation of all jobs, if it is asked for. -/
def cancelAll (cancel : Bool) (state : State T) : Except Panic (State T) :=
  if cancel then requestCancellation (state.pool.jobs + 1) state.pool.allHead state else .ok state

/-! ### Steps -/

/-- The largest `size_t`. -/
def sizeMax : ℕ :=
  2 ^ 64 - 1

/-- A job becomes the last pending one. -/
def linkPending (job : Address) (state : State T) : Except Panic (State T) :=
  match state.pool.pendingTail with
  | none =>
    .ok { state with pool := { state.pool with pendingHead := some job, pendingTail := some job } }
  | some tail => do
    let record ← state.read tail
    let state := state.write tail { record with pendingNext := some job }
    return { state with pool := { state.pool with pendingTail := some job } }

/-- A job becomes the head of the list of all jobs. -/
def linkAll (job : Address) (state : State T) : Except Panic (State T) := do
  let record ← state.read job
  let state := state.write job { record with allNext := state.pool.allHead }
  return { state with pool := { state.pool with allHead := some job, jobs := state.pool.jobs + 1 } }

/-- `fdn_parallel_signal`, with the worker that it wakes. -/
def signal (woken : Option ℕ) (state : State T) : State T :=
  match woken with
  | none => state
  | some id => state.move id .looking

/-- **`foundation_runtime_pool_submit`**, with the address that `fdn_alloc` has found and the worker
that the signal wakes. -/
def submit (job : Address) (task : T) (woken : Option ℕ) (state : State T) :
    Except Panic (State T) := do
  let record : Job T := ⟨none, none, some task, false, state.submitted.length⟩
  let state := state.write job record
  if state.pool.stopping || state.pool.joined then .error "parallel pool is closed"
  else if state.pool.jobs = sizeMax then .error "parallel pool job count overflow"
  else do
    let state ← linkPending job state
    let state ← linkAll job state
    return signal woken { state with submitted := state.submitted ++ [task] }

/-- The section of `fdn_parallel_worker` that looks for work. -/
def look (id : ℕ) (state : State T) : Except Panic (State T) :=
  if state.pool.pendingHead = none ∧ state.pool.stopping = false then .ok (state.move id .waiting)
  else if state.pool.pendingHead = none ∧ state.pool.stopping = true then .ok (state.move id .exited)
  else do
    let (popped, state) ← pop state
    match popped with
    | none => .error "parallel pool lost pending work"
    | some (job, record) =>
      return { state.move id (.holding job) with taken := state.taken ++ [(id, record.ticket)] }

/-- The call of `fdn_task_run_transferred`. -/
def run (id : ℕ) (job : Address) (state : State T) : Except Panic (State T) := do
  let record ← state.read job
  match record.task with
  | none => .error "parallel pool requires a task"
  | some task =>
    let state := state.write job { record with task := none }
    return { state.move id (.finished job) with ran := state.ran ++ [(id, record.ticket, task)] }

/-- The section of `fdn_parallel_worker` that removes a job, and the release of its memory. -/
def finish (id : ℕ) (job : Address) (state : State T) : Except Panic (State T) := do
  let state ← remove state job
  return (state.move id .looking).free job

/-- A worker that sleeps comes to the lock. -/
def Worker.awake : Worker → Worker
  | .waiting => .looking
  | other => other

/-- The first section of `fdn_parallel_join`. -/
def join (cancel : Bool) (state : State T) : Except Panic (State T) :=
  if state.pool.joined then .ok state
  else do
    let state := { state with pool := { state.pool with stopping := true } }
    let state ← cancelAll cancel state
    return { state with worker := fun id => (state.worker id).awake, owner := some 0 }

/-- One round of the loop of `fdn_parallel_join` over the threads. -/
def await (state : State T) : State T :=
  { state with owner := state.owner.map (· + 1) }

/-- The last section of `fdn_parallel_join`. -/
def settle (state : State T) : Except Panic (State T) :=
  if state.pool.jobs ≠ 0 ∨ state.pool.pendingHead ≠ none ∨ state.pool.pendingTail ≠ none ∨
      state.pool.allHead ≠ none then .error "parallel pool joined with live work"
  else .ok { state with pool := { state.pool with joined := true }, owner := none }

/-! ### Runs -/

/-- A step of a thread. -/
inductive Action (T : Type)
  | submit (job : Address) (task : T) (woken : Option ℕ)
  | look (id : ℕ)
  | wake (id : ℕ)
  | run (id : ℕ) (job : Address)
  | finish (id : ℕ) (job : Address)
  | join (cancel : Bool)
  | await
  | settle
deriving DecidableEq, Repr

/-- A signal wakes a worker that sleeps, if there is one. -/
def Wakes (state : State T) : Option ℕ → Prop
  | some id => id < state.pool.workerCount ∧ state.worker id = .waiting
  | none => ∀ id < state.pool.workerCount, state.worker id ≠ .waiting

instance (state : State T) : (woken : Option ℕ) → Decidable (Wakes state woken)
  | some id => inferInstanceAs (Decidable (id < state.pool.workerCount ∧ state.worker id = .waiting))
  | none => inferInstanceAs (Decidable (∀ id < state.pool.workerCount, state.worker id ≠ .waiting))

/-- The owner waits for a thread that has ended. -/
def Awaits (state : State T) : Option ℕ → Prop
  | none => False
  | some index => index < state.pool.workerCount ∧ state.worker index = .exited

instance (state : State T) : (owner : Option ℕ) → Decidable (Awaits state owner)
  | none => instDecidableFalse
  | some index =>
    inferInstanceAs (Decidable (index < state.pool.workerCount ∧ state.worker index = .exited))

/-- **Where the threads are.** Memory that is found is not in use; a worker may wake up by itself; the
owner waits for a thread until it has ended. -/
def Allowed (state : State T) : Action T → Prop
  | .submit job _ woken => state.heap job = none ∧ Wakes state woken
  | .look id => id < state.pool.workerCount ∧ state.worker id = .looking
  | .wake id => id < state.pool.workerCount ∧ state.worker id = .waiting
  | .run id job => id < state.pool.workerCount ∧ state.worker id = .holding job
  | .finish id job => id < state.pool.workerCount ∧ state.worker id = .finished job
  | .join _ => state.owner = none
  | .await => Awaits state state.owner
  | .settle => state.owner = some state.pool.workerCount

instance (state : State T) : (action : Action T) → Decidable (Allowed state action)
  | .submit job _ woken => inferInstanceAs (Decidable (state.heap job = none ∧ Wakes state woken))
  | .look id =>
    inferInstanceAs (Decidable (id < state.pool.workerCount ∧ state.worker id = .looking))
  | .wake id =>
    inferInstanceAs (Decidable (id < state.pool.workerCount ∧ state.worker id = .waiting))
  | .run id job =>
    inferInstanceAs (Decidable (id < state.pool.workerCount ∧ state.worker id = .holding job))
  | .finish id job =>
    inferInstanceAs (Decidable (id < state.pool.workerCount ∧ state.worker id = .finished job))
  | .join _ => inferInstanceAs (Decidable (state.owner = none))
  | .await => inferInstanceAs (Decidable (Awaits state state.owner))
  | .settle => inferInstanceAs (Decidable (state.owner = some state.pool.workerCount))

/-- One step of one thread. -/
def step : Action T → State T → Except Panic (State T)
  | .submit job task woken, state => submit job task woken state
  | .look id, state => look id state
  | .wake id, state => .ok (state.move id .looking)
  | .run id job, state => run id job state
  | .finish id job, state => finish id job state
  | .join cancel, state => join cancel state
  | .await, state => .ok (await state)
  | .settle, state => settle state

/-- A pool that was opened; its workers come to the lock. -/
def opened (T : Type) (workers : ℕ) : State T where
  heap _ := none
  pool := ⟨none, none, none, 0, workers, false, false⟩
  worker _ := .looking
  owner := none
  submitted := []
  taken := []
  ran := []

/-- `foundation_runtime_pool_open`. -/
def poolOpen (T : Type) (workers : ℕ) : Except Panic (State T) :=
  if workers = 0 ∨ workers > sizeMax / 8 then .error "parallel pool requires a valid worker count"
  else .ok (opened T workers)

/-- **The pool as a machine**, from a first state. -/
def machine (first : State T) : Machine (State T) (Action T) Panic :=
  ⟨first, Allowed, step⟩

instance (first state : State T) (action : Action T) :
    Decidable ((machine first).Allowed state action) :=
  inferInstanceAs (Decidable (Allowed state action))

end FoundationLang.Parallel
