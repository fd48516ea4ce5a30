/-
**The bookkeeping of tasks, queues and selects.**

`Tidy` says, for a state inside a step, that every parked task waits in one place only: in one
queue, in one unclaimed select, among the held tasks or in a mailbox.
-/

import FoundationLang.Runtime.Views

namespace FoundationLang.Runtime

variable {V : Type}

/-- A mailbox has a wake for the task. -/
def Mailed (mailbox : ExecutorId → List (TaskId × Wake)) (id : TaskId) : Prop :=
  ∃ executor status, (id, status) ∈ mailbox executor

/-- The wait of a task that is parked inside an operation. -/
def Frame.wait : Frame V → Option (Wait V)
  | .send channel value => some (.send channel value)
  | .receive channel => some (.receive channel)
  | .select context _ _ => some (.select context)
  | .idle | .closing .. => none

/-! ### The invariant -/

/-- The wait and the wake of a task fit its operation. -/
structure Task.Tidy (task : Task V) : Prop where
  waiting : ∀ wait, task.wait = some wait → task.frame.wait = some wait ∧ task.wake = none
    ∧ task.queued = false ∧ task.ready = false ∧ task.executor ≠ none
  woken : ∀ source status, task.wake = some (source, status) →
    ∃ wait, task.frame.wait = some wait ∧ wait.source = source

/-- A task outside of every wait is neither parked nor woken. -/
theorem Task.Tidy.at_work {task : Task V} (fits : task.Tidy) (outside : task.frame.wait = none) :
    task.wait = none ∧ task.wake = none := by
  refine ⟨?_, ?_⟩
  · by_contra waits
    obtain ⟨wait, waits⟩ := Option.ne_none_iff_exists'.mp waits
    rw [(fits.waiting wait waits).1] at outside
    cases outside
  · by_contra wakes
    obtain ⟨⟨source, wake⟩, wakes⟩ := Option.ne_none_iff_exists'.mp wakes
    obtain ⟨_, inside, -⟩ := fits.woken source wake wakes
    rw [inside] at outside
    cases outside

theorem Task.tidy_of_none {task : Task V} (unparked : task.wait = none) (unwoken : task.wake = none) :
    task.Tidy := by
  refine ⟨fun wait waits => ?_, fun source status wakes => ?_⟩
  · rw [unparked] at waits
    cases waits
  · rw [unwoken] at wakes
    cases wakes

/-- Every parked task waits in one place. -/
structure Tokens (waiting : TaskId → Option (Wait V)) (home : TaskId → Option ExecutorId)
    (queue : ChannelId → Side → List TaskId) (wait : WaitId → Option (SelectWait V))
    (mailbox : ExecutorId → List (TaskId × Wake)) (held : List TaskId) : Prop where
  queued : ∀ channel side id, id ∈ queue channel side →
    ∃ wait, waiting id = some wait ∧ wait.source = .queue side channel
  queueNodup : ∀ channel side, (queue channel side).Nodup
  unclaimed : ∀ id found, wait id = some found → found.signaled = false →
    waiting found.task = some (.select found.context)
  parked : ∀ id ∈ held, waiting id ≠ none ∧ ¬Mailed mailbox id
  heldNodup : held.Nodup
  mailed : ∀ executor id status, (id, status) ∈ mailbox executor →
    waiting id ≠ none ∧ home id = some executor
  mailNodup : ∀ executor, ((mailbox executor).map Prod.fst).Nodup
  queuedFree : ∀ channel side id, id ∈ queue channel side → id ∉ held ∧ ¬Mailed mailbox id
  unclaimedFree : ∀ id found, wait id = some found → found.signaled = false →
    found.task ∉ held ∧ ¬Mailed mailbox found.task

/-- A wait whose task has not taken its wake yet. -/
def Listed (waiting : TaskId → Option (Wait V)) (home : TaskId → Option ExecutorId)
    (woken : TaskId → Option (Source × Wake)) (frame : TaskId → Frame V)
    (selects : ExecutorId → List WaitId) (result : Option TaskId) (id : WaitId)
    (wait : SelectWait V) : Prop :=
  frame wait.task = .select wait.context (wait.entries.map SelectEntry.operation) wait.deadline
    ∧ (waiting wait.task ≠ none ∨ woken wait.task ≠ none ∨ result = some wait.task)
    ∧ ∃ executor, home wait.task = some executor ∧ id ∈ selects executor

/-- A wait whose task removes its registrations, which are gone up to the next one. -/
def Closing (frame : TaskId → Frame V) (id : WaitId) (wait : SelectWait V) : Prop :=
  wait.signaled = true ∧ ∃ next status,
    frame wait.task = .closing wait.context (wait.entries.map SelectEntry.operation) wait.deadline id
      next status
    ∧ ∀ place < next, ∀ entry, wait.entries[place]? = some entry → entry.registration = none

/-- Waits and the tasks that they belong to. -/
structure Selects (waiting : TaskId → Option (Wait V)) (home : TaskId → Option ExecutorId)
    (woken : TaskId → Option (Source × Wake)) (frame : TaskId → Frame V)
    (wait : WaitId → Option (SelectWait V)) (selects : ExecutorId → List WaitId) (waits : ℕ)
    (result : Option TaskId) : Prop where
  fresh : ∀ id, waits ≤ id → wait id = none
  owner : ∀ id found, wait id = some found →
    Listed waiting home woken frame selects result id found ∨ Closing frame id found
  listed : ∀ executor id, id ∈ selects executor → ∃ found, wait id = some found
    ∧ home found.task = some executor
    ∧ frame found.task
      = .select found.context (found.entries.map SelectEntry.operation) found.deadline
  nodup : ∀ executor, (selects executor).Nodup
  one : ∀ id other found found', wait id = some found → wait other = some found' →
    found.task = found'.task → id = other
  has : ∀ task context cases deadline, frame task = .select context cases deadline →
    waiting task ≠ none ∨ woken task ≠ none →
    ∃ id found, wait id = some found ∧ found.task = task
  closing : ∀ task context cases deadline id next status,
    frame task = .closing context cases deadline id next status →
    ∃ found, wait id = some found ∧ found.task = task

/-- The registrations of a channel are those that the waits know of. -/
structure Registrations (wait : WaitId → Option (SelectWait V))
    (registered : ChannelId → List (WaitId × ℕ)) : Prop where
  known : ∀ channel id place, (id, place) ∈ registered channel ↔
    ∃ found entry, wait id = some found ∧ found.entries[place]? = some entry
      ∧ entry.registration = some channel
  nodup : ∀ channel, (registered channel).Nodup
  own : ∀ id found entry channel, wait id = some found → entry ∈ found.entries →
    entry.registration = some channel → entry.operation.channel = channel
  whole : ∀ id found entry, wait id = some found → found.signaled = false →
    entry ∈ found.entries → ∃ first ∈ found.entries,
      first.registration = some entry.operation.channel
  short : ∀ id found, wait id = some found → found.entries.length < selectLimit

/-- Endpoints and the operations that use them. -/
structure Endpoints (frame : TaskId → Frame V) (channel : ChannelId → Channel V) (channels : ℕ) :
    Prop where
  used : ∀ task, ∀ endpoint ∈ (frame task).endpoints,
    0 < (channel endpoint.2).endpoints endpoint.1
  live : ∀ id, 0 < (channel id).senders ∨ 0 < (channel id).receivers ∨ 0 < (channel id).holds →
    (channel id).live = true
  holds : ∀ id, (channel id).holds = (channel id).detached.length
  emptied : ∀ id, (channel id).receivers = 0 → (channel id).messages = []
  fresh : ∀ id, channels ≤ id → channel id = .blank

/-- **The bookkeeping is in order.** -/
structure Tidy (config : Config V) : Prop where
  tasks : ∀ id, (config.state.task id).Tidy
  unspawned : ∀ id, config.state.tasks ≤ id → config.state.task id = .blank
  atWork : ∀ id status, config.result = some (id, status) → (config.state.task id).AtWork
  tokens : Tokens config.state.waiting config.state.home config.state.queues config.state.wait
    config.state.mailbox (config.held.map Prod.fst)
  selects : Selects config.state.waiting config.state.home config.state.woken config.state.frame
    config.state.wait config.state.selects config.state.waits (config.result.map Prod.fst)
  registrations : Registrations config.state.wait config.state.registered
  endpoints : Endpoints config.state.frame config.state.channel config.state.channels

end FoundationLang.Runtime
