/-
**Tasks of the runtime and their wakes.**

The data that `channel.c` and `task.c` share: tasks, channels, select waits and the mailboxes of the
executors, and the functions of `task.c` that park a task and wake it.
-/

import Mathlib.Algebra.Group.Nat.Defs
import Mathlib.Data.List.Nodup
import Mathlib.Logic.Function.Basic

namespace FoundationLang.Runtime

/-- Tasks are numbered as they are spawned. -/
abbrev TaskId := ℕ
/-- The channels. -/
abbrev ChannelId := ℕ
/-- The executors, each a thread. -/
abbrev ExecutorId := ℕ
/-- The waits of selects. -/
abbrev WaitId := ℕ
/-- The text of a call of `fdn_panic_cstr`, or `freed` for a use of freed memory. -/
abbrev Panic := String

/-- The use of a record that was freed. -/
def freed : Panic := "use after free"

/-! ### Records -/

/-- `fdn_channel_status`, and `FDN_CHANNEL_SELECT_EVENT`, which is a status of a wake only. -/
inductive Status
  | pending | ready | closed | cancelled | timeout | selectEvent
deriving DecidableEq, Repr

/-- The status of a wake: its low byte and, above it, the selected case. -/
structure Wake where
  status : Status
  selected : Option ℕ
deriving DecidableEq, Repr

/-- A value on its way, with the number of the send that offers it. The number tells equal values
apart; nothing depends on it. -/
structure Parcel (V : Type) where
  ticket : ℕ
  value : V
deriving DecidableEq, Repr

/-- `fdn_channel_select_kind`, and the two wait queues of a channel. -/
inductive Side
  | send | receive
deriving DecidableEq, Repr

/-- `wait_context` and `wait_kind`: what a task waits for. -/
inductive Source
  | queue (side : Side) (channel : ChannelId)
  | select (context : ℕ)
deriving DecidableEq, Repr

/-- The wait of a parked task. A send waits with its value; a receive waits for one in `slot`. -/
inductive Wait (V : Type)
  | send (channel : ChannelId) (value : Parcel V)
  | receive (channel : ChannelId)
  | select (context : ℕ)
deriving DecidableEq, Repr

/-- `fdn_channel_select_case`. -/
inductive SelectCase (V : Type)
  | send (channel : ChannelId) (value : Parcel V)
  | receive (channel : ChannelId)
deriving DecidableEq, Repr

/-- `fdn_channel_select_entry`: a case and the channel of its registration. -/
structure SelectEntry (V : Type) where
  operation : SelectCase V
  registration : Option ChannelId
deriving DecidableEq, Repr

/-- `fdn_channel_select_wait`. -/
structure SelectWait (V : Type) where
  task : TaskId
  context : ℕ
  deadline : ℕ
  signaled : Bool
  entries : List (SelectEntry V)
deriving DecidableEq, Repr

/-- The operation that a task is inside. A select that was woken removes its registrations one by
one, each under the lock of its channel, before it goes on. -/
inductive Frame (V : Type)
  | idle
  | send (channel : ChannelId) (value : Parcel V)
  | receive (channel : ChannelId)
  | select (context : ℕ) (cases : List (SelectCase V)) (deadline : ℕ)
  | closing (context : ℕ) (cases : List (SelectCase V)) (deadline : ℕ) (wait : WaitId) (next : ℕ)
    (wake : Wake)
deriving DecidableEq, Repr

/-- `fdn_task`. The memory that a receive writes to is `slot`. -/
structure Task (V : Type) where
  executor : Option ExecutorId
  wait : Option (Wait V)
  wake : Option (Source × Wake)
  cancellationRequested : Bool
  queued : Bool
  ready : Bool
  slot : Option (Parcel V)
  frame : Frame V
deriving DecidableEq, Repr

/-- `fdn_channel`. `live` is false before the channel is opened and after it is destroyed;
`detached` is what the threads inside `fdn_channel_drop_receiver` are dropping. -/
structure Channel (V : Type) where
  live : Bool
  capacity : ℕ
  buffered : ℕ
  senders : ℕ
  receivers : ℕ
  holds : ℕ
  messages : List (Parcel V)
  sendQueue : List TaskId
  receiveQueue : List TaskId
  selects : List (WaitId × ℕ)
  detached : List (List (Parcel V))
deriving DecidableEq, Repr

/-- What the steps do to values and tasks. -/
inductive Event (V : Type)
  /-- A send took effect under the lock: it was handed over, entered the buffer or parked. -/
  | entered (channel : ChannelId) (value : Parcel V)
  /-- A value was copied to a receiver. -/
  | handed (channel : ChannelId) (value : Parcel V) (receiver : TaskId)
  /-- A parked send left the queue with its value. -/
  | withdrawn (channel : ChannelId) (value : Parcel V)
  /-- A buffered value was dropped with the last receiver. -/
  | destroyed (channel : ChannelId) (value : Parcel V)
  /-- The send of a value returned a status; `pending` for a case that a select did not choose. -/
  | reported (value : Parcel V) (status : Status)
  /-- A receive returned a value. -/
  | received (receiver : TaskId) (value : Parcel V)
  | parked (task : TaskId)
  | woken (task : TaskId)
deriving DecidableEq, Repr

/-- The state of the runtime. Records are numbered in the order in which they are made. -/
structure State (V : Type) where
  channel : ChannelId → Channel V
  task : TaskId → Task V
  wait : WaitId → Option (SelectWait V)
  mailbox : ExecutorId → List (TaskId × Wake)
  selects : ExecutorId → List WaitId
  channels : ℕ
  tasks : ℕ
  waits : ℕ
  tickets : ℕ
  trace : List (Event V)

variable {V : Type}

/-- The channel of a case. -/
def SelectCase.channel : SelectCase V → ChannelId
  | .send channel _ => channel
  | .receive channel => channel

/-- The side that a case uses. -/
def SelectCase.kind : SelectCase V → Side
  | .send _ _ => .send
  | .receive _ => .receive

/-- Where a parked task waits. -/
def Wait.source : Wait V → Source
  | .send channel _ => .queue .send channel
  | .receive channel => .queue .receive channel
  | .select context => .select context

/-- The queue of a side. -/
def Channel.queue (channel : Channel V) : Side → List TaskId
  | .send => channel.sendQueue
  | .receive => channel.receiveQueue

/-- Another queue of a side. -/
def Channel.setQueue (channel : Channel V) (queue : List TaskId) : Side → Channel V
  | .send => { channel with sendQueue := queue }
  | .receive => { channel with receiveQueue := queue }

namespace State

/-- Changes one task. -/
def modifyTask (state : State V) (id : TaskId) (change : Task V → Task V) : State V :=
  { state with task := Function.update state.task id (change (state.task id)) }

/-- Changes one channel. -/
def modifyChannel (state : State V) (id : ChannelId) (change : Channel V → Channel V) : State V :=
  { state with channel := Function.update state.channel id (change (state.channel id)) }

/-- A wait queue of a channel is replaced. -/
def setQueue (state : State V) (side : Side) (id : ChannelId) (queue : List TaskId) : State V :=
  state.modifyChannel id fun channel => channel.setQueue queue side

/-- One more event. -/
def record (state : State V) (event : Event V) : State V :=
  { state with trace := state.trace ++ [event] }

/-- Several more events. -/
def recordAll (state : State V) (events : List (Event V)) : State V :=
  { state with trace := state.trace ++ events }

end State

/-! ### Parking and waking -/

/-- `fdn_task_park_current`. -/
def park (id : TaskId) (wait : Wait V) (state : State V) : Except Panic (State V) :=
  if (state.task id).wait.isSome || (state.task id).wake.isSome then
    .error "task already has a wait source"
  else
    .ok ((state.modifyTask id fun task => { task with wait := some wait }).record (.parked id))

/-- `fdn_task_take_wake`. -/
def takeWake (id : TaskId) (source : Source) (state : State V) :
    Except Panic (Option Wake × State V) :=
  match (state.task id).wake with
  | none => .ok (none, state)
  | some (origin, wake) =>
    if origin ≠ source then .error "task resumed for a different wait source"
    else .ok (some wake, state.modifyTask id fun task => { task with wake := none })

/-- What a wake does to its task, which then is queued. -/
def Task.awake (task : Task V) (wake : Wake) : Task V :=
  { task with wait := none, wake := task.wait.map fun wait => (wait.source, wake), queued := true }

/-- `fdn_task_wake_local`. A task that is woken is in no wait queue, so that its `wait_next` is null
already. -/
def wakeLocal (actor : Option ExecutorId) (id : TaskId) (wake : Wake) (state : State V) :
    Except Panic (State V) :=
  if (state.task id).wait.isNone || decide ((state.task id).executor ≠ actor)
      || (state.task id).wake.isSome || (state.task id).queued || (state.task id).ready then
    .error "invalid task wake"
  else .ok (state.modifyTask id fun task => task.awake wake)

/-- `fdn_task_wake`, called by the thread of an executor or by one that runs no tasks. -/
def wake (actor : Option ExecutorId) (id : TaskId) (wake : Wake) (state : State V) :
    Except Panic (State V) :=
  let state := state.record (.woken id)
  match (state.task id).executor with
  | none => .error "invalid task wake target"
  | some executor =>
    if some executor = actor then wakeLocal actor id wake state
    else
      .ok { state with
        mailbox := Function.update state.mailbox executor
          (state.mailbox executor ++ [(id, wake)]) }

/-- The wakes that `fdn_task_executor_drain` took from the mailbox. -/
def wakeEach (executor : ExecutorId) : List (TaskId × Wake) → State V → Except Panic (State V)
  | [], state => .ok state
  | (id, wake) :: rest, state =>
    if (state.task id).executor ≠ some executor then
      .error "task executor mailbox contains an invalid wake"
    else do
      let state ← wakeLocal (some executor) id wake state
      wakeEach executor rest state

/-- `fdn_task_executor_drain`. -/
def drain (executor : ExecutorId) (state : State V) : Except Panic (State V) :=
  wakeEach executor (state.mailbox executor)
    { state with mailbox := Function.update state.mailbox executor [] }

end FoundationLang.Runtime
