/-
**Channels of the runtime.**

The functions of `channel.c`, each of which does its work while it holds the lock of the channels it
touches. `actor` is the executor whose thread runs the function (`fdn_task_executor_current`).
-/

import FoundationLang.Runtime.Task

namespace FoundationLang.Runtime

open Function

variable {V : Type}

/-- `fdn_channel_lock`. -/
def lock (id : ChannelId) (state : State V) : Except Panic Unit :=
  if (state.channel id).live then .ok () else .error freed

/-! ### Parked selects -/

/-- `fdn_channel_select_claim`, when it succeeds. -/
def State.claim (state : State V) (id : WaitId) : State V :=
  { state with
    wait := update state.wait id
      ((state.wait id).map fun wait => { wait with signaled := true }) }

/-- Whether a wait exists and was not claimed. -/
def State.unclaimed (state : State V) (id : WaitId) : Bool :=
  (state.wait id).any fun wait => !wait.signaled

/-- The loop of `fdn_channel_select_signal_locked` from a registration on. -/
def signalFrom (actor : Option ExecutorId) : List (WaitId × ℕ) → State V → Except Panic (State V)
  | [], state => .ok state
  | (id, _) :: rest, state =>
    match state.wait id with
    | none => .error freed
    | some wait =>
      if wait.signaled then signalFrom actor rest state
      else do
        let state ← wake actor wait.task ⟨.selectEvent, none⟩ (state.claim id)
        signalFrom actor rest state

/-- `fdn_channel_select_signal_locked`. -/
def selectSignal (actor : Option ExecutorId) (id : ChannelId) (state : State V) :
    Except Panic (State V) :=
  signalFrom actor (state.channel id).selects state

/-- The first case of a select on a side of the channel. -/
def firstCase (channel : ChannelId) (kind : Side) :
    ℕ → List (SelectEntry V) → Option (ℕ × SelectCase V)
  | _, [] => none
  | index, entry :: rest =>
    if entry.operation.channel = channel ∧ entry.operation.kind = kind then
      some (index, entry.operation)
    else firstCase channel kind (index + 1) rest

/-- The search of `fdn_channel_select_match_locked`: a wait that has no such case or was claimed
before is passed over. -/
def candidateFrom (channel : ChannelId) (kind : Side) (state : State V) :
    List (WaitId × ℕ) → Option (WaitId × SelectWait V × ℕ × SelectCase V)
  | [] => none
  | (id, _) :: rest =>
    match state.wait id with
    | none => candidateFrom channel kind state rest
    | some wait =>
      match firstCase channel kind 0 wait.entries with
      | none => candidateFrom channel kind state rest
      | some (index, operation) =>
        if wait.signaled then candidateFrom channel kind state rest
        else some (id, wait, index, operation)

/-- The wait and the case that `fdn_channel_select_match_locked` serves. -/
def selectCandidate (channel : ChannelId) (kind : Side) (state : State V) :
    Option (WaitId × SelectWait V × ℕ × SelectCase V) :=
  candidateFrom channel kind state (state.channel channel).selects

/-- The number of cases that a wake can tell apart, `UINT_MAX >> 8`. -/
def selectLimit : ℕ := 16777215

/-- `fdn_channel_select_encode`. -/
def selectEncode (selected : ℕ) (status : Status) : Except Panic Wake :=
  if selectLimit ≤ selected then .error "channel select has too many cases"
  else .ok ⟨status, some selected⟩

/-- `fdn_channel_copy` to a receiver. -/
def State.deliver (state : State V) (channel : ChannelId) (receiver : TaskId) (value : Parcel V) :
    State V :=
  (state.modifyTask receiver fun task => { task with slot := some value }).record
    (.handed channel value receiver)

/-- `fdn_channel_select_match_locked` for a value that is sent; none when no select takes it. -/
def selectMatchReceive (actor : Option ExecutorId) (channel : ChannelId) (value : Parcel V)
    (state : State V) : Except Panic (Option (State V)) :=
  match selectCandidate channel .receive state with
  | none => .ok none
  | some (id, wait, index, _) => do
    let encoded ← selectEncode index .ready
    let state := ((state.claim id).record (.entered channel value)).deliver channel wait.task value
    let state ← wake actor wait.task encoded state
    .ok (some state)

/-- `fdn_channel_select_match_locked` for a receiver; none when no select has a value for it. -/
def selectMatchSend (actor : Option ExecutorId) (channel : ChannelId) (receiver : TaskId)
    (state : State V) : Except Panic (Option (State V)) :=
  match selectCandidate channel .send state with
  | some (id, wait, index, .send _ value) => do
    let encoded ← selectEncode index .ready
    let state := ((state.claim id).record (.entered channel value)).deliver channel receiver value
    let state ← wake actor wait.task encoded state
    .ok (some state)
  | _ => .ok none

/-! ### The buffer -/

/-- `fdn_channel_buffer_push`. -/
def bufferPush (actor : Option ExecutorId) (id : ChannelId) (value : Parcel V) (state : State V) :
    Except Panic (State V) :=
  selectSignal actor id (state.modifyChannel id fun channel =>
    { channel with messages := channel.messages ++ [value], buffered := channel.buffered + 1 })

/-- `fdn_channel_fill_buffer_from_sender`. -/
def fillBufferFromSender (actor : Option ExecutorId) (id : ChannelId) (state : State V) :
    Except Panic (State V) :=
  if (state.channel id).capacity ≤ (state.channel id).buffered
      ∨ (state.channel id).receivers = 0 then .ok state
  else
    match (state.channel id).sendQueue with
    | [] => .ok state
    | sender :: rest =>
      match (state.task sender).wait with
      | some (.send _ value) => do
        let state ← bufferPush actor id value (state.setQueue .send id rest)
        wake actor sender ⟨.ready, none⟩ state
      | _ => .error "channel value is null"

/-! ### Sends and receives under the lock -/

/-- `fdn_channel_try_send_locked` after its check of the endpoint. -/
def sendLocked (actor : Option ExecutorId) (id : ChannelId) (value : Parcel V) (state : State V) :
    Except Panic (Status × State V) :=
  if (state.channel id).receivers = 0 then .ok (.closed, state)
  else
    match (state.channel id).receiveQueue with
    | receiver :: rest =>
      match (state.task receiver).wait with
      | some (.receive _) => do
        let state := ((state.setQueue .receive id rest).record (.entered id value)).deliver id
          receiver value
        let state ← wake actor receiver ⟨.ready, none⟩ state
        .ok (.ready, state)
      | _ => .error "channel value is null"
    | [] => do
      match ← selectMatchReceive actor id value state with
      | some state => .ok (.ready, state)
      | none =>
        if (state.channel id).buffered < (state.channel id).capacity then do
          let state ← bufferPush actor id value (state.record (.entered id value))
          .ok (.ready, state)
        else .ok (.pending, state)

/-- `fdn_channel_try_receive_locked` after its check of the endpoint. -/
def receiveLocked (actor : Option ExecutorId) (receiver : TaskId) (id : ChannelId)
    (state : State V) : Except Panic (Status × State V) :=
  match (state.channel id).messages with
  | message :: rest => do
    let state := (state.modifyChannel id fun channel =>
      { channel with messages := rest, buffered := channel.buffered - 1 }).deliver id receiver message
    let state ← fillBufferFromSender actor id state
    let state ← selectSignal actor id state
    .ok (.ready, state)
  | [] =>
    match (state.channel id).sendQueue with
    | sender :: rest =>
      match (state.task sender).wait with
      | some (.send _ value) => do
        let state := (state.setQueue .send id rest).deliver id receiver value
        let state ← wake actor sender ⟨.ready, none⟩ state
        .ok (.ready, state)
      | _ => .error "channel value is null"
    | [] => do
      match ← selectMatchSend actor id receiver state with
      | some state => .ok (.ready, state)
      | none =>
        if (state.channel id).senders = 0 then .ok (.closed, state) else .ok (.pending, state)

/-- `fdn_channel_try_send_locked`. -/
def trySendLocked (actor : Option ExecutorId) (id : ChannelId) (value : Parcel V)
    (state : State V) : Except Panic (Status × State V) :=
  if (state.channel id).senders = 0 then .error "invalid channel sender in select"
  else sendLocked actor id value state

/-- `fdn_channel_try_receive_locked`. -/
def tryReceiveLocked (actor : Option ExecutorId) (receiver : TaskId) (id : ChannelId)
    (state : State V) : Except Panic (Status × State V) :=
  if (state.channel id).receivers = 0 then .error "invalid channel receiver in select"
  else receiveLocked actor receiver id state

/-! ### Operations of a task -/

/-- `fdn_channel_wait_push`, whose guard is that the task has no successor in a wait queue. -/
def waitPush (side : Side) (id : ChannelId) (task : TaskId) (state : State V) :
    Except Panic (State V) :=
  let followed (queue : List TaskId) : Bool := task ∈ queue ∧ queue.getLast? ≠ some task
  if (List.range state.channels).any fun other =>
      followed (state.channel other).sendQueue || followed (state.channel other).receiveQueue then
    .error "task is already in a channel wait queue"
  else .ok (state.setQueue side id ((state.channel id).queue side ++ [task]))

/-- The end of `fdn_channel_poll_send` and of `fdn_channel_poll_receive`: the task parks. -/
def parkOn (actor : Option ExecutorId) (side : Side) (id : ChannelId) (task : TaskId)
    (wait : Wait V) (state : State V) : Except Panic (State V) := do
  let state ← park task wait state
  let state ← waitPush side id task state
  selectSignal actor id state

/-- `fdn_channel_poll_send`. After the checks it does what `fdn_channel_try_send_locked` does, and
parks where that returns `PENDING`. -/
def pollSend (task : TaskId) (id : ChannelId) (value : Parcel V) (state : State V) :
    Except Panic (Status × State V) := do
  match ← takeWake task (.queue .send id) state with
  | (some wake, state) => .ok (wake.status, state)
  | (none, state) =>
    lock id state
    if (state.channel id).senders = 0 then .error "invalid channel sender"
    else if (state.task task).cancellationRequested then .ok (.cancelled, state)
    else do
      let (status, state) ← sendLocked (state.task task).executor id value state
      if status = .pending then do
        let state ← parkOn (state.task task).executor .send id task (.send id value)
          (state.record (.entered id value))
        .ok (.pending, state)
      else .ok (status, state)

/-- `fdn_channel_poll_receive`. After the checks it does what `fdn_channel_try_receive_locked` does,
and parks where that returns `PENDING`. -/
def pollReceive (task : TaskId) (id : ChannelId) (state : State V) :
    Except Panic (Status × State V) := do
  match ← takeWake task (.queue .receive id) state with
  | (some wake, state) => .ok (wake.status, state)
  | (none, state) =>
    lock id state
    if (state.channel id).receivers = 0 then .error "invalid channel receiver"
    else if (state.task task).cancellationRequested then .ok (.cancelled, state)
    else do
      let (status, state) ← receiveLocked (state.task task).executor task id state
      if status = .pending then do
        let state ← parkOn (state.task task).executor .receive id task (.receive id) state
        .ok (.pending, state)
      else .ok (status, state)

/-- One case of a select, if it can proceed. -/
def tryCase (actor : Option ExecutorId) (task : TaskId) (operation : SelectCase V)
    (state : State V) : Except Panic (Status × State V) :=
  match operation with
  | .send id value => trySendLocked actor id value state
  | .receive id => tryReceiveLocked actor task id state

/-- The loop of `fdn_channel_poll_select` over its cases: the first one that does not have to wait,
with its index. -/
def tryCases (actor : Option ExecutorId) (task : TaskId) :
    ℕ → List (SelectCase V) → State V → Except Panic (Option (ℕ × Status) × State V)
  | _, [], state => .ok (none, state)
  | index, operation :: rest, state => do
    let (status, state) ← tryCase actor task operation state
    if status = .pending then tryCases actor task (index + 1) rest state
    else .ok (some (index, status), state)

/-- `fdn_channel_select_lock_cases`. -/
def lockCases : List (SelectCase V) → State V → Except Panic Unit
  | [], _ => .ok ()
  | operation :: rest, state => do
    lock operation.channel state
    lockCases rest state

/-- The loop of `fdn_channel_select_register_locked`: the first case for each channel is registered
there. -/
def registerFrom (wait : WaitId) :
    List ChannelId → ℕ → List (SelectCase V) → State V → List (SelectEntry V) × State V
  | _, _, [], state => ([], state)
  | seen, index, operation :: rest, state =>
    if operation.channel ∈ seen then
      let (entries, state) := registerFrom wait seen (index + 1) rest state
      (⟨operation, none⟩ :: entries, state)
    else
      let (entries, state) := registerFrom wait (operation.channel :: seen) (index + 1) rest
        (state.modifyChannel operation.channel fun channel =>
          { channel with selects := channel.selects ++ [(wait, index)] })
      (⟨operation, some operation.channel⟩ :: entries, state)

/-- The end of `fdn_channel_poll_select`: the task parks with a new wait. -/
def selectPark (task : TaskId) (executor : ExecutorId) (context : ℕ) (cases : List (SelectCase V))
    (deadline : ℕ) (state : State V) : Except Panic (State V) := do
  let id := state.waits
  let state ← park task (.select context) state
  let (entries, state) := registerFrom id [] 0 cases state
  .ok { state with
    wait := update state.wait id (some ⟨task, context, deadline, false, entries⟩)
    selects := update state.selects executor (state.selects executor ++ [id])
    waits := id + 1 }

/-- `fdn_channel_poll_select` of a task that has no wake to take, at the time `now`; the index is the
selected case. -/
def selectTry (task : TaskId) (context : ℕ) (cases : List (SelectCase V)) (deadline now : ℕ)
    (state : State V) : Except Panic (Status × Option ℕ × State V) :=
  match (state.task task).executor with
  | none => .error "invalid channel select"
  | some executor =>
    if cases = [] then .error "invalid channel select"
    else if selectLimit ≤ cases.length then .error "channel select has too many cases"
    else if (state.task task).cancellationRequested then .ok (.cancelled, none, state)
    else do
      lockCases cases state
      match ← tryCases (some executor) task 0 cases state with
      | (some (index, status), state) => .ok (status, some index, state)
      | (none, state) =>
        if deadline ≤ now then .ok (.timeout, none, state)
        else do
          let state ← selectPark task executor context cases deadline state
          .ok (.pending, none, state)

/-- `fdn_channel_select_find`. -/
def selectFind (task : TaskId) (context : ℕ) (state : State V) : List WaitId → Option WaitId
  | [] => none
  | id :: rest =>
    if (state.wait id).any fun wait => wait.task = task ∧ wait.context = context then some id
    else selectFind task context state rest

/-- The beginning of `fdn_channel_poll_select`: a task that was woken takes its wait off the list of
its thread. -/
def selectResume (task : TaskId) (context : ℕ) (state : State V) :
    Except Panic (Option (WaitId × Wake) × State V) := do
  match ← takeWake task (.select context) state with
  | (none, state) => .ok (none, state)
  | (some wake, state) =>
    match (state.task task).executor with
    | none => .error "invalid channel select"
    | some executor =>
      match selectFind task context state (state.selects executor) with
      | none => .error "channel select resumed without a waiter"
      | some id =>
        .ok (some (id, wake),
          { state with
            selects := update state.selects executor
              ((state.selects executor).erase id) })

/-- One turn of `fdn_channel_select_unregister`, for the entry with an index. -/
def unregister (id : WaitId) (index : ℕ) (state : State V) : Except Panic (State V) :=
  match state.wait id with
  | none => .error freed
  | some wait =>
    match wait.entries[index]? with
    | some ⟨operation, some channel⟩ => do
      lock channel state
      if (id, index) ∈ (state.channel channel).selects then
        let state := state.modifyChannel channel fun channel =>
          { channel with selects := channel.selects.erase (id, index) }
        .ok { state with
          wait := update state.wait id
            (some { wait with entries := wait.entries.set index ⟨operation, none⟩ }) }
      else .error "channel select registration is missing"
    | _ => .ok state

/-! ### Cancellation and deadlines -/

/-- A parked send leaves its queue with its value. -/
def State.withdraw (state : State V) (channel : ChannelId) (task : TaskId) : State V :=
  match (state.task task).wait with
  | some (.send _ value) => state.record (.withdrawn channel value)
  | _ => state

/-- `fdn_channel_cancel_wait`; the wait is the one in the task. -/
def cancelWait (task : TaskId) (side : Side) (id : ChannelId) (state : State V) :
    Except Panic (State V) := do
  lock id state
  if task ∈ (state.channel id).queue side then
    wake (state.task task).executor task ⟨.cancelled, none⟩
      ((state.withdraw id task).setQueue side id (((state.channel id).queue side).erase task))
  else .ok state

/-- `fdn_channel_cancel_select`, on the thread of the task. -/
def cancelSelect (task : TaskId) (executor : ExecutorId) (context : ℕ) (state : State V) :
    Except Panic (State V) :=
  match selectFind task context state (state.selects executor) with
  | none => .error "channel select waiter is missing"
  | some id =>
    if state.unclaimed id then wake (some executor) task ⟨.cancelled, none⟩ (state.claim id)
    else .ok state

/-- `fdn_task_request_cancellation` of one task, on its thread. -/
def requestCancellation (id : TaskId) (state : State V) : Except Panic (State V) :=
  if (state.task id).cancellationRequested then .ok state
  else
    let requested := state.modifyTask id fun task => { task with cancellationRequested := true }
    match (state.task id).wait, (state.task id).executor with
    | some (.send channel _), _ => cancelWait id .send channel requested
    | some (.receive channel), _ => cancelWait id .receive channel requested
    | some (.select context), some executor => cancelSelect id executor context requested
    | _, _ => .ok requested

/-- The loop of `fdn_channel_select_wake_expired` over the waits of a thread. -/
def expireFrom (executor : ExecutorId) (now : ℕ) : List WaitId → State V → Except Panic (State V)
  | [], state => .ok state
  | id :: rest, state =>
    match state.wait id with
    | none => .error freed
    | some wait =>
      if wait.signaled = false ∧ wait.deadline ≤ now then do
        let state ← wake (some executor) wait.task ⟨.timeout, none⟩ (state.claim id)
        expireFrom executor now rest state
      else expireFrom executor now rest state

/-- `fdn_channel_select_wake_expired`. -/
def wakeExpired (executor : ExecutorId) (now : ℕ) (state : State V) : Except Panic (State V) :=
  expireFrom executor now (state.selects executor) state

/-! ### Endpoints -/

/-- `fdn_channel_open`. -/
def openChannel (capacity : ℕ) (state : State V) : State V :=
  { state with
    channel := update state.channel state.channels
      ⟨true, capacity, 0, 1, 1, 0, [], [], [], [], []⟩
    channels := state.channels + 1 }

/-- The largest number of endpoints, `SIZE_MAX`. -/
def endpointLimit : ℕ := 2 ^ 64 - 1

/-- `fdn_channel_clone_sender`. -/
def cloneSender (id : ChannelId) (state : State V) : Except Panic (State V) := do
  lock id state
  if (state.channel id).senders = 0 ∨ (state.channel id).senders = endpointLimit then
    .error "invalid channel sender clone"
  else .ok (state.modifyChannel id fun channel => { channel with senders := channel.senders + 1 })

/-- `fdn_channel_clone_receiver`. -/
def cloneReceiver (id : ChannelId) (state : State V) : Except Panic (State V) := do
  lock id state
  if (state.channel id).receivers = 0 ∨ (state.channel id).receivers = endpointLimit then
    .error "invalid channel receiver clone"
  else
    .ok (state.modifyChannel id fun channel => { channel with receivers := channel.receivers + 1 })

/-- The loop of `fdn_channel_wake_all` over the tasks of a queue. -/
def wakeAll (actor : Option ExecutorId) (side : Side) (id : ChannelId) :
    List TaskId → State V → Except Panic (State V)
  | [], state => .ok state
  | task :: rest, state => do
    let state ← wake actor task ⟨.closed, none⟩
      ((state.withdraw id task).setQueue side id rest)
    wakeAll actor side id rest state

/-- `fdn_channel_unused_locked`. -/
def unusedLocked (channel : Channel V) : Except Panic Bool :=
  if channel.senders ≠ 0 ∨ channel.receivers ≠ 0 ∨ channel.holds ≠ 0 then .ok false
  else if channel.messages ≠ [] ∨ channel.sendQueue ≠ [] ∨ channel.receiveQueue ≠ []
      ∨ channel.selects ≠ [] then
    .error "unused channel still owns state"
  else .ok true

/-- `fdn_channel_unused_locked` and, when the channel is unused, `fdn_channel_destroy`. -/
def destroyUnused (id : ChannelId) (state : State V) : Except Panic (State V) := do
  let destroy ← unusedLocked (state.channel id)
  .ok (if destroy then state.modifyChannel id fun channel => { channel with live := false }
    else state)

/-- `fdn_channel_drop_sender`. -/
def dropSender (actor : Option ExecutorId) (id : ChannelId) (state : State V) :
    Except Panic (State V) := do
  lock id state
  if (state.channel id).senders = 0 then .error "channel sender count underflow"
  else
    let state := state.modifyChannel id fun channel =>
      { channel with senders := channel.senders - 1 }
    if (state.channel id).senders = 0 then do
      let state ← wakeAll actor .receive id (state.channel id).receiveQueue state
      let state ← selectSignal actor id state
      destroyUnused id state
    else destroyUnused id state

/-- The first lock of `fdn_channel_drop_receiver`. The last receiver takes the messages along, and
holds the channel until they are dropped. -/
def dropReceiver (actor : Option ExecutorId) (id : ChannelId) (state : State V) :
    Except Panic (State V) := do
  lock id state
  if (state.channel id).receivers = 0 then .error "channel receiver count underflow"
  else
    let state := state.modifyChannel id fun channel =>
      { channel with receivers := channel.receivers - 1 }
    if (state.channel id).receivers = 0 then do
      let state := state.modifyChannel id fun channel =>
        if channel.messages = [] then { channel with buffered := 0 }
        else
          { channel with
            messages := [], buffered := 0, holds := channel.holds + 1,
            detached := channel.detached ++ [channel.messages] }
      let state ← wakeAll actor .send id (state.channel id).sendQueue state
      let state ← selectSignal actor id state
      destroyUnused id state
    else destroyUnused id state

/-- `fdn_channel_drop_messages`. -/
def dropEach (id : ChannelId) : List (Parcel V) → State V → State V
  | [], state => state
  | message :: rest, state => dropEach id rest (state.record (.destroyed id message))

/-- The rest of `fdn_channel_drop_receiver`, for the messages that one thread took along. -/
def dropMessages (id : ChannelId) (state : State V) : Except Panic (State V) :=
  match (state.channel id).detached with
  | [] => .ok state
  | messages :: rest => do
    let state := dropEach id messages state
    lock id state
    if (state.channel id).holds = 0 then .error "channel hold count underflow"
    else
      destroyUnused id (state.modifyChannel id fun channel =>
        { channel with holds := channel.holds - 1, detached := rest })

end FoundationLang.Runtime
