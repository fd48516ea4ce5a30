/-
**What a step can do.**

Every step of the runtime is a sequence of effects. Between the effects of one step some tasks are
`held`: they were taken out of the place where they waited and are to be woken next. A channel is
`loud` while its selects are to be signalled, and `closing` while its queue is to be emptied, and the
operation that runs may have its `result` already.

The invariants of the runtime are proved effect by effect.
-/

import FoundationLang.Runtime.System
import Mathlib.Logic.Relation

namespace FoundationLang.Runtime

variable {V : Type}
variable {channel : ChannelId} {kind : Side}

/-- A state inside a step. -/
structure Config (V : Type) where
  state : State V
  held : List (TaskId × Wake)
  result : Option (TaskId × Wake)
  loud : List ChannelId
  closing : List ChannelId

/-- A state between two steps. -/
def Config.of (state : State V) : Config V :=
  ⟨state, [], none, [], []⟩

/-- The task is neither parked nor woken from a wait. -/
def Task.AtWork (task : Task V) : Prop :=
  task.wait = none ∧ task.wake = none

/-- The operation offers a value to a channel, as a case of a select or by itself. -/
def Frame.Offers (frame : Frame V) (channel : ChannelId) (value : Parcel V) (index : Option ℕ) :
    Prop :=
  (frame = .send channel value ∧ index = none)
    ∨ ∃ context cases deadline place, frame = .select context cases deadline
      ∧ index = some place ∧ cases[place]? = some (.send channel value)

/-- The operation wants a value from a channel. -/
def Frame.Wants (frame : Frame V) (channel : ChannelId) (index : Option ℕ) : Prop :=
  (frame = .receive channel ∧ index = none)
    ∨ ∃ context cases deadline place, frame = .select context cases deadline
      ∧ index = some place ∧ cases[place]? = some (.receive channel)

theorem firstCase_some {start : ℕ} {entries : List (SelectEntry V)} {p : ℕ}
    {operation : SelectCase V}
    (found : firstCase channel kind start entries = some (p, operation)) :
    operation.channel = channel ∧ operation.kind = kind ∧ ∃ offset entry,
      p = start + offset ∧ entries[offset]? = some entry ∧ entry.operation = operation := by
  induction entries generalizing start with
  | nil => cases found
  | cons entry rest ih =>
    unfold firstCase at found
    split_ifs at found with fits
    · cases found
      exact ⟨fits.1, fits.2, 0, entry, rfl, rfl, rfl⟩
    · obtain ⟨same, kind, offset, entry', rfl, here, operation⟩ := ih found
      exact ⟨same, kind, offset + 1, entry', by omega, here, operation⟩

theorem firstCase_none {start : ℕ} {entries : List (SelectEntry V)}
    (missed : firstCase channel kind start entries = none) {e : SelectEntry V}
    (mem : e ∈ entries) :
    ¬(e.operation.channel = channel ∧ e.operation.kind = kind) := by
  induction entries generalizing start with
  | nil => cases mem
  | cons x rest ih =>
    unfold firstCase at missed
    split_ifs at missed with fits
    rcases List.mem_cons.mp mem with rfl | mem
    · exact fits
    · exact ih missed mem

theorem candidate_some {s : State V} {id : WaitId} {wait : SelectWait V} {p : ℕ}
    {operation : SelectCase V}
    (found : selectCandidate channel kind s = some (id, wait, p, operation)) :
    s.wait id = some wait ∧ wait.signaled = false
      ∧ (∃ index, (id, index) ∈ (s.channel channel).selects)
      ∧ operation.channel = channel ∧ operation.kind = kind
      ∧ ∃ entry, wait.entries[p]? = some entry ∧ entry.operation = operation := by
  unfold selectCandidate at found
  generalize (s.channel channel).selects = list at found ⊢
  induction list with
  | nil => cases found
  | cons first rest ih =>
    obtain ⟨y, index⟩ := first
    have later (found : candidateFrom channel kind s rest
        = some (id, wait, p, operation)) :=
      (ih found).imp_right (And.imp_right (And.imp_left (Exists.imp fun _ mem =>
        List.mem_cons_of_mem (y, index) mem)))
    unfold candidateFrom at found
    cases there : s.wait y with
    | none =>
      simp only [there] at found
      exact later found
    | some wait' =>
      cases first : firstCase channel kind 0 wait'.entries with
      | none =>
        simp only [there, first] at found
        exact later found
      | some pair =>
        obtain ⟨_, _⟩ := pair
        simp only [there, first] at found
        by_cases signaled : wait'.signaled = true
        · rw [if_pos signaled] at found
          exact later found
        · rw [if_neg signaled] at found
          cases found
          obtain ⟨same, kind, _, entry, rfl, here, operation⟩ := firstCase_some first
          rw [Nat.zero_add]
          exact ⟨there, by simpa using signaled, ⟨index, List.mem_cons_self⟩, same, kind, entry,
            here, operation⟩

/-- A select is served when one can be. -/
theorem candidate_none {s : State V} (missed : selectCandidate channel kind s = none)
    {id : WaitId} {i : ℕ} (registered : (id, i) ∈ (s.channel channel).selects)
    {wait : SelectWait V} (there : s.wait id = some wait) (unclaimed : wait.signaled = false)
    {e : SelectEntry V} (mem : e ∈ wait.entries) :
    ¬(e.operation.channel = channel ∧ e.operation.kind = kind) := by
  unfold selectCandidate at missed
  generalize (s.channel channel).selects = list at missed registered
  induction list with
  | nil => cases registered
  | cons first rest ih =>
    obtain ⟨y, _⟩ := first
    unfold candidateFrom at missed
    rcases List.mem_cons.mp registered with same | registered
    · cases same
      rw [there] at missed
      cases first : firstCase channel kind 0 wait.entries with
      | none => exact firstCase_none first mem
      | some => simp [first, unclaimed] at missed
    · refine ih ?_ registered
      cases there' : s.wait y with
      | none => simpa only [there'] using missed
      | some wait' =>
        cases first : firstCase channel kind 0 wait'.entries with
        | none => simpa only [there', first] using missed
        | some =>
          simp only [there', first] at missed
          split_ifs at missed
          exact missed

/-- A send to the channel has to wait. -/
def SendBlocked (state : State V) (channel : ChannelId) : Prop :=
  (state.channel channel).receivers ≠ 0 ∧ (state.channel channel).receiveQueue = []
    ∧ selectCandidate channel .receive state = none
    ∧ (state.channel channel).capacity ≤ (state.channel channel).buffered

/-- A receive from the channel has to wait. -/
def ReceiveBlocked (state : State V) (channel : ChannelId) : Prop :=
  (state.channel channel).messages = [] ∧ (state.channel channel).sendQueue = []
    ∧ selectCandidate channel .send state = none ∧ (state.channel channel).senders ≠ 0

/-- A case of a select has to wait. -/
def Blocked (state : State V) : SelectCase V → Prop
  | .send channel _ => SendBlocked state channel
  | .receive channel => ReceiveBlocked state channel

/-- A message leaves the buffer for a receiver. -/
def State.takeMessage (state : State V) (channel : ChannelId) (receiver : TaskId)
    (message : Parcel V) (rest : List (Parcel V)) : State V :=
  (state.modifyChannel channel fun channel =>
    { channel with messages := rest, buffered := channel.buffered - 1 }).deliver channel receiver
      message

/-- A message enters the buffer. -/
def State.push (state : State V) (channel : ChannelId) (message : Parcel V) : State V :=
  state.modifyChannel channel fun channel =>
    { channel with messages := channel.messages ++ [message], buffered := channel.buffered + 1 }

/-- The task parks in a queue of the channel. -/
def State.parkIn (state : State V) (side : Side) (channel : ChannelId) (task : TaskId)
    (wait : Wait V) : State V :=
  ((state.modifyTask task fun task => { task with wait := some wait }).record
    (.parked task)).setQueue side channel ((state.channel channel).queue side ++ [task])

/-- The last receiver takes the messages along. -/
def Channel.detach (channel : Channel V) : Channel V :=
  if channel.messages = [] then { channel with buffered := 0 }
  else
    { channel with
      messages := [], buffered := 0, holds := channel.holds + 1,
      detached := channel.detached ++ [channel.messages] }

/-- One effect of a step. -/
inductive Effect : Config V → Config V → Prop
  /-- A select is signalled, cancelled or expires. -/
  | claim {config : Config V} {id : WaitId} {wait : SelectWait V} {status : Status}
    (found : config.state.wait id = some wait) (unclaimed : wait.signaled = false)
    (kind : status = .selectEvent ∨ status = .cancelled ∨ status = .timeout) :
    Effect config { config with
      state := config.state.claim id, held := (wait.task, ⟨status, none⟩) :: config.held }
  /-- `fdn_task_wake` of a held task. -/
  | wake {config : Config V} {actor : Option ExecutorId} {id : TaskId} {status : Wake}
    {rest : List (TaskId × Wake)} {woken : State V} (held : config.held = (id, status) :: rest)
    (done : wake actor id status config.state = .ok woken) :
    Effect config { config with state := woken, held := rest }
  /-- A wake leaves the mailbox. -/
  | receiveMail {config : Config V} {executor : ExecutorId} {id : TaskId} {status : Wake}
    {rest : List (TaskId × Wake)}
    (first : config.state.mailbox executor = (id, status) :: rest) :
    Effect config { config with
      state := { config.state with mailbox := Function.update config.state.mailbox executor rest
        }.modifyTask id fun task => task.awake status }
  /-- A value goes to a parked receiver. -/
  | handReceiver {config : Config V} {channel : ChannelId} {value : Parcel V} {task receiver : TaskId}
    {rest : List TaskId} {index : Option ℕ} (idle : config.result = none)
    (atWork : (config.state.task task).AtWork)
    (offers : (config.state.task task).frame.Offers channel value index)
    (alive : (config.state.channel channel).receivers ≠ 0)
    (queue : (config.state.channel channel).receiveQueue = receiver :: rest)
    (waits : (config.state.task receiver).wait = some (.receive channel)) :
    Effect config { config with
      state := ((config.state.setQueue .receive channel rest).record
        (.entered channel value)).deliver channel receiver value
      held := (receiver, ⟨.ready, none⟩) :: config.held
      result := some (task, ⟨.ready, index⟩) }
  /-- A value goes to a parked select. -/
  | handSelect {config : Config V} {channel : ChannelId} {value : Parcel V} {task : TaskId}
    {index : Option ℕ} {id : WaitId} {wait : SelectWait V} {place : ℕ} {operation : SelectCase V}
    (idle : config.result = none) (atWork : (config.state.task task).AtWork)
    (offers : (config.state.task task).frame.Offers channel value index)
    (alive : (config.state.channel channel).receivers ≠ 0)
    (queue : (config.state.channel channel).receiveQueue = [])
    (candidate : selectCandidate channel .receive config.state = some (id, wait, place, operation))
    (quiet : channel ∉ config.loud) :
    Effect config { config with
      state := ((config.state.claim id).record (.entered channel value)).deliver channel wait.task
        value
      held := (wait.task, ⟨.ready, some place⟩) :: config.held
      result := some (task, ⟨.ready, index⟩) }
  /-- A value enters the buffer. -/
  | push {config : Config V} {channel : ChannelId} {value : Parcel V} {task : TaskId}
    {index : Option ℕ} (idle : config.result = none) (atWork : (config.state.task task).AtWork)
    (offers : (config.state.task task).frame.Offers channel value index)
    (alive : (config.state.channel channel).receivers ≠ 0)
    (queue : (config.state.channel channel).receiveQueue = [])
    (room : (config.state.channel channel).buffered < (config.state.channel channel).capacity) :
    Effect config { config with
      state := (config.state.record (.entered channel value)).push channel value
      result := some (task, ⟨.ready, index⟩)
      loud := channel :: config.loud }
  /-- A receiver takes a message, and no sender is parked or wanted. -/
  | takeMessage {config : Config V} {channel : ChannelId} {message : Parcel V}
    {rest : List (Parcel V)} {task : TaskId} {index : Option ℕ} (idle : config.result = none)
    (atWork : (config.state.task task).AtWork)
    (wants : (config.state.task task).frame.Wants channel index)
    (buffer : (config.state.channel channel).messages = message :: rest)
    (settled : (config.state.channel channel).sendQueue = []
      ∨ (config.state.channel channel).capacity ≤ (config.state.channel channel).buffered - 1) :
    Effect config { config with
      state := config.state.takeMessage channel task message rest
      result := some (task, ⟨.ready, index⟩)
      loud := channel :: config.loud }
  /-- A receiver takes a message, and the first parked sender refills the buffer. -/
  | takeRefill {config : Config V} {channel : ChannelId} {message value : Parcel V}
    {rest : List (Parcel V)} {task sender : TaskId} {others : List TaskId} {index : Option ℕ}
    (idle : config.result = none) (atWork : (config.state.task task).AtWork)
    (wants : (config.state.task task).frame.Wants channel index)
    (buffer : (config.state.channel channel).messages = message :: rest)
    (room : (config.state.channel channel).buffered - 1 < (config.state.channel channel).capacity)
    (alive : (config.state.channel channel).receivers ≠ 0)
    (queue : (config.state.channel channel).sendQueue = sender :: others)
    (waits : (config.state.task sender).wait = some (.send channel value)) :
    Effect config { config with
      state := ((config.state.takeMessage channel task message rest).setQueue .send channel
        others).push channel value
      held := (sender, ⟨.ready, none⟩) :: config.held
      result := some (task, ⟨.ready, index⟩)
      loud := channel :: config.loud }
  /-- A receiver takes the value of a parked sender. -/
  | takeSender {config : Config V} {channel : ChannelId} {value : Parcel V} {task sender : TaskId}
    {others : List TaskId} {index : Option ℕ} (idle : config.result = none)
    (atWork : (config.state.task task).AtWork)
    (wants : (config.state.task task).frame.Wants channel index)
    (buffer : (config.state.channel channel).messages = [])
    (queue : (config.state.channel channel).sendQueue = sender :: others)
    (waits : (config.state.task sender).wait = some (.send channel value)) :
    Effect config { config with
      state := (config.state.setQueue .send channel others).deliver channel task value
      held := (sender, ⟨.ready, none⟩) :: config.held
      result := some (task, ⟨.ready, index⟩) }
  /-- A receiver takes the value of a parked select. -/
  | takeSelect {config : Config V} {channel : ChannelId} {value : Parcel V} {task : TaskId}
    {index : Option ℕ} {id : WaitId} {wait : SelectWait V} {place : ℕ} {target : ChannelId}
    (idle : config.result = none) (atWork : (config.state.task task).AtWork)
    (wants : (config.state.task task).frame.Wants channel index)
    (buffer : (config.state.channel channel).messages = [])
    (queue : (config.state.channel channel).sendQueue = [])
    (candidate : selectCandidate channel .send config.state
      = some (id, wait, place, .send target value)) :
    Effect config { config with
      state := ((config.state.claim id).record (.entered channel value)).deliver channel task value
      held := (wait.task, ⟨.ready, some place⟩) :: config.held
      result := some (task, ⟨.ready, index⟩) }
  /-- An operation ends without doing anything. -/
  | refuse {config : Config V} {task : TaskId} {status : Wake} (idle : config.result = none)
    (atWork : (config.state.task task).AtWork)
    (kind : status.status = .closed ∨ status.status = .cancelled ∨ status.status = .timeout) :
    Effect config { config with result := some (task, status) }
  /-- A sender parks. -/
  | parkSend {config : Config V} {channel : ChannelId} {value : Parcel V} {task : TaskId}
    (idle : config.result = none) (running : (config.state.task task).Running)
    (unwoken : (config.state.task task).wake = none)
    (frame : (config.state.task task).frame = .send channel value)
    (blocked : SendBlocked config.state channel) :
    Effect config { config with
      state := (config.state.record (.entered channel value)).parkIn .send channel task
        (.send channel value)
      loud := channel :: config.loud }
  /-- A receiver parks. -/
  | parkReceive {config : Config V} {channel : ChannelId} {task : TaskId}
    (idle : config.result = none) (running : (config.state.task task).Running)
    (unwoken : (config.state.task task).wake = none)
    (frame : (config.state.task task).frame = .receive channel)
    (blocked : ReceiveBlocked config.state channel) :
    Effect config { config with
      state := config.state.parkIn .receive channel task (.receive channel)
      loud := channel :: config.loud }
  /-- A select parks. -/
  | parkSelect {config : Config V} {task : TaskId} {executor : ExecutorId} {context deadline : ℕ}
    {cases : List (SelectCase V)} {parked : State V} (idle : config.result = none)
    (running : (config.state.task task).Running) (unwoken : (config.state.task task).wake = none)
    (home : (config.state.task task).executor = some executor)
    (frame : (config.state.task task).frame = .select context cases deadline)
    (short : cases.length < selectLimit)
    (blocked : ∀ operation ∈ cases, Blocked config.state operation)
    (done : selectPark task executor context cases deadline config.state = .ok parked) :
    Effect config { config with state := parked }
  /-- A parked task leaves its queue. -/
  | withdraw {config : Config V} {channel : ChannelId} {side : Side} {task : TaskId}
    {status : Status} (member : task ∈ (config.state.channel channel).queue side)
    (kind : status = .closed ∨ status = .cancelled) :
    Effect config { config with
      state := (config.state.withdraw channel task).setQueue side channel
        (((config.state.channel channel).queue side).erase task)
      held := (task, ⟨status, none⟩) :: config.held }
  /-- A task takes its wake. -/
  | takeWake {config : Config V} {task : TaskId} {source : Source} {status : Wake}
    (idle : config.result = none) (woken : (config.state.task task).wake = some (source, status)) :
    Effect config { config with
      state := config.state.modifyTask task fun task => { task with wake := none }
      result := some (task, status) }
  /-- A send returns. -/
  | endSend {config : Config V} {task : TaskId} {channel : ChannelId} {value : Parcel V}
    {status : Wake} (ready : config.result = some (task, status))
    (frame : (config.state.task task).frame = .send channel value)
    (final : status.status ≠ .pending) :
    Effect config { config with
      state := endSend task value status.status config.state, result := none }
  /-- A receive returns. -/
  | endReceive {config : Config V} {task : TaskId} {channel : ChannelId} {status : Wake}
    (ready : config.result = some (task, status))
    (frame : (config.state.task task).frame = .receive channel)
    (final : status.status ≠ .pending) :
    Effect config { config with
      state := endReceive task status.status config.state, result := none }
  /-- A select without a wait returns. -/
  | endSelect {config : Config V} {task : TaskId} {context deadline : ℕ}
    {cases : List (SelectCase V)} {status : Wake} (ready : config.result = some (task, status))
    (frame : (config.state.task task).frame = .select context cases deadline)
    (free : ∀ id wait, config.state.wait id = some wait → wait.task ≠ task)
    (final : status.status ≠ .pending) :
    Effect config { config with
      state := endSelect task cases status.status status.selected config.state, result := none }
  /-- A select that was woken starts to remove its registrations. -/
  | startClosing {config : Config V} {task : TaskId} {executor : ExecutorId} {context deadline : ℕ}
    {cases : List (SelectCase V)} {status : Wake} {id : WaitId}
    (ready : config.result = some (task, status))
    (frame : (config.state.task task).frame = .select context cases deadline)
    (home : (config.state.task task).executor = some executor)
    (found : selectFind task context config.state (config.state.selects executor) = some id) :
    Effect config { config with
      state := { config.state with
        selects := Function.update config.state.selects executor
          ((config.state.selects executor).erase id) }.modifyTask task fun task =>
        { task with frame := .closing context cases deadline id 0 status }
      result := none }
  /-- One registration is removed. -/
  | unlink {config : Config V} {task : TaskId} {context deadline next : ℕ}
    {cases : List (SelectCase V)} {status : Wake} {id : WaitId} {unlinked : State V}
    (frame : (config.state.task task).frame = .closing context cases deadline id next status)
    (inside : next < cases.length) (done : unregister id next config.state = .ok unlinked) :
    Effect config { config with
      state := unlinked.modifyTask task fun task =>
        { task with frame := .closing context cases deadline id (next + 1) status } }
  /-- The wait of a select is freed. -/
  | freeWait {config : Config V} {task : TaskId} {context deadline next : ℕ}
    {cases : List (SelectCase V)} {status : Wake} {id : WaitId} (idle : config.result = none)
    (frame : (config.state.task task).frame = .closing context cases deadline id next status)
    (last : cases.length ≤ next) :
    Effect config { config with
      state := { config.state with wait := Function.update config.state.wait id none
        }.modifyTask task fun task => { task with frame := .select context cases deadline }
      result := if status.status = .selectEvent then none else some (task, status) }
  /-- A task begins an operation. -/
  | begin {config : Config V} {task : TaskId} {request : Request V}
    (allowed : Allowed config.state (.begin task request)) :
    Effect config { config with state := begin task request config.state }
  /-- A task is dispatched, enqueued or ready, or its cancellation is requested. -/
  | schedule {config : Config V} {task : TaskId} {change : Task V → Task V}
    (there : config.state.task task ≠ .blank)
    (kind : change = (fun task => { task with queued := false })
      ∨ ((config.state.task task).Running ∧ change = fun task => { task with queued := true })
      ∨ ((config.state.task task).Running ∧ (config.state.task task).frame = .idle
        ∧ change = fun task => { task with ready := true })
      ∨ change = fun task => { task with cancellationRequested := true }) :
    Effect config { config with state := config.state.modifyTask task change }
  /-- `fdn_task_spawn`. -/
  | spawn {config : Config V} {executor : ExecutorId} :
    Effect config { config with state := spawn executor config.state }
  /-- `fdn_channel_open`. -/
  | openChannel {config : Config V} {capacity : ℕ} :
    Effect config { config with state := openChannel capacity config.state }
  /-- An endpoint is cloned. -/
  | clone {config : Config V} {channel : ChannelId} {change : Channel V → Channel V}
    (kind : (0 < (config.state.channel channel).senders
        ∧ change = fun channel => { channel with senders := channel.senders + 1 })
      ∨ (0 < (config.state.channel channel).receivers
        ∧ change = fun channel => { channel with receivers := channel.receivers + 1 })) :
    Effect config { config with state := config.state.modifyChannel channel change }
  /-- An endpoint that is not the last one of its side is dropped. -/
  | dropOne {config : Config V} {channel : ChannelId} {change : Channel V → Channel V}
    (kind : (1 < (config.state.channel channel).senders
        ∧ change = fun channel => { channel with senders := channel.senders - 1 })
      ∨ (1 < (config.state.channel channel).receivers
        ∧ change = fun channel => { channel with receivers := channel.receivers - 1 })) :
    Effect config { config with state := config.state.modifyChannel channel change }
  /-- The last sender is dropped. -/
  | dropLastSender {config : Config V} {channel : ChannelId}
    (last : (config.state.channel channel).senders = 1)
    (unused : ¬InUse config.state .send channel) :
    Effect config { config with
      state := config.state.modifyChannel channel fun channel => { channel with senders := 0 }
      loud := channel :: config.loud
      closing := channel :: config.closing }
  /-- The last receiver is dropped. -/
  | dropLastReceiver {config : Config V} {channel : ChannelId}
    (last : (config.state.channel channel).receivers = 1)
    (unused : ¬InUse config.state .receive channel) :
    Effect config { config with
      state := config.state.modifyChannel channel fun channel =>
        { channel with receivers := 0 }.detach
      loud := channel :: config.loud
      closing := channel :: config.closing }
  /-- Messages that were taken along are dropped. -/
  | dropDetached {config : Config V} {channel : ChannelId} {messages : List (Parcel V)}
    {rest : List (List (Parcel V))}
    (first : (config.state.channel channel).detached = messages :: rest) :
    Effect config { config with
      state := (dropEach channel messages config.state).modifyChannel channel fun channel =>
        { channel with holds := channel.holds - 1, detached := rest } }
  /-- A channel without endpoints is destroyed. -/
  | destroy {config : Config V} {channel : ChannelId}
    (there : (config.state.channel channel).live = true)
    (unused : (config.state.channel channel).senders = 0
      ∧ (config.state.channel channel).receivers = 0
      ∧ (config.state.channel channel).holds = 0) :
    Effect config { config with
      state := config.state.modifyChannel channel fun channel => { channel with live := false } }
  /-- All selects of a channel were signalled, and a queue that had to be emptied is empty. -/
  | calm {config : Config V} {channel : ChannelId}
    (signalled : ∀ id place, (id, place) ∈ (config.state.channel channel).selects →
      config.state.unclaimed id = false)
    (emptied : channel ∈ config.closing →
      ((config.state.channel channel).receiveQueue = []
          ∨ (config.state.channel channel).senders ≠ 0)
        ∧ ((config.state.channel channel).sendQueue = []
          ∨ (config.state.channel channel).receivers ≠ 0)) :
    Effect config { config with
      loud := config.loud.filter (· ≠ channel), closing := config.closing.filter (· ≠ channel) }

/-- Several effects in a row. -/
abbrev Effects : Config V → Config V → Prop :=
  Relation.ReflTransGen Effect

end FoundationLang.Runtime
