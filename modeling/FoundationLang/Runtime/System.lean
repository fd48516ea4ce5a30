/-
**Runs of the channel runtime.**

The steps that the threads of a program take, each atomic under the locks it holds, and the rules by
which the runtime API may be used.
-/

import FoundationLang.Runtime.Channel

namespace FoundationLang.Runtime

variable {V : Type}

/-! ### Operations -/

/-- An operation as it is asked for. A case of a select sends the value, if there is one. -/
inductive Request (V : Type)
  | send (channel : ChannelId) (value : V)
  | receive (channel : ChannelId)
  | select (context : ℕ) (cases : List (ChannelId × Option V)) (deadline : ℕ)
deriving DecidableEq, Repr

/-- The cases of a select, whose values are numbered from `ticket` on. -/
def numberCases : ℕ → List (ChannelId × Option V) → List (SelectCase V)
  | _, [] => []
  | ticket, (channel, some value) :: rest =>
    .send channel ⟨ticket, value⟩ :: numberCases (ticket + 1) rest
  | ticket, (channel, none) :: rest => .receive channel :: numberCases (ticket + 1) rest

/-- The frame of a request, and how many numbers it takes. -/
def Request.frame (ticket : ℕ) : Request V → Frame V × ℕ
  | .send channel value => (.send channel ⟨ticket, value⟩, 1)
  | .receive channel => (.receive channel, 0)
  | .select context cases deadline =>
    (.select context (numberCases ticket cases) deadline, cases.length)

/-- A task enters an operation. -/
def begin (id : TaskId) (request : Request V) (state : State V) : State V :=
  let (frame, count) := request.frame state.tickets
  { state.modifyTask id fun task => { task with frame := frame } with
    tickets := state.tickets + count }

/-- The task leaves its operation. -/
def State.leave (state : State V) (id : TaskId) : State V :=
  state.modifyTask id fun task => { task with frame := .idle }

/-- A receive that is ready takes its value out of the slot. -/
def State.takeSlot (state : State V) (id : TaskId) : State V :=
  match (state.task id).slot with
  | some value =>
    (state.modifyTask id fun task => { task with slot := none }).record (.received id value)
  | none => state

/-- A send has ended, unless it is pending. -/
def endSend (id : TaskId) (value : Parcel V) (status : Status) (state : State V) : State V :=
  if status = .pending then state else (state.leave id).record (.reported value status)

/-- A receive has ended, unless it is pending. -/
def endReceive (id : TaskId) (status : Status) (state : State V) : State V :=
  if status = .pending then state
  else if status = .ready then (state.leave id).takeSlot id
  else state.leave id

/-- The reports of the values that a select offered, from the case with an index on. The chosen case
has the status of the select; without one all of them do. -/
def caseReports (selected : Option ℕ) (status : Status) : ℕ → List (SelectCase V) → List (Event V)
  | _, [] => []
  | index, .receive _ :: rest => caseReports selected status (index + 1) rest
  | index, .send _ value :: rest =>
    .reported value (if selected = none ∨ selected = some index then status else .pending)
      :: caseReports selected status (index + 1) rest

/-- The chosen case is a receive. -/
def choseReceive (cases : List (SelectCase V)) (selected : Option ℕ) : Bool :=
  (selected.bind fun index => cases[index]?).any fun operation => operation.kind = .receive

/-- A select has ended, unless it is pending. -/
def endSelect (id : TaskId) (cases : List (SelectCase V)) (status : Status) (selected : Option ℕ)
    (state : State V) : State V :=
  if status = .pending then state
  else
    let ended := (state.leave id).recordAll (caseReports selected status 0 cases)
    if status = .ready ∧ choseReceive cases selected then ended.takeSlot id else ended

/-- The poll function of a task calls the operation it is inside. -/
def poll (id : TaskId) (now : ℕ) (state : State V) : Except Panic (State V) :=
  match (state.task id).frame with
  | .send channel value => do
    let (status, state) ← pollSend id channel value state
    .ok (endSend id value status state)
  | .receive channel => do
    let (status, state) ← pollReceive id channel state
    .ok (endReceive id status state)
  | .select context cases deadline => do
    match ← selectResume id context state with
    | (some (wait, wake), state) =>
      .ok (state.modifyTask id fun task =>
        { task with frame := .closing context cases deadline wait 0 wake })
    | (none, state) =>
      let (status, selected, state) ← selectTry id context cases deadline now state
      .ok (endSelect id cases status selected state)
  | .idle | .closing .. => .ok state

/-- `fdn_channel_select_destroy` of a select that was woken: one registration after the other, then
the wait itself. After `FDN_CHANNEL_SELECT_EVENT` the select is polled again. -/
def unregisterStep (id : TaskId) (state : State V) : Except Panic (State V) :=
  match (state.task id).frame with
  | .closing context cases deadline wait next wake =>
    if next < cases.length then do
      let state ← unregister wait next state
      .ok (state.modifyTask id fun task =>
        { task with frame := .closing context cases deadline wait (next + 1) wake })
    else
      let state := { state with wait := Function.update state.wait wait none }
      if wake.status = .selectEvent then
        .ok (state.modifyTask id fun task => { task with frame := .select context cases deadline })
      else .ok (endSelect id cases wake.status wake.selected state)
  | _ => .ok state

/-! ### Steps -/

/-- A step of some thread. -/
inductive Label (V : Type)
  | openChannel (capacity : ℕ)
  | cloneSender (channel : ChannelId)
  | cloneReceiver (channel : ChannelId)
  | dropSender (actor : Option ExecutorId) (channel : ChannelId)
  | dropReceiver (actor : Option ExecutorId) (channel : ChannelId)
  | dropMessages (channel : ChannelId)
  /-- `fdn_task_spawn` -/
  | spawn (executor : ExecutorId)
  /-- `fdn_task_dequeue` -/
  | dispatch (task : TaskId)
  /-- The poll function returns without a wait source, and the task is enqueued, at once or when the
  task it waits for is ready. -/
  | yield (task : TaskId)
  /-- The poll function returns `FDN_TASK_READY`. -/
  | finish (task : TaskId)
  | begin (task : TaskId) (request : Request V)
  | poll (task : TaskId) (now : ℕ)
  | unregister (task : TaskId)
  | cancel (task : TaskId)
  | wakeExpired (executor : ExecutorId) (now : ℕ)
  | drain (executor : ExecutorId)

/-- A task before it is spawned. -/
def Task.blank : Task V :=
  ⟨none, none, none, false, false, false, none, .idle⟩

/-- A channel before it is opened. -/
def Channel.blank : Channel V :=
  ⟨false, 0, 0, 0, 0, 0, [], [], [], [], []⟩

/-- `fdn_task_spawn`. -/
def spawn (executor : ExecutorId) (state : State V) : State V :=
  { state with
    task := Function.update state.task state.tasks
      { Task.blank with executor := some executor, queued := true }
    tasks := state.tasks + 1 }

/-- `fdn_task_enqueue`. -/
def enqueue (id : TaskId) (state : State V) : Except Panic (State V) :=
  if (state.task id).queued || (state.task id).ready then .error "invalid task enqueue"
  else .ok (state.modifyTask id fun task => { task with queued := true })

/-- What a step does. -/
def step : Label V → State V → Except Panic (State V)
  | .openChannel capacity, state => .ok (openChannel capacity state)
  | .cloneSender channel, state => cloneSender channel state
  | .cloneReceiver channel, state => cloneReceiver channel state
  | .dropSender actor channel, state => dropSender actor channel state
  | .dropReceiver actor channel, state => dropReceiver actor channel state
  | .dropMessages channel, state => dropMessages channel state
  | .spawn executor, state => .ok (spawn executor state)
  | .dispatch id, state => .ok (state.modifyTask id fun task => { task with queued := false })
  | .yield id, state => enqueue id state
  | .finish id, state => .ok (state.modifyTask id fun task => { task with ready := true })
  | .begin id request, state => .ok (begin id request state)
  | .poll id now, state => poll id now state
  | .unregister id, state => unregisterStep id state
  | .cancel id, state => requestCancellation id state
  | .wakeExpired executor now, state => wakeExpired executor now state
  | .drain executor, state => drain executor state

/-! ### The rules of the API -/

/-- The endpoint that a case uses. -/
def SelectCase.endpoint (operation : SelectCase V) : Side × ChannelId :=
  (operation.kind, operation.channel)

/-- The endpoints that a task inside an operation uses. -/
def Frame.endpoints : Frame V → List (Side × ChannelId)
  | .idle => []
  | .send channel _ => [(.send, channel)]
  | .receive channel => [(.receive, channel)]
  | .select _ cases _ => cases.map SelectCase.endpoint
  | .closing _ cases _ _ _ _ => cases.map SelectCase.endpoint

/-- The count of the endpoints of a side. -/
def Channel.endpoints (channel : Channel V) : Side → ℕ
  | .send => channel.senders
  | .receive => channel.receivers

/-- The task runs: it is being polled. -/
def Task.Running (task : Task V) : Prop :=
  task.executor ≠ none ∧ task.wait = none ∧ task.queued = false ∧ task.ready = false

/-- Some task is inside an operation that uses an endpoint of the channel. -/
def InUse (state : State V) (side : Side) (channel : ChannelId) : Prop :=
  ∃ id, (side, channel) ∈ (state.task id).frame.endpoints

/-- An endpoint may be dropped: there is one, and operations that use such an endpoint are left
with another. -/
def MayDrop (state : State V) (side : Side) (channel : ChannelId) : Prop :=
  0 < (state.channel channel).endpoints side
    ∧ (InUse state side channel → 1 < (state.channel channel).endpoints side)

/-- **The rules of the API**: who may take a step. -/
def Allowed (state : State V) : Label V → Prop
  | .openChannel _ => True
  | .cloneSender channel =>
    0 < (state.channel channel).senders ∧ (state.channel channel).senders < endpointLimit
  | .cloneReceiver channel =>
    0 < (state.channel channel).receivers ∧ (state.channel channel).receivers < endpointLimit
  | .dropSender _ channel => MayDrop state .send channel
  | .dropReceiver _ channel => MayDrop state .receive channel
  | .dropMessages channel => (state.channel channel).detached ≠ []
  | .spawn _ => True
  | .dispatch id => (state.task id).queued = true
  | .yield id => (state.task id).Running
  | .finish id => (state.task id).Running ∧ (state.task id).frame = .idle
  | .begin id request =>
    (state.task id).Running ∧ (state.task id).frame = .idle
      ∧ (∀ endpoint ∈ (request.frame 0).1.endpoints,
          0 < (state.channel endpoint.2).endpoints endpoint.1)
      ∧ ∀ context cases deadline, request = .select context cases deadline →
          cases ≠ [] ∧ cases.length < selectLimit
  | .poll id _ => (state.task id).Running
  | .unregister id => (state.task id).Running
  | .cancel id => (state.task id).executor ≠ none
  | .wakeExpired _ _ => True
  | .drain _ => True

/-- The state in which a program starts. -/
def State.initial : State V :=
  { channel := fun _ => .blank, task := fun _ => .blank, wait := fun _ => none,
    mailbox := fun _ => [], selects := fun _ => [], channels := 0, tasks := 0, waits := 0,
    tickets := 0, trace := [] }

/-- **The states that a program can reach.** -/
inductive Reachable : State V → Prop
  | initial : Reachable .initial
  | step {before after : State V} {label : Label V} (reached : Reachable before)
    (allowed : Allowed before label) (taken : step label before = .ok after) : Reachable after

/-! ### Runs -/

/-- The state after several steps. -/
def runSteps : List (Label V) → State V → Except Panic (State V)
  | [], state => .ok state
  | label :: rest, state => step label state >>= runSteps rest

/-- Every step is allowed where it is taken. -/
def AllowedRun : List (Label V) → State V → Prop
  | [], _ => True
  | label :: rest, state =>
    Allowed state label ∧ match step label state with
      | .ok after => AllowedRun rest after
      | .error _ => False

theorem Reachable.run {labels : List (Label V)} {s : State V} (reached : Reachable s)
    (allowed : AllowedRun labels s) :
    ∃ after, runSteps labels s = .ok after ∧ Reachable after := by
  induction labels generalizing s with
  | nil => exact ⟨s, rfl, reached⟩
  | cons label rest ih =>
    obtain ⟨here, later⟩ := allowed
    unfold runSteps
    cases taken : Runtime.step label s with
    | error =>
      rw [taken] at later
      exact later.elim
    | ok =>
      rw [taken] at later
      exact ih (.step reached here taken) later

instance [DecidableEq V] (task : Task V) : Decidable task.Running :=
  inferInstanceAs (Decidable (_ ∧ _ ∧ _ ∧ _))

/-- A receiver parks, a sender hands its value over, and the receiver takes it. Then the sender fills
the buffer and parks with one more value, and the receiver waits in a select on two channels. -/
def handOver : List (Label ℕ) :=
  [.openChannel 1, .openChannel 0, .spawn 0, .spawn 0, .dispatch 0, .dispatch 1,
    .begin 0 (.receive 0), .poll 0 0, .begin 1 (.send 0 7), .poll 1 0, .dispatch 0, .poll 0 0,
    .begin 1 (.send 0 8), .poll 1 0, .begin 1 (.send 0 9), .poll 1 0,
    .begin 0 (.select 1 [(1, none), (0, some 3)] 9), .poll 0 0]

theorem reachable_handOver :
    ∃ state : State ℕ, runSteps handOver .initial = .ok state ∧ Reachable state := by
  refine Reachable.initial.run ⟨trivial, trivial, trivial, trivial, rfl, rfl, ⟨?_, rfl, ?_, nofun⟩,
    (show Task.Running _ from ?_), ⟨?_, rfl, ?_, nofun⟩, (show Task.Running _ from ?_), rfl,
    (show Task.Running _ from ?_), ⟨?_, rfl, ?_, nofun⟩, (show Task.Running _ from ?_),
    ⟨?_, rfl, ?_, nofun⟩, (show Task.Running _ from ?_),
    ⟨?_, rfl, ?_, fun _ _ _ same => by cases same; decide⟩, (show Task.Running _ from ?_), trivial⟩
  all_goals decide +kernel

/-- At the end a send is parked at the first channel, and the select is registered there. -/
theorem parked_handOver {s : State ℕ} (done : runSteps handOver .initial = .ok s) :
    (s.channel 0).sendQueue = [1] ∧ (s.channel 0).selects = [(0, 1)]
      ∧ (s.channel 1).selects = [(0, 0)] := by
  have last : ((runSteps handOver .initial).toOption.any fun s =>
      (s.channel 0).sendQueue = [1] ∧ (s.channel 0).selects = [(0, 1)]
        ∧ (s.channel 1).selects = [(0, 0)]) = true := by
    decide +kernel
  rw [done] at last
  exact of_decide_eq_true last

end FoundationLang.Runtime
