/-
**Every step is a sequence of effects.**

Each function of the runtime, in a state that is in order, returns without a panic, and what it did
is a sequence of effects.

* `wake_runs`, `signal_runs`, `wakeAll_runs` — wakes.
* `sendLocked_runs`, `receiveLocked_runs`, `tryCases_runs` — sends and receives under the lock.
* `poll_runs`, `unregisterStep_runs`, … — the steps of tasks and threads.
-/

import FoundationLang.Runtime.Signals

namespace FoundationLang.Runtime

open List Function

variable {V : Type} {c : Config V}
variable {cases : List (SelectCase V)} {wait : SelectWait V} {status : Wake} {id : WaitId}
variable {channel : ChannelId}
  {context deadline : ℕ}

theorem bind_of_ok {α β : Type} {x : Except Panic α} {value : α} {next : α → Except Panic β}
    (done : x = .ok value) : (x >>= next) = next value := by
  rw [done]
  rfl

/-- A function returns, and what it did is a sequence of effects. -/
abbrev Runs (config : Config V) (outcome : Except Panic (State V)) : Prop :=
  ∃ after, outcome = .ok after ∧ Effects config (.of after)

theorem Runs.head {next : Config V} {outcome : Except Panic (State V)}
    (x : Effect c next) (runs : Runs next outcome) : Runs c outcome := by
  obtain ⟨after, done, effects⟩ := runs
  exact ⟨after, done, .head x effects⟩

/-! ### Wakes -/

/-- The operations are what they were, and the waits have the same owners. -/
structure Undisturbed (before after : State V) : Prop where
  frame : after.frame = before.frame
  owner : ∀ id, (after.wait id).map SelectWait.task = (before.wait id).map SelectWait.task

theorem Undisturbed.refl (state : State V) : Undisturbed state state :=
  ⟨rfl, fun _ => rfl⟩

theorem Undisturbed.trans {x y third : State V} (one : Undisturbed x y)
    (two : Undisturbed y third) : Undisturbed x third :=
  ⟨two.frame.trans one.frame, fun id => (two.owner id).trans (one.owner id)⟩

theorem Undisturbed.after {x y third : State V} (two : Undisturbed y third)
    (one : Undisturbed x y) : Undisturbed x third :=
  one.trans two

/-- Nothing but claims and wakes. -/
structure Signalled (before after : State V) : Prop where
  undisturbed : Undisturbed before after
  channel : after.channel = before.channel
  selects : after.selects = before.selects
  claimed : ∀ id, before.unclaimed id = false → after.unclaimed id = false

theorem Signalled.refl (state : State V) : Signalled state state :=
  ⟨.refl state, rfl, rfl, fun _ claimed => claimed⟩

theorem Signalled.trans {x y third : State V} (one : Signalled x y)
    (two : Signalled y third) : Signalled x third :=
  ⟨one.undisturbed.trans two.undisturbed, two.channel.trans one.channel,
    two.selects.trans one.selects, fun id claimed => two.claimed id (one.claimed id claimed)⟩

theorem wake_runs (orderly : Orderly c) {id : TaskId} {rest : List (TaskId × Wake)}
    (held : c.held = (id, status) :: rest) (actor : Option ExecutorId) :
    ∃ woken, wake actor id status c.state = .ok woken
      ∧ Effect c { c with state := woken, held := rest }
      ∧ Signalled c.state woken := by
  have waits := (orderly.tidy.tokens.parked id (by rw [held]; exact mem_cons_self)).1
  obtain ⟨wait, waits⟩ := Option.ne_none_iff_exists'.mp waits
  obtain ⟨_, unwoken, unqueued, unready, lives⟩ := (orderly.tidy.tasks id).waiting wait waits
  obtain ⟨executor, lives⟩ := Option.ne_none_iff_exists'.mp lives
  have waits : (c.state.task id).wait = some wait := waits
  have succeeds : ∃ woken, wake actor id status c.state = .ok woken := by
    unfold wake State.record
    simp only [lives]
    by_cases same : some executor = actor
    · subst same
      simp [wakeLocal, waits, lives, unwoken, unqueued, unready]
    · simp [same]
  obtain ⟨woken, done⟩ := succeeds
  refine ⟨woken, done, .wake held done, ?_⟩
  obtain ⟨-, -, ⟨-, rfl⟩ | ⟨-, rfl⟩⟩ := wake_ok done
  · exact ⟨⟨frame_awake .., fun _ => rfl⟩, rfl, rfl, fun _ claimed => claimed⟩
  · exact ⟨⟨rfl, fun _ => rfl⟩, rfl, rfl, fun _ claimed => claimed⟩

theorem Signalled.claim {state : State V} (found : state.wait id = some wait) :
    Signalled state (state.claim id) := by
  rw [claim_eq found]
  refine ⟨⟨rfl, fun y => ?_⟩, rfl, rfl, fun y claimed => ?_⟩
  · by_cases same : y = id
    · subst same
      simp [found]
    · simp [update_of_ne same]
  · unfold State.unclaimed at claimed ⊢
    by_cases same : y = id
    · subst same
      simp
    · simpa [update_of_ne same] using claimed

theorem unclaimed_claim {state : State V} (found : state.wait id = some wait) :
    (state.claim id).unclaimed id = false := by
  rw [claim_eq found]
  simp [State.unclaimed]

theorem claim_runs (orderly : Orderly c) {status : Status}
    (found : c.state.wait id = some wait) (unclaimed : wait.signaled = false)
    (kind : status = .selectEvent ∨ status = .cancelled ∨ status = .timeout)
    (actor : Option ExecutorId) :
    ∃ woken, wake actor wait.task ⟨status, none⟩ (c.state.claim id) = .ok woken
      ∧ Effects c { c with state := woken }
      ∧ Signalled c.state woken ∧ woken.unclaimed id = false := by
  have first : Effect c { c with
      state := c.state.claim id, held := (wait.task, ⟨status, none⟩) :: c.held } :=
    .claim found unclaimed kind
  obtain ⟨woken, done, y, signalled⟩ := wake_runs (orderly.effect first) rfl actor
  exact ⟨woken, done, .tail (.single first) y, (Signalled.claim found).trans signalled,
    signalled.claimed id (unclaimed_claim found)⟩

theorem signalFrom_runs (orderly : Orderly c) (actor : Option ExecutorId)
    (list : List (WaitId × ℕ)) (there : ∀ pair ∈ list, c.state.wait pair.1 ≠ none) :
    ∃ after, signalFrom actor list c.state = .ok after
      ∧ Effects c { c with state := after }
      ∧ Signalled c.state after ∧ ∀ pair ∈ list, after.unclaimed pair.1 = false := by
  induction list generalizing c with
  | nil => exact ⟨c.state, rfl, .refl, .refl _, nofun⟩
  | cons x rest ih =>
    obtain ⟨_, _⟩ := x
    obtain ⟨wait, found⟩ := Option.ne_none_iff_exists'.mp (there _ mem_cons_self)
    have later := fun pair inside => there pair (mem_cons_of_mem _ inside)
    unfold signalFrom
    simp only [found]
    by_cases signaled : wait.signaled = true
    · obtain ⟨after, done, effects, signalled, claimed⟩ := ih orderly later
      refine ⟨after, by rw [if_pos signaled]; exact done, effects, signalled, fun pair inside => ?_⟩
      rcases mem_cons.mp inside with rfl | inside
      · refine signalled.claimed _ ?_
        simp [State.unclaimed, found, signaled]
      · exact claimed pair inside
    · rw [if_neg signaled]
      obtain ⟨woken, done, effects, one, now⟩ :=
        claim_runs orderly found (by simpa using signaled) (.inl rfl) actor
      have still : ∀ pair ∈ rest, woken.wait pair.1 ≠ none := by
        intro pair inside none
        have owner := one.undisturbed.owner pair.1
        rw [none] at owner
        exact later pair inside (Option.map_eq_none_iff.mp owner.symm)
      obtain ⟨after, done', effects', two, claimed⟩ :=
        ih (orderly.effects effects) still
      refine ⟨after, ?_, effects.trans effects', one.trans two, fun pair inside => ?_⟩
      · exact (bind_of_ok done).trans done'
      · rcases mem_cons.mp inside with rfl | inside
        · exact two.claimed _ now
        · exact claimed pair inside

theorem selectSignal_runs (orderly : Orderly c) (actor : Option ExecutorId)
    (channel : ChannelId) :
    ∃ after, selectSignal actor channel c.state = .ok after
      ∧ Effects c { c with state := after } ∧ Signalled c.state after
      ∧ ∀ id place, (id, place) ∈ (after.channel channel).selects →
        after.unclaimed id = false := by
  obtain ⟨after, done, effects, signalled, claimed⟩ :=
    signalFrom_runs orderly actor (c.state.channel channel).selects (by
      intro pair inside none
      obtain ⟨_, -, there, -⟩ := (orderly.tidy.registrations.known ..).mp inside
      rw [none] at there
      cases there)
  refine ⟨after, done, effects, signalled, fun id place inside => ?_⟩
  rw [signalled.channel] at inside
  exact claimed (id, place) inside

theorem selectSignal_calms (orderly : Orderly c) (actor : Option ExecutorId)
    (loud : c.loud = [channel])
    (closing : ∀ y ∈ c.closing, y = channel)
    (emptied : channel ∈ c.closing →
      ((c.state.channel channel).receiveQueue = []
          ∨ (c.state.channel channel).senders ≠ 0)
        ∧ ((c.state.channel channel).sendQueue = []
          ∨ (c.state.channel channel).receivers ≠ 0)) :
    ∃ after, selectSignal actor channel c.state = .ok after
      ∧ Effects c { c with state := after, loud := [], closing := [] }
      ∧ Signalled c.state after := by
  obtain ⟨after, done, effects, signalled, claimed⟩ := selectSignal_runs orderly actor channel
  refine ⟨after, done, ?_, signalled⟩
  have last : Effect { c with state := after } { c with
      state := after, loud := c.loud.filter (· ≠ channel)
      closing := c.closing.filter (· ≠ channel) } := by
    refine .calm claimed fun inside => ?_
    rw [show after.channel = _ from signalled.channel]
    exact emptied inside
  have quiet : c.loud.filter (· ≠ channel) = [] := by simp [loud]
  have closed : c.closing.filter (· ≠ channel) = [] :=
    filter_eq_nil_iff.mpr fun y inside => by simp [closing y inside]
  rw [quiet, closed] at last
  exact effects.tail last

/-! ### Sends and receives under the lock -/

theorem Tidy.parkedReceiver (tidy : Tidy c) {receiver : TaskId} {rest : List TaskId}
    (queue : (c.state.channel channel).receiveQueue = receiver :: rest) :
    (c.state.task receiver).wait = some (.receive channel) := by
  obtain ⟨wait, waits, source⟩ := tidy.tokens.queued channel .receive receiver
    (mem_of_mem_head? (congrArg head? queue))
  cases wait with
  | send | select => cases source
  | receive =>
    cases source
    exact waits

theorem Tidy.parkedSender (tidy : Tidy c) {sender : TaskId} {rest : List TaskId}
    (queue : (c.state.channel channel).sendQueue = sender :: rest) :
    ∃ value, (c.state.task sender).wait = some (.send channel value) := by
  obtain ⟨wait, waits, source⟩ := tidy.tokens.queued channel .send sender
    (mem_of_mem_head? (congrArg head? queue))
  cases wait with
  | send y value =>
    cases source
    exact ⟨value, waits⟩
  | receive | select => cases source

/-- The place of a case that is served fits into a wake. -/
theorem Tidy.encodes (tidy : Tidy c) {kind : Side} {p : ℕ}
    {op : SelectCase V}
    (candidate : selectCandidate channel kind c.state = some (id, wait, p, op)) :
    selectEncode p .ready = .ok ⟨.ready, some p⟩ := by
  obtain ⟨found, -, -, -, -, entry, here, -⟩ := candidate_some candidate
  have short := tidy.registrations.short id wait found
  have inside := (List.getElem?_eq_some_iff.mp here).1
  unfold selectEncode
  rw [if_neg (by omega)]

/-- An operation was tried: it is done with a status, or it has to wait and nothing happened. -/
def Tried (state after : State V) (task : TaskId) (status : Status) (index : Option ℕ)
    (blocked : Prop) : Prop :=
  Undisturbed state after
    ∧ (status ≠ .pending
        ∧ Effects (.of state) { Config.of after with result := some (task, ⟨status, index⟩) }
      ∨ status = .pending ∧ after = state ∧ blocked)

theorem Tried.refuse {state : State V} {task : TaskId} {status : Status} {i : Option ℕ}
    {blocked : Prop} (atWork : (state.task task).AtWork)
    (kind : status = .closed ∨ status = .cancelled ∨ status = .timeout) :
    Tried state state task status i blocked := by
  refine ⟨.refl state, .inl ⟨?_, .single (.refuse rfl atWork kind)⟩⟩
  rcases kind with rfl | rfl | rfl <;> nofun

/-- An operation is done when the tasks that it took out of their waits are woken. -/
theorem Tried.ready {state after : State V} {task : TaskId} {i : Option ℕ} {blocked : Prop}
    (undisturbed : Undisturbed state after)
    (effects : Effects (.of state)
      { Config.of after with result := some (task, ⟨.ready, i⟩) }) :
    Tried state after task .ready i blocked :=
  ⟨undisturbed, .inl ⟨nofun, effects⟩⟩

variable {state : State V} {task : TaskId} {value : Parcel V}
  {i : Option ℕ}

theorem sendLocked_runs (orderly : Orderly (.of state)) (atWork : (state.task task).AtWork)
    (offers : (state.task task).frame.Offers channel value i) (actor : Option ExecutorId) :
    ∃ status after, sendLocked actor channel value state = .ok (status, after)
      ∧ Tried state after task status i (SendBlocked state channel) := by
  unfold sendLocked
  by_cases alive : (state.channel channel).receivers = 0
  · rw [if_pos alive]
    exact ⟨.closed, state, rfl, .refuse atWork (.inl rfl)⟩
  rw [if_neg alive]
  cases queue : (state.channel channel).receiveQueue with
  | cons receiver =>
    have waits : (state.task receiver).wait = some (.receive channel) :=
      orderly.tidy.parkedReceiver queue
    simp only [waits]
    have first : Effect (.of state) _ := .handReceiver rfl atWork offers alive queue waits
    obtain ⟨after, done, y, signalled⟩ := wake_runs (orderly.effect first) rfl actor
    have kept : Undisturbed state after :=
      signalled.undisturbed.after ⟨State.frame_deliver .., fun _ => rfl⟩
    exact ⟨.ready, after, bind_of_ok done, .ready kept (.tail (.single first) y)⟩
  | nil =>
    cases candidate : selectCandidate channel .receive state with
    | some found =>
      obtain ⟨id, wait, _, _⟩ := found
      have encodes := orderly.tidy.encodes candidate
      have there : state.wait id = some wait := (candidate_some candidate).1
      have first : Effect (.of state) _ :=
        .handSelect rfl atWork offers alive queue candidate not_mem_nil
      obtain ⟨after, done, y, signalled⟩ := wake_runs (orderly.effect first) rfl actor
      have matched : selectMatchReceive actor channel value state = .ok (some after) := by
        unfold selectMatchReceive
        simp only [candidate]
        exact (bind_of_ok encodes).trans (bind_of_ok done)
      have kept : Undisturbed state after := signalled.undisturbed.after
        ⟨State.frame_deliver .., (Signalled.claim there).undisturbed.owner⟩
      exact ⟨.ready, after, bind_of_ok matched, .ready kept (.tail (.single first) y)⟩
    | none =>
      have matched : selectMatchReceive actor channel value state = .ok none := by
        unfold selectMatchReceive
        simp only [candidate]
      by_cases room : (state.channel channel).buffered < (state.channel channel).capacity
      · have first : Effect (.of state) _ := .push rfl atWork offers alive queue room
        obtain ⟨after, done, effects, signalled⟩ :=
          selectSignal_calms (orderly.effect first) actor rfl nofun nofun
        have kept : Undisturbed state after := signalled.undisturbed.after ⟨rfl, fun _ => rfl⟩
        refine ⟨.ready, after, (bind_of_ok matched).trans ?_, .ready kept (.head first effects)⟩
        rw [if_pos room]
        exact bind_of_ok done
      · refine ⟨.pending, state, (bind_of_ok matched).trans ?_, .refl state, .inr ⟨rfl, rfl, ?_⟩⟩
        · dsimp only
          rw [if_neg room]
        · exact ⟨alive, queue, candidate, Nat.le_of_not_lt room⟩

theorem takeMessage_runs (orderly : Orderly (.of state)) (atWork : (state.task task).AtWork)
    (wants : (state.task task).frame.Wants channel i) {message : Parcel V}
    {rest : List (Parcel V)} (buffer : (state.channel channel).messages = message :: rest)
    (actor : Option ExecutorId) {blocked : Prop} :
    ∃ filled after,
      fillBufferFromSender actor channel (state.takeMessage channel task message rest) = .ok filled
      ∧ selectSignal actor channel filled = .ok after
      ∧ Tried state after task .ready i blocked := by
  have taken := channel_takeMessage state channel task message rest
  have alive : (state.channel channel).receivers ≠ 0 := fun none => by
    have empty : (state.channel channel).messages = [] :=
      orderly.tidy.endpoints.emptied channel none
    rw [empty] at buffer
    cases buffer
  unfold fillBufferFromSender
  rw [taken]
  by_cases room : (state.channel channel).buffered - 1 < (state.channel channel).capacity
  · rw [if_neg (by simpa using ⟨room, alive⟩)]
    cases queue : (state.channel channel).sendQueue with
    | nil =>
      have first : Effect (.of state) _ := .takeMessage rfl atWork wants buffer (.inl queue)
      obtain ⟨after, done, effects, signalled⟩ :=
        selectSignal_calms (orderly.effect first) actor rfl nofun nofun
      have kept : Undisturbed state after :=
        signalled.undisturbed.after ⟨State.frame_takeMessage .., fun _ => rfl⟩
      exact ⟨_, after, rfl, done, .ready kept (.head first effects)⟩
    | cons sender =>
      obtain ⟨value, waits⟩ := orderly.tidy.parkedSender queue
      have waits' : ((state.takeMessage channel task message rest).task sender).wait
          = some (.send channel value) :=
        (congrFun (State.waiting_takeMessage ..) sender).trans waits
      have first : Effect (.of state) _ :=
        .takeRefill rfl atWork wants buffer room alive queue waits
      have one := orderly.effect first
      obtain ⟨_, done, effects, signalled, -⟩ := selectSignal_runs one actor channel
      have two := one.effects effects
      obtain ⟨filled, done', third, signalled'⟩ := wake_runs two rfl actor
      obtain ⟨after, done'', effects', signalled''⟩ :=
        selectSignal_calms (two.effect third) actor rfl nofun nofun
      have kept : Undisturbed state after :=
        ((signalled.trans signalled').trans signalled'').undisturbed.after
          ⟨State.frame_takeMessage .., fun _ => rfl⟩
      refine ⟨filled, after, ?_, done'', .ready kept
        (.head first (effects.trans (.head third effects')))⟩
      simp only [waits']
      exact (bind_of_ok done).trans done'
  · rw [if_pos (.inl (Nat.le_of_not_lt room))]
    have first : Effect (.of state) _ :=
      .takeMessage rfl atWork wants buffer (.inr (Nat.le_of_not_lt room))
    obtain ⟨after, done, effects, signalled⟩ :=
      selectSignal_calms (orderly.effect first) actor rfl nofun nofun
    have kept : Undisturbed state after :=
      signalled.undisturbed.after ⟨State.frame_takeMessage .., fun _ => rfl⟩
    exact ⟨_, after, rfl, done, .ready kept (.head first effects)⟩

theorem receiveLocked_runs (orderly : Orderly (.of state)) (atWork : (state.task task).AtWork)
    (wants : (state.task task).frame.Wants channel i) (actor : Option ExecutorId) :
    ∃ status after, receiveLocked actor task channel state = .ok (status, after)
      ∧ Tried state after task status i (ReceiveBlocked state channel) := by
  unfold receiveLocked
  cases buffer : (state.channel channel).messages with
  | cons =>
    obtain ⟨_, after, fills, signals, tried⟩ :=
      takeMessage_runs orderly atWork wants buffer actor
    exact ⟨.ready, after, (bind_of_ok fills).trans (bind_of_ok signals), tried⟩
  | nil =>
    cases queue : (state.channel channel).sendQueue with
    | cons sender =>
      obtain ⟨value, waits⟩ := orderly.tidy.parkedSender queue
      have waits : (state.task sender).wait = some (.send channel value) := waits
      simp only [waits]
      have first : Effect (.of state) _ := .takeSender rfl atWork wants buffer queue waits
      obtain ⟨after, done, y, signalled⟩ := wake_runs (orderly.effect first) rfl actor
      have kept : Undisturbed state after :=
        signalled.undisturbed.after ⟨State.frame_deliver .., fun _ => rfl⟩
      exact ⟨.ready, after, bind_of_ok done, .ready kept (.tail (.single first) y)⟩
    | nil =>
      cases candidate : selectCandidate channel .send state with
      | some found =>
        obtain ⟨_, _, _, operation⟩ := found
        have encodes := orderly.tidy.encodes candidate
        obtain ⟨there, -, -, -, kind, -⟩ := candidate_some candidate
        cases operation with
        | receive => cases kind
        | send =>
          have first : Effect (.of state) _ :=
            .takeSelect rfl atWork wants buffer queue candidate
          obtain ⟨after, done, y, signalled⟩ := wake_runs (orderly.effect first) rfl actor
          have matched : selectMatchSend actor channel task state = .ok (some after) := by
            unfold selectMatchSend
            simp only [candidate]
            exact (bind_of_ok encodes).trans (bind_of_ok done)
          have kept : Undisturbed state after := signalled.undisturbed.after
            ⟨State.frame_deliver .., (Signalled.claim there).undisturbed.owner⟩
          exact ⟨.ready, after, bind_of_ok matched, .ready kept (.tail (.single first) y)⟩
      | none =>
        have matched : selectMatchSend actor channel task state = .ok none := by
          unfold selectMatchSend
          simp only [candidate]
        by_cases alive : (state.channel channel).senders = 0
        · refine ⟨.closed, state, (bind_of_ok matched).trans ?_, .refuse atWork (.inl rfl)⟩
          rw [if_pos alive]
        · refine ⟨.pending, state, (bind_of_ok matched).trans ?_, .refl state,
            .inr ⟨rfl, rfl, buffer, queue, candidate, alive⟩⟩
          rw [if_neg alive]

theorem Orderly.endpoint (orderly : Orderly c) {id : TaskId} {endpoint : Side × ChannelId}
    (mem : endpoint ∈ (c.state.task id).frame.endpoints) :
    0 < (c.state.channel endpoint.2).endpoints endpoint.1
      ∧ (c.state.channel endpoint.2).live = true := by
  have pos := orderly.tidy.endpoints.used id endpoint mem
  refine ⟨pos, orderly.tidy.endpoints.live endpoint.2 ?_⟩
  obtain ⟨side, _⟩ := endpoint
  cases side with
  | send => exact .inl pos
  | receive => exact .inr (.inl pos)

theorem tryCase_runs (orderly : Orderly (.of state)) (atWork : (state.task task).AtWork) {p : ℕ}
    {op : SelectCase V} (frame : (state.task task).frame = .select context cases deadline)
    (here : cases[p]? = some op) (actor : Option ExecutorId) :
    ∃ status after, tryCase actor task op state = .ok (status, after)
      ∧ Tried state after task status (some p) (Blocked state op) := by
  have mem : op.endpoint ∈ (state.task task).frame.endpoints := by
    rw [frame]
    exact mem_map_of_mem (mem_of_getElem? here)
  have pos := (orderly.endpoint mem).1
  cases op with
  | send channel =>
    have some : (state.channel channel).senders ≠ 0 := Nat.ne_of_gt pos
    unfold tryCase trySendLocked
    dsimp only
    rw [if_neg some]
    exact sendLocked_runs orderly atWork
      (.inr ⟨context, cases, deadline, p, frame, rfl, here⟩) actor
  | receive channel =>
    have some : (state.channel channel).receivers ≠ 0 := Nat.ne_of_gt pos
    unfold tryCase tryReceiveLocked
    dsimp only
    rw [if_neg some]
    exact receiveLocked_runs orderly atWork
      (.inr ⟨context, cases, deadline, p, frame, rfl, here⟩) actor

theorem tryCases_runs (orderly : Orderly (.of state)) (atWork : (state.task task).AtWork)
    {tried : List (SelectCase V)}
    (frame : (state.task task).frame = .select context (tried ++ cases) deadline)
    (actor : Option ExecutorId) :
    ∃ found after, tryCases actor task tried.length cases state = .ok (found, after)
      ∧ ((∃ place status, found = some (place, status)
          ∧ Tried state after task status (some place) False)
        ∨ found = none ∧ after = state ∧ ∀ operation ∈ cases, Blocked state operation) := by
  induction cases generalizing tried with
  | nil => exact ⟨none, state, rfl, .inr ⟨rfl, rfl, nofun⟩⟩
  | cons operation rest ih =>
    have here : (tried ++ operation :: rest)[tried.length]? = some operation := by simp
    obtain ⟨status, after, done, kept, outcome⟩ := tryCase_runs orderly atWork frame here actor
    unfold tryCases
    rw [bind_of_ok done]
    rcases outcome with ⟨ends, effects⟩ | ⟨rfl, rfl, blocked⟩
    · refine ⟨some (tried.length, status), after, ?_,
        .inl ⟨tried.length, status, rfl, kept, .inl ⟨ends, effects⟩⟩⟩
      dsimp only
      rw [if_neg ends]
    · have frame' : (after.task task).frame
          = .select context ((tried ++ [operation]) ++ rest) deadline := by
        rw [append_assoc]
        exact frame
      obtain ⟨found, after', done', outcome'⟩ := ih frame'
      rw [length_append] at done'
      refine ⟨found, after', ?_, outcome'.imp_right ?_⟩
      · dsimp only
        rw [if_pos rfl]
        exact done'
      · rintro ⟨missed, same, blocked'⟩
        refine ⟨missed, same, fun y inside => ?_⟩
        rcases mem_cons.mp inside with rfl | inside
        · exact blocked
        · exact blocked' y inside

/-! ### Parking -/

theorem Tidy.unqueued (tidy : Tidy c) {id : TaskId}
    (unparked : (c.state.task id).wait = none) (channel : ChannelId) (side : Side) :
    id ∉ (c.state.channel channel).queue side := by
  intro mem
  obtain ⟨_, waits, -⟩ := tidy.tokens.queued channel side id mem
  rw [show (c.state.task id).wait = _ from waits] at unparked
  cases unparked

theorem park_runs (orderly : Orderly (.of state)) (unparked : (state.task task).wait = none)
    (unwoken : (state.task task).wake = none) (side : Side) (channel : ChannelId)
    (wait : Wait V) (actor : Option ExecutorId) :
    parkOn actor side channel task wait state
      = selectSignal actor channel (state.parkIn side channel task wait) := by
  have parks : park task wait state
      = .ok ((state.modifyTask task fun task => { task with wait := some wait }).record
        (.parked task)) := by
    unfold park
    simp [unparked, unwoken]
  unfold parkOn
  rw [bind_of_ok parks]
  have absent := orderly.tidy.unqueued unparked
  have pushes : waitPush side channel task
      ((state.modifyTask task fun task => { task with wait := some wait }).record (.parked task))
      = .ok (state.parkIn side channel task wait) := by
    unfold waitPush
    rw [if_neg]
    · rfl
    · intro followed
      obtain ⟨y, -, inside⟩ := any_eq_true.mp followed
      have sends : task ∉ (state.channel y).sendQueue := absent y .send
      have receives : task ∉ (state.channel y).receiveQueue := absent y .receive
      simp [State.record, State.modifyTask, sends, receives] at inside
  exact bind_of_ok pushes

/-! ### The operations of a task -/

theorem Orderly.record (orderly : Orderly c) (event : Event V) :
    Orderly { c with state := c.state.record event } :=
  ⟨orderly.tidy.record event, orderly.final, orderly.bounded⟩

theorem Orderly.locks (orderly : Orderly (.of state)) {side : Side}
    (mem : (side, channel) ∈ (state.task task).frame.endpoints) :
    lock channel state = .ok () := by
  unfold lock
  exact if_pos (orderly.endpoint mem).2

theorem takeWake_runs (orderly : Orderly (.of state)) {src : Source} {wait : Wait V}
    (inside : (state.task task).frame.wait = some wait) (waits : wait.source = src)
    {origin : Source} (woken : (state.task task).wake = some (origin, status)) :
    takeWake task src state
        = .ok (some status, state.modifyTask task fun task => { task with wake := none })
      ∧ status.status ≠ .pending
      ∧ Effect (.of state) { Config.of (state.modifyTask task fun task =>
          { task with wake := none }) with result := some (task, status) } := by
  obtain ⟨_, inside', same⟩ := (orderly.tidy.tasks task).woken origin status woken
  rw [show ((Config.of state).state.task task).frame.wait = _ from inside, Option.some.injEq]
    at inside'
  subst inside'
  refine ⟨?_, orderly.final task status (.inr (.inr (.inl ⟨origin, woken⟩))),
    .takeWake rfl woken⟩
  unfold takeWake
  simp only [woken]
  rw [if_neg (by rw [← same, waits]; exact fun ne => ne rfl)]

theorem takeWake_none {src : Source} (unwoken : (state.task task).wake = none) :
    takeWake task src state = .ok (none, state) := by
  unfold takeWake
  simp only [unwoken]

theorem ends_send {after : State V} (kept : after.frame task = state.frame task)
    (frame : (state.task task).frame = .send channel value) (final : status.status ≠ .pending) :
    Effect { Config.of after with result := some (task, status) }
      (.of (endSend task value status.status after)) :=
  .endSend rfl (kept.trans frame) final

theorem ends_receive {after : State V} (kept : after.frame task = state.frame task)
    (frame : (state.task task).frame = .receive channel) (final : status.status ≠ .pending) :
    Effect { Config.of after with result := some (task, status) }
      (.of (endReceive task status.status after)) :=
  .endReceive rfl (kept.trans frame) final

theorem pollSend_runs (orderly : Orderly (.of state)) (running : (state.task task).Running)
    (frame : (state.task task).frame = .send channel value) :
    ∃ status after, pollSend task channel value state = .ok (status, after)
      ∧ Effects (.of state) (.of (endSend task value status after)) := by
  have inside : (state.task task).frame.wait = some (.send channel value) := by
    rw [frame]
    rfl
  have uses : (.send, channel) ∈ (state.task task).frame.endpoints := by
    rw [frame]
    exact mem_singleton_self _
  unfold pollSend
  cases woken : (state.task task).wake with
  | some pair =>
    obtain ⟨_, status⟩ := pair
    obtain ⟨takes, final, first⟩ := takeWake_runs orderly inside rfl woken
    have kept : (state.modifyTask task fun task => { task with wake := none }).frame = state.frame :=
      State.frame_modifyTask_of_eq state task rfl
    exact ⟨status.status, _, bind_of_ok takes,
      .tail (.single first) (ends_send (congrFun kept task) frame final)⟩
  | none =>
    rw [bind_of_ok (takeWake_none woken)]
    dsimp only
    rw [bind_of_ok (orderly.locks uses)]
    have alive : (state.channel channel).senders ≠ 0 := Nat.ne_of_gt (orderly.endpoint uses).1
    rw [if_neg alive]
    have atWork : (state.task task).AtWork := ⟨running.2.1, woken⟩
    by_cases cancelled : (state.task task).cancellationRequested = true
    · rw [if_pos cancelled]
      have refused : Effect (.of state) { Config.of state with
          result := some (task, ⟨.cancelled, none⟩) } := .refuse rfl atWork (.inr (.inl rfl))
      exact ⟨.cancelled, state, rfl, .tail (.single refused) (ends_send rfl frame nofun)⟩
    · rw [if_neg cancelled]
      obtain ⟨status, after, done, kept, outcome⟩ := sendLocked_runs orderly atWork
        (.inl ⟨frame, rfl⟩) (state.task task).executor
      rw [bind_of_ok done]
      rcases outcome with ⟨final, effects⟩ | ⟨rfl, rfl, blocked⟩
      · rw [if_neg final]
        exact ⟨status, after, rfl, effects.tail (ends_send (congrFun kept.frame task) frame final)⟩
      · rw [if_pos rfl]
        have parks := park_runs (orderly.record (.entered channel value)) running.2.1 woken .send
          channel (.send channel value) (after.task task).executor
        have first : Effect (.of after) _ := .parkSend rfl running woken frame blocked
        obtain ⟨parked, done', effects, -⟩ :=
          selectSignal_calms (orderly.effect first) (after.task task).executor rfl nofun nofun
        exact ⟨.pending, parked, bind_of_ok (parks.trans done'), .head first effects⟩

theorem pollReceive_runs (orderly : Orderly (.of state)) (running : (state.task task).Running)
    (frame : (state.task task).frame = .receive channel) :
    ∃ status after, pollReceive task channel state = .ok (status, after)
      ∧ Effects (.of state) (.of (endReceive task status after)) := by
  have inside : (state.task task).frame.wait = some (.receive channel) := by
    rw [frame]
    rfl
  have uses : (.receive, channel) ∈ (state.task task).frame.endpoints := by
    rw [frame]
    exact mem_singleton_self _
  unfold pollReceive
  cases woken : (state.task task).wake with
  | some pair =>
    obtain ⟨_, status⟩ := pair
    obtain ⟨takes, final, first⟩ := takeWake_runs orderly inside rfl woken
    have kept : (state.modifyTask task fun task => { task with wake := none }).frame = state.frame :=
      State.frame_modifyTask_of_eq state task rfl
    exact ⟨status.status, _, bind_of_ok takes,
      .tail (.single first) (ends_receive (congrFun kept task) frame final)⟩
  | none =>
    rw [bind_of_ok (takeWake_none woken)]
    dsimp only
    rw [bind_of_ok (orderly.locks uses)]
    have alive : (state.channel channel).receivers ≠ 0 := Nat.ne_of_gt (orderly.endpoint uses).1
    rw [if_neg alive]
    have atWork : (state.task task).AtWork := ⟨running.2.1, woken⟩
    by_cases cancelled : (state.task task).cancellationRequested = true
    · rw [if_pos cancelled]
      have refused : Effect (.of state) { Config.of state with
          result := some (task, ⟨.cancelled, none⟩) } := .refuse rfl atWork (.inr (.inl rfl))
      exact ⟨.cancelled, state, rfl, .tail (.single refused) (ends_receive rfl frame nofun)⟩
    · rw [if_neg cancelled]
      obtain ⟨status, after, done, kept, outcome⟩ := receiveLocked_runs orderly atWork
        (.inl ⟨frame, rfl⟩) (state.task task).executor
      rw [bind_of_ok done]
      rcases outcome with ⟨final, effects⟩ | ⟨rfl, rfl, blocked⟩
      · rw [if_neg final]
        exact ⟨status, after, rfl,
          effects.tail (ends_receive (congrFun kept.frame task) frame final)⟩
      · rw [if_pos rfl]
        have parks := park_runs orderly running.2.1 woken .receive channel (.receive channel)
          (after.task task).executor
        have first : Effect (.of after) _ := .parkReceive rfl running woken frame blocked
        obtain ⟨parked, done', effects, -⟩ :=
          selectSignal_calms (orderly.effect first) (after.task task).executor rfl nofun nofun
        exact ⟨.pending, parked, bind_of_ok (parks.trans done'), .head first effects⟩

theorem selectFind_finds {list : List WaitId} (mem : id ∈ list)
    (there : state.wait id = some wait) (owns : wait.task = task) (same : wait.context = context) :
    ∃ found, selectFind task context state list = some found := by
  induction list with
  | nil => cases mem
  | cons x rest ih =>
    unfold selectFind
    by_cases here : (state.wait x).any fun wait => wait.task = task ∧ wait.context = context
    · exact ⟨x, if_pos here⟩
    · rw [if_neg here]
      rcases mem_cons.mp mem with rfl | mem
      · simp [there, owns, same] at here
      · exact ih mem

theorem selectFind_congr {x y : State V} (same : x.wait = y.wait)
    (list : List WaitId) :
    selectFind task context x list = selectFind task context y list := by
  induction list with
  | nil => rfl
  | cons id rest ih =>
    unfold selectFind
    rw [ih, same]

/-- The wait of a task inside a select, parked or woken, is on the list of its thread. -/
theorem Orderly.finds (orderly : Orderly (.of state)) {e : ExecutorId}
    (frame : (state.task task).frame = .select context cases deadline)
    (home : (state.task task).executor = some e)
    (somewhere : (state.task task).wait ≠ none ∨ (state.task task).wake ≠ none) :
    ∃ id, selectFind task context state (state.selects e) = some id := by
  obtain ⟨id, wait, there, owns⟩ := orderly.tidy.selects.has task context cases deadline frame
    somewhere
  rcases orderly.tidy.selects.owner id wait there with ⟨inside, -, _, lives, listed⟩
    | ⟨-, next, status, inside, -⟩
  · rw [owns, show (Config.of state).state.frame task = _ from frame] at inside
    rw [owns, show (Config.of state).state.home task = _ from home] at lives
    cases inside
    cases lives
    exact selectFind_finds listed there owns rfl
  · rw [owns, show (Config.of state).state.frame task = _ from frame] at inside
    cases inside

theorem selectResume_runs (orderly : Orderly (.of state)) (running : (state.task task).Running)
    (frame : (state.task task).frame = .select context cases deadline) {origin : Source}
    (woken : (state.task task).wake = some (origin, status)) :
    ∃ id after, selectResume task context state = .ok (some (id, status), after)
      ∧ Effects (.of state) (.of (after.modifyTask task fun task =>
          { task with frame := .closing context cases deadline id 0 status })) := by
  have inside : (state.task task).frame.wait = some (.select context) := by
    rw [frame]
    rfl
  obtain ⟨takes, _, x⟩ := takeWake_runs orderly inside rfl woken
  obtain ⟨executor, home⟩ := Option.ne_none_iff_exists'.mp running.1
  obtain ⟨id, found⟩ := orderly.finds frame home (.inr (by rw [woken]; nofun))
  obtain ⟨taken, same⟩ : ∃ taken, taken = state.modifyTask task fun task =>
    { task with wake := none } := ⟨_, rfl⟩
  have home' : (taken.task task).executor = some executor := by
    rw [same]
    exact (congrFun (State.home_modifyTask_of_eq state task rfl) task).trans home
  have frame' : (taken.task task).frame = .select context cases deadline := by
    rw [same]
    exact (congrFun (State.frame_modifyTask_of_eq state task rfl) task).trans frame
  have waits : taken.wait = state.wait := by rw [same]; rfl
  have lists : taken.selects = state.selects := by rw [same]; rfl
  have found' : selectFind task context taken (taken.selects executor) = some id := by
    rw [lists, ← found]
    exact selectFind_congr waits _
  rw [← same] at takes x
  have second : Effect { Config.of taken with result := some (task, status) } _ :=
    .startClosing rfl frame' home' found'
  refine ⟨id, _, ?_, .tail (.single x) second⟩
  unfold selectResume
  refine (bind_of_ok takes).trans ?_
  dsimp only
  rw [home']
  dsimp only
  rw [found']
  rfl

theorem selectTry_runs (orderly : Orderly (.of state)) (running : (state.task task).Running)
    (unwoken : (state.task task).wake = none)
    (frame : (state.task task).frame = .select context cases deadline) (now : ℕ) :
    ∃ status selected after,
      selectTry task context cases deadline now state = .ok (status, selected, after)
      ∧ Effects (.of state) (.of (endSelect task cases status selected after)) := by
  have atWork : (state.task task).AtWork := ⟨running.2.1, unwoken⟩
  have ends {after : State V} {status : Wake} (kept : Undisturbed state after)
      (final : status.status ≠ .pending) :
      Effect { Config.of after with result := some (task, status) }
        (.of (endSelect task cases status.status status.selected after)) := by
    refine .endSelect rfl ((congrFun kept.frame task).trans frame) (fun id wait there owns => ?_) final
    have owner := kept.owner id
    rw [show after.wait id = some wait from there, Option.map_some] at owner
    obtain ⟨_, there', same⟩ := Option.map_eq_some_iff.mp owner.symm
    exact orderly.tidy.selects.free_of_atWork frame running.2.1 unwoken there' (same.trans owns)
  have refuses {status : Status} (kind : status = .closed ∨ status = .cancelled ∨ status = .timeout)
      (final : status ≠ .pending) :
      Effects (.of state) (.of (endSelect task cases status none state)) := by
    have refused : Effect (.of state) { Config.of state with
      result := some (task, ⟨status, none⟩) } := .refuse rfl atWork kind
    exact .tail (.single refused) (ends (.refl state) final)
  obtain ⟨executor, home⟩ := Option.ne_none_iff_exists'.mp running.1
  obtain ⟨some, short⟩ := orderly.bounded task context cases deadline (.inl frame)
  have locks : lockCases cases state = .ok () := by
    have uses : ∀ operation ∈ cases, operation.endpoint ∈ (state.task task).frame.endpoints := by
      intro operation inside
      rw [frame]
      exact mem_map_of_mem inside
    clear frame ends refuses some short
    induction cases with
    | nil => rfl
    | cons operation rest ih =>
      unfold lockCases
      rw [bind_of_ok (orderly.locks (uses operation mem_cons_self))]
      exact ih fun y inside => uses y (mem_cons_of_mem _ inside)
  unfold selectTry
  rw [home]
  dsimp only
  rw [if_neg some, if_neg (Nat.not_le_of_lt short)]
  by_cases cancelled : (state.task task).cancellationRequested = true
  · rw [if_pos cancelled]
    exact ⟨.cancelled, none, state, rfl, refuses (.inr (.inl rfl)) nofun⟩
  rw [if_neg cancelled, bind_of_ok locks]
  have inside : (state.task task).frame = .select context ([] ++ cases) deadline := frame
  obtain ⟨_, after, done, outcome⟩ := tryCases_runs orderly atWork inside executor
  rw [length_nil] at done
  rw [bind_of_ok done]
  rcases outcome with ⟨_, status, rfl, kept, ⟨final, effects⟩ | ⟨-, -, absurd⟩⟩
    | ⟨rfl, rfl, blocked⟩
  · exact ⟨status, _, after, rfl, effects.tail (ends kept final)⟩
  · exact absurd.elim
  · dsimp only
    by_cases late : deadline ≤ now
    · rw [if_pos late]
      exact ⟨.timeout, none, after, rfl, refuses (.inr (.inr rfl)) nofun⟩
    · rw [if_neg late]
      have parks : selectPark task executor context cases deadline after = .ok _ :=
        selectPark_eq running.2.1 unwoken
      have first : Effect (.of after) _ :=
        .parkSelect rfl running unwoken home frame short blocked parks
      exact ⟨.pending, none, _, bind_of_ok parks, .single first⟩

theorem poll_runs (orderly : Orderly (.of state)) (running : (state.task task).Running)
    (now : ℕ) : Runs (.of state) (poll task now state) := by
  unfold poll
  cases frame : (state.task task).frame with
  | idle | closing => exact ⟨state, rfl, .refl⟩
  | send =>
    obtain ⟨status, after, done, effects⟩ := pollSend_runs orderly running frame
    exact ⟨_, bind_of_ok done, effects⟩
  | receive =>
    obtain ⟨status, after, done, effects⟩ := pollReceive_runs orderly running frame
    exact ⟨_, bind_of_ok done, effects⟩
  | select context cases =>
    cases woken : (state.task task).wake with
    | some pair =>
      obtain ⟨_, status⟩ := pair
      obtain ⟨_, after, done, effects⟩ := selectResume_runs orderly running frame woken
      exact ⟨_, bind_of_ok done, effects⟩
    | none =>
      have resumes : selectResume task context state = .ok (none, state) := by
        unfold selectResume
        exact bind_of_ok (takeWake_none woken)
      obtain ⟨_, _, _, done, effects⟩ :=
        selectTry_runs orderly running woken frame now
      exact ⟨_, (bind_of_ok resumes).trans (bind_of_ok done), effects⟩

theorem endSelect_modifyTask {id : TaskId} {frame : Frame V} {status : Status} {selected : Option ℕ}
    (final : status ≠ .pending) :
    endSelect id cases status selected (state.modifyTask id fun task => { task with frame := frame })
      = endSelect id cases status selected state := by
  have left : (state.modifyTask id fun task => { task with frame := frame }).leave id
      = state.leave id := by
    simp [State.leave, State.modifyTask]
  unfold endSelect
  rw [if_neg final, if_neg final, left]

theorem unregister_runs (orderly : Orderly (.of state)) {next : ℕ}
    (frame : (state.task task).frame = .closing context cases deadline id next status) :
    ∃ unlinked, unregister id next state = .ok unlinked := by
  obtain ⟨wait, there, owns⟩ :=
    orderly.tidy.selects.closing task context cases deadline id next status frame
  have there : state.wait id = some wait := there
  have operations : wait.entries.map SelectEntry.operation = cases := by
    rcases orderly.tidy.selects.owner id wait there with ⟨inside, -⟩ | ⟨-, _, _, inside, -⟩
    · rw [owns, show (Config.of state).state.frame task = _ from frame] at inside
      cases inside
    · rw [owns, show (Config.of state).state.frame task = _ from frame] at inside
      cases inside
      rfl
  unfold unregister
  simp only [there]
  rcases here : wait.entries[next]? with _ | ⟨operation, _ | channel⟩
  · exact ⟨_, rfl⟩
  · exact ⟨_, rfl⟩
  · have own := orderly.tidy.registrations.own id wait _ channel there (mem_of_getElem? here) rfl
    have mem : operation.endpoint ∈ (state.task task).frame.endpoints := by
      rw [frame, ← operations]
      exact mem_map_of_mem (mem_map_of_mem (mem_of_getElem? here))
    have live : (state.channel channel).live = true := by
      rw [← own]
      exact (orderly.endpoint mem).2
    have reg : (id, next) ∈ (state.channel channel).selects :=
      (orderly.tidy.registrations.known channel id next).mpr ⟨wait, _, there, here, rfl⟩
    have locks : lock channel state = .ok () := if_pos live
    dsimp only
    rw [bind_of_ok locks, if_pos reg]
    exact ⟨_, rfl⟩

theorem unregisterStep_runs (orderly : Orderly (.of state)) :
    Runs (.of state) (unregisterStep task state) := by
  unfold unregisterStep
  cases frame : (state.task task).frame with
  | idle | send | receive | select => exact ⟨state, rfl, .refl⟩
  | closing context cases deadline wait next status =>
    dsimp only
    by_cases inside : next < cases.length
    · rw [if_pos inside]
      obtain ⟨_, done⟩ := unregister_runs orderly frame
      exact ⟨_, bind_of_ok done, .single (.unlink frame inside done)⟩
    · rw [if_neg inside]
      have first : Effect (.of state) _ := .freeWait rfl frame (Nat.le_of_not_lt inside)
      by_cases again : status.status = .selectEvent
      · rw [if_pos again] at first ⊢
        exact ⟨_, rfl, .single first⟩
      · rw [if_neg again] at first ⊢
        have final : status.status ≠ .pending := orderly.final task status
          (.inr (.inr (.inr (.inr ⟨context, cases, deadline, wait, next, frame⟩))))
        let freed : State V := { state with wait := update state.wait wait none }
        let framed : State V := freed.modifyTask task fun task =>
          { task with frame := .select context cases deadline }
        have inside' : (framed.task task).frame = .select context cases deadline := by
          simp [framed, State.modifyTask]
        have free : ∀ y found, framed.wait y = some found → found.task ≠ task := by
          intro y found there owns
          obtain ⟨old, there', owns'⟩ :=
            orderly.tidy.selects.closing task context cases deadline wait next status frame
          by_cases same : y = wait
          · subst same
            simp [framed, freed, State.modifyTask] at there
          · simp only [framed, freed, State.modifyTask, update_of_ne same] at there
            exact same (orderly.tidy.selects.one y wait found old there there'
              (owns.trans owns'.symm))
        have last : Effect { Config.of framed with result := some (task, status) } _ :=
          .endSelect rfl inside' free final
        have same : endSelect task cases status.status status.selected framed
            = endSelect task cases status.status status.selected freed := endSelect_modifyTask final
        refine ⟨_, rfl, ?_⟩
        rw [← same]
        exact .tail (.single first) last

/-! ### Cancellation and deadlines -/

section

variable (orderly : Orderly (.of state))
include orderly

theorem cancelWait_runs {side : Side}
    (uses : (side, channel) ∈ (state.task task).frame.endpoints) :
    Runs (.of state) (cancelWait task side channel state) := by
  unfold cancelWait
  rw [bind_of_ok (orderly.locks uses)]
  by_cases mem : task ∈ (state.channel channel).queue side
  · rw [if_pos mem]
    have first : Effect (.of state) _ := .withdraw mem (.inr rfl)
    obtain ⟨after, done, y, -⟩ :=
      wake_runs (orderly.effect first) rfl (state.task task).executor
    exact ⟨after, done, .tail (.single first) y⟩
  · rw [if_neg mem]
    exact ⟨state, rfl, .refl⟩

theorem cancelSelect_runs {e : ExecutorId}
    (frame : (state.task task).frame = .select context cases deadline)
    (home : (state.task task).executor = some e) (waits : (state.task task).wait ≠ none) :
    Runs (.of state) (cancelSelect task e context state) := by
  obtain ⟨id, found⟩ := orderly.finds frame home (.inl waits)
  obtain ⟨-, wait, there, owns, -⟩ := selectFind_some found
  unfold cancelSelect
  rw [found]
  dsimp only
  by_cases unclaimed : state.unclaimed id = true
  · rw [if_pos unclaimed]
    have unsignaled : wait.signaled = false := by simpa [State.unclaimed, there] using unclaimed
    obtain ⟨after, done, effects, -⟩ := claim_runs orderly there unsignaled (.inr (.inl rfl))
      e
    rw [owns] at done
    exact ⟨after, done, effects⟩
  · rw [if_neg unclaimed]
    exact ⟨state, rfl, .refl⟩

theorem requestCancellation_runs
    (lives : (state.task task).executor ≠ none) :
    Runs (.of state) (requestCancellation task state) := by
  unfold requestCancellation
  by_cases before : (state.task task).cancellationRequested = true
  · rw [if_pos before]
    exact ⟨state, rfl, .refl⟩
  rw [if_neg before]
  have there : state.task task ≠ .blank := fun blank => lives (by rw [blank]; rfl)
  have first : Effect (.of state) _ := .schedule there (.inr (.inr (.inr rfl)))
  have next := orderly.effect first
  obtain ⟨requested, same⟩ : ∃ requested, requested = state.modifyTask task fun task =>
    { task with cancellationRequested := true } := ⟨_, rfl⟩
  have wait : (requested.task task).wait = (state.task task).wait := by
    rw [same]
    exact congrFun (State.waiting_modifyTask_of_eq state task rfl) task
  have frame : (requested.task task).frame = (state.task task).frame := by
    rw [same]
    exact congrFun (State.frame_modifyTask_of_eq state task rfl) task
  have home : (requested.task task).executor = (state.task task).executor := by
    rw [same]
    exact congrFun (State.home_modifyTask_of_eq state task rfl) task
  change Orderly (.of (state.modifyTask task _)) at next
  change Effect (.of state) (.of (state.modifyTask task _)) at first
  rw [← same] at first next
  rw [← same]
  cases waits : (state.task task).wait with
  | none => exact .head first ⟨requested, rfl, .refl⟩
  | some parked =>
    have inside := ((orderly.tidy.tasks task).waiting parked waits).1
    rw [show ((Config.of state).state.task task).frame = _ from frame.symm] at inside
    cases parked with
    | send =>
      refine .head first (cancelWait_runs next ?_)
      cases now : (requested.task task).frame with
      | send =>
        rw [now] at inside
        cases inside
        exact mem_singleton_self _
      | _ => rw [now] at inside; cases inside
    | receive =>
      refine .head first (cancelWait_runs next ?_)
      cases now : (requested.task task).frame with
      | receive =>
        rw [now] at inside
        cases inside
        exact mem_singleton_self _
      | _ => rw [now] at inside; cases inside
    | select =>
      obtain ⟨_, lives⟩ := Option.ne_none_iff_exists'.mp lives
      rw [lives]
      cases now : (requested.task task).frame with
      | select context' cases =>
        rw [now] at inside
        cases inside
        exact .head first (cancelSelect_runs next now (home.trans lives) (by rw [wait, waits]; nofun))
      | _ => rw [now] at inside; cases inside

theorem expireFrom_runs (e : ExecutorId) (now : ℕ)
    (list : List WaitId) (there : ∀ id ∈ list, state.wait id ≠ none) :
    Runs (.of state) (expireFrom e now list state) := by
  induction list generalizing state with
  | nil => exact ⟨state, rfl, .refl⟩
  | cons id rest ih =>
    obtain ⟨wait, found⟩ := Option.ne_none_iff_exists'.mp (there id mem_cons_self)
    have later := fun y inside => there y (mem_cons_of_mem _ inside)
    unfold expireFrom
    simp only [found]
    by_cases expired : wait.signaled = false ∧ wait.deadline ≤ now
    · rw [if_pos expired]
      obtain ⟨woken, done, effects, signalled, -⟩ :=
        claim_runs orderly found expired.1 (.inr (.inr rfl)) e
      have still : ∀ y ∈ rest, woken.wait y ≠ none := by
        intro y inside none
        have owner := signalled.undisturbed.owner y
        rw [none] at owner
        exact later y inside (Option.map_eq_none_iff.mp owner.symm)
      obtain ⟨after, done', effects'⟩ := ih (orderly.effects effects) still
      exact ⟨after, (bind_of_ok done).trans done', effects.trans effects'⟩
    · rw [if_neg expired]
      exact ih orderly later

theorem wakeExpired_runs (e : ExecutorId) (now : ℕ) :
    Runs (.of state) (wakeExpired e now state) := by
  refine expireFrom_runs orderly e now _ fun id mem none => ?_
  obtain ⟨_, there, -⟩ := orderly.tidy.selects.listed e id mem
  rw [show (Config.of state).state.wait id = _ from none] at there
  cases there

end

/-! ### Mailboxes -/

/-- The mailbox of a thread is replaced. -/
def State.setMailbox (state : State V) (executor : ExecutorId) (list : List (TaskId × Wake)) :
    State V :=
  { state with mailbox := update state.mailbox executor list }

theorem wakeEach_runs (executor : ExecutorId) (list : List (TaskId × Wake))
    (orderly : Orderly (.of (state.setMailbox executor list))) :
    ∃ after, wakeEach executor list (state.setMailbox executor []) = .ok after
      ∧ Effects (.of (state.setMailbox executor list)) (.of after) := by
  induction list generalizing state with
  | nil => exact ⟨_, rfl, .refl⟩
  | cons x rest ih =>
    obtain ⟨id, status⟩ := x
    have here : (state.setMailbox executor ((id, status) :: rest)).mailbox executor
        = (id, status) :: rest := update_self ..
    have one : Effect (.of (state.setMailbox executor ((id, status) :: rest))) _ :=
      .receiveMail here
    have mem : (id, status)
        ∈ (state.setMailbox executor ((id, status) :: rest)).mailbox executor := by
      rw [here]
      exact mem_cons_self
    obtain ⟨waits, lives⟩ := orderly.tidy.tokens.mailed executor id status mem
    obtain ⟨wait, waits⟩ := Option.ne_none_iff_exists'.mp waits
    obtain ⟨-, unwoken, unqueued, unready, -⟩ := (orderly.tidy.tasks id).waiting wait waits
    have lives : (state.task id).executor = some executor := lives
    have waits : (state.task id).wait = some wait := waits
    have unwoken : (state.task id).wake = none := unwoken
    have unqueued : (state.task id).queued = false := unqueued
    have unready : (state.task id).ready = false := unready
    have wakes : wakeLocal (some executor) id status (state.setMailbox executor [])
        = .ok ((state.setMailbox executor []).modifyTask id fun task => task.awake status) := by
      unfold wakeLocal
      rw [if_neg]
      simp [State.setMailbox, waits, lives, unwoken, unqueued, unready]
    have moved : { state.setMailbox executor ((id, status) :: rest) with
          mailbox := update (state.setMailbox executor ((id, status) :: rest)).mailbox
            executor rest }.modifyTask id (fun task => task.awake status)
        = (state.modifyTask id fun task => task.awake status).setMailbox executor rest := by
      simp [State.setMailbox, State.modifyTask]
    have one : Effect (.of (state.setMailbox executor ((id, status) :: rest)))
        (.of ((state.modifyTask id fun task => task.awake status).setMailbox executor rest)) := by
      rw [← moved]
      exact one
    obtain ⟨after, done, effects⟩ := ih (orderly.effect one)
    refine ⟨after, ?_, .head one effects⟩
    unfold wakeEach
    rw [if_neg (by simp [State.setMailbox, lives])]
    exact (bind_of_ok wakes).trans done

theorem drain_runs (orderly : Orderly (.of state)) (e : ExecutorId) :
    Runs (.of state) (drain e state) := by
  have same : state.setMailbox e (state.mailbox e) = state := by
    simp [State.setMailbox]
  have mailed : Orderly (.of (state.setMailbox e (state.mailbox e))) := by
    rw [same]
    exact orderly
  obtain ⟨after, done, effects⟩ := wakeEach_runs e (state.mailbox e) mailed
  rw [same] at effects
  exact ⟨after, done, effects⟩

/-! ### Endpoints -/

theorem Tidy.queue_empty (tidy : Tidy c) {side : Side}
    (none : (c.state.channel channel).endpoints side = 0) :
    (c.state.channel channel).queue side = [] := by
  refine eq_nil_iff_forall_not_mem.mpr fun id mem => ?_
  obtain ⟨wait, waits, source⟩ := tidy.tokens.queued channel side id mem
  have inside := ((tidy.tasks id).waiting wait waits).1
  have uses : (side, channel) ∈ (c.state.frame id).endpoints := by
    rw [State.frame]
    cases frame : (c.state.task id).frame with
    | send | receive =>
      rw [frame] at inside
      cases inside
      cases source
      exact mem_singleton_self _
    | select context cases =>
      rw [frame] at inside
      cases inside
      cases source
    | _ => rw [frame] at inside; cases inside
  exact absurd none (Nat.ne_of_gt (tidy.endpoints.used id (side, channel) uses))

theorem Tidy.selects_empty (tidy : Tidy c)
    (none : ∀ side, (c.state.channel channel).endpoints side = 0) :
    (c.state.channel channel).selects = [] := by
  refine eq_nil_iff_forall_not_mem.mpr fun ⟨id, place⟩ mem => ?_
  obtain ⟨wait, entry, there, here, registration⟩ :=
    (tidy.registrations.known channel id place).mp mem
  have inside := mem_of_getElem? here
  have own := tidy.registrations.own id wait entry channel there inside registration
  have uses : entry.operation.endpoint ∈ (c.state.frame wait.task).endpoints := by
    have listed : entry.operation.endpoint
        ∈ (wait.entries.map SelectEntry.operation).map SelectCase.endpoint :=
      mem_map_of_mem (mem_map_of_mem inside)
    rcases tidy.selects.owner id wait there with ⟨frame, -⟩ | ⟨-, _, _, frame, -⟩
    · rw [frame]
      exact listed
    · rw [frame]
      exact listed
  have pos := tidy.endpoints.used wait.task entry.operation.endpoint uses
  rw [SelectCase.endpoint, own] at pos
  exact absurd (none _) (Nat.ne_of_gt pos)

theorem destroyUnused_runs (orderly : Orderly (.of state))
    (live : (state.channel channel).live = true) :
    Runs (.of state) (destroyUnused channel state) := by
  unfold destroyUnused unusedLocked
  by_cases used : (state.channel channel).senders ≠ 0 ∨ (state.channel channel).receivers ≠ 0
      ∨ (state.channel channel).holds ≠ 0
  · rw [if_pos used]
    exact ⟨state, rfl, .refl⟩
  · rw [if_neg used]
    simp only [not_or, not_not] at used
    have none : ∀ side, (state.channel channel).endpoints side = 0 := by
      intro side
      cases side with
      | send => exact used.1
      | receive => exact used.2.1
    have messages : (state.channel channel).messages = [] :=
      orderly.tidy.endpoints.emptied channel used.2.1
    have sends : (state.channel channel).sendQueue = [] := orderly.tidy.queue_empty (none .send)
    have receives : (state.channel channel).receiveQueue = [] :=
      orderly.tidy.queue_empty (none .receive)
    have selects : (state.channel channel).selects = [] := orderly.tidy.selects_empty none
    rw [if_neg (by simp [messages, sends, receives, selects])]
    exact ⟨_, rfl, .single (.destroy live used)⟩

theorem wakeAll_runs (orderly : Orderly c) (side : Side)
    {list : List TaskId} (queue : (c.state.channel channel).queue side = list)
    (actor : Option ExecutorId) :
    ∃ after, wakeAll actor side channel list c.state = .ok after
      ∧ Effects c { c with state := after }
      ∧ after.channel channel = (c.state.channel channel).setQueue [] side := by
  induction list generalizing c with
  | nil =>
    refine ⟨c.state, rfl, .refl, ?_⟩
    rw [← queue]
    cases side <;> rfl
  | cons task rest ih =>
    have mem : task ∈ (c.state.channel channel).queue side := by
      rw [queue]
      exact mem_cons_self
    have first : Effect c _ := .withdraw mem (.inl rfl)
    rw [queue, erase_cons_head] at first
    obtain ⟨woken, done, y, signalled⟩ := wake_runs (orderly.effect first) rfl actor
    have channels : woken.channel channel = (c.state.channel channel).setQueue rest side := by
      rw [show woken.channel = _ from signalled.channel]
      refine (channel_setQueue ..).trans ?_
      unfold State.withdraw
      split <;> rfl
    have queue' : (woken.channel channel).queue side = rest := by
      rw [channels]
      cases side <;> rfl
    obtain ⟨after, done', effects, emptied⟩ :=
      ih ((orderly.effect first).effect y) queue'
    refine ⟨after, ?_, .head first (.head y effects), ?_⟩
    · unfold wakeAll
      exact (bind_of_ok done).trans done'
    · have emptied : after.channel channel = (woken.channel channel).setQueue [] side := emptied
      rw [emptied, channels]
      cases side <;> rfl

theorem modifyChannel_congr (x second : Channel V → Channel V)
    (same : x (state.channel channel) = second (state.channel channel)) :
    state.modifyChannel channel x = state.modifyChannel channel second := by
  unfold State.modifyChannel
  rw [same]

/-- The last endpoint of a side is gone: the other side is woken, the selects are signalled, and a
channel that nothing uses is destroyed. -/
theorem dropLast_runs (side : Side) {dropped : State V}
    (orderly : Orderly { Config.of dropped with loud := [channel], closing := [channel] })
    (live : (dropped.channel channel).live = true)
    (none : (dropped.channel channel).endpoints side = 0) (other : Side)
    (apart : other ≠ side) (actor : Option ExecutorId) :
    Runs { Config.of dropped with loud := [channel], closing := [channel] } (do
      let woken ← wakeAll actor other channel ((dropped.channel channel).queue other) dropped
      let signalled ← selectSignal actor channel woken
      destroyUnused channel signalled) := by
  obtain ⟨woken, wakes, effects, emptied⟩ := wakeAll_runs orderly other rfl actor
  have emptied : woken.channel channel = (dropped.channel channel).setQueue [] other := emptied
  have next := orderly.effects effects
  have absent : (woken.channel channel).queue side = [] := by
    refine next.tidy.queue_empty ?_
    rw [show ({ Config.of dropped with state := woken, loud := [channel], closing := [channel] } :
      Config V).state.channel channel = _ from emptied]
    cases other <;> exact none
  have other_empty : (woken.channel channel).queue other = [] := by
    rw [emptied]
    cases other <;> rfl
  obtain ⟨signalled, signals, effects', kept⟩ := selectSignal_calms next actor rfl
    (by simp) (fun _ => by
      cases side <;> cases other
      · exact absurd rfl apart
      · exact ⟨.inl other_empty, .inl absent⟩
      · exact ⟨.inl absent, .inl other_empty⟩
      · exact absurd rfl apart)
  have live' : (signalled.channel channel).live = true := by
    rw [show signalled.channel = woken.channel from kept.channel, emptied]
    cases other <;> exact live
  obtain ⟨after, done, effects''⟩ := destroyUnused_runs (next.effects effects') live'
  exact ⟨after, (bind_of_ok wakes).trans ((bind_of_ok signals).trans done),
    (effects.trans effects').trans effects''⟩

section

variable (orderly : Orderly (.of state))
include orderly

theorem dropSender_runs (may : MayDrop state .send channel)
    (actor : Option ExecutorId) :
    Runs (.of state) (dropSender actor channel state) := by
  obtain ⟨pos, shared⟩ := may
  have live := orderly.tidy.endpoints.live channel (.inl pos)
  have locks : lock channel state = .ok () := if_pos live
  have alive : (state.channel channel).senders ≠ 0 := Nat.ne_of_gt pos
  obtain ⟨dropped, same⟩ : ∃ dropped, dropped = state.modifyChannel channel fun channel =>
    { channel with senders := channel.senders - 1 } := ⟨_, rfl⟩
  have record : dropped.channel channel = { state.channel channel with
      senders := (state.channel channel).senders - 1 } := by
    rw [same]
    exact update_self ..
  unfold dropSender
  rw [bind_of_ok locks, if_neg alive, ← same]
  dsimp only
  rw [record]
  by_cases last : (state.channel channel).senders - 1 = 0
  · rw [if_pos last]
    have one : (state.channel channel).senders = 1 := by omega
    have unused : ¬InUse state .send channel := fun inUse => by
      have several := shared inUse
      simp only [Channel.endpoints] at several
      omega
    have first : Effect (.of state) { Config.of dropped with
        loud := [channel], closing := [channel] } := by
      rw [same, modifyChannel_congr _ (fun channel => { channel with senders := 0 })
        (by rw [last])]
      exact .dropLastSender one unused
    have runs := dropLast_runs .send (orderly.effect first) (by rw [record]; exact live)
      (by rw [record]; exact last) .receive (fun same => by cases same) actor
    rw [record] at runs
    exact runs.head first
  · rw [if_neg last]
    have first : Effect (.of state) (.of dropped) := by
      rw [same]
      exact .dropOne (.inl ⟨by simp only [Config.of]; omega, rfl⟩)
    exact .head first (destroyUnused_runs (orderly.effect first) (by rw [record]; exact live))

theorem dropReceiver_runs (may : MayDrop state .receive channel)
    (actor : Option ExecutorId) :
    Runs (.of state) (dropReceiver actor channel state) := by
  obtain ⟨pos, shared⟩ := may
  have live := orderly.tidy.endpoints.live channel (.inr (.inl pos))
  have locks : lock channel state = .ok () := if_pos live
  have alive : (state.channel channel).receivers ≠ 0 := Nat.ne_of_gt pos
  obtain ⟨fewer, same⟩ : ∃ fewer, fewer = state.modifyChannel channel fun channel =>
    { channel with receivers := channel.receivers - 1 } := ⟨_, rfl⟩
  have record : fewer.channel channel = { state.channel channel with
      receivers := (state.channel channel).receivers - 1 } := by
    rw [same]
    exact update_self ..
  unfold dropReceiver
  rw [bind_of_ok locks, if_neg alive, ← same]
  dsimp only
  rw [record]
  by_cases last : (state.channel channel).receivers - 1 = 0
  · rw [if_pos last]
    have one : (state.channel channel).receivers = 1 := by omega
    have unused : ¬InUse state .receive channel := fun inUse => by
      have several := shared inUse
      simp only [Channel.endpoints] at several
      omega
    obtain ⟨dropped, same'⟩ : ∃ dropped, dropped = fewer.modifyChannel channel fun channel =>
      if channel.messages = [] then { channel with buffered := 0 }
      else
        { channel with
          messages := [], buffered := 0, holds := channel.holds + 1,
          detached := channel.detached ++ [channel.messages] } := ⟨_, rfl⟩
    have detaches : dropped = state.modifyChannel channel fun channel =>
        { channel with receivers := 0 }.detach := by
      rw [same', same]
      simp only [State.modifyChannel, update_self, update_idem, last,
        Channel.detach]
    have record' : dropped.channel channel
        = { state.channel channel with receivers := 0 }.detach := by
      rw [detaches]
      exact update_self ..
    have live' : (dropped.channel channel).live = true := by
      rw [record', Channel.detach]
      split_ifs <;> exact live
    have none : (dropped.channel channel).endpoints .receive = 0 := by
      rw [record', Channel.detach]
      split_ifs <;> rfl
    have first : Effect (.of state) { Config.of dropped with
        loud := [channel], closing := [channel] } := by
      rw [detaches]
      exact .dropLastReceiver one unused
    rw [← same']
    exact .head first
      (dropLast_runs .receive (orderly.effect first) live' none .send (fun same => by cases same) actor)
  · rw [if_neg last]
    have first : Effect (.of state) (.of fewer) := by
      rw [same]
      exact .dropOne (.inr ⟨by simp only [Config.of]; omega, rfl⟩)
    exact .head first (destroyUnused_runs (orderly.effect first) (by rw [record]; exact live))

theorem dropMessages_runs
    (some : (state.channel channel).detached ≠ []) :
    Runs (.of state) (dropMessages channel state) := by
  obtain ⟨messages, rest, detached⟩ := exists_cons_of_ne_nil some
  have holds : (state.channel channel).holds = (state.channel channel).detached.length :=
    orderly.tidy.endpoints.holds channel
  rw [detached, length_cons] at holds
  have live := orderly.tidy.endpoints.live channel (.inr (.inr (Nat.lt_of_sub_eq_succ holds)))
  have live : (state.channel channel).live = true := live
  have first : Effect (.of state) _ := .dropDetached detached
  unfold dropMessages
  rw [detached]
  dsimp only
  rw [dropEach_eq] at first ⊢
  have locks : lock channel (state.recordAll (messages.map (.destroyed channel))) = .ok () :=
    if_pos live
  have held : ((state.recordAll (messages.map (.destroyed channel))).channel channel).holds ≠ 0 := by
    change (state.channel channel).holds ≠ 0
    omega
  rw [bind_of_ok locks, if_neg held]
  refine .head first (destroyUnused_runs (orderly.effect first) ?_)
  rw [show ((State.modifyChannel _ channel _).channel channel) = _ from update_self ..]
  exact live

theorem cloneSender_runs
    (pos : 0 < (state.channel channel).senders)
    (few : (state.channel channel).senders < endpointLimit) :
    Runs (.of state) (cloneSender channel state) := by
  have locks : lock channel state = .ok () :=
    if_pos (orderly.tidy.endpoints.live channel (.inl pos))
  unfold cloneSender
  rw [bind_of_ok locks, if_neg (by omega)]
  exact ⟨_, rfl, .single (.clone (.inl ⟨pos, rfl⟩))⟩

theorem cloneReceiver_runs
    (pos : 0 < (state.channel channel).receivers)
    (few : (state.channel channel).receivers < endpointLimit) :
    Runs (.of state) (cloneReceiver channel state) := by
  have locks : lock channel state = .ok () :=
    if_pos (orderly.tidy.endpoints.live channel (.inr (.inl pos)))
  unfold cloneReceiver
  rw [bind_of_ok locks, if_neg (by omega)]
  exact ⟨_, rfl, .single (.clone (.inr ⟨pos, rfl⟩))⟩

end

/-! ### Every step -/

/-- **An allowed step in a state that is in order returns, and is a sequence of effects.** -/
theorem step_runs (orderly : Orderly (.of state)) {label : Label V} (allowed : Allowed state label) :
    Runs (.of state) (step label state) := by
  cases label with
  | openChannel => exact ⟨_, rfl, .single .openChannel⟩
  | cloneSender => exact cloneSender_runs orderly allowed.1 allowed.2
  | cloneReceiver => exact cloneReceiver_runs orderly allowed.1 allowed.2
  | dropSender actor => exact dropSender_runs orderly allowed actor
  | dropReceiver actor => exact dropReceiver_runs orderly allowed actor
  | dropMessages => exact dropMessages_runs orderly allowed
  | spawn => exact ⟨_, rfl, .single .spawn⟩
  | dispatch id =>
    have queued : (state.task id).queued = true := allowed
    have there : state.task id ≠ .blank := fun blank => by
      rw [blank] at queued
      cases queued
    exact ⟨_, rfl, .single (.schedule there (.inl rfl))⟩
  | «yield» id =>
    obtain ⟨lives, unparked, unqueued, unready⟩ := allowed
    have there : state.task id ≠ .blank := fun blank => lives (by rw [blank]; rfl)
    refine ⟨_, if_neg (by simp [unqueued, unready]), .single (.schedule there ?_)⟩
    exact .inr (.inl ⟨⟨lives, unparked, unqueued, unready⟩, rfl⟩)
  | finish id =>
    have there : state.task id ≠ .blank := fun blank => allowed.1.1 (by rw [blank]; rfl)
    exact ⟨_, rfl, .single (.schedule there (.inr (.inr (.inl ⟨allowed.1, allowed.2, rfl⟩))))⟩
  | begin => exact ⟨_, rfl, .single (.begin allowed)⟩
  | poll id now => exact poll_runs orderly allowed now
  | unregister => exact unregisterStep_runs orderly
  | cancel => exact requestCancellation_runs orderly allowed
  | wakeExpired executor now => exact wakeExpired_runs orderly executor now
  | drain executor => exact drain_runs orderly executor

theorem Reachable.orderly {state : State V} (reached : Reachable state) :
    Orderly (.of state) := by
  induction reached with
  | initial => exact .initial
  | step reached allowed taken ih =>
    obtain ⟨_, done, effects⟩ := step_runs ih allowed
    rw [taken] at done
    cases done
    exact ih.effects effects

/-- **What every effect keeps holds in every reachable state.** -/
theorem Reachable.invariant (property : Config V → Prop)
    (start : property (.of .initial))
    (kept : ∀ {s after : Config V}, Orderly s → property s → Effect s after →
      property after)
    {state : State V} (reached : Reachable state) : property (.of state) := by
  induction reached with
  | initial => exact start
  | @step s after label reached allowed taken ih =>
    obtain ⟨_, done, effects⟩ := step_runs reached.orderly allowed
    rw [taken] at done
    cases done
    have both : Orderly (.of after) ∧ property (.of after) := by
      clear taken allowed
      generalize Config.of after = final at effects
      induction effects with
      | refl => exact ⟨reached.orderly, ih⟩
      | tail _ effect inner => exact ⟨inner.1.effect effect, kept inner.1 inner.2 effect⟩
    exact both.2

end FoundationLang.Runtime
