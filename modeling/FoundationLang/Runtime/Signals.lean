/-
**Wakes on their way.**

A wake is a signal to its task from the moment at which the task is taken out of its wait until the
operation of the task ends: the task is held, the wake is in a mailbox or in the task, it is the
result of the operation, or the task removes the registrations of its select.

* `Effect.signals` — an effect passes signals on, or makes one with a final status.
-/

import FoundationLang.Runtime.TidyEffect

namespace FoundationLang.Runtime

open List Function

variable {V : Type} {c s after : Config V}
variable {status : Wake} {id : TaskId}
variable {other : TaskId} {moved : Wake}

/-- A wake is on its way to a task. -/
def Signals (config : Config V) (id : TaskId) (status : Wake) : Prop :=
  (id, status) ∈ config.held ∨ (∃ executor, (id, status) ∈ config.state.mailbox executor)
    ∨ (∃ source, config.state.woken id = some (source, status))
    ∨ config.result = some (id, status)
    ∨ ∃ context cases deadline wait next,
      config.state.frame id = .closing context cases deadline wait next status

theorem Signals.keep (signals : Signals after id status) {New : TaskId × Wake → Prop}
    (held : ∀ pair ∈ after.held, pair ∈ s.held ∨ New pair)
    (mailbox : after.state.mailbox = s.state.mailbox)
    (woken : after.state.woken = s.state.woken)
    (result : ∀ pair, after.result = some pair → s.result = some pair ∨ New pair)
    (frame : after.state.frame = s.state.frame) :
    Signals s id status ∨ New (id, status) := by
  rcases signals with inside | ⟨executor, inside⟩ | ⟨source, wakes⟩ | ready | closing
  · exact (held _ inside).imp_left .inl
  · rw [mailbox] at inside
    exact .inl (.inr (.inl ⟨executor, inside⟩))
  · rw [woken] at wakes
    exact .inl (.inr (.inr (.inl ⟨source, wakes⟩)))
  · exact (result _ ready).imp_left fun ready => .inr (.inr (.inr (.inl ready)))
  · rw [frame] at closing
    exact .inl (.inr (.inr (.inr (.inr closing))))

theorem Signals.of_eq (signals : Signals after id status) (held : after.held = s.held)
    (mailbox : after.state.mailbox = s.state.mailbox)
    (woken : after.state.woken = s.state.woken) (result : after.result = s.result)
    (frame : after.state.frame = s.state.frame) : Signals s id status := by
  unfold Signals at signals ⊢
  rw [held, mailbox, woken, result, frame] at signals
  exact signals

/-! ### Signals that move -/

theorem Signals.of_awake {mailbox : ExecutorId → List (TaskId × Wake)} {held : List (TaskId × Wake)}
    (x : Signals c other moved)
    (signals : Signals { c with
      state := { c.state with mailbox := mailbox }.modifyTask other
        (fun task => task.awake moved)
      held := held } id status) (fewer : ∀ pair ∈ held, pair ∈ c.held)
    (mail : ∀ executor, ∀ pair ∈ mailbox executor, pair ∈ c.state.mailbox executor) :
    Signals c id status := by
  let bare : State V := { c.state with mailbox := mailbox }
  rcases signals with inside | ⟨executor, inside⟩ | ⟨source, wakes⟩ | ready | closing
  · exact .inl (fewer _ inside)
  · exact .inr (.inl ⟨executor, mail executor _ inside⟩)
  · rw [State.woken_modifyTask] at wakes
    rcases of_update wakes with ⟨rfl, wakes⟩ | ⟨-, wakes⟩
    · rw [Task.awake, Option.map_eq_some_iff] at wakes
      obtain ⟨_, -, wakes⟩ := wakes
      cases wakes
      exact x
    · exact .inr (.inr (.inl ⟨source, wakes⟩))
  · exact .inr (.inr (.inr (.inl ready)))
  · have frame : (bare.modifyTask other fun task => task.awake moved).frame = bare.frame :=
      State.frame_modifyTask_of_eq bare other rfl
    rw [frame] at closing
    exact .inr (.inr (.inr (.inr closing)))

theorem Signals.of_wake {actor : Option ExecutorId} {rest : List (TaskId × Wake)} {woken : State V}
    (signals : Signals { c with state := woken, held := rest } id status)
    (held : c.held = (other, moved) :: rest)
    (done : wake actor other moved c.state = .ok woken) : Signals c id status := by
  have first : Signals c other moved := .inl (by rw [held]; exact mem_cons_self)
  have fewer : ∀ pair ∈ rest, pair ∈ c.held := fun pair inside => by
    rw [held]
    exact mem_cons_of_mem _ inside
  obtain ⟨_, -, ⟨-, rfl⟩ | ⟨-, rfl⟩⟩ := wake_ok done
  · have recorded : Signals { c with state := c.state.record (.woken other) } other moved :=
      first
    exact recorded.of_awake signals fewer fun _ _ inside => inside
  · rcases signals with inside | ⟨_, inside⟩ | signals
    · exact .inl (fewer _ inside)
    · rcases mem_append_at.mp inside with inside | ⟨-, ⟨⟩⟩
      · exact .inr (.inl ⟨_, inside⟩)
      · exact first
    · exact .inr (.inr signals)

theorem Signals.of_receiveMail {e : ExecutorId} {rest : List (TaskId × Wake)}
    (first : c.state.mailbox e = (other, moved) :: rest)
    (signals : Signals { c with
      state := { c.state with mailbox := update c.state.mailbox e rest
        }.modifyTask other fun task => task.awake moved } id status) :
    Signals c id status := by
  have here : Signals c other moved :=
    .inr (.inl ⟨e, by rw [first]; exact mem_cons_self⟩)
  refine here.of_awake signals (fun _ inside => inside) fun executor' pair inside => ?_
  by_cases same : executor' = e
  · subst same
    rw [update_self] at inside
    rw [first]
    exact mem_cons_of_mem _ inside
  · rw [update_of_ne same] at inside
    exact inside

theorem Signals.of_takeWake {src : Source}
    (woken : (c.state.task other).wake = some (src, moved))
    (signals : Signals { c with
      state := c.state.modifyTask other fun task => { task with wake := none }
      result := some (other, moved) } id status) : Signals c id status := by
  rcases signals with inside | mail | ⟨source', wakes⟩ | ready | closing
  · exact .inl inside
  · exact .inr (.inl mail)
  · rw [State.woken_modifyTask] at wakes
    rcases of_update wakes with ⟨-, ⟨⟩⟩ | ⟨-, wakes⟩
    exact .inr (.inr (.inl ⟨source', wakes⟩))
  · cases ready
    exact .inr (.inr (.inl ⟨src, woken⟩))
  · have frame : (c.state.modifyTask other fun task => { task with wake := none }).frame
        = c.state.frame := State.frame_modifyTask_of_eq _ other rfl
    rw [frame] at closing
    exact .inr (.inr (.inr (.inr closing)))

theorem Signals.of_reframe {change : Task V → Task V} {result : Option (TaskId × Wake)}
    (wake : (change (c.state.task other)).wake = (c.state.task other).wake)
    (signals : Signals { c with
      state := c.state.modifyTask other change, result := result } id status)
    (ready : ∀ pair, result = some pair → Signals c pair.1 pair.2)
    (closing : ∀ context cases deadline wait next status,
      (change (c.state.task other)).frame = .closing context cases deadline wait next status →
      Signals c other status) : Signals c id status := by
  rcases signals with inside | mail | ⟨source, wakes⟩ | now | ⟨context, cases, deadline, wait, next,
    inside⟩
  · exact .inl inside
  · exact .inr (.inl mail)
  · have woken : (c.state.modifyTask other change).woken = c.state.woken :=
      State.woken_modifyTask_of_eq c.state other wake
    rw [woken] at wakes
    exact .inr (.inr (.inl ⟨source, wakes⟩))
  · exact ready _ now
  · rw [State.frame_modifyTask] at inside
    rcases of_update inside with ⟨rfl, inside⟩ | ⟨-, inside⟩
    · exact closing _ _ _ _ _ _ inside
    · exact .inr (.inr (.inr (.inr ⟨context, cases, deadline, wait, next, inside⟩)))

theorem Signals.of_leave (other : TaskId) {ended : State V}
    (signals : Signals { c with state := ended, result := none } id status)
    (frame : ended.frame = update c.state.frame other .idle)
    (woken : ended.woken = c.state.woken) (mailbox : ended.mailbox = c.state.mailbox) :
    Signals c id status := by
  unfold Signals at signals
  dsimp only at signals
  rw [frame, woken, mailbox] at signals
  rcases signals with inside | mail | wakes | ready | ⟨context, cases, deadline, wait, next, inside⟩
  · exact .inl inside
  · exact .inr (.inl mail)
  · exact .inr (.inr (.inl wakes))
  · cases ready
  · rcases of_update inside with ⟨-, ⟨⟩⟩ | ⟨-, inside⟩
    exact .inr (.inr (.inr (.inr ⟨context, cases, deadline, wait, next, inside⟩)))

theorem Signals.of_endReceive {final : Status} (ends : final ≠ .pending)
    (signals : Signals { c with
      state := endReceive other final c.state, result := none } id status) :
    Signals c id status := by
  unfold endReceive at signals
  rw [if_neg ends] at signals
  split_ifs at signals
  · exact signals.of_leave other (by simp) (by simp) (by simp [State.leave, State.modifyTask])
  · exact signals.of_leave other (by simp) (by simp) rfl

theorem Signals.of_endSelect {cases : List (SelectCase V)} {final : Status} {selected : Option ℕ}
    (ends : final ≠ .pending)
    (signals : Signals { c with
      state := endSelect other cases final selected c.state, result := none } id status) :
    Signals c id status := by
  have left := State.frame_leave c.state other
  have kept := State.woken_leave c.state other
  unfold endSelect at signals
  rw [if_neg ends] at signals
  dsimp only at signals
  split_ifs at signals
  · refine signals.of_leave other ?_ ?_ ?_
    · rw [State.frame_takeSlot]
      exact left
    · rw [State.woken_takeSlot]
      exact kept
    · rw [State.mailbox_takeSlot]
      rfl
  · exact signals.of_leave other left kept rfl

theorem Signals.of_spawn {executor : ExecutorId}
    (signals : Signals { c with state := spawn executor c.state } id status) :
    Signals c id status := by
  have born : (spawn executor c.state).woken
        = update c.state.woken c.state.tasks none
      ∧ (spawn executor c.state).frame
        = update c.state.frame c.state.tasks .idle :=
    ⟨State.woken_modifyTask c.state _ fun _ => { Task.blank with
        executor := some executor, queued := true },
      State.frame_modifyTask c.state _ fun _ => { Task.blank with
        executor := some executor, queued := true }⟩
  rcases signals with inside | mail | ⟨source, wakes⟩ | ready | ⟨context, cases, deadline, wait, next,
    inside⟩
  · exact .inl inside
  · exact .inr (.inl mail)
  · rw [born.1] at wakes
    rcases of_update wakes with ⟨-, ⟨⟩⟩ | ⟨-, wakes⟩
    exact .inr (.inr (.inl ⟨source, wakes⟩))
  · exact .inr (.inr (.inr (.inl ready)))
  · rw [born.2] at inside
    rcases of_update inside with ⟨-, ⟨⟩⟩ | ⟨-, inside⟩
    exact .inr (.inr (.inr (.inr ⟨context, cases, deadline, wait, next, inside⟩)))

/-! ### Every effect -/

/-- A status that an operation ends with. -/
def Final (config : Config V) : Prop :=
  ∀ id status, Signals config id status → status.status ≠ .pending

theorem Final.effect (final : Final s) (effect : Effect s after) : Final after := by
  intro id status signals
  have of_old (old : Signals s id status ∨ status.status ≠ .pending) :
      status.status ≠ .pending := old.elim (final id status) fun new => new
  have of_result {pair : TaskId × Wake} (ends : pair.2.status ≠ .pending)
      (r : TaskId × Wake) (ready : some pair = some r) :
      s.result = some r ∨ r.2.status ≠ .pending := by
    cases ready
    exact .inr ends
  have of_held {pair : TaskId × Wake} (ends : pair.2.status ≠ .pending)
      (other : TaskId × Wake) (inside : other ∈ pair :: s.held) :
      other ∈ s.held ∨ other.2.status ≠ .pending := by
    rcases mem_cons.mp inside with rfl | inside
    · exact .inr ends
    · exact .inl inside
  have same_held (other : TaskId × Wake) (inside : other ∈ s.held) :
      other ∈ s.held ∨ other.2.status ≠ .pending := .inl inside
  have ready_ends {i : Option ℕ} : (⟨.ready, i⟩ : Wake).status ≠ .pending := nofun
  cases effect with
  | claim found unclaimed kind =>
    refine of_old (signals.keep (of_held ?_) rfl rfl (fun _ => .inl) rfl)
    rcases kind with rfl | rfl | rfl <;> nofun
  | wake held done => exact final _ _ (signals.of_wake held done)
  | receiveMail x => exact final _ _ (signals.of_receiveMail x)
  | handReceiver | handSelect | takeSender | takeSelect =>
    refine of_old (signals.keep (of_held ready_ends) rfl ?_ (of_result ready_ends) ?_)
    · exact State.woken_deliver ..
    · exact State.frame_deliver ..
  | push =>
    exact of_old (signals.keep same_held rfl rfl (of_result ready_ends) rfl)
  | takeMessage =>
    refine of_old (signals.keep same_held rfl ?_ (of_result ready_ends) ?_)
    · exact State.woken_takeMessage ..
    · exact State.frame_takeMessage ..
  | takeRefill =>
    refine of_old (signals.keep (of_held ready_ends) rfl ?_ (of_result ready_ends) ?_)
    · exact State.woken_takeMessage ..
    · exact State.frame_takeMessage ..
  | refuse idle atWork kind =>
    refine of_old (signals.keep same_held rfl rfl (of_result ?_) rfl)
    rcases kind with kind | kind | kind <;> rw [kind] <;> nofun
  | parkSend | parkReceive =>
    refine final id status (signals.of_eq rfl rfl ?_ rfl ?_)
    · exact State.woken_parkIn ..
    · exact State.frame_parkIn ..
  | parkSelect idle running unwoken home frame short blocked done =>
    rw [selectPark_eq running.2.1 unwoken] at done
    cases done
    refine final id status (signals.of_eq rfl ?_ ?_ rfl ?_)
    · exact mailbox_parkSelect ..
    · exact woken_parkSelect ..
    · exact frame_parkSelect ..
  | @withdraw channel side task moved mem kind =>
    have ends : (⟨moved, none⟩ : Wake).status ≠ .pending := by
      rcases kind with rfl | rfl <;> nofun
    refine of_old (signals.keep (of_held ends) ?_ ?_ (fun _ => .inl) ?_)
    all_goals
      unfold State.withdraw
      split <;> rfl
  | takeWake idle woken => exact final _ _ (signals.of_takeWake woken)
  | endSend ready frame ends =>
    unfold endSend at signals
    rw [if_neg ends] at signals
    exact final _ _ (signals.of_leave _ (State.frame_leave ..) (State.woken_leave ..) rfl)
  | endReceive ready frame ends => exact final _ _ (signals.of_endReceive ends)
  | endSelect ready frame free ends => exact final _ _ (signals.of_endSelect ends)
  | @startClosing task executor context deadline cases moved wait ready =>
    let unlisted : Config V := { s with
      state := { s.state with
        selects := update s.state.selects executor
          ((s.state.selects executor).erase wait) } }
    have old : Signals unlisted id status := by
      refine signals.of_reframe rfl nofun fun context cases deadline wait next status same => ?_
      cases same
      exact .inr (.inr (.inr (.inl ready)))
    exact final id status old
  | @unlink task context deadline next cases moved wait unlinked frame inside done =>
    obtain ⟨found, -, ⟨-, rfl⟩ | ⟨operation, channel, -, -, -, rfl⟩⟩ := unregister_ok done
    · refine final id status (signals.of_reframe rfl (fun pair ready => ?_) ?_)
      · exact .inr (.inr (.inr (.inl ready)))
      · intro context cases deadline wait next status same
        cases same
        exact .inr (.inr (.inr (.inr ⟨_, _, _, _, _, frame⟩)))
    · let after : Config V := { s with
        state := s.state.unlink wait next found operation channel }
      have old : Signals after id status := by
        refine signals.of_reframe rfl (fun pair ready => .inr (.inr (.inr (.inl ready)))) ?_
        intro context cases deadline wait next status same
        cases same
        exact .inr (.inr (.inr (.inr ⟨_, _, _, _, _, frame⟩)))
      exact final id status old
  | @freeWait task context deadline next cases moved wait idle frame =>
    let after : Config V := { s with
      state := { s.state with wait := update s.state.wait wait none } }
    have old : Signals after id status := by
      refine signals.of_reframe rfl (fun pair ready => ?_) nofun
      split_ifs at ready
      cases ready
      exact .inr (.inr (.inr (.inr ⟨_, _, _, _, _, frame⟩)))
    exact final id status old
  | @begin task request =>
    have old : Signals { s with state := s.state.modifyTask task fun task =>
        { task with frame := (request.frame s.state.tickets).1 } } id status := signals
    refine final id status (old.of_reframe rfl (fun pair ready => .inr (.inr (.inr (.inl ready))))
      fun context cases deadline wait next status same => ?_)
    cases request <;> cases same
  | @schedule task change there kind =>
    have same : (change (s.state.task task)).wake = (s.state.task task).wake
        ∧ (change (s.state.task task)).frame = (s.state.task task).frame := by
      rcases kind with rfl | ⟨-, rfl⟩ | ⟨-, -, rfl⟩ | rfl <;> exact ⟨rfl, rfl⟩
    refine final id status (signals.of_eq rfl rfl ?_ rfl ?_)
    · exact State.woken_modifyTask_of_eq s.state task same.1
    · exact State.frame_modifyTask_of_eq s.state task same.2
  | spawn => exact final _ _ signals.of_spawn
  | openChannel | clone | dropOne | dropLastSender | dropLastReceiver | destroy | calm =>
    exact final id status (signals.of_eq rfl rfl rfl rfl rfl)
  | dropDetached =>
    rw [dropEach_eq] at signals
    exact final id status (signals.of_eq rfl rfl rfl rfl rfl)

/-! ### Operations -/

/-- The task is inside a select, parked or not. -/
def Frame.Selecting (frame : Frame V) (context : ℕ) (cases : List (SelectCase V)) (deadline : ℕ) :
    Prop :=
  frame = .select context cases deadline
    ∨ ∃ wait next status, frame = .closing context cases deadline wait next status

/-- What an effect does to the operation of a task. -/
inductive Reframed (before after : Config V) (id : TaskId) : Prop
  | same (same : after.state.frame id = before.state.frame id)
  | idle (idle : after.state.frame id = .idle)
  | begun (request : Request V) (allowed : Allowed before.state (.begin id request))
    (inside : after.state.frame id = (request.frame before.state.tickets).1)
  | selecting (context : ℕ) (cases : List (SelectCase V)) (deadline : ℕ)
    (was : (before.state.frame id).Selecting context cases deadline)
    (is : (after.state.frame id).Selecting context cases deadline)

theorem Reframed.update {task : TaskId} {frame : Frame V}
    (views : after.state.frame = update s.state.frame task frame)
    (changed : after.state.frame task = frame → Reframed s after task) (id : TaskId) :
    Reframed s after id := by
  by_cases here : id = task
  · subst here
    exact changed (by rw [views, update_self])
  · exact .same (by rw [views, update_of_ne here])

theorem frame_awake (s : State V) (id : TaskId) (status : Wake) :
    (s.modifyTask id fun task => task.awake status).frame = s.frame :=
  State.frame_modifyTask_of_eq s id rfl

theorem frame_endSend {s : State V} {v : Parcel V} {status : Status}
    (final : status ≠ .pending) :
    (endSend id v status s).frame = update s.frame id .idle := by
  unfold endSend
  rw [if_neg final]
  exact State.frame_leave ..

theorem frame_endReceive {s : State V} {status : Status} (final : status ≠ .pending) :
    (endReceive id status s).frame = update s.frame id .idle := by
  unfold endReceive
  rw [if_neg final]
  split_ifs <;> simp

theorem frame_endSelect {s : State V} {cases : List (SelectCase V)} {status : Status}
    {selected : Option ℕ} (final : status ≠ .pending) :
    (endSelect id cases status selected s).frame = update s.frame id .idle := by
  have left := State.frame_leave s id
  unfold endSelect
  rw [if_neg final]
  split_ifs
  · rw [State.frame_takeSlot]
    exact left
  · exact left

theorem Effect.reframed (effect : Effect s after) (id : TaskId) :
    Reframed s after id := by
  cases effect with
  | claim | push | refuse | openChannel | clone | dropOne | dropLastSender | dropLastReceiver
  | destroy | calm => exact .same rfl
  | wake held done =>
    obtain ⟨executor, -, ⟨-, rfl⟩ | ⟨-, rfl⟩⟩ := wake_ok done
    · refine .same (congrFun ?_ id)
      exact frame_awake ..
    · exact .same rfl
  | receiveMail => exact .same (congrFun (frame_awake ..) id)
  | handReceiver | handSelect | takeSender | takeSelect =>
    exact .same (congrFun (State.frame_deliver ..) id)
  | takeMessage | takeRefill =>
    exact .same (congrFun (State.frame_takeMessage ..) id)
  | parkSend | parkReceive =>
    exact .same (congrFun (State.frame_parkIn ..) id)
  | parkSelect idle running unwoken home frame short blocked done =>
    rw [selectPark_eq running.2.1 unwoken] at done
    cases done
    exact .same (congrFun (frame_parkSelect ..) id)
  | withdraw =>
    refine .same ?_
    unfold State.withdraw
    split <;> rfl
  | @takeWake task =>
    have same : (s.state.modifyTask task fun task => { task with wake := none }).frame
        = s.state.frame := State.frame_modifyTask_of_eq s.state task rfl
    exact .same (congrFun same id)
  | endSend ready frame ends => exact .update (frame_endSend ends) .idle id
  | endReceive ready frame ends => exact .update (frame_endReceive ends) .idle id
  | endSelect ready frame free ends => exact .update (frame_endSelect ends) .idle id
  | @startClosing task executor context deadline cases status wait ready frame =>
    refine .update (State.frame_modifyTask s.state task fun task =>
      { task with frame := .closing context cases deadline wait 0 status }) (fun inside => ?_) id
    exact .selecting _ _ _ (.inl frame) (.inr ⟨_, _, _, inside⟩)
  | @unlink task context deadline next cases status wait unlinked frame inside done =>
    obtain ⟨_, -, ⟨-, rfl⟩ | ⟨_, _, -, -, -, rfl⟩⟩ := unregister_ok done
    all_goals
      refine .update (State.frame_modifyTask s.state task fun task =>
        { task with frame := .closing context cases deadline wait (next + 1) status })
        (fun inside => ?_) id
      exact .selecting _ _ _ (.inr ⟨_, _, _, frame⟩) (.inr ⟨_, _, _, inside⟩)
  | @freeWait task context deadline next cases status wait idle frame =>
    refine .update (State.frame_modifyTask s.state task fun task =>
      { task with frame := .select context cases deadline }) (fun inside => ?_) id
    exact .selecting _ _ _ (.inr ⟨_, _, _, frame⟩) (.inl inside)
  | @begin task request allowed =>
    exact .update (State.frame_modifyTask s.state task fun task =>
      { task with frame := (request.frame s.state.tickets).1 }) (.begun request allowed) id
  | @schedule task change there kind =>
    have same : (change (s.state.task task)).frame = (s.state.task task).frame := by
      rcases kind with rfl | ⟨-, rfl⟩ | ⟨-, -, rfl⟩ | rfl <;> rfl
    exact .same (congrFun (State.frame_modifyTask_of_eq s.state task same) id)
  | @spawn executor =>
    exact .update (State.frame_modifyTask s.state _ fun _ => { Task.blank with
      executor := some executor, queued := true }) .idle id
  | dropDetached =>
    rw [dropEach_eq]
    exact .same rfl

/-- Every select has cases, and not too many. -/
def Bounded (state : State V) : Prop :=
  ∀ id context cases deadline, (state.frame id).Selecting context cases deadline →
    cases ≠ [] ∧ cases.length < selectLimit

theorem numberCases_length (ticket : ℕ) (cases : List (ChannelId × Option V)) :
    (numberCases ticket cases).length = cases.length := by
  induction cases generalizing ticket with
  | nil => rfl
  | cons x rest ih =>
    obtain ⟨_, _ | _⟩ := x <;> simp [numberCases, ih]

theorem Bounded.effect (bounded : Bounded s.state) (effect : Effect s after) :
    Bounded after.state := by
  intro id context cases deadline inside
  cases effect.reframed id with
  | same same =>
    rw [same] at inside
    exact bounded id context cases deadline inside
  | idle idle =>
    rw [idle] at inside
    rcases inside with inside | ⟨_, _, _, inside⟩ <;> cases inside
  | begun request allowed now =>
    rw [now] at inside
    cases request with
    | send => rcases inside with inside | ⟨_, _, _, inside⟩ <;> cases inside
    | receive => rcases inside with inside | ⟨_, _, _, inside⟩ <;> cases inside
    | select context' cases' deadline' =>
      obtain ⟨some, short⟩ := allowed.2.2.2 context' cases' deadline' rfl
      rcases inside with inside | ⟨_, _, _, inside⟩
      · cases inside
        have length := numberCases_length s.state.tickets cases'
        refine ⟨fun none => some ?_, by rw [length]; exact short⟩
        rw [none] at length
        exact eq_nil_of_length_eq_zero length.symm
      · cases inside
  | selecting context' cases' deadline' was is =>
    have old := bounded id context' cases' deadline' was
    rcases is with is | ⟨_, _, _, is⟩
    all_goals
      rw [is] at inside
      rcases inside with inside | ⟨_, _, _, inside⟩ <;> cases inside <;> exact old

/-- **What holds at every point of a step.** -/
structure Orderly (config : Config V) : Prop where
  tidy : Tidy config
  final : Final config
  bounded : Bounded config.state

theorem Orderly.effect (orderly : Orderly s) (effect : Effect s after) :
    Orderly after :=
  ⟨orderly.tidy.effect effect, orderly.final.effect effect, orderly.bounded.effect effect⟩

theorem Orderly.effects (orderly : Orderly s) (effects : Effects s after) :
    Orderly after := by
  induction effects with
  | refl => exact orderly
  | tail _ effect ih => exact ih.effect effect

theorem Orderly.initial : Orderly (Config.of (State.initial : State V)) := by
  refine ⟨Tidy.initial, fun id status signals => ?_, fun id context cases deadline inside => ?_⟩
  · rcases signals with inside | ⟨_, inside⟩ | ⟨_, wakes⟩ | ready | ⟨_, _, _, _, _, inside⟩
    · cases inside
    · cases inside
    · cases wakes
    · cases ready
    · cases inside
  · rcases inside with inside | ⟨_, _, _, inside⟩ <;> cases inside

end FoundationLang.Runtime
