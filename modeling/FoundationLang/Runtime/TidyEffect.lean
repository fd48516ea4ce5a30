/-
**The bookkeeping of every effect.**

The effects that end and begin operations, change tasks and change the endpoints of channels, and
`Tidy.effect`: no effect upsets the bookkeeping.
-/

import FoundationLang.Runtime.TidyKept

namespace FoundationLang.Runtime

open List Function

variable {V : Type} {c : Config V}
variable {channel : ChannelId} {id : TaskId} {status : Wake}
variable {change : Channel V → Channel V} {state : State V} {side : Side}

/-! ### The rest of a select -/

theorem Tidy.freeWait (tidy : Tidy c) {task : TaskId} {context deadline next : ℕ}
    {cases : List (SelectCase V)} {id : WaitId} (idle : c.result = none)
    (frame : (c.state.task task).frame = .closing context cases deadline id next status)
    (last : cases.length ≤ next) :
    Tidy { c with
      state := { c.state with wait := update c.state.wait id none
        }.modifyTask task fun task => { task with frame := .select context cases deadline }
      result := if status.status = .selectEvent then none else some (task, status) } := by
  obtain ⟨unparked, unwoken⟩ := (tidy.tasks task).at_work (by rw [frame]; rfl)
  have spawned : task < c.state.tasks := tidy.spawned_of_frame (by rw [frame]; simp)
  have gone : ∀ found, c.state.wait id = some found →
      ∀ entry ∈ found.entries, entry.registration = none := by
    intro found there entry mem
    obtain ⟨_, there', owns⟩ := tidy.selects.closing task context cases deadline id next status
      frame
    rw [there, Option.some.injEq] at there'
    subst there'
    subst owns
    obtain ⟨place, here⟩ := List.getElem?_of_mem mem
    rcases tidy.selects.owner id found there with ⟨inside, -⟩ | ⟨-, _, status', inside, gone⟩
    · rw [show c.state.frame found.task = _ from frame] at inside
      cases inside
    · rw [show c.state.frame found.task = _ from frame] at inside
      injection inside with _ operations _ _ nexts
      subst nexts
      refine gone place (Nat.lt_of_lt_of_le ?_ last) entry here
      rw [operations, length_map]
      exact (List.getElem?_eq_some_iff.mp here).1
  refine tidy.modify (fun task => { task with frame := .select context cases deadline }) spawned
    (Task.tidy_of_none unparked unwoken) rfl rfl rfl (update_eq_self task _) (update_eq_self task _)
    rfl ?_ ?_ ?_ (tidy.registrations.freeWait gone) ?_
  · intro other status' ready
    split_ifs at ready
    cases ready
    simp only [task_modifyTask, if_pos]
    exact ⟨unparked, unwoken⟩
  · have claimed : ∀ found : SelectWait V, none = some found → found.signaled = true := nofun
    exact tidy.tokens.changeWait id claimed
  · have kept := tidy.selects
    rw [idle] at kept
    have new : ∀ other, none = some other → (if status.status = .selectEvent then none
        else some (task, status)).map Prod.fst = some other := nofun
    exact kept.freeWait unparked unwoken frame new
  · refine tidy.endpoints.retask fun endpoint mem => .inl ?_
    rw [show c.state.frame task = _ from frame]
    exact mem

/-! ### Tasks -/

theorem numberCases_endpoints (ticket y : ℕ) (cases : List (ChannelId × Option V)) :
    (numberCases ticket cases).map SelectCase.endpoint
      = (numberCases y cases).map SelectCase.endpoint := by
  induction cases generalizing ticket y with
  | nil => rfl
  | cons x rest ih =>
    obtain ⟨_, _ | _⟩ := x
    · simp only [numberCases, map_cons, ih (ticket + 1) (y + 1)]
    · simp only [numberCases, map_cons, ih (ticket + 1) (y + 1)]
      rfl

theorem Request.frame_endpoints (ticket y : ℕ) (r : Request V) :
    (r.frame ticket).1.endpoints = (r.frame y).1.endpoints := by
  cases r with
  | send | receive => rfl
  | select context cases => exact numberCases_endpoints ticket y cases

section

variable (tidy : Tidy c)
include tidy

theorem Tidy.free_of_idle (idle : (c.state.task id).frame = .idle)
    (y : WaitId) (found : SelectWait V) (there : c.state.wait y = some found) :
    found.task ≠ id := by
  refine tidy.selects.free_of_frame ?_ ?_ there
  · intro context cases deadline inside
    rw [show c.state.frame id = _ from idle] at inside
    cases inside
  · intro context cases deadline wait next status inside
    rw [show c.state.frame id = _ from idle] at inside
    cases inside

theorem Tidy.begin {r : Request V}
    (allowed : Allowed c.state (.begin id r)) :
    Tidy { c with state := Runtime.begin id r c.state } := by
  obtain ⟨⟨lives, unparked, -, -⟩, idle, there, -⟩ := allowed
  have unwoken := ((tidy.tasks id).at_work (by rw [idle]; rfl)).2
  have spawned : id < c.state.tasks := tidy.spawned fun blank => lives (by rw [blank]; rfl)
  have unclosing : ∀ context cases deadline y next status,
      (r.frame c.state.tickets).1
        ≠ .closing context cases deadline y next status := by
    cases r <;> nofun
  have used : ∀ endpoint ∈ (r.frame c.state.tickets).1.endpoints,
      endpoint ∈ (c.state.task id).frame.endpoints
        ∨ 0 < (c.state.channel endpoint.2).endpoints endpoint.1 := by
    intro endpoint mem
    rw [r.frame_endpoints c.state.tickets 0] at mem
    exact .inr (there endpoint mem)
  have kept : Tidy { c with state := c.state.modifyTask id fun task =>
      { task with frame := (r.frame c.state.tickets).1 } } :=
    tidy.reframe unparked unwoken (tidy.free_of_idle idle) rfl unparked unwoken unclosing spawned used
      (fun _ _ same => same) fun y status ready _ => tidy.atWork y status ready
  exact ⟨kept.tasks, kept.unspawned, kept.atWork, kept.tokens, kept.selects, kept.registrations,
    kept.endpoints⟩

theorem Tidy.spawn (executor : ExecutorId) :
    Tidy { c with state := Runtime.spawn executor c.state } := by
  have blank := tidy.unspawned c.state.tasks (Nat.le_refl _)
  let born : Task V := { Task.blank with executor := some executor, queued := true }
  let after : State V := c.state.modifyTask c.state.tasks fun _ => born
  have unparked : (c.state.task c.state.tasks).wait = none := by rw [blank]; rfl
  have unwoken : (c.state.task c.state.tasks).wake = none := by rw [blank]; rfl
  have idle : (c.state.task c.state.tasks).frame = .idle := by rw [blank]; rfl
  have waiting : after.waiting = c.state.waiting :=
    State.waiting_modifyTask_of_eq _ _ unparked.symm
  have woken : after.woken = c.state.woken :=
    State.woken_modifyTask_of_eq _ _ unwoken.symm
  have frame : after.frame = c.state.frame := State.frame_modifyTask_of_eq _ _ idle.symm
  have home : after.home
      = update c.state.home c.state.tasks (some executor) :=
    State.home_modifyTask _ _ _
  refine ⟨?_, ?_, ?_, ?_, ?_, tidy.registrations, ?_⟩
  · intro y
    change (after.task y).Tidy
    simp only [after, task_modifyTask]
    split_ifs with same
    · exact ⟨nofun, nofun⟩
    · exact tidy.tasks y
  · intro y beyond
    have ne : y ≠ c.state.tasks := Nat.ne_of_gt beyond
    change after.task y = .blank
    simp only [after, task_modifyTask, if_neg ne]
    exact tidy.unspawned y (Nat.le_of_succ_le beyond)
  · intro y status ready
    change (after.task y).AtWork
    simp only [after, task_modifyTask]
    split_ifs with same
    · exact ⟨rfl, rfl⟩
    · exact tidy.atWork y status ready
  · have ts := tidy.tokens.settle unparked (some executor)
    rw [← waiting, ← home] at ts
    exact ts
  · have selects : Selects after.waiting after.home after.woken after.frame c.state.wait
        c.state.selects c.state.waits (c.result.map Prod.fst) := by
      rw [waiting, woken, home, frame]
      refine tidy.selects.change (tidy.free_of_idle idle) (fun y ne => ?_)
        (fun context cases deadline inside => ?_) fun context cases deadline id next status inside =>
        ?_
      · exact ⟨rfl, update_of_ne ne .., rfl, rfl, fun same => same⟩
      · rw [show c.state.frame _ = _ from idle] at inside
        cases inside
      · rw [show c.state.frame _ = _ from idle] at inside
        cases inside
    exact selects
  · have endpoints := tidy.endpoints
    rw [← frame] at endpoints
    exact endpoints

theorem Tidy.schedule {change : Task V → Task V}
    (there : c.state.task id ≠ .blank)
    (kind : change = (fun task => { task with queued := false })
      ∨ ((c.state.task id).Running ∧ change = fun task => { task with queued := true })
      ∨ ((c.state.task id).Running ∧ (c.state.task id).frame = .idle
        ∧ change = fun task => { task with ready := true })
      ∨ change = fun task => { task with cancellationRequested := true }) :
    Tidy { c with state := c.state.modifyTask id change } := by
  have spawned := tidy.spawned there
  have fits := tidy.tasks id
  rcases kind with rfl | ⟨⟨-, unparked, -, -⟩, rfl⟩ | ⟨⟨-, unparked, -, -⟩, -, rfl⟩ | rfl
  · refine tidy.retask id spawned rfl rfl rfl rfl ⟨fun wait waits => ?_, fits.woken⟩
    obtain ⟨inside, unwoken, -, unready, lives⟩ := fits.waiting wait waits
    exact ⟨inside, unwoken, rfl, unready, lives⟩
  · refine tidy.retask id spawned rfl rfl rfl rfl ⟨fun wait waits => ?_, fits.woken⟩
    rw [unparked] at waits
    cases waits
  · refine tidy.retask id spawned rfl rfl rfl rfl ⟨fun wait waits => ?_, fits.woken⟩
    rw [unparked] at waits
    cases waits
  · exact tidy.retask id spawned rfl rfl rfl rfl ⟨fits.waiting, fits.woken⟩

end

/-! ### Channels -/

theorem Tidy.openChannel (tidy : Tidy c) (capacity : ℕ) :
    Tidy { c with state := Runtime.openChannel capacity c.state } := by
  let opened : Channel V := ⟨true, capacity, 0, 1, 1, 0, [], [], [], [], []⟩
  have blank := tidy.endpoints.fresh c.state.channels (Nat.le_refl _)
  have queues : (c.state.modifyChannel c.state.channels fun _ => opened).queues
      = c.state.queues := by
    refine State.queues_modifyChannel_of_eq _ _ ?_
    rw [blank]
    funext side
    cases side <;> rfl
  have reg : (c.state.modifyChannel c.state.channels fun _ => opened).registered
      = c.state.registered := by
    refine State.registered_modifyChannel_of_eq _ _ ?_
    rw [blank]
    rfl
  refine ⟨tidy.tasks, tidy.unspawned, tidy.atWork, ?_, tidy.selects, ?_,
    tidy.endpoints.openChannel capacity⟩
  · have ts := tidy.tokens
    rw [← queues] at ts
    exact ts
  · have registrations := tidy.registrations
    rw [← reg] at registrations
    exact registrations

theorem Tidy.changeEndpoints (tidy : Tidy c) (there : c.state.channel channel ≠ .blank)
    (queue : (change (c.state.channel channel)).queue = (c.state.channel channel).queue)
    (selects : (change (c.state.channel channel)).selects
      = (c.state.channel channel).selects)
    (used : ∀ side, InUse c.state side channel →
      0 < (change (c.state.channel channel)).endpoints side)
    (live : 0 < (change (c.state.channel channel)).senders
        ∨ 0 < (change (c.state.channel channel)).receivers
        ∨ 0 < (change (c.state.channel channel)).holds →
      (change (c.state.channel channel)).live = true)
    (holds : (change (c.state.channel channel)).holds
      = (change (c.state.channel channel)).detached.length)
    (emptied : (change (c.state.channel channel)).receivers = 0 →
      (change (c.state.channel channel)).messages = []) :
    Tidy { c with state := c.state.modifyChannel channel change } :=
  tidy.changeData queue selects
    (tidy.endpoints.changeChannel (Nat.le_refl _) (tidy.endpoints.opened there) used live holds
      emptied)

theorem dropEach_eq (id : ChannelId) (messages : List (Parcel V)) (state : State V) :
    dropEach id messages state = state.recordAll (messages.map (.destroyed id)) := by
  induction messages generalizing state with
  | nil => simp [dropEach, State.recordAll]
  | cons message rest ih =>
    rw [dropEach, ih]
    simp [State.recordAll, State.record]

theorem Tidy.used (tidy : Tidy c) (inUse : InUse c.state side channel) :
    0 < (c.state.channel channel).endpoints side := by
  obtain ⟨task, mem⟩ := inUse
  exact tidy.endpoints.used task (side, channel) mem

section

theorem ne_blank_of_senders (some : (state.channel channel).senders ≠ 0) :
    state.channel channel ≠ .blank := by
  intro blank
  rw [blank] at some
  exact some rfl

theorem ne_blank_of_receivers (some : (state.channel channel).receivers ≠ 0) :
    state.channel channel ≠ .blank := by
  intro blank
  rw [blank] at some
  exact some rfl

section

variable (tidy : Tidy c)
include tidy

theorem Tidy.recount (count : ℕ → ℕ)
    (kind : (0 < (c.state.channel channel).senders
        ∧ 0 < count (c.state.channel channel).senders
        ∧ change = fun channel => { channel with senders := count channel.senders })
      ∨ (0 < (c.state.channel channel).receivers
        ∧ 0 < count (c.state.channel channel).receivers
        ∧ change = fun channel => { channel with receivers := count channel.receivers })) :
    Tidy { c with state := c.state.modifyChannel channel change } := by
  have live := tidy.endpoints.live channel
  rcases kind with ⟨pos, counted, rfl⟩ | ⟨pos, counted, rfl⟩
  · refine tidy.changeEndpoints (ne_blank_of_senders (Nat.ne_of_gt pos)) rfl rfl
      (fun side inUse => ?_) (fun _ => live (.inl pos)) (tidy.endpoints.holds channel)
      (tidy.endpoints.emptied channel)
    cases side with
    | send => exact counted
    | receive => exact tidy.used inUse
  · refine tidy.changeEndpoints (ne_blank_of_receivers (Nat.ne_of_gt pos)) rfl rfl
      (fun side inUse => ?_) (fun _ => live (.inr (.inl pos))) (tidy.endpoints.holds channel)
      fun none => absurd none (Nat.ne_of_gt counted)
    cases side with
    | send => exact tidy.used inUse
    | receive => exact counted

theorem Tidy.dropLastSender
    (last : (c.state.channel channel).senders = 1)
    (unused : ¬InUse c.state .send channel) :
    Tidy { c with
      state := c.state.modifyChannel channel fun channel => { channel with senders := 0 } } := by
  have live := tidy.endpoints.live channel (.inl (by rw [last]; exact Nat.one_pos))
  refine tidy.changeEndpoints (ne_blank_of_senders (by rw [last]; exact Nat.one_ne_zero)) rfl rfl
    (fun side inUse => ?_) (fun _ => live) (tidy.endpoints.holds channel)
    (tidy.endpoints.emptied channel)
  cases side with
  | send => exact absurd inUse unused
  | receive => exact tidy.used inUse

theorem Tidy.dropLastReceiver
    (last : (c.state.channel channel).receivers = 1)
    (unused : ¬InUse c.state .receive channel) :
    Tidy { c with
      state := c.state.modifyChannel channel fun channel =>
        { channel with receivers := 0 }.detach } := by
  have live := tidy.endpoints.live channel (.inr (.inl (by rw [last]; exact Nat.one_pos)))
  have holds := tidy.endpoints.holds channel
  refine tidy.changeEndpoints (ne_blank_of_receivers (by rw [last]; exact Nat.one_ne_zero)) ?_ ?_
    (fun side inUse => ?_) (fun _ => ?_) ?_ fun _ => ?_
  · unfold Channel.detach
    split_ifs
    · funext side; cases side <;> rfl
    · funext side; cases side <;> rfl
  · unfold Channel.detach
    split_ifs <;> rfl
  · cases side with
    | send =>
      have pos := tidy.used inUse
      unfold Channel.detach
      split_ifs
      · exact pos
      · exact pos
    | receive => exact absurd inUse unused
  · unfold Channel.detach
    split_ifs
    · exact live
    · exact live
  · unfold Channel.detach
    split_ifs
    · exact holds
    · rw [length_append, ← holds]
      rfl
  · unfold Channel.detach
    split_ifs with empty
    · exact empty
    · rfl

theorem Tidy.dropDetached {messages : List (Parcel V)}
    {rest : List (List (Parcel V))}
    (x : (c.state.channel channel).detached = messages :: rest) :
    Tidy { c with
      state := (dropEach channel messages c.state).modifyChannel channel fun channel =>
        { channel with holds := channel.holds - 1, detached := rest } } := by
  have holds := tidy.endpoints.holds channel
  rw [x, length_cons] at holds
  have live := tidy.endpoints.live channel (.inr (.inr (by omega)))
  rw [dropEach_eq]
  have recorded := tidy.recordAll (messages.map (.destroyed channel))
  have there : c.state.channel channel ≠ .blank := by
    intro blank
    rw [blank] at x
    cases x
  refine recorded.changeEndpoints there rfl rfl (fun side inUse => ?_) (fun _ => live) ?_
    (tidy.endpoints.emptied channel)
  · have pos := tidy.used inUse
    cases side <;> exact pos
  · change (c.state.channel channel).holds - 1 = rest.length
    omega

theorem Tidy.destroy
    (there : (c.state.channel channel).live = true)
    (unused : (c.state.channel channel).senders = 0
      ∧ (c.state.channel channel).receivers = 0
      ∧ (c.state.channel channel).holds = 0) :
    Tidy { c with
      state := c.state.modifyChannel channel fun channel =>
        { channel with live := false } } := by
  obtain ⟨senders, receivers, holds⟩ := unused
  refine tidy.changeEndpoints ?_ rfl rfl (fun side inUse => ?_) ?_ (tidy.endpoints.holds channel)
    (tidy.endpoints.emptied channel)
  · intro blank
    rw [blank] at there
    cases there
  · have positive := tidy.used inUse
    cases side <;> exact positive
  · rintro (positive | positive | positive)
    · exact absurd senders (Nat.ne_of_gt positive)
    · exact absurd receivers (Nat.ne_of_gt positive)
    · exact absurd holds (Nat.ne_of_gt positive)

end

end

/-! ### Every effect -/

theorem atWork_deliver (channel : ChannelId) (receiver : TaskId) (v : Parcel V)
    (atWork : (state.task id).AtWork) :
    ((state.deliver channel receiver v).task id).AtWork := by
  change (((state.modifyTask receiver fun task => { task with slot := some v }).task id)).AtWork
  rw [task_modifyTask]
  split_ifs with same
  · subst same
    exact atWork
  · exact atWork

theorem Tidy.leaveFront (tidy : Tidy c) (side : Side) {rest : List TaskId}
    (queue : (c.state.channel channel).queue side = id :: rest) (status : Wake) :
    Tidy { c with
      state := c.state.setQueue side channel rest, held := (id, status) :: c.held } := by
  have left := tidy.leaveQueue (by rw [queue]; exact mem_cons_self) status
  rw [queue, erase_cons_head] at left
  exact left

theorem Tidy.opened (tidy : Tidy c)
    (uses : (side, channel) ∈ (c.state.task id).frame.endpoints) :
    channel < c.state.channels := by
  refine tidy.endpoints.opened fun blank => ?_
  have pos := tidy.endpoints.used id (side, channel) uses
  rw [blank] at pos
  cases side <;> exact absurd pos (Nat.lt_irrefl 0)

theorem Tidy.changeMessages (tidy : Tidy c) (there : c.state.channel channel ≠ .blank)
    {messages : List (Parcel V)} {buffered : ℕ}
    (alive : (c.state.channel channel).receivers = 0 → messages = []) :
    Tidy { c with
      state := c.state.modifyChannel channel fun channel =>
        { channel with messages := messages, buffered := buffered } } :=
  tidy.changeEndpoints there rfl rfl
    (fun side inUse => by have pos := tidy.used inUse; cases side <;> exact pos)
    (tidy.endpoints.live channel) (tidy.endpoints.holds channel) alive

theorem ne_blank_of_messages {message : Parcel V} {rest : List (Parcel V)}
    (buffer : (state.channel channel).messages = message :: rest) :
    state.channel channel ≠ .blank := by
  intro blank
  rw [blank] at buffer
  cases buffer

theorem channel_takeMessage (state : State V) (channel : ChannelId) (receiver : TaskId)
    (message : Parcel V) (rest : List (Parcel V)) :
    (state.takeMessage channel receiver message rest).channel channel
      = { state.channel channel with
          messages := rest, buffered := (state.channel channel).buffered - 1 } :=
  update_self ..

theorem channel_setQueue (state : State V) (side : Side) (channel : ChannelId)
    (q : List TaskId) :
    (state.setQueue side channel q).channel channel
      = (state.channel channel).setQueue q side :=
  update_self ..

theorem Frame.Wants.ne_idle {frame : Frame V} {i : Option ℕ} (wants : frame.Wants channel i) :
    frame ≠ .idle := by
  rcases wants with ⟨rfl, -⟩ | ⟨context, cases, deadline, place, rfl, -⟩ <;> nofun

section

variable (tidy : Tidy c)
include tidy

theorem Tidy.takeMessage {message : Parcel V} {rest : List (Parcel V)}
    {task : TaskId} (inside : (c.state.task task).frame ≠ .idle)
    (buffer : (c.state.channel channel).messages = message :: rest) :
    Tidy { c with state := c.state.takeMessage channel task message rest } := by
  have taken : Tidy { c with
      state := c.state.modifyChannel channel fun channel =>
        { channel with messages := rest, buffered := channel.buffered - 1 } } := by
    refine tidy.changeMessages (ne_blank_of_messages buffer) fun none => ?_
    rw [tidy.endpoints.emptied channel none] at buffer
    cases buffer
  exact taken.deliver channel (tidy.spawned_of_frame inside) message

theorem Tidy.push (alive : (c.state.channel channel).receivers ≠ 0)
    (v : Parcel V) : Tidy { c with state := c.state.push channel v } :=
  tidy.changeMessages (ne_blank_of_receivers alive) fun none => absurd none alive

section

variable (ready : c.result = some (id, status))
include ready

theorem Tidy.endReceive
    (frame : (c.state.task id).frame = .receive channel) (final : status.status ≠ .pending) :
    Tidy { c with
      state := Runtime.endReceive id status.status c.state, result := none } := by
  have left := tidy.leave ready (by rw [frame]; simp) fun y found there =>
    have waits : (c.state.task id).frame.wait = some (.receive channel) := by
      rw [frame]
      rfl
    tidy.free_of_wait waits rfl there
  unfold Runtime.endReceive
  rw [if_neg final]
  split_ifs
  · exact left.takeSlot id
  · exact left

theorem Tidy.endSelect {context deadline : ℕ} {cases : List (SelectCase V)}
    (frame : (c.state.task id).frame = .select context cases deadline)
    (free : ∀ y found, c.state.wait y = some found → found.task ≠ id)
    (final : status.status ≠ .pending) :
    Tidy { c with
      state := Runtime.endSelect id cases status.status status.selected c.state
      result := none } := by
  have left := (tidy.leave ready (by rw [frame]; simp) free).recordAll
    (caseReports status.selected status.status 0 cases)
  unfold Runtime.endSelect
  rw [if_neg final]
  split_ifs
  · exact left.takeSlot id
  · exact left

theorem Tidy.endSend {v : Parcel V}
    (frame : (c.state.task id).frame = .send channel v) (final : status.status ≠ .pending) :
    Tidy { c with
      state := Runtime.endSend id v status.status c.state, result := none } := by
  have fits : (c.state.task id).frame.wait = some (.send channel v) := by
    rw [frame]
    rfl
  have left := tidy.leave ready (by rw [frame]; simp) fun y found there =>
    tidy.free_of_wait fits rfl there
  unfold Runtime.endSend
  rw [if_neg final]
  exact left.record (.reported v status.status)

end

theorem Tidy.withdraw
    (mem : id ∈ (c.state.channel channel).queue side) (status : Wake) :
    Tidy { c with
      state := (c.state.withdraw channel id).setQueue side channel
        (((c.state.channel channel).queue side).erase id)
      held := (id, status) :: c.held } := by
  unfold State.withdraw
  split
  · exact (tidy.record _).leaveQueue mem status
  · exact tidy.leaveQueue mem status

theorem Tidy.takeWake (idle : c.result = none) {src : Source}
    (woken : (c.state.task id).wake = some (src, status)) :
    Tidy { c with
      state := c.state.modifyTask id fun task => { task with wake := none }
      result := some (id, status) } := by
  have fits := tidy.tasks id
  have unparked : (c.state.task id).wait = none := by
    by_contra waits
    obtain ⟨wait, waits⟩ := Option.ne_none_iff_exists'.mp waits
    have unwoken := (fits.waiting wait waits).2.1
    rw [woken] at unwoken
    cases unwoken
  have spawned : id < c.state.tasks := tidy.spawned fun blank => by
    rw [blank] at woken
    cases woken
  refine tidy.modify (fun task => { task with wake := none }) spawned
    (Task.tidy_of_none unparked rfl) rfl rfl rfl (update_eq_self id _) rfl (update_eq_self id _) ?_
    tidy.tokens ?_ tidy.registrations tidy.endpoints
  · intro y status' ready
    cases ready
    simp only [task_modifyTask, if_pos]
    exact ⟨unparked, rfl⟩
  · have kept := tidy.selects
    rw [idle] at kept
    refine kept.restate (fun task => ?_) fun task somewhere => ?_
    · rintro (waits | wakes | none)
      · exact .inl waits
      · by_cases same : task = id
        · exact .inr (.inr (by simp [same]))
        · rw [update_of_ne same]
          exact .inr (.inl wakes)
      · cases none
    · by_cases same : task = id
      · subst same
        rw [update_self] at somewhere
        exact somewhere.imp_right fun absurd => (absurd rfl).elim
      · rw [update_of_ne same] at somewhere
        exact somewhere

end

/-- **No effect upsets the bookkeeping.** -/
theorem Tidy.effect {s after : Config V} (tidy : Tidy s) (effect : Effect s after) :
    Tidy after := by
  cases effect with
  | claim found unclaimed => exact tidy.claim found unclaimed _
  | wake held done => exact tidy.wake held done
  | receiveMail first => exact tidy.receiveMail first
  | @handReceiver channel v task receiver rest index idle atWork offers alive queue waits =>
    have left := (tidy.leaveFront .receive queue ⟨.ready, none⟩).record (.entered channel v)
    exact (left.deliver channel (tidy.spawned_of_wait (by simp [waits])) v).setResult idle
      (atWork_deliver _ _ _ atWork) _
  | @handSelect channel v task index id wait place operation idle atWork offers alive queue
      candidate =>
    obtain ⟨found, unclaimed, -⟩ := candidate_some candidate
    have waits := tidy.tokens.unclaimed id wait found unclaimed
    have spawned : wait.task < s.state.tasks := tidy.spawned_of_wait (by
      rw [show (s.state.task wait.task).wait = _ from waits]
      nofun)
    have claimed := (tidy.claim found unclaimed ⟨.ready, some place⟩).record
      (.entered channel v)
    exact (claimed.deliver channel spawned v).setResult idle (atWork_deliver _ _ _ atWork) _
  | @push channel v task index idle atWork offers alive =>
    have pushed := (tidy.record (.entered channel v)).push alive v
    exact (pushed.setResult idle atWork _).mark _ _
  | @takeMessage channel message rest task index idle atWork wants buffer =>
    exact ((tidy.takeMessage wants.ne_idle buffer).setResult idle (atWork_deliver _ _ _ atWork) _).mark
      _ _
  | @takeRefill channel message v rest task sender others index idle atWork wants buffer room
      alive queue waits =>
    have taken := tidy.takeMessage wants.ne_idle buffer
    have queue' : ((s.state.takeMessage channel task message rest).channel channel).queue .send
        = sender :: others := by
      rw [channel_takeMessage]
      exact queue
    have left := taken.leaveFront .send queue' ⟨.ready, none⟩
    have alive' : (((s.state.takeMessage channel task message rest).setQueue .send channel
        others).channel channel).receivers ≠ 0 := by
      rw [channel_setQueue, channel_takeMessage]
      exact alive
    have atWork' : ((s.state.takeMessage channel task message rest).task task).AtWork :=
      atWork_deliver channel task message atWork
    exact ((left.push alive' v).setResult idle atWork' _).mark _ _
  | @takeSender channel v task sender others index idle atWork wants buffer queue =>
    have left := tidy.leaveFront .send queue ⟨.ready, none⟩
    exact (left.deliver channel (tidy.spawned_of_frame wants.ne_idle) v).setResult idle
      (atWork_deliver _ _ _ atWork) _
  | @takeSelect channel v task index id wait place target idle atWork wants buffer queue
      candidate =>
    obtain ⟨found, unclaimed, -⟩ := candidate_some candidate
    have claimed := (tidy.claim found unclaimed ⟨.ready, some place⟩).record
      (.entered channel v)
    exact (claimed.deliver channel (tidy.spawned_of_frame wants.ne_idle) v).setResult idle
      (atWork_deliver _ _ _ atWork) _
  | refuse idle atWork => exact tidy.setResult idle atWork _
  | @parkSend channel v task idle running unwoken frame =>
    have uses : (.send, channel) ∈ (s.state.task task).frame.endpoints := by
      rw [frame]
      exact mem_singleton_self _
    have opened : channel < s.state.channels := tidy.opened uses
    have fits : (s.state.task task).frame.wait = some (.send channel v) := by
      rw [frame]
      rfl
    have parked := (tidy.record (.entered channel v)).parkIn idle running unwoken fits rfl opened
    exact parked.mark _ _
  | @parkReceive channel task idle running unwoken frame =>
    have uses : (.receive, channel) ∈ (s.state.task task).frame.endpoints := by
      rw [frame]
      exact mem_singleton_self _
    have opened : channel < s.state.channels := tidy.opened uses
    have fits : (s.state.task task).frame.wait = some (.receive channel) := by
      rw [frame]
      rfl
    have parked := tidy.parkIn idle running unwoken fits rfl opened
    exact parked.mark _ _
  | @parkSelect task executor context deadline cases parked idle running unwoken home frame short
      blocked done =>
    rw [selectPark_eq running.2.1 unwoken] at done
    cases done
    exact tidy.parkSelect idle running unwoken home frame short
  | withdraw mem => exact tidy.withdraw mem _
  | takeWake idle woken => exact tidy.takeWake idle woken
  | endSend ready frame final => exact tidy.endSend ready frame final
  | endReceive ready frame final => exact tidy.endReceive ready frame final
  | endSelect ready frame free final => exact tidy.endSelect ready frame free final
  | startClosing ready frame home found => exact tidy.startClosing ready frame home found
  | unlink frame inside done => exact tidy.unlink frame done
  | freeWait idle frame last => exact tidy.freeWait idle frame last
  | begin allowed => exact tidy.begin allowed
  | schedule there kind => exact tidy.schedule there kind
  | spawn => exact tidy.spawn _
  | openChannel => exact tidy.openChannel _
  | clone kind =>
    refine tidy.recount (· + 1) (kind.imp (fun some => ?_) fun some => ?_)
    all_goals exact ⟨some.1, Nat.succ_pos _, some.2⟩
  | dropOne kind =>
    refine tidy.recount (· - 1) (kind.imp (fun some => ?_) fun some => ?_)
    all_goals exact ⟨Nat.zero_lt_of_lt some.1, Nat.sub_pos_of_lt some.1, some.2⟩
  | dropLastSender last unused => exact (tidy.dropLastSender last unused).mark _ _
  | dropLastReceiver last unused => exact (tidy.dropLastReceiver last unused).mark _ _
  | dropDetached first => exact tidy.dropDetached first
  | destroy there unused => exact tidy.destroy there unused
  | calm => exact tidy.mark _ _

theorem Tidy.initial : Tidy (Config.of (State.initial : State V)) := by
  refine ⟨fun id => ⟨nofun, nofun⟩, fun id _ => rfl, nofun, ?_, ?_, ?_, ?_⟩
  · refine ⟨?_, ?_, nofun, nofun, nodup_nil, nofun, fun _ => nodup_nil, ?_, nofun⟩
    · intro channel side id mem
      cases side <;> cases mem
    · intro channel side
      cases side <;> exact nodup_nil
    · intro channel side id mem
      cases side <;> cases mem
  · exact ⟨fun _ _ => rfl, nofun, nofun, fun _ => nodup_nil, nofun, nofun, nofun⟩
  · refine ⟨fun channel id place => ⟨nofun, ?_⟩, fun _ => nodup_nil, nofun, nofun, nofun⟩
    rintro ⟨_, _, there, -⟩
    cases there
  · refine ⟨nofun, fun id positive => ?_, fun _ => rfl, fun _ _ => rfl, fun _ _ => rfl⟩
    rcases positive with positive | positive | positive <;> exact absurd positive (Nat.lt_irrefl 0)

end FoundationLang.Runtime
