/-
**Every effect keeps the bookkeeping in order.**

Each effect is put together from a few changes: a record, a value in a slot, the data of a channel,
a task that leaves a queue, a wait that is claimed, a result. `Tidy.effect` and `Tidy.effects`.
-/

import FoundationLang.Runtime.TidyParts

namespace FoundationLang.Runtime

open List Function

variable {V : Type} {c : Config V}
variable {id : TaskId} {cases : List (SelectCase V)} {status : Wake} {executor : ExecutorId}
variable {context deadline : ℕ} {wait : Wait V} {side : Side} {task : TaskId}
  {channel : ChannelId} {state : State V}

/-! ### Single changes -/

theorem Tidy.record (tidy : Tidy c) (event : Event V) :
    Tidy { c with state := c.state.record event } :=
  ⟨tidy.tasks, tidy.unspawned, tidy.atWork, tidy.tokens, tidy.selects, tidy.registrations,
    tidy.endpoints⟩

theorem Tidy.mark (tidy : Tidy c) (loud closing : List ChannelId) :
    Tidy { c with loud := loud, closing := closing } :=
  ⟨tidy.tasks, tidy.unspawned, tidy.atWork, tidy.tokens, tidy.selects, tidy.registrations,
    tidy.endpoints⟩

theorem task_modifyTask (state : State V) (id other : TaskId) (change : Task V → Task V) :
    (state.modifyTask id change).task other
      = if other = id then change (state.task id) else state.task other := by
  simp [State.modifyTask, update_apply]

section

variable (tidy : Tidy c)
include tidy

/-- One task changes, and stays on its thread: the rest is shown on the views. -/
theorem Tidy.modify {after : Config V} {waiting : TaskId → Option (Wait V)}
    {woken : TaskId → Option (Source × Wake)} {frame : TaskId → Frame V} (change : Task V → Task V)
    (spawned : id < c.state.tasks) (fits : (change (c.state.task id)).Tidy)
    (task : after.state.task = (c.state.modifyTask id change).task)
    (count : after.state.tasks = c.state.tasks)
    (executor : (change (c.state.task id)).executor = (c.state.task id).executor)
    (waits : update c.state.waiting id (change (c.state.task id)).wait = waiting)
    (wakes : update c.state.woken id (change (c.state.task id)).wake = woken)
    (frames : update c.state.frame id (change (c.state.task id)).frame = frame)
    (atWork : ∀ y status, after.result = some (y, status) →
      (after.state.task y).AtWork)
    (ts : Tokens waiting c.state.home after.state.queues after.state.wait
      after.state.mailbox (after.held.map Prod.fst))
    (selects : Selects waiting c.state.home woken frame after.state.wait after.state.selects
      after.state.waits (after.result.map Prod.fst))
    (registrations : Registrations after.state.wait after.state.registered)
    (endpoints : Endpoints frame after.state.channel after.state.channels) : Tidy after := by
  have view {α : Type} (field : Task V → α) : field ∘ after.state.task
      = update (field ∘ c.state.task) id (field (change (c.state.task id))) := by
    rw [task]
    exact comp_update field c.state.task id _
  have waiting' : after.state.waiting = waiting := (view Task.wait).trans waits
  have woken' : after.state.woken = woken := (view Task.wake).trans wakes
  have frame' : after.state.frame = frame := (view Task.frame).trans frames
  have home : after.state.home = c.state.home := by
    refine (view Task.executor).trans ?_
    rw [executor]
    exact update_eq_self id _
  refine ⟨fun y => ?_, fun y beyond => ?_, atWork, ?_, ?_, registrations, ?_⟩
  · rw [task, task_modifyTask]
    split_ifs
    · exact fits
    · exact tidy.tasks y
  · rw [count] at beyond
    rw [task, task_modifyTask, if_neg (Nat.ne_of_gt (Nat.lt_of_lt_of_le spawned beyond))]
    exact tidy.unspawned y beyond
  · rw [waiting', home]
    exact ts
  · rw [waiting', home, woken', frame']
    exact selects
  · rw [frame']
    exact endpoints

/-- A change of a task that leaves its place and its operation alone. -/
theorem Tidy.retask (id : TaskId) {change : Task V → Task V}
    (spawned : id < c.state.tasks)
    (executor : (change (c.state.task id)).executor = (c.state.task id).executor)
    (wait : (change (c.state.task id)).wait = (c.state.task id).wait)
    (wake : (change (c.state.task id)).wake = (c.state.task id).wake)
    (frame : (change (c.state.task id)).frame = (c.state.task id).frame)
    (fits : (change (c.state.task id)).Tidy) :
    Tidy { c with state := c.state.modifyTask id change } := by
  refine tidy.modify change spawned fits rfl rfl executor
    ((congrArg _ wait).trans (update_eq_self id _)) ((congrArg _ wake).trans (update_eq_self id _))
    ((congrArg _ frame).trans (update_eq_self id _)) (fun y status ready => ?_) tidy.tokens
    tidy.selects tidy.registrations tidy.endpoints
  have before := tidy.atWork y status ready
  simp only [task_modifyTask]
  split_ifs with same
  · subst same
    unfold Task.AtWork at before ⊢
    rw [wait, wake]
    exact before
  · exact before

theorem Tidy.spawned (there : c.state.task id ≠ .blank) :
    id < c.state.tasks := by
  by_contra beyond
  exact there (tidy.unspawned id (Nat.le_of_not_lt beyond))

theorem Tidy.spawned_of_wait (waits : (c.state.task id).wait ≠ none) :
    id < c.state.tasks := by
  refine tidy.spawned fun blank => waits ?_
  rw [blank]
  rfl

theorem Tidy.spawned_of_frame (inside : (c.state.task id).frame ≠ .idle) :
    id < c.state.tasks := by
  refine tidy.spawned fun blank => inside ?_
  rw [blank]
  rfl

theorem Tidy.deliver (channel : ChannelId) {receiver : TaskId}
    (spawned : receiver < c.state.tasks) (v : Parcel V) :
    Tidy { c with state := c.state.deliver channel receiver v } := by
  have fits := tidy.tasks receiver
  exact (tidy.retask receiver spawned rfl rfl rfl rfl ⟨fits.waiting, fits.woken⟩).record
    (.handed channel v receiver)

theorem Tidy.changeData {change : Channel V → Channel V}
    (queue : (change (c.state.channel channel)).queue = (c.state.channel channel).queue)
    (selects : (change (c.state.channel channel)).selects
      = (c.state.channel channel).selects)
    (endpoints : Endpoints c.state.frame
      (update c.state.channel channel (change (c.state.channel channel)))
      c.state.channels) :
    Tidy { c with state := c.state.modifyChannel channel change } := by
  refine ⟨tidy.tasks, tidy.unspawned, tidy.atWork, ?_, tidy.selects, ?_, endpoints⟩
  · have ts := tidy.tokens
    rw [← State.queues_modifyChannel_of_eq c.state channel queue] at ts
    exact ts
  · have registrations := tidy.registrations
    rw [← State.registered_modifyChannel_of_eq c.state channel selects] at registrations
    exact registrations

theorem Tidy.leaveQueue
    (mem : id ∈ (c.state.channel channel).queue side) (status : Wake) :
    Tidy { c with
      state := c.state.setQueue side channel
        (((c.state.channel channel).queue side).erase id)
      held := (id, status) :: c.held } := by
  have opened : channel < c.state.channels := by
    refine tidy.endpoints.opened fun blank => ?_
    rw [blank] at mem
    cases side <;> cases mem
  refine ⟨tidy.tasks, tidy.unspawned, tidy.atWork, ?_, tidy.selects, ?_, ?_⟩
  · have ts := tidy.tokens.leave mem
    rw [map_cons]
    rw [State.queues_setQueue]
    exact ts
  · have registrations := tidy.registrations
    rw [← State.registered_setQueue c.state channel side] at registrations
    exact registrations
  · cases side <;>
      exact tidy.endpoints.sameEndpoints opened rfl rfl rfl rfl rfl (tidy.endpoints.emptied channel)

end

theorem claim_eq {id : WaitId} {wait : SelectWait V} (found : state.wait id = some wait) :
    state.claim id = { state with
      wait := update state.wait id (some { wait with signaled := true }) } := by
  rw [State.claim, found]
  rfl

theorem Tidy.claim (tidy : Tidy c) {id : WaitId} {wait : SelectWait V}
    (found : c.state.wait id = some wait) (unclaimed : wait.signaled = false)
    (status : Wake) :
    Tidy { c with
      state := c.state.claim id, held := (wait.task, status) :: c.held } := by
  rw [claim_eq found]
  refine ⟨tidy.tasks, tidy.unspawned, tidy.atWork, ?_, tidy.selects.claim found,
    tidy.registrations.claim found, tidy.endpoints⟩
  exact tidy.tokens.claim found unclaimed fun y found' there same =>
    tidy.selects.one y id found' wait there found same

theorem Tidy.setResult (tidy : Tidy c) (idle : c.result = none)
    (atWork : (c.state.task id).AtWork) (status : Wake) :
    Tidy { c with result := some (id, status) } := by
  refine ⟨tidy.tasks, tidy.unspawned, ?_, tidy.tokens, ?_, tidy.registrations, tidy.endpoints⟩
  · intro y status' same
    cases same
    exact atWork
  · have selects := tidy.selects
    rw [idle] at selects
    refine selects.restate (fun task => ?_) fun _ somewhere => somewhere
    rintro (waits | wakes | none)
    · exact .inl waits
    · exact .inr (.inl wakes)
    · cases none

/-! ### Wakes -/

theorem wake_ok {actor : Option ExecutorId} {woken : State V}
    (done : wake actor id status state = .ok woken) :
    ∃ executor, (state.task id).executor = some executor
      ∧ (some executor = actor
          ∧ woken = (state.record (.woken id)).modifyTask id (fun task => task.awake status)
        ∨ some executor ≠ actor
          ∧ woken = { state.record (.woken id) with
              mailbox := update state.mailbox executor
                (state.mailbox executor ++ [(id, status)]) }) := by
  unfold wake at done
  simp only [State.record] at done
  cases lives : (state.task id).executor with
  | none => simp [lives] at done
  | some executor =>
    simp only [lives] at done
    refine ⟨executor, rfl, ?_⟩
    split_ifs at done with same
    · left
      refine ⟨same, ?_⟩
      unfold wakeLocal at done
      split_ifs at done
      cases done
      rfl
    · right
      refine ⟨same, ?_⟩
      cases done
      rfl

theorem Tidy.awake (tidy : Tidy c)
    (waits : (c.state.task id).wait = some wait) (status : Wake)
    {mailbox : ExecutorId → List (TaskId × Wake)} {held : List (TaskId × Wake)}
    (ts : Tokens (update c.state.waiting id none) c.state.home
      c.state.queues c.state.wait mailbox (held.map Prod.fst)) :
    Tidy { c with
      state := { c.state with mailbox := mailbox }.modifyTask id
        (fun task => task.awake status)
      held := held } := by
  obtain ⟨fits, _, -, -, -⟩ := (tidy.tasks id).waiting wait waits
  have spawned : id < c.state.tasks := tidy.spawned_of_wait (by simp [waits])
  have unready : ∀ y status, c.result = some (y, status) → y ≠ id := by
    rintro y status ready rfl
    have atWork := (tidy.atWork y status ready).1
    rw [waits] at atWork
    cases atWork
  have woken : ((c.state.task id).awake status).wake = some (wait.source, status) := by
    simp only [Task.awake, waits, Option.map_some]
  have changed : ((c.state.task id).awake status).Tidy := by
    refine ⟨nofun, fun source status' wakes => ⟨wait, fits, ?_⟩⟩
    rw [woken, Option.some.injEq, Prod.mk.injEq] at wakes
    exact wakes.1
  refine tidy.modify (fun task => task.awake status) spawned changed rfl rfl rfl rfl
    (congrArg _ woken) (update_eq_self id _) ?_ ts ?_ tidy.registrations tidy.endpoints
  · intro y status' ready
    simp only [task_modifyTask, if_neg (unready y status' ready)]
    exact tidy.atWork y status' ready
  · refine tidy.selects.restate (fun task => ?_) fun task somewhere => ?_
    · rintro somewhere
      by_cases same : task = id
      · subst same
        exact .inr (.inl (by simp))
      · rw [update_of_ne same, update_of_ne same]
        exact somewhere
    · by_cases same : task = id
      · subst same
        exact .inl (by simp [State.waiting, waits])
      · rw [update_of_ne same, update_of_ne same] at somewhere
        exact somewhere

theorem Tidy.wake (tidy : Tidy c) {actor : Option ExecutorId} {rest : List (TaskId × Wake)}
    (held : c.held = (id, status) :: rest) {woken : State V}
    (done : Runtime.wake actor id status c.state = .ok woken) :
    Tidy { c with state := woken, held := rest } := by
  have ts := tidy.tokens
  rw [held, map_cons] at ts
  have waits := (ts.parked id mem_cons_self).1
  obtain ⟨_, waits⟩ := Option.ne_none_iff_exists'.mp waits
  obtain ⟨_, lives, ⟨-, rfl⟩ | ⟨-, rfl⟩⟩ := wake_ok done
  · exact (tidy.record (.woken id)).awake waits status ts.release
  · exact ⟨tidy.tasks, tidy.unspawned, tidy.atWork, ts.post lives status, tidy.selects,
      tidy.registrations, tidy.endpoints⟩

theorem Tidy.receiveMail (tidy : Tidy c) {rest : List (TaskId × Wake)}
    (first : c.state.mailbox executor = (id, status) :: rest) :
    Tidy { c with
      state := { c.state with mailbox := update c.state.mailbox executor rest
        }.modifyTask id fun task => task.awake status } := by
  have here : (id, status) ∈ c.state.mailbox executor := by
    rw [first]
    exact mem_cons_self
  have waits := (tidy.tokens.mailed executor id status here).1
  obtain ⟨_, waits⟩ := Option.ne_none_iff_exists'.mp waits
  exact tidy.awake waits status (tidy.tokens.receive first)

/-! ### Parking -/

/-- A send or a receive is no select. -/
theorem Frame.unselect_of_wait {frame : Frame V}
    (fits : frame.wait = some wait) (source : wait.source = .queue side channel) :
    (∀ context cases deadline, frame ≠ .select context cases deadline)
      ∧ ∀ context cases deadline id next status,
        frame ≠ .closing context cases deadline id next status := by
  refine ⟨?_, ?_⟩
  · rintro context cases deadline rfl
    cases fits
    cases source
  · rintro _ cases _ _ _ _ rfl
    cases fits

theorem Tidy.parkIn (tidy : Tidy c) (idle : c.result = none)
    (running : (c.state.task id).Running) (unwoken : (c.state.task id).wake = none)
    (fits : (c.state.task id).frame.wait = some wait)
    (source : wait.source = .queue side channel) (opened : channel < c.state.channels) :
    Tidy { c with state := c.state.parkIn side channel id wait } := by
  obtain ⟨lives, unparked, unqueued, unready⟩ := running
  have spawned : id < c.state.tasks := by
    refine tidy.spawned fun blank => lives ?_
    rw [blank]
    rfl
  let parked : State V :=
    c.state.modifyTask id fun task => { task with wait := some wait }
  have changed : { c.state.task id with wait := some wait }.Tidy := by
    refine ⟨fun wait' same => ?_, fun source status wakes => ?_⟩
    · cases same
      exact ⟨fits, unwoken, unqueued, unready, lives⟩
    · rw [unwoken] at wakes
      cases wakes
  refine tidy.modify (fun task => { task with wait := some wait }) spawned changed rfl rfl rfl rfl
    (update_eq_self id _) (update_eq_self id _) ?_ ?_ ?_ ?_ ?_
  · intro y status ready
    rw [idle] at ready
    cases ready
  · have queues : (parked.setQueue side channel ((c.state.channel channel).queue side
        ++ [id])).queues = _ := State.queues_setQueue parked channel side _
    change Tokens _ _ (parked.setQueue side channel ((c.state.channel channel).queue side
      ++ [id])).queues _ _ _
    rw [queues]
    exact tidy.tokens.enter unparked source
  · obtain ⟨unselect, unclosing⟩ := Frame.unselect_of_wait fits source
    refine tidy.selects.change (fun y found there =>
      tidy.selects.free_of_frame unselect unclosing there) ?_ ?_ unclosing
    · intro y ne
      exact ⟨update_of_ne ne .., rfl, rfl, rfl, fun same => same⟩
    · intro context cases deadline inside
      exact absurd inside (unselect context cases deadline)
  · have reg : (parked.setQueue side channel ((c.state.channel channel).queue side
        ++ [id])).registered = _ := State.registered_setQueue parked channel side _
    change Registrations _ (parked.setQueue side channel ((c.state.channel channel).queue side
      ++ [id])).registered
    rw [reg]
    exact tidy.registrations
  · cases side <;>
      exact tidy.endpoints.sameEndpoints opened rfl rfl rfl rfl rfl (tidy.endpoints.emptied channel)

/-! ### Registering a select -/

section

variable (id : WaitId) (seen : List ChannelId) (i : ℕ) (cases : List (SelectCase V))
  (state : State V)

theorem registerFrom_state :
    (registerFrom id seen i cases state).2
      = { state with channel := (registerFrom id seen i cases state).2.channel }
    ∧ ∀ channel, (registerFrom id seen i cases state).2.channel channel
      = { state.channel channel with
          selects := (registerFrom id seen i cases state).2.registered channel } := by
  induction cases generalizing seen i state with
  | nil => exact ⟨rfl, fun _ => rfl⟩
  | cons operation rest ih =>
    unfold registerFrom
    split_ifs with duplicate
    · exact ih seen (i + 1) state
    · obtain ⟨one, two⟩ := ih (operation.channel :: seen) (i + 1)
        (state.modifyChannel operation.channel fun channel =>
          { channel with selects := channel.selects ++ [(id, i)] })
      refine ⟨one, fun channel => ?_⟩
      refine (two channel).trans ?_
      by_cases same : channel = operation.channel
      · subst same
        simp [State.modifyChannel]
      · simp [State.modifyChannel, same]

theorem registerFrom_operations :
    (registerFrom id seen i cases state).1.map SelectEntry.operation = cases := by
  induction cases generalizing seen i state with
  | nil => rfl
  | cons operation rest ih =>
    unfold registerFrom
    split_ifs with duplicate <;> simp [ih]

theorem registerFrom_entries :
    (∀ entry ∈ (registerFrom id seen i cases state).1, ∀ channel,
        entry.registration = some channel → entry.operation.channel = channel ∧ channel ∉ seen)
      ∧ ∀ entry ∈ (registerFrom id seen i cases state).1, entry.operation.channel ∈ seen
        ∨ ∃ x ∈ (registerFrom id seen i cases state).1,
          x.registration = some entry.operation.channel := by
  induction cases generalizing seen i state with
  | nil => exact ⟨nofun, nofun⟩
  | cons operation rest ih =>
    unfold registerFrom
    split_ifs with duplicate
    · obtain ⟨own, whole⟩ := ih seen (i + 1) state
      refine ⟨?_, ?_⟩
      · intro entry mem channel registration
        rcases mem_cons.mp mem with rfl | mem
        · cases registration
        · exact own entry mem channel registration
      · intro entry mem
        rcases mem_cons.mp mem with rfl | mem
        · exact .inl duplicate
        · refine (whole entry mem).imp_right ?_
          rintro ⟨x, inside, registration⟩
          exact ⟨x, mem_cons_of_mem _ inside, registration⟩
    · obtain ⟨own, whole⟩ := ih (operation.channel :: seen) (i + 1)
        (state.modifyChannel operation.channel fun channel =>
          { channel with selects := channel.selects ++ [(id, i)] })
      refine ⟨?_, ?_⟩
      · intro entry mem channel registration
        rcases mem_cons.mp mem with rfl | mem
        · cases registration
          exact ⟨rfl, duplicate⟩
        · obtain ⟨same, unseen⟩ := own entry mem channel registration
          exact ⟨same, fun inside => unseen (mem_cons_of_mem _ inside)⟩
      · intro entry mem
        rcases mem_cons.mp mem with rfl | mem
        · exact .inr ⟨_, mem_cons_self, rfl⟩
        · rcases whole entry mem with inside | ⟨x, inside, registration⟩
          · rcases mem_cons.mp inside with same | inside
            · exact .inr ⟨_, mem_cons_self, by rw [same]⟩
            · exact .inl inside
          · exact .inr ⟨x, mem_cons_of_mem _ inside, registration⟩

theorem registerFrom_registered
    (fresh : ∀ channel place, (id, place) ∈ state.registered channel →
      channel ∈ seen ∧ place < i)
    (nodup : ∀ channel, (state.registered channel).Nodup) :
    (∀ channel y place,
      (y, place) ∈ (registerFrom id seen i cases state).2.registered channel ↔
        (y, place) ∈ state.registered channel ∨ (y = id ∧ ∃ offset entry,
          place = i + offset
          ∧ (registerFrom id seen i cases state).1[offset]? = some entry
          ∧ entry.registration = some channel))
    ∧ ∀ channel, ((registerFrom id seen i cases state).2.registered channel).Nodup := by
  induction cases generalizing seen i state with
  | nil => exact ⟨fun channel y place => by simp [registerFrom], nodup⟩
  | cons operation rest ih =>
    unfold registerFrom
    split_ifs with duplicate
    · obtain ⟨known, nodup'⟩ := ih seen (i + 1) state
        (fun channel place mem => ⟨(fresh channel place mem).1,
          Nat.lt_succ_of_lt (fresh channel place mem).2⟩) nodup
      refine ⟨fun channel y place => ?_, nodup'⟩
      refine (known channel y place).trans (or_congr_right (and_congr_right fun _ => ?_))
      constructor
      · rintro ⟨offset, entry, rfl, here, registration⟩
        exact ⟨offset + 1, entry, by omega, here, registration⟩
      · rintro ⟨_ | offset, entry, rfl, here, registration⟩
        · cases here
          cases registration
        · exact ⟨offset, entry, by omega, here, registration⟩
    · have reg : (state.modifyChannel operation.channel fun channel =>
          { channel with selects := channel.selects ++ [(id, i)] }).registered
          = update state.registered operation.channel
            (state.registered operation.channel ++ [(id, i)]) :=
        State.registered_modifyChannel ..
      have ms : ∀ channel y place, (y, place) ∈ update state.registered
          operation.channel (state.registered operation.channel ++ [(id, i)]) channel ↔
          (y, place) ∈ state.registered channel
            ∨ (channel = operation.channel ∧ y = id ∧ place = i) := by
        intro channel y place
        rw [mem_append_at, Prod.mk.injEq]
      obtain ⟨known, nodup'⟩ := ih (operation.channel :: seen) (i + 1)
        (state.modifyChannel operation.channel fun channel =>
          { channel with selects := channel.selects ++ [(id, i)] })
        (by
          intro channel place mem
          rw [reg, ms] at mem
          rcases mem with before | ⟨rfl, -, rfl⟩
          · obtain ⟨inside, small⟩ := fresh channel place before
            exact ⟨mem_cons_of_mem _ inside, by omega⟩
          · exact ⟨mem_cons_self, by omega⟩)
        (by
          intro channel
          rw [reg]
          exact nodup_append_at (nodup channel) fun mem => duplicate (fresh _ _ mem).1)
      refine ⟨fun channel y place => ?_, nodup'⟩
      refine (known channel y place).trans ?_
      rw [reg, ms]
      constructor
      · rintro ((before | ⟨rfl, rfl, rfl⟩) | ⟨rfl, offset, entry, rfl, here, registration⟩)
        · exact .inl before
        · exact .inr ⟨rfl, 0, _, rfl, rfl, rfl⟩
        · exact .inr ⟨rfl, offset + 1, entry, by omega, here, registration⟩
      · rintro (before | ⟨rfl, _ | offset, entry, rfl, here, registration⟩)
        · exact .inl (.inl before)
        · cases here
          cases registration
          exact .inl (.inr ⟨rfl, rfl, rfl⟩)
        · exact .inr ⟨rfl, offset, entry, by omega, here, registration⟩

end

/-- The task parks in a select, which is registered. -/
def State.parkSelect (state : State V) (id : TaskId) (executor : ExecutorId) (context : ℕ)
    (cases : List (SelectCase V)) (deadline : ℕ) : State V :=
  let registered := registerFrom state.waits [] 0 cases
    ((state.modifyTask id fun task => { task with wait := some (.select context) }).record
      (.parked id))
  { registered.2 with
    wait := update state.wait state.waits
      (some ⟨id, context, deadline, false, registered.1⟩)
    selects := update state.selects executor (state.selects executor ++ [state.waits])
    waits := state.waits + 1 }

theorem selectPark_eq (unparked : (state.task id).wait = none)
    (unwoken : (state.task id).wake = none) :
    selectPark id executor context cases deadline state
      = .ok (state.parkSelect id executor context cases deadline) := by
  unfold selectPark park State.parkSelect
  simp only [unparked, unwoken, Option.isSome_none, Bool.or_self, Bool.false_eq_true, if_false]
  generalize wide : (state.modifyTask id fun task =>
    { task with wait := some (.select context) }).record (.parked id) = parked
  have channels := (registerFrom_state state.waits [] 0 cases parked).1
  change Except.ok _ = Except.ok _
  rw [channels, ← wide]
  rfl

section

variable (state : State V) (id : TaskId) (executor : ExecutorId) (context : ℕ)
  (cases : List (SelectCase V)) (deadline : ℕ)

theorem task_parkSelect :
    (state.parkSelect id executor context cases deadline).task
      = (state.modifyTask id fun task => { task with wait := some (.select context) }).task := by
  unfold State.parkSelect
  dsimp only
  rw [(registerFrom_state ..).1]
  rfl

@[simp] theorem frame_parkSelect :
    (state.parkSelect id executor context cases deadline).frame = state.frame := by
  have same : (state.modifyTask id fun task => { task with wait := some (.select context) }).frame
      = state.frame := State.frame_modifyTask_of_eq state id rfl
  rw [← same]
  exact funext fun y => congrArg Task.frame (congrFun (task_parkSelect ..) y)

@[simp] theorem woken_parkSelect :
    (state.parkSelect id executor context cases deadline).woken = state.woken := by
  have same : (state.modifyTask id fun task => { task with wait := some (.select context) }).woken
      = state.woken := State.woken_modifyTask_of_eq state id rfl
  rw [← same]
  exact funext fun y => congrArg Task.wake (congrFun (task_parkSelect ..) y)

@[simp] theorem waiting_parkSelect :
    (state.parkSelect id executor context cases deadline).waiting
      = update state.waiting id (some (.select context)) := by
  rw [← State.waiting_modifyTask state id fun task => { task with wait := some (.select context) }]
  exact funext fun y => congrArg Task.wait (congrFun (task_parkSelect ..) y)

theorem trace_parkSelect :
    (state.parkSelect id executor context cases deadline).trace = state.trace ++ [.parked id] := by
  unfold State.parkSelect
  dsimp only
  rw [(registerFrom_state ..).1]
  rfl

theorem channel_parkSelect (channel : ChannelId) :
    (state.parkSelect id executor context cases deadline).channel channel
      = { state.channel channel with
          selects := (state.parkSelect id executor context cases deadline).registered channel } := by
  unfold State.parkSelect
  exact (registerFrom_state ..).2 channel

@[simp] theorem mailbox_parkSelect :
    (state.parkSelect id executor context cases deadline).mailbox = state.mailbox := by
  unfold State.parkSelect
  dsimp only
  rw [(registerFrom_state ..).1]
  rfl

end

theorem Tidy.parkSelect (tidy : Tidy c) (idle : c.result = none)
    (running : (c.state.task id).Running) (unwoken : (c.state.task id).wake = none)
    (home : (c.state.task id).executor = some executor)
    (inside : (c.state.task id).frame = .select context cases deadline)
    (short : cases.length < selectLimit) :
    Tidy { c with state := c.state.parkSelect id executor context cases deadline } := by
  obtain ⟨lives, unparked, unqueued, unready⟩ := running
  have spawned : id < c.state.tasks := tidy.spawned_of_frame (by rw [inside]; simp)
  let marked : State V := (c.state.modifyTask id fun task =>
    { task with wait := some (.select context) }).record (.parked id)
  let after := registerFrom c.state.waits [] 0 cases marked
  let wait : SelectWait V := ⟨id, context, deadline, false, after.1⟩
  obtain ⟨only, channels⟩ := registerFrom_state c.state.waits [] 0 cases marked
  have operations : after.1.map SelectEntry.operation = cases :=
    registerFrom_operations c.state.waits [] 0 cases marked
  have tasks : after.2.task = marked.task := by rw [show after.2 = _ from only]
  have queues : after.2.queues = c.state.queues := by
    funext channel side
    rw [State.queues, show after.2.channel channel = _ from channels channel]
    cases side <;> rfl
  have fresh : ∀ channel place, (c.state.waits, place) ∉ c.state.registered channel := by
    intro channel place mem
    obtain ⟨found, entry, there, -⟩ := (tidy.registrations.known ..).mp mem
    rw [tidy.selects.fresh _ (Nat.le_refl _)] at there
    cases there
  obtain ⟨known, nodup⟩ := registerFrom_registered c.state.waits [] 0 cases marked
    (fun channel place mem => absurd mem (fresh channel place)) tidy.registrations.nodup
  obtain ⟨own, whole⟩ := registerFrom_entries c.state.waits [] 0 cases marked
  have changed : { c.state.task id with wait := some (.select context) }.Tidy := by
    refine ⟨fun wait' same => ?_, fun source status wakes => ?_⟩
    · cases same
      exact ⟨by rw [inside]; rfl, unwoken, unqueued, unready, lives⟩
    · rw [unwoken] at wakes
      cases wakes
  have count : after.2.tasks = c.state.tasks := by rw [show after.2 = _ from only]; rfl
  refine tidy.modify (fun task => { task with wait := some (.select context) }) spawned changed
    tasks count rfl rfl (update_eq_self id _) (update_eq_self id _) ?_ ?_ ?_ ?_ ?_
  · intro y status ready
    rw [idle] at ready
    cases ready
  · have mailbox : after.2.mailbox = c.state.mailbox := by rw [show after.2 = _ from only]; rfl
    change Tokens _ _ after.2.queues _ after.2.mailbox _
    rw [queues, mailbox]
    exact tidy.tokens.enterSelect wait unparked c.state.waits
  · have kept := tidy.selects
    rw [idle] at kept ⊢
    refine kept.park wait ?_ ?_ home (.select context)
    · exact fun y found there => kept.free_of_atWork inside unparked unwoken there
    · rw [show wait.entries.map SelectEntry.operation = cases from operations]
      exact inside
  · refine tidy.registrations.park wait (tidy.selects.fresh _ (Nat.le_refl _)) ?_ ?_
      nodup ?_ ?_
    · rw [← operations, length_map] at short
      exact short
    · intro channel y place
      refine (known channel y place).trans (or_congr_right (and_congr_right fun _ => ?_))
      constructor
      · rintro ⟨offset, entry, rfl, here, registration⟩
        exact ⟨entry, by rw [Nat.zero_add]; exact here, registration⟩
      · rintro ⟨entry, here, registration⟩
        exact ⟨place, entry, (Nat.zero_add place).symm, here, registration⟩
    · exact fun entry mem channel registration => (own entry mem channel registration).1
    · intro entry mem
      rcases whole entry mem with seen | x
      · cases seen
      · exact x
  · have endpoints : Endpoints c.state.frame after.2.channel c.state.channels := by
      refine ⟨?_, ?_, ?_, ?_, ?_⟩
      · intro task endpoint mem
        have before := tidy.endpoints.used task endpoint mem
        rw [show after.2.channel endpoint.2 = _ from channels endpoint.2]
        obtain ⟨side, channel⟩ := endpoint
        cases side <;> exact before
      · intro channel
        rw [show after.2.channel channel = _ from channels channel]
        exact tidy.endpoints.live channel
      · intro channel
        rw [show after.2.channel channel = _ from channels channel]
        exact tidy.endpoints.holds channel
      · intro channel
        rw [show after.2.channel channel = _ from channels channel]
        exact tidy.endpoints.emptied channel
      · intro channel beyond
        have blank := tidy.endpoints.fresh channel beyond
        have empty : after.2.registered channel = [] := by
          refine eq_nil_iff_forall_not_mem.mpr fun pair mem => ?_
          obtain ⟨y, place⟩ := pair
          rcases (known channel y place).mp mem with before | ⟨-, _, entry, -, here, reg⟩
          · have none : c.state.registered channel = [] := by
              rw [State.registered, blank]
              rfl
            change (y, place) ∈ c.state.registered channel at before
            rw [none] at before
            cases before
          · have same := (own entry (mem_of_getElem? here) channel reg).1
            have mem : entry.operation ∈ cases := by
              rw [← operations]
              exact mem_map_of_mem (mem_of_getElem? here)
            have used := tidy.endpoints.used id entry.operation.endpoint (by
              rw [show c.state.frame id = _ from inside]
              exact mem_map_of_mem mem)
            rw [SelectCase.endpoint, same, blank] at used
            cases kind : entry.operation.kind <;> simp [kind, Channel.endpoints, Channel.blank] at used
        rw [show after.2.channel channel = _ from channels channel]
        change { c.state.channel channel with selects := after.2.registered channel } = _
        rw [empty, blank]
        rfl
    have count : after.2.channels = c.state.channels := by rw [show after.2 = _ from only]; rfl
    rw [← count] at endpoints
    exact endpoints

/-! ### Operations that begin and end -/

section

variable (tidy : Tidy c)
include tidy

theorem Tidy.reframe {result : Option (TaskId × Wake)}
    {change : Task V → Task V} (unparked : (c.state.task id).wait = none)
    (unwoken : (c.state.task id).wake = none)
    (free : ∀ y found, c.state.wait y = some found → found.task ≠ id)
    (executor : (change (c.state.task id)).executor = (c.state.task id).executor)
    (wait : (change (c.state.task id)).wait = none)
    (wake : (change (c.state.task id)).wake = none)
    (unclosing : ∀ context cases deadline y next status,
      (change (c.state.task id)).frame ≠ .closing context cases deadline y next status)
    (spawned : id < c.state.tasks)
    (used : ∀ endpoint ∈ (change (c.state.task id)).frame.endpoints,
      endpoint ∈ (c.state.task id).frame.endpoints
        ∨ 0 < (c.state.channel endpoint.2).endpoints endpoint.1)
    (kept : ∀ y, y ≠ id → c.result.map Prod.fst = some y →
      result.map Prod.fst = some y)
    (atWork : ∀ y status, result = some (y, status) → y ≠ id →
      (c.state.task y).AtWork) :
    Tidy { c with state := c.state.modifyTask id change, result := result } := by
  refine tidy.modify change spawned (Task.tidy_of_none wait wake) rfl rfl executor
    ((congrArg _ (wait.trans unparked.symm)).trans (update_eq_self id _))
    ((congrArg _ (wake.trans unwoken.symm)).trans (update_eq_self id _)) rfl ?_ tidy.tokens ?_
    tidy.registrations (tidy.endpoints.retask used)
  · intro y status ready
    simp only [task_modifyTask]
    split_ifs with same
    · exact ⟨wait, wake⟩
    · exact atWork y status ready same
  · refine tidy.selects.change free (fun y ne => ?_) (fun _ _ _ _ => ?_) ?_
    · exact ⟨rfl, rfl, rfl, update_of_ne ne .., kept y ne⟩
    · exact ⟨unparked, unwoken⟩
    · intro context cases deadline y next status
      rw [update_self]
      exact unclosing context cases deadline y next status

theorem Tidy.recordAll (events : List (Event V)) :
    Tidy { c with state := c.state.recordAll events } :=
  ⟨tidy.tasks, tidy.unspawned, tidy.atWork, tidy.tokens, tidy.selects, tidy.registrations,
    tidy.endpoints⟩

theorem Tidy.takeSlot (id : TaskId) :
    Tidy { c with state := c.state.takeSlot id } := by
  unfold State.takeSlot
  cases held : (c.state.task id).slot with
  | none => exact tidy
  | some v =>
    have spawned : id < c.state.tasks := tidy.spawned fun blank => by
      rw [blank] at held
      cases held
    have fits := tidy.tasks id
    exact (tidy.retask id spawned rfl rfl rfl rfl ⟨fits.waiting, fits.woken⟩).record
      (.received id v)

theorem Tidy.leave (ready : c.result = some (id, status))
    (inside : (c.state.task id).frame ≠ .idle)
    (free : ∀ y found, c.state.wait y = some found → found.task ≠ id) :
    Tidy { c with state := c.state.leave id, result := none } := by
  obtain ⟨unparked, unwoken⟩ := tidy.atWork id status ready
  refine tidy.reframe unparked unwoken free rfl unparked unwoken nofun
    (tidy.spawned_of_frame inside) nofun ?_ nofun
  intro y ne same
  rw [ready] at same
  cases same
  exact absurd rfl ne

theorem Tidy.free_of_wait
    (fits : (c.state.task id).frame.wait = some wait)
    (source : wait.source = .queue side channel) {y : WaitId} {found : SelectWait V}
    (there : c.state.wait y = some found) : found.task ≠ id :=
  have ⟨unselect, unclosing⟩ := Frame.unselect_of_wait fits source
  tidy.selects.free_of_frame unselect unclosing there

end

theorem selectFind_some {context : ℕ} {list : List WaitId} {id : WaitId}
    (found : selectFind task context state list = some id) :
    id ∈ list ∧ ∃ wait, state.wait id = some wait ∧ wait.task = task
      ∧ wait.context = context := by
  induction list with
  | nil => cases found
  | cons y rest ih =>
    unfold selectFind at found
    by_cases here : (state.wait y).any fun wait => wait.task = task ∧ wait.context = context
    · rw [if_pos here] at found
      cases found
      refine ⟨mem_cons_self, ?_⟩
      cases there : state.wait id with
      | none => simp [there] at here
      | some wait => exact ⟨wait, rfl, by simpa [there] using here⟩
    · rw [if_neg here] at found
      obtain ⟨mem, rest⟩ := ih found
      exact ⟨mem_cons_of_mem _ mem, rest⟩

theorem Tidy.startClosing (tidy : Tidy c) {id : WaitId}
    (ready : c.result = some (task, status))
    (frame : (c.state.task task).frame = .select context cases deadline)
    (home : (c.state.task task).executor = some executor)
    (found : selectFind task context c.state (c.state.selects executor) = some id) :
    Tidy { c with
      state := { c.state with
        selects := update c.state.selects executor
          ((c.state.selects executor).erase id) }.modifyTask task fun task =>
        { task with frame := .closing context cases deadline id 0 status }
      result := none } := by
  obtain ⟨unparked, unwoken⟩ := tidy.atWork task status ready
  obtain ⟨-, wait, there, owns, -⟩ := selectFind_some found
  have signaled : wait.signaled = true := by
    by_contra unclaimed
    have waits := tidy.tokens.unclaimed id wait there (by simpa using unclaimed)
    rw [owns] at waits
    rw [show (c.state.task task).wait = _ from waits] at unparked
    cases unparked
  have spawned : task < c.state.tasks := tidy.spawned_of_frame (by rw [frame]; simp)
  refine tidy.modify
    (fun task => { task with frame := .closing context cases deadline id 0 status }) spawned
    (Task.tidy_of_none unparked unwoken) rfl rfl rfl (update_eq_self task _) (update_eq_self task _)
    rfl nofun tidy.tokens ?_ tidy.registrations ?_
  · have kept := tidy.selects
    rw [ready] at kept
    exact kept.startClosing there owns signaled home frame status
  · refine tidy.endpoints.retask fun endpoint mem => .inl ?_
    rw [show c.state.frame task = _ from frame]
    exact mem

/-- A registration of a wait is removed. -/
def State.unlink (state : State V) (id : WaitId) (index : ℕ) (wait : SelectWait V)
    (operation : SelectCase V) (channel : ChannelId) : State V :=
  { state.modifyChannel channel fun record =>
      { record with selects := record.selects.erase (id, index) } with
    wait := update state.wait id
      (some { wait with entries := wait.entries.set index ⟨operation, none⟩ }) }

theorem registered_unlink (state : State V) (id : WaitId) (i : ℕ) (wait : SelectWait V)
    (op : SelectCase V) (channel : ChannelId) :
    (state.unlink id i wait op channel).registered
      = update state.registered channel
        ((state.registered channel).erase (id, i)) :=
  State.registered_modifyChannel state channel fun record =>
    { record with selects := record.selects.erase (id, i) }

theorem unregister_ok {id : WaitId} {i : ℕ} {t : State V}
    (done : unregister id i state = .ok t) :
    ∃ wait, state.wait id = some wait
      ∧ ((∀ entry, wait.entries[i]? = some entry → entry.registration = none) ∧ t = state
        ∨ ∃ operation channel, wait.entries[i]? = some ⟨operation, some channel⟩
          ∧ (state.channel channel).live = true
          ∧ (id, i) ∈ (state.channel channel).selects
          ∧ t = state.unlink id i wait operation channel) := by
  unfold unregister at done
  cases there : state.wait id with
  | none => simp [there] at done
  | some wait =>
    refine ⟨wait, rfl, ?_⟩
    simp only [there] at done
    rcases here : wait.entries[i]? with _ | ⟨operation, _ | channel⟩
    · simp only [here] at done
      cases done
      exact .inl ⟨nofun, rfl⟩
    · simp only [here] at done
      cases done
      refine .inl ⟨fun entry same => ?_, rfl⟩
      cases same
      rfl
    · simp only [here] at done
      refine .inr ⟨operation, channel, rfl, ?_⟩
      unfold lock at done
      by_cases live : (state.channel channel).live = true
      · by_cases mem : (id, i) ∈ (state.channel channel).selects
        · simp only [if_pos live, if_pos mem, bind, Except.bind] at done
          cases done
          exact ⟨live, mem, rfl⟩
        · simp only [if_pos live, if_neg mem, bind, Except.bind] at done
          cases done
      · simp only [if_neg live, bind, Except.bind] at done
        cases done

theorem Tidy.unlink (tidy : Tidy c) {context deadline next : ℕ} {id : WaitId}
    {unlinked : State V}
    (frame : (c.state.task task).frame = .closing context cases deadline id next status)
    (done : unregister id next c.state = .ok unlinked) :
    Tidy { c with
      state := unlinked.modifyTask task fun task =>
        { task with frame := .closing context cases deadline id (next + 1) status } } := by
  obtain ⟨found, there, owns⟩ := tidy.selects.closing task context cases deadline id next status frame
  subst owns
  have closed : found.signaled = true ∧ ∀ place < next, ∀ entry,
      found.entries[place]? = some entry → entry.registration = none := by
    rcases tidy.selects.owner id found there with ⟨same, -⟩ | ⟨signaled, next', status', same, gone⟩
    · rw [show c.state.frame found.task = _ from frame] at same
      cases same
    · rw [show c.state.frame found.task = _ from frame] at same
      cases same
      exact ⟨signaled, gone⟩
  obtain ⟨signaled, gone⟩ := closed
  have spawned : found.task < c.state.tasks := tidy.spawned_of_frame (by rw [frame]; simp)
  obtain ⟨unparked, unwoken⟩ := (tidy.tasks found.task).at_work (by rw [frame]; rfl)
  obtain ⟨wait, there', change⟩ := unregister_ok done
  rw [there, Option.some.injEq] at there'
  subst there'
  have tasks : unlinked.task = c.state.task := by
    rcases change with ⟨-, rfl⟩ | ⟨operation, channel, -, -, -, rfl⟩ <;> rfl
  let change' : Task V → Task V := fun task =>
    { task with frame := .closing context cases deadline id (next + 1) status }
  have task : (unlinked.modifyTask found.task change').task
      = (c.state.modifyTask found.task change').task := by
    unfold State.modifyTask
    rw [tasks]
  have endpoints : Endpoints (update c.state.frame found.task
      (.closing context cases deadline id (next + 1) status)) c.state.channel
      c.state.channels := by
    refine tidy.endpoints.retask fun endpoint mem => .inl ?_
    rw [show c.state.frame found.task = _ from frame]
    exact mem
  have counts : unlinked.tasks = c.state.tasks := by
    rcases change with ⟨-, rfl⟩ | ⟨operation, channel, -, -, -, rfl⟩ <;> rfl
  refine tidy.modify change' spawned (Task.tidy_of_none unparked unwoken) task counts rfl
    (update_eq_self found.task _) (update_eq_self found.task _) rfl ?_ ?_ ?_ ?_ ?_
  · intro y status' ready
    have before := tidy.atWork y status' ready
    simp only [task_modifyTask, tasks]
    split_ifs with same
    · subst same
      exact before
    · exact before
  · rcases change with ⟨-, rfl⟩ | ⟨operation, channel, -, -, -, rfl⟩
    · exact tidy.tokens
    · have ts := tidy.tokens.changeWait id
        (fun found' same => by cases same; exact signaled :
          ∀ found', some { found with entries := found.entries.set next ⟨operation, none⟩ }
            = some found' → found'.signaled = true)
      have queues : (c.state.modifyChannel channel fun record =>
          { record with selects := record.selects.erase (id, next) }).queues
          = c.state.queues := State.queues_modifyChannel_of_eq c.state channel rfl
      rw [← queues] at ts
      exact ts
  · rcases change with ⟨here, rfl⟩ | ⟨operation, channel, here, -, -, rfl⟩
    · have still : ∀ place ≤ next, ∀ entry, found.entries[place]? = some entry →
          entry.registration = none := by
        intro place small entry at'
        rcases Nat.lt_or_eq_of_le small with small | rfl
        · exact gone place small entry at'
        · exact here entry at'
      have kept := tidy.selects.unlink there frame rfl still
      have unchanged : update c.state.wait id (some found) = c.state.wait := by
        rw [← there]
        exact update_eq_self ..
      rw [show ({ found with entries := found.entries } : SelectWait V) = found from rfl,
        unchanged] at kept
      exact kept
    · refine tidy.selects.unlink there frame ?_ ?_
      · obtain ⟨inside, here⟩ := List.getElem?_eq_some_iff.mp here
        have long : next < (found.entries.map SelectEntry.operation).length := by
          simpa using inside
        have same : (found.entries.map SelectEntry.operation)[next] = operation := by
          rw [getElem_map, here]
        rw [map_set, ← same, set_getElem_self]
      · intro place small entry at'
        rw [List.getElem?_set] at at'
        split_ifs at at' with equal inside
        · cases at'
          rfl
        · exact gone place (by omega) entry at'
  · rcases change with ⟨-, rfl⟩ | ⟨operation, channel, here, -, -, rfl⟩
    · exact tidy.registrations
    · have registrations := tidy.registrations.unlink there signaled here
      rw [← registered_unlink c.state id next found operation channel] at registrations
      exact registrations
  · rcases change with ⟨-, rfl⟩ | ⟨_, channel, -, live, -, rfl⟩
    · exact endpoints
    · have opened : channel < c.state.channels := tidy.endpoints.opened fun blank => by
        rw [blank] at live
        cases live
      exact endpoints.sameEndpoints opened rfl rfl rfl rfl rfl (tidy.endpoints.emptied channel)

end FoundationLang.Runtime
