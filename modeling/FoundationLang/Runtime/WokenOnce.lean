/-
**No panic, and no second wake.**

An allowed step of a reachable state returns: none of the panics of `channel.c` and `task.c` is
reached. And every parked operation is woken at most once: in every prefix of what happened, a task
was woken at most as often as it parked, and parked at most once more than it was woken.
-/

import FoundationLang.Runtime.StepEffects

namespace FoundationLang.Runtime

open List Function

variable {V : Type} {s after : Config V}
variable {state : State V} {id : TaskId} {next : State V} {event : Event V}

/-- The task parks. -/
def Event.parks (task : TaskId) : Event V → Bool
  | .parked id => id = task
  | _ => false

/-- The task is woken. -/
def Event.wakes (task : TaskId) : Event V → Bool
  | .woken id => id = task
  | _ => false

/-- Parks and wakes of a task alternate. -/
def WokenOnce (task : TaskId) (trace : List (Event V)) : Prop :=
  ∀ past, past <+: trace → past.countP (Event.wakes task) ≤ past.countP (Event.parks task)
    ∧ past.countP (Event.parks task) ≤ past.countP (Event.wakes task) + 1

theorem WokenOnce.concat {task : TaskId} {trace : List (Event V)} (once : WokenOnce task trace)
    (now : (trace ++ [event]).countP (Event.wakes task)
        ≤ (trace ++ [event]).countP (Event.parks task)
      ∧ (trace ++ [event]).countP (Event.parks task)
        ≤ (trace ++ [event]).countP (Event.wakes task) + 1) :
    WokenOnce task (trace ++ [event]) := by
  intro past earlier
  rcases prefix_concat_iff.mp earlier with rfl | earlier
  · exact now
  · exact once past earlier

/-- The task is parked and was not woken yet. -/
def Awaits (state : State V) (task : TaskId) : Prop :=
  state.waiting task ≠ none ∧ ¬Mailed state.mailbox task

/-- A task parked once more than it was woken exactly when it awaits its wake. -/
structure Balanced (state : State V) : Prop where
  once : ∀ task, WokenOnce task state.trace
  awaited : ∀ task, Awaits state task →
    state.trace.countP (Event.parks task) = state.trace.countP (Event.wakes task) + 1
  settled : ∀ task, ¬Awaits state task →
    state.trace.countP (Event.parks task) = state.trace.countP (Event.wakes task)

theorem Balanced.bounds (balanced : Balanced state) (task : TaskId) :
    state.trace.countP (Event.wakes task) ≤ state.trace.countP (Event.parks task)
      ∧ state.trace.countP (Event.parks task) ≤ state.trace.countP (Event.wakes task) + 1 := by
  by_cases awaits : Awaits state task
  · have same := balanced.awaited task awaits
    omega
  · have same := balanced.settled task awaits
    omega

/-- An event of neither kind. -/
def Event.Neutral (event : Event V) : Prop :=
  ∀ task, event.parks task = false ∧ event.wakes task = false

theorem countP_neutral {events : List (Event V)} (neutral : ∀ event ∈ events, event.Neutral)
    (task : TaskId) :
    events.countP (Event.parks task) = 0 ∧ events.countP (Event.wakes task) = 0 :=
  ⟨countP_eq_zero.mpr fun event inside => by simp [(neutral event inside task).1],
    countP_eq_zero.mpr fun event inside => by simp [(neutral event inside task).2]⟩

/-- Nothing parks and nothing is woken. -/
theorem Balanced.quiet (balanced : Balanced state) (events : List (Event V))
    (trace : next.trace = state.trace ++ events) (neutral : ∀ event ∈ events, event.Neutral)
    (same : ∀ task, Awaits next task ↔ Awaits state task) : Balanced next := by
  refine ⟨fun task past earlier => ?_, fun task awaits => ?_, fun task awaits => ?_⟩
  · rw [trace] at earlier
    rcases prefix_or_prefix_of_prefix earlier (prefix_append _ events) with
      earlier | ⟨later, rfl⟩
    · exact balanced.once task past earlier
    · have inside := (prefix_append_right_inj _).mp earlier
      obtain ⟨parks, wakes⟩ := countP_neutral
        (fun event mem => neutral event (inside.subset mem)) task
      rw [countP_append, countP_append, parks, wakes]
      exact balanced.bounds task
  · obtain ⟨parks, wakes⟩ := countP_neutral neutral task
    rw [trace, countP_append, countP_append, parks, wakes]
    exact balanced.awaited task ((same task).mp awaits)
  · obtain ⟨parks, wakes⟩ := countP_neutral neutral task
    rw [trace, countP_append, countP_append, parks, wakes]
    exact balanced.settled task fun awaited => awaits ((same task).mpr awaited)

theorem Balanced.grown (balanced : Balanced state)
    (trace : next.trace = state.trace ++ [event])
    (awaited : ∀ task, Awaits next task →
      next.trace.countP (Event.parks task) = next.trace.countP (Event.wakes task) + 1)
    (settled : ∀ task, ¬Awaits next task →
      next.trace.countP (Event.parks task) = next.trace.countP (Event.wakes task)) :
    Balanced next := by
  refine ⟨fun task => ?_, awaited, settled⟩
  rw [trace]
  refine (balanced.once task).concat ?_
  rw [← trace]
  by_cases awaits : Awaits next task
  · have same := awaited task awaits
    omega
  · have same := settled task awaits
    omega

theorem Balanced.park (balanced : Balanced state)
    (trace : next.trace = state.trace ++ [.parked id]) (idle : ¬Awaits state id)
    (same : ∀ task, Awaits next task ↔ task = id ∨ Awaits state task) : Balanced next := by
  have parks (task : TaskId) : next.trace.countP (Event.parks task)
      = state.trace.countP (Event.parks task) + if id = task then 1 else 0 := by
    rw [trace, countP_append, countP_singleton]
    simp [Event.parks]
  have wakes (task : TaskId) : next.trace.countP (Event.wakes task)
      = state.trace.countP (Event.wakes task) := by
    rw [trace, countP_append]
    simp [Event.wakes]
  refine balanced.grown trace (fun task awaits => ?_) fun task awaits => ?_
  · rw [parks, wakes]
    by_cases here : id = task
    · subst here
      rw [if_pos rfl, balanced.settled id idle]
    · rw [if_neg here, Nat.add_zero]
      exact balanced.awaited task
        (((same task).mp awaits).resolve_left fun equal => here equal.symm)
  · have apart : id ≠ task := fun equal => awaits ((same task).mpr (.inl equal.symm))
    rw [parks, wakes, if_neg apart, Nat.add_zero]
    exact balanced.settled task fun s => awaits ((same task).mpr (.inr s))

theorem Balanced.wake (balanced : Balanced state)
    (trace : next.trace = state.trace ++ [.woken id]) (awaiting : Awaits state id)
    (same : ∀ task, Awaits next task ↔ task ≠ id ∧ Awaits state task) : Balanced next := by
  have wakes (task : TaskId) : next.trace.countP (Event.wakes task)
      = state.trace.countP (Event.wakes task) + if id = task then 1 else 0 := by
    rw [trace, countP_append, countP_singleton]
    simp [Event.wakes]
  have parks (task : TaskId) : next.trace.countP (Event.parks task)
      = state.trace.countP (Event.parks task) := by
    rw [trace, countP_append]
    simp [Event.parks]
  refine balanced.grown trace (fun task awaits => ?_) fun task awaits => ?_
  · obtain ⟨apart, s⟩ := (same task).mp awaits
    rw [parks, wakes, if_neg (Ne.symm apart), Nat.add_zero]
    exact balanced.awaited task s
  · rw [parks, wakes]
    by_cases here : id = task
    · subst here
      rw [if_pos rfl]
      exact balanced.awaited id awaiting
    · rw [if_neg here, Nat.add_zero]
      exact balanced.settled task fun s =>
        awaits ((same task).mpr ⟨fun equal => here equal.symm, s⟩)

/-! ### Every effect -/

theorem awaits_of_eq (waiting : next.waiting = state.waiting)
    (mailbox : next.mailbox = state.mailbox) (task : TaskId) :
    Awaits next task ↔ Awaits state task := by
  unfold Awaits
  rw [waiting, mailbox]

/-- Nothing happens to the tasks. -/
theorem Balanced.same (balanced : Balanced state)
    (trace : next.trace = state.trace) (waiting : next.waiting = state.waiting)
    (mailbox : next.mailbox = state.mailbox) : Balanced next :=
  balanced.quiet [] (by rw [trace, append_nil]) nofun (awaits_of_eq waiting mailbox)

theorem neutral_entered (channel : ChannelId) (v : Parcel V) :
    (Event.entered channel v).Neutral := fun _ => ⟨rfl, rfl⟩

theorem neutral_handed (channel : ChannelId) (v : Parcel V) (receiver : TaskId) :
    (Event.handed channel v receiver).Neutral := fun _ => ⟨rfl, rfl⟩

theorem neutral_withdrawn (channel : ChannelId) (v : Parcel V) :
    (Event.withdrawn channel v).Neutral := fun _ => ⟨rfl, rfl⟩

section

variable (balanced : Balanced state)
include balanced

theorem Balanced.deliver (channel : ChannelId) (receiver : TaskId)
    (v : Parcel V) : Balanced (state.deliver channel receiver v) := by
  refine balanced.quiet [.handed channel v receiver] rfl ?_
    (awaits_of_eq (State.waiting_deliver ..) rfl)
  simp [neutral_handed]

theorem Balanced.record (neutral : event.Neutral) :
    Balanced (state.record event) :=
  balanced.quiet [event] rfl (by simpa using neutral) fun _ => Iff.rfl

theorem Balanced.takeSlot (id : TaskId) :
    Balanced (state.takeSlot id) := by
  refine balanced.quiet _ (State.trace_takeSlot state id) ?_
    (awaits_of_eq (State.waiting_takeSlot ..) (State.mailbox_takeSlot ..))
  intro event inside task
  obtain ⟨_, -, rfl⟩ := Option.map_eq_some_iff.mp (Option.mem_toList.mp inside)
  exact ⟨rfl, rfl⟩

theorem Balanced.retask (id : TaskId) {change : Task V → Task V}
    (same : (change (state.task id)).wait = (state.task id).wait) :
    Balanced (state.modifyTask id change) :=
  balanced.same rfl (State.waiting_modifyTask_of_eq state id same) rfl

theorem Balanced.leave (id : TaskId) : Balanced (state.leave id) :=
  balanced.same rfl (State.waiting_leave ..) rfl

end

theorem caseReports_neutral (selected : Option ℕ) (st : Status) (i : ℕ)
    (cases : List (SelectCase V)) : ∀ event ∈ caseReports selected st i cases,
      event.Neutral := by
  induction cases generalizing i with
  | nil => nofun
  | cons operation rest ih =>
    cases operation with
    | receive => exact ih (i + 1)
    | send =>
      intro event inside
      rcases mem_cons.mp inside with rfl | inside
      · exact fun _ => ⟨rfl, rfl⟩
      · exact ih (i + 1) event inside

theorem Tidy.unmailed {c : Config V} (tidy : Tidy c)
    (unparked : (c.state.task id).wait = none) : ¬Mailed c.state.mailbox id := by
  rintro ⟨executor, status, inside⟩
  exact (tidy.tokens.mailed executor id status inside).1 unparked

theorem Balanced.parked (balanced : Balanced state) {wait : Wait V}
    (unparked : (state.task id).wait = none) (trace : next.trace = state.trace ++ [.parked id])
    (waiting : next.waiting = update state.waiting id (some wait))
    (mailbox : next.mailbox = state.mailbox) (unmailed : ¬Mailed state.mailbox id) :
    Balanced next := by
  refine balanced.park trace (fun awaits => awaits.1 unparked) fun task => ?_
  unfold Awaits
  rw [waiting, mailbox]
  by_cases same : task = id
  · subst same
    simp [unmailed]
  · rw [update_of_ne same]
    exact ⟨.inr, fun awaits => awaits.resolve_left same⟩

theorem Balanced.effect (tidy : Tidy s) (balanced : Balanced s.state)
    (effect : Effect s after) : Balanced after.state := by
  cases effect with
  | claim | openChannel | clone | dropOne | dropLastSender | dropLastReceiver | destroy =>
    exact balanced.same rfl rfl rfl
  | @wake actor id status rest woken held done =>
    have awaiting := tidy.tokens.parked id (by rw [held]; exact mem_cons_self)
    obtain ⟨executor, -, ⟨-, rfl⟩ | ⟨-, rfl⟩⟩ := wake_ok done
    · refine balanced.wake rfl awaiting fun task => ?_
      unfold Awaits
      rw [State.waiting_modifyTask]
      by_cases same : task = id
      · subst same
        simp [Task.awake]
      · rw [update_of_ne same]
        exact ⟨fun awaits => ⟨same, awaits⟩, fun awaits => awaits.2⟩
    · have mails : ∀ task, Mailed (update s.state.mailbox executor
          (s.state.mailbox executor ++ [(id, status)])) task
          ↔ task = id ∨ Mailed s.state.mailbox task := by
        intro task
        simp only [Mailed, mem_append_at, Prod.mk.injEq, exists_or]
        rw [or_comm]
        simp
      refine balanced.wake rfl awaiting fun task => ?_
      refine (and_congr_right fun _ => not_congr (mails task)).trans ?_
      rw [not_or]
      exact and_left_comm
  | @receiveMail executor id status rest x =>
    have here : (id, status) ∈ s.state.mailbox executor := by
      rw [x]
      exact mem_cons_self
    have mails : ∀ task, task ≠ id → (Mailed (update s.state.mailbox executor rest) task
        ↔ Mailed s.state.mailbox task) := by
      intro task apart
      have same : ∀ other status', (task, status') ∈ update s.state.mailbox executor rest other
          ↔ (task, status') ∈ s.state.mailbox other := by
        intro other status'
        by_cases here : other = executor
        · subst here
          simp [x, apart]
        · simp [here]
      simp only [Mailed, same]
    refine balanced.quiet [] (append_nil _).symm (forall_mem_nil _) fun task => ?_
    unfold Awaits
    rw [State.waiting_modifyTask]
    by_cases same : task = id
    · subst same
      rw [update_self]
      exact ⟨fun awaits => absurd rfl awaits.1, fun awaits => absurd ⟨executor, status, here⟩ awaits.2⟩
    · rw [update_of_ne same]
      exact and_congr_right fun _ => not_congr (mails task same)
  | handReceiver | handSelect | takeSelect =>
    refine Balanced.deliver (Balanced.record ?_ (neutral_entered _ _)) _ _ _
    exact balanced.same rfl rfl rfl
  | @push channel v =>
    exact (balanced.record (neutral_entered channel v)).same rfl rfl rfl
  | takeMessage | takeSender =>
    refine Balanced.deliver ?_ _ _ _
    exact balanced.same rfl rfl rfl
  | @takeRefill channel message v rest task sender others index idle atWork wants buffer room
      alive queue waits =>
    have taken : Balanced (s.state.takeMessage channel task message rest) := by
      refine Balanced.deliver ?_ _ _ _
      exact balanced.same rfl rfl rfl
    exact taken.same rfl rfl rfl
  | refuse | calm => exact balanced
  | @parkSend channel v task idle running =>
    have entered := balanced.record (neutral_entered channel v)
    exact entered.parked running.2.1 rfl (State.waiting_parkIn ..) rfl (tidy.unmailed running.2.1)
  | parkReceive idle running =>
    exact balanced.parked running.2.1 rfl (State.waiting_parkIn ..) rfl (tidy.unmailed running.2.1)
  | parkSelect idle running unwoken home frame short blocked done =>
    rw [selectPark_eq running.2.1 unwoken] at done
    cases done
    exact balanced.parked running.2.1 (trace_parkSelect ..) (waiting_parkSelect ..)
      (mailbox_parkSelect ..) (tidy.unmailed running.2.1)
  | withdraw =>
    unfold State.withdraw
    split
    · exact (balanced.record (neutral_withdrawn _ _)).same rfl rfl rfl
    · exact balanced.same rfl rfl rfl
  | takeWake =>
    dsimp only
    exact balanced.retask _ rfl
  | endSend ready frame final =>
    unfold endSend
    rw [if_neg final]
    exact (balanced.leave _).record fun _ => ⟨rfl, rfl⟩
  | @endReceive task channel status ready frame final =>
    have left := balanced.leave task
    unfold endReceive
    rw [if_neg final]
    split_ifs
    · exact left.takeSlot task
    · exact left
  | @endSelect task context deadline cases status ready frame free final =>
    have left : Balanced ((s.state.leave task).recordAll
        (caseReports status.selected status.status 0 cases)) :=
      (balanced.leave task).quiet _ rfl (caseReports_neutral _ _ _ _) fun _ => Iff.rfl
    unfold endSelect
    rw [if_neg final]
    split_ifs
    · exact left.takeSlot task
    · exact left
  | @startClosing task executor context deadline cases status id =>
    have erased : Balanced { s.state with
        selects := update s.state.selects executor
          ((s.state.selects executor).erase id) } := balanced.same rfl rfl rfl
    dsimp only at erased ⊢
    exact erased.retask task rfl
  | @unlink task context deadline next cases status id unlinked frame inside done =>
    obtain ⟨found, -, ⟨-, rfl⟩ | ⟨operation, channel, -, -, -, rfl⟩⟩ := unregister_ok done
    · dsimp only
      exact balanced.retask _ rfl
    · have unlinked : Balanced (s.state.unlink id next found operation channel) :=
        balanced.same rfl rfl rfl
      dsimp only
      exact unlinked.retask _ rfl
  | @freeWait task context deadline next cases status id =>
    have freed : Balanced { s.state with
        wait := update s.state.wait id none } := balanced.same rfl rfl rfl
    dsimp only at freed ⊢
    exact freed.retask task rfl
  | @begin task request =>
    have framed : Balanced (s.state.modifyTask task fun task =>
        { task with frame := (request.frame s.state.tickets).1 }) := balanced.retask task rfl
    exact framed.same rfl rfl rfl
  | schedule there kind =>
    refine balanced.retask _ ?_
    rcases kind with rfl | ⟨-, rfl⟩ | ⟨-, -, rfl⟩ | rfl <;> rfl
  | @spawn executor =>
    have blank := tidy.unspawned s.state.tasks (Nat.le_refl _)
    have born : Balanced (s.state.modifyTask s.state.tasks fun _ =>
        { Task.blank with executor := some executor, queued := true }) :=
      balanced.retask _ (by rw [blank])
    exact born.same rfl rfl rfl
  | @dropDetached channel messages =>
    rw [dropEach_eq]
    have dropped : Balanced (s.state.recordAll (messages.map (.destroyed channel))) := by
      refine balanced.quiet _ rfl (fun event inside => ?_) fun _ => Iff.rfl
      obtain ⟨_, -, rfl⟩ := mem_map.mp inside
      exact fun _ => ⟨rfl, rfl⟩
    exact dropped.same rfl rfl rfl

/-! ### Every run -/

theorem Balanced.initial : Balanced (State.initial : State V) := by
  refine ⟨fun task past earlier => ?_, fun task awaits => absurd rfl awaits.1, fun _ _ => rfl⟩
  rw [prefix_nil.mp earlier]
  exact ⟨Nat.le_refl 0, Nat.zero_le 1⟩

theorem Reachable.balanced (reached : Reachable state) : Balanced state :=
  reached.invariant (fun config => Balanced config.state) .initial
    fun orderly balanced effect => balanced.effect orderly.tidy effect

/-- **No panic is reached, and every parked operation is woken at most once.** -/
theorem channels_safe {state : State V} (reached : Reachable state) :
    (∀ label, Allowed state label → ∃ after, step label state = .ok after)
      ∧ ∀ task, WokenOnce task state.trace := by
  refine ⟨fun label allowed => ?_, reached.balanced.once⟩
  obtain ⟨after, done, -⟩ := step_runs reached.orderly allowed
  exact ⟨after, done⟩

theorem channels_safe_handOver : ∃ state : State ℕ, runSteps handOver .initial = .ok state
    ∧ (∀ label, Allowed state label → ∃ after, step label state = .ok after)
    ∧ ∀ task, WokenOnce task state.trace := by
  obtain ⟨state, done, reached⟩ := reachable_handOver
  exact ⟨state, done, channels_safe reached⟩

end FoundationLang.Runtime
