/-
**Cancellations and hand-overs.**

A release takes the first waiter out of the queue under the bulkhead lock and completes its
operation after it has left the lock. A cancellation is recorded under the lock of the reactor, and
takes the waiter out of the queue under the bulkhead lock later.
-/

import FoundationLang.Resiliency.Safety

namespace FoundationLang.Resiliency

open Function

open FoundationLang.Library

variable {id : OperationId} {state : State} {thread : ThreadId} {labels : List Label}
variable {other : ThreadId}
  {activity : Activity}

/-! ### Definitions -/

/-- No release is between its two locks with the operation. -/
def State.NotGranting (state : State) (id : OperationId) : Prop :=
  ∀ thread, state.activity thread ≠ .granting id

/-- No cancellation is between its two locks with the operation. -/
def State.NotCancelling (state : State) (id : OperationId) : Prop :=
  ∀ thread, state.activity thread ≠ .cancelling id

/-- **A cancellation and a hand-over of one operation do not overlap.** A cancellation is not
requested while a release has the waiter in hand, and a release does not take a waiter whose
cancellation is about to look for it. -/
def Apart (state : State) : Label → Prop
  | .cancel _ operation => state.NotGranting operation
  | .endPoll thread true =>
    ∀ operation, state.activity thread = .started operation → state.NotGranting operation
  | .release _ operation =>
    ∀ found waiter rest, state.bulkhead (state.operation operation).handle = some found →
      found.waiters = waiter :: rest → state.NotCancelling waiter
  | _ => True

/-- Every cancellation that looks for its waiter finds it in a queue. -/
def Awaited (state : State) : Prop :=
  ∀ thread id, state.activity thread = .cancelling id → ∃ handle, id ∈ state.queue handle

/-! ### The waiters of cancellations -/

section

variable {s after : State} {label : Label} {p : OperationId → Place}

theorem Located.waits (located : Located s p) (disciplined : Disciplined s)
    (made : id < s.operations) (own : (s.operation id).thread = thread)
    (free : (s.activity thread).completes = none)
    (uncompleted : (s.operation id).completed = false) (ungranted : s.NotGranting id) :
    ∃ handle, id ∈ s.queue handle := by
  cases there : p id with
  | absent => exact absurd ((located.absent id).1 there) (Nat.not_le.2 made)
  | waiting handle => exact ⟨handle, (located.waiting handle id).2 there⟩
  | done =>
    rw [(located.done id).2 there] at uncompleted
    cases uncompleted
  | flight other status =>
    have flies := (located.flight other id status).2 there
    -- an acquire and a cancellation are completed by the thread of the operation
    have same : (s.activity other).polls = some id → other = thread := fun polls => by
      rw [← own, ← (disciplined.busy other id polls).2]
    cases acts : s.activity other with
    | granting =>
      rw [acts] at flies
      cases flies
      exact absurd acts (ungranted other)
    | idle | started | cancelling =>
      rw [acts] at flies
      cases flies
    | acquired =>
      rw [acts] at flies
      cases flies
      rw [← same (by rw [acts]; rfl), acts] at free
      cases free
    | withdrawn =>
      rw [acts] at flies
      cases flies
      rw [← same (by rw [acts]; rfl), acts] at free
      cases free

theorem Awaited.same (awaited : Awaited s)
    (queue : ∀ handle, after.queue handle = s.queue handle)
    (activity : ∀ thread id, after.activity thread = .cancelling id →
      s.activity thread = .cancelling id) : Awaited after := by
  intro thread id cancels
  obtain ⟨handle, waits⟩ := awaited thread id (activity thread id cancels)
  exact ⟨handle, (queue handle).symm ▸ waits⟩

theorem waits_setBulkhead {handle other : Handle} {found r : Bulkhead}
    (reg : s.bulkhead handle = some found) (named : r.handle = found.handle)
    (waits : id ∈ s.queue other) (stays : id ∈ found.waiters → id ∈ r.waiters) :
    id ∈ (s.setBulkhead r).queue other := by
  rw [queue_setBulkhead reg named]
  split
  · rename_i here
    rw [here, queue_of_bulkhead reg] at waits
    exact stays waits
  · exact waits

theorem cancelling_of_update (ne : ∀ id, activity ≠ .cancelling id)
    (cancels : (s.setActivity thread activity).activity other = .cancelling id) :
    s.activity other = .cancelling id := by
  rw [State.setActivity_activity, update_apply] at cancels
  split at cancels
  · exact absurd cancels (ne id)
  · exact cancels

/-- **Every change keeps the waiters of the cancellations in their queues.** -/
theorem Change.awaited (listed : Listed s) (located : Located s p)
    (disciplined : Disciplined s) (awaited : Awaited s) (apart : Apart s label)
    (change : Change label s after) : Awaited after := by
  cases change with
  | none => exact awaited
  | opened valid free => exact awaited.same (fun _ => queue_insert free rfl) fun _ _ cancels => cancels
  | retained reg | released made returned admitted reg =>
    refine awaited.same (fun _ => ?_) fun _ _ cancels => cancels
    exact queue_setBulkhead_same reg rfl rfl
  | dropped owned back | discarded made spent back =>
    refine awaited.same (fun _ => back.queue) fun _ _ cancels => ?_
    rwa [back.unchanged.2.2.2.1] at cancels
  | unregistered | refused | rested =>
    exact awaited.same (fun _ => rfl) fun _ _ => cancelling_of_update (by rintro _ ⟨⟩)
  | admitted idle owned reg =>
    refine awaited.same (fun _ => ?_) fun _ _ => cancelling_of_update (by rintro _ ⟨⟩)
    exact queue_setBulkhead_same reg rfl rfl
  | @queued thread handle found idle owned reg =>
    intro other id cancels
    obtain ⟨there, waits⟩ := awaited other id (cancelling_of_update (by rintro _ ⟨⟩) cancels)
    refine ⟨there, waits_setBulkhead reg ?_ waits (List.mem_append_left _)⟩
    rfl
  | @completed thread =>
    refine awaited.same (fun _ => rfl) fun other cancelled => cancelling_of_update fun cancelled => ?_
    cases s.activity thread <;> rintro ⟨⟩
  | @requested thread id asked free pending own uncompleted =>
    have ungranted : s.NotGranting id := by
      rcases asked with rfl | ⟨rfl, started⟩
      · exact apart
      · exact apart id started
    intro other cancelled cancels
    rw [State.setActivity_activity, update_apply] at cancels
    split at cancels
    · cases cancels
      exact located.waits disciplined pending.1 own (completes_of_free free) uncompleted ungranted
    · exact awaited other cancelled cancels
  | @withdrawn thread id found calls search =>
    obtain ⟨reg, -⟩ := bulkhead_of_search listed search
    have own := (disciplined.busy thread id (by rw [calls]; rfl)).2
    intro other cancelled cancels
    have elsewhere : other ≠ thread := by
      rintro rfl
      rw [State.record_activity, State.setWaiterCount_activity, State.setBulkhead_activity,
        State.setActivity_activity, update_self] at cancels
      cases cancels
    have seeks : s.activity other = .cancelling cancelled :=
      cancelling_of_update (by rintro _ ⟨⟩) cancels
    have ne : cancelled ≠ id := by
      rintro rfl
      exact elsewhere (((disciplined.busy other _ (by rw [seeks]; rfl)).2).symm.trans own)
    obtain ⟨there, waits⟩ := awaited other cancelled seeks
    refine ⟨there, waits_setBulkhead reg ?_ waits ?_⟩
    · rfl
    · exact (List.mem_erase_of_ne ne).2
  | resumed =>
    exact awaited.same (fun _ => rfl) fun _ _ cancels => cancels
  | @granted thread id waiter rest found releases idle made returned admitted reg x =>
    subst releases
    have uncancelled := apart found waiter rest reg x
    intro other cancelled cancels
    have calls : s.activity other = .cancelling cancelled :=
      cancelling_of_update (by rintro _ ⟨⟩) cancels
    have ne : cancelled ≠ waiter := by
      rintro rfl
      exact uncancelled other calls
    obtain ⟨there, waits⟩ := awaited other cancelled calls
    refine ⟨there, waits_setBulkhead reg ?_ waits fun inside => ?_⟩
    · rfl
    · rw [x] at inside
      exact (List.mem_cons.1 inside).resolve_left ne

end

/-! ### Cancellations that were requested -/

/-- A cancellation that was requested is on its way, or its operation is completed. -/
def Heard (state : State) : Prop :=
  ∀ id < state.operations, (state.operation id).cancellationRequested = true →
    (state.operation id).completed = true
      ∨ ∃ thread, state.activity thread = .cancelling id ∨ state.activity thread = .withdrawn id

section

variable {s after : State} {label : Label} {p : OperationId → Place}

theorem Heard.same (heard : Heard s) (operations : after.operations = s.operations)
    (operation : ∀ id,
      ((after.operation id).cancellationRequested = true →
        (s.operation id).cancellationRequested = true)
      ∧ ((s.operation id).completed = true → (after.operation id).completed = true))
    (activity : ∀ thread id,
      s.activity thread = .cancelling id ∨ s.activity thread = .withdrawn id →
      (after.operation id).completed = true
        ∨ after.activity thread = .cancelling id ∨ after.activity thread = .withdrawn id) :
    Heard after := by
  intro id made requested
  rw [operations] at made
  rcases heard id made ((operation id).1 requested) with completed | ⟨thread, way⟩
  · exact .inl ((operation id).2 completed)
  · rcases activity thread id way with completed | goes
    · exact .inl completed
    · exact .inr ⟨thread, goes⟩

theorem way_setActivity
    (free : ∀ id, s.activity thread ≠ .cancelling id ∧ s.activity thread ≠ .withdrawn id)
    (way : s.activity other = .cancelling id ∨ s.activity other = .withdrawn id) :
    (s.setActivity thread activity).activity other = .cancelling id
      ∨ (s.setActivity thread activity).activity other = .withdrawn id := by
  rw [State.setActivity_activity, update_of_ne]
  · exact way
  · rintro rfl
    rcases way with cancels | withdraws
    · exact (free id).1 cancels
    · exact (free id).2 withdraws

/-- A new operation that was not cancelled. -/
theorem Heard.enter {handle : Handle} (heard : Heard s) (idle : s.activity thread = .idle)
    (operations : after.operations = s.operations + 1)
    (operation : after.operation = (entering thread handle s).operation)
    (activities : after.activity = update s.activity thread activity) :
    Heard after := by
  intro id made requested
  rw [operation] at requested ⊢
  by_cases new : id = s.operations
  · rw [new, operation_enter] at requested
    cases requested
  · have old : (entering thread handle s).operation id = s.operation id := by
      rw [entering, State.setOwners_operation, makeOperation_operation, State.setOperation_operation,
        update_of_ne new]
    rw [old] at requested ⊢
    rw [operations] at made
    rcases heard id (Nat.lt_of_le_of_ne (Nat.le_of_lt_succ made) new) requested with
      completed | ⟨other, way⟩
    · exact .inl completed
    · refine .inr ⟨other, ?_⟩
      rw [activities]
      exact way_setActivity (by simp [idle]) way

theorem heard_update {op : Operation}
    (requested : op.cancellationRequested = true →
      (s.operation id).cancellationRequested = true)
    (completed : (s.operation id).completed = true → op.completed = true)
    (other : OperationId) :
    (((s.setOperation id op).operation other).cancellationRequested = true →
        (s.operation other).cancellationRequested = true)
      ∧ ((s.operation other).completed = true →
        ((s.setOperation id op).operation other).completed = true) := by
  rw [State.setOperation_operation, update_apply]
  split
  · rename_i here
    rw [here]
    exact ⟨requested, completed⟩
  · exact ⟨fun same => same, fun same => same⟩

/-- **Every change lets requested cancellations go on.** -/
theorem Change.heard (heard : Heard s) (change : Change label s after) :
    Heard after := by
  cases change with
  | none | opened | retained =>
    exact heard.same rfl (fun _ => ⟨fun same => same, fun same => same⟩) fun _ _ => .inr
  | dropped owned back =>
    obtain ⟨operations, operation, -, activity, -, -⟩ := back.unchanged
    refine heard.same operations (fun id => ?_) fun thread id way => .inr ?_
    · rw [operation]
      exact ⟨fun same => same, fun same => same⟩
    · rw [activity]
      exact way
  | @discarded id _ made spent back =>
    obtain ⟨operations, operation, -, activity, -, -⟩ := back.unchanged
    refine heard.same operations (fun other => ?_) fun thread id way => .inr ?_
    · rw [operation]
      refine heard_update ?_ ?_ other
      · exact fun same => same
      · exact fun same => same
    · rw [activity]
      exact way
  | unregistered idle | admitted idle | refused idle | queued idle => exact heard.enter idle rfl rfl rfl
  | @completed thread id status flies =>
    refine heard.same rfl (heard_update ?_ fun _ => ?_) fun other cancelled way => ?_
    · exact fun same => same
    · rfl
    by_cases here : other = thread
    · subst here
      rcases way with cancels | withdraws
      · rw [cancels] at flies
        cases flies
      · rw [withdraws] at flies
        cases flies
        refine .inl ?_
        rw [State.record_operation, State.setOperation_operation, update_self]
    · refine .inr ?_
      rw [State.record_activity, State.setOperation_activity, State.setActivity_activity,
        update_of_ne here]
      exact way
  | @requested thread id asked free =>
    intro other made requested
    by_cases here : other = id
    · refine .inr ⟨thread, .inl ?_⟩
      rw [State.setActivity_activity, update_self, here]
    · rw [State.setActivity_operation, State.setOperation_operation, update_of_ne here]
        at requested ⊢
      rcases heard other made requested with completed | ⟨one, way⟩
      · exact .inl completed
      · refine .inr ⟨one, way_setActivity (fun _ => ?_) way⟩
        rw [State.setOperation_activity]
        rcases free with idle | started
        · simp [idle]
        · simp [started]
  | @rested thread id free =>
    refine heard.same rfl (fun _ => ⟨fun same => same, fun same => same⟩) fun _ _ way => .inr ?_
    refine way_setActivity (fun other => ?_) way
    rcases free with idle | started
    · simp [idle]
    · simp [started]
  | @withdrawn thread id found calls =>
    refine heard.same rfl (fun _ => ⟨fun same => same, fun same => same⟩) fun other cancelled way =>
      .inr ?_
    rw [State.record_activity, State.setWaiterCount_activity, State.setBulkhead_activity,
      State.setActivity_activity]
    by_cases here : other = thread
    · subst here
      rw [calls] at way
      rcases way with cancels | ⟨⟨⟩⟩
      cases cancels
      exact .inr (update_self _ _ _)
    · rw [update_of_ne here]
      exact way
  | resumed | released =>
    refine heard.same rfl (heard_update ?_ ?_) fun _ _ => .inr
    · exact fun same => same
    · exact fun same => same
  | granted releases idle =>
    refine heard.same rfl (heard_update ?_ ?_) fun _ _ way => .inr ?_
    · exact fun same => same
    · exact fun same => same
    · exact way_setActivity (by simp [idle]) way

end

/-! ### Runs -/

theorem heard_of_run (run : bulkheads.Run labels state) : Heard state := by
  have both : Sound state ∧ Heard state := by
    refine run.invariant (fun state => Sound state ∧ Heard state) ?_ ?_
    · exact ⟨sound_initial, fun id made => absurd made (Nat.not_lt_zero id)⟩
    · intro s after label holds allowed taken
      have change := holds.1.change allowed taken
      exact ⟨change.sound holds.1, change.heard holds.2⟩
  exact both.2

theorem awaited_of_run (run : (bulkheads.restrict Apart).Run labels state) : Awaited state := by
  have both : Sound state ∧ Awaited state := by
    refine run.invariant (fun state => Sound state ∧ Awaited state) ?_ ?_
    · exact ⟨sound_initial, by rintro _ _ ⟨⟩⟩
    · intro s after label holds allowed taken
      have change := holds.1.change allowed.1 taken
      obtain ⟨_, located⟩ := holds.1.located
      exact ⟨change.sound holds.1,
        change.awaited holds.1.listed located holds.1.disciplined holds.2 allowed.2⟩
  exact both.2

theorem callback_ok {handle : Handle} (sound : Sound state)
    (calls : state.activity thread = .cancelling id) (waits : id ∈ state.queue handle) :
    ∃ after, step (.callback thread) state = .ok after ∧ id ∉ after.queue handle
      ∧ after.activity thread = .withdrawn id := by
  obtain ⟨p, located⟩ := sound.located
  have there := (located.waiting handle id).1 waits
  cases search : state.bulkheads.find? (id ∈ ·.waiters) with
  | none =>
    unfold State.queue at waits
    split at waits
    · rename_i found reg
      have absent := List.find?_eq_none.1 search found (List.mem_of_find?_eq_some reg)
      simp [waits] at absent
    · cases waits
  | some found =>
    obtain ⟨reg, inside⟩ := bulkhead_of_search sound.listed search
    have here := inside
    rw [← queue_of_bulkhead reg, located.waiting, there] at here
    cases here
    have pos := sound.guarded.queued_pos reg inside
    have le := sound.counted.le reg
    have once := located.once found.handle
    rw [queue_of_bulkhead reg] at once
    simp only [step, calls, bulkheadCancel, State.setActivity_bulkheads, search]
    rw [if_neg (by rw [State.setActivity_waiterCount]; omega)]
    refine ⟨_, rfl, fun stays => ?_, ?_⟩
    · simp [State.queue, reg, once.mem_erase_iff] at stays
    · exact update_self _ _ _

theorem callback_panics (thread other : ThreadId) (id : OperationId) (sound : Sound state)
    (calls : state.activity thread = .cancelling id) (grants : state.activity other = .granting id) :
    Allowed state (.callback thread)
      ∧ step (.callback thread) state = .error "bulkhead cancellation has no waiter" := by
  obtain ⟨_, located⟩ := sound.located
  refine ⟨⟨id, (sound.disciplined.busy thread id (by rw [calls]; rfl)).1.1, calls⟩, ?_⟩
  have flies := (located.flight other id .admitted).1 (by rw [grants]; rfl)
  simp only [step, calls, bulkheadCancel, State.setActivity_bulkheads]
  split
  · rfl
  · rename_i found search
    obtain ⟨reg, waits⟩ := bulkhead_of_search sound.listed search
    rw [← queue_of_bulkhead reg, located.waiting, flies] at waits
    cases waits

theorem cancelWait_calls (sound : Sound state) (heard : Heard state)
    (own : (state.operation id).thread = thread)
    (free : state.activity thread = .idle ∨ state.activity thread = .started id)
    (grants : state.activity other = .granting id) :
    (cancelWait thread id state).activity thread = .cancelling id
      ∧ (cancelWait thread id state).activity other = .granting id := by
  obtain ⟨_, located⟩ := sound.located
  have flies : (state.activity other).completes = some (id, .admitted) := by
    rw [grants]
    rfl
  obtain ⟨⟨made, -⟩, uncompleted⟩ := located.pending sound.disciplined flies
  have unrequested : (state.operation id).cancellationRequested = false := by
    by_contra requested
    rcases heard id made (by simpa using requested) with completed | ⟨one, way⟩
    · rw [uncompleted] at completed
      cases completed
    · have polls : (state.activity one).polls = some id := by
        rcases way with cancels | withdraws
        · rw [cancels]
          rfl
        · rw [withdraws]
          rfl
      rw [(sound.disciplined.busy one id polls).2] at own
      subst own
      rcases free with idle | started
      · simp [idle] at way
      · simp [started] at way
  have apart : other ≠ thread := by
    rintro rfl
    rcases free with idle | started
    · simp [idle] at grants
    · simp [started] at grants
  unfold cancelWait requestCancellation
  simp [uncompleted, unrequested, apart, grants]

/-- **An overlap ends in a panic.** A step that does not keep a cancellation and a hand-over of one
operation apart leaves a thread whose next step panics. -/
theorem overlap_panics {after : State} {label : Label} (run : bulkheads.Run labels state)
    (allowed : Allowed state label) (taken : step label state = .ok after)
    (overlap : ¬ Apart state label) :
    ∃ thread, Allowed after (.callback thread)
      ∧ step (.callback thread) after = .error "bulkhead cancellation has no waiter" := by
  have sound := sound_of_run run
  have heard := heard_of_run run
  have next : Sound after := (sound.change allowed taken).sound sound
  cases label with
  | cancel thread id =>
    obtain ⟨idle, pending, own⟩ := allowed
    obtain ⟨other, grants⟩ : ∃ other, state.activity other = .granting id := by
      simpa [Apart, State.NotGranting] using overlap
    obtain ⟨calls, grants⟩ := cancelWait_calls sound heard own (.inl idle) grants
    cases taken
    exact ⟨thread, callback_panics thread other id next calls grants⟩
  | endPoll thread cancelled =>
    obtain ⟨id, -, started⟩ := allowed
    cases cancelled with
    | false => exact absurd trivial overlap
    | true =>
      obtain ⟨other, grants⟩ : ∃ other, state.activity other = .granting id := by
        simpa [Apart, State.NotGranting, started] using overlap
      obtain ⟨calls, grants⟩ := cancelWait_calls sound heard
        (sound.disciplined.busy thread id (by rw [started]; rfl)).2 (.inr started) grants
      simp only [step, started, if_true] at taken
      cases taken
      exact ⟨thread, callback_panics thread other id next calls grants⟩
  | release thread id =>
    obtain ⟨idle, made, returned, admitted⟩ := allowed
    obtain ⟨found, registered, waiter, ⟨rest, first⟩, other, calls⟩ :
        ∃ found, state.bulkhead (state.operation id).handle = some found ∧ ∃ waiter,
          (∃ rest, found.waiters = waiter :: rest) ∧ ∃ other,
            state.activity other = .cancelling waiter := by
      simpa [Apart, State.NotCancelling] using overlap
    have apart : other ≠ thread := by
      rintro rfl
      rw [idle] at calls
      cases calls
    simp only [step, release, permitRelease, bulkhead_setOperation, registered, first] at taken
    split at taken
    · cases taken
    · split at taken
      · cases taken
      · cases taken
        refine ⟨other, callback_panics other thread waiter next ?_ ?_⟩
        · simp [apart, calls]
        · simp
  | openBulkhead | clone | dropBulkhead | start | complete | callback | resume | discard =>
    exact absurd trivial overlap

theorem overlap_panics_handOver :
    ∃ state after, bulkheads.Run handOver state ∧ step (.cancel 1 1) state = .ok after
      ∧ ∃ thread, Allowed after (.callback thread)
        ∧ step (.callback thread) after = .error "bulkhead cancellation has no waiter" := by
  obtain ⟨state, after, followed, allowed, taken, grants⟩ : ∃ state after,
      bulkheads.follow handOver bulkheads.initial = some state ∧ Allowed state (.cancel 1 1)
        ∧ step (.cancel 1 1) state = .ok after ∧ state.activity 0 = .granting 1 :=
    ⟨_, _, rfl, ⟨rfl, ⟨by decide, rfl⟩, rfl⟩, rfl, rfl⟩
  have run : bulkheads.Run handOver state := Machine.Run.start.follow followed
  exact ⟨state, after, run, taken, overlap_panics run allowed taken fun apart => apart 0 grants⟩

/-- **A cancellation is in time or too late.** In a run whose steps keep cancellations and hand-overs
of one operation apart no cancellation misses its waiter: the callback takes the operation out of a
queue, and a cancellation comes to an operation that waits or that is completed already. -/
theorem cancellation_in_time {labels : List Label} {state : State}
    (run : (bulkheads.restrict Apart).Run labels state) :
    (∀ label, Allowed state label →
      step label state ≠ .error "bulkhead cancellation has no waiter")
    ∧ (∀ thread id, state.activity thread = .cancelling id →
        ∃ handle after, id ∈ state.queue handle ∧ step (.callback thread) state = .ok after
          ∧ id ∉ after.queue handle ∧ after.activity thread = .withdrawn id)
    ∧ ∀ thread id, Allowed state (.cancel thread id) → Apart state (.cancel thread id) →
        (∃ handle, id ∈ state.queue handle)
          ∨ (state.operation id).completed = true
            ∧ step (.cancel thread id) state = .ok (state.setActivity thread .idle) := by
  have sound := sound_of_run run.of_restrict
  have awaited := awaited_of_run run
  obtain ⟨_, located⟩ := sound.located
  refine ⟨fun label allowed failed => ?_, fun thread id calls => ?_,
    fun thread id allowed ungranted => ?_⟩
  · rcases sound.step_error allowed failed with overflow | ⟨-, thread, id, -, calls, missing⟩
    · simp [overflows] at overflow
    · obtain ⟨handle, waits⟩ := awaited thread id calls
      exact missing handle waits
  · obtain ⟨handle, waits⟩ := awaited thread id calls
    obtain ⟨after, taken, gone, withdraws⟩ := callback_ok sound calls waits
    exact ⟨handle, after, waits, taken, gone, withdraws⟩
  · obtain ⟨idle, ⟨made, -⟩, own⟩ := allowed
    cases completed : (state.operation id).completed with
    | false =>
      exact .inl (located.waits sound.disciplined made own (completes_of_idle idle) completed
        ungranted)
    | true =>
      refine .inr ⟨rfl, ?_⟩
      simp [step, cancelWait, requestCancellation, completed]

/-- Two acquires of a bulkhead that admits one: the second waits. -/
def queuedBehind : List Label :=
  [.openBulkhead 1 1 1, .clone 1, .start 0 1, .complete 0, .endPoll 0 false, .resume 0, .start 1 1,
    .endPoll 1 false]

theorem cancellation_in_time_queued :
    ∃ state, (bulkheads.restrict Apart).Run (queuedBehind ++ [.cancel 1 1]) state
      ∧ state.activity 1 = .cancelling 1
      ∧ ∃ handle after, 1 ∈ state.queue handle ∧ step (.callback 1) state = .ok after
        ∧ 1 ∉ after.queue handle ∧ after.activity 1 = .withdrawn 1 := by
  obtain ⟨state, followed, waits, allowed, calls⟩ : ∃ state,
      bulkheads.follow queuedBehind bulkheads.initial = some state ∧ state.queue 1 = [1]
        ∧ Allowed state (.cancel 1 1) ∧ (cancelWait 1 1 state).activity 1 = .cancelling 1 :=
    ⟨_, rfl, rfl, ⟨rfl, ⟨by decide, rfl⟩, rfl⟩, rfl⟩
  have calm : ∀ label ∈ queuedBehind, ∀ state, Apart state label := by
    simp [queuedBehind, Apart]
  have run : (bulkheads.restrict Apart).Run queuedBehind state :=
    Machine.Run.start.follow_restrict calm followed
  have sound := sound_of_run run.of_restrict
  obtain ⟨_, located⟩ := sound.located
  have there := (located.waiting 1 1).1 (waits ▸ List.mem_singleton_self 1)
  have ungranted : state.NotGranting 1 := by
    intro thread grants
    have flies := (located.flight thread 1 .admitted).1 (by rw [grants]; rfl)
    rw [there] at flies
    cases flies
  have longer : (bulkheads.restrict Apart).Run (queuedBehind ++ [.cancel 1 1])
      (cancelWait 1 1 state) := run.step ⟨allowed, ungranted⟩ rfl
  exact ⟨_, longer, calls, (cancellation_in_time longer).2.1 1 1 calls⟩

/-- A release takes the waiter of an operation out of the queue, and the cancellation of the
operation is recorded before the release has completed it. -/
theorem cancellation_misses_waiter :
    ∃ state, bulkheads.Run (handOver ++ [.cancel 1 1]) state ∧ Allowed state (.callback 1)
      ∧ step (.callback 1) state = .error "bulkhead cancellation has no waiter" := by
  obtain ⟨state, followed, allowed, failed⟩ : ∃ state,
      bulkheads.follow (handOver ++ [.cancel 1 1]) bulkheads.initial = some state
        ∧ Allowed state (.callback 1)
        ∧ step (.callback 1) state = .error "bulkhead cancellation has no waiter" :=
    ⟨_, rfl, ⟨1, by decide, rfl⟩, rfl⟩
  exact ⟨state, Machine.Run.start.follow followed, allowed, failed⟩

end FoundationLang.Resiliency
