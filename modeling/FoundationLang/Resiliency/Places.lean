/-
**Where the operations of the bulkheads are.**

* `Located.enter`, `Located.wait`, `Located.land`, `Located.fly` — the moves of an operation.
-/

import FoundationLang.Resiliency.Addresses

namespace FoundationLang.Resiliency

open List Function

open FoundationLang.Library

variable {id : OperationId} {thread : ThreadId} {activity : Activity}

/-- Where an operation is. -/
inductive Place
  | absent
  | waiting (handle : Handle)
  | flight (thread : ThreadId) (status : Status)
  | done
deriving DecidableEq

variable {place : OperationId → Place} {s t : State} {status : Status} {handle : Handle}
variable {state : State}

/-- **Every operation is in one place.** -/
structure Located (state : State) (place : OperationId → Place) : Prop where
  absent : ∀ id, place id = .absent ↔ state.operations ≤ id
  waiting : ∀ handle id, id ∈ state.queue handle ↔ place id = .waiting handle
  flight : ∀ thread id status,
    (state.activity thread).completes = some (id, status) ↔ place id = .flight thread status
  done : ∀ id, (state.operation id).completed = true ↔ place id = .done
  home : ∀ handle id, place id = .waiting handle → (state.operation id).handle = handle
  once : ∀ handle, (state.queue handle).Nodup

/-! ### The places -/

/-- What the places of operations depend on is the same in two records of an operation. -/
def Operation.Alike (first second : Operation) : Prop :=
  first.completed = second.completed ∧ first.handle = second.handle

/-- A record that is changed where no place depends on it. -/
theorem alike_update {op : Operation}
    (alike : op.Alike (state.operation id)) (y : OperationId) :
    ((state.setOperation id op).operation y).Alike (state.operation y) := by
  rw [State.setOperation_operation, update_apply]
  split
  · rename_i here
    rwa [here]
  · exact ⟨rfl, rfl⟩

theorem completes_of_idle (idle : activity = .idle) : activity.completes = none := by
  rw [idle]
  rfl

theorem completes_of_free (free : activity = .idle ∨ activity = .started id) :
    activity.completes = none := by
  rcases free with rfl | rfl
  · rfl
  · rfl

theorem completes_update (free : (state.activity thread).completes = none)
    (still : activity.completes = none) (y : ThreadId) :
    ((state.setActivity thread activity).activity y).completes =
      (state.activity y).completes := by
  rw [State.setActivity_activity, update_apply]
  split
  · rename_i here
    rw [still, here, free]
  · rfl

section

variable {handle : Handle} (state : State)

theorem alike_enter (id : OperationId) (old : id ≠ state.operations) :
    ((entering thread handle state).operation id).Alike (state.operation id) := by
  rw [entering, State.setOwners_operation, makeOperation_operation,
    State.setOperation_operation, update_of_ne old]
  exact ⟨rfl, rfl⟩

theorem operation_enter :
    (entering thread handle state).operation state.operations =
      ⟨thread, handle, .admitted, false, false, .pending⟩ := by
  rw [entering, State.setOwners_operation, makeOperation_operation,
    State.setOperation_operation, update_self]

theorem uncompleted_enter :
    ((entering thread handle state).operation state.operations).completed = false := by
  rw [operation_enter]

theorem home_enter :
    ((entering thread handle state).operation state.operations).handle = handle := by
  rw [operation_enter]

end

theorem Located.same (located : Located s place)
    (operations : t.operations = s.operations)
    (queue : ∀ handle, t.queue handle = s.queue handle)
    (completes : ∀ thread, (t.activity thread).completes = (s.activity thread).completes)
    (operation : ∀ id, (t.operation id).Alike (s.operation id)) :
    Located t place where
  absent id := by rw [operations, located.absent]
  waiting handle id := by rw [queue, located.waiting]
  flight thread id status := by rw [completes, located.flight]
  done id := by rw [(operation id).1, located.done]
  home handle id waits := by rw [(operation id).2, located.home handle id waits]
  once handle := by
    rw [queue]
    exact located.once handle

theorem Located.move {target : Place} (located : Located s place)
    (others : ∀ y, y ≠ id →
      (t.operations ≤ y ↔ s.operations ≤ y)
        ∧ (∀ handle, y ∈ t.queue handle ↔ y ∈ s.queue handle)
        ∧ (∀ thread status, (t.activity thread).completes = some (y, status) ↔
            (s.activity thread).completes = some (y, status))
        ∧ (t.operation y).Alike (s.operation y))
    (absent : target = .absent ↔ t.operations ≤ id)
    (waiting : ∀ handle, id ∈ t.queue handle ↔ target = .waiting handle)
    (flight : ∀ thread status,
      (t.activity thread).completes = some (id, status) ↔ target = .flight thread status)
    (done : (t.operation id).completed = true ↔ target = .done)
    (home : ∀ handle, target = .waiting handle → (t.operation id).handle = handle)
    (once : ∀ handle, (t.queue handle).Nodup) :
    Located t (update place id target) := by
  constructor
  · intro y
    by_cases here : y = id
    · subst here
      rw [update_self, absent]
    · rw [update_of_ne here, located.absent, (others y here).1]
  · intro handle y
    by_cases here : y = id
    · subst here
      rw [update_self, waiting]
    · rw [update_of_ne here, (others y here).2.1, located.waiting]
  · intro thread y status
    by_cases here : y = id
    · subst here
      rw [update_self, flight]
    · rw [update_of_ne here, (others y here).2.2.1, located.flight]
  · intro y
    by_cases here : y = id
    · subst here
      rw [update_self, done]
    · rw [update_of_ne here, (others y here).2.2.2.1, located.done]
  · intro handle y
    by_cases here : y = id
    · subst here
      rw [update_self]
      exact home handle
    · rw [update_of_ne here, (others y here).2.2.2.2]
      exact located.home handle y
  · exact once

theorem Located.unmade (located : Located state place)
    (unmade : state.operations ≤ id) :
    (∀ handle, id ∉ state.queue handle)
      ∧ (∀ thread status, (state.activity thread).completes ≠ some (id, status))
      ∧ (state.operation id).completed = false := by
  have absent := (located.absent id).2 unmade
  refine ⟨fun handle waits => ?_, fun thread status flies => ?_, ?_⟩
  · have := (located.waiting handle id).1 waits
    simp [absent] at this
  · have := (located.flight thread id status).1 flies
    simp [absent] at this
  · by_contra completed
    have := (located.done id).1 (by simpa using completed)
    simp [absent] at this

theorem Located.enter (located : Located s place)
    (idle : s.activity thread = .idle) (operations : t.operations = s.operations + 1)
    (queue : ∀ handle, t.queue handle = s.queue handle)
    (activity : t.activity =
      update s.activity thread (.acquired s.operations status))
    (operation : ∀ id, id ≠ s.operations → (t.operation id).Alike (s.operation id))
    (uncompleted : (t.operation s.operations).completed = false) :
    Located t (update place s.operations (.flight thread status)) := by
  obtain ⟨unqueued, unflown, -⟩ := located.unmade (Nat.le_refl s.operations)
  refine located.move (fun y elsewhere => ⟨?_, ?_, ?_, operation y elsewhere⟩) ?_ ?_ ?_ ?_
    ?_ ?_
  · rw [operations]
    exact ⟨Nat.le_of_succ_le, fun made => Nat.lt_of_le_of_ne made (Ne.symm elsewhere)⟩
  · intro handle
    rw [queue]
  · intro elsewhere status
    rw [activity, update_apply]
    split
    · rename_i here
      simp [here, idle, Activity.completes]
      grind
    · rfl
  · simp [operations]
  · intro handle
    rw [queue]
    simp [unqueued handle]
  · intro elsewhere outcome
    rw [activity, update_apply]
    split
    · rename_i here
      simp [here, Activity.completes]
    · rename_i here
      have := unflown elsewhere outcome
      simp [this]
      grind
  · simp [uncompleted]
  · simp
  · intro handle
    rw [queue]
    exact located.once handle

theorem Located.wait (located : Located s place)
    (idle : s.activity thread = .idle) (operations : t.operations = s.operations + 1)
    (queue : ∀ y, t.queue y =
      if y = handle then s.queue handle ++ [s.operations] else s.queue y)
    (activity : t.activity =
      update s.activity thread (.started s.operations))
    (operation : ∀ id, id ≠ s.operations → (t.operation id).Alike (s.operation id))
    (uncompleted : (t.operation s.operations).completed = false)
    (home : (t.operation s.operations).handle = handle) :
    Located t (update place s.operations (.waiting handle)) := by
  obtain ⟨unqueued, unflown, -⟩ := located.unmade (Nat.le_refl s.operations)
  refine located.move (fun y elsewhere => ⟨?_, ?_, ?_, operation y elsewhere⟩) ?_ ?_ ?_ ?_
    ?_ ?_
  · rw [operations]
    exact ⟨Nat.le_of_succ_le, fun made => Nat.lt_of_le_of_ne made (Ne.symm elsewhere)⟩
  · intro there
    rw [queue]
    split
    · rename_i here
      rw [here, mem_append, mem_singleton, or_iff_left elsewhere]
    · rfl
  · intro elsewhere status
    rw [activity, update_apply]
    split
    · rename_i here
      simp [here, idle, Activity.completes]
    · rfl
  · simp [operations]
  · intro there
    rw [queue]
    split
    · rename_i here
      simp [here]
    · rename_i there
      simp [unqueued, Ne.symm there]
  · intro elsewhere outcome
    rw [activity, update_apply]
    split
    · simp [Activity.completes]
    · simp [unflown elsewhere outcome]
  · simp [uncompleted]
  · intro there target
    cases target
    exact home
  · intro there
    rw [queue]
    split
    · refine nodup_append.2 ⟨located.once handle, nodup_singleton _, ?_⟩
      intro waiter waits last same equal
      rw [mem_singleton] at same
      exact unqueued handle (same ▸ equal ▸ waits)
    · exact located.once there

theorem Located.land (located : Located s place)
    (flies : (s.activity thread).completes = some (id, status))
    (operations : t.operations = s.operations)
    (queue : ∀ handle, t.queue handle = s.queue handle)
    (activity : t.activity =
      update s.activity thread (s.activity thread).afterwards)
    (operation : ∀ y, y ≠ id → (t.operation y).Alike (s.operation y))
    (completed : (t.operation id).completed = true) :
    Located t (update place id .done) := by
  have there := (located.flight thread id status).1 flies
  have lands : (s.activity thread).afterwards.completes = none := by
    cases s.activity thread <;> rfl
  refine located.move (fun y elsewhere => ⟨?_, ?_, ?_, operation y elsewhere⟩) ?_ ?_ ?_ ?_
    ?_ ?_
  · rw [operations]
  · intro handle
    rw [queue]
  · intro elsewhere outcome
    rw [activity, update_apply]
    split
    · rename_i here
      rw [lands, here, flies]
      grind
    · rfl
  · rw [operations, ← located.absent, there]
    simp
  · intro handle
    rw [queue, located.waiting, there]
    simp
  · intro y outcome
    rw [activity, update_apply]
    split
    · rw [lands]
      simp
    · rename_i elsewhere
      rw [located.flight, there]
      simp [Ne.symm elsewhere]
  · simp [completed]
  · simp
  · intro handle
    rw [queue]
    exact located.once handle

theorem Located.fly
    (located : Located s place) (waits : id ∈ s.queue handle)
    (free : (s.activity thread).completes = none)
    (flies : activity.completes = some (id, status))
    (operations : t.operations = s.operations)
    (queue : ∀ y, t.queue y =
      if y = handle then (s.queue handle).erase id else s.queue y)
    (activities : t.activity = update s.activity thread activity)
    (operation : ∀ y, (t.operation y).Alike (s.operation y)) :
    Located t (update place id (.flight thread status)) := by
  have there := (located.waiting handle id).1 waits
  refine located.move (fun y elsewhere => ⟨?_, ?_, ?_, operation y⟩) ?_ ?_ ?_ ?_ ?_ ?_
  · rw [operations]
  · intro y
    rw [queue]
    split
    · rename_i here
      rw [mem_erase_of_ne elsewhere, here]
    · rfl
  · intro y outcome
    rw [activities, update_apply]
    split
    · rename_i here
      rw [flies, here, free]
      simp [Ne.symm elsewhere]
    · rfl
  · rw [operations, ← located.absent, there]
    simp
  · intro y
    rw [queue]
    split
    · simp [(located.once handle).mem_erase_iff]
    · rename_i elsewhere
      rw [located.waiting, there]
      simp [Ne.symm elsewhere]
  · intro y outcome
    rw [activities, update_apply]
    split
    · rename_i here
      rw [flies, here]
      simp
    · rename_i elsewhere
      rw [located.flight, there]
      simp [Ne.symm elsewhere]
  · rw [(operation id).1, located.done, there]
    simp
  · simp
  · intro y
    rw [queue]
    split
    · exact (located.once handle).erase id
    · exact located.once y

/-! ### The changes -/

theorem GivenBack.located (located : Located s place)
    (back : GivenBack handle s t) : Located t place := by
  cases back with
  | none => exact located
  | kept reg =>
    refine located.same rfl (fun y => ?_) (fun _ => rfl) fun _ => ⟨rfl, rfl⟩
    exact queue_setBulkhead_same reg rfl rfl
  | destroyed reg last still short empty =>
    exact located.same rfl (fun y => queue_remove reg empty) (fun _ => rfl)
      fun _ => ⟨rfl, rfl⟩

/-- **Every change keeps the operations in their places or moves one of them.** -/
theorem Change.located {label : Label} (listed : Listed s)
    (located : Located s place) (change : Change label s t) :
    ∃ place, Located t place := by
  cases change with
  | none => exact ⟨place, located⟩
  | opened nonzero free =>
    exact ⟨place, located.same rfl (fun y => queue_insert free rfl) (fun _ => rfl)
      fun _ => ⟨rfl, rfl⟩⟩
  | retained reg =>
    refine ⟨place, located.same rfl (fun y => ?_) (fun _ => rfl) fun _ => ⟨rfl, rfl⟩⟩
    exact queue_setBulkhead_same reg rfl rfl
  | @dropped handle _ owned back =>
    have less : Located (s.setOwners handle (s.owners handle - 1)) place :=
      located.same rfl (fun _ => rfl) (fun _ => rfl) fun _ => ⟨rfl, rfl⟩
    exact ⟨place, back.located less⟩
  | @discarded id _ made spent back =>
    have finished : Located (s.setOperation id
        { s.operation id with stage := .finished }) place :=
      located.same rfl (fun _ => rfl) (fun _ => rfl) (alike_update ⟨rfl, rfl⟩)
    exact ⟨place, back.located finished⟩
  | unregistered idle | refused idle =>
    exact ⟨_, located.enter idle rfl (fun _ => rfl) rfl (alike_enter _) (uncompleted_enter _)⟩
  | admitted idle owned reg =>
    refine ⟨_, located.enter idle rfl (fun y => ?_) rfl (alike_enter _) (uncompleted_enter _)⟩
    exact queue_setBulkhead_same reg rfl rfl
  | @queued thread handle found idle owned reg =>
    refine ⟨_, located.wait idle rfl (fun y => ?_) rfl (alike_enter _) (uncompleted_enter _)
      (home_enter _)⟩
    rw [queue_of_bulkhead reg]
    exact queue_setBulkhead reg rfl
  | @completed thread id status flies =>
    refine ⟨_, located.land flies rfl (fun _ => rfl) rfl (fun y elsewhere => ?_) ?_⟩
    · rw [State.record_operation, State.setOperation_operation, update_of_ne elsewhere]
      exact ⟨rfl, rfl⟩
    · rw [State.record_operation, State.setOperation_operation, update_self]
  | requested asked free =>
    refine ⟨place, located.same rfl (fun _ => rfl) (completes_update ?_ rfl)
      (alike_update ⟨rfl, rfl⟩)⟩
    exact completes_of_free free
  | rested free =>
    exact ⟨place, located.same rfl (fun _ => rfl) (completes_update (completes_of_free free) rfl)
      fun _ => ⟨rfl, rfl⟩⟩
  | @withdrawn thread id found calls search =>
    obtain ⟨reg, waits⟩ := bulkhead_of_search listed search
    rw [← queue_of_bulkhead reg] at waits
    refine ⟨_, located.fly waits (by rw [calls]; rfl) rfl rfl (fun y => ?_) rfl
      fun _ => ⟨rfl, rfl⟩⟩
    rw [queue_of_bulkhead reg]
    exact queue_setBulkhead reg rfl
  | resumed =>
    exact ⟨place, located.same rfl (fun _ => rfl) (fun _ => rfl) (alike_update ⟨rfl, rfl⟩)⟩
  | @released id found made returned admitted reg =>
    refine ⟨place, located.same rfl (fun y => ?_) (fun _ => rfl) (alike_update ⟨rfl, rfl⟩)⟩
    exact queue_setBulkhead_same reg rfl rfl
  | @granted thread id waiter rest found releases idle made returned admitted reg x =>
    have queue := queue_of_bulkhead reg
    rw [x] at queue
    refine ⟨_, located.fly (queue ▸ mem_cons_self) (by rw [idle]; rfl) rfl rfl
      (fun y => ?_) rfl (alike_update ⟨rfl, rfl⟩)⟩
    rw [queue, erase_cons_head]
    exact queue_setBulkhead reg rfl

end FoundationLang.Resiliency
