/-
**What the bulkheads did, in order.**
-/

import FoundationLang.Resiliency.Admission
import Mathlib.Algebra.Order.BigOperators.Group.List
import Mathlib.Algebra.Order.Group.Nat

namespace FoundationLang.Resiliency

open List

open FoundationLang.Library

variable {handle : Handle} {found : Bulkhead} {s after : State} {state : State}

/-! ### Definitions -/

/-- The operation that an event is about. -/
def Event.operation : Event → OperationId
  | .queued _ operation | .granted _ operation | .withdrawn _ operation | .completed operation =>
    operation

/-- How an operation came into a queue or out of it. -/
inductive Turn
  | queued
  | granted
  | withdrawn
deriving DecidableEq, Repr

/-- What an event says about a queue. -/
def Event.turn : Event → Option (Turn × Handle × OperationId)
  | .queued handle operation => some (.queued, handle, operation)
  | .granted handle operation => some (.granted, handle, operation)
  | .withdrawn handle operation => some (.withdrawn, handle, operation)
  | .completed _ => none

/-- The operation of an event of one kind at one bulkhead. -/
def Event.at (kind : Turn) (handle : Handle) (event : Event) : Option OperationId :=
  event.turn.bind fun turn => if turn.1 = kind ∧ turn.2.1 = handle then some turn.2.2 else none

/-- The operations of the events of one kind at one queue. -/
def turns (kind : Turn) (handle : Handle) (trace : List Event) : List OperationId :=
  trace.filterMap (Event.at kind handle)

/-- The operations that came to wait for a bulkhead. -/
def arrivals (handle : Handle) (trace : List Event) : List OperationId :=
  turns .queued handle trace

/-- The operations that were handed a permit of a bulkhead. -/
def grants (handle : Handle) (trace : List Event) : List OperationId :=
  turns .granted handle trace

/-- The operations that were cancelled while they waited for a bulkhead. -/
def withdrawals (handle : Handle) (trace : List Event) : List OperationId :=
  turns .withdrawn handle trace

/-- **The queues are first come, first served, and completions happen once.** -/
structure Traced (state : State) : Prop where
  order : ∀ handle, InOrder (arrivals handle state.trace) (withdrawals handle state.trace)
    (grants handle state.trace) (state.queue handle)
  known : ∀ event ∈ state.trace, event.operation < state.operations
  completions : ∀ id,
    state.trace.count (.completed id) = if (state.operation id).completed then 1 else 0

/-- The count of all waiters is the sum of the queues. -/
def Counted (state : State) : Prop :=
  state.waiterCount = (state.bulkheads.map (·.queued)).sum

/-! ### Order -/

section

variable {s after : State} {event : Event} {kind : Turn}

theorem Event.operation_of_at {id : OperationId}
    (there : event.at kind handle = some id) : event.operation = id := by
  unfold Event.at Event.turn at there
  cases event with
  | completed => cases there
  | queued | granted | withdrawn =>
    simp only [Option.bind_some] at there
    split at there
    · cases there
      rfl
    · cases there

theorem Traced.made (traced : Traced s) {id : OperationId}
    (mem : id ∈ turns kind handle s.trace) : id < s.operations := by
  obtain ⟨event, mem, there⟩ := mem_filterMap.1 mem
  rw [← Event.operation_of_at there]
  exact traced.known event mem

theorem turns_append {trace : List Event} :
    turns kind handle (trace ++ [event]) =
      turns kind handle trace ++ (event.at kind handle).toList := by
  unfold turns
  rw [filterMap_append]
  cases there : event.at kind handle <;> simp [there]

theorem Traced.same (traced : Traced s) (trace : after.trace = s.trace)
    (queue : ∀ handle, after.queue handle = s.queue handle)
    (operations : s.operations ≤ after.operations)
    (completed : ∀ id, (after.operation id).completed = (s.operation id).completed) :
    Traced after := by
  refine ⟨fun handle => ?_, fun event mem => ?_, fun id => ?_⟩
  · rw [trace, queue]
    exact traced.order handle
  · rw [trace] at mem
    exact Nat.lt_of_lt_of_le (traced.known event mem) operations
  · rw [trace, completed]
    exact traced.completions id

theorem Traced.record (traced : Traced s) {waiters : List OperationId}
    (trace : after.trace = s.trace ++ [event])
    (queue : ∀ y, after.queue y = if y = handle then waiters else s.queue y)
    (elsewhere : ∀ kind y, y ≠ handle → event.at kind y = none)
    (here : InOrder (arrivals handle s.trace ++ (event.at .queued handle).toList)
      (withdrawals handle s.trace ++ (event.at .withdrawn handle).toList)
      (grants handle s.trace ++ (event.at .granted handle).toList) waiters)
    (known : event.operation < after.operations) (operations : s.operations ≤ after.operations)
    (silent : ∀ id, event ≠ .completed id)
    (completed : ∀ id, (after.operation id).completed = (s.operation id).completed) :
    Traced after := by
  refine ⟨fun y => ?_, fun y mem => ?_, fun id => ?_⟩
  · have ordered := traced.order y
    unfold arrivals grants withdrawals at ordered here ⊢
    rw [trace, turns_append, turns_append, turns_append, queue]
    split
    · rename_i same
      rw [same]
      exact here
    · rename_i apart
      simpa [elsewhere _ y apart] using ordered
  · rw [trace, mem_append, mem_singleton] at mem
    rcases mem with mem | rfl
    · exact Nat.lt_of_lt_of_le (traced.known y mem) operations
    · exact known
  · rw [trace, count_append, count_singleton, completed, traced.completions id]
    simp [silent id]

theorem Traced.complete (traced : Traced s) {id : OperationId} (made : id < s.operations)
    (trace : after.trace = s.trace ++ [.completed id])
    (queue : ∀ handle, after.queue handle = s.queue handle)
    (operations : after.operations = s.operations)
    (uncompleted : (s.operation id).completed = false)
    (completed : (after.operation id).completed = true)
    (others : ∀ y, y ≠ id →
      (after.operation y).completed = (s.operation y).completed) : Traced after := by
  refine ⟨fun handle => ?_, fun event mem => ?_, fun y => ?_⟩
  · have ordered := traced.order handle
    unfold arrivals grants withdrawals at ordered ⊢
    rw [trace, queue, turns_append, turns_append, turns_append]
    simpa [Event.at, Event.turn] using ordered
  · rw [operations]
    rw [trace, mem_append, mem_singleton] at mem
    rcases mem with mem | rfl
    · exact traced.known event mem
    · exact made
  · rw [trace, count_append, traced.completions y, count_singleton]
    by_cases here : y = id
    · rw [here, uncompleted, completed]
      simp
    · rw [others y here]
      simp [Ne.symm here]

end

/-! ### The changes -/

theorem GivenBack.queue {other : Handle}
    (back : GivenBack handle s after) : after.queue other = s.queue other := by
  cases back with
  | none => rfl
  | kept reg => exact queue_setBulkhead_same reg rfl rfl
  | destroyed reg last still short empty => exact queue_remove reg empty

theorem completed_enter {place : OperationId → Place} {thread : ThreadId}
    (located : Located state place) (id : OperationId) :
    ((entering thread handle state).operation id).completed =
      (state.operation id).completed := by
  by_cases new : id = state.operations
  · rw [new, operation_enter, (located.unmade (Nat.le_refl _)).2.2]
  · exact (alike_enter state id new).1

/-- **Every change keeps the order.** -/
theorem Change.traced {label : Label} {place : OperationId → Place}
    (listed : Listed s) (located : Located s place) (disciplined : Disciplined s)
    (traced : Traced s) (change : Change label s after) : Traced after := by
  cases change with
  | none => exact traced
  | opened valid free =>
    exact traced.same rfl (fun y => queue_insert free rfl) (Nat.le_refl _) fun _ => rfl
  | retained reg =>
    refine traced.same rfl (fun y => ?_) (Nat.le_refl _) fun _ => rfl
    exact queue_setBulkhead_same reg rfl rfl
  | dropped owned back =>
    obtain ⟨operations, operation, -, -, trace, -⟩ := back.unchanged
    exact traced.same trace (fun _ => back.queue) (Nat.le_of_eq operations.symm) fun id => by
      rw [operation]
      rfl
  | @discarded id _ made spent back =>
    obtain ⟨operations, operation, -, -, trace, -⟩ := back.unchanged
    refine traced.same trace (fun _ => back.queue) (Nat.le_of_eq operations.symm) fun y => ?_
    rw [operation]
    refine (alike_update ?_ y).1
    exact ⟨rfl, rfl⟩
  | unregistered | refused =>
    exact traced.same rfl (fun _ => rfl) (Nat.le_succ _) (completed_enter located)
  | admitted idle owned reg =>
    refine traced.same rfl (fun y => ?_) (Nat.le_succ _) (completed_enter located)
    exact queue_setBulkhead_same reg rfl rfl
  | @queued thread handle found idle owned reg =>
    have unmade : ∀ kind, s.operations ∉ turns kind handle s.trace :=
      fun kind mem => Nat.lt_irrefl _ (traced.made mem)
    have arrived := (traced.order handle).arrive (unmade .queued) (unmade .withdrawn)
    rw [queue_of_bulkhead reg] at arrived
    refine traced.record rfl (fun y => queue_setBulkhead reg ?_)
      (fun kind y apart => ?_) ?_ (Nat.lt_succ_self _) (Nat.le_succ _) (by rintro _ ⟨⟩)
      (completed_enter located)
    · rfl
    · simp [Event.at, Event.turn, Ne.symm apart]
    · simpa [Event.at, Event.turn] using arrived
  | @completed thread id status flies =>
    obtain ⟨⟨made, -⟩, uncompleted⟩ := located.pending disciplined flies
    refine traced.complete made rfl (fun _ => rfl) rfl uncompleted ?_ fun y elsewhere => ?_
    · rw [State.record_operation, State.setOperation_operation, Function.update_self]
    · rw [State.record_operation, State.setOperation_operation, Function.update_of_ne elsewhere]
      rfl
  | requested | resumed =>
    refine traced.same rfl (fun _ => rfl) (Nat.le_refl _) fun y => ?_
    refine (alike_update ?_ y).1
    exact ⟨rfl, rfl⟩
  | rested => exact traced.same rfl (fun _ => rfl) (Nat.le_refl _) fun _ => rfl
  | @withdrawn thread id found calls search =>
    obtain ⟨reg, waits⟩ := bulkhead_of_search listed search
    have ordered := traced.order found.handle
    rw [queue_of_bulkhead reg] at ordered
    have made : id < s.operations := traced.made
      (ordered.mem_arrived (mem_append_right _ waits))
    have left := ordered.withdraw waits
    refine traced.record rfl (fun y => queue_setBulkhead reg ?_)
      (fun kind y apart => ?_) ?_ made (Nat.le_refl _) (by rintro _ ⟨⟩) fun _ => rfl
    · rfl
    · simp [Event.at, Event.turn, Ne.symm apart]
    · simpa [Event.at, Event.turn] using left
  | released made returned admitted reg =>
    refine traced.same rfl (fun y => ?_) (Nat.le_refl _) fun y => ?_
    · exact queue_setBulkhead_same reg rfl rfl
    · refine (alike_update ?_ y).1
      exact ⟨rfl, rfl⟩
  | @granted thread id waiter rest found releases idle made returned admitted reg x =>
    have ordered := traced.order (s.operation id).handle
    rw [queue_of_bulkhead reg, x] at ordered
    have known : waiter < s.operations := traced.made
      (ordered.mem_arrived (mem_append_right _ mem_cons_self))
    have served := ordered.serve
    refine traced.record rfl (fun y => queue_setBulkhead reg ?_)
      (fun kind y apart => ?_) ?_ known (Nat.le_refl _) (by rintro _ ⟨⟩) fun y => ?_
    · rfl
    · simp [Event.at, Event.turn, Ne.symm apart]
    · simpa [Event.at, Event.turn] using served
    · refine (alike_update ?_ y).1
      exact ⟨rfl, rfl⟩

/-! ### The count of all waiters -/

theorem sum_queued_setBulkhead {bulkheads : List Bulkhead} {record : Bulkhead}
    (distinct : (bulkheads.map (·.handle)).Nodup) (mem : found ∈ bulkheads)
    (named : record.handle = found.handle) :
    ((bulkheads.map fun old => if old.handle = record.handle then record else old).map
        (·.queued)).sum + found.queued = (bulkheads.map (·.queued)).sum + record.queued := by
  induction bulkheads with
  | nil => cases mem
  | cons x rest ih =>
    rw [map_cons, nodup_cons] at distinct
    simp only [map_cons, sum_cons]
    rcases mem_cons.1 mem with rfl | later
    · have others : (rest.map fun old => if old.handle = record.handle then record else old)
          = rest := by
        refine (map_congr_left fun old inside => ?_).trans (map_id rest)
        rw [if_neg]
        · rfl
        · intro same
          exact distinct.1 (named ▸ same ▸ mem_map_of_mem inside)
      rw [others, if_pos named.symm]
      omega
    · have apart : x.handle ≠ record.handle := by
        intro same
        exact distinct.1 (same ▸ named ▸ mem_map_of_mem later)
      have sums := ih distinct.2 later
      rw [if_neg apart]
      omega

theorem sum_queued_remove {bulkheads : List Bulkhead} (mem : found ∈ bulkheads)
    (distinct : (bulkheads.map (·.handle)).Nodup) (short : found.queued = 0) :
    ((bulkheads.filter (·.handle ≠ found.handle)).map (·.queued)).sum =
      (bulkheads.map (·.queued)).sum := by
  induction bulkheads with
  | nil => rfl
  | cons x rest ih =>
    rw [map_cons, nodup_cons] at distinct
    rcases mem_cons.1 mem with rfl | later
    · have others : rest.filter (·.handle ≠ found.handle) = rest := by
        refine filter_eq_self.2 fun old inside => ?_
        simp only [ne_eq, decide_eq_true_eq]
        intro same
        exact distinct.1 (same ▸ mem_map_of_mem inside)
      rw [filter_cons_of_neg (by simp), others, map_cons, sum_cons, short, Nat.zero_add]
    · have apart : x.handle ≠ found.handle := by
        intro same
        exact distinct.1 (same ▸ mem_map_of_mem later)
      rw [filter_cons_of_pos (by simpa using apart), map_cons, sum_cons,
        map_cons, sum_cons, ih later distinct.2]

theorem Counted.change {record : Bulkhead} (counted : Counted s)
    (listed : Listed s) (reg : s.bulkhead handle = some found)
    (bulkheads : after.bulkheads = (s.setBulkhead record).bulkheads)
    (named : record.handle = found.handle)
    (count : after.waiterCount + found.queued = s.waiterCount + record.queued) :
    Counted after := by
  have sums := sum_queued_setBulkhead listed.distinct (mem_of_find?_eq_some reg) named
  unfold Counted at counted ⊢
  rw [bulkheads, State.setBulkhead_bulkheads]
  omega

theorem Counted.le (counted : Counted state)
    (reg : state.bulkhead handle = some found) : found.queued ≤ state.waiterCount := by
  rw [counted]
  exact le_sum_of_mem (mem_map_of_mem (mem_of_find?_eq_some reg))

theorem Guarded.queued_pos {id : OperationId} (guarded : Guarded state)
    (reg : state.bulkhead handle = some found) (waits : id ∈ found.waiters) :
    0 < found.queued := by
  obtain ⟨_, keeps, -⟩ := guarded handle found reg
  rw [← keeps.queued, keeps.waiting]
  exact length_pos_of_mem waits

theorem GivenBack.counted (counted : Counted s) (listed : Listed s)
    (back : GivenBack handle s after) : Counted after := by
  cases back with
  | none => exact counted
  | kept reg => exact counted.change listed reg rfl rfl rfl
  | @destroyed found reg last still short =>
    have named := handle_of_bulkhead reg
    subst named
    unfold Counted
    rw [State.remove_bulkheads,
      sum_queued_remove (mem_of_find?_eq_some reg) listed.distinct short]
    exact counted

/-- **Every change keeps the count.** The count and the queue of a bulkhead do not run below 0. -/
theorem Change.counted {label : Label} (listed : Listed s)
    (guarded : Guarded s) (counted : Counted s) (change : Change label s after) :
    Counted after := by
  cases change with
  | none | unregistered | refused | completed | requested | rested | resumed => exact counted
  | opened =>
    unfold Counted at counted ⊢
    rw [State.insert_bulkheads, map_cons, sum_cons, Nat.zero_add]
    exact counted
  | retained reg | admitted idle owned reg => exact counted.change listed reg rfl rfl rfl
  | dropped owned back | discarded made spent back =>
    refine back.counted ?_ ?_
    · exact counted
    · exact ⟨listed.distinct, listed.nonzero, listed.counted⟩
  | queued idle owned reg =>
    refine counted.change listed reg rfl rfl ?_
    exact Nat.add_right_comm _ _ _
  | @withdrawn thread id found calls search =>
    obtain ⟨reg, waits⟩ := bulkhead_of_search listed search
    have pos := guarded.queued_pos reg waits
    have le := counted.le reg
    refine counted.change listed reg rfl rfl ?_
    change s.waiterCount - 1 + found.queued = s.waiterCount + (found.queued - 1)
    omega
  | released made returned admitted reg =>
    exact counted.change listed reg rfl rfl rfl
  | @granted thread id waiter rest found releases idle made returned admitted reg x =>
    have pos := guarded.queued_pos reg (x ▸ mem_cons_self)
    have le := counted.le reg
    refine counted.change listed reg rfl rfl ?_
    change s.waiterCount - 1 + found.queued = s.waiterCount + (found.queued - 1)
    omega

end FoundationLang.Resiliency
