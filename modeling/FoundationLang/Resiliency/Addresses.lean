/-
**The registered bulkheads and their queues.**
-/

import FoundationLang.Resiliency.Changes
import Mathlib.Data.List.Nodup

namespace FoundationLang.Resiliency

open List

open FoundationLang.Library

variable {found r : Bulkhead} {handle : Handle} {state : State} {s after : State}

/-- The operations that wait for the bulkhead with a handle. -/
def State.queue (state : State) (handle : Handle) : List OperationId :=
  match state.bulkhead handle with
  | some found => found.waiters
  | none => []

/-- The bulkheads that are registered have addresses of their own. -/
structure Listed (state : State) : Prop where
  distinct : (state.bulkheads.map (·.handle)).Nodup
  nonzero : ∀ found ∈ state.bulkheads, found.handle ≠ 0
  counted : state.bulkheadCount = state.bulkheads.length

/-! ### Queues -/

section

variable {other : Handle}

section

variable (reg : state.bulkhead handle = some found)
include reg

theorem queue_of_bulkhead :
    state.queue handle = found.waiters := by
  rw [State.queue, reg]

theorem queue_setBulkhead
    (named : r.handle = found.handle) :
    (state.setBulkhead r).queue other =
      if other = handle then r.waiters else state.queue other := by
  unfold State.queue
  rw [bulkhead_setBulkhead, named, handle_of_bulkhead reg]
  by_cases here : other = handle
  · rw [if_pos here, if_pos here, here, reg]
    rfl
  · rw [if_neg here, if_neg here]

theorem queue_setBulkhead_same
    (named : r.handle = found.handle) (same : r.waiters = found.waiters) :
    (state.setBulkhead r).queue other = state.queue other := by
  rw [queue_setBulkhead reg named]
  split
  · rename_i here
    rw [same, here, queue_of_bulkhead reg]
  · rfl

end

theorem queue_insert (free : state.bulkhead r.handle = none) (empty : r.waiters = []) :
    (state.insert r).queue other = state.queue other := by
  unfold State.queue
  rw [bulkhead_insert]
  by_cases here : r.handle = other
  · rw [if_pos here, ← here, free]
    exact empty
  · rw [if_neg here]

theorem queue_remove (reg : state.bulkhead handle = some found) (empty : found.waiters = []) :
    (state.remove handle).queue other = state.queue other := by
  unfold State.queue
  rw [bulkhead_remove]
  by_cases here : other = handle
  · rw [if_pos here, here, reg]
    exact empty.symm
  · rw [if_neg here]

end

theorem bulkhead_of_search {id : OperationId} (listed : Listed state)
    (search : state.bulkheads.find? (id ∈ ·.waiters) = some found) :
    state.bulkhead found.handle = some found ∧ id ∈ found.waiters := by
  have mem : found ∈ state.bulkheads := mem_of_find?_eq_some search
  refine ⟨?_, by simpa using List.find?_some search⟩
  obtain ⟨first, reg⟩ : ∃ first, state.bulkhead found.handle = some first := by
    refine Option.isSome_iff_exists.1 (List.find?_isSome.2 ⟨found, mem, ?_⟩)
    simp
  have same : first = found :=
    inj_on_of_nodup_map listed.distinct (mem_of_find?_eq_some reg) mem
      (handle_of_bulkhead reg)
  rw [reg, same]

/-! ### Addresses -/

theorem Listed.setBulkhead (listed : Listed state) (reg : state.bulkhead handle = some found)
    (named : r.handle = found.handle) : Listed (state.setBulkhead r) where
  distinct := by
    have same : (state.setBulkhead r).bulkheads.map (·.handle)
        = state.bulkheads.map (·.handle) := by
      rw [State.setBulkhead_bulkheads, map_map]
      refine map_congr_left fun found _ => ?_
      simp only [Function.comp_apply]
      split
      · rename_i named
        exact named.symm
      · rfl
    rw [same]
    exact listed.distinct
  nonzero old member := by
    rw [State.setBulkhead_bulkheads, mem_map] at member
    obtain ⟨old, member, rfl⟩ := member
    split
    · rw [named]
      exact listed.nonzero found (mem_of_find?_eq_some reg)
    · exact listed.nonzero old member
  counted := by
    rw [State.setBulkhead_bulkheads, length_map]
    exact listed.counted

theorem Listed.change (listed : Listed s)
    (reg : s.bulkhead handle = some found)
    (bulkheads : after.bulkheads = (s.setBulkhead r).bulkheads)
    (named : r.handle = found.handle) (counted : after.bulkheadCount = s.bulkheadCount) :
    Listed after := by
  have changed := listed.setBulkhead reg named
  refine ⟨?_, ?_, ?_⟩
  · rw [bulkheads]
    exact changed.distinct
  · rw [bulkheads]
    exact changed.nonzero
  · rw [bulkheads, counted]
    exact changed.counted

theorem Listed.insert (listed : Listed state) (nonzero : r.handle ≠ 0)
    (free : state.bulkhead r.handle = none) :
    Listed (state.insert r) where
  distinct := by
    rw [State.insert_bulkheads, map_cons, nodup_cons]
    refine ⟨fun member => ?_, listed.distinct⟩
    obtain ⟨old, member, named⟩ := mem_map.1 member
    have distinguished := List.find?_eq_none.1 free old member
    simp [named] at distinguished
  nonzero found member := by
    rw [State.insert_bulkheads, mem_cons] at member
    rcases member with rfl | member
    · exact nonzero
    · exact listed.nonzero found member
  counted := by
    rw [State.insert_bulkheads, length_cons, ← listed.counted]
    rfl

theorem Listed.remove (listed : Listed state) (reg : state.bulkhead handle = some found) :
    Listed (state.remove handle) where
  distinct := listed.distinct.sublist (filter_sublist.map _)
  nonzero old member := listed.nonzero old (mem_of_mem_filter member)
  counted := by
    have member := mem_map_of_mem (f := (·.handle)) (mem_of_find?_eq_some reg)
    rw [handle_of_bulkhead reg] at member
    have one : state.bulkheads.countP (·.handle = handle) = 1 := by
      have counted := count_eq_one_of_mem listed.distinct member
      rw [count_eq_countP, countP_map] at counted
      rw [← counted]
      exact countP_congr fun old _ => by simp
    have all := length_eq_countP_add_countP (fun old : Bulkhead => decide (old.handle = handle))
      (l := state.bulkheads)
    rw [State.remove_bulkheads, State.remove_bulkheadCount, listed.counted, all, one,
      countP_eq_length_filter]
    simp

theorem GivenBack.listed (listed : Listed s)
    (back : GivenBack handle s after) : Listed after := by
  cases back with
  | none => exact listed
  | kept reg => exact listed.setBulkhead reg rfl
  | destroyed reg => exact listed.remove reg

/-- The addresses stay apart. -/
theorem Change.listed {label : Label} (listed : Listed s)
    (change : Change label s after) : Listed after := by
  have ⟨distinct, nonzero, counted⟩ := listed
  cases change with
  | @opened handle maxConcurrent maxQueue valid free =>
    have owned : Listed (s.setOwners handle 1) := ⟨distinct, nonzero, counted⟩
    exact owned.insert valid free
  | retained reg | admitted idle owned reg | queued idle owned reg => exact listed.change reg rfl rfl rfl
  | dropped owned back | discarded made spent back =>
    refine back.listed ?_
    exact ⟨distinct, nonzero, counted⟩
  | none | unregistered | refused | completed | requested | rested | resumed =>
    exact ⟨distinct, nonzero, counted⟩
  | withdrawn calls search =>
    exact listed.change (bulkhead_of_search listed search).1 rfl rfl rfl
  | released made returned admitted reg
  | granted releases idle made returned admitted reg =>
    exact listed.change reg rfl rfl rfl

end FoundationLang.Resiliency
