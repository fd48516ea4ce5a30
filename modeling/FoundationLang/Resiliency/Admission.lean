/-
**Permits and gates.**

Every registered bulkhead is a gate: its counters and its list are those of a gate whose holders are
the operations with an outstanding permit.

* `Holds`, `Outstanding` — the permit of an operation is on its way to its task, or the program
  owns it.
-/

import FoundationLang.Library.Gate
import FoundationLang.Resiliency.Discipline
import Mathlib.Data.Finset.Range

namespace FoundationLang.Resiliency

open Function

open FoundationLang.Library

variable {handle : Handle} {s after : State} {found r : Bulkhead} {state : State}

/-! ### Definitions -/

/-- The operation was completed with a permit that was not released yet. -/
def Operation.Granted (operation : Operation) : Prop :=
  operation.completed = true ∧ operation.status = .admitted
    ∧ (operation.stage = .pending ∨ operation.stage = .returned)

/-- The operation has a permit: a thread is about to complete it with one, or it was completed with
one that was not released yet. -/
def State.Holds (state : State) (id : OperationId) : Prop :=
  (∃ thread, (state.activity thread).completes = some (id, .admitted))
    ∨ (state.operation id).Granted

/-- The operation has a permit of the bulkhead with a handle. -/
def State.Outstanding (state : State) (handle : Handle) (id : OperationId) : Prop :=
  (state.operation id).handle = handle ∧ state.Holds id

/-- **The fields of a bulkhead are those of a gate.** -/
structure Bulkhead.Keeps (bulkhead : Bulkhead) (gate : Gate OperationId) : Prop where
  capacity : gate.capacity = bulkhead.maxConcurrent
  limit : gate.limit = bulkhead.maxQueue
  waiting : gate.waiting = bulkhead.waiters
  running : gate.holders.card = bulkhead.running
  queued : gate.waiting.length = bulkhead.queued

/-- There is a gate for the bulkhead with a handle, and the operations with an outstanding permit
are its holders. -/
def GuardedAt (state : State) (handle : Handle) : Prop :=
  ∀ found, state.bulkhead handle = some found → ∃ gate : Gate OperationId,
    found.Keeps gate ∧ ∀ id, id ∈ gate.holders ↔ state.Outstanding handle id

/-- **Every registered bulkhead is a gate.** -/
def Guarded (state : State) : Prop :=
  ∀ handle, GuardedAt state handle

/-- The operations that use a bulkhead. -/
def State.users (state : State) (handle : Handle) : Finset OperationId :=
  (Finset.range state.operations).filter fun id =>
    (state.operation id).handle = handle ∧ (state.operation id).stage ≠ .finished

/-- The references to a bulkhead. -/
def State.references (state : State) (handle : Handle) : ℕ :=
  match state.bulkhead handle with
  | some found => found.references
  | none => 0

/-- **Every reference has its owner.** -/
def Referenced (state : State) : Prop :=
  ∀ handle, state.references handle = state.owners handle + (state.users handle).card

/-! ### References -/

section

variable {state : State} {other : Handle}
variable {after : State}

theorem mem_users {id : OperationId} :
    id ∈ state.users handle ↔ id < state.operations ∧ (state.operation id).handle = handle
      ∧ (state.operation id).stage ≠ .finished := by
  rw [State.users, Finset.mem_filter, Finset.mem_range]

theorem references_of_bulkhead {found : Bulkhead} (registered : state.bulkhead handle = some found) :
    state.references handle = found.references := by
  rw [State.references, registered]

theorem references_of_none (free : state.bulkhead handle = none) : state.references handle = 0 := by
  rw [State.references, free]

theorem references_setBulkhead
    (registered : state.bulkhead handle = some found) (named : r.handle = found.handle) :
    (state.setBulkhead r).references other =
      if other = handle then r.references else state.references other := by
  unfold State.references
  rw [bulkhead_setBulkhead, named, handle_of_bulkhead registered]
  by_cases here : other = handle
  · rw [if_pos here, if_pos here, here, registered]
    rfl
  · rw [if_neg here, if_neg here]

section

variable (referenced : Referenced state)
include referenced

theorem Referenced.unused (free : state.bulkhead handle = none) :
    state.owners handle = 0 ∧ state.users handle = ∅ := by
  have none := referenced handle
  rw [references_of_none free] at none
  exact ⟨by omega, Finset.card_eq_zero.1 (by omega)⟩

theorem Referenced.registered {id : OperationId}
    (made : id < state.operations) (used : (state.operation id).stage ≠ .finished) :
    ∃ found, state.bulkhead (state.operation id).handle = some found := by
  cases registered : state.bulkhead (state.operation id).handle with
  | some found => exact ⟨found, rfl⟩
  | none =>
    have mem := mem_users.2 ⟨made, rfl, used⟩
    rw [(referenced.unused registered).2] at mem
    exact absurd mem (Finset.notMem_empty id)

theorem Referenced.same
    (references : ∀ handle, after.references handle = state.references handle)
    (owners : after.owners = state.owners)
    (users : ∀ handle, after.users handle = state.users handle) : Referenced after := by
  intro handle
  rw [references, owners, users]
  exact referenced handle

theorem Referenced.change (handle : Handle)
    (others : ∀ other, other ≠ handle → after.references other = state.references other
      ∧ after.owners other = state.owners other ∧ after.users other = state.users other)
    (here : after.references handle = after.owners handle + (after.users handle).card) :
    Referenced after := by
  intro other
  by_cases same : other = handle
  · rw [same]
    exact here
  · obtain ⟨references, owners, users⟩ := others other same
    rw [references, owners, users]
    exact referenced other

end

theorem users_update {id : OperationId} {op : Operation}
    (home : op.handle = (state.operation id).handle)
    (used : op.stage ≠ .finished ↔ (state.operation id).stage ≠ .finished) :
    (state.setOperation id op).users handle = state.users handle := by
  ext one
  rw [mem_users, mem_users, State.setOperation_operation, update_apply,
    State.setOperation_operations]
  split
  · rename_i here
    rw [home, used, here]
  · rfl

theorem users_same (operations : after.operations = state.operations)
    (operation : after.operation = state.operation) : after.users handle = state.users handle := by
  rw [State.users, State.users, operations, operation]

/-- A new operation uses its bulkhead. -/
theorem users_enter (thread : ThreadId) :
    (entering thread handle state).users other =
      if other = handle then insert state.operations (state.users handle)
      else state.users other := by
  ext id
  rw [mem_users]
  by_cases new : id = state.operations
  · rw [new, operation_enter]
    split
    · rename_i here
      simp [here, entering]
    · rename_i elsewhere
      simp [mem_users, Ne.symm elsewhere]
  · rw [entering, State.setOwners_operation, makeOperation_operation, State.setOperation_operation,
      update_of_ne new, State.setOwners_operations, makeOperation_operations]
    have old : id < state.operations + 1 ↔ id < state.operations :=
      ⟨fun made => Nat.lt_of_le_of_ne (Nat.le_of_lt_succ made) new, Nat.lt_succ_of_lt⟩
    rw [old, ← mem_users]
    split
    · rename_i here
      rw [Finset.mem_insert, or_iff_right new, here]
    · rfl

theorem users_finish (id : OperationId) :
    (state.setOperation id { state.operation id with stage := .finished }).users other =
      if other = (state.operation id).handle then (state.users other).erase id
      else state.users other := by
  ext one
  rw [mem_users, State.setOperation_operation, update_apply]
  by_cases here : one = id
  · rw [if_pos here, here]
    split
    · simp
    · rename_i elsewhere
      simp [mem_users, Ne.symm elsewhere]
  · rw [if_neg here, State.setOperation_operations, ← mem_users]
    split
    · rw [Finset.mem_erase, and_iff_right here]
    · rfl

theorem GivenBack.references (back : GivenBack handle state after) (nonzero : handle ≠ 0) :
    after.references handle + 1 = state.references handle
      ∧ ∀ other, other ≠ handle → after.references other = state.references other := by
  cases back with
  | none zero => exact absurd zero nonzero
  | @kept found registered more =>
    have changed : ∀ other, (state.setBulkhead
        { found with references := found.references - 1 }).references other =
        if other = handle then found.references - 1 else state.references other :=
      fun other => references_setBulkhead registered rfl
    refine ⟨?_, fun other elsewhere => ?_⟩
    · rw [changed, if_pos rfl, references_of_bulkhead registered]
      exact Nat.sub_add_cancel (Nat.le_of_lt more)
    · rw [changed, if_neg elsewhere]
  | @destroyed found registered last =>
    refine ⟨?_, fun other elsewhere => ?_⟩
    · rw [references_of_none (by simp), references_of_bulkhead registered, last]
    · unfold State.references
      rw [bulkhead_remove, if_neg elsewhere]

theorem GivenBack.unchanged (back : GivenBack handle state after) :
    after.operations = state.operations ∧ after.operation = state.operation
      ∧ after.owners = state.owners ∧ after.activity = state.activity
      ∧ after.trace = state.trace ∧ after.waiterCount = state.waiterCount := by
  cases back with
  | none | kept | destroyed => exact ⟨rfl, rfl, rfl, rfl, rfl, rfl⟩

end

theorem Listed.nonzero_of_references (listed : Listed state)
    (referred : 0 < state.references handle) : handle ≠ 0 := by
  cases registered : state.bulkhead handle with
  | none =>
    rw [references_of_none registered] at referred
    exact absurd referred (Nat.lt_irrefl 0)
  | some found =>
    rw [← handle_of_bulkhead registered]
    exact listed.nonzero found (List.mem_of_find?_eq_some registered)

theorem references_setBulkhead_same {other : Handle}
    (registered : state.bulkhead handle = some found) (named : r.handle = found.handle)
    (same : r.references = found.references) :
    (state.setBulkhead r).references other = state.references other := by
  rw [references_setBulkhead registered named]
  split
  · rename_i here
    rw [same, here, references_of_bulkhead registered]
  · rfl

theorem Referenced.enter {thread : ThreadId} (referenced : Referenced s)
    (owned : 0 < s.owners handle)
    (references : ∀ other, after.references other = s.references other)
    (owners : after.owners = (entering thread handle s).owners)
    (operations : after.operations = (entering thread handle s).operations)
    (operation : after.operation = (entering thread handle s).operation) :
    Referenced after := by
  have users : ∀ other, after.users other = (entering thread handle s).users other :=
    fun other => users_same operations operation
  have fresh : s.operations ∉ s.users handle := fun mem =>
    absurd (mem_users.1 mem).1 (Nat.lt_irrefl _)
  have owner : (entering thread handle s).owners =
      update s.owners handle (s.owners handle - 1) := rfl
  refine referenced.change handle (fun other elsewhere => ⟨references other, ?_, ?_⟩) ?_
  · rw [owners, owner, update_of_ne elsewhere]
  · rw [users, users_enter, if_neg elsewhere]
  · rw [references, referenced handle, owners, owner, update_self, users, users_enter,
      if_pos rfl, Finset.card_insert_of_notMem fresh]
    omega

/-- **Every reference keeps its owner.** -/
theorem Change.referenced {label : Label} (listed : Listed s)
    (referenced : Referenced s) (change : Change label s after) : Referenced after := by
  cases change with
  | none | rested => exact referenced
  | @opened handle maxConcurrent maxQueue valid free =>
    obtain ⟨owners, users⟩ := referenced.unused free
    refine referenced.change handle (fun other elsewhere => ⟨?_, ?_, ?_⟩) ?_
    · unfold State.references
      rw [bulkhead_insert, if_neg (Ne.symm elsewhere), bulkhead_setOwners]
    · exact update_of_ne elsewhere _ _
    · exact users_same rfl rfl
    · have same : ((s.setOwners handle 1).insert
          ⟨handle, [], 1, 0, 0, maxConcurrent, maxQueue⟩).users handle = s.users handle :=
        users_same rfl rfl
      unfold State.references
      rw [bulkhead_insert, if_pos rfl, same, users, State.insert_owners, State.setOwners_owners,
        update_self, Finset.card_empty]
  | @retained handle found registered =>
    have changed : ∀ other, ((s.setOwners handle (s.owners handle + 1)).setBulkhead
        { found with references := found.references + 1 }).references other =
        if other = handle then found.references + 1 else s.references other :=
      fun other => references_setBulkhead registered rfl
    refine referenced.change handle (fun other elsewhere => ⟨?_, ?_, ?_⟩) ?_
    · rw [changed, if_neg elsewhere]
    · exact update_of_ne elsewhere _ _
    · exact users_same rfl rfl
    · have one := referenced handle
      rw [references_of_bulkhead registered] at one
      have owners : ((s.setOwners handle (s.owners handle + 1)).setBulkhead
          { found with references := found.references + 1 }).owners handle =
          s.owners handle + 1 := update_self _ _ _
      rw [changed, if_pos rfl, owners, one]
      exact Nat.add_right_comm _ _ _
  | @dropped handle _ owned back =>
    have referred : 0 < s.references handle := by
      rw [referenced handle]
      exact Nat.add_pos_left owned _
    obtain ⟨fewer, others⟩ := back.references (listed.nonzero_of_references referred)
    obtain ⟨operations, operation, owners, -, -, -⟩ := back.unchanged
    refine referenced.change handle (fun other elsewhere => ⟨others other elsewhere, ?_,
      users_same operations operation⟩) ?_
    · rw [owners]
      exact update_of_ne elsewhere _ _
    · have users : after.users handle = s.users handle := users_same operations operation
      have all : s.references handle = _ := referenced handle
      rw [owners, users, State.setOwners_owners, update_self]
      change after.references handle + 1 = s.references handle at fewer
      omega
  | @discarded id _ made spent back =>
    have used : (s.operation id).stage ≠ .finished := by
      rcases spent with released | ⟨returned, -⟩
      · rw [released]
        rintro ⟨⟩
      · rw [returned]
        rintro ⟨⟩
    have mem : id ∈ s.users (s.operation id).handle := mem_users.2 ⟨made, rfl, used⟩
    have all := referenced (s.operation id).handle
    have referred : 0 < s.references (s.operation id).handle := by
      rw [all]
      exact Nat.add_pos_right _ (Finset.card_pos.2 ⟨id, mem⟩)
    obtain ⟨fewer, others⟩ := back.references (listed.nonzero_of_references referred)
    obtain ⟨operations, operation, owners, -, -, -⟩ := back.unchanged
    have users : ∀ other, after.users other = _ := fun other => users_same operations operation
    refine referenced.change (s.operation id).handle (fun other elsewhere =>
      ⟨others other elsewhere, by rw [owners]; rfl, ?_⟩) ?_
    · rw [users, users_finish, if_neg elsewhere]
    · have one := Finset.card_erase_add_one mem
      rw [users, users_finish, if_pos rfl, owners]
      change after.references (s.operation id).handle + 1 =
        s.references (s.operation id).handle at fewer
      change _ = s.owners (s.operation id).handle + _
      omega
  | unregistered idle owned =>
    exact referenced.enter owned (fun _ => rfl) rfl rfl rfl
  | admitted idle owned registered | queued idle owned registered =>
    refine referenced.enter owned (fun _ => ?_) rfl rfl rfl
    exact references_setBulkhead_same registered rfl rfl
  | refused idle owned => exact referenced.enter owned (fun _ => rfl) rfl rfl rfl
  | completed | requested =>
    exact referenced.same (fun _ => rfl) rfl fun handle => users_update rfl Iff.rfl
  | @withdrawn thread id found calls search =>
    refine referenced.same (fun _ => ?_) rfl fun handle => users_same rfl rfl
    exact references_setBulkhead_same (bulkhead_of_search listed search).1 rfl rfl
  | @resumed id idle pending =>
    refine referenced.same (fun _ => rfl) rfl fun handle => users_update rfl ?_
    simp [pending.2]
  | released made returned admitted registered
  | @granted thread id waiter rest found releases idle made returned admitted registered =>
    refine referenced.same (fun _ => ?_) rfl fun handle => ?_
    · exact references_setBulkhead_same registered rfl rfl
    · refine (users_same rfl rfl).trans (users_update rfl ?_)
      simp [returned]

/-! ### Permits -/

section

variable {s after : State} {p : OperationId → Place}
variable {id : OperationId} {thread : ThreadId}

theorem flies_setActivity {activity : Activity} {flight : OperationId × Status}
    (free : (s.activity thread).completes = none) :
    (∃ other, ((s.setActivity thread activity).activity other).completes = some flight) ↔
      activity.completes = some flight
        ∨ ∃ other, (s.activity other).completes = some flight := by
  simp only [State.setActivity_activity]
  rw [exists_update_iff s.activity fun _ activity => activity.completes = some flight]
  refine or_congr_right ⟨fun ⟨other, _, flies⟩ => ⟨other, flies⟩, ?_⟩
  rintro ⟨other, flies⟩
  refine ⟨other, ?_, flies⟩
  rintro rfl
  rw [free] at flies
  cases flies

theorem outstanding_same
    (flies : ∀ id, (∃ thread, (after.activity thread).completes = some (id, .admitted)) ↔
      ∃ thread, (s.activity thread).completes = some (id, .admitted))
    (operation : ∀ id, (after.operation id).handle = (s.operation id).handle
      ∧ ((after.operation id).Granted ↔ (s.operation id).Granted))
    (handle : Handle) (id : OperationId) :
    after.Outstanding handle id ↔ s.Outstanding handle id := by
  unfold State.Outstanding State.Holds
  rw [flies, (operation id).1, (operation id).2]

/-- A record of an operation that is changed but for its permit. -/
theorem granted_update {op : Operation}
    (home : op.handle = (s.operation id).handle)
    (granted : op.Granted ↔ (s.operation id).Granted) (other : OperationId) :
    ((s.setOperation id op).operation other).handle = (s.operation other).handle
      ∧ (((s.setOperation id op).operation other).Granted ↔
        (s.operation other).Granted) := by
  rw [State.setOperation_operation, update_apply]
  split
  · rename_i here
    rw [here]
    exact ⟨home, granted⟩
  · exact ⟨rfl, Iff.rfl⟩

section

variable (located : Located s p)
include located

theorem Located.not_holds (unmade : s.operations ≤ id) :
    ¬ s.Holds id := by
  obtain ⟨-, unflown, uncompleted⟩ := located.unmade unmade
  rintro (⟨thread, flies⟩ | ⟨completed, -⟩)
  · exact unflown thread _ flies
  · rw [uncompleted] at completed
    cases completed

theorem Located.used_of_holds (disciplined : Disciplined s)
    (holds : s.Holds id) :
    id < s.operations ∧ (s.operation id).stage ≠ .finished := by
  have made : id < s.operations := by
    by_contra unmade
    exact located.not_holds (Nat.not_lt.1 unmade) holds
  refine ⟨made, ?_⟩
  rcases holds with ⟨_, flies⟩ | ⟨-, -, pending | returned⟩
  · rw [(located.pending disciplined flies).1.2]
    rintro ⟨⟩
  · rw [pending]
    rintro ⟨⟩
  · rw [returned]
    rintro ⟨⟩

theorem outstanding_enter (handle : Handle) (activity : Activity)
    (idle : s.activity thread = .idle)
    (fresh : ∀ id status, activity.completes = some (id, status) → id = s.operations)
    (activities : after.activity = update s.activity thread activity)
    (operation : after.operation = (entering thread handle s).operation) (other : Handle)
    (id : OperationId) :
    after.Outstanding other id ↔ s.Outstanding other id
      ∨ other = handle ∧ id = s.operations ∧ activity.completes = some (id, .admitted) := by
  have flies : (∃ one, (after.activity one).completes = some (id, .admitted)) ↔
      activity.completes = some (id, .admitted)
        ∨ ∃ one, (s.activity one).completes = some (id, .admitted) := by
    rw [activities]
    exact flies_setActivity (by rw [idle]; rfl)
  by_cases new : id = s.operations
  · have unheld := located.not_holds (Nat.le_of_eq new.symm)
    have made : after.operation id = ⟨thread, handle, .admitted, false, false, .pending⟩ := by
      rw [operation, new, operation_enter]
    have unflown : ¬ ∃ one, (s.activity one).completes = some (id, .admitted) :=
      fun flown => unheld (.inl flown)
    rw [or_iff_right fun outstanding : s.Outstanding other id => unheld outstanding.2]
    unfold State.Outstanding State.Holds
    rw [flies, or_iff_left unflown, made, or_iff_left (by rintro ⟨⟨⟩, -⟩), and_iff_right new,
      eq_comm]
  · have old : after.operation id = s.operation id := by
      rw [operation, entering, State.setOwners_operation, makeOperation_operation,
        State.setOperation_operation, update_of_ne new]
    rw [or_iff_left fun entered : _ ∧ _ => new entered.2.1]
    unfold State.Outstanding State.Holds
    rw [flies, old, or_iff_right fun flown => new (fresh id _ flown)]

theorem outstanding_release (disciplined : Disciplined s)
    (returned : (s.operation id).stage = .returned) (handle : Handle) (other : OperationId) :
    (s.setOperation id { s.operation id with stage := .released }).Outstanding handle other
      ↔ s.Outstanding handle other ∧ other ≠ id := by
  unfold State.Outstanding State.Holds
  rw [State.setOperation_operation, update_apply]
  by_cases here : other = id
  · rw [if_pos here, here]
    refine ⟨?_, fun kept => absurd rfl kept.2⟩
    rintro ⟨-, ⟨_, flies⟩ | ⟨-, -, pending | returned⟩⟩
    · have pending := (located.pending disciplined flies).1.2
      rw [returned] at pending
      cases pending
    · cases pending
    · cases returned
  · rw [if_neg here, and_iff_left here]
    rfl

end

theorem outstanding_grant {waiter : OperationId} (free : (s.activity thread).completes = none)
    (handle : Handle) (id : OperationId) :
    (s.setActivity thread (.granting waiter)).Outstanding handle id ↔
      s.Outstanding handle id ∨ (s.operation waiter).handle = handle ∧ id = waiter := by
  have flies : (∃ other, ((s.setActivity thread (.granting waiter)).activity
      other).completes = some (id, .admitted)) ↔
      id = waiter ∨ ∃ other, (s.activity other).completes = some (id, .admitted) := by
    refine (flies_setActivity free).trans (or_congr_left ?_)
    simp [Activity.completes, eq_comm]
  unfold State.Outstanding State.Holds
  rw [flies, State.setActivity_operation]
  constructor
  · rintro ⟨home, (rfl | flown) | granted⟩
    · exact .inr ⟨home, rfl⟩
    · exact .inl ⟨home, .inl flown⟩
    · exact .inl ⟨home, .inr granted⟩
  · rintro (⟨home, flown | granted⟩ | ⟨home, rfl⟩)
    · exact ⟨home, .inl (.inr flown)⟩
    · exact ⟨home, .inr granted⟩
    · exact ⟨home, .inl (.inl rfl)⟩

theorem outstanding_land {status : Status} (located : Located s p)
    (disciplined : Disciplined s)
    (flies : (s.activity thread).completes = some (id, status))
    (activity : after.activity =
      update s.activity thread (s.activity thread).afterwards)
    (operation : after.operation = update s.operation id
      { s.operation id with status := status, completed := true }) (handle : Handle)
    (other : OperationId) : after.Outstanding handle other ↔ s.Outstanding handle other := by
  obtain ⟨⟨-, pending⟩, uncompleted⟩ := located.pending disciplined flies
  have lands : (s.activity thread).afterwards.completes = none := by
    cases s.activity thread <;> rfl
  unfold State.Outstanding State.Holds
  rw [activity, operation]
  by_cases here : other = id
  · have there := (located.flight thread id status).1 flies
    have unflown : ¬ ∃ one, (update s.activity thread
        (s.activity thread).afterwards one).completes = some (id, .admitted) := by
      rintro ⟨one, again⟩
      rw [update_apply] at again
      split at again
      · rw [lands] at again
        cases again
      · rename_i elsewhere
        rw [located.flight, there] at again
        cases again
        exact elsewhere rfl
    have admitted : (∃ one, (s.activity one).completes = some (id, .admitted)) ↔
        status = .admitted := by
      constructor
      · rintro ⟨one, again⟩
        rw [located.flight, there] at again
        cases again
        rfl
      · rintro rfl
        exact ⟨thread, flies⟩
    have ungranted : ¬ (s.operation id).Granted := by
      rintro ⟨completed, -⟩
      rw [uncompleted] at completed
      cases completed
    rw [here, update_self, or_iff_right unflown, admitted, or_iff_left ungranted]
    simp [Operation.Granted, pending]
  · have same : (∃ one, (update s.activity thread
        (s.activity thread).afterwards one).completes = some (other, .admitted)) ↔
        ∃ one, (s.activity one).completes = some (other, .admitted) := by
      refine exists_congr fun one => ?_
      rw [update_apply]
      split
      · rename_i same
        rw [lands, same, flies]
        simp [Ne.symm here]
      · rfl
    rw [update_of_ne here, same]

theorem outstanding_of_returned (disciplined : Disciplined s) (made : id < s.operations)
    (returned : (s.operation id).stage = .returned)
    (admitted : (s.operation id).status = .admitted) :
    s.Outstanding (s.operation id).handle id := by
  refine ⟨rfl, .inr ⟨?_, admitted, .inr returned⟩⟩
  by_contra uncompleted
  have pending := disciplined.pending id made (by simpa using uncompleted)
  rw [returned] at pending
  cases pending

end

/-! ### Gates -/

section

variable {s after : State}

/-- The bulkheads differ in their references only. -/
def Bulkhead.Alike (first second : Bulkhead) : Prop :=
  first.waiters = second.waiters ∧ first.running = second.running ∧ first.queued = second.queued
    ∧ first.maxConcurrent = second.maxConcurrent ∧ first.maxQueue = second.maxQueue

theorem GuardedAt.same (guarded : GuardedAt s handle)
    (bulkhead : ∀ changed, after.bulkhead handle = some changed →
      ∃ found, s.bulkhead handle = some found ∧ changed.Alike found)
    (outstanding : ∀ id, after.Outstanding handle id ↔ s.Outstanding handle id) :
    GuardedAt after handle := by
  intro changed registered
  obtain ⟨found, registered, waiters, running, queued, capacity, limit⟩ := bulkhead changed registered
  obtain ⟨gate, keeps, holders⟩ := guarded found registered
  refine ⟨gate, ⟨?_, ?_, ?_, ?_, ?_⟩, fun id => ?_⟩
  · rw [keeps.capacity, capacity]
  · rw [keeps.limit, limit]
  · rw [keeps.waiting, waiters]
  · rw [keeps.running, running]
  · rw [keeps.queued, queued]
  · rw [holders, outstanding]

theorem alike_setBulkhead {other : Handle}
    (registered : state.bulkhead handle = some found) (named : r.handle = found.handle)
    (alike : r.Alike found) (changed : Bulkhead)
    (there : (state.setBulkhead r).bulkhead other = some changed) :
    ∃ found, state.bulkhead other = some found ∧ changed.Alike found := by
  rw [bulkhead_setBulkhead, named, handle_of_bulkhead registered] at there
  split at there
  · rename_i here
    rw [here, registered] at there
    cases there
    exact ⟨found, here ▸ registered, alike⟩
  · exact ⟨changed, there, rfl, rfl, rfl, rfl, rfl⟩

theorem bulkhead_changed (other : Handle)
    (registered : state.bulkhead handle = some found) (named : r.handle = found.handle) :
    (state.setBulkhead r).bulkhead handle = some r
      ∧ (other ≠ handle → (state.setBulkhead r).bulkhead other = state.bulkhead other) := by
  rw [bulkhead_setBulkhead, named, handle_of_bulkhead registered, if_pos rfl, registered]
  refine ⟨rfl, fun elsewhere => ?_⟩
  rw [bulkhead_setBulkhead, named, handle_of_bulkhead registered, if_neg elsewhere]

theorem Guarded.change (guarded : Guarded s)
    (registered : s.bulkhead handle = some found) (named : r.handle = found.handle)
    (bulkhead : ∀ other, after.bulkhead other = (s.setBulkhead r).bulkhead other)
    (outstanding : ∀ other, other ≠ handle → ∀ id,
      after.Outstanding other id ↔ s.Outstanding other id)
    (here : ∀ gate : Gate OperationId, found.Keeps gate →
      (∀ id, id ∈ gate.holders ↔ s.Outstanding handle id) →
      ∃ gate : Gate OperationId,
        r.Keeps gate ∧ ∀ id, id ∈ gate.holders ↔ after.Outstanding handle id) :
    Guarded after := by
  intro other
  by_cases same : other = handle
  · intro changed there
    rw [same, bulkhead, (bulkhead_changed other registered named).1] at there
    cases there
    obtain ⟨gate, keeps, holders⟩ := guarded handle found registered
    rw [same]
    exact here gate keeps holders
  · refine (guarded other).same (fun changed there => ?_) (outstanding other same)
    rw [bulkhead, (bulkhead_changed other registered named).2 same] at there
    exact ⟨changed, there, rfl, rfl, rfl, rfl, rfl⟩

end

/-! ### The gate of a bulkhead -/

section

variable {bulkhead : Bulkhead} {gate : Gate OperationId} {id : OperationId}

section

variable (keeps : bulkhead.Keeps gate)
include keeps

theorem Bulkhead.Keeps.enter (fresh : id ∉ gate.holders)
    (room : bulkhead.running < bulkhead.maxConcurrent) :
    ∃ next : Gate OperationId, { bulkhead with running := bulkhead.running + 1 }.Keeps next
      ∧ next.holders = insert id gate.holders := by
  rw [← keeps.running, ← keeps.capacity] at room
  have nobody := gate.waiting_eq_nil room
  refine ⟨gate.enter id fresh room, ⟨keeps.capacity, keeps.limit, ?_, ?_, ?_⟩, rfl⟩
  · exact nobody.symm.trans keeps.waiting
  · rw [← keeps.running]
    exact Finset.card_insert_of_notMem fresh
  · rw [← keeps.queued, nobody]
    rfl

theorem Bulkhead.Keeps.queue (outside : id ∉ gate.holders)
    (fresh : id ∉ bulkhead.waiters) (full : bulkhead.maxConcurrent ≤ bulkhead.running)
    (room : bulkhead.queued < bulkhead.maxQueue) :
    ∃ next : Gate OperationId,
      { bulkhead with
        waiters := bulkhead.waiters ++ [id], queued := bulkhead.queued + 1 }.Keeps next
      ∧ next.holders = gate.holders := by
  rw [← keeps.waiting] at fresh
  have filled : gate.holders.card = gate.capacity := by
    have few := gate.few
    have running := keeps.running
    have capacity := keeps.capacity
    omega
  rw [← keeps.queued, ← keeps.limit] at room
  refine ⟨gate.queue id outside fresh filled room, ⟨keeps.capacity, keeps.limit, ?_,
    keeps.running, ?_⟩, rfl⟩
  · rw [← keeps.waiting]
    rfl
  · rw [← keeps.queued]
    exact List.length_append

theorem Bulkhead.Keeps.leave (inside : id ∈ gate.holders)
    (nobody : bulkhead.waiters = []) :
    ∃ next : Gate OperationId, { bulkhead with running := bulkhead.running - 1 }.Keeps next
      ∧ next.holders = gate.holders.erase id := by
  refine ⟨gate.leave id (keeps.waiting.trans nobody), ⟨keeps.capacity, keeps.limit, keeps.waiting,
    ?_, keeps.queued⟩, rfl⟩
  rw [← keeps.running]
  exact Finset.card_erase_of_mem inside

theorem Bulkhead.Keeps.handOver {x : OperationId} {rest : List OperationId} (inside : id ∈ gate.holders)
    (waits : bulkhead.waiters = x :: rest) :
    ∃ next : Gate OperationId,
      { bulkhead with waiters := rest, queued := bulkhead.queued - 1 }.Keeps next
      ∧ next.holders = insert x (gate.holders.erase id) := by
  have waiting := keeps.waiting.trans waits
  refine ⟨gate.handOver id x rest inside waiting, ⟨keeps.capacity, keeps.limit, rfl, ?_, ?_⟩,
    rfl⟩
  · rw [← keeps.running]
    exact gate.card_handOver inside waiting
  · rw [← keeps.queued, waiting]
    rfl

theorem Bulkhead.Keeps.withdraw (waits : id ∈ bulkhead.waiters) :
    ∃ next : Gate OperationId,
      { bulkhead with
        waiters := bulkhead.waiters.erase id, queued := bulkhead.queued - 1 }.Keeps next
      ∧ next.holders = gate.holders := by
  rw [← keeps.waiting] at waits
  refine ⟨gate.withdraw id, ⟨keeps.capacity, keeps.limit, ?_, keeps.running, ?_⟩, rfl⟩
  · rw [← keeps.waiting]
    rfl
  · rw [← keeps.queued]
    exact List.length_erase_of_mem waits

end

end

/-! ### The changes -/

theorem GivenBack.guarded (guarded : Guarded s)
    (back : GivenBack handle s after) : Guarded after := by
  cases back with
  | none => exact guarded
  | kept registered =>
    intro other
    refine (guarded other).same (fun changed there => ?_) fun _ => Iff.rfl
    refine alike_setBulkhead registered ?_ ?_ changed there
    · rfl
    · exact ⟨rfl, rfl, rfl, rfl, rfl⟩
  | destroyed =>
    intro other
    refine (guarded other).same (fun changed there => ?_) fun _ => Iff.rfl
    rw [bulkhead_remove] at there
    split at there
    · cases there
    · exact ⟨changed, there, rfl, rfl, rfl, rfl, rfl⟩

theorem Guarded.same (guarded : Guarded s)
    (bulkhead : ∀ handle, after.bulkhead handle = s.bulkhead handle)
    (outstanding : ∀ handle id, after.Outstanding handle id ↔ s.Outstanding handle id) :
    Guarded after := by
  intro handle
  refine (guarded handle).same (fun changed there => ?_) (outstanding handle)
  rw [bulkhead] at there
  exact ⟨changed, there, rfl, rfl, rfl, rfl, rfl⟩

theorem Guarded.enter {p : OperationId → Place} {thread : ThreadId}
    {activity : Activity} (guarded : Guarded s) (located : Located s p)
    (idle : s.activity thread = .idle)
    (refused : ∀ id, activity.completes ≠ some (id, .admitted))
    (fresh : ∀ id status, activity.completes = some (id, status) → id = s.operations)
    (bulkhead : ∀ handle, after.bulkhead handle = s.bulkhead handle)
    (activities : after.activity = update s.activity thread activity)
    (operation : after.operation = (entering thread handle s).operation) : Guarded after := by
  refine guarded.same bulkhead fun other id => ?_
  refine (outstanding_enter located handle activity idle fresh activities operation other id).trans ?_
  exact or_iff_left fun entered => refused id entered.2.2

/-- **Every bulkhead stays a gate.** -/
theorem Change.guarded {label : Label} {p : OperationId → Place}
    (listed : Listed s) (located : Located s p) (disciplined : Disciplined s)
    (referenced : Referenced s) (guarded : Guarded s) (change : Change label s after) :
    Guarded after := by
  cases change with
  | none => exact guarded
  | @opened handle maxConcurrent maxQueue valid free =>
    intro other
    by_cases here : handle = other
    · intro changed there
      rw [bulkhead_insert, if_pos here] at there
      cases there
      refine ⟨.vacant maxConcurrent maxQueue, ⟨rfl, rfl, rfl, rfl, rfl⟩, fun id => ?_⟩
      refine iff_of_false (Finset.notMem_empty id) fun outstanding => ?_
      have used := mem_users.2 ⟨(located.used_of_holds disciplined outstanding.2).1,
        here ▸ outstanding.1, (located.used_of_holds disciplined outstanding.2).2⟩
      rw [← here, (referenced.unused free).2] at used
      exact Finset.notMem_empty id used
    · refine (guarded other).same (fun changed there => ?_) fun _ => Iff.rfl
      rw [bulkhead_insert, if_neg here] at there
      exact ⟨changed, there, rfl, rfl, rfl, rfl, rfl⟩
  | @retained handle found registered =>
    intro other
    refine (guarded other).same (fun changed there => ?_) fun _ => Iff.rfl
    refine alike_setBulkhead registered ?_ ?_ changed there
    · rfl
    · exact ⟨rfl, rfl, rfl, rfl, rfl⟩
  | dropped owned back =>
    refine back.guarded ?_
    exact guarded.same (fun _ => rfl) fun _ _ => Iff.rfl
  | @discarded id _ made spent back =>
    refine back.guarded ?_
    refine guarded.same (fun _ => rfl) ?_
    refine outstanding_same (fun _ => Iff.rfl) (granted_update ?_ ?_)
    · rfl
    · unfold Operation.Granted
      refine iff_of_false (by simp) ?_
      rintro ⟨-, admitted, unspent⟩
      rcases spent with released | ⟨-, refused⟩
      · simp [released] at unspent
      · exact refused admitted
  | unregistered idle | refused idle =>
    exact guarded.enter located idle (by rintro _ ⟨⟩) (by rintro _ _ ⟨⟩; rfl) (fun _ => rfl) rfl rfl
  | @admitted thread handle found idle owned registered room =>
    have fresh : ∀ id status,
        (Activity.acquired s.operations .admitted).completes = some (id, status) →
          id = s.operations := by
      rintro _ _ ⟨⟩
      rfl
    refine guarded.change registered ?_ (fun _ => rfl) (fun other elsewhere id => ?_)
      fun gate keeps holders => ?_
    · rfl
    · refine (outstanding_enter located handle _ idle fresh ?_ ?_ other id).trans ?_
      · rfl
      · rfl
      · exact or_iff_left fun entry => elsewhere entry.1
    · have outside : s.operations ∉ gate.holders := fun mem =>
        located.not_holds (Nat.le_refl _) ((holders _).1 mem).2
      obtain ⟨next, keeps, inside⟩ := keeps.enter outside room
      refine ⟨next, keeps, fun id => ?_⟩
      refine Iff.trans ?_ (outstanding_enter located handle _ idle fresh ?_ ?_ handle id).symm
      · rw [inside, Finset.mem_insert, holders]
        simp [Activity.completes]
        tauto
      · rfl
      · rfl
  | @queued thread handle found idle owned registered full room =>
    have fresh : ∀ id status, (Activity.started s.operations).completes = some (id, status) →
        id = s.operations := by
      rintro _ _ ⟨⟩
    refine guarded.change registered ?_ (fun _ => rfl) (fun other _ id => ?_)
      fun gate keeps holders => ?_
    · rfl
    · refine (outstanding_enter located handle _ idle fresh ?_ ?_ other id).trans ?_
      · rfl
      · rfl
      · exact or_iff_left (by rintro ⟨-, -, ⟨⟩⟩)
    · have outside : s.operations ∉ gate.holders := fun mem =>
        located.not_holds (Nat.le_refl _) ((holders _).1 mem).2
      have unqueued : s.operations ∉ found.waiters := by
        rw [← queue_of_bulkhead registered]
        exact (located.unmade (Nat.le_refl _)).1 handle
      obtain ⟨next, keeps, inside⟩ := keeps.queue outside unqueued full room
      refine ⟨next, keeps, fun id => ?_⟩
      refine Iff.trans ?_ (outstanding_enter located handle _ idle fresh ?_ ?_ handle id).symm
      · rw [inside, holders]
        exact (or_iff_left (by rintro ⟨-, -, ⟨⟩⟩)).symm
      · rfl
      · rfl
  | completed flies =>
    exact guarded.same (fun _ => rfl) (outstanding_land located disciplined flies rfl rfl)
  | @requested thread id asked free =>
    refine guarded.same (fun _ => rfl) (outstanding_same (fun other => ?_) (granted_update ?_ ?_))
    · refine (flies_setActivity (completes_of_free free)).trans (or_iff_right ?_)
      rintro ⟨⟩
    · rfl
    · rfl
  | rested free =>
    refine guarded.same (fun _ => rfl) (outstanding_same (fun id => ?_) fun id => ⟨rfl, Iff.rfl⟩)
    refine (flies_setActivity (completes_of_free free)).trans (or_iff_right ?_)
    rintro ⟨⟩
  | @withdrawn thread id found calls search =>
    obtain ⟨registered, waits⟩ := bulkhead_of_search listed search
    have flies : ∀ one, (∃ other, ((s.setActivity thread (.withdrawn id)).activity
        other).completes = some (one, .admitted)) ↔
        ∃ other, (s.activity other).completes = some (one, .admitted) := by
      intro one
      refine (flies_setActivity ?_).trans (or_iff_right ?_)
      · rw [calls]
        rfl
      · rintro ⟨⟩
    have outstanding := outstanding_same flies fun _ => ⟨rfl, Iff.rfl⟩
    refine guarded.change registered ?_ (fun _ => rfl) (fun other _ => outstanding other)
      fun gate keeps holders => ?_
    · rfl
    · obtain ⟨next, keeps, inside⟩ := keeps.withdraw waits
      refine ⟨next, keeps, fun id => ?_⟩
      rw [inside, holders]
      exact (outstanding found.handle id).symm
  | @resumed id idle pending =>
    refine guarded.same (fun _ => rfl) ?_
    refine outstanding_same (fun _ => Iff.rfl) (granted_update ?_ ?_)
    · rfl
    · unfold Operation.Granted
      simp [pending.2]
  | @released id found made returned admitted registered running nobody =>
    have outstanding := outstanding_release located disciplined returned
    refine guarded.change registered ?_ (fun _ => rfl) (fun other elsewhere one => ?_)
      fun gate keeps holders => ?_
    · rfl
    · refine (outstanding other one).trans (and_iff_left_of_imp ?_)
      rintro there rfl
      exact elsewhere there.1.symm
    · have inside := (holders id).2 (outstanding_of_returned disciplined made returned admitted)
      obtain ⟨next, keeps, left⟩ := keeps.leave inside nobody
      refine ⟨next, keeps, fun one => ?_⟩
      rw [left, Finset.mem_erase, holders, and_comm]
      exact (outstanding _ one).symm
  | @granted thread id waiter rest found releases idle made returned admitted registered x =>
    have waits : waiter ∈ s.queue (s.operation id).handle := by
      rw [queue_of_bulkhead registered, x]
      exact List.mem_cons_self
    have home := located.home _ _ ((located.waiting _ _).1 waits)
    have outstanding : ∀ other one,
        ((s.setOperation id { s.operation id with stage := .released }).setActivity thread
          (.granting waiter)).Outstanding other one ↔
        s.Outstanding other one ∧ one ≠ id
          ∨ other = (s.operation id).handle ∧ one = waiter := by
      intro other one
      refine (outstanding_grant ?_ other one).trans ?_
      · exact completes_of_idle idle
      · have moved : ((s.setOperation id { s.operation id with
            stage := .released }).operation waiter).handle = (s.operation id).handle := by
          refine (alike_update ?_ waiter).2.trans home
          exact ⟨rfl, rfl⟩
        rw [outstanding_release located disciplined returned, moved]
        exact or_congr_right (and_congr_left' eq_comm)
    refine guarded.change registered ?_ (fun _ => rfl) (fun other elsewhere one => ?_)
      fun gate keeps holders => ?_
    · rfl
    · refine (outstanding other one).trans ?_
      rw [or_iff_left fun there => elsewhere there.1]
      refine and_iff_left_of_imp ?_
      rintro there rfl
      exact elsewhere there.1.symm
    · have inside := (holders id).2 (outstanding_of_returned disciplined made returned admitted)
      obtain ⟨next, keeps, left⟩ := keeps.handOver inside x
      refine ⟨next, keeps, fun one => ?_⟩
      rw [left, Finset.mem_insert, Finset.mem_erase, holders]
      refine Iff.trans ?_ (outstanding _ one).symm
      simp
      tauto

end FoundationLang.Resiliency
