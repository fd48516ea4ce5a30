/-
**The idempotency store of `foundation.saga`.**

The store in memory keeps the keys of completed work in one list and the keys of reserved work in
another one. A list is taken apart for every question and put together again.
-/

import FoundationLang.Library.Machine
import FoundationLang.Standard.Collections
import FoundationLang.Standard.Text
import Mathlib.Data.List.Nodup

namespace FoundationLang.Saga

open Library Outcome Standard List

/-- The errors of a store. -/
inductive Error
  | closed
  | duplicateKey
  | missingKey
  | storeFailure
deriving DecidableEq, Repr

/-- What became of a reservation. -/
inductive Reservation
  | acquired
  | completed
  | inProgress
deriving DecidableEq, Repr

/-- **`Store`.** -/
structure Store (σ : Type) where
  contains : Text → Method σ Error Bool
  record : Text → Method σ Error Unit

/-- **`IdempotencyStore`.** -/
structure IdempotencyStore (σ : Type) extends Store σ where
  reserve : Text → Method σ Error Reservation
  complete : Text → Method σ Error Unit
  release : Text → Method σ Error Unit

/-- **`memoryStore`.** -/
structure MemoryStore where
  keys : LinkedList Text
  reservations : LinkedList Text

/-- A store without keys. -/
def newMemoryStore : MemoryStore :=
  ⟨.newList, .newList⟩

/-! ### The lists -/

/-- The list in its order again. -/
def reverseStrings {ε : Type} (values : LinkedList Text) : Outcome ε (LinkedList Text) :=
  Queue.moved values.items .newList

/-- The loop of `HasKey` and `HasReservation`. -/
def search {ε : Type} (key : Text) (values : LinkedList Text) :
    Outcome ε (Bool × LinkedList Text) := do
  let (found, restored) ← sweep (fun found value => .ok (found || value == key, true))
    values.items false .newList
  return (found, ← reverseStrings restored)

/-- One round of `RemoveReservation`. -/
def strike (key : Text) (removed : Bool) (value : Text) : Bool × Bool :=
  if !removed && value == key then (true, false) else (removed, true)

/-- The loop of `RemoveReservation`. -/
def withdraw {ε : Type} (key : Text) (values : LinkedList Text) :
    Outcome ε (Bool × LinkedList Text) := do
  let (removed, restored) ← sweep (fun removed value => .ok (strike key removed value))
    values.items false .newList
  return (removed, ← reverseStrings restored)

namespace MemoryStore

/-- The key is completed. -/
def hasKey (key : Text) : Method MemoryStore Error Bool := fun self =>
  match search key self.keys with
  | .error stop => .error stop self
  | .ok (found, keys) => .ok found { self with keys }

/-- The key is reserved. -/
def hasReservation (key : Text) : Method MemoryStore Error Bool := fun self =>
  match search key self.reservations with
  | .error stop => .error stop self
  | .ok (found, reservations) => .ok found { self with reservations }

/-- Takes a reservation away, and says if there was one. -/
def removeReservation (key : Text) : Method MemoryStore Error Bool := fun self =>
  match withdraw key self.reservations with
  | .error stop => .error stop self
  | .ok (removed, reservations) => .ok removed { self with reservations }

/-- `self.keys.PushFront(text.Copy(key))`. -/
def addKey (key : Text) : Method MemoryStore Error Unit := fun self =>
  match self.keys.pushFront key with
  | .error stop => .error stop self
  | .ok keys => .ok () { self with keys }

/-- `self.reservations.PushFront(text.Copy(key))`. -/
def addReservation (key : Text) : Method MemoryStore Error Unit := fun self =>
  match self.reservations.pushFront key with
  | .error stop => .error stop self
  | .ok reservations => .ok () { self with reservations }

/-- The key is completed. -/
def contains (key : Text) : Method MemoryStore Error Bool :=
  hasKey key

/-- Completes a key that is not. -/
def record (key : Text) : Method MemoryStore Error Unit := do
  if ← hasKey key then throw (.err .duplicateKey)
  addKey key

/-- Reserves a key that is neither completed nor reserved. -/
def reserve (key : Text) : Method MemoryStore Error Reservation := do
  if ← hasKey key then return .completed
  if ← hasReservation key then return .inProgress
  addReservation key
  return .acquired

/-- Completes a reserved key. -/
def complete (key : Text) : Method MemoryStore Error Unit := do
  if !(← removeReservation key) then throw (.err .missingKey)
  if ← hasKey key then throw (.err .duplicateKey)
  addKey key

/-- Gives a reserved key back. -/
def release (key : Text) : Method MemoryStore Error Unit := do
  if !(← removeReservation key) then throw (.err .missingKey)

end MemoryStore

/-- `memoryStore` as an `IdempotencyStore`. -/
def memoryStore : IdempotencyStore MemoryStore where
  contains := MemoryStore.contains
  record := MemoryStore.record
  reserve := MemoryStore.reserve
  complete := MemoryStore.complete
  release := MemoryStore.release

/-! ### What the loops return -/

section Loops

variable {ε : Type} (key : Text)

theorem reverseStrings_ok (vs : LinkedList Text) :
    ∃ after : LinkedList Text, (reverseStrings vs : Outcome ε _) = .ok after ∧
      after.items = vs.items.reverse := by
  obtain ⟨after, moves, same⟩ := Queue.moved_ok (ε := ε) vs.items .newList vs.bounded
  exact ⟨after, moves, by rw [same, LinkedList.newList_items, append_nil]⟩

theorem remembered_search (xs : List Text) (found : Bool) :
    remembered (fun found v => (found || v == key, true)) xs found =
      (found || decide (key ∈ xs)) := by
  induction xs generalizing found with
  | nil => simp [remembered]
  | cons v xs ih =>
    rw [remembered, ih, Bool.or_assoc]
    by_cases here : v = key
    · simp [here]
    · have apart : (v == key) = false := beq_false_of_ne here
      simp [apart, Ne.symm here]

theorem search_eq (vs : LinkedList Text) :
    (search key vs : Outcome ε _) = .ok (decide (key ∈ vs.items), vs) := by
  obtain ⟨restored, swept, xs⟩ := @sweep_reverse _ _ ε
    (fun found v => (found || v == key, true)) (fun _ _ => rfl) vs false
  obtain ⟨_, turned, same⟩ := reverseStrings_ok (ε := ε) restored
  rw [xs, reverse_reverse] at same
  rw [remembered_search, Bool.false_or] at swept
  unfold search
  rw [swept, ok_bind]
  dsimp only
  rw [turned, ok_bind, LinkedList.eq_of_items same]
  rfl

theorem kept_strike (xs : List Text) (removed : Bool) :
    kept (strike key) xs removed = if removed then xs else xs.erase key := by
  induction xs generalizing removed with
  | nil => simp [kept]
  | cons v xs ih =>
    rw [kept]
    cases removed with
    | true => simp [strike, ih]
    | false =>
      by_cases here : v = key
      · simp [strike, here, ih]
      · simp [strike, here, ih]

theorem remembered_strike (xs : List Text) (removed : Bool) :
    remembered (strike key) xs removed = (removed || decide (key ∈ xs)) := by
  induction xs generalizing removed with
  | nil => simp [remembered]
  | cons v xs ih =>
    rw [remembered, ih]
    cases removed with
    | true => simp [strike]
    | false =>
      by_cases here : v = key
      · simp [strike, here]
      · simp [strike, here, Ne.symm here]

/-- The list without the first place of a key. -/
def without (key : Text) (values : LinkedList Text) : LinkedList Text where
  items := values.items.erase key
  bounded := Nat.lt_of_le_of_lt length_erase_le values.bounded

theorem without_absent {key : Text} {values : LinkedList Text} (absent : key ∉ values.items) :
    without key values = values :=
  LinkedList.eq_of_items (erase_of_not_mem absent)

theorem withdraw_eq (values : LinkedList Text) :
    (withdraw key values : Outcome ε _) =
      .ok (decide (key ∈ values.items), without key values) := by
  obtain ⟨restored, swept, xs⟩ := sweep_ok (ε := ε) (strike key) values.items false .newList
    values.bounded
  obtain ⟨after, turned, same⟩ := reverseStrings_ok (ε := ε) restored
  rw [kept_strike, LinkedList.newList_items, append_nil] at xs
  rw [xs, reverse_reverse] at same
  rw [remembered_strike, Bool.false_or] at swept
  have same : after = without key values := LinkedList.eq_of_items same
  unfold withdraw
  rw [swept, ok_bind]
  dsimp only
  rw [turned, ok_bind, same]
  rfl

end Loops

/-! ### What the methods return -/

namespace MemoryStore

variable (key : Text) (self : MemoryStore)

theorem hasKey_eq : hasKey key self = .ok (decide (key ∈ self.keys.items)) self := by
  unfold hasKey
  rw [search_eq]

theorem hasReservation_eq :
    hasReservation key self = .ok (decide (key ∈ self.reservations.items)) self := by
  unfold hasReservation
  rw [search_eq]

theorem removeReservation_eq :
    removeReservation key self = .ok (decide (key ∈ self.reservations.items))
      { self with reservations := without key self.reservations } := by
  unfold removeReservation
  rw [withdraw_eq]

theorem record_eq :
    record key self =
      if key ∈ self.keys.items then .error (.err .duplicateKey) self else addKey key self := by
  unfold record
  rw [Method.bind_ok (hasKey_eq key self)]
  by_cases known : key ∈ self.keys.items
  · rw [if_pos known, decide_eq_true known]
    rfl
  · rw [if_neg known, decide_eq_false known]
    rfl

theorem reserve_eq :
    reserve key self =
      if key ∈ self.keys.items then .ok .completed self
      else if key ∈ self.reservations.items then .ok .inProgress self
      else ((fun _ => .acquired) <$> addReservation key) self := by
  unfold reserve
  rw [Method.bind_ok (hasKey_eq key self)]
  by_cases known : key ∈ self.keys.items
  · rw [if_pos known, decide_eq_true known]
    rfl
  · rw [if_neg known, decide_eq_false known, if_neg Bool.false_ne_true]
    refine (Method.bind_ok (hasReservation_eq key self)).trans ?_
    by_cases held : key ∈ self.reservations.items
    · rw [if_pos held, decide_eq_true held]
      rfl
    · rw [if_neg held, decide_eq_false held]
      rfl

theorem complete_eq :
    complete key self =
      if key ∈ self.reservations.items then
        if key ∈ self.keys.items then
          .error (.err .duplicateKey) { self with reservations := without key self.reservations }
        else addKey key { self with reservations := without key self.reservations }
      else .error (.err .missingKey) self := by
  unfold complete
  rw [Method.bind_ok (removeReservation_eq key self)]
  by_cases held : key ∈ self.reservations.items
  · rw [if_pos held, decide_eq_true held, Bool.not_true, if_neg Bool.false_ne_true]
    refine (Method.bind_ok (hasKey_eq key _)).trans ?_
    by_cases known : key ∈ self.keys.items
    · rw [if_pos known, decide_eq_true known]
      rfl
    · rw [if_neg known, decide_eq_false known]
      rfl
  · rw [if_neg held, decide_eq_false held, without_absent held]
    rfl

theorem release_eq :
    release key self =
      if key ∈ self.reservations.items then
        .ok () { self with reservations := without key self.reservations }
      else .error (.err .missingKey) self := by
  unfold release
  rw [Method.bind_ok (removeReservation_eq key self)]
  by_cases held : key ∈ self.reservations.items
  · rw [if_pos held, decide_eq_true held]
    rfl
  · rw [if_neg held, decide_eq_false held, without_absent held]
    rfl

end MemoryStore

/-! ### Operations -/

/-- The operations on a store. -/
inductive Operation
  | contains (key : Text)
  | record (key : Text)
  | reserve (key : Text)
  | complete (key : Text)
  | release (key : Text)
deriving DecidableEq

/-- What an operation returns. -/
inductive Response
  | flag (value : Bool)
  | reservation (value : Reservation)
  | done
deriving DecidableEq, Repr

/-- One operation. -/
def perform {σ : Type} (store : IdempotencyStore σ) : Operation → Method σ Error Response
  | .contains key => Response.flag <$> store.contains key
  | .record key => (fun _ => Response.done) <$> store.record key
  | .reserve key => Response.reservation <$> store.reserve key
  | .complete key => (fun _ => Response.done) <$> store.complete key
  | .release key => (fun _ => Response.done) <$> store.release key

/-- **What an operation on the store in memory can return and leave.** -/
inductive Performs (before : MemoryStore) : Operation → Except Error Response → MemoryStore → Prop
  | contains (key : Text) :
      Performs before (.contains key) (.ok (.flag (decide (key ∈ before.keys.items)))) before
  | known {key : Text} (known : key ∈ before.keys.items) :
      Performs before (.record key) (.error .duplicateKey) before
  | recorded {key : Text} {after : MemoryStore} (fresh : key ∉ before.keys.items)
      (keys : after.keys.items = key :: before.keys.items)
      (reservations : after.reservations = before.reservations) :
      Performs before (.record key) (.ok .done) after
  | finished {key : Text} (known : key ∈ before.keys.items) :
      Performs before (.reserve key) (.ok (.reservation .completed)) before
  | inProgress {key : Text} (fresh : key ∉ before.keys.items)
      (held : key ∈ before.reservations.items) :
      Performs before (.reserve key) (.ok (.reservation .inProgress)) before
  | acquired {key : Text} {after : MemoryStore} (fresh : key ∉ before.keys.items)
      (free : key ∉ before.reservations.items) (keys : after.keys = before.keys)
      (reservations : after.reservations.items = key :: before.reservations.items) :
      Performs before (.reserve key) (.ok (.reservation .acquired)) after
  | unreserved {key : Text} (free : key ∉ before.reservations.items) :
      Performs before (.complete key) (.error .missingKey) before
  | dropped {key : Text} (held : key ∈ before.reservations.items)
      (known : key ∈ before.keys.items) :
      Performs before (.complete key) (.error .duplicateKey)
        { before with reservations := without key before.reservations }
  | completed {key : Text} {after : MemoryStore} (held : key ∈ before.reservations.items)
      (fresh : key ∉ before.keys.items) (keys : after.keys.items = key :: before.keys.items)
      (reservations : after.reservations = without key before.reservations) :
      Performs before (.complete key) (.ok .done) after
  | unheld {key : Text} (free : key ∉ before.reservations.items) :
      Performs before (.release key) (.error .missingKey) before
  | released {key : Text} (held : key ∈ before.reservations.items) :
      Performs before (.release key) (.ok .done)
        { before with reservations := without key before.reservations }

section Returns

variable {before after : MemoryStore} {key : Text}

theorem addKey_returns {r : Except Error Unit}
    (returned : Method.Returns (MemoryStore.addKey key) before r after) :
    r = .ok () ∧ after.keys.items = key :: before.keys.items ∧
      after.reservations = before.reservations := by
  rcases pushed : (before.keys.pushFront key : Outcome Error _) with (_ | reason) | keys
  · unfold LinkedList.pushFront at pushed
    split at pushed <;> cases pushed
  · have same : MemoryStore.addKey key before = .error (.panic reason) before := by
      unfold MemoryStore.addKey
      rw [pushed]
    exact absurd same returned.not_panic
  · have same : MemoryStore.addKey key before = .ok () { before with keys } := by
      unfold MemoryStore.addKey
      rw [pushed]
    obtain ⟨rfl, rfl⟩ := returned.unique (.ok same)
    exact ⟨rfl, LinkedList.pushFront_eq_ok pushed, rfl⟩

theorem addReservation_returns {r : Except Error Unit}
    (returned : Method.Returns (MemoryStore.addReservation key) before r after) :
    r = .ok () ∧ after.keys = before.keys ∧
      after.reservations.items = key :: before.reservations.items := by
  rcases pushed : (before.reservations.pushFront key : Outcome Error _) with
    (error | reason) | reservations
  · unfold LinkedList.pushFront at pushed
    split at pushed <;> cases pushed
  · have same : MemoryStore.addReservation key before = .error (.panic reason) before := by
      unfold MemoryStore.addReservation
      rw [pushed]
    exact absurd same returned.not_panic
  · have same : MemoryStore.addReservation key before = .ok () { before with reservations } := by
      unfold MemoryStore.addReservation
      rw [pushed]
    obtain ⟨rfl, rfl⟩ := returned.unique (.ok same)
    exact ⟨rfl, rfl, LinkedList.pushFront_eq_ok pushed⟩

/-- **An operation does nothing else.** -/
theorem performs_of_returns {operation : Operation} {r : Except Error Response}
    (returned : Method.Returns (perform memoryStore operation) before r after) :
    Performs before operation r after := by
  cases operation with
  | contains key =>
    obtain ⟨inner, call, rfl⟩ := returned.of_map
    obtain ⟨rfl, rfl⟩ := call.unique (.ok (MemoryStore.hasKey_eq key before))
    exact .contains key
  | record key =>
    obtain ⟨inner, call, rfl⟩ := returned.of_map
    have same := MemoryStore.record_eq key before
    by_cases known : key ∈ before.keys.items
    · rw [if_pos known] at same
      obtain ⟨rfl, rfl⟩ := call.unique (.err same)
      exact .known known
    · rw [if_neg known] at same
      obtain ⟨rfl, keys, reservations⟩ := addKey_returns (call.congr same)
      exact .recorded known keys reservations
  | reserve key =>
    obtain ⟨inner, call, rfl⟩ := returned.of_map
    have same := MemoryStore.reserve_eq key before
    by_cases known : key ∈ before.keys.items
    · rw [if_pos known] at same
      obtain ⟨rfl, rfl⟩ := call.unique (.ok same)
      exact .finished known
    · by_cases held : key ∈ before.reservations.items
      · rw [if_neg known, if_pos held] at same
        obtain ⟨rfl, rfl⟩ := call.unique (.ok same)
        exact .inProgress known held
      · rw [if_neg known, if_neg held] at same
        obtain ⟨inner, added, rfl⟩ := (call.congr same).of_map
        obtain ⟨rfl, keys, reservations⟩ := addReservation_returns added
        exact .acquired known held keys reservations
  | complete key =>
    obtain ⟨inner, call, rfl⟩ := returned.of_map
    have same := MemoryStore.complete_eq key before
    by_cases held : key ∈ before.reservations.items
    · by_cases known : key ∈ before.keys.items
      · rw [if_pos held, if_pos known] at same
        obtain ⟨rfl, rfl⟩ := call.unique (.err same)
        exact .dropped held known
      · rw [if_pos held, if_neg known] at same
        obtain ⟨rfl, keys, reservations⟩ := addKey_returns (call.congr same)
        exact .completed held known keys reservations
    · rw [if_neg held] at same
      obtain ⟨rfl, rfl⟩ := call.unique (.err same)
      exact .unreserved held
  | release key =>
    obtain ⟨_, call, rfl⟩ := returned.of_map
    have same := MemoryStore.release_eq key before
    by_cases held : key ∈ before.reservations.items
    · rw [if_pos held] at same
      obtain ⟨rfl, rfl⟩ := call.unique (.ok same)
      exact .released held
    · rw [if_neg held] at same
      obtain ⟨rfl, rfl⟩ := call.unique (.err same)
      exact .unheld held

end Returns

/-! ### The invariants of the lists -/

/-- **A key is in a list at most once.** -/
structure Distinct (store : MemoryStore) : Prop where
  keys : store.keys.items.Nodup
  reservations : store.reservations.items.Nodup

/-- **No key is both completed and reserved.** -/
def Apart (store : MemoryStore) : Prop :=
  ∀ key ∈ store.reservations.items, key ∉ store.keys.items

section Invariants

variable {before after : MemoryStore} {operation : Operation} {r : Except Error Response}

theorem distinct_newMemoryStore : Distinct newMemoryStore :=
  ⟨nodup_nil, nodup_nil⟩

theorem apart_newMemoryStore : Apart newMemoryStore := by
  rintro _ ⟨⟩

theorem Distinct.mem_without (distinct : Distinct before) {key y : Text} :
    y ∈ (without key before.reservations).items ↔
      y ≠ key ∧ y ∈ before.reservations.items :=
  distinct.reservations.mem_erase_iff

theorem Distinct.performs (distinct : Distinct before)
    (performs : Performs before operation r after) : Distinct after := by
  cases performs with
  | contains | known | finished | inProgress | unreserved | unheld => exact distinct
  | recorded fresh keys reservations =>
    refine ⟨?_, reservations ▸ distinct.reservations⟩
    rw [keys]
    exact nodup_cons.mpr ⟨fresh, distinct.keys⟩
  | acquired fresh free keys reservations =>
    refine ⟨keys ▸ distinct.keys, ?_⟩
    rw [reservations]
    exact nodup_cons.mpr ⟨free, distinct.reservations⟩
  | dropped | released => exact ⟨distinct.keys, distinct.reservations.erase _⟩
  | completed held fresh keys reservations =>
    refine ⟨?_, ?_⟩
    · rw [keys]
      exact nodup_cons.mpr ⟨fresh, distinct.keys⟩
    · rw [reservations]
      exact distinct.reservations.erase _

theorem Apart.performs (apart : Apart before) (distinct : Distinct before)
    (performs : Performs before operation r after)
    (careful : ∀ key, operation = .record key → key ∉ before.reservations.items) : Apart after := by
  intro key reserved
  cases performs with
  | contains | known | finished | inProgress | unreserved | unheld => exact apart key reserved
  | @recorded y _ fresh keys reservations =>
    rw [reservations] at reserved
    rw [keys, mem_cons, not_or]
    refine ⟨?_, apart key reserved⟩
    rintro rfl
    exact careful key rfl reserved
  | acquired fresh free keys reservations =>
    rw [reservations, mem_cons] at reserved
    rw [keys]
    rcases reserved with rfl | reserved
    · exact fresh
    · exact apart key reserved
  | dropped | released => exact apart key (distinct.mem_without.mp reserved).2
  | completed held fresh keys reservations =>
    rw [reservations, distinct.mem_without] at reserved
    rw [keys, mem_cons, not_or]
    exact ⟨reserved.1, apart key reserved.2⟩

theorem Performs.unchanged {error : Error} (performs : Performs before operation (.error error) after) :
    after = before ∨ ∃ key, operation = .complete key ∧ key ∈ before.keys.items ∧
      key ∈ before.reservations.items ∧ error = .duplicateKey ∧
      after = { before with reservations := without key before.reservations } := by
  cases performs with
  | known | unreserved | unheld => exact .inl rfl
  | dropped held known => exact .inr ⟨_, rfl, known, held, rfl, rfl⟩

end Invariants

/-! ### All operations -/

/-- **The machine of the operations on a store.** An operation that fails leaves what it leaves. -/
def storing : Machine MemoryStore Operation Panic where
  initial := newMemoryStore
  Allowed _ _ := True
  step operation before := do
    let (_, after) ← (perform memoryStore operation).attempt before
    return after

instance (state : MemoryStore) (operation : Operation) : Decidable (storing.Allowed state operation) :=
  inferInstanceAs (Decidable True)

/-- No key is recorded while it is reserved. -/
def Careful (state : MemoryStore) (operation : Operation) : Prop :=
  ∀ key, operation = .record key → key ∉ state.reservations.items

theorem performs_of_step {before after : MemoryStore} {operation : Operation}
    (taken : storing.step operation before = .ok after) :
    ∃ r, Performs before operation r after := by
  obtain ⟨⟨r, _⟩, attempted, same⟩ := except_bind_eq_ok.mp taken
  cases same
  exact ⟨r, performs_of_returns (Method.attempt_eq_ok.mp attempted)⟩

theorem distinct_of_run {operations : List Operation} {store : MemoryStore}
    (run : storing.Run operations store) : Distinct store := by
  refine run.invariant Distinct distinct_newMemoryStore ?_
  intro before after operation distinct allowed taken
  obtain ⟨_, performs⟩ := performs_of_step taken
  exact distinct.performs performs

theorem apart_of_run {operations : List Operation} {store : MemoryStore}
    (run : (storing.restrict Careful).Run operations store) : Apart store := by
  have both : Distinct store ∧ Apart store := by
    refine run.invariant (fun store => Distinct store ∧ Apart store)
      ⟨distinct_newMemoryStore, apart_newMemoryStore⟩ ?_
    rintro _ _ _ ⟨distinct, apart⟩ ⟨_, careful⟩ taken
    obtain ⟨_, performs⟩ := performs_of_step taken
    exact ⟨distinct.performs performs, apart.performs distinct performs careful⟩
  exact both.2

end FoundationLang.Saga
