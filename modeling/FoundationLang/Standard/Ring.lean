/-
**The package `std.ring`.**

A ring owns as many nodes as its capacity, in three lists: `front` and `back` hold the values, `free`
holds the empty nodes. A value comes in on top of `back` and goes out on top of `front`; when `front`
is empty, `back` is turned around into it.

The nodes are owned, so a chain of them is the list of what they hold.
-/

import FoundationLang.Library.BoundedQueue
import FoundationLang.Standard.Collections
import Mathlib.Algebra.Group.Int.Defs

namespace FoundationLang.Standard

open Library Outcome List

namespace Ring

/-- Why a ring is not built. -/
inductive ConfigurationError
  | zeroCapacity
deriving DecidableEq, Repr

/-- A value that found no room is given back. -/
inductive PushError (T : Type)
  | full (value : T)
deriving DecidableEq, Repr

/-- A value of `i32`. -/
abbrev I32 : Type :=
  { value : ℤ // -2 ^ 31 ≤ value ∧ value < 2 ^ 31 }

/-! ### Nodes and lists of nodes -/

/-- `slot`, without the link to the next one. -/
structure Slot (T : Type) where
  value : Option T

/-- **`slotList`.** The count is a field of its own; `push` and `pop` keep it right. -/
structure SlotList (T : Type) where
  slots : List (Slot T)
  length : ℕ
  counted : length = slots.length

namespace SlotList

variable {T : Type}

/-- No nodes. -/
def newSlotList : SlotList T :=
  ⟨[], 0, rfl⟩

/-- The number of nodes. -/
def len (self : SlotList T) : ℕ :=
  self.length

/-- No nodes are in the list. -/
def isEmpty (self : SlotList T) : Bool :=
  self.length == 0

/-- `push`; the count is an `i32`. -/
def push (self : SlotList T) (node : Slot T) : Outcome Empty (SlotList T) :=
  if self.length + 1 < 2 ^ 31 then
    .ok ⟨node :: self.slots, self.length + 1, by rw [self.counted, length_cons]⟩
  else panic .overflow

/-- `pop`, with `someSlot` and `popSlot`. -/
def pop : SlotList T → Option (Slot T) × SlotList T
  | ⟨[], length, counted⟩ => (none, ⟨[], length, counted⟩)
  | ⟨node :: next, length, counted⟩ =>
    (some node, ⟨next, length - 1, by rw [counted, length_cons, Nat.add_sub_cancel]⟩)

/-- `restoreEmptySlot` and `restoreVisitedSlot`. With the answer go the values for which the
operation is called. -/
def visitSlot (self : SlotList T) (node : Slot T) :
    Outcome Empty ((Bool × List T) × SlotList T) :=
  match node.value with
  | none => do return ((false, []), ← self.push ⟨none⟩)
  | some value => do return ((true, [value]), ← self.push ⟨some value⟩)

/-- The value of the first node, and the list as it was. -/
def visitFirst (self : SlotList T) : Outcome Empty ((Bool × List T) × SlotList T) :=
  match self.pop with
  | (none, self) => .ok ((false, []), self)
  | (some node, self) => self.visitSlot node

theorem push_ok (self : SlotList T) (node : Slot T) (small : self.slots.length + 1 < 2 ^ 31) :
    ∃ after, self.push node = .ok after ∧ after.slots = node :: self.slots := by
  unfold push
  rw [if_pos (by rw [self.counted]; exact small)]
  exact ⟨_, rfl, rfl⟩

theorem push_eq_ok {self t : SlotList T} {node : Slot T} (pushed : self.push node = .ok t) :
    t.slots = node :: self.slots := by
  unfold push at pushed
  split at pushed
  · cases pushed
    rfl
  · cases pushed

theorem pop_node (self : SlotList T) : self.pop.1 = self.slots.head? := by
  obtain ⟨_ | ⟨_, _⟩, _, _⟩ := self <;> rfl

theorem pop_slots (self : SlotList T) : self.pop.2.slots = self.slots.tail := by
  obtain ⟨_ | ⟨_, _⟩, _, _⟩ := self <;> rfl

theorem isEmpty_iff (self : SlotList T) : self.isEmpty = true ↔ self.slots = [] := by
  unfold isEmpty
  rw [self.counted, beq_iff_eq, length_eq_zero_iff]

/-- A list of nodes is its chain. -/
theorem ext_slots {x second : SlotList T} (same : x.slots = second.slots) :
    x = second := by
  obtain ⟨slots, _, rfl⟩ := x
  obtain ⟨slots', _, rfl⟩ := second
  obtain rfl : slots = slots' := same
  rfl

end SlotList

/-! ### Rings -/

/-- The ring; `push`, `pop`, `peek`, `drain`, `reset`, `newBuffer` are its functions. -/
structure Buffer (T : Type) where
  capacity : I32
  front : SlotList T
  back : SlotList T
  free : SlotList T

namespace Buffer

variable {T : Type}

/-- The number of values that a ring can hold. -/
def cap (self : Buffer T) : I32 :=
  self.capacity

/-- `Len`; the sum is an `i32`. -/
def len (self : Buffer T) : Outcome Empty ℕ :=
  if self.front.len + self.back.len < 2 ^ 31 then .ok (self.front.len + self.back.len)
  else panic .overflow

/-- How many more values there is room for. -/
def space (self : Buffer T) : ℕ :=
  self.free.len

/-- The ring holds no value. -/
def isEmpty (self : Buffer T) : Outcome Empty Bool := do
  return (← self.len) == 0

/-- A value on top of `back`. -/
def storeValue (self : Buffer T) (_node : Slot T) (value : T) :
    Outcome Empty (Except (PushError T) Unit × Buffer T) := do
  return (.ok (), { self with back := ← self.back.push ⟨some value⟩ })

/-- A value comes in, if there is an empty node. -/
def push (self : Buffer T) (value : T) : Outcome Empty (Except (PushError T) Unit × Buffer T) :=
  match self.free.pop with
  | (none, free) => .ok (.error (.full value), { self with free })
  | (some node, free) => storeValue { self with free } node value

/-- The value of a node, which is empty from now on. -/
def takeValue (self : Buffer T) (node : Slot T) : Outcome Empty (Option T × Buffer T) := do
  return (node.value, { self with free := ← self.free.push ⟨none⟩ })

/-- The loop of `rotate`; `requiredSlot` takes what `pop` returns. -/
def turn (front back : SlotList T) : Outcome Empty (SlotList T × SlotList T) :=
  if back.isEmpty then .ok (front, back)
  else
    match _taken : back.pop with
    | (none, _) => panic (.message "ring slot invariant failed")
    | (some node, next) =>
      match front.push node with
      | .error stop => .error stop
      | .ok front => turn front next
termination_by back.slots.length
decreasing_by
  have node := back.pop_node
  have slots := back.pop_slots
  rw [_taken] at node slots
  obtain ⟨rest, items⟩ := List.head?_eq_some_iff.mp node.symm
  rw [slots, items]
  exact Nat.lt_succ_self _

/-- `back` turned around into `front`. -/
def rotate (self : Buffer T) : Outcome Empty (Buffer T) := do
  let (front, back) ← turn self.front self.back
  return { self with front, back }

/-- The first lines of `Pop` and `Peek`. -/
def refill (self : Buffer T) : Outcome Empty (Buffer T) :=
  if self.front.isEmpty then self.rotate else .ok self

/-- The oldest value goes out. -/
def pop (self : Buffer T) : Outcome Empty (Option T × Buffer T) := do
  let self ← self.refill
  match self.front.pop with
  | (none, front) => return (none, { self with front })
  | (some node, front) => takeValue { self with front } node

/-- The oldest value stays where it is. -/
def peek (self : Buffer T) : Outcome Empty ((Bool × List T) × Buffer T) := do
  let self ← self.refill
  let (seen, front) ← self.front.visitFirst
  return (seen, { self with front })

/-- The nodes that hold values or should. -/
def stored (self : Buffer T) : ℕ :=
  self.front.slots.length + self.back.slots.length

theorem turn_stored {front back front' back' : SlotList T}
    (turned : turn front back = .ok (front', back')) :
    front'.slots = back.slots.reverse ++ front.slots ∧ back'.slots = [] := by
  obtain ⟨slots, length, _⟩ := back
  induction slots generalizing front length with
  | nil =>
    rw [turn, if_pos ((SlotList.isEmpty_iff _).mpr rfl)] at turned
    cases turned
    exact ⟨rfl, rfl⟩
  | cons node next ih =>
    rw [turn, if_neg (by rw [SlotList.isEmpty_iff]; exact cons_ne_nil _ _)] at turned
    dsimp only [SlotList.pop] at turned
    split at turned
    · cases turned
    · rename_i longer pushed
      obtain ⟨slots, rest⟩ := ih _ _ turned
      rw [slots, rest, SlotList.push_eq_ok pushed, reverse_cons, append_assoc]
      exact ⟨rfl, rfl⟩

theorem refill_stored {self m : Buffer T} (same : self.refill = .ok m) :
    m.stored = self.stored ∧ (m.front.slots = [] → m.stored = 0) := by
  unfold refill at same
  split at same
  · rename_i empty
    obtain ⟨⟨_, _⟩, turned, same⟩ := bind_eq_ok.mp same
    cases same
    obtain ⟨slots, rest⟩ := turn_stored turned
    rw [(SlotList.isEmpty_iff _).mp empty, append_nil] at slots
    simp only [stored, slots, rest, (SlotList.isEmpty_iff _).mp empty, length_reverse,
      length_nil, Nat.add_comm, true_and]
    intro none
    rw [reverse_eq_nil_iff.mp none, length_nil]
  · rename_i full
    cases same
    refine ⟨rfl, ?_⟩
    intro none
    exact absurd ((SlotList.isEmpty_iff _).mpr none) full

/-- One node less holds a value. -/
theorem pop_stored {self t : Buffer T} {v : Option T}
    (popped : self.pop = .ok (v, t)) : t.stored = self.stored - 1 := by
  obtain ⟨m, same, rest⟩ := bind_eq_ok.mp popped
  obtain ⟨same, none⟩ := refill_stored same
  have node := m.front.pop_node
  have slots := m.front.pop_slots
  split at rest
  · rename_i front taken
    cases rest
    rw [taken] at node slots
    have empty := List.head?_eq_none_iff.mp node.symm
    rw [empty, tail_nil] at slots
    have zero := none empty
    unfold stored at zero same ⊢
    dsimp only
    rw [slots, length_nil]
    omega
  · rename_i node' front taken
    rw [taken] at node slots
    obtain ⟨later, xs⟩ := List.head?_eq_some_iff.mp node.symm
    obtain ⟨free, _, rest⟩ := bind_eq_ok.mp rest
    cases rest
    rw [xs, tail_cons] at slots
    unfold stored at same ⊢
    dsimp only
    rw [xs, length_cons] at same
    rw [slots]
    omega

theorem len_eq_ok {self : Buffer T} {length : ℕ} (same : self.len = .ok length) :
    length = self.stored := by
  unfold len SlotList.len at same
  split at same
  · cases same
    rw [self.front.counted, self.back.counted, stored]
  · cases same

/-- `Drain`; `requiredValue` takes what `pop` returns. -/
def drain (self : Buffer T) (values : Queue T) : Outcome Empty (Queue T × Buffer T) :=
  match _length : self.len with
  | .error stop => .error stop
  | .ok 0 => .ok (values, self)
  | .ok (_ + 1) =>
    match _popped : self.pop with
    | .error stop => .error stop
    | .ok (none, _) => panic (.message "ring value invariant failed")
    | .ok (some value, after) =>
      match values.enqueue value with
      | .error stop => .error stop
      | .ok values => drain after values
termination_by self.stored
decreasing_by
  have := pop_stored _popped
  have := len_eq_ok _length
  omega

/-- `Reset`, with the values that it discards. -/
def reset (self : Buffer T) : Outcome Empty (List T × Buffer T) :=
  match _length : self.len with
  | .error stop => .error stop
  | .ok 0 => .ok ([], self)
  | .ok (_ + 1) =>
    match _popped : self.pop with
    | .error stop => .error stop
    | .ok (value, after) => do
      let (discarded, after) ← reset after
      return (value.toList ++ discarded, after)
termination_by self.stored
decreasing_by
  have := pop_stored _popped
  have := len_eq_ok _length
  omega

end Buffer

variable {T : Type} {self : Buffer T} {held : List T}

/-- The loop of `New`. -/
def filled : ℕ → SlotList T → Outcome Empty (SlotList T)
  | 0, free => .ok free
  | remaining + 1, free => do filled remaining (← free.push ⟨none⟩)

/-- `New`. -/
def newBuffer (capacity : I32) : Outcome ConfigurationError (Buffer T) :=
  if capacity.val < 1 then err .zeroCapacity
  else
    match filled capacity.val.toNat .newSlotList with
    | .ok free => .ok ⟨capacity, .newSlotList, .newSlotList, free⟩
    | .error (.err error) => error.elim
    | .error (.panic reason) => panic reason

/-! ### What a ring holds -/

/-- A node with a value. -/
def Slot.holding (value : T) : Slot T :=
  ⟨some value⟩

/-- **The queue of a ring.** No node with a value is free, and no node is lost. -/
structure Represents (ring : Buffer T) (held : List T) : Prop where
  order : ring.front.slots ++ ring.back.slots.reverse = held.map Slot.holding
  spare : ∀ node ∈ ring.free.slots, node.value = none
  nodes : (ring.stored + ring.free.slots.length : ℤ) = ring.capacity.val

namespace Represents

section

variable (rep : Represents self held)
include rep

theorem stored_eq : self.stored = held.length := by
  have same := congrArg List.length rep.order
  rw [length_append, length_reverse, length_map] at same
  exact same

theorem nodes_short :
    self.stored + self.free.slots.length < 2 ^ 31 := by
  have nodes := rep.nodes
  have small := self.capacity.property.2
  omega

theorem len_ok : self.len = .ok held.length := by
  have short := rep.nodes_short
  have same := rep.stored_eq
  unfold Buffer.stored at short same
  unfold Buffer.len SlotList.len
  rw [self.front.counted, self.back.counted, if_pos (by omega), same]

theorem space_eq :
    (held.length + self.space : ℤ) = self.capacity.val := by
  have nodes := rep.nodes
  rw [rep.stored_eq] at nodes
  unfold Buffer.space SlotList.len
  rw [self.free.counted]
  exact nodes

end

end Represents

/-! ### A new ring -/

theorem filled_ok (left : ℕ) (free : SlotList T)
    (empty : ∀ node ∈ free.slots, node.value = none)
    (small : left + free.slots.length < 2 ^ 31) :
    ∃ after, filled left free = .ok after ∧ (∀ node ∈ after.slots, node.value = none) ∧
      after.slots.length = left + free.slots.length := by
  induction left generalizing free with
  | zero => exact ⟨free, rfl, empty, (Nat.zero_add _).symm⟩
  | succ left ih =>
    obtain ⟨longer, pushed, slots⟩ := free.push_ok ⟨none⟩ (by omega)
    obtain ⟨after, rest, empty', length⟩ := ih longer
      (by
        rw [slots]
        intro node mem
        rcases mem_cons.mp mem with rfl | mem
        · rfl
        · exact empty node mem)
      (by rw [slots, length_cons]; omega)
    refine ⟨after, ?_, empty', ?_⟩
    · rw [filled, pushed]
      exact rest
    · rw [length, slots, length_cons]
      omega

theorem newBuffer_refuses {capacity : I32} (small : capacity.val < 1) :
    (newBuffer capacity : Outcome _ (Buffer T)) = err .zeroCapacity := by
  unfold newBuffer
  rw [if_pos small]

theorem newBuffer_ok {capacity : I32} (large : ¬capacity.val < 1) :
    ∃ self : Buffer T, newBuffer capacity = .ok self ∧ self.capacity = capacity ∧
      Represents self [] := by
  have small := capacity.property.2
  obtain ⟨free, fills, empty, length⟩ := filled_ok (T := T) capacity.val.toNat .newSlotList
    (by intro node mem; cases mem)
    (by change capacity.val.toNat + 0 < _; omega)
  refine ⟨⟨capacity, .newSlotList, .newSlotList, free⟩, ?_, rfl, rfl, empty, ?_⟩
  · unfold newBuffer
    rw [if_neg large, fills]
  · change ((0 : ℕ) + free.slots.length : ℤ) = capacity.val
    rw [length]
    change ((0 : ℕ) + (capacity.val.toNat + 0 : ℕ) : ℤ) = capacity.val
    omega

/-! ### The functions of a ring -/

theorem push_represents (rep : Represents self held)
    (v : T) (room : (held.length : ℤ) < self.capacity.val) :
    ∃ after, self.push v = .ok (.ok (), after) ∧ after.capacity = self.capacity ∧
      Represents after (held ++ [v]) := by
  have space := rep.space_eq
  have short := rep.nodes_short
  obtain ⟨capacity, front, back, ⟨_ | ⟨node, next⟩, length, counted⟩⟩ := self
  · unfold Buffer.space SlotList.len at space
    dsimp only at space room
    rw [counted, length_nil] at space
    omega
  · obtain ⟨back', pushed, slots⟩ := back.push_ok ⟨some v⟩
      (by unfold Buffer.stored at short; dsimp only at short; rw [length_cons] at short; omega)
    refine ⟨⟨capacity, front, back', (SlotList.pop ⟨node :: next, length, counted⟩).2⟩, ?_, rfl,
      ?_, ?_, ?_⟩
    · change (back.push ⟨some v⟩ >>= _) = _
      rw [pushed]
      rfl
    · have order := rep.order
      dsimp only at order ⊢
      rw [slots, reverse_cons, ← append_assoc, order, map_append]
      rfl
    · exact fun node mem => rep.spare node (mem_cons_of_mem _ mem)
    · have nodes := rep.nodes
      change ((front.slots.length + back'.slots.length : ℕ) + next.length : ℤ) = capacity.val
      change ((front.slots.length + back.slots.length : ℕ) + (node :: next).length : ℤ) =
        capacity.val at nodes
      rw [slots]
      rw [length_cons] at nodes ⊢
      omega

/-- **A full ring gives the value back** and stays as it is. -/
theorem push_full (rep : Represents self held)
    (v : T) (full : (held.length : ℤ) = self.capacity.val) :
    self.push v = .ok (.error (.full v), self) := by
  have space := rep.space_eq
  obtain ⟨capacity, front, back, ⟨_ | ⟨node, next⟩, length, counted⟩⟩ := self
  · rfl
  · unfold Buffer.space SlotList.len at space
    dsimp only at space full
    rw [counted, length_cons] at space
    omega

theorem turn_ok (front back : SlotList T)
    (small : front.slots.length + back.slots.length < 2 ^ 31) :
    ∃ after, Buffer.turn front back = .ok after := by
  obtain ⟨slots, length, counted⟩ := back
  induction slots generalizing front length with
  | nil =>
    rw [Buffer.turn, if_pos ((SlotList.isEmpty_iff _).mpr rfl)]
    exact ⟨_, rfl⟩
  | cons node next ih =>
    rw [length_cons] at small
    obtain ⟨longer, pushed, slots⟩ := front.push_ok node (by omega)
    rw [Buffer.turn, if_neg (by rw [SlotList.isEmpty_iff]; exact cons_ne_nil _ _)]
    dsimp only [SlotList.pop]
    rw [pushed]
    exact ih longer _ _ (by rw [slots, length_cons]; dsimp only; omega)

section

variable (rep : Represents self held)
include rep

/-- A refilled ring holds the same queue, the oldest value on top of its front. -/
theorem refill_represents :
    ∃ after, self.refill = .ok after ∧ after.capacity = self.capacity ∧
      Represents after held ∧ (after.front.slots = [] → held = []) := by
  have short := rep.nodes_short
  have order := rep.order
  have nodes := rep.nodes
  unfold Buffer.stored at short nodes
  unfold Buffer.refill
  by_cases empty : self.front.isEmpty = true
  · obtain ⟨⟨front, back⟩, turned⟩ := turn_ok self.front self.back (by omega)
    obtain ⟨slots, rest⟩ := Buffer.turn_stored turned
    rw [(SlotList.isEmpty_iff _).mp empty, append_nil] at slots
    rw [(SlotList.isEmpty_iff _).mp empty, nil_append] at order
    refine ⟨{ self with front, back }, ?_, rfl, ⟨?_, rep.spare, ?_⟩, ?_⟩
    · rw [if_pos empty, Buffer.rotate, turned]
      rfl
    · rw [rest, slots, order, reverse_nil, append_nil]
    · unfold Buffer.stored
      rw [(SlotList.isEmpty_iff _).mp empty, length_nil] at nodes
      dsimp only
      rw [rest, slots, length_reverse, length_nil]
      omega
    · intro none
      rw [slots, order] at none
      exact map_eq_nil_iff.mp none
  · rw [if_neg empty]
    refine ⟨self, rfl, rfl, rep, ?_⟩
    intro none
    exact absurd ((SlotList.isEmpty_iff _).mpr none) empty

/-- The oldest value goes out. -/
theorem pop_represents :
    ∃ after, self.pop = .ok (held.head?, after) ∧ after.capacity = self.capacity ∧
      Represents after held.tail := by
  obtain ⟨m, refilled, same, rep, none⟩ := refill_represents rep
  have short := rep.nodes_short
  obtain ⟨capacity, ⟨_ | ⟨node, next⟩, length, counted⟩, back, free⟩ := m
  · obtain rfl := none rfl
    refine ⟨⟨capacity, ⟨[], length, counted⟩, back, free⟩, ?_, same, rep⟩
    unfold Buffer.pop
    rw [refilled]
    rfl
  · have order := rep.order
    have nodes := rep.nodes
    unfold Buffer.stored at short nodes
    dsimp only at short order nodes
    rw [length_cons] at short nodes
    cases held with
    | nil => cases order
    | cons v =>
      rw [map_cons, cons_append, List.cons.injEq] at order
      obtain ⟨rfl, order⟩ := order
      obtain ⟨free', pushed, slots⟩ := free.push_ok ⟨Option.none⟩ (by omega)
      refine ⟨⟨capacity, (SlotList.pop ⟨Slot.holding v :: next, length, counted⟩).2, back,
        free'⟩, ?_, same, order, ?_, ?_⟩
      · unfold Buffer.pop
        rw [refilled]
        change (free.push ⟨Option.none⟩ >>= _) = _
        rw [pushed]
        rfl
      · dsimp only
        rw [slots]
        intro node mem
        rcases mem_cons.mp mem with rfl | mem
        · rfl
        · exact rep.spare node mem
      · change ((next.length + back.slots.length : ℕ) + free'.slots.length : ℤ) = capacity.val
        rw [slots, length_cons]
        omega

theorem peek_represents :
    ∃ after, self.peek = .ok ((held.head?.isSome, held.head?.toList), after) ∧
      after.capacity = self.capacity ∧ Represents after held := by
  obtain ⟨m, refilled, same, rep, none⟩ := refill_represents rep
  have short := rep.nodes_short
  obtain ⟨capacity, ⟨_ | ⟨node, next⟩, length, counted⟩, back, free⟩ := m
  · obtain rfl := none rfl
    refine ⟨⟨capacity, ⟨[], length, counted⟩, back, free⟩, ?_, same, rep⟩
    unfold Buffer.peek
    rw [refilled]
    rfl
  · have order := rep.order
    unfold Buffer.stored at short
    dsimp only at short order
    rw [length_cons] at short
    cases held with
    | nil => cases order
    | cons v =>
      rw [map_cons, cons_append, List.cons.injEq] at order
      obtain ⟨rfl, order⟩ := order
      let popped : SlotList T := (SlotList.pop ⟨Slot.holding v :: next, length, counted⟩).2
      obtain ⟨front, pushed, slots⟩ := popped.push_ok ⟨some v⟩
        (by change next.length + 1 < _; omega)
      have restored : front = ⟨Slot.holding v :: next, length, counted⟩ :=
        SlotList.ext_slots slots
      refine ⟨⟨capacity, front, back, free⟩, ?_, same, restored ▸ rep⟩
      unfold Buffer.peek
      rw [refilled]
      change ((popped.push ⟨some v⟩ >>= _) >>= _) = _
      rw [pushed]
      rfl

theorem drain_represents
    (vs : Queue T) (small : vs.items.length + held.length < 2 ^ 31) :
    ∃ final after, self.drain vs = .ok (final, after) ∧ final.items = vs.items ++ held ∧
      after.capacity = self.capacity ∧ Represents after [] := by
  have length := rep.len_ok
  induction held generalizing self vs with
  | nil =>
    refine ⟨vs, self, ?_, (append_nil _).symm, rfl, rep⟩
    rw [Buffer.drain]
    split
    · rename_i stop same
      cases length.symm.trans same
    · rfl
    · rename_i same
      cases length.symm.trans same
  | cons v held ih =>
    rw [length_cons] at small length
    obtain ⟨next, popped, same, rep⟩ := pop_represents rep
    obtain ⟨longer, enqueued, xs⟩ := vs.enqueue_ok (ε := Empty) v (by omega)
    obtain ⟨final, after, drained, items', same', rep⟩ := ih rep longer
      (by rw [xs, length_append, length_singleton]; omega)
      rep.len_ok
    refine ⟨final, after, ?_, ?_, same'.trans same, rep⟩
    · rw [Buffer.drain]
      split
      · rename_i stop same
        cases length.symm.trans same
      · rename_i same
        cases length.symm.trans same
      · split
        · rename_i stop same
          cases popped.symm.trans same
        · rename_i same
          cases popped.symm.trans same
        · rename_i same
          cases popped.symm.trans same
          rw [enqueued]
          exact drained
    · rw [items', xs, append_assoc]
      rfl

theorem reset_represents :
    ∃ after, self.reset = .ok (held, after) ∧ after.capacity = self.capacity ∧
      Represents after [] := by
  have length := rep.len_ok
  induction held generalizing self with
  | nil =>
    refine ⟨self, ?_, rfl, rep⟩
    rw [Buffer.reset]
    split
    · rename_i stop same
      cases length.symm.trans same
    · rfl
    · rename_i same
      cases length.symm.trans same
  | cons v held ih =>
    rw [length_cons] at length
    obtain ⟨_, popped, same, rep⟩ := pop_represents rep
    obtain ⟨after, reset, same', rep⟩ := ih rep rep.len_ok
    refine ⟨after, ?_, same'.trans same, rep⟩
    rw [Buffer.reset]
    split
    · rename_i stop same
      cases length.symm.trans same
    · rename_i same
      cases length.symm.trans same
    · split
      · rename_i stop same
        cases popped.symm.trans same
      · rename_i same
        cases popped.symm.trans same
        rw [reset]
        rfl

end

end Ring

end FoundationLang.Standard
