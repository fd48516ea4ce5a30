/-
**The arena of the self-hosted compiler.**

`arena.fn` keeps the values of an arena in a binary tree. The slot with index `id` is at the node
that the bits of `id + 1` below its highest bit lead to, so that a tree with `length` slots has the
nodes `1` to `length`.
-/

import FoundationLang.Library.BinaryPath

namespace FoundationLang.Selfhost

open Library List Function

/-- How the arena stops the program: `arenaFailure`, the `panic` of `setArenaValue`, or arithmetic
beyond a `u64`. -/
inductive ArenaPanic
  | failure (message : String)
  | overflow
deriving DecidableEq, Repr

/-- `+` on `u64`. -/
def addU64 (left right : ℕ) : Except ArenaPanic ℕ :=
  if left + right < 2 ^ 64 then .ok (left + right) else .error .overflow

/-- A slot and the two trees below it. -/
inductive ArenaNode (T : Type)
  | node (value : Option T) (left right : Option (ArenaNode T))

/-- A tree and its length, a `u64` with checked arithmetic. -/
structure Arena (T : Type) where
  root : Option (ArenaNode T)
  length : ℕ

variable {T : Type} {turns : List Bool}

theorem bind_ok_iff {α β : Type} {r : Except ArenaPanic α}
    {next : α → Except ArenaPanic β} {final : β} :
    (r >>= next) = .ok final ↔ ∃ v, r = .ok v ∧ next v = .ok final := by
  cases r with
  | error =>
    constructor
    · rintro ⟨⟩
    · rintro ⟨_, ⟨⟩, _⟩
  | ok v =>
    constructor
    · exact fun same => ⟨v, rfl, same⟩
    · rintro ⟨_, ⟨⟩, same⟩
      exact same

/-! ### The walks -/

/-- A leaf. -/
def newArenaNode (value : T) : ArenaNode T :=
  .node (some value) none none

/-- The loop of `highestArenaBit`. The doubled bit is at most `value`, so that it does not
overflow. -/
def highestArenaBitFrom (value bit : ℕ) (positive : 0 < bit) : ℕ :=
  if bit ≤ value / 2 then highestArenaBitFrom value (bit * 2) (by omega) else bit
termination_by value - bit
decreasing_by omega

/-- The highest bit of a number. -/
def highestArenaBit (value : ℕ) : ℕ :=
  highestArenaBitFrom value 1 Nat.one_pos

/-- A new slot, at the end of its path. -/
def insertArenaNode : ArenaNode T → ℕ → ℕ → T → Except ArenaPanic (ArenaNode T)
  | .node previous left right, key, mask, value =>
    if mask = 0 then
      match previous with
      | none => .ok (.node (some value) left right)
      | some _ => .error (.failure "arena slot is occupied")
    else if key &&& mask = 0 then
      match left with
      | none =>
        if mask ≠ 1 then .error (.failure "arena left branch invariant failed")
        else .ok (.node previous (some (newArenaNode value)) right)
      | some child => do
        let child ← insertArenaNode child key (mask / 2) value
        .ok (.node previous (some child) right)
    else
      match right with
      | none =>
        if mask ≠ 1 then .error (.failure "arena right branch invariant failed")
        else .ok (.node previous left (some (newArenaNode value)))
      | some child => do
        let child ← insertArenaNode child key (mask / 2) value
        .ok (.node previous left (some child))

/-- `takeArenaNode`; the pair is the source's `arenaVisit`. -/
def takeArenaNode : ArenaNode T → ℕ → ℕ → Except ArenaPanic (ArenaNode T × Option T)
  | .node value left right, key, mask =>
    if mask = 0 then .ok (.node none left right, value)
    else if key &&& mask = 0 then
      match left with
      | none => .error (.failure "arena branch invariant failed")
      | some child => do
        let (restored, taken) ← takeArenaNode child key (mask / 2)
        .ok (.node value (some restored) right, taken)
    else
      match right with
      | none => .error (.failure "arena branch invariant failed")
      | some child => do
        let (restored, taken) ← takeArenaNode child key (mask / 2)
        .ok (.node value left (some restored), taken)

/-- A value back into its slot. -/
def restoreArenaNode : ArenaNode T → ℕ → ℕ → T → Except ArenaPanic (ArenaNode T)
  | .node previous left right, key, mask, value =>
    if mask = 0 then
      match previous with
      | none => .ok (.node (some value) left right)
      | some _ => .error (.failure "arena slot is occupied")
    else if key &&& mask = 0 then
      match left with
      | none => .error (.failure "arena branch invariant failed")
      | some child => do
        let child ← restoreArenaNode child key (mask / 2) value
        .ok (.node previous (some child) right)
    else
      match right with
      | none => .error (.failure "arena branch invariant failed")
      | some child => do
        let child ← restoreArenaNode child key (mask / 2) value
        .ok (.node previous left (some child))

/-- The tree without the slot at the end of a path. -/
def removeArenaNode : ArenaNode T → ℕ → ℕ → Except ArenaPanic (ArenaNode T)
  | .node value left right, key, mask =>
    if mask = 1 then
      if key &&& mask = 0 then
        match left with
        | none => .error (.failure "arena branch invariant failed")
        | some _ => .ok (.node value none right)
      else
        match right with
        | none => .error (.failure "arena branch invariant failed")
        | some _ => .ok (.node value left none)
    else if key &&& mask = 0 then
      match left with
      | none => .error (.failure "arena branch invariant failed")
      | some child => do
        let child ← removeArenaNode child key (mask / 2)
        .ok (.node value (some child) right)
    else
      match right with
      | none => .error (.failure "arena branch invariant failed")
      | some child => do
        let child ← removeArenaNode child key (mask / 2)
        .ok (.node value left (some child))

/-! ### The operations -/

namespace Arena

/-- No slots. -/
def newArena : Arena T :=
  { root := none, length := 0 }

/-- A slot behind the last one; its index. -/
def add (arena : Arena T) (value : T) : Except ArenaPanic (Arena T × ℕ) := do
  let id := arena.length
  let root ←
    match arena.root with
    | none =>
      if id ≠ 0 then .error (.failure "arena root invariant failed")
      else .ok (newArenaNode value)
    | some node => do
      let key ← addU64 id 1
      insertArenaNode node key (highestArenaBit key / 2) value
  let length ← addU64 arena.length 1
  .ok ({ root := some root, length := length }, id)

/-- The value of a slot, which is empty then. -/
def take (arena : Arena T) (id : ℕ) : Except ArenaPanic (Arena T × Option T) :=
  if arena.length ≤ id then .ok (arena, none)
  else
    match arena.root with
    | none => .error (.failure "arena root invariant failed")
    | some node => do
      let key ← addU64 id 1
      let (restored, value) ← takeArenaNode node key (highestArenaBit key / 2)
      .ok ({ arena with root := some restored }, value)

/-- A value into an empty slot. -/
def restore (arena : Arena T) (id : ℕ) (value : T) : Except ArenaPanic (Arena T) :=
  if arena.length ≤ id then .error (.failure "arena restore index out of bounds")
  else
    match arena.root with
    | none => .error (.failure "arena root invariant failed")
    | some node => do
      let key ← addU64 id 1
      let root ← restoreArenaNode node key (highestArenaBit key / 2) value
      .ok { arena with root := some root }

/-- One turn of the loop of `truncate`, which removes the last slot. -/
def removeLast (arena : Arena T) : Except ArenaPanic (Arena T) := do
  let id := arena.length - 1
  match arena.root with
  | none => .error (.failure "arena root invariant failed")
  | some node =>
    if id = 0 then .ok { root := none, length := id }
    else do
      let key ← addU64 id 1
      let root ← removeArenaNode node key (highestArenaBit key / 2)
      .ok { root := some root, length := id }

theorem removeLast_length {arena shorter : Arena T} (removed : arena.removeLast = .ok shorter) :
    shorter.length = arena.length - 1 := by
  unfold removeLast at removed
  cases root : arena.root with
  | none => simp [root] at removed
  | some =>
    simp only [root] at removed
    split_ifs at removed
    · cases removed; rfl
    · obtain ⟨_, -, removed⟩ := bind_ok_iff.mp removed
      obtain ⟨_, -, removed⟩ := bind_ok_iff.mp removed
      cases removed; rfl

/-- The arena with its first slots only. -/
def truncate (arena : Arena T) (length : ℕ) : Except ArenaPanic (Arena T) :=
  if length < arena.length then
    match _removed : arena.removeLast with
    | .error panic => .error panic
    | .ok shorter => shorter.truncate length
  else .ok arena
termination_by arena.length
decreasing_by
  have last := removeLast_length ‹arena.removeLast = .ok shorter›
  omega

/-- The arena without its slots. -/
def clear (_ : Arena T) : Arena T :=
  { root := none, length := 0 }

end Arena

/-- A value in the place of another one. -/
def setArenaValue (values : Arena T) (id : ℕ) (value : T) : Except ArenaPanic (Arena T) := do
  let (values, previous) ← values.take id
  match previous with
  | none => .error (.failure "arena slot is empty")
  | some _ => values.restore id value

/-! ### What is stored where -/

/-- The slot at the end of a path, if the tree has a node there. -/
def ArenaNode.slot : ArenaNode T → List Bool → Option (Option T)
  | .node value _ _, [] => some value
  | .node _ (some child) _, false :: turns => child.slot turns
  | .node _ none _, false :: _ => none
  | .node _ _ (some child), true :: turns => child.slot turns
  | .node _ _ none, true :: _ => none

/-- The slot at the end of a path from a branch on. -/
def below (branch : Option (ArenaNode T)) (turns : List Bool) : Option (Option T) :=
  branch.bind fun node => node.slot turns

@[simp] theorem slot_nil (value : Option T) (left right : Option (ArenaNode T)) :
    (ArenaNode.node value left right).slot [] = some value := by
  simp [ArenaNode.slot]

/-- The branch that a turn takes. -/
@[simp] def ArenaNode.branch : ArenaNode T → Bool → Option (ArenaNode T)
  | .node _ left _, false => left
  | .node _ _ right, true => right

/-- The node with another branch there. -/
@[simp] def ArenaNode.setBranch : ArenaNode T → Bool → Option (ArenaNode T) → ArenaNode T
  | .node value _ right, false, changed => .node value changed right
  | .node value left _, true, changed => .node value left changed

@[simp] theorem slot_cons (node : ArenaNode T) (side : Bool) (turns : List Bool) :
    node.slot (side :: turns) = below (node.branch side) turns := by
  obtain ⟨_, _ | _, _ | _⟩ := node <;> cases side <;> simp [ArenaNode.slot, ArenaNode.branch, below]

@[simp] theorem below_none (turns : List Bool) : below (none : Option (ArenaNode T)) turns = none :=
  rfl

@[simp] theorem below_some (node : ArenaNode T) : below (some node) = node.slot :=
  rfl

theorem slot_eq_update {v v' : Option T} {left right : Option (ArenaNode T)} :
    (ArenaNode.node v' left right).slot
      = update (ArenaNode.node v left right).slot [] (some v') := by
  funext turns
  rcases turns with _ | ⟨_ | _, turns⟩ <;> simp

theorem slot_setBranch {node : ArenaNode T} {side : Bool} {changed : Option (ArenaNode T)}
    {stored : Option (Option T)} (child : below changed = update (below (node.branch side)) turns stored) :
    (node.setBranch side changed).slot = update node.slot (side :: turns) stored := by
  obtain ⟨v, left, right⟩ := node
  funext y
  cases side <;> rcases y with _ | ⟨_ | _, y⟩ <;>
    simp_all [update_apply, ArenaNode.branch, ArenaNode.setBranch]

theorem slot_setBranch_cut {node : ArenaNode T} {side : Bool} {changed : Option (ArenaNode T)}
    {path : List Bool} (child : ∀ turns, below changed turns
      = if path <+: turns then none else below (node.branch side) turns) (turns : List Bool) :
    (node.setBranch side changed).slot turns
      = if side :: path <+: turns then none else node.slot turns := by
  obtain ⟨v, left, right⟩ := node
  cases side <;> rcases turns with _ | ⟨_ | _, turns⟩ <;> simp_all

theorem below_newArenaNode (v : T) :
    below (some (newArenaNode v)) = update (below none) [] (some (some v)) := by
  funext turns
  rcases turns with _ | ⟨_ | _, turns⟩ <;> simp [newArenaNode]

theorem exists_of_below {branch : Option (ArenaNode T)}
    (present : below branch turns ≠ none) : ∃ child, branch = some child := by
  cases branch with
  | none => exact absurd rfl present
  | some child => exact ⟨child, rfl⟩

theorem eq_none_of_below {branch : Option (ArenaNode T)} (fresh : below branch [] = none) :
    branch = none := by
  rcases branch with _ | ⟨_, _, _⟩
  · rfl
  · simp at fresh

/-! ### What the walks do to the slots -/

/-- **Taking empties one slot.** -/
theorem takeArenaNode_spec (key d : ℕ) (node : ArenaNode T) (stored : Option T)
    (present : node.slot (bitsBelow key d) = some stored) :
    ∃ restored, takeArenaNode node key (maskOf d) = .ok (restored, stored)
      ∧ restored.slot = update node.slot (bitsBelow key d) (some none) := by
  induction d generalizing node with
  | zero =>
    obtain ⟨v, left, right⟩ := node
    simp only [bitsBelow, slot_nil, Option.some.injEq] at present
    subst present
    exact ⟨.node none left right, by unfold takeArenaNode; simp [maskOf], slot_eq_update⟩
  | succ d ih =>
    rw [bitsBelow, slot_cons] at present
    obtain ⟨child, branch⟩ := exists_of_below (by rw [present]; simp)
    rw [branch] at present
    obtain ⟨restored, taken, slots⟩ := ih child present
    refine ⟨node.setBranch (key.testBit d) (some restored), ?_, slot_setBranch (by rwa [branch])⟩
    obtain ⟨v, left, right⟩ := node
    unfold takeArenaNode
    simp only [maskOf_succ_ne_zero, if_false, and_maskOf_eq_zero, maskOf_half]
    generalize key.testBit d = side at branch ⊢
    cases side <;> simp_all [bind, Except.bind]

/-- **Restoring fills one empty slot.** -/
theorem restoreArenaNode_spec (key d : ℕ) (node : ArenaNode T) (v : T)
    (vacant : node.slot (bitsBelow key d) = some none) :
    ∃ restored, restoreArenaNode node key (maskOf d) v = .ok restored
      ∧ restored.slot = update node.slot (bitsBelow key d) (some (some v)) := by
  induction d generalizing node with
  | zero =>
    obtain ⟨previous, left, right⟩ := node
    simp only [bitsBelow, slot_nil, Option.some.injEq] at vacant
    subst vacant
    exact ⟨.node (some v) left right, by unfold restoreArenaNode; simp [maskOf], slot_eq_update⟩
  | succ d ih =>
    rw [bitsBelow, slot_cons] at vacant
    obtain ⟨child, branch⟩ := exists_of_below (by rw [vacant]; simp)
    rw [branch] at vacant
    obtain ⟨restored, done, slots⟩ := ih child vacant
    refine ⟨node.setBranch (key.testBit d) (some restored), ?_, slot_setBranch (by rwa [branch])⟩
    obtain ⟨previous, left, right⟩ := node
    unfold restoreArenaNode
    simp only [maskOf_succ_ne_zero, if_false, and_maskOf_eq_zero, maskOf_half]
    generalize key.testBit d = side at branch ⊢
    cases side <;> simp_all [bind, Except.bind]

/-- **Inserting adds one node** to a parent that has no child there. -/
theorem insertArenaNode_spec (key d : ℕ) (node : ArenaNode T) (v : T)
    (parent : node.slot (bitsBelow (key / 2) d) ≠ none)
    (fresh : node.slot (bitsBelow key (d + 1)) = none) :
    ∃ grown, insertArenaNode node key (maskOf (d + 1)) v = .ok grown
      ∧ grown.slot
        = update node.slot (bitsBelow key (d + 1)) (some (some v)) := by
  induction d generalizing node with
  | zero =>
    rw [bitsBelow, slot_cons] at fresh
    have branch := eq_none_of_below fresh
    refine ⟨node.setBranch (key.testBit 0) (some (newArenaNode v)), ?_,
      slot_setBranch (by rw [branch]; exact below_newArenaNode v)⟩
    obtain ⟨previous, left, right⟩ := node
    unfold insertArenaNode
    simp only [maskOf_succ_ne_zero, if_false, and_maskOf_eq_zero]
    generalize key.testBit 0 = side at branch ⊢
    cases side <;> simp_all [maskOf]
  | succ d ih =>
    rw [bitsBelow, ← Nat.testBit_succ, slot_cons] at parent
    rw [bitsBelow, slot_cons] at fresh
    obtain ⟨child, branch⟩ := exists_of_below parent
    rw [branch] at parent fresh
    obtain ⟨grown, done, slots⟩ := ih child parent fresh
    refine ⟨node.setBranch (key.testBit (d + 1)) (some grown), ?_,
      slot_setBranch (by rwa [branch])⟩
    obtain ⟨previous, left, right⟩ := node
    unfold insertArenaNode
    simp only [maskOf_succ_ne_zero, if_false, and_maskOf_eq_zero, maskOf_half]
    generalize key.testBit (d + 1) = side at branch ⊢
    cases side <;> simp_all [bind, Except.bind]

/-- **Removing cuts a branch off.** -/
theorem removeArenaNode_spec (key d : ℕ) (node : ArenaNode T)
    (present : node.slot (bitsBelow key (d + 1)) ≠ none) :
    ∃ kept, removeArenaNode node key (maskOf (d + 1)) = .ok kept
      ∧ ∀ turns, kept.slot turns
        = if bitsBelow key (d + 1) <+: turns then none else node.slot turns := by
  induction d generalizing node with
  | zero =>
    rw [bitsBelow, slot_cons] at present
    obtain ⟨child, branch⟩ := exists_of_below present
    refine ⟨node.setBranch (key.testBit 0) none, ?_, slot_setBranch_cut fun turns => by simp [bitsBelow]⟩
    obtain ⟨v, left, right⟩ := node
    unfold removeArenaNode
    rw [if_pos (maskOf_eq_one.mpr rfl)]
    simp only [and_maskOf_eq_zero]
    generalize key.testBit 0 = side at branch ⊢
    cases side <;> simp_all
  | succ d ih =>
    rw [bitsBelow, slot_cons] at present
    obtain ⟨child, branch⟩ := exists_of_below present
    rw [branch] at present
    obtain ⟨kept, done, slots⟩ := ih child present
    refine ⟨node.setBranch (key.testBit (d + 1)) (some kept), ?_,
      slot_setBranch_cut (by rwa [branch])⟩
    obtain ⟨v, left, right⟩ := node
    unfold removeArenaNode
    simp only [maskOf_eq_one, Nat.succ_ne_zero, if_false, and_maskOf_eq_zero, maskOf_half]
    generalize key.testBit (d + 1) = side at branch ⊢
    cases side <;> simp_all [bind, Except.bind]

/-! ### The arena as a vector -/

theorem highestArenaBitFrom_eq (value d : ℕ) (pos : 0 < 2 ^ d)
    (small : 2 ^ d ≤ value) : highestArenaBitFrom value (2 ^ d) pos = 2 ^ value.log2 := by
  have nonzero : value ≠ 0 := by omega
  induction left : value.log2 - d generalizing d with
  | zero =>
    have high : d ≤ value.log2 := (Nat.le_log2 nonzero).mpr small
    obtain rfl : d = value.log2 := by omega
    have bound : value < 2 ^ (value.log2 + 1) := Nat.lt_log2_self
    rw [Nat.pow_succ] at bound
    rw [highestArenaBitFrom, if_neg (by omega)]
  | succ left ih =>
    have low : d + 1 ≤ value.log2 := by omega
    have next : 2 ^ (d + 1) ≤ value := (Nat.le_log2 nonzero).mp low
    have twice : 2 ^ d * 2 = 2 ^ (d + 1) := (Nat.pow_succ ..).symm
    rw [highestArenaBitFrom, if_pos (by omega)]
    simp only [twice]
    exact ih (d + 1) _ next (by omega)

theorem highestArenaBit_half {key : ℕ} (pos : 0 < key) :
    highestArenaBit key / 2 = maskOf key.log2 := by
  rw [highestArenaBit, ← two_pow_log2_half]
  exact congrArg (· / 2) (highestArenaBitFrom_eq key 0 _ pos)

/-- **The arena stands for a vector of optional slots.** The node of slot `id` is the one with the
number `id + 1`, and there are no other nodes. -/
structure Holds (arena : Arena T) (slots : List (Option T)) : Prop where
  length : arena.length = slots.length
  bounded : slots.length < 2 ^ 64
  stored : ∀ id, below arena.root (path (id + 1)) = slots[id]?

theorem path_succ_eq {left right : ℕ} : path (left + 1) = path (right + 1) ↔ left = right := by
  refine ⟨fun same => ?_, fun same => by rw [same]⟩
  have numbers : left + 1 = right + 1 :=
    path_injective (Nat.succ_pos left) (Nat.succ_pos right) same
  omega

theorem update_path (slots : List Bool → Option (Option T)) (changed id : ℕ)
    (stored : Option (Option T)) :
    update slots (path (changed + 1)) stored (path (id + 1))
      = if id = changed then stored else slots (path (id + 1)) := by
  rw [update_apply]
  simp only [path_succ_eq]

variable {arena : Arena T} {slots : List (Option T)}

theorem Holds.root_eq_none (holds : Holds arena slots) :
    arena.root = none ↔ slots = [] := by
  have root := holds.stored 0
  rw [zero_add, path_one] at root
  rcases tree : arena.root with _ | ⟨v, left, right⟩
  · simp only [tree, below_none] at root
    simp only [true_iff]
    exact length_eq_zero_iff.mp (by have := List.getElem?_eq_none_iff.mp root.symm; omega)
  · simp only [tree, below_some, slot_nil] at root
    simp only [reduceCtorEq, false_iff]
    rintro rfl
    simp at root

theorem Holds.exists_root (holds : Holds arena slots)
    {id : ℕ} (inside : id < slots.length) : ∃ node, arena.root = some node := by
  rcases tree : arena.root with _ | node
  · rw [holds.root_eq_none] at tree
    simp [tree] at inside
  · exact ⟨node, rfl⟩

theorem Holds.set (holds : Holds arena slots) {id : ℕ}
    (inside : id < slots.length) {changed : Option (ArenaNode T)} {stored : Option T}
    (slot : below changed = update (below arena.root) (path (id + 1)) (some stored)) :
    Holds { arena with root := changed } (slots.set id stored) where
  length := by rw [length_set]; exact holds.length
  bounded := by rw [length_set]; exact holds.bounded
  stored other := by
    rw [slot, update_path, holds.stored, List.getElem?_set]
    rcases eq_or_ne other id with rfl | ne
    · simp [inside]
    · rw [if_neg ne, if_neg ne.symm]

theorem addU64_one {id : ℕ} (small : id + 1 < 2 ^ 64) : addU64 id 1 = .ok (id + 1) := by
  rw [addU64, if_pos small]

/-! ### The operations on the vector -/

section

variable (holds : Holds arena slots)
include holds

theorem add_spec
    (v : T) (room : slots.length + 1 < 2 ^ 64) :
    ∃ grown, arena.add v = .ok (grown, slots.length)
      ∧ Holds grown (slots ++ [some v]) := by
  -- One slot more, at the path of the new number, is one element more at the end.
  have append : ∀ grown : ArenaNode T,
      grown.slot = update (below arena.root) (path (slots.length + 1))
        (some (some v)) →
      Holds { root := some grown, length := slots.length + 1 } (slots ++ [some v]) := by
    intro grown slot
    refine ⟨by simp, by simpa using room, fun id => ?_⟩
    rw [below_some, slot, update_path, holds.stored]
    rcases lt_trichotomy id slots.length with inside | rfl | outside
    · rw [if_neg inside.ne, List.getElem?_append_left inside]
    · simp
    · rw [if_neg outside.ne', List.getElem?_eq_none outside.le,
        List.getElem?_eq_none (by simp only [length_append, length_singleton]; omega)]
  unfold Arena.add
  rw [holds.length, addU64_one room]
  rcases tree : arena.root with _ | node
  · obtain rfl := holds.root_eq_none.mp tree
    refine ⟨_, rfl, append (newArenaNode v) ?_⟩
    rw [tree]
    exact below_newArenaNode v
  · have occupied : slots ≠ [] := fun empty => by
      rw [← holds.root_eq_none, tree] at empty
      cases empty
    have some_slot : 0 < slots.length := length_pos_of_ne_nil occupied
    have depth : (slots.length + 1).log2 = ((slots.length + 1) / 2).log2 + 1 :=
      log2_half (by omega)
    have parent : node.slot (path ((slots.length + 1) / 2)) ≠ none := by
      have stored := holds.stored ((slots.length + 1) / 2 - 1)
      have number : (slots.length + 1) / 2 - 1 + 1 = (slots.length + 1) / 2 := by omega
      rw [tree, below_some, number] at stored
      rw [stored]
      simp only [ne_eq, List.getElem?_eq_none_iff]
      omega
    have fresh : node.slot (path (slots.length + 1)) = none := by
      have stored := holds.stored slots.length
      rw [tree, below_some] at stored
      rw [stored]
      simp
    rw [path, depth] at fresh
    obtain ⟨grown, done, slot⟩ := insertArenaNode_spec _ _ node v parent fresh
    rw [← depth] at done slot
    refine ⟨{ root := some grown, length := slots.length + 1 }, ?_, append grown ?_⟩
    · rw [← highestArenaBit_half (Nat.succ_pos _), Nat.succ_eq_add_one] at done
      simp [addU64_one room, bind, Except.bind, done]
    · rw [tree]
      exact slot

theorem add_overflow
    (v : T) (full : ¬slots.length + 1 < 2 ^ 64) : arena.add v = .error .overflow := by
  have bounded := holds.bounded
  obtain ⟨node, tree⟩ := holds.exists_root (by omega : 0 < slots.length)
  have stopped : addU64 slots.length 1 = .error .overflow := by rw [addU64, if_neg full]
  unfold Arena.add
  simp [holds.length, tree, stopped, bind, Except.bind]

theorem take_spec
    (id : ℕ) :
    ∃ left, arena.take id = .ok (left, slots[id]?.join) ∧ Holds left (slots.set id none) := by
  have bounded := holds.bounded
  unfold Arena.take
  rw [holds.length]
  rcases Nat.lt_or_ge id slots.length with inside | outside
  · obtain ⟨node, tree⟩ := holds.exists_root inside
    obtain ⟨stored, slot⟩ : ∃ stored, slots[id]? = some stored :=
      ⟨slots[id], List.getElem?_eq_getElem inside⟩
    have present : node.slot (path (id + 1)) = some stored := by
      rw [← below_some, ← tree, holds.stored, slot]
    obtain ⟨restored, taken, slots'⟩ := takeArenaNode_spec _ _ node stored present
    refine ⟨{ arena with root := some restored }, ?_, holds.set inside ?_⟩
    · rw [← highestArenaBit_half (Nat.succ_pos _), Nat.succ_eq_add_one] at taken
      rw [if_neg (by omega), tree, slot]
      simp [addU64_one (by omega : id + 1 < 2 ^ 64), bind, Except.bind, taken, holds.length]
    · rw [tree]
      exact slots'
  · refine ⟨arena, ?_, ?_⟩
    · rw [if_pos outside, List.getElem?_eq_none outside]
      rfl
    · rw [set_eq_of_length_le outside]
      exact holds

theorem restore_spec
    {id : ℕ} (vacant : slots[id]? = some none) (v : T) :
    ∃ filled, arena.restore id v = .ok filled
      ∧ Holds filled (slots.set id (some v)) := by
  have bounded := holds.bounded
  obtain ⟨inside, -⟩ := List.getElem?_eq_some_iff.mp vacant
  obtain ⟨node, tree⟩ := holds.exists_root inside
  have present : node.slot (path (id + 1)) = some none := by
    rw [← below_some, ← tree, holds.stored, vacant]
  obtain ⟨restored, done, slots'⟩ := restoreArenaNode_spec _ _ node v present
  refine ⟨{ arena with root := some restored }, ?_, holds.set inside ?_⟩
  · rw [← highestArenaBit_half (Nat.succ_pos _), Nat.succ_eq_add_one] at done
    unfold Arena.restore
    rw [holds.length, if_neg (by omega), tree]
    simp [addU64_one (by omega : id + 1 < 2 ^ 64), bind, Except.bind, done]
  · rw [tree]
    exact slots'

theorem removeLast_spec
    (nonempty : 0 < slots.length) :
    ∃ shorter, arena.removeLast = .ok shorter
      ∧ Holds shorter (slots.take (slots.length - 1)) := by
  have bounded := holds.bounded
  obtain ⟨node, tree⟩ := holds.exists_root nonempty
  unfold Arena.removeLast
  rw [holds.length, tree]
  rcases Nat.lt_or_ge 1 slots.length with several | single
  · have number : slots.length - 1 + 1 = slots.length := by omega
    have depth : slots.length.log2 = (slots.length / 2).log2 + 1 := log2_half several
    have present : node.slot (path slots.length) ≠ none := by
      have stored := holds.stored (slots.length - 1)
      rw [tree, below_some, number] at stored
      rw [stored]
      simp only [ne_eq, List.getElem?_eq_none_iff]
      omega
    rw [path, depth] at present
    obtain ⟨kept, done, slots'⟩ := removeArenaNode_spec _ _ node present
    rw [← depth] at done slots'
    refine ⟨{ root := some kept, length := slots.length - 1 }, ?_, ?_⟩
    · rw [← highestArenaBit_half nonempty] at done
      simp only [if_neg (by omega : ¬slots.length - 1 = 0)]
      simp [addU64_one (by omega : slots.length - 1 + 1 < 2 ^ 64), number, bind, Except.bind, done]
    · refine ⟨by simp, by simp only [length_take]; omega, fun id => ?_⟩
      change kept.slot (path (id + 1)) = _
      rw [slots' (path (id + 1))]
      have stored := holds.stored id
      rw [tree, below_some] at stored
      -- A number with the last node's path in front is that number or beyond all of them.
      split_ifs with above
      · have beyond : slots.length ≤ id + 1 :=
          le_of_path_prefix nonempty (Nat.succ_pos id) above
        rw [List.getElem?_eq_none (by simp only [length_take]; omega)]
      · rcases Nat.lt_or_ge id (slots.length - 1) with inside | outside
        · rw [stored, List.getElem?_take_of_lt inside]
        · rw [List.getElem?_eq_none (by simp only [length_take]; omega), stored]
          rcases Nat.eq_or_lt_of_le outside with rfl | outside
          · rw [number] at above
            exact absurd prefix_rfl above
          · exact List.getElem?_eq_none (by omega)
  · have one : slots.length = 1 := by omega
    refine ⟨{ root := none, length := 0 }, by simp [one], ?_⟩
    rw [one]
    exact ⟨rfl, by simp, fun id => by simp⟩

theorem truncate_spec
    (length : ℕ) :
    ∃ shorter, arena.truncate length = .ok shorter ∧ Holds shorter (slots.take length) := by
  induction slots using List.reverseRecOn generalizing arena with
  | nil =>
    refine ⟨arena, ?_, by simpa using holds⟩
    unfold Arena.truncate
    rw [holds.length, if_neg (by simp)]
  | append_singleton front last ih =>
    unfold Arena.truncate
    rw [holds.length]
    rcases Nat.lt_or_ge length (front ++ [last]).length with longer | short
    · obtain ⟨shorter, done, left⟩ := removeLast_spec holds (by simp)
      simp only [length_append, length_singleton, Nat.add_sub_cancel,
        take_left] at left
      obtain ⟨final, rest, kept⟩ := ih left
      refine ⟨final, ?_, ?_⟩
      · rw [if_pos longer]
        split
        · next failed => rw [done] at failed; cases failed
        · next next same => rw [done] at same; cases same; exact rest
      · rw [length_append, length_singleton] at longer
        rw [take_append_of_le_length (by omega)]
        exact kept
    · refine ⟨arena, by rw [if_neg (by omega)], ?_⟩
      rw [take_of_length_le short]
      exact holds

end

theorem clear_spec (arena : Arena T) : Holds arena.clear [] where
  length := rfl
  bounded := by simp
  stored id := by simp [Arena.clear]

theorem newArena_spec : Holds (Arena.newArena : Arena T) [] where
  length := rfl
  bounded := by simp
  stored id := by simp [Arena.newArena]

theorem setArenaValue_spec (holds : Holds arena slots)
    {id : ℕ} {previous : T} (occupied : slots[id]? = some (some previous)) (v : T) :
    ∃ changed, setArenaValue arena id v = .ok changed
      ∧ Holds changed (slots.set id (some v)) := by
  obtain ⟨inside, -⟩ := List.getElem?_eq_some_iff.mp occupied
  obtain ⟨_, taken, left⟩ := take_spec holds id
  have vacant : (slots.set id none)[id]? = some none := by
    rw [List.getElem?_set_self inside]
  obtain ⟨filled, done, stands⟩ := restore_spec left vacant v
  refine ⟨filled, ?_, by simpa using stands⟩
  unfold setArenaValue
  simp [taken, occupied, bind, Except.bind, done]

/-! ### Runs -/

/-- A call of one of the operations. -/
inductive ArenaCall (T : Type)
  | add (value : T)
  | take (id : ℕ)
  | restore (id : ℕ) (value : T)
  | truncate (length : ℕ)
  | clear

/-- What a call returns. -/
inductive ArenaAnswer (T : Type)
  | index (id : ℕ)
  | value (stored : Option T)
  | done
deriving DecidableEq, Repr

/-- The arena behind a call, and the answer. -/
def Arena.call (arena : Arena T) : ArenaCall T → Except ArenaPanic (Arena T × ArenaAnswer T)
  | .add value => do
    let (grown, id) ← arena.add value
    .ok (grown, .index id)
  | .take id => do
    let (left, stored) ← arena.take id
    .ok (left, .value stored)
  | .restore id value => do
    let filled ← arena.restore id value
    .ok (filled, .done)
  | .truncate length => do
    let shorter ← arena.truncate length
    .ok (shorter, .done)
  | .clear => .ok (arena.clear, .done)

/-- **What the calls mean**: an arena is a vector of optional slots, with fewer than `2 ^ 64` of
them. -/
def slotsCall (slots : List (Option T)) :
    ArenaCall T → Except ArenaPanic (List (Option T) × ArenaAnswer T)
  | .add value =>
    if slots.length + 1 < 2 ^ 64 then .ok (slots ++ [some value], .index slots.length)
    else .error .overflow
  | .take id => .ok (slots.set id none, .value slots[id]?.join)
  | .restore id value => .ok (slots.set id (some value), .done)
  | .truncate length => .ok (slots.take length, .done)
  | .clear => .ok ([], .done)

/-- Several calls in a row, with all their answers. -/
def callAll {S : Type} (call : S → ArenaCall T → Except ArenaPanic (S × ArenaAnswer T)) :
    S → List (ArenaCall T) → Except ArenaPanic (S × List (ArenaAnswer T))
  | state, [] => .ok (state, [])
  | state, next :: rest => do
    let (state, answer) ← call state next
    let (state, answers) ← callAll call state rest
    .ok (state, answer :: answers)

/-- A value is restored only to a slot in range that is empty. -/
def ArenaCall.Proper (slots : List (Option T)) : ArenaCall T → Prop
  | .restore id _ => slots[id]? = some none
  | _ => True

/-- Calls that a caller with this view of the slots may make. -/
def Proper : List (Option T) → List (ArenaCall T) → Prop
  | _, [] => True
  | slots, call :: rest =>
    call.Proper slots ∧ ∀ next answer, slotsCall slots call = .ok (next, answer) → Proper next rest

/-- Two results agree: the same answer and states that stand for each other, or both overflow. -/
def Agree {A : Type} : Except ArenaPanic (Arena T × A) →
    Except ArenaPanic (List (Option T) × A) → Prop
  | .ok (arena, answer), .ok (slots, expected) => answer = expected ∧ Holds arena slots
  | .error panic, .error expected => panic = .overflow ∧ expected = .overflow
  | _, _ => False

theorem call_refines (holds : Holds arena slots)
    {call : ArenaCall T} (proper : call.Proper slots) :
    Agree (arena.call call) (slotsCall slots call) := by
  cases call with
  | add v =>
    by_cases room : slots.length + 1 < 2 ^ 64
    · obtain ⟨_, done, stands⟩ := add_spec holds v room
      simp only [Arena.call, slotsCall, done, if_pos room]
      exact ⟨rfl, stands⟩
    · simp only [Arena.call, slotsCall, add_overflow holds v room, if_neg room]
      exact ⟨rfl, rfl⟩
  | take id =>
    obtain ⟨_, done, stands⟩ := take_spec holds id
    simp only [Arena.call, slotsCall, done]
    exact ⟨rfl, stands⟩
  | restore id v =>
    obtain ⟨_, done, stands⟩ := restore_spec holds proper v
    simp only [Arena.call, slotsCall, done]
    exact ⟨rfl, stands⟩
  | truncate length =>
    obtain ⟨_, done, stands⟩ := truncate_spec holds length
    simp only [Arena.call, slotsCall, done]
    exact ⟨rfl, stands⟩
  | clear => exact ⟨rfl, clear_spec arena⟩

theorem callAll_refines (holds : Holds arena slots)
    {calls : List (ArenaCall T)} (proper : Proper slots calls) :
    Agree (callAll Arena.call arena calls) (callAll slotsCall slots calls) := by
  induction calls generalizing arena slots with
  | nil => exact ⟨rfl, holds⟩
  | cons call rest ih =>
    obtain ⟨first, later⟩ := proper
    have one := call_refines holds first
    unfold callAll
    rcases left : arena.call call with panic | ⟨next, answer⟩ <;>
      rcases right : slotsCall slots call with panic' | ⟨next', answer'⟩ <;>
      rw [left, right] at one
    · exact one
    · exact one.elim
    · exact one.elim
    · obtain ⟨rfl, stands⟩ := one
      have others := ih stands (later next' answer right)
      simp only [bind, Except.bind]
      rcases first : callAll Arena.call next rest with panic | ⟨final, answers⟩ <;>
        rcases second : callAll slotsCall next' rest with panic' | ⟨final', answers'⟩ <;>
        rw [first, second] at others
      · exact others
      · exact others.elim
      · exact others.elim
      · exact ⟨congrArg (answer :: ·) others.1, others.2⟩

/-- **The arena refines a vector of optional slots.** A run of proper calls from the empty arena
gives the answers of the vector and ends in an arena that stands for it; the program stops only on
the overflow at which the vector is full. -/
theorem arena_refines (calls : List (ArenaCall T)) (proper : Proper [] calls) :
    (∃ arena slots answers, callAll Arena.call Arena.newArena calls = .ok (arena, answers)
        ∧ callAll slotsCall [] calls = .ok (slots, answers) ∧ Holds arena slots)
      ∨ (callAll Arena.call Arena.newArena calls = .error .overflow
        ∧ callAll slotsCall [] calls = .error .overflow) := by
  have agree := callAll_refines newArena_spec proper
  rcases left : callAll Arena.call Arena.newArena calls with panic | ⟨arena, answers⟩ <;>
    rcases right : callAll slotsCall [] calls with panic' | ⟨slots, answers'⟩ <;>
    rw [left, right] at agree
  · obtain ⟨rfl, rfl⟩ := agree
    exact .inr ⟨rfl, rfl⟩
  · exact agree.elim
  · exact agree.elim
  · obtain ⟨rfl, stands⟩ := agree
    exact .inl ⟨arena, slots, answers, rfl, rfl, stands⟩

/-- A slot is taken, restored, taken again and out of range. -/
theorem arena_refines_sample :
    ∃ arena, callAll Arena.call Arena.newArena
        [.add 'a', .add 'b', .add 'c', .take 1, .restore 1 'd', .truncate 2, .take 1, .take 2]
        = .ok (arena, [.index 0, .index 1, .index 2, .value (some 'b'), .done, .done,
            .value (some 'd'), .value none])
      ∧ Holds arena [some 'a', none] := by
  have refined := arena_refines
    [.add 'a', .add 'b', .add 'c', .take 1, .restore 1 'd', .truncate 2, .take 1, .take 2]
    (by simp [Proper, ArenaCall.Proper, slotsCall])
  rcases refined with ⟨arena, _, _, run, vector, stands⟩ | ⟨-, overflow⟩
  · cases vector
    exact ⟨arena, run, stands⟩
  · cases overflow

end FoundationLang.Selfhost
