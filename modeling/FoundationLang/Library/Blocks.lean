/-
**Functions that take a text block by block.**

* `Absorbed` — the value of a fold over the blocks so far, with what is left behind the last one; it
  grows with the text (`Absorbed.extend`, `Absorbed.complete`).
-/

import Mathlib.Algebra.Order.Group.Nat
import Mathlib.Data.List.Basic
import Mathlib.Data.Nat.ModEq

namespace FoundationLang.Library

open List

variable {σ β : Type} {size : ℕ}

/-- **The full blocks of a text.** -/
def blocks (size : ℕ) (text : List β) : List (List β) :=
  (List.range (text.length / size)).map fun index => (text.drop (size * index)).take size

theorem blocks_short {text : List β} (short : text.length < size) : blocks size text = [] := by
  unfold blocks
  rw [Nat.div_eq_of_lt short]
  rfl

theorem blocks_nil (pos : 0 < size) : blocks size ([] : List β) = [] :=
  blocks_short pos

theorem blocks_cons {block text : List β} (pos : 0 < size) (full : block.length = size) :
    blocks size (block ++ text) = block :: blocks size text := by
  unfold blocks
  rw [length_append, full, Nat.add_div_left _ pos, range_succ_eq_map, map_cons,
    map_map, Nat.mul_zero, drop_zero, take_left' full]
  congr 1
  refine map_congr_left fun index _ => ?_
  change ((block ++ text).drop (size * (index + 1))).take size = _
  rw [Nat.mul_succ, Nat.add_comm, ← drop_drop, drop_left' full]

theorem blocks_full {block : List β} (pos : 0 < size) (full : block.length = size) :
    blocks size block = [block] := by
  have alone : blocks size (block ++ []) = _ := blocks_cons pos full
  rwa [append_nil, blocks_nil pos] at alone

theorem blocks_append {x second : List β} (pos : 0 < size) (whole : size ∣ x.length) :
    blocks size (x ++ second) = blocks size x ++ blocks size second := by
  obtain ⟨count, length⟩ := whole
  induction count generalizing x with
  | zero =>
    rw [Nat.mul_zero, length_eq_zero_iff] at length
    rw [length, nil_append, blocks_nil pos, nil_append]
  | succ count ih =>
    have enough : size ≤ x.length := by
      rw [length, Nat.mul_succ]
      exact Nat.le_add_left _ _
    have full : (x.take size).length = size := length_take_of_le enough
    have rest : (x.drop size).length = size * count := by
      rw [length_drop, length, Nat.mul_succ, Nat.add_sub_cancel]
    rw [← take_append_drop size x, append_assoc, blocks_cons pos full,
      blocks_cons pos full, ih rest, cons_append]

theorem blocks_length (size : ℕ) (text : List β) : (blocks size text).length = text.length / size := by
  unfold blocks
  rw [length_map, length_range]

theorem length_of_mem_blocks {text block : List β} (mem : block ∈ blocks size text) :
    block.length = size := by
  unfold blocks at mem
  obtain ⟨index, inside, rfl⟩ := mem_map.mp mem
  rw [mem_range] at inside
  have enough : size * (index + 1) ≤ text.length :=
    (Nat.mul_le_mul_left size inside).trans (Nat.mul_div_le text.length size)
  rw [length_take, length_drop]
  rw [Nat.mul_succ] at enough
  omega

theorem blocks_flatten {text : List β} (pos : 0 < size) (whole : size ∣ text.length) :
    (blocks size text).flatten = text := by
  obtain ⟨count, length⟩ := whole
  induction count generalizing text with
  | zero =>
    rw [Nat.mul_zero, length_eq_zero_iff] at length
    rw [length, blocks_nil pos]
    rfl
  | succ count ih =>
    have enough : size ≤ text.length := by
      rw [length, Nat.mul_succ]
      exact Nat.le_add_left _ _
    have rest : (text.drop size).length = size * count := by
      rw [length_drop, length, Nat.mul_succ, Nat.add_sub_cancel]
    conv_lhs => rw [← take_append_drop size text]
    rw [blocks_cons pos (length_take_of_le enough), flatten_cons, ih rest,
      take_append_drop]

/-! ### Text that comes in parts -/

/-- **The state of a fold over a text so far**, and what is left behind the last full block. -/
structure Absorbed (size : ℕ) (compress : σ → List β → σ) (start : σ) (text : List β) (state : σ)
    (left : List β) : Prop where
  short : left.length < size
  split : ∃ front, text = front ++ left ∧ size ∣ front.length ∧
    state = (blocks size front).foldl compress start

variable {compress : σ → List β → σ} {start s : σ} {text left part : List β}

theorem absorbed_nil (pos : 0 < size) : Absorbed size compress start ([] : List β) start [] :=
  ⟨pos, [], rfl, Nat.dvd_zero size, by
    rw [blocks_nil pos]
    rfl⟩

section

variable (absorbed : Absorbed size compress start text s left)
include absorbed

/-- The text grows, and there is no further full block. -/
theorem Absorbed.extend
    (short : (left ++ part).length < size) :
    Absorbed size compress start (text ++ part) s (left ++ part) := by
  obtain ⟨_, front, rfl, whole, v⟩ := absorbed
  exact ⟨short, front, append_assoc front left part, whole, v⟩

/-- **The text grows, and a block is full.** -/
theorem Absorbed.complete
    (full : (left ++ part).length = size) :
    Absorbed size compress start (text ++ part) (compress s (left ++ part)) [] := by
  obtain ⟨short, front, rfl, whole, v⟩ := absorbed
  have pos : 0 < size := Nat.lt_of_le_of_lt (Nat.zero_le _) short
  refine ⟨pos, front ++ (left ++ part), ?_, ?_, ?_⟩
  · rw [append_nil, append_assoc]
  · rw [length_append, full]
    exact Nat.dvd_add whole (Nat.dvd_refl size)
  · rw [blocks_append pos whole, blocks_full pos full, foldl_append, ← v]
    rfl

theorem Absorbed.left_length :
    left.length = text.length % size := by
  obtain ⟨short, _, rfl, ⟨_, length⟩, _⟩ := absorbed
  rw [length_append, length, Nat.mul_add_mod, Nat.mod_eq_of_lt short]

end

/-- The fold over the whole text, when nothing is left. -/
theorem Absorbed.state_eq (absorbed : Absorbed size compress start text s []) :
    s = (blocks size text).foldl compress start := by
  obtain ⟨_, _, rfl, _, _⟩ := absorbed
  rwa [append_nil]

end FoundationLang.Library
