/-
**Numbers as paths in a binary tree.**

The bits of a positive number below its highest one are the way from the root of a binary tree to
one of its nodes, `1` being the root and `2 * n`, `2 * n + 1` the children of `n`.

* `bitsBelow number depth` — the lowest `depth` bits, from the highest of them down.
* `path number` — the bits below the highest bit.
* `le_of_path_prefix` — a node above another one has the smaller number.
-/

import Mathlib.Data.List.Infix
import Mathlib.Data.Nat.Bitwise

namespace FoundationLang.Library

/-- The lowest bits of a number, the highest of them first. -/
def bitsBelow (number : ℕ) : ℕ → List Bool
  | 0 => []
  | depth + 1 => number.testBit depth :: bitsBelow number depth

/-- The bits of a number below its highest bit. -/
def path (number : ℕ) : List Bool :=
  bitsBelow number number.log2

theorem bitsBelow_half (n d : ℕ) :
    bitsBelow n (d + 1) = bitsBelow (n / 2) d ++ [n.testBit 0] := by
  induction d with
  | zero => rfl
  | succ d ih =>
    rw [bitsBelow, ih, bitsBelow, Nat.testBit_succ, List.cons_append]

theorem log2_half {n : ℕ} (large : 2 ≤ n) : n.log2 = (n / 2).log2 + 1 := by
  rw [Nat.log2_def, if_pos large]

@[simp] theorem path_one : path 1 = [] := rfl

/-- **The last turn of a path is the lowest bit.** -/
theorem path_half {n : ℕ} (large : 2 ≤ n) :
    path n = path (n / 2) ++ [n.testBit 0] := by
  rw [path, log2_half large, bitsBelow_half, path]

theorem path_ne_nil {n : ℕ} (large : 2 ≤ n) : path n ≠ [] := by
  rw [path_half large]
  exact List.append_ne_nil_of_right_ne_nil _ (List.cons_ne_nil _ _)

theorem eq_of_half_eq {left right : ℕ} (half : left / 2 = right / 2)
    (low : left.testBit 0 = right.testBit 0) : left = right := by
  rw [Nat.testBit_zero, Nat.testBit_zero, decide_eq_decide] at low
  omega

/-- A path is the path of one positive number at most. -/
theorem path_injective {left right : ℕ} (one : 0 < left) (two : 0 < right)
    (same : path left = path right) : left = right := by
  induction left using Nat.strongRecOn generalizing right with
  | ind left ih =>
    rcases Nat.lt_or_ge left 2 with small | large
    · obtain rfl : left = 1 := by omega
      rcases Nat.lt_or_ge right 2 with tiny | big
      · omega
      · exact absurd same.symm (path_ne_nil big)
    · rcases Nat.lt_or_ge right 2 with tiny | big
      · obtain rfl : right = 1 := by omega
        exact absurd same (path_ne_nil large)
      · rw [path_half large, path_half big] at same
        obtain ⟨front, last⟩ := List.append_inj' same rfl
        have half : left / 2 = right / 2 := by
          apply ih (left / 2) _ _ _ front <;> omega
        exact eq_of_half_eq half (List.head_eq_of_cons_eq last)

/-- **Nodes are numbered from the root down.** -/
theorem le_of_path_prefix {upper lower : ℕ} (one : 0 < upper) (two : 0 < lower)
    (above : path upper <+: path lower) : upper ≤ lower := by
  induction lower using Nat.strongRecOn with
  | ind lower ih =>
    rcases Nat.lt_or_ge lower 2 with small | large
    · obtain rfl : lower = 1 := by omega
      have whole : path upper = path 1 := List.prefix_nil.mp above
      exact (path_injective one two whole).le
    · rw [path_half large, List.prefix_concat_iff] at above
      rcases above with whole | above
      · rw [← path_half large] at whole
        exact (path_injective one two whole).le
      · have half : upper ≤ lower / 2 := by
          apply ih (lower / 2) _ _ above <;> omega
        omega

/-! ### Walking with a mask -/

/-- The mask of the first of the lowest bits, and zero when there is none. -/
def maskOf : ℕ → ℕ
  | 0 => 0
  | depth + 1 => 2 ^ depth

theorem maskOf_half (depth : ℕ) : maskOf (depth + 1) / 2 = maskOf depth := by
  cases depth with
  | zero => rfl
  | succ => simp [maskOf, Nat.pow_succ]

@[simp] theorem maskOf_succ_ne_zero (d : ℕ) : maskOf (d + 1) ≠ 0 := by
  simp [maskOf]

theorem maskOf_eq_one {d : ℕ} : maskOf (d + 1) = 1 ↔ d = 0 := by
  simp [maskOf]

theorem and_maskOf_eq_zero (n d : ℕ) :
    n &&& maskOf (d + 1) = 0 ↔ n.testBit d = false := by
  rw [maskOf, Nat.and_two_pow, mul_eq_zero, or_iff_left (Nat.two_pow_pos d).ne', Bool.toNat_eq_zero]

theorem two_pow_log2_half (n : ℕ) : 2 ^ n.log2 / 2 = maskOf n.log2 := by
  cases n.log2 with
  | zero => rfl
  | succ => simp [maskOf, Nat.pow_succ]

end FoundationLang.Library
