/-
**Bit strings, first bit first, and the bytes that hold them.**

* `digits`, `number` — the string of a number in a given length, and the number of a string.
* `bits`, `unbits` — the string of a list of bytes, and back.
-/

import Mathlib.Data.List.GetD
import Mathlib.Data.List.Induction
import Mathlib.Tactic.Ring
import FoundationLang.Library.Blocks

namespace FoundationLang.Library

open List

/-- The string of the last bits of a number. -/
def digits (length number : ℕ) : List Bool :=
  (List.range length).map fun place => number.testBit (length - 1 - place)

/-- The number with these binary digits. -/
def number (string : List Bool) : ℕ :=
  string.foldl (fun sum bit => 2 * sum + bit.toNat) 0

/-- The string of a list of bytes. -/
def bits (bytes : List UInt8) : List Bool :=
  bytes.flatMap fun byte => digits 8 byte.toNat

/-- The bytes of a string. -/
def unbits (string : List Bool) : List UInt8 :=
  (blocks 8 string).map fun block => UInt8.ofNat (number block)

/-! ### Numbers -/

theorem digits_length (length n : ℕ) : (digits length n).length = length := by
  unfold digits
  rw [length_map, length_range]

theorem digits_succ (length n : ℕ) :
    digits (length + 1) n = digits length (n / 2) ++ [n.testBit 0] := by
  unfold digits
  rw [range_succ, map_append]
  congr 1
  · refine map_congr_left fun place inside => ?_
    rw [Nat.testBit_div_two, mem_range] at *
    congr 1
    omega
  · rw [map_singleton, Nat.add_sub_cancel, Nat.sub_self]

theorem digits_add (upper : ℕ) (lower number : ℕ) :
    digits (upper + lower) number = digits upper (number / 2 ^ lower) ++ digits lower number := by
  induction lower generalizing number with
  | zero => rw [Nat.add_zero, Nat.pow_zero, Nat.div_one]; exact (append_nil _).symm
  | succ lower ih =>
    rw [← Nat.add_assoc, digits_succ, ih, digits_succ, Nat.div_div_eq_div_mul,
      ← Nat.pow_succ', append_assoc]

theorem digits_mod (length number : ℕ) : digits length (number % 2 ^ length) = digits length number := by
  unfold digits
  refine map_congr_left fun place inside => ?_
  have below : length - 1 - place < length := by
    rw [mem_range] at inside
    omega
  rw [Nat.testBit_mod_two_pow, decide_eq_true below, Bool.true_and]

theorem digits_zero (length : ℕ) : digits length 0 = List.replicate length false := by
  unfold digits
  rw [map_congr_left (g := fun _ => false) fun place _ => Nat.zero_testBit _,
    map_const', length_range]

theorem number_append (string : List Bool) (bit : Bool) :
    number (string ++ [bit]) = 2 * number string + bit.toNat := by
  unfold number
  rw [foldl_append]
  rfl

theorem number_digits (length v : ℕ) : number (digits length v) = v % 2 ^ length := by
  induction length generalizing v with
  | zero => rw [Nat.pow_zero, Nat.mod_one]; rfl
  | succ length ih =>
    rw [digits_succ, number_append, ih, Nat.testBit_zero, Nat.pow_succ', Nat.mod_mul]
    have := Nat.mod_two_eq_zero_or_one v
    rcases this with even | odd
    · rw [even]; simp
    · rw [odd]; simp [Nat.add_comm]

theorem digits_number (string : List Bool) : digits string.length (number string) = string := by
  induction string using List.reverseRecOn with
  | nil => rfl
  | append_singleton string bit ih =>
    have half : number (string ++ [bit]) / 2 = number string := by
      rw [number_append]
      have := bit.toNat_lt
      omega
    have last : (number (string ++ [bit])).testBit 0 = bit := by
      rw [number_append, Nat.testBit_zero, Nat.mul_add_mod]
      cases bit <;> rfl
    rw [length_append, length_singleton, digits_succ, half, last, ih]

theorem number_concat (x second : List Bool) :
    number (x ++ second) = number x * 2 ^ second.length + number second := by
  induction second using List.reverseRecOn with
  | nil => rw [append_nil, length_nil, Nat.pow_zero, Nat.mul_one]; rfl
  | append_singleton second bit ih =>
    rw [← append_assoc, number_append, number_append, ih, length_append,
      length_singleton, Nat.pow_succ]
    ring

/-! ### Bytes -/

theorem bits_nil : bits [] = [] :=
  rfl

theorem bits_cons (b : UInt8) (bytes : List UInt8) :
    bits (b :: bytes) = digits 8 b.toNat ++ bits bytes :=
  rfl

theorem bits_append (x second : List UInt8) : bits (x ++ second) = bits x ++ bits second :=
  flatMap_append

theorem bits_length (bytes : List UInt8) : (bits bytes).length = 8 * bytes.length := by
  induction bytes with
  | nil => rfl
  | cons b bytes ih =>
    rw [bits_cons, length_append, digits_length, ih, length_cons]
    omega

theorem bits_replicate (n : ℕ) :
    bits (List.replicate n 0) = List.replicate (8 * n) false := by
  induction n with
  | zero => rfl
  | succ n ih =>
    rw [replicate_succ, bits_cons, ih, UInt8.toNat_zero, digits_zero,
      replicate_append_replicate, Nat.mul_succ, Nat.add_comm]

theorem unbits_bits (bytes : List UInt8) : unbits (bits bytes) = bytes := by
  induction bytes with
  | nil => rfl
  | cons b bytes ih =>
    unfold unbits at *
    rw [bits_cons, blocks_cons (by decide) (digits_length 8 _), map_cons, ih,
      number_digits, Nat.mod_eq_of_lt b.toNat_lt, UInt8.ofNat_toNat]

theorem bits_injective {x second : List UInt8} (same : bits x = bits second) :
    x = second := by
  rw [← unbits_bits x, same, unbits_bits]

theorem number_bits_cons (b : UInt8) (bytes : List UInt8) :
    number (bits (b :: bytes)) = b.toNat * 2 ^ (8 * bytes.length) + number (bits bytes) := by
  rw [bits_cons, number_concat, number_digits, Nat.mod_eq_of_lt b.toNat_lt, bits_length]

theorem digits_number_bits (bytes : List UInt8) :
    digits (8 * bytes.length) (number (bits bytes)) = bits bytes := by
  rw [← bits_length, digits_number]

theorem bits_getD (bytes : List UInt8) (p : ℕ) :
    (bits bytes).getD p false = (bytes.getD (p / 8) 0).toNat.testBit (7 - p % 8) := by
  induction bytes generalizing p with
  | nil => rw [bits_nil, getD_nil, getD_nil, UInt8.toNat_zero, Nat.zero_testBit]
  | cons b bytes ih =>
    rw [bits_cons]
    rcases Nat.lt_or_ge p 8 with first | later
    · rw [getD_append _ _ _ _ (by rw [digits_length]; exact first), Nat.div_eq_of_lt first,
        Nat.mod_eq_of_lt first, getD_cons_zero, getD_eq_getElem?_getD]
      unfold digits
      rw [List.getElem?_map, List.getElem?_range first, Option.map_some, Option.getD_some]
    · rw [getD_append_right _ _ _ _ (by rw [digits_length]; exact later), digits_length,
        ih, show p / 8 = (p - 8) / 8 + 1 by omega, getD_cons_succ,
        show p % 8 = (p - 8) % 8 by omega]

theorem digits_xor (length x y : ℕ) :
    digits length (x ^^^ y) = List.zipWith xor (digits length x) (digits length y) := by
  unfold digits
  rw [zipWith_map, zipWith_self]
  exact map_congr_left fun place _ => Nat.testBit_xor ..

/-- The exclusive or of bytes is that of their bits. -/
theorem bits_zipWith_xor (x y : List UInt8) :
    bits (List.zipWith (· ^^^ ·) x y) = List.zipWith xor (bits x) (bits y) := by
  induction x generalizing y with
  | nil => rfl
  | cons b x ih =>
    cases y with
    | nil => rw [zipWith_nil_right, bits_nil, zipWith_nil_right]
    | cons =>
      rw [zipWith_cons_cons, bits_cons, bits_cons, bits_cons, ih, UInt8.toNat_xor,
        digits_xor, zipWith_append]
      rw [digits_length, digits_length]

end FoundationLang.Library
