/-
**The counter blocks of one encryption.**
-/

import Mathlib.Data.List.Nodup
import FoundationLang.Crypto.Sealing

namespace FoundationLang.Crypto

open Library Library.Gcm

/-- The counter blocks that `gcmCrypt` enciphers, by its loop. -/
def gcmCounters (input counter : List UInt8) : List (List UInt8) :=
  if input.length ≠ 0 then
    let count := if input.length < 16 then input.length else 16
    let counter := gcmIncrement counter
    counter :: gcmCounters (input.drop count) counter
  else []
termination_by input.length
decreasing_by
  rw [List.length_drop]
  split <;> omega

/-- The blocks that `foundation_runtime_aes256_gcm_encrypt` enciphers for the tag and the text. -/
def encryptCounters (nonce value : List UInt8) : List (List UInt8) :=
  firstCounter nonce :: gcmCounters value (firstCounter nonce)

/-- A text is combined with the enciphered counter blocks, in their order. -/
theorem gcmCrypt_counters {key : List UInt8} (sized : key.length = 32) (input : List UInt8)
    {c : List UInt8} (full : c.length = 16) :
    (gcmCrypt input c (aesExpand256 key)).1 = List.zipWith (· ^^^ ·) input
      ((gcmCounters input c).flatMap fun block => aesEncryptBlock block (aesExpand256 key)) := by
  induction input, c using gcmCounters.induct with
  | case1 input c some' count next ih =>
    have full' := (gcmIncrement_eq full).2
    have covered := (blockCipher_eq sized full').2
    have counted : count = if input.length < 16 then input.length else 16 := dite_eq_ite
    have later := ih full'
    rw [show next = gcmIncrement c from rfl] at later
    rw [gcmCrypt, if_pos some', gcmCounters, if_pos some', List.flatMap_cons, ← counted]
    dsimp only
    rw [later]
    by_cases short : input.length < 16
    · rw [if_pos short] at counted
      have none' : gcmCounters [] (gcmIncrement c) = [] := by
        rw [gcmCounters, if_neg (not_not.mpr List.length_nil)]
      rw [counted, List.drop_length, List.take_length, none']
      simp only [List.flatMap_nil, List.append_nil, List.zipWith_nil_left]
    · rw [if_neg short] at counted
      rw [counted, ← List.zipWith_append, List.take_append_drop]
      rw [covered, List.length_take_of_le (Nat.le_of_not_lt short)]
  | case2 input c nothing =>
    obtain rfl : input = [] := List.length_eq_zero_iff.mp (not_not.mp nothing)
    rw [gcmCrypt, if_neg nothing]
    rfl

/-- A counter block that was increased. -/
theorem inc32_iterate {block : List Bool} (full : block.length = 128) (n : ℕ) :
    inc32^[n] block = block.take 96 ++ digits 32 ((number (block.drop 96) + n) % 2 ^ 32) := by
  induction n with
  | zero =>
    have rest : (block.drop 96).length = 32 := by rw [List.length_drop, full]
    rw [digits_mod, Nat.add_zero, ← rest, digits_number, List.take_append_drop]
    rfl
  | succ n ih =>
    have front : (block.take 96).length = 96 := List.length_take_of_le (by omega)
    rw [Function.iterate_succ_apply', ih, inc32, List.take_left' front, List.drop_left' front,
      number_digits, Nat.mod_mod, Nat.mod_add_mod, Nat.add_assoc]

theorem gcmCounters_bits (input : List UInt8) {c : List UInt8} (full : c.length = 16) :
    (c :: gcmCounters input c).map bits
      = (List.range ((input.length + 15) / 16 + 1)).map fun index => inc32^[index] (bits c) := by
  induction input, c using gcmCounters.induct with
  | case1 input c some' count next ih =>
    obtain ⟨increment, full'⟩ := gcmIncrement_eq full
    have counted : count = if input.length < 16 then input.length else 16 := dite_eq_ite
    have blocks : (input.length + 15) / 16 = ((input.drop count).length + 15) / 16 + 1 := by
      rw [List.length_drop, counted]
      split_ifs <;> omega
    rw [gcmCounters, if_pos some', ← counted, blocks, List.range_succ_eq_map]
    refine congrArg _ ((ih full').trans ?_)
    rw [List.map_map]
    refine List.map_congr_left fun index _ => ?_
    rw [show next = gcmIncrement c from rfl, increment]
    rfl
  | case2 input c nothing =>
    obtain rfl : input = [] := List.length_eq_zero_iff.mp (not_not.mp nothing)
    rw [gcmCounters, if_neg nothing]
    rfl

theorem nodup_encryptCounters (nonce : Vector UInt8 12) (v : List UInt8) :
    (encryptCounters nonce.toList v).Nodup ↔ (v.length + 15) / 16 + 1 ≤ 2 ^ 32 := by
  have full := (firstCounter_eq nonce.length_toList).2
  have full' : (bits (firstCounter nonce.toList)).length = 128 := by rw [bits_length, full]
  have injective : Function.Injective bits := fun _ _ => bits_injective
  rw [encryptCounters, ← List.nodup_map_iff injective, gcmCounters_bits v full,
    List.nodup_map_iff_inj_on List.nodup_range]
  generalize (v.length + 15) / 16 + 1 = count
  have equal : ∀ x y, inc32^[x] (bits (firstCounter nonce.toList))
      = inc32^[y] (bits (firstCounter nonce.toList)) ↔ x % 2 ^ 32 = y % 2 ^ 32 := by
    intro x y
    rw [inc32_iterate full', inc32_iterate full', List.append_cancel_left_eq]
    constructor
    · intro same
      have numbers := congrArg number same
      rw [number_digits, number_digits, Nat.mod_mod, Nat.mod_mod] at numbers
      omega
    · intro same
      rw [Nat.add_mod, same, ← Nat.add_mod]
  constructor
  · intro distinct
    by_contra more
    have same := distinct 0 (List.mem_range.mpr (by omega)) (2 ^ 32) (List.mem_range.mpr (by omega))
      ((equal _ _).mpr rfl)
    cases same
  · intro few x inside y inside' same
    rw [List.mem_range] at inside inside'
    have residues := (equal _ _).mp same
    omega

/-- **No counter block is enciphered twice, if and only if the text has at most `2^32 - 1` blocks.** -/
theorem counters_distinct (nonce : Vector UInt8 12) (value : List UInt8) :
    (encryptCounters nonce.toList value).Nodup ↔ value.length ≤ 16 * (2 ^ 32 - 1) := by
  rw [nodup_encryptCounters]
  omega

/-- A text of `2^36` bytes is accepted, and the block of the mask is enciphered again. -/
theorem counters_distinct_longest : ¬∀ (key value associated : List UInt8) (nonce : Vector UInt8 12)
    (sealed : List UInt8),
    aes256GcmEncrypt true (some key) (some value) (some associated) (some nonce) = (0, some sealed) →
      (encryptCounters nonce.toList value).Nodup := by
  intro distinct
  have length : (List.replicate (2 ^ 36) (0 : UInt8)).length = 2 ^ 36 := List.length_replicate
  have accepted : ∃ sealed, aes256GcmEncrypt true (some (List.replicate 32 0))
      (some (List.replicate (2 ^ 36) 0)) (some []) (some (Vector.replicate 12 0)) = (0, some sealed) := by
    unfold aes256GcmEncrypt
    dsimp only
    rw [if_neg Bool.noConfusion, length, if_neg (by decide), if_neg (by decide)]
    exact ⟨_, rfl⟩
  obtain ⟨_, done⟩ := accepted
  have few := (nodup_encryptCounters _ _).mp (distinct _ _ _ _ _ done)
  rw [length] at few
  omega

end FoundationLang.Crypto
