/-
**The integer parsers of the package `std.parse`, with their arithmetic.**
-/

import FoundationLang.Standard.Strings
import Mathlib.Data.List.TakeWhile

namespace FoundationLang.Standard

open Library Outcome List

variable {maximum offset result : ℕ} {rest : List UInt8}

/-! ### The parsers -/

/-- The loop of `U64` and of `I64`, with a bound on its rounds: the offset grows. -/
def digitsFrom (value : Text) (maximum : ℕ) : ℕ → ℕ → ℕ → Outcome IntegerError ℕ
  | _, result, 0 => .ok result
  | offset, result, rounds + 1 =>
    if offset < value.byteLen then
      match value.byteAt offset with
      | .error _ => panic (.message "integer parser byte invariant failed")
      | .ok byte =>
        if byte < 48 ∨ byte > 57 then err .invalid
        else do
          let digit ← checkedSub byte 48
          let room ← checkedSub maximum digit
          if result > room / 10 then err .overflow
          else
            let scaled ← checked (result * 10)
            let next ← checked (scaled + digit)
            digitsFrom value maximum (← checked (offset + 1)) next rounds
    else .ok result

/-- `U64`, where arithmetic beyond its type stops the program. -/
def u64 (value : Text) : Outcome IntegerError ℕ :=
  if value.byteLen = 0 then err .empty
  else digitsFrom value 18446744073709551615 0 0 value.byteLen

/-- A value of `i64`. -/
def checkedI64 (value : ℤ) : Outcome IntegerError ℤ :=
  if -9223372036854775808 ≤ value ∧ value ≤ 9223372036854775807 then .ok value else panic .overflow

/-- `i64.From`. -/
def i64From (magnitude : ℕ) : Outcome IntegerError ℤ :=
  if magnitude ≤ 9223372036854775807 then .ok magnitude else err .overflow

/-- The end of `I64`. -/
def i64Result (negative : Bool) (magnitude : ℕ) : Outcome IntegerError ℤ :=
  if negative && magnitude == 9223372036854775808 then checkedI64 (-9223372036854775807 - 1)
  else do
    let signed ← i64From magnitude
    if negative then checkedI64 (-signed) else .ok signed

/-- `I64`. -/
def i64 (value : Text) : Outcome IntegerError ℤ :=
  if value.byteLen = 0 then err .empty
  else
    match value.byteAt 0 with
    | .error _ => panic (.message "integer parser byte invariant failed")
    | .ok first => do
      let negative := first == 45
      if negative && value.byteLen == 1 then err .invalid
      else
        let maximum := if negative then 9223372036854775808 else 9223372036854775807
        let magnitude ← digitsFrom value maximum (if negative then 1 else 0) 0 value.byteLen
        i64Result negative magnitude

/-! ### What is read -/

/-- A decimal digit. -/
def isDigit (byte : UInt8) : Bool :=
  48 ≤ byte.toNat && byte.toNat ≤ 57

/-- The number that digits denote, behind a number. -/
def decimal (result : ℕ) (digits : List UInt8) : ℕ :=
  digits.foldl (fun result byte => result * 10 + (byte.toNat - 48)) result

/-- **Digits up to a maximum.** They are out of range when those in front of the first other byte
are. -/
def reading (maximum result : ℕ) (bytes : List UInt8) : Except IntegerError ℕ :=
  if maximum < decimal result (bytes.takeWhile isDigit) then .error .overflow
  else if bytes.all isDigit then .ok (decimal result bytes)
  else .error .invalid

theorem decimal_le (digits : List UInt8) : ∀ result, result ≤ decimal result digits := by
  induction digits with
  | nil => exact fun result => Nat.le_refl result
  | cons b digits ih =>
    intro result
    have least := ih (result * 10 + (b.toNat - 48))
    show result ≤ decimal (result * 10 + (b.toNat - 48)) digits
    omega

/-- The test in front of a step is exact. -/
theorem parseMagnitude_reading (large : 9 ≤ maximum) (rest : List UInt8) : ∀ {result : ℕ},
    result ≤ maximum → parseMagnitude maximum rest result = reading maximum result rest := by
  induction rest with
  | nil =>
    intro result small
    have fits : ¬maximum < decimal result ([].takeWhile isDigit) := Nat.not_lt.mpr small
    unfold parseMagnitude reading
    rw [if_neg fits]
    rfl
  | cons b rest ih =>
    intro result small
    unfold parseMagnitude reading
    by_cases digit : isDigit b = true
    · have bounds : 48 ≤ b.toNat ∧ b.toNat ≤ 57 := by simpa [isDigit] using digit
      rw [if_neg (by omega), takeWhile_cons, if_pos digit, all_cons, digit, Bool.true_and]
      show (if _ then _ else _) = if maximum < decimal (result * 10 + (b.toNat - 48)) _ then _
        else if _ then Except.ok (decimal (result * 10 + (b.toNat - 48)) rest) else _
      by_cases full : maximum < result * 10 + (b.toNat - 48)
      · have beyond := decimal_le (rest.takeWhile isDigit) (result * 10 + (b.toNat - 48))
        rw [if_pos (by omega), if_pos (Nat.lt_of_lt_of_le full beyond)]
      · rw [if_neg (by omega), ih (Nat.not_lt.mp full)]
        rfl
    · have outside : b.toNat < 48 ∨ b.toNat > 57 := by
        simp only [isDigit, Bool.and_eq_true, decide_eq_true_eq] at digit
        omega
      rw [if_pos outside, takeWhile_cons, if_neg digit, all_cons, eq_false_of_ne_true digit]
      show _ = if maximum < result then _ else _
      rw [if_neg (Nat.not_lt.mpr small)]
      rfl

/-- A parser that does not stop the program. -/
def returned {α : Type} (result : Except IntegerError α) : Outcome IntegerError α :=
  result.mapError .err

/-- The loop does not panic: no step leaves `u64`. -/
theorem digitsFrom_eq {v : Text} (large : 9 ≤ maximum) (small : maximum < 2 ^ 64)
    (rest : List UInt8) : ∀ {offset result k : ℕ}, At v.bytes offset rest →
    v.byteLen = offset + rest.length → rest.length ≤ k →
    digitsFrom v maximum offset result k =
      returned (parseMagnitude maximum rest result) := by
  induction rest with
  | nil =>
    intro offset result k there whole enough
    rw [length_nil] at whole
    cases k with
    | zero => rfl
    | succ =>
      unfold digitsFrom
      rw [if_neg (by omega)]
      rfl
  | cons b rest ih =>
    intro offset result k there whole enough
    have short := v.short
    rw [length_cons] at whole enough
    obtain ⟨k, rfl⟩ : ∃ previous, k = previous + 1 := ⟨k - 1, by omega⟩
    have found : v.byteAt offset = .ok b.toNat := by
      unfold Text.byteAt
      rw [there.getElem?]
    unfold digitsFrom parseMagnitude
    rw [if_pos (by omega), found]
    dsimp only
    by_cases other : b.toNat < 48 ∨ b.toNat > 57
    · rw [if_pos other, if_pos other]
      rfl
    · rw [if_neg other, if_neg other, checkedSub_bind (by omega), checkedSub_bind (by omega)]
      by_cases full : result > (maximum - (b.toNat - 48)) / 10
      · rw [if_pos full, if_pos full]
        rfl
      · unfold Text.byteLen at whole
        rw [if_neg full, if_neg full, checked_bind (by omega), checked_bind (by omega),
          checked_bind (by omega)]
        exact ih there.tail (by unfold Text.byteLen; omega) (by omega)

theorem digitsFrom_reading {v : Text} (large : 9 ≤ maximum) (small : maximum < 2 ^ 64)
    (there : At v.bytes offset rest) (whole : v.byteLen = offset + rest.length) :
    digitsFrom v maximum offset 0 v.byteLen = returned (reading maximum 0 rest) := by
  rw [digitsFrom_eq large small rest there whole (by omega),
    parseMagnitude_reading large rest (Nat.zero_le _)]

theorem reading_le {n : ℕ} (read : reading maximum 0 rest = .ok n) : n ≤ maximum := by
  unfold reading at read
  split_ifs at read with above all
  · obtain rfl := Except.ok.inj read
    rw [List.takeWhile_eq_self_iff.mpr (by simpa using all)] at above
    exact Nat.not_lt.mp above

theorem i64Result_eq {negative : Bool} {magnitude : ℕ}
    (small : magnitude ≤ if negative then 9223372036854775808 else 9223372036854775807) :
    i64Result negative magnitude = .ok (if negative then -(magnitude : ℤ) else magnitude) := by
  unfold i64Result i64From checkedI64
  cases negative with
  | false =>
    have fits : magnitude ≤ 9223372036854775807 := by simpa using small
    simp [fits]
  | true =>
    rw [if_pos rfl] at small
    by_cases least : magnitude = 9223372036854775808
    · subst least
      rfl
    · have fits : magnitude ≤ 9223372036854775807 := by omega
      simp [least, fits]
      omega

/-- **`U64` and `I64` do not panic, and return what is read.** -/
theorem parse_reading (value : Text) :
    u64 value = returned (match value.bytes with
      | [] => .error .empty
      | bytes => reading 18446744073709551615 0 bytes) ∧
    i64 value = returned (match value.bytes with
      | [] => .error .empty
      | first :: rest =>
        if first = 45 then
          if rest = [] then .error .invalid
          else (reading 9223372036854775808 0 rest).map fun magnitude => -(magnitude : ℤ)
        else (reading 9223372036854775807 0 (first :: rest)).map fun magnitude => (magnitude : ℤ)) := by
  have whole : value.byteLen = 0 + value.bytes.length := (Nat.zero_add _).symm
  unfold u64 i64 Text.byteAt
  cases bytes : value.bytes with
  | nil =>
    have empty : value.byteLen = 0 := by rw [whole, bytes, length_nil]
    rw [if_pos empty, if_pos empty]
    exact ⟨rfl, rfl⟩
  | cons first rest =>
    have there : At value.bytes 0 (first :: rest) := bytes ▸ At.self _
    rw [bytes] at whole
    have size : value.byteLen = rest.length + 1 := by rw [whole, Nat.zero_add, length_cons]
    have some : ¬value.byteLen = 0 := by omega
    rw [if_neg some, if_neg some, digitsFrom_reading (by decide) (by decide) there whole]
    refine ⟨rfl, ?_⟩
    dsimp only [getElem?_cons_zero]
    by_cases sign : first = 45
    · subst sign
      rw [if_pos rfl]
      by_cases alone : rest = []
      · subst alone
        rw [if_pos rfl, if_pos (by simp [size])]
        rfl
      · have more := length_pos_iff.mpr alone
        rw [if_neg alone, if_neg (by simp; omega)]
        show (digitsFrom value 9223372036854775808 1 0 _ >>= _) = _
        rw [digitsFrom_reading (by decide) (by decide) there.tail (by omega)]
        cases read : reading 9223372036854775808 0 rest with
        | error => rfl
        | ok => exact i64Result_eq (reading_le read)
    · have plain : (first.toNat == 45) = false := by
        rw [beq_eq_false_iff_ne]
        exact fun same => sign (UInt8.toNat_inj.mp same)
      rw [if_neg sign, plain]
      show (digitsFrom value 9223372036854775807 0 0 _ >>= _) = _
      rw [digitsFrom_reading (by decide) (by decide) there whole]
      cases read : reading 9223372036854775807 0 (first :: rest) with
      | error => rfl
      | ok magnitude => exact @i64Result_eq false magnitude (reading_le read)

/-- `18446744073709551616x` is no digit string, and out of range. -/
theorem overflow_before_syntax : ¬∀ value : Text, u64 value = err .overflow →
    ∀ byte ∈ value.bytes, isDigit byte = true := by
  intro claim
  have beyond := claim (.literal [49, 56, 52, 52, 54, 55, 52, 52, 48, 55, 51, 55, 48, 57, 53, 53, 49,
    54, 49, 54, 120]) (by decide) 120 (by decide)
  exact absurd beyond (by decide)

end FoundationLang.Standard
