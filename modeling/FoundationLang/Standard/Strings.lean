/-
**Strings as their bytes.**

Code that reads protocols looks at the bytes of its strings. Here a `String` is the list of its bytes;
that they are UTF-8 matters only where a string is cut.
-/

import FoundationLang.Standard.Text

namespace FoundationLang.Standard

open Library List

/-- A `String`, by its bytes. -/
abbrev Str : Type :=
  List UInt8

/-- The bytes of an ASCII literal. -/
def ascii (text : String) : Str :=
  text.toList.map fun letter => UInt8.ofNat letter.toNat

namespace Str

/-- The first bytes of a string. -/
def startsWith (value start : Str) : Bool :=
  start.isPrefixOf value

/-- The last bytes of a string. -/
def endsWith (value stop : Str) : Bool :=
  stop.isSuffixOf value

/-- A part of a string. A slice of ASCII text can be taken anywhere. -/
def slice (value : Str) (start stop : ℕ) : Except RangeError Str :=
  if start ≤ stop ∧ start ≤ value.length ∧ stop ≤ value.length then
    if boundary value start && boundary value stop then .ok ((value.take stop).drop start)
    else .error .invalidBoundary
  else .error .outOfBounds

/-- The loop of `Find`. -/
def findFrom (part : Str) : Str → ℕ → Option ℕ
  | [], _ => none
  | byte :: rest, offset =>
    if part.isPrefixOf (byte :: rest) then some offset else findFrom part rest (offset + 1)

/-- Where a part is first found. -/
def find (value part : Str) : Option ℕ :=
  if part.isEmpty then some 0 else findFrom part value 0

/-- A part is found somewhere. -/
def contains (value part : Str) : Bool :=
  (find value part).isSome

/-- A loop over the parts between the bytes that separate them, with the part so far. -/
def partsFrom (separator : UInt8) (part : Str) : Str → List Str
  | [] => [part]
  | byte :: rest =>
    if byte = separator then part :: partsFrom separator [] rest
    else partsFrom separator (part ++ [byte]) rest

end Str

/-! ### Numbers -/

/-- `parse.IntegerError`. -/
inductive IntegerError
  | empty
  | invalid
  | overflow
deriving DecidableEq, Repr

/-- The loop of `parse.U64`. -/
def parseDigits : Str → ℕ → Except IntegerError ℕ
  | [], result => .ok result
  | byte :: rest, result =>
    if byte.toNat < 48 ∨ byte.toNat > 57 then .error .invalid
    else
      let digit := byte.toNat - 48
      if result > (18446744073709551615 - digit) / 10 then .error .overflow
      else parseDigits rest (result * 10 + digit)

/-- `parse.U64`. -/
def parseU64 (value : Str) : Except IntegerError ℕ :=
  if value.isEmpty then .error .empty else parseDigits value 0

/-- The loop of `parse.I64`. -/
def parseMagnitude (maximum : ℕ) : Str → ℕ → Except IntegerError ℕ
  | [], magnitude => .ok magnitude
  | byte :: rest, magnitude =>
    if byte.toNat < 48 ∨ byte.toNat > 57 then .error .invalid
    else
      let digit := byte.toNat - 48
      if magnitude > (maximum - digit) / 10 then .error .overflow
      else parseMagnitude maximum rest (magnitude * 10 + digit)

/-- `parse.I64`. -/
def parseI64 : Str → Except IntegerError ℤ
  | [] => .error .empty
  | first :: rest =>
    if first = 45 then
      if rest.isEmpty then .error .invalid
      else (parseMagnitude 9223372036854775808 rest 0).map fun magnitude => -(magnitude : ℤ)
    else (parseMagnitude 9223372036854775807 (first :: rest) 0).map fun magnitude => (magnitude : ℤ)

/-- `format.U64`. -/
def formatU64 (value : ℕ) : Str :=
  (Nat.toDigits 10 value).map fun digit => UInt8.ofNat digit.toNat

/-! ### Looking for a byte -/

/-- The loop of a search from the front; `length` is the length of the whole string. -/
def seek (wanted : ℕ → Bool) (length : ℕ) : Str → ℕ → ℕ
  | [], _ => length
  | byte :: rest, offset => if wanted byte.toNat then offset else seek wanted length rest (offset + 1)

/-- The first byte of a kind, or the end. -/
def firstByte (wanted : ℕ → Bool) (value : Str) (start : ℕ) : ℕ :=
  seek wanted value.length (value.drop start) start

/-- The loop of a search that goes on to the end. -/
def seekLast (expected : ℕ) : Str → ℕ → ℕ → ℕ
  | [], _, result => result
  | byte :: rest, offset, result =>
    seekLast expected rest (offset + 1) (if byte.toNat = expected then offset else result)

/-- The last such byte of a range, or its end. -/
def lastByte (value : Str) (start stop expected : ℕ) : ℕ :=
  seekLast expected ((value.take stop).drop start) start stop

/-! ### What they return -/

namespace Str

variable {value part : Str} {start stop : ℕ}

theorem startsWith_iff {front : Str} :
    startsWith value front = true ↔ ∃ rest, value = front ++ rest := by
  unfold startsWith
  rw [List.isPrefixOf_iff_prefix]
  exact ⟨fun ⟨rest, same⟩ => ⟨rest, same.symm⟩, fun ⟨rest, same⟩ => ⟨rest, same.symm⟩⟩

theorem slice_eq_ok {r : Str} (same : slice value start stop = .ok r) :
    start ≤ stop ∧ stop ≤ value.length ∧ r = (value.take stop).drop start := by
  unfold slice at same
  split at same
  · rename_i inside
    split at same
    · cases same
      exact ⟨inside.1, inside.2.2, rfl⟩
    · cases same
  · cases same

theorem boundary_of_ascii (ascii : ∀ b ∈ value, b.toNat < 128) (i : ℕ) :
    boundary value i = true := by
  rw [boundary_iff]
  unfold Boundary
  rintro b mem continued
  have small := ascii b (mem_of_mem_drop (mem_of_mem_head? mem))
  unfold Continuation at continued
  omega

theorem slice_of_ascii (ascii : ∀ b ∈ value, b.toNat < 128) (ordered : start ≤ stop)
    (inside : stop ≤ value.length) : slice value start stop = .ok ((value.take stop).drop start) := by
  unfold slice
  rw [if_pos ⟨ordered, Nat.le_trans ordered inside, inside⟩, boundary_of_ascii ascii,
    boundary_of_ascii ascii]
  rfl

theorem findFrom_some {i found : ℕ} (same : findFrom part value i = some found) :
    ∃ front rest, value = front ++ (part ++ rest) ∧ found = i + front.length := by
  induction value generalizing i with
  | nil => cases same
  | cons b value ih =>
    rw [findFrom] at same
    split at same
    · rename_i begins
      obtain ⟨rest, begins⟩ := isPrefixOf_iff_prefix.mp begins
      cases same
      exact ⟨[], rest, begins.symm, rfl⟩
    · obtain ⟨front, rest, rfl, rfl⟩ := ih same
      exact ⟨b :: front, rest, rfl, by rw [length_cons]; omega⟩

theorem find_some {found : ℕ} (same : find value part = some found) :
    ∃ front rest, value = front ++ (part ++ rest) ∧ found = front.length := by
  unfold find at same
  split at same
  · rename_i empty
    cases same
    exact ⟨[], value, by rw [List.isEmpty_iff.mp empty]; rfl, rfl⟩
  · obtain ⟨front, rest, same, found⟩ := findFrom_some same
    exact ⟨front, rest, same, by omega⟩

theorem findFrom_front {b : UInt8} {front part rest : Str} (absent : b ∉ front) (i : ℕ) :
    findFrom (b :: part) (front ++ (b :: part ++ rest)) i =
      some (i + front.length) := by
  induction front generalizing i with
  | nil =>
    change findFrom (b :: part) (b :: (part ++ rest)) i = _
    rw [findFrom, if_pos]
    · rfl
    · exact isPrefixOf_iff_prefix.mpr ⟨rest, rfl⟩
  | cons x front ih =>
    rw [mem_cons, not_or] at absent
    rw [cons_append, findFrom, if_neg, ih absent.2, length_cons]
    · congr 1
      omega
    · intro begins
      obtain ⟨_, same⟩ := isPrefixOf_iff_prefix.mp begins
      exact absent.1 (List.cons.inj same).1

/-- A part is found where its first byte occurs first. -/
theorem find_front {b : UInt8} {front part rest : Str} (absent : b ∉ front) :
    find (front ++ (b :: part ++ rest)) (b :: part) = some front.length := by
  unfold find
  rw [if_neg (by simp), findFrom_front absent, Nat.zero_add]

end Str

/-! ### Numbers and digits -/

theorem parseDigits_append (front rest : Str) (r : ℕ) :
    parseDigits (front ++ rest) r = parseDigits front r >>= parseDigits rest := by
  induction front generalizing r with
  | nil => rfl
  | cons b front ih =>
    rw [cons_append, parseDigits, parseDigits]
    split
    · rfl
    · dsimp only
      split
      · rfl
      · exact ih _

theorem digit_toNat {digit : ℕ} (small : digit < 10) :
    (UInt8.ofNat digit.digitChar.toNat).toNat = digit + 48 := by
  have all : ∀ digit < 10, (UInt8.ofNat (Nat.digitChar digit).toNat).toNat = digit + 48 := by
    decide
  exact all digit small

theorem parseDigits_digit (r : ℕ) {digit : ℕ} (small : digit < 10)
    (fits : r * 10 + digit < 2 ^ 64) :
    parseDigits [UInt8.ofNat digit.digitChar.toNat] r = .ok (r * 10 + digit) := by
  rw [parseDigits, digit_toNat small, if_neg (by omega)]
  rw [Nat.add_sub_cancel, if_neg (by omega)]
  rfl

/-- **The digits of a number are read back.** -/
theorem parseU64_formatU64 {value : ℕ} (small : value < 2 ^ 64) :
    parseU64 (formatU64 value) = .ok value := by
  have read : parseDigits (formatU64 value) 0 = .ok value := by
    induction value using Nat.strongRecOn with
    | ind value ih =>
      by_cases short : value < 10
      · rw [formatU64, Nat.toDigits_of_lt_base short]
        have digit := parseDigits_digit 0 short (by omega)
        rwa [Nat.zero_mul, Nat.zero_add] at digit
      · rw [formatU64, Nat.toDigits_of_base_le (by decide) (by omega), map_append,
          parseDigits_append]
        change parseDigits (formatU64 (value / 10)) 0 >>= _ = _
        rw [ih (value / 10) (by omega) (by omega)]
        change parseDigits [UInt8.ofNat (value % 10).digitChar.toNat] (value / 10) = _
        rw [parseDigits_digit _ (by omega) (by omega)]
        congr 1
        omega
  unfold parseU64
  rw [if_neg, read]
  rw [List.isEmpty_iff, formatU64, List.map_eq_nil_iff]
  exact Nat.toDigits_ne_nil

theorem formatU64_digits {value : ℕ} {byte : UInt8} (mem : byte ∈ formatU64 value) :
    48 ≤ byte.toNat ∧ byte.toNat ≤ 57 := by
  obtain ⟨digit, inside, rfl⟩ := mem_map.mp mem
  have isDigit := Nat.isDigit_of_mem_toDigits (b := 10) (by decide) (by decide) inside
  have bounds : 48 ≤ digit.toNat ∧ digit.toNat ≤ 57 := by
    simp only [Char.isDigit, Bool.and_eq_true, decide_eq_true_eq, ge_iff_le] at isDigit
    exact ⟨isDigit.1, isDigit.2⟩
  rw [Library.Utf8.toNat_ofNat (by omega)]
  exact bounds

/-! ### Where the bytes are -/

section

variable (wanted : ℕ → Bool)
include wanted

theorem seek_eq (length : ℕ) (rest : Str) (i : ℕ)
    (whole : i + rest.length = length) :
    seek wanted length rest i = i + rest.findIdx (wanted ·.toNat) := by
  induction rest generalizing i with
  | nil => exact whole.symm
  | cons b rest ih =>
    rw [length_cons] at whole
    rw [seek, findIdx_cons, ih (i + 1) (by omega)]
    cases wanted b.toNat
    · dsimp only [cond]
      rw [if_neg Bool.false_ne_true]
      omega
    · rfl

theorem firstByte_eq {value : Str} {start : ℕ} (inside : start ≤ value.length) :
    firstByte wanted value start = start + (value.drop start).findIdx (wanted ·.toNat) := by
  unfold firstByte
  rw [seek_eq]
  rw [length_drop]
  omega

theorem seek_le {length : ℕ} {rest : Str} {i : ℕ}
    (inside : i + rest.length ≤ length) : seek wanted length rest i ≤ length := by
  induction rest generalizing i with
  | nil => exact Nat.le_refl _
  | cons b rest ih =>
    rw [length_cons] at inside
    rw [seek]
    split
    · omega
    · exact ih (by omega)

theorem firstByte_le (value : Str) (start : ℕ) :
    firstByte wanted value start ≤ value.length := by
  unfold firstByte
  by_cases inside : start ≤ value.length
  · exact seek_le wanted (by rw [length_drop]; omega)
  · rw [drop_eq_nil_of_le (by omega)]
    exact Nat.le_refl _

theorem take_firstByte (front rest : Str) :
    (front ++ rest).take (firstByte wanted (front ++ rest) front.length) =
      front ++ rest.takeWhile (!wanted ·.toNat) := by
  rw [firstByte_eq wanted (by simp), drop_left, take_length_add_append,
    takeWhile_eq_take_findIdx_not]
  simp

theorem drop_firstByte (front rest : Str) :
    (front ++ rest).drop (firstByte wanted (front ++ rest) front.length) =
      rest.dropWhile (!wanted ·.toNat) := by
  rw [firstByte_eq wanted (by simp), drop_left, drop_length_add_append,
    dropWhile_eq_drop_findIdx_not]
  simp

end

theorem seekLast_cases (want : ℕ) (rest : Str) (i r : ℕ) :
    seekLast want rest i r = r ∨
      i ≤ seekLast want rest i r ∧
        seekLast want rest i r < i + rest.length := by
  induction rest generalizing i r with
  | nil => exact .inl rfl
  | cons b rest ih =>
    rw [seekLast, length_cons]
    split
    · rcases ih (i + 1) i with same | inside
      · rw [same]
        exact .inr ⟨Nat.le_refl _, by omega⟩
      · exact .inr ⟨by omega, by omega⟩
    · rcases ih (i + 1) r with same | inside
      · exact .inl same
      · exact .inr ⟨by omega, by omega⟩

end FoundationLang.Standard
