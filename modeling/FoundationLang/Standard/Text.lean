/-
**Strings of the language and the package `std.text`.**

A `String` is a valid UTF-8 byte sequence in memory. The runtime looks at it byte by byte, and
refuses to cut it inside a code point.
-/

import FoundationLang.Library.Outcome
import FoundationLang.Library.Positions
import FoundationLang.Library.Utf8

namespace FoundationLang.Standard

open Library Outcome

/-! ### The UTF-8 check -/

/-- A byte behind the first one of a code point. -/
def continues (byte : UInt8) : Bool :=
  !(byte.toNat < 0x80 || byte.toNat > 0xbf)

/-- `fdn_utf8_valid`. -/
def utf8Valid : List UInt8 → Bool
  | [] => true
  | first :: rest =>
    if first.toNat ≤ 0x7f then utf8Valid rest
    else if first.toNat ≥ 0xc2 && first.toNat ≤ 0xdf then
      match rest with
      | second :: rest => continues second && utf8Valid rest
      | _ => false
    else if first.toNat ≥ 0xe0 && first.toNat ≤ 0xef then
      match rest with
      | second :: third :: rest =>
        if (first.toNat == 0xe0 && (second.toNat < 0xa0 || second.toNat > 0xbf)) ||
            (first.toNat == 0xed && (second.toNat < 0x80 || second.toNat > 0x9f)) ||
            (first.toNat != 0xe0 && first.toNat != 0xed && !continues second) ||
            !continues third then false
        else utf8Valid rest
      | _ => false
    else if first.toNat ≥ 0xf0 && first.toNat ≤ 0xf4 then
      match rest with
      | second :: third :: fourth :: rest =>
        if (first.toNat == 0xf0 && (second.toNat < 0x90 || second.toNat > 0xbf)) ||
            (first.toNat == 0xf4 && (second.toNat < 0x80 || second.toNat > 0x8f)) ||
            (first.toNat != 0xf0 && first.toNat != 0xf4 && !continues second) ||
            !continues third || !continues fourth then false
        else utf8Valid rest
      | _ => false
    else false

theorem continues_iff (byte : UInt8) : continues byte = true ↔ Continuation byte := by
  simp [continues, Continuation]

theorem utf8_of_valid {bytes : List UInt8} (valid : utf8Valid bytes = true) : Utf8 bytes := by
  fun_induction utf8Valid bytes with
  | case1 => exact .nil
  | case2 x rest ascii ih => exact Utf8.ascii_cons ascii (ih valid)
  | case3 x y lead second rest ih =>
    simp only [Bool.and_eq_true, decide_eq_true_eq, continues_iff] at lead valid
    exact Utf8.cons (.two x second lead valid.1) (ih valid.2)
  | case6 x y y' lead second third rest form ih =>
    simp only [Bool.and_eq_true, decide_eq_true_eq, Bool.or_eq_true, Bool.not_eq_true',
      beq_iff_eq, bne_iff_ne, continues, Bool.not_eq_false', not_or] at lead form
    have continued : Continuation second := by unfold Continuation; omega
    have continued' : Continuation third := by unfold Continuation; omega
    exact Utf8.cons (.three x second third lead continued continued' (by omega) (by omega))
      (ih valid)
  | case9 x y y' other'' lead second third fourth rest form ih =>
    simp only [Bool.and_eq_true, decide_eq_true_eq, Bool.or_eq_true, Bool.not_eq_true',
      beq_iff_eq, bne_iff_ne, continues, Bool.not_eq_false', not_or] at lead form
    have continued : Continuation second := by unfold Continuation; omega
    have continued' : Continuation third := by unfold Continuation; omega
    have continued'' : Continuation fourth := by unfold Continuation; omega
    exact Utf8.cons (.four x second third fourth lead continued continued' continued''
      (by omega) (by omega)) (ih valid)
  | _ => cases valid

theorem valid_of_utf8 {bytes : List UInt8} (text : Utf8 bytes) : utf8Valid bytes = true := by
  induction text with
  | nil => rfl
  | cons encoded rest ih =>
    cases encoded with
    | one x ascii =>
      show utf8Valid (x :: _) = true
      unfold utf8Valid
      rw [if_pos ascii]
      exact ih
    | two x y lead continued =>
      show utf8Valid (x :: y :: _) = true
      unfold utf8Valid
      rw [if_neg (by omega), if_pos (by simpa using lead)]
      simpa using ⟨(continues_iff y).mpr continued, ih⟩
    | three x y third lead continued continued' =>
      show utf8Valid (x :: y :: third :: _) = true
      unfold Continuation at continued continued'
      unfold utf8Valid
      rw [if_neg (by omega), if_neg (by simp; omega), if_pos (by simpa using lead)]
      dsimp only
      rw [if_neg (by simp [continues]; omega)]
      exact ih
    | four x y third fourth lead continued continued' continued'' =>
      show utf8Valid (x :: y :: third :: fourth :: _) = true
      unfold Continuation at continued continued' continued''
      unfold utf8Valid
      rw [if_neg (by omega), if_neg (by simp; omega), if_neg (by simp; omega),
        if_pos (by simpa using lead)]
      dsimp only
      rw [if_neg (by simp [continues]; omega)]
      exact ih

/-! ### Strings -/

/-- **A `String`.** No object in memory has `2 ^ 63` bytes. -/
structure Text where
  bytes : List UInt8
  valid : utf8Valid bytes = true
  short : bytes.length < 2 ^ 63
deriving DecidableEq

/-- Why a string is not cut. -/
inductive RangeError
  | outOfBounds
  | invalidBoundary
deriving DecidableEq, Repr

/-- `fdn_string_boundary`. -/
def boundary (bytes : List UInt8) (index : ℕ) : Bool :=
  match bytes[index]? with
  | none => true
  | some byte => byte.toNat &&& 0xc0 != 0x80

theorem continuation_iff_masked (byte : UInt8) :
    Continuation byte ↔ byte.toNat &&& 0xc0 = 0x80 := by
  have all : ∀ v < 256, (0x80 ≤ v ∧ v ≤ 0xbf) ↔ v &&& 0xc0 = 0x80 := by
    decide +kernel
  exact all byte.toNat byte.toNat_lt

theorem boundary_iff (bytes : List UInt8) (i : ℕ) :
    boundary bytes i = true ↔ Boundary (bytes.drop i) := by
  unfold boundary Boundary
  rw [List.head?_drop]
  cases bytes[i]? with
  | none => simp
  | some => simp [continuation_iff_masked]

namespace Text

/-- A literal of the source. -/
def literal (bytes : List UInt8) (valid : utf8Valid bytes = true := by decide)
    (short : bytes.length < 2 ^ 63 := by decide) : Text :=
  ⟨bytes, valid, short⟩

/-- The string `a`. -/
def letterA : Text :=
  .literal [97]

/-- The string `b`. -/
def letterB : Text :=
  .literal [98]

theorem nil_valid : utf8Valid [] = true :=
  rfl

theorem nil_short : ([] : List UInt8).length < 2 ^ 63 := by
  decide

/-- `""`. -/
def empty : Text :=
  ⟨[], nil_valid, nil_short⟩

theorem utf8 (v : Text) : Utf8 v.bytes :=
  utf8_of_valid v.valid

theorem valid_slice {bytes : List UInt8} (valid : utf8Valid bytes = true) {start stop : ℕ}
    (first : boundary bytes start = true) (last : boundary bytes stop = true)
    (ordered : start ≤ stop) : utf8Valid ((bytes.take stop).drop start) = true := by
  rw [boundary_iff] at first last
  have front : Utf8 (bytes.take stop) :=
    (Utf8.split (by rw [List.take_append_drop]; exact utf8_of_valid valid) last).1
  have again : bytes.drop start = (bytes.take stop).drop start ++ bytes.drop stop := by
    rw [List.drop_take]
    conv_lhs => rw [← List.take_append_drop (stop - start) (bytes.drop start)]
    rw [List.drop_drop, Nat.add_sub_cancel' ordered]
  have text : Utf8 (bytes.drop start) :=
    (Utf8.split (by rw [List.take_append_drop]; exact utf8_of_valid valid) first).2
  rw [again] at text
  exact valid_of_utf8 (Utf8.split text last).1

/-- The number of bytes. -/
def byteLen (value : Text) : ℕ :=
  value.bytes.length

/-- There are no bytes. -/
def isEmpty (value : Text) : Bool :=
  value.byteLen == 0

/-- The bytes start with those of the other string. -/
def startsWith (value start : Text) : Bool :=
  start.bytes.isPrefixOf value.bytes

/-- The bytes end with those of the other string. -/
def endsWith (value stop : Text) : Bool :=
  stop.bytes.isSuffixOf value.bytes

/-- The bytes of a range that cuts no code point. -/
def slice (value : Text) (start stop : ℕ) : Outcome RangeError Text :=
  if inside : start ≤ stop ∧ start ≤ value.byteLen ∧ stop ≤ value.byteLen then
    if cut : boundary value.bytes start ∧ boundary value.bytes stop then
      .ok {
        bytes := (value.bytes.take stop).drop start
        valid := valid_slice value.valid cut.1 cut.2 inside.1
        short := by
          have := value.short
          simp only [List.length_drop, List.length_take]
          omega }
    else err .invalidBoundary
  else err .outOfBounds

/-- One byte. -/
def byteAt (value : Text) (index : ℕ) : Outcome RangeError ℕ :=
  match value.bytes[index]? with
  | some byte => .ok byte.toNat
  | none => err .outOfBounds

/-- `memcmp`, and the shorter one first. -/
def compareBytes : List UInt8 → List UInt8 → Ordering
  | [], [] => .eq
  | [], _ :: _ => .lt
  | _ :: _, [] => .gt
  | left :: lefts, right :: rights =>
    if left.toNat < right.toNat then .lt
    else if right.toNat < left.toNat then .gt
    else compareBytes lefts rights

/-- The order of the bytes. -/
def compare (left right : Text) : Ordering :=
  compareBytes left.bytes right.bytes

/-- The same bytes. -/
def equal (left right : Text) : Bool :=
  left.compare right == .eq

/-! ### What the operations return -/

@[ext]
theorem ext {left right : Text} (same : left.bytes = right.bytes) : left = right := by
  cases left
  cases right
  cases same
  rfl

theorem compareBytes_eq_iff {left right : List UInt8} :
    compareBytes left right = .eq ↔ left = right := by
  induction left generalizing right with
  | nil => cases right <;> simp [compareBytes]
  | cons byte bytes ih =>
    cases right with
    | nil => simp [compareBytes]
    | cons byte' =>
      unfold compareBytes
      split_ifs with less greater
      · simp
        rintro rfl
        omega
      · simp
        rintro rfl
        omega
      · have same : byte = byte' := UInt8.toNat_inj.mp (by omega)
        rw [ih, same]
        simp

@[simp]
theorem equal_iff {left right : Text} : left.equal right = true ↔ left = right := by
  unfold equal compare
  rw [beq_iff_eq, compareBytes_eq_iff]
  exact ⟨ext, fun same => same ▸ rfl⟩

end Text

/-! ### Boundaries -/

section

variable {src : Text} {i : ℕ} {front back : List UInt8} {byte : UInt8}

theorem boundary_ascii (ascii : byte.toNat ≤ 0x7f) : Boundary (byte :: back) := by
  rw [boundary_cons]
  unfold Continuation
  omega

theorem boundary_behind (cut : Cut src.bytes i front (byte :: back))
    (ascii : byte.toNat ≤ 0x7f) : Boundary back := by
  have whole := src.utf8
  rw [cut.1] at whole
  exact ((Utf8.split whole (boundary_ascii ascii)).2.tail ascii).boundary

theorem boundary_iff_cut (cut : Cut src.bytes i front back) :
    boundary src.bytes i = true ↔ Boundary back := by
  rw [boundary_iff, cut.drop]

/-- **The slice between two boundaries.** -/
theorem Text.slice_cut {vs : List UInt8}
    (cut : Cut src.bytes i front (vs ++ back)) (x : Boundary (vs ++ back))
    (last : Boundary back) : ∃ value : Text, value.bytes = vs ∧
      src.slice i (i + vs.length) = .ok value := by
  have size := cut.size
  rw [List.length_append] at size
  have inBounds : i ≤ i + vs.length ∧ i ≤ src.byteLen ∧
      i + vs.length ≤ src.byteLen := by
    unfold Text.byteLen
    omega
  have bounded : boundary src.bytes i = true ∧
      boundary src.bytes (i + vs.length) = true :=
    ⟨(boundary_iff_cut cut).mpr x, (boundary_iff_cut cut.move).mpr last⟩
  unfold Text.slice
  rw [dif_pos inBounds, dif_pos bounded]
  refine ⟨_, ?_, rfl⟩
  show (src.bytes.take (i + vs.length)).drop i = vs
  rw [cut.move.take, ← cut.2, List.drop_left]

end

end FoundationLang.Standard
