/-
**UTF-8 as a language of bytes.**

The encoded code points are those of RFC 3629: the shortest form, no surrogates, nothing above
U+10FFFF. A text is a sequence of them (`Utf8`).

* `Utf8.split` — a text that is cut where no continuation byte stands is cut into two texts.
* `Utf8.tail` — behind a one-byte code point the text goes on.
* `Utf8.encode` — the encoding of a code point (`codePoint_encode`); a text is the encodings of
  scalar values (`Utf8.iff_scalars`).
-/

import Mathlib.Data.List.Basic

namespace FoundationLang.Library

open List

/-- A byte that is not the first of a code point. -/
def Continuation (byte : UInt8) : Prop :=
  0x80 ≤ byte.toNat ∧ byte.toNat ≤ 0xbf

instance : DecidablePred Continuation := fun byte =>
  inferInstanceAs (Decidable (0x80 ≤ byte.toNat ∧ byte.toNat ≤ 0xbf))

/-- The bytes of one code point. -/
inductive CodePoint : List UInt8 → Prop
  | one (first : UInt8) (ascii : first.toNat ≤ 0x7f) : CodePoint [first]
  | two (first second : UInt8) (lead : 0xc2 ≤ first.toNat ∧ first.toNat ≤ 0xdf)
      (continued : Continuation second) : CodePoint [first, second]
  | three (first second third : UInt8) (lead : 0xe0 ≤ first.toNat ∧ first.toNat ≤ 0xef)
      (continued : Continuation second) (continued' : Continuation third)
      (shortest : first.toNat = 0xe0 → 0xa0 ≤ second.toNat)
      (scalar : first.toNat = 0xed → second.toNat ≤ 0x9f) : CodePoint [first, second, third]
  | four (first second third fourth : UInt8) (lead : 0xf0 ≤ first.toNat ∧ first.toNat ≤ 0xf4)
      (continued : Continuation second) (continued' : Continuation third)
      (continued'' : Continuation fourth)
      (shortest : first.toNat = 0xf0 → 0x90 ≤ second.toNat)
      (range : first.toNat = 0xf4 → second.toNat ≤ 0x8f) :
      CodePoint [first, second, third, fourth]

/-- A sequence of encoded code points. -/
inductive Utf8 : List UInt8 → Prop
  | nil : Utf8 []
  | cons {point bytes : List UInt8} (first : CodePoint point) (rest : Utf8 bytes) :
      Utf8 (point ++ bytes)

theorem CodePoint.shape {point : List UInt8} (encoded : CodePoint point) :
    ∃ x rest, point = x :: rest ∧ ¬Continuation x ∧ ∀ byte ∈ rest, Continuation byte := by
  cases encoded with
  | one x => exact ⟨x, [], rfl, by unfold Continuation; omega, by simp⟩
  | two x y lead continued =>
    exact ⟨x, [y], rfl, by unfold Continuation; omega, by simpa using continued⟩
  | three x y third lead continued continued' =>
    exact ⟨x, [y, third], rfl, by unfold Continuation; omega,
      by simpa using ⟨continued, continued'⟩⟩
  | four x y third fourth lead continued continued' continued'' =>
    exact ⟨x, [y, third, fourth], rfl, by unfold Continuation; omega,
      by simpa using ⟨continued, continued', continued''⟩⟩

/-- Nothing starts with a continuation byte here. -/
def Boundary (bytes : List UInt8) : Prop :=
  ∀ byte ∈ bytes.head?, ¬Continuation byte

theorem boundary_nil : Boundary [] := by
  intro b mem
  cases mem

theorem boundary_cons {byte : UInt8} {bytes : List UInt8} :
    Boundary (byte :: bytes) ↔ ¬Continuation byte := by
  simp [Boundary]

namespace Utf8

variable {front back : List UInt8}

theorem append (x : Utf8 front) (y : Utf8 back) : Utf8 (front ++ back) := by
  induction x with
  | nil => exact y
  | cons point rest ih =>
    rw [append_assoc]
    exact .cons point ih

theorem boundary {bytes : List UInt8} (text : Utf8 bytes) : Boundary bytes := by
  cases text with
  | nil => exact boundary_nil
  | cons point =>
    obtain ⟨_, _, rfl, start, _⟩ := point.shape
    rw [cons_append, boundary_cons]
    exact start

/-- **A text that is cut in front of a byte that is no continuation is cut into two texts.** -/
theorem split (text : Utf8 (front ++ back)) (cut : Boundary back) : Utf8 front ∧ Utf8 back := by
  generalize whole : front ++ back = bytes at text
  induction text generalizing front with
  | nil =>
    obtain ⟨rfl, rfl⟩ := append_eq_nil_iff.mp whole
    exact ⟨.nil, .nil⟩
  | @cons point bytes encoded rest ih =>
    rcases append_eq_append_iff.mp whole with ⟨inside, pointEq, backEq⟩ | ⟨_, frontEq, restEq⟩
    · -- The cut is in front of the end of the first code point: at its start or at its end.
      obtain ⟨_, others, pointIs, _, continued⟩ := encoded.shape
      cases inside with
      | nil =>
        rw [append_nil] at pointEq
        rw [← pointEq, backEq]
        exact ⟨by simpa using cons encoded .nil, rest⟩
      | cons b =>
        cases front with
        | nil =>
          rw [nil_append] at pointEq
          rw [backEq, ← pointEq]
          exact ⟨.nil, cons encoded rest⟩
        | cons =>
          have mem : b ∈ others := by
            rw [pointIs] at pointEq
            obtain ⟨_, rfl⟩ := cons_eq_cons.mp pointEq
            simp
          rw [backEq, cons_append, boundary_cons] at cut
          exact absurd (continued b mem) cut
    · obtain ⟨frontText, backText⟩ := ih restEq.symm
      rw [frontEq]
      exact ⟨cons encoded frontText, backText⟩

theorem tail {b : UInt8} (text : Utf8 (b :: back)) (ascii : b.toNat ≤ 0x7f) :
    Utf8 back := by
  generalize whole : b :: back = bytes at text
  cases text with
  | nil => cases whole
  | cons encoded rest =>
    cases encoded with
    | one =>
      obtain ⟨_, rfl⟩ := cons_eq_cons.mp whole
      exact rest
    | two x y lead | three x y third lead
    | four =>
      obtain ⟨rfl, _⟩ := cons_eq_cons.mp whole
      omega

theorem ascii_cons {b : UInt8} (ascii : b.toNat ≤ 0x7f) (rest : Utf8 back) :
    Utf8 (b :: back) :=
  cons (.one b ascii) rest

theorem of_ascii {bytes : List UInt8} (ascii : ∀ b ∈ bytes, b.toNat ≤ 0x7f) : Utf8 bytes := by
  induction bytes with
  | nil => exact .nil
  | cons b bytes ih =>
    exact ascii_cons (ascii b mem_cons_self)
      (ih fun y mem => ascii y (mem_cons_of_mem _ mem))

/-- The bytes of a code point. -/
def encode (point : ℕ) : List UInt8 :=
  if point < 0x80 then [UInt8.ofNat point]
  else if point < 0x800 then [UInt8.ofNat (0xc0 + point / 64), UInt8.ofNat (0x80 + point % 64)]
  else if point < 0x10000 then
    [UInt8.ofNat (0xe0 + point / 4096), UInt8.ofNat (0x80 + point / 64 % 64),
      UInt8.ofNat (0x80 + point % 64)]
  else
    [UInt8.ofNat (0xf0 + point / 262144), UInt8.ofNat (0x80 + point / 4096 % 64),
      UInt8.ofNat (0x80 + point / 64 % 64), UInt8.ofNat (0x80 + point % 64)]

theorem toNat_ofNat {value : ℕ} (small : value < 256) : (UInt8.ofNat value).toNat = value := by
  rw [UInt8.toNat_ofNat']
  exact Nat.mod_eq_of_lt small

/-- **Every code point that is no surrogate is encoded.** -/
theorem codePoint_encode {point : ℕ} (range : point ≤ 0x10ffff)
    (scalar : ¬(0xd800 ≤ point ∧ point ≤ 0xdfff)) : CodePoint (encode point) := by
  unfold encode
  split_ifs with one two three
  · exact .one _ (by rw [toNat_ofNat] <;> omega)
  · refine .two _ _ ?_ ?_
    · rw [toNat_ofNat] <;> omega
    · unfold Continuation
      rw [toNat_ofNat] <;> omega
  · have lead := @toNat_ofNat (0xe0 + point / 4096) (by omega)
    have second := @toNat_ofNat (0x80 + point / 64 % 64) (by omega)
    have third := @toNat_ofNat (0x80 + point % 64) (by omega)
    refine .three _ _ _ ?_ ?_ ?_ ?_ ?_ <;> unfold Continuation at * <;> omega
  · have lead := @toNat_ofNat (0xf0 + point / 262144) (by omega)
    have second := @toNat_ofNat (0x80 + point / 4096 % 64) (by omega)
    have third := @toNat_ofNat (0x80 + point / 64 % 64) (by omega)
    have fourth := @toNat_ofNat (0x80 + point % 64) (by omega)
    refine .four _ _ _ _ ?_ ?_ ?_ ?_ ?_ ?_ <;> unfold Continuation at * <;> omega

/-- A Unicode scalar value: a code point that is no surrogate. -/
def Scalar (value : ℕ) : Prop :=
  value ≤ 0x10ffff ∧ ¬(0xd800 ≤ value ∧ value ≤ 0xdfff)

theorem ofNat_eq {v : ℕ} {byte : UInt8} (same : v = byte.toNat) : UInt8.ofNat v = byte := by
  rw [same, UInt8.ofNat_toNat]

/-- **An encoded code point is a scalar value**, by the bits of its bytes. -/
theorem scalar_of_codePoint {point : List UInt8} (encoded : CodePoint point) :
    ∃ v, Scalar v ∧ encode v = point := by
  unfold Scalar encode
  cases encoded with
  | one x =>
    refine ⟨x.toNat, by omega, ?_⟩
    rw [if_pos (by omega), UInt8.ofNat_toNat]
  | two x y lead continued =>
    unfold Continuation at continued
    refine ⟨(x.toNat - 0xc0) * 64 + (y.toNat - 0x80), by omega, ?_⟩
    rw [if_neg (by omega), if_pos (by omega), @ofNat_eq _ x (by omega),
      @ofNat_eq _ y (by omega)]
  | three x y third lead continued continued' =>
    unfold Continuation at continued continued'
    refine ⟨(x.toNat - 0xe0) * 4096 + (y.toNat - 0x80) * 64 + (third.toNat - 0x80),
      by omega, ?_⟩
    rw [if_neg (by omega), if_neg (by omega), if_pos (by omega), @ofNat_eq _ x (by omega),
      @ofNat_eq _ y (by omega), @ofNat_eq _ third (by omega)]
  | four x y third fourth lead continued continued' continued'' =>
    unfold Continuation at continued continued' continued''
    refine ⟨(x.toNat - 0xf0) * 262144 + (y.toNat - 0x80) * 4096 +
      (third.toNat - 0x80) * 64 + (fourth.toNat - 0x80), by omega, ?_⟩
    rw [if_neg (by omega), if_neg (by omega), if_neg (by omega), @ofNat_eq _ x (by omega),
      @ofNat_eq _ y (by omega), @ofNat_eq _ third (by omega), @ofNat_eq _ fourth (by omega)]

/-- **A text is the scalar values of it, each in its shortest form.** -/
theorem iff_scalars {bytes : List UInt8} :
    Utf8 bytes ↔ ∃ values : List ℕ, (∀ v ∈ values, Scalar v) ∧
      bytes = values.flatMap encode := by
  constructor
  · intro text
    induction text with
    | nil => exact ⟨[], by simp, rfl⟩
    | cons x _ ih =>
      obtain ⟨v, scalar, rfl⟩ := scalar_of_codePoint x
      obtain ⟨values, scalars, rfl⟩ := ih
      exact ⟨v :: values, by simpa using ⟨scalar, scalars⟩, rfl⟩
  · rintro ⟨values, scalars, rfl⟩
    induction values with
    | nil => exact .nil
    | cons v values ih =>
      obtain ⟨⟨range, scalar⟩, others⟩ := forall_mem_cons.mp scalars
      exact .cons (codePoint_encode range scalar) (ih others)

theorem length_encode_le (point : ℕ) : (encode point).length ≤ 4 := by
  unfold encode
  split_ifs <;> simp

end Utf8

end FoundationLang.Library
