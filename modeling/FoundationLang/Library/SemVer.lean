/-
**Semantic versions, by version 2.0.0 of the specification.**

* `SemVer` — three natural numbers, a prerelease and build metadata, both lists of identifiers.
* `SemVer.WellFormed`, `SemVer.text` — the identifiers of the grammar, and the text of a version;
  numbers are written in decimal without leading zeros.
* `SemVer.precedence` — section 11: the numbers, then the prerelease, identifier by identifier.
* `SemVer.caretBound`, `SemVer.tildeBound` — the first release above a range.
* `decimal_lt_iff` — of two numbers of the same length the lower one is the one whose digits come
  first; `decimal_lt_of_length` — a shorter number is lower.
-/

import Mathlib.Data.List.Basic
import Mathlib.Data.Nat.Basic
import Mathlib.Tactic.Ring

namespace FoundationLang.Library

/-- A semantic version. -/
structure SemVer where
  major : ℕ
  minor : ℕ
  patch : ℕ
  prerelease : List String
  build : List String
deriving DecidableEq, Repr

namespace SemVer

/-! ### The grammar -/

/-- A letter, a digit or a hyphen. -/
def identifierCharacter (character : Char) : Bool :=
  character.isAlphanum || character == '-'

/-- An identifier of digits only. -/
def digits (text : List Char) : Bool :=
  !text.isEmpty && text.all Char.isDigit

/-- `<build identifier>`. -/
def IsBuildIdentifier (text : List Char) : Prop :=
  text ≠ [] ∧ ∀ character ∈ text, identifierCharacter character = true

/-- `<pre-release identifier>`. -/
inductive IsPrereleaseIdentifier (text : List Char) : Prop
  | alphanumeric (identifier : IsBuildIdentifier text) (other : digits text = false)
  | zero (same : text = ['0'])
  | numeric (number : digits text = true) (leading : text.head? ≠ some '0')

/-- The identifiers of the version are those of the grammar. -/
structure WellFormed (version : SemVer) : Prop where
  prerelease : ∀ part ∈ version.prerelease, IsPrereleaseIdentifier part.toList
  build : ∀ part ∈ version.build, IsBuildIdentifier part.toList

/-- Parts with dots between them. -/
def dots (parts : List String) : List Char :=
  ['.'].intercalate (parts.map String.toList)

/-- **The text of a version.** -/
def text (version : SemVer) : List Char :=
  dots [toString version.major, toString version.minor, toString version.patch] ++
    ((if version.prerelease = [] then [] else '-' :: dots version.prerelease) ++
      if version.build = [] then [] else '+' :: dots version.build)

/-! ### Precedence -/

/-- The number that digits stand for. -/
def decimal (text : List Char) : ℕ :=
  Nat.ofDigitChars 10 text 0

/-- One identifier against another: numbers by value, other identifiers by their characters, and
numbers below others. -/
def compareIdentifier (left right : String) : Ordering :=
  match digits left.toList, digits right.toList with
  | true, true => compare (decimal left.toList) (decimal right.toList)
  | true, false => .lt
  | false, true => .gt
  | false, false => compare left right

/-- Identifiers from left to right; more of them are higher if the others are equal. -/
def compareIdentifiers : List String → List String → Ordering
  | [], [] => .eq
  | [], _ :: _ => .lt
  | _ :: _, [] => .gt
  | left :: lefts, right :: rights =>
    (compareIdentifier left right).then (compareIdentifiers lefts rights)

/-- A release is above its prereleases. -/
def comparePrerelease : List String → List String → Ordering
  | [], [] => .eq
  | [], _ :: _ => .gt
  | _ :: _, [] => .lt
  | lefts, rights => compareIdentifiers lefts rights

/-- The three numbers. -/
def compareCore (left right : SemVer) : Ordering :=
  (compare left.major right.major).then
    ((compare left.minor right.minor).then (compare left.patch right.patch))

/-- **Precedence.** -/
def precedence (left right : SemVer) : Ordering :=
  (compareCore left right).then (comparePrerelease left.prerelease right.prerelease)

/-! ### Ranges -/

/-- The first release above the versions that a caret accepts: the leftmost number that is not zero
stays. -/
def caretBound (version : SemVer) : SemVer :=
  if version.major ≠ 0 then ⟨version.major + 1, 0, 0, [], []⟩
  else if version.minor ≠ 0 then ⟨0, version.minor + 1, 0, [], []⟩
  else ⟨0, 0, version.patch + 1, [], []⟩

/-- The first release above the versions that a tilde accepts: major and minor stay. -/
def tildeBound (version : SemVer) : SemVer :=
  ⟨version.major, version.minor + 1, 0, [], []⟩

/-! ### Numbers and their digits -/

theorem decimal_cons (x : Char) (rest : List Char) :
    decimal (x :: rest) = 10 ^ rest.length * (x.toNat - '0'.toNat) + decimal rest := by
  unfold decimal
  rw [Nat.ofDigitChars_cons, Nat.ofDigitChars_eq_ofDigitChars_zero, Nat.mul_zero, Nat.zero_add]

theorem digit_bounds {c : Char} (digit : c.isDigit = true) :
    48 ≤ c.toNat ∧ c.toNat ≤ 57 := by
  rw [Char.isDigit, Bool.and_eq_true, decide_eq_true_eq, decide_eq_true_eq] at digit
  exact ⟨digit.1, digit.2⟩

theorem decimal_lt_pow {text : List Char} (numeric : ∀ character ∈ text, character.isDigit = true) :
    decimal text < 10 ^ text.length := by
  induction text with
  | nil => exact Nat.one_pos
  | cons x rest ih =>
    have rest_small := ih fun character mem => numeric character (by simp [mem])
    obtain ⟨_, high⟩ := digit_bounds (numeric x (by simp))
    have small : x.toNat - '0'.toNat ≤ 9 := by
      have zero : '0'.toNat = 48 := rfl
      omega
    rw [decimal_cons, List.length_cons, Nat.pow_succ]
    calc 10 ^ rest.length * (x.toNat - '0'.toNat) + decimal rest
        ≤ 10 ^ rest.length * 9 + decimal rest := by gcongr
      _ < 10 ^ rest.length * 9 + 10 ^ rest.length := by omega
      _ = 10 ^ rest.length * 10 := by ring

/-- A number without leading zeros is as great as its length says. -/
theorem pow_le_decimal {x : Char} {rest : List Char} (numeric : x.isDigit = true)
    (leading : x ≠ '0') : 10 ^ rest.length ≤ decimal (x :: rest) := by
  have pos : 1 ≤ x.toNat - '0'.toNat := by
    obtain ⟨low, _⟩ := digit_bounds numeric
    have other : x.toNat ≠ 48 := fun same => leading (Char.toNat_inj.mp same)
    have zero : '0'.toNat = 48 := rfl
    omega
  rw [decimal_cons]
  calc 10 ^ rest.length = 10 ^ rest.length * 1 := (Nat.mul_one _).symm
    _ ≤ 10 ^ rest.length * (x.toNat - '0'.toNat) := Nat.mul_le_mul_left _ pos
    _ ≤ _ := Nat.le_add_right _ _

/-- **A shorter number is lower**, if the longer one has no leading zero. -/
theorem decimal_lt_of_length {shorter longer : List Char}
    (numeric : ∀ character ∈ shorter, character.isDigit = true)
    (numeric' : ∀ character ∈ longer, character.isDigit = true)
    (leading : longer.head? ≠ some '0') (less : shorter.length < longer.length) :
    decimal shorter < decimal longer := by
  cases longer with
  | nil => exact absurd less (Nat.not_lt_zero _)
  | cons x rest =>
    rw [List.length_cons] at less
    calc decimal shorter < 10 ^ shorter.length := decimal_lt_pow numeric
      _ ≤ 10 ^ rest.length := Nat.pow_le_pow_right (by decide) (by omega)
      _ ≤ decimal (x :: rest) := pow_le_decimal (numeric' x (by simp)) (by simpa using leading)

/-- **Numbers of one length are ordered as their digits.** -/
theorem decimal_lt_iff {left right : List Char}
    (numeric : ∀ character ∈ left, character.isDigit = true)
    (numeric' : ∀ character ∈ right, character.isDigit = true) (same : left.length = right.length) :
    decimal left < decimal right ↔ left < right := by
  induction left generalizing right with
  | nil =>
    obtain rfl := List.eq_nil_of_length_eq_zero same.symm
    simp [decimal]
  | cons x rest ih =>
    cases right with
    | nil => simp at same
    | cons other others =>
      have same : rest.length = others.length := Nat.succ.inj same
      have below := decimal_lt_pow fun character mem => numeric character (List.mem_cons_of_mem _ mem)
      have below' := decimal_lt_pow fun character mem => numeric' character (List.mem_cons_of_mem _ mem)
      have tails := ih (fun character mem => numeric character (by simp [mem]))
        (fun character mem => numeric' character (by simp [mem])) same
      obtain ⟨low, _⟩ := digit_bounds (numeric x (by simp))
      obtain ⟨low', _⟩ := digit_bounds (numeric' other (by simp))
      have zero : '0'.toNat = 48 := rfl
      have order : x < other ↔ x.toNat < other.toNat := Iff.rfl
      rw [List.cons_lt_cons_iff, decimal_cons, decimal_cons, ← same, zero, ← tails, order]
      rw [← same] at below'
      rcases Nat.lt_trichotomy x.toNat other.toNat with less | equal | more
      · refine iff_of_true ?_ (.inl less)
        calc 10 ^ rest.length * (x.toNat - 48) + decimal rest
            < 10 ^ rest.length * (x.toNat - 48) + 10 ^ rest.length := by omega
          _ = 10 ^ rest.length * (x.toNat - 48 + 1) := by ring
          _ ≤ 10 ^ rest.length * (other.toNat - 48) := Nat.mul_le_mul_left _ (by omega)
          _ ≤ _ := Nat.le_add_right _ _
      · rw [equal]
        have alike : x = other := Char.toNat_inj.mp equal
        constructor
        · exact fun less => .inr ⟨alike, by omega⟩
        · rintro (less | ⟨_, less⟩)
          · exact absurd less (Nat.lt_irrefl _)
          · omega
      · refine iff_of_false (Nat.not_lt.mpr ?_) ?_
        · calc 10 ^ rest.length * (other.toNat - 48) + decimal others
              ≤ 10 ^ rest.length * (other.toNat - 48) + 10 ^ rest.length := by omega
            _ = 10 ^ rest.length * (other.toNat - 48 + 1) := by ring
            _ ≤ 10 ^ rest.length * (x.toNat - 48) := Nat.mul_le_mul_left _ (by omega)
            _ ≤ _ := Nat.le_add_right _ _
        · rintro (less | ⟨alike, _⟩)
          · omega
          · exact absurd (congrArg Char.toNat alike) (by omega)

end SemVer

end FoundationLang.Library
