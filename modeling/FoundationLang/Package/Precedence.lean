/-
**The order of versions, and the precedence of semantic versions.**

`comparePrecedence` reads an identifier of digits with `number`, which fails from 2^64 on; such an
identifier is then compared like a word.
-/

import FoundationLang.Library.SemVer
import FoundationLang.Package.VersionText

namespace FoundationLang.Package

open Library Std

/-! ### The operators -/

/-- **`<=>` and `==` are a strict total order**, and neither of two versions is below the other
exactly when they are equal. -/
theorem compareVersion_strictOrder :
    (∀ version : PackageVersion, version.compareVersion version ≠ .lt) ∧
    (∀ first second third : PackageVersion, first.compareVersion second = .lt →
      second.compareVersion third = .lt → first.compareVersion third = .lt) ∧
    (∀ left right : PackageVersion, left.compareVersion right = .lt ∨ (left == right) = true ∨
      right.compareVersion left = .lt) ∧
    (∀ left right : PackageVersion, left.compareVersion right = (right.compareVersion left).swap) ∧
    ∀ left right : PackageVersion, (left == right) = true ↔
      left.compareVersion right ≠ .lt ∧ right.compareVersion left ≠ .lt := by
  have equal (left right : PackageVersion) : (left == right) = true ↔ left.compareVersion right = .eq := by
    rw [beq_iff_eq, LawfulEqCmp.compare_eq_iff_eq]
  have swap (left right : PackageVersion) :
      left.compareVersion right = (right.compareVersion left).swap := OrientedCmp.eq_swap
  refine ⟨fun version less => ?_, fun first second third => TransCmp.lt_trans, fun left right => ?_,
    swap, fun left right => ?_⟩
  · have same : version.compareVersion version = .eq := ReflCmp.compare_self
    rw [same] at less
    cases less
  · rw [equal, swap right left]
    cases left.compareVersion right <;> simp
  · rw [equal, swap right left]
    cases left.compareVersion right <;> simp

/-! ### Semantic versions -/

/-- The semantic version that a version of the code stands for. -/
def PackageVersion.semver (version : PackageVersion) : SemVer where
  major := version.major.toNat
  minor := version.minor.toNat
  patch := version.patch.toNat
  prerelease := version.prerelease
  build := version.build

/-- A number that `number` does not read. -/
def tooWide (identifier : String) : Bool :=
  SemVer.digits identifier.toList && (number identifier).isNone

/-- Two different identifiers that `comparePrerelease` puts in another order: of two wide numbers
the shorter one has the greater bytes, or a wide number has greater bytes than a word. -/
def misorderedPair (left right : String) : Bool :=
  match tooWide left, tooWide right with
  | true, true =>
    (decide (left.toList.length < right.toList.length) && compare right left == .lt) ||
      (decide (right.toList.length < left.toList.length) && compare left right == .lt)
  | true, false => !SemVer.digits right.toList && compare right left == .lt
  | false, true => !SemVer.digits left.toList && compare left right == .lt
  | false, false => false

/-- The first two identifiers that differ are in another order. -/
def misorderedIdentifiers : List String → List String → Bool
  | left :: lefts, right :: rights =>
    if left = right then misorderedIdentifiers lefts rights else misorderedPair left right
  | _, _ => false

/-- **Two versions that `comparePrecedence` puts in another order.** -/
def Misordered (left right : PackageVersion) : Prop :=
  left.major = right.major ∧ left.minor = right.minor ∧ left.patch = right.patch ∧
    misorderedIdentifiers left.prerelease right.prerelease = true

/-- An identifier of a prerelease, without a leading zero. -/
def PlainIdentifier (identifier : String) : Prop :=
  versionIdentifier identifier.toList = true ∧ leadingZero identifier.toList = false

theorem digits_eq (text : List Char) : SemVer.digits text = (!text.isEmpty && text.all isDigit) := by
  rfl

theorem PlainIdentifier.nonempty {identifier : String} (plain : PlainIdentifier identifier) :
    identifier.toList ≠ [] := by
  intro empty
  have valid := plain.1
  rw [empty] at valid
  cases valid

theorem PlainIdentifier.leading {identifier : String} (plain : PlainIdentifier identifier)
    (numeric : SemVer.digits identifier.toList = true) (longer : 1 < identifier.toList.length) :
    identifier.toList.head? ≠ some '0' := by
  intro zero
  have leading := plain.2
  rw [digits_eq, Bool.and_eq_true] at numeric
  simp [leadingZero, longer, numeric.2, zero] at leading

theorem digits_forall {text : List Char} (numeric : SemVer.digits text = true) :
    ∀ character ∈ text, character.isDigit = true := by
  rw [SemVer.digits, Bool.and_eq_true, List.all_eq_true] at numeric
  exact numeric.2

theorem number_plain {identifier : String} (plain : PlainIdentifier identifier) :
    number identifier =
      if SemVer.digits identifier.toList = true ∧ SemVer.decimal identifier.toList < 2 ^ 64 then
        some (UInt64.ofNat (SemVer.decimal identifier.toList)) else none := by
  have value : digitsValue identifier.toList = SemVer.decimal identifier.toList := rfl
  have filled : identifier.toList.isEmpty = false := by simpa using plain.nonempty
  rw [digits_eq, filled, Bool.not_false, Bool.true_and]
  simp only [number, value, filled, Bool.false_or]
  by_cases numeric : identifier.toList.all isDigit = true
  · have canonical : ¬(decide (1 < identifier.toList.length) &&
        identifier.toList.head? == some '0') = true := by
      rw [Bool.and_eq_true, decide_eq_true_eq, beq_iff_eq]
      rintro ⟨longer, zero⟩
      exact plain.leading (by rw [digits_eq, filled, numeric]; rfl) longer zero
    rw [if_neg canonical]
    simp only [numeric, Bool.true_and, decide_eq_true_eq, true_and]
  · rw [Bool.not_eq_true] at numeric
    simp [numeric]

/-- An identifier is a number that `number` reads, a wider number, or a word. -/
inductive IdentifierKind (identifier : String) : Prop
  | small (digits : SemVer.digits identifier.toList = true) (narrow : tooWide identifier = false)
    (read : number identifier = some (UInt64.ofNat (SemVer.decimal identifier.toList)))
    (bound : SemVer.decimal identifier.toList < 2 ^ 64)
  | wide (digits : SemVer.digits identifier.toList = true) (wide : tooWide identifier = true)
    (unread : number identifier = none) (bound : 2 ^ 64 ≤ SemVer.decimal identifier.toList)
  | word (digits : SemVer.digits identifier.toList = false) (narrow : tooWide identifier = false)
    (unread : number identifier = none)

theorem PlainIdentifier.kind {identifier : String} (plain : PlainIdentifier identifier) :
    IdentifierKind identifier := by
  have read := number_plain plain
  cases ds : SemVer.digits identifier.toList with
  | false =>
    rw [if_neg (by simp [ds])] at read
    exact .word ds (by simp [tooWide, ds]) read
  | true =>
    by_cases small : SemVer.decimal identifier.toList < 2 ^ 64
    · rw [if_pos ⟨ds, small⟩] at read
      exact .small ds (by simp [tooWide, read]) read small
    · rw [if_neg fun both => small both.2] at read
      exact .wide ds (by simp [tooWide, ds, read]) read (Nat.not_lt.mp small)

/-! ### Where the two orders agree -/

theorem compare_lt_iff {left right : String} : compare left right = .lt ↔ left.toList < right.toList :=
  compareOfLessAndEq_eq_lt

/-- Two different texts are in order or the other way around. -/
theorem compare_ne {left right : String} (ne : left ≠ right) :
    (compare left right = .lt ∧ compare right left = .gt) ∨
      (compare left right = .gt ∧ compare right left = .lt) := by
  have swap : compare right left = (compare left right).swap := OrientedCmp.eq_swap
  rw [swap]
  cases outcome : compare left right with
  | lt => exact .inl ⟨rfl, rfl⟩
  | gt => exact .inr ⟨rfl, rfl⟩
  | eq => exact absurd (LawfulEqCmp.eq_of_compare outcome) ne

/-- Numbers of one length, as texts and by value. -/
theorem compare_decimal {left right : String} (numeric : SemVer.digits left.toList = true)
    (numeric' : SemVer.digits right.toList = true) (ne : left ≠ right)
    (same : left.toList.length = right.toList.length) :
    compare left right = compare (SemVer.decimal left.toList) (SemVer.decimal right.toList) := by
  have forward := SemVer.decimal_lt_iff (digits_forall numeric) (digits_forall numeric') same
  have backward := SemVer.decimal_lt_iff (digits_forall numeric') (digits_forall numeric) same.symm
  rw [← compare_lt_iff] at forward backward
  rcases compare_ne ne with ⟨less, _⟩ | ⟨more, less⟩
  · rw [less, Nat.compare_eq_lt.mpr (forward.mpr less)]
  · rw [more, Nat.compare_eq_gt.mpr (backward.mpr less)]

/-- **Two wide numbers** are in order unless the shorter one has the greater bytes. -/
theorem compare_wide_iff {left right : String} (plain : PlainIdentifier left)
    (plain' : PlainIdentifier right) (ne : left ≠ right)
    (numeric : SemVer.digits left.toList = true) (numeric' : SemVer.digits right.toList = true)
    (long : 1 < left.toList.length) (long' : 1 < right.toList.length) :
    compare left right = compare (SemVer.decimal left.toList) (SemVer.decimal right.toList) ↔
      ((decide (left.toList.length < right.toList.length) && compare right left == .lt) ||
        (decide (right.toList.length < left.toList.length) && compare left right == .lt)) = false := by
  rcases Nat.lt_trichotomy left.toList.length right.toList.length with shorter | same | longer
  · have less := SemVer.decimal_lt_of_length (digits_forall numeric) (digits_forall numeric')
      (plain'.leading numeric' long') shorter
    rw [Nat.compare_eq_lt.mpr less]
    rcases compare_ne ne with ⟨x, y⟩ | ⟨x, y⟩ <;>
      simp [x, y, shorter, Nat.not_lt.mpr shorter.le]
  · rw [compare_decimal numeric numeric' ne same]
    simp [same]
  · have less := SemVer.decimal_lt_of_length (digits_forall numeric') (digits_forall numeric)
      (plain.leading numeric long) longer
    rw [Nat.compare_eq_gt.mpr less]
    rcases compare_ne ne with ⟨x, y⟩ | ⟨x, y⟩ <;>
      simp [x, y, longer, Nat.not_lt.mpr longer.le]

theorem long_of_wide {text : List Char} (numeric : SemVer.digits text = true)
    (wide : 2 ^ 64 ≤ SemVer.decimal text) : 1 < text.length := by
  by_contra short
  have below := SemVer.decimal_lt_pow (digits_forall numeric)
  have bound : 10 ^ text.length ≤ 10 ^ 1 := Nat.pow_le_pow_right (by decide) (by omega)
  omega

/-- **Two identifiers that are not misordered.** -/
theorem compareIdentifier_eq_iff {left right : String} (plain : PlainIdentifier left)
    (plain' : PlainIdentifier right) (ne : left ≠ right) :
    compareIdentifier left right = SemVer.compareIdentifier left right ↔
      misorderedPair left right = false := by
  unfold compareIdentifier SemVer.compareIdentifier misorderedPair
  cases plain.kind with
  | small ds narrow read bound =>
    cases plain'.kind with
    | small digits' narrow' read' bound' =>
      rw [ds, digits', narrow, narrow', read, read']
      dsimp only
      rw [UInt64.compare_eq_toNat_compare_toNat, UInt64.toNat_ofNat_of_lt' bound,
        UInt64.toNat_ofNat_of_lt' bound']
      exact iff_of_true rfl rfl
    | wide digits' wide' unread' =>
      -- a number that is read is below one that is not
      rw [ds, digits', narrow, wide', read, unread']
      rw [Nat.compare_eq_lt.mpr (by omega)]
      exact iff_of_true rfl rfl
    | word digits' narrow' unread' =>
      rw [ds, digits', narrow, narrow', read, unread']
      exact iff_of_true rfl rfl
  | wide ds wide unread bound =>
    cases plain'.kind with
    | small digits' narrow' read' =>
      rw [ds, digits', wide, narrow', unread, read']
      rw [Nat.compare_eq_gt.mpr (by omega)]
      exact iff_of_true rfl rfl
    | wide digits' wide' unread' bound' =>
      rw [ds, digits', wide, wide', unread, unread']
      exact compare_wide_iff plain plain' ne ds digits' (long_of_wide ds bound)
        (long_of_wide digits' bound')
    | word digits' narrow' unread' =>
      rw [ds, digits', wide, narrow', unread, unread']
      rcases compare_ne ne with ⟨x, y⟩ | ⟨x, y⟩ <;> simp [x, y]
  | word ds narrow unread =>
    cases plain'.kind with
    | small digits' narrow' read' =>
      rw [ds, digits', narrow, narrow', unread, read']
      exact iff_of_true rfl rfl
    | wide digits' wide' unread' =>
      rw [ds, digits', narrow, wide', unread, unread']
      rcases compare_ne ne with ⟨x, _⟩ | ⟨x, _⟩ <;> simp [x]
    | word digits' narrow' unread' =>
      rw [ds, digits', narrow, narrow', unread, unread']
      exact iff_of_true rfl rfl

theorem semver_compareIdentifier_ne {left right : String} (plain : PlainIdentifier left)
    (plain' : PlainIdentifier right) (ne : left ≠ right) :
    SemVer.compareIdentifier left right ≠ .eq := by
  have texts : compare left right ≠ .eq := fun same => ne (LawfulEqCmp.eq_of_compare same)
  unfold SemVer.compareIdentifier
  cases ds : SemVer.digits left.toList with
  | false =>
    cases SemVer.digits right.toList with
    | false => exact texts
    | true => simp
  | true =>
    cases digits' : SemVer.digits right.toList with
    | false => simp
    | true =>
      rcases Nat.lt_trichotomy left.toList.length right.toList.length with shorter | same | longer
      · have filled := List.length_pos_iff.mpr plain.nonempty
        rw [Nat.compare_eq_lt.mpr (SemVer.decimal_lt_of_length (digits_forall ds)
          (digits_forall digits') (plain'.leading digits' (by omega)) shorter)]
        simp
      · rw [← compare_decimal ds digits' ne same]
        exact texts
      · have filled := List.length_pos_iff.mpr plain'.nonempty
        rw [Nat.compare_eq_gt.mpr (SemVer.decimal_lt_of_length (digits_forall digits')
          (digits_forall ds) (plain.leading ds (by omega)) longer)]
        simp

theorem semver_compareIdentifier_self (identifier : String) :
    SemVer.compareIdentifier identifier identifier = .eq := by
  have text : compare identifier identifier = .eq := ReflCmp.compare_self
  have value : compare (SemVer.decimal identifier.toList) (SemVer.decimal identifier.toList) = .eq :=
    ReflCmp.compare_self
  unfold SemVer.compareIdentifier
  cases SemVer.digits identifier.toList with
  | false => exact text
  | true => exact value

theorem then_eq_then_iff {x first' y y' : Ordering} (decides : x ≠ .eq)
    (decides' : first' ≠ .eq) : x.then y = first'.then y' ↔ x = first' := by
  cases x <;> cases first' <;> simp_all

/-- **Two lists of identifiers**: the first two that differ decide. -/
theorem compareIdentifiers_eq_iff {lefts rights : List String}
    (plain : ∀ part ∈ lefts, PlainIdentifier part) (plain' : ∀ part ∈ rights, PlainIdentifier part) :
    compareIdentifiers lefts rights = SemVer.compareIdentifiers lefts rights ↔
      misorderedIdentifiers lefts rights = false := by
  induction lefts generalizing rights with
  | nil =>
    cases rights with
    | nil => exact iff_of_true rfl rfl
    | cons => exact iff_of_true rfl rfl
  | cons left lefts ih =>
    cases rights with
    | nil => exact iff_of_true rfl rfl
    | cons right =>
      have here := plain left List.mem_cons_self
      have here' := plain' right List.mem_cons_self
      rw [compareIdentifiers, SemVer.compareIdentifiers, misorderedIdentifiers]
      by_cases same : left = right
      · subst same
        have equal : compareIdentifier left left = .eq := ReflCmp.compare_self
        rw [if_pos rfl, equal, semver_compareIdentifier_self]
        exact ih (fun part mem => plain part (List.mem_cons_of_mem _ mem))
          fun part mem => plain' part (List.mem_cons_of_mem _ mem)
      · have decides : compareIdentifier left right ≠ .eq :=
          fun equal => same (LawfulEqCmp.eq_of_compare equal)
        rw [if_neg same, then_eq_then_iff decides (semver_compareIdentifier_ne here here' same)]
        exact compareIdentifier_eq_iff here here' same

theorem comparePrerelease_eq_iff {lefts rights : List String}
    (plain : ∀ part ∈ lefts, PlainIdentifier part) (plain' : ∀ part ∈ rights, PlainIdentifier part) :
    comparePrerelease lefts rights = SemVer.comparePrerelease lefts rights ↔
      misorderedIdentifiers lefts rights = false := by
  cases lefts with
  | nil => cases rights <;> exact iff_of_true rfl rfl
  | cons =>
    cases rights with
    | nil => exact iff_of_true rfl rfl
    | cons => exact compareIdentifiers_eq_iff plain plain'

theorem semver_compareCore (left right : PackageVersion) :
    left.semver.compareCore right.semver = (compare left.major right.major).then
      ((compare left.minor right.minor).then (compare left.patch right.patch)) := by
  simp only [UInt64.compare_eq_toNat_compare_toNat]
  rfl

theorem comparePrecedence_core (left right : PackageVersion) :
    comparePrecedence left right = (left.semver.compareCore right.semver).then
      (comparePrerelease left.prerelease right.prerelease) := by
  rw [semver_compareCore, Ordering.then_assoc, Ordering.then_assoc]
  rfl

theorem semver_compareCore_eq {left right : PackageVersion} :
    left.semver.compareCore right.semver = .eq ↔
      left.major = right.major ∧ left.minor = right.minor ∧ left.patch = right.patch := by
  simp only [semver_compareCore, Ordering.then_eq_eq, LawfulEqCmp.compare_eq_iff_eq]

/-- **The precedence of the code is that of semantic versions** where no two wide identifiers are
misordered. -/
theorem comparePrecedence_eq {left right : PackageVersion}
    (plain : ∀ part ∈ left.prerelease, PlainIdentifier part)
    (plain' : ∀ part ∈ right.prerelease, PlainIdentifier part) :
    comparePrecedence left right = left.semver.precedence right.semver ↔ ¬Misordered left right := by
  rw [comparePrecedence_core, SemVer.precedence]
  by_cases core : left.semver.compareCore right.semver = .eq
  · obtain ⟨major, minor, patch⟩ := semver_compareCore_eq.mp core
    rw [core]
    refine (comparePrerelease_eq_iff plain plain').trans ?_
    simp [Misordered, major, minor, patch]
  · refine iff_of_true ?_ fun misordered => core (semver_compareCore_eq.mpr
      ⟨misordered.1, misordered.2.1, misordered.2.2.1⟩)
    cases same : left.semver.compareCore right.semver with
    | eq => exact absurd same core
    | lt | gt => rfl

/-- **For versions that are parsed.** -/
theorem comparePrecedence_eq_iff (text text' : String) (left right : PackageVersion)
    (parsed : parsePackageVersion text = some left) (parsed' : parsePackageVersion text' = some right) :
    comparePrecedence left right = left.semver.precedence right.semver ↔ ¬Misordered left right :=
  comparePrecedence_eq (parsePackageVersion_valid parsed).prerelease
    (parsePackageVersion_valid parsed').prerelease

theorem comparePrecedence_eq_iff_sample :
    comparePrecedence ⟨1, 0, 0, ["rc", "2"], []⟩ ⟨1, 0, 0, ["rc", "10"], []⟩ =
        (⟨1, 0, 0, ["rc", "2"], []⟩ : PackageVersion).semver.precedence
          (⟨1, 0, 0, ["rc", "10"], []⟩ : PackageVersion).semver ↔
      ¬Misordered ⟨1, 0, 0, ["rc", "2"], []⟩ ⟨1, 0, 0, ["rc", "10"], []⟩ :=
  comparePrecedence_eq_iff "1.0.0-rc.2" "1.0.0-rc.10" _ _ (by decide +kernel) (by decide +kernel)

/-- The numbers 10^20 - 1 and 10^20. -/
theorem comparePrecedence_wide :
    parsePackageVersion "1.0.0-99999999999999999999" =
        some ⟨1, 0, 0, ["99999999999999999999"], []⟩ ∧
      parsePackageVersion "1.0.0-100000000000000000000" =
        some ⟨1, 0, 0, ["100000000000000000000"], []⟩ ∧
      comparePrecedence ⟨1, 0, 0, ["99999999999999999999"], []⟩
        ⟨1, 0, 0, ["100000000000000000000"], []⟩ = .gt ∧
      (⟨1, 0, 0, ["99999999999999999999"], []⟩ : PackageVersion).semver.precedence
        (⟨1, 0, 0, ["100000000000000000000"], []⟩ : PackageVersion).semver = .lt := by
  decide +kernel

end FoundationLang.Package
