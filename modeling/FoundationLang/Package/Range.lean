/-
**The range of a caret or tilde requirement.**
-/

import FoundationLang.Package.Precedence

namespace FoundationLang.Package

open Library Std

/-- The first release above the range of the requirement. -/
def PackageRequirement.bound (requirement : PackageRequirement) : SemVer :=
  if requirement.kind = .tilde then requirement.version.semver.tildeBound
  else requirement.version.semver.caretBound

/-- **The range of a caret or tilde requirement.** -/
def PackageRequirement.InRange (requirement : PackageRequirement) (candidate : PackageVersion) : Prop :=
  candidate.semver.precedence requirement.version.semver ≠ .lt ∧
    candidate.semver.precedence requirement.bound = .lt

instance (requirement : PackageRequirement) (candidate : PackageVersion) :
    Decidable (requirement.InRange candidate) :=
  inferInstanceAs (Decidable (_ ∧ _))

/-- The number that `upperBound` increments. -/
def PackageRequirement.raised (requirement : PackageRequirement) : UInt64 :=
  if requirement.kind = .tilde then requirement.version.minor
  else if requirement.version.major ≠ 0 then requirement.version.major
  else if requirement.version.minor ≠ 0 then requirement.version.minor
  else requirement.version.patch

/-- The greatest `std::size_t`. -/
def greatestSize : UInt64 :=
  0xFFFFFFFFFFFFFFFF

variable {requirement : PackageRequirement} {candidate v : PackageVersion}

theorem toNat_succ {v : UInt64} (small : v ≠ greatestSize) :
    (v + 1).toNat = v.toNat + 1 := by
  have other : v.toNat ≠ greatestSize.toNat := fun same => small (UInt64.toNat_inj.mp same)
  have greatest : greatestSize.toNat = 2 ^ 64 - 1 := by decide
  have bound := v.toNat_lt
  have sum : (v + 1).toNat = (v.toNat + 1) % 2 ^ 64 := UInt64.toNat_add v 1
  omega

theorem toNat_ne_zero {v : UInt64} (nonzero : v ≠ 0) : v.toNat ≠ 0 :=
  fun same => nonzero (UInt64.toNat_inj.mp same)

theorem semver_upperBound (whole : requirement.raised ≠ greatestSize) :
    (upperBound requirement).semver = requirement.bound := by
  unfold PackageRequirement.raised at whole
  unfold upperBound PackageRequirement.bound SemVer.caretBound SemVer.tildeBound
  by_cases tilde : requirement.kind = .tilde
  · rw [if_pos tilde] at whole
    simp [tilde, PackageVersion.semver, toNat_succ whole]
  · rw [if_neg tilde] at whole
    by_cases major : requirement.version.major = 0
    · by_cases minor : requirement.version.minor = 0
      · simp only [major, minor, ne_eq, not_true_eq_false, if_false] at whole
        simp [tilde, major, minor, PackageVersion.semver, toNat_succ whole]
      · simp only [major, minor, ne_eq, not_true_eq_false, if_false, not_false_eq_true, if_true] at whole
        simp [tilde, major, minor, PackageVersion.semver, toNat_succ whole, toNat_ne_zero minor]
    · simp only [major, ne_eq, not_false_eq_true, if_true] at whole
      simp [tilde, major, PackageVersion.semver, toNat_succ whole, toNat_ne_zero major]

theorem upperBound_prerelease (requirement : PackageRequirement) :
    (upperBound requirement).prerelease = [] := by
  unfold upperBound
  dsimp only
  split_ifs <;> rfl

theorem upperBound_of_wrapped (wrapped : requirement.raised = greatestSize) :
    comparePrecedence (upperBound requirement) requirement.version = .lt := by
  have below : compare (greatestSize + 1) greatestSize = .lt := by decide
  unfold PackageRequirement.raised at wrapped
  unfold upperBound comparePrecedence
  by_cases tilde : requirement.kind = .tilde
  · rw [if_pos tilde] at wrapped
    simp [tilde, wrapped, below]
  · rw [if_neg tilde] at wrapped
    by_cases major : requirement.version.major = 0
    · by_cases minor : requirement.version.minor = 0
      · simp only [major, minor, ne_eq, not_true_eq_false, if_false] at wrapped
        simp [tilde, major, minor, wrapped, below]
      · simp only [major, minor, ne_eq, not_true_eq_false, if_false, not_false_eq_true, if_true] at wrapped
        have nonzero : greatestSize ≠ 0 := by decide
        simp [tilde, major, wrapped, below, nonzero]
    · simp only [major, ne_eq, not_false_eq_true, if_true] at wrapped
      have nonzero : greatestSize ≠ 0 := by decide
      simp [tilde, wrapped, below, nonzero]

theorem accepts_iff (ranged : requirement.kind = .caret ∨ requirement.kind = .tilde) :
    requirement.accepts candidate = true ↔
      comparePrecedence candidate requirement.version ≠ .lt ∧
        comparePrecedence candidate (upperBound requirement) = .lt := by
  unfold PackageRequirement.accepts
  rcases ranged with kind | kind <;>
    rw [kind, Bool.and_eq_true, bne_iff_ne, beq_iff_eq]

/-- **A bound that wraps around accepts nothing.** -/
theorem accepts_of_wrapped (ranged : requirement.kind = .caret ∨ requirement.kind = .tilde)
    (wrapped : requirement.raised = greatestSize) : requirement.accepts candidate = false := by
  rw [Bool.eq_false_iff, ne_eq, accepts_iff ranged]
  rintro ⟨above, below⟩
  exact above (TransCmp.lt_trans below (upperBound_of_wrapped wrapped))

/-! ### Misordered versions -/

theorem misorderedIdentifiers_nil (lefts : List String) : misorderedIdentifiers lefts [] = false := by
  cases lefts <;> rfl

theorem misorderedIdentifiers_ne {lefts rights : List String}
    (plain : ∀ part ∈ lefts, PlainIdentifier part) (plain' : ∀ part ∈ rights, PlainIdentifier part)
    (misordered : misorderedIdentifiers lefts rights = true) :
    comparePrerelease lefts rights ≠ .eq ∧ SemVer.comparePrerelease lefts rights ≠ .eq := by
  have apart : lefts ≠ rights → SemVer.compareIdentifiers lefts rights ≠ .eq := by
    clear misordered
    induction lefts generalizing rights with
    | nil =>
      cases rights with
      | nil => exact fun ne => absurd rfl ne
      | cons => exact fun _ => by simp [SemVer.compareIdentifiers]
    | cons left lefts ih =>
      cases rights with
      | nil => exact fun _ => by simp [SemVer.compareIdentifiers]
      | cons right =>
        intro ne
        rw [SemVer.compareIdentifiers, ne_eq, Ordering.then_eq_eq]
        rintro ⟨x, rest⟩
        by_cases same : left = right
        · refine ih (fun part mem => plain part (List.mem_cons_of_mem _ mem))
            (fun part mem => plain' part (List.mem_cons_of_mem _ mem)) ?_ rest
          rintro rfl
          exact ne (by rw [same])
        · exact semver_compareIdentifier_ne (plain left List.mem_cons_self)
            (plain' right List.mem_cons_self) same x
  have ne : lefts ≠ rights := by
    rintro rfl
    have never : ∀ parts : List String, misorderedIdentifiers parts parts = false := by
      intro parts
      induction parts with
      | nil => rfl
      | cons part parts ih => rw [misorderedIdentifiers, if_pos rfl, ih]
    rw [never] at misordered
    cases misordered
  refine ⟨fun same => ne (LawfulEqCmp.eq_of_compare same), ?_⟩
  cases lefts with
  | nil => cases misordered
  | cons =>
    cases rights with
    | nil => cases misordered
    | cons => exact apart ne

theorem Misordered.opposite {left right : PackageVersion}
    (plain : ∀ part ∈ left.prerelease, PlainIdentifier part)
    (plain' : ∀ part ∈ right.prerelease, PlainIdentifier part) (misordered : Misordered left right) :
    comparePrecedence left right ≠ .lt ↔ left.semver.precedence right.semver = .lt := by
  have differ : comparePrecedence left right ≠ left.semver.precedence right.semver :=
    fun same => (comparePrecedence_eq plain plain').mp same misordered
  obtain ⟨major, minor, patch, identifiers⟩ := misordered
  have core := semver_compareCore_eq.mpr ⟨major, minor, patch⟩
  obtain ⟨unequal, unequal'⟩ := misorderedIdentifiers_ne plain plain' identifiers
  rw [comparePrecedence_core, SemVer.precedence, core] at differ ⊢
  change comparePrerelease left.prerelease right.prerelease ≠ .lt ↔
    SemVer.comparePrerelease left.prerelease right.prerelease = .lt
  change comparePrerelease left.prerelease right.prerelease ≠
    SemVer.comparePrerelease left.prerelease right.prerelease at differ
  cases outcome : comparePrerelease left.prerelease right.prerelease <;>
    cases outcome' : SemVer.comparePrerelease left.prerelease right.prerelease <;>
    simp_all

theorem precedence_bound_of_core
    (core : candidate.semver.compareCore requirement.version.semver = .eq) :
    candidate.semver.precedence requirement.bound = .lt := by
  obtain ⟨major, minor, patch⟩ := semver_compareCore_eq.mp core
  have next (v : ℕ) : compare v (v + 1) = .lt := Nat.compare_eq_lt.mpr (Nat.lt_succ_self _)
  unfold SemVer.precedence SemVer.compareCore PackageRequirement.bound SemVer.tildeBound
    SemVer.caretBound
  simp only [PackageVersion.semver, major, minor, patch]
  by_cases tilde : requirement.kind = .tilde
  · simp [tilde, next]
  · rw [if_neg tilde]
    by_cases zero : requirement.version.major.toNat = 0
    · by_cases zero' : requirement.version.minor.toNat = 0
      · simp [zero, zero', next]
      · simp [zero, zero', next]
    · simp [zero, next]

/-! ### Acceptance -/

/-- **Acceptance is the range**, unless the bound wraps around below a version of the range or the
candidate and the version of the requirement are misordered. -/
theorem accepts_iff_inRange (text text' : String) (requirement : PackageRequirement)
    (candidate : PackageVersion) (parsed : parsePackageRequirement text = some requirement)
    (parsed' : parsePackageVersion text' = some candidate)
    (ranged : requirement.kind = .caret ∨ requirement.kind = .tilde) :
    (requirement.accepts candidate = true ↔ requirement.InRange candidate) ↔
      (requirement.raised = greatestSize → ¬requirement.InRange candidate) ∧
        (requirement.raised ≠ greatestSize → ¬Misordered candidate requirement.version) := by
  have plain := (parsePackageVersion_valid parsed').prerelease
  have plain' := (parsePackageRequirement_valid parsed).version.prerelease
  by_cases wrapped : requirement.raised = greatestSize
  · rw [accepts_of_wrapped ranged wrapped]
    simp [wrapped]
  · have bound : comparePrecedence candidate (upperBound requirement) =
        candidate.semver.precedence requirement.bound := by
      rw [← semver_upperBound wrapped]
      have release := upperBound_prerelease requirement
      refine (comparePrecedence_eq plain (by rw [release]; simp)).mpr fun misordered => ?_
      have identifiers := misordered.2.2.2
      rw [release, misorderedIdentifiers_nil] at identifiers
      cases identifiers
    rw [accepts_iff ranged, PackageRequirement.InRange, bound]
    by_cases misordered : Misordered candidate requirement.version
    · have core := semver_compareCore_eq.mpr ⟨misordered.1, misordered.2.1, misordered.2.2.1⟩
      rw [misordered.opposite plain plain', precedence_bound_of_core core]
      simp [wrapped, misordered]
    · rw [(comparePrecedence_eq plain plain').mpr misordered]
      simp [wrapped, misordered]

theorem accepts_iff_inRange_sample :
    ((⟨.caret, ⟨1, 2, 0, [], []⟩⟩ : PackageRequirement).accepts ⟨1, 9, 0, ["rc"], []⟩ = true ↔
        (⟨.caret, ⟨1, 2, 0, [], []⟩⟩ : PackageRequirement).InRange ⟨1, 9, 0, ["rc"], []⟩) ↔
      ((⟨.caret, ⟨1, 2, 0, [], []⟩⟩ : PackageRequirement).raised = greatestSize →
          ¬(⟨.caret, ⟨1, 2, 0, [], []⟩⟩ : PackageRequirement).InRange ⟨1, 9, 0, ["rc"], []⟩) ∧
        ((⟨.caret, ⟨1, 2, 0, [], []⟩⟩ : PackageRequirement).raised ≠ greatestSize →
          ¬Misordered ⟨1, 9, 0, ["rc"], []⟩ ⟨1, 2, 0, [], []⟩) :=
  accepts_iff_inRange "^1.2.0" "1.9.0-rc" _ _ (by decide +kernel) (by decide +kernel) (.inl rfl)

/-- The requirement `^18446744073709551615.0.0` does not accept its own version. -/
theorem accepts_wraps :
    parsePackageRequirement "^18446744073709551615.0.0" = some ⟨.caret, ⟨greatestSize, 0, 0, [], []⟩⟩ ∧
      parsePackageVersion "18446744073709551615.0.0" = some ⟨greatestSize, 0, 0, [], []⟩ ∧
      (⟨.caret, ⟨greatestSize, 0, 0, [], []⟩⟩ : PackageRequirement).accepts
        ⟨greatestSize, 0, 0, [], []⟩ = false ∧
      (⟨.caret, ⟨greatestSize, 0, 0, [], []⟩⟩ : PackageRequirement).InRange
        ⟨greatestSize, 0, 0, [], []⟩ := by
  decide +kernel

end FoundationLang.Package
