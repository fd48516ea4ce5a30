/-
**The orders of versions and candidates.**

Every comparison of the package code is a total order: versions by precedence and then by build
metadata, texts by their characters, candidates by name, version, kind, location and digest.
Equal under `compareVersion` means equal, since a number without leading zeros has one spelling.

Sorting under a total order whose keys are distinct has one result, whatever the order of the input
(`stdSort_eq_of_perm`).
-/

import FoundationLang.Package.Resolver
import Mathlib.Data.List.Induction
import Mathlib.Data.List.Pairwise

namespace FoundationLang.Package

open Std List

/-! ### Numbers -/

theorem toDigits_digitsValue {digits : List Char} (nonempty : digits ≠ [])
    (numeric : digits.all isDigit = true)
    (canonical : digits.length = 1 ∨ digits.head? ≠ some '0') :
    Nat.toDigits 10 (digitsValue digits) = digits := by
  induction digits using List.reverseRecOn with
  | nil => exact absurd rfl nonempty
  | append_singleton initial last ih =>
    rw [all_append, Bool.and_eq_true, all_cons, all_nil, Bool.and_true] at numeric
    obtain ⟨value, bound, rfl⟩ : ∃ value < 10, last = Nat.digitChar value := by
      have range := numeric.2
      rw [isDigit, Bool.and_eq_true, decide_eq_true_eq, decide_eq_true_eq] at range
      have low : 48 ≤ last.toNat := range.1
      have high : last.toNat ≤ 57 := range.2
      refine ⟨last.toNat - 48, by omega, Char.toNat_inj.mp ?_⟩
      rw [Nat.toNat_digitChar_of_lt_ten (by omega)]
      omega
    have split : digitsValue (initial ++ [Nat.digitChar value])
        = 10 * digitsValue initial + value := by
      rw [digitsValue, foldl_append]
      simp only [foldl_cons, foldl_nil]
      rw [← digitsValue, show '0'.toNat = 48 from rfl, Nat.toNat_digitChar_sub_48_of_lt_ten bound]
    rw [split]
    cases initial with
    | nil =>
      rw [show digitsValue [] = 0 from rfl, Nat.mul_zero, Nat.zero_add,
        Nat.toDigits_of_lt_base bound, nil_append]
    | cons x rest =>
      have leading : x ≠ '0' := by
        rcases canonical with one | head
        · simp at one
        · simpa using head
      have same := ih (by simp) numeric.1 (.inr (by simpa using leading))
      have pos : 0 < digitsValue (x :: rest) := by
        refine Nat.pos_of_ne_zero fun zero => leading ?_
        rw [zero, Nat.toDigits_zero] at same
        cases same
        rfl
      rw [← Nat.toDigits_append_toDigits (by decide) pos bound, same,
        Nat.toDigits_of_lt_base bound]

/-- **A number has one spelling.** -/
theorem number_eq_some {text : String} {v : UInt64} (parsed : number text = some v) :
    text = toString v.toNat := by
  simp only [number] at parsed
  split at parsed
  · cases parsed
  rename_i shape
  split at parsed
  · rename_i numeric
    rw [Bool.and_eq_true, decide_eq_true_eq] at numeric
    cases parsed
    rw [Bool.or_eq_true, not_or, List.isEmpty_iff, Bool.and_eq_true, decide_eq_true_eq,
      beq_iff_eq] at shape
    have canonical : text.toList.length = 1 ∨ text.toList.head? ≠ some '0' := by
      by_cases longer : 1 < text.toList.length
      · exact .inr fun zero => shape.2 ⟨longer, zero⟩
      · have := length_pos_iff.mpr shape.1
        exact .inl (by omega)
    rw [UInt64.toNat_ofNat_of_lt' numeric.2, Nat.toString_eq_repr, ← String.toList_inj,
      Nat.toList_repr, toDigits_digitsValue shape.1 numeric.1 canonical]
  · cases parsed

theorem isDigit_eq (c : Char) : isDigit c = c.isDigit := by
  rw [isDigit, Char.isDigit]
  rfl

/-- What is printed is read back. -/
theorem number_toString (value : UInt64) : number (toString value.toNat) = some value := by
  have ds : (toString value.toNat).toList = Nat.toDigits 10 value.toNat := by simp
  have whole : digitsValue (Nat.toDigits 10 value.toNat) = value.toNat :=
    Nat.ofDigitChars_ten_toDigits
  have leading : ¬ (1 < (Nat.toDigits 10 value.toNat).length
      ∧ (Nat.toDigits 10 value.toNat).head? = some '0') := by
    generalize value.toNat = count
    induction count using Nat.strongRecOn with
    | ind count ih =>
      rintro ⟨longer, zero⟩
      rw [Nat.toDigits_eq_if (by decide)] at longer zero
      split at longer
      · simp at longer
      · rename_i large
        rw [if_neg large, List.head?_append] at zero
        by_cases small : count / 10 < 10
        · rw [Nat.toDigits_of_lt_base small] at zero
          have same : (Nat.digitChar (count / 10)).toNat = '0'.toNat := by
            rw [List.head?_cons, Option.some_or, Option.some.injEq] at zero
            rw [zero]
          rw [Nat.toNat_digitChar_of_lt_ten small, show '0'.toNat = 48 from rfl] at same
          omega
        · refine ih (count / 10) (by omega) ⟨?_, ?_⟩
          · rw [Nat.toDigits_of_base_le (by decide) (by omega), length_append,
              length_singleton]
            have := Nat.length_toDigits_pos (b := 10) (n := count / 10 / 10)
            omega
          · cases head : (Nat.toDigits 10 (count / 10)).head? with
            | none => simp at head
            | some =>
              rw [head] at zero
              exact zero
  have numeric : (Nat.toDigits 10 value.toNat).all isDigit = true := by
    rw [all_eq_true]
    intro character mem
    rw [isDigit_eq]
    exact Nat.isDigit_of_mem_toDigits (by decide) (by decide) mem
  simp only [number, ds, whole, numeric]
  rw [if_neg, if_pos]
  · rw [UInt64.ofNat_toNat]
  · simpa using value.toNat_lt
  · rw [Bool.or_eq_true, List.isEmpty_iff, Bool.and_eq_true, decide_eq_true_eq, beq_iff_eq]
    exact fun bad => bad.elim Nat.toDigits_ne_nil leading

/-! ### Total orders -/

theorem compareIdentifier_eq : compareIdentifier
    = compareLex (compareOn fun text => (number text).isNone)
      (compareLex (compareOn fun text => (number text).getD 0)
        (compareOn fun text => if (number text).isSome then "" else text)) := by
  funext left right
  simp only [compareIdentifier, compareLex, compareOn]
  cases number left with
  | none => cases number right <;> rfl
  | some v =>
    cases number right with
    | none => rfl
    | some y => cases outcome : compare v y <;> simp [outcome]

instance : TransCmp compareIdentifier := by
  rw [compareIdentifier_eq]
  infer_instance

instance : LawfulEqCmp compareIdentifier where
  compare_self := by
    intro text
    simp only [compareIdentifier]
    cases number text <;> simp
  eq_of_compare := by
    intro left right same
    simp only [compareIdentifier] at same
    cases one : number left <;> cases two : number right <;> rw [one, two] at same
    · replace same : compare left right = .eq := same
      exact LawfulEqCmp.eq_of_compare same
    · cases same
    · cases same
    · rename_i value other
      replace same : compare value other = .eq := same
      rw [number_eq_some one, number_eq_some two, LawfulEqCmp.eq_of_compare same]

theorem compareIdentifiers_eq : compareIdentifiers = List.compareLex compareIdentifier := by
  funext left right
  induction left generalizing right with
  | nil => cases right <;> simp [compareIdentifiers, List.compareLex]
  | cons x rest ih =>
    cases right with
    | nil => simp [compareIdentifiers, List.compareLex]
    | cons => rw [compareIdentifiers, List.compareLex_cons_cons, ih]

theorem compareTexts_eq : compareTexts = List.compareLex compare := by
  funext left right
  induction left generalizing right with
  | nil => cases right <;> simp [compareTexts, List.compareLex]
  | cons x rest ih =>
    cases right with
    | nil => simp [compareTexts, List.compareLex]
    | cons => rw [compareTexts, List.compareLex_cons_cons, ih]

instance : TransCmp compareTexts := by
  rw [compareTexts_eq]
  infer_instance

instance : LawfulEqCmp compareTexts := by
  rw [compareTexts_eq]
  infer_instance

theorem comparePrerelease_eq : comparePrerelease
    = compareLex (compareOn List.isEmpty) (List.compareLex compareIdentifier) := by
  funext left right
  rw [comparePrerelease, compareIdentifiers_eq]
  cases left <;> cases right <;> simp [compareLex, compareOn] <;> rfl

instance : TransCmp comparePrerelease := by
  rw [comparePrerelease_eq]
  infer_instance

instance : LawfulEqCmp comparePrerelease := by
  rw [comparePrerelease_eq]
  exact {
    compare_self := ReflCmp.compare_self
    eq_of_compare := fun same => LawfulEqCmp.eq_of_compare (compareLex_eq_eq.mp same).2 }

/-- A comparison of parts is a comparison of wholes. -/
theorem transCmp_on {α β : Type} (cmp : β → β → Ordering) [TransCmp cmp] (part : α → β) :
    TransCmp fun left right => cmp (part left) (part right) where
  eq_swap := OrientedCmp.eq_swap
  isLE_trans := TransCmp.isLE_trans

instance : TransCmp comparePrecedence := by
  have := transCmp_on comparePrerelease PackageVersion.prerelease
  exact inferInstanceAs (TransCmp (compareLex (compareOn PackageVersion.major)
    (compareLex (compareOn PackageVersion.minor) (compareLex (compareOn PackageVersion.patch)
      fun left right => comparePrerelease left.prerelease right.prerelease))))

instance : TransCmp PackageVersion.compareVersion := by
  have := transCmp_on compareTexts PackageVersion.build
  exact inferInstanceAs (TransCmp (compareLex comparePrecedence
    fun left right => compareTexts left.build right.build))

/-- **Versions that compare as equal are equal.** -/
instance : LawfulEqCmp PackageVersion.compareVersion where
  compare_self := ReflCmp.compare_self
  eq_of_compare := by
    intro left right same
    simp only [PackageVersion.compareVersion, comparePrecedence, Ordering.then_eq_eq] at same
    obtain ⟨⟨major, minor, patch, prerelease⟩, build⟩ := same
    cases left
    cases right
    rw [PackageVersion.mk.injEq]
    exact ⟨LawfulEqCmp.eq_of_compare major, LawfulEqCmp.eq_of_compare minor,
      LawfulEqCmp.eq_of_compare patch, LawfulEqCmp.eq_of_compare prerelease,
      LawfulEqCmp.eq_of_compare build⟩

/-- The order of candidates without their digests. -/
def compareSource (left right : PackageCandidate) : Ordering :=
  (compare left.manifest.name right.manifest.name).then <|
    (left.manifest.version.compareVersion right.manifest.version).then <|
      (compare left.kind.rank right.kind.rank).then (compare left.location right.location)

instance : TransCmp compareSource := by
  have := transCmp_on PackageVersion.compareVersion
    fun candidate : PackageCandidate => candidate.manifest.version
  exact inferInstanceAs (TransCmp (compareLex (α := PackageCandidate)
    (compareOn (·.manifest.name)) (compareLex
      (fun left right => left.manifest.version.compareVersion right.manifest.version)
      (compareLex (compareOn (·.kind.rank)) (compareOn (·.location))))))

theorem compareCandidate_eq (left right : PackageCandidate) :
    compareCandidate left right = (compareSource left right).then (compare left.digest right.digest) := by
  simp only [compareCandidate, compareSource, Ordering.then_assoc]

instance : TransCmp compareCandidate := by
  rw [show compareCandidate = compareLex compareSource (compareOn (·.digest)) from
    funext fun left => funext fun right => compareCandidate_eq left right]
  infer_instance

theorem rank_inj {left right : PackageLocationKind} (same : left.rank = right.rank) :
    left = right := by
  cases left <;> cases right <;> first | rfl | cases same

theorem duplicateCandidate_iff {left right : PackageCandidate} :
    duplicateCandidate left right = true ↔ compareSource left right = .eq := by
  simp only [duplicateCandidate, compareSource, Bool.and_eq_true, beq_iff_eq, Ordering.then_eq_eq,
    LawfulEqCmp.compare_eq_iff_eq, and_assoc]
  exact and_congr_right fun _ => and_congr_right fun _ => and_congr_left fun _ =>
    ⟨fun same => by rw [same], rank_inj⟩

instance : TransCmp compareEdge := by
  unfold compareEdge
  infer_instance

instance : LawfulEqCmp compareEdge where
  eq_of_compare {left right} equal := by
    simp only [compareEdge, compareLex, compareOn] at equal
    rcases left with ⟨leftParent, leftDependency, leftScope⟩
    rcases right with ⟨rightParent, rightDependency, rightScope⟩
    simp only [Ordering.then_eq_eq, LawfulEqCmp.compare_eq_iff_eq] at equal
    obtain ⟨parents, dependencies, ranks⟩ := equal
    cases leftScope <;> cases rightScope <;> simp_all [PackageDependencyScope.rank]

/-! ### Sorting -/

section Sorting

variable {α : Type} {cmp : α → α → Ordering} {values others : List α}

theorem stdSort_perm (less : α → α → Bool) (values : List α) : (stdSort less values).Perm values :=
  perm_insertionSort _ _

variable [TransCmp cmp]

theorem stdSort_pairwise (values : List α) :
    (stdSort (fun left right => cmp left right == .lt) values).Pairwise
      fun left right => (cmp left right).isLE = true := by
  have le (left right : α) : (cmp right left == .lt) = false ↔ (cmp left right).isLE = true := by
    have swap : cmp left right = (cmp right left).swap := OrientedCmp.eq_swap
    rw [swap]
    cases cmp right left <;> simp
  have : Std.Total fun left right : α => (cmp right left == .lt) = false := by
    refine ⟨fun left right => ?_⟩
    have swap : cmp left right = (cmp right left).swap := OrientedCmp.eq_swap
    rw [swap]
    cases cmp right left <;> simp
  have : IsTrans α fun left right : α => (cmp right left == .lt) = false := by
    refine ⟨fun x y third one two => ?_⟩
    rw [le] at one two ⊢
    exact TransCmp.isLE_trans one two
  exact (pairwise_insertionSort _ values).imp fun {left right} => (le left right).mp

theorem eq_of_sorted (perm : values.Perm others)
    (distinct : values.Pairwise fun left right => cmp left right ≠ .eq)
    (sorted : values.Pairwise fun left right => (cmp left right).isLE = true)
    (too : others.Pairwise fun left right => (cmp left right).isLE = true) : values = others := by
  refine perm.eq_of_pairwise (fun left right mem present one two => ?_) sorted too
  by_contra ne
  have : Std.Symm fun left right => cmp left right ≠ .eq := ⟨fun _ _ => mt OrientedCmp.eq_symm⟩
  exact distinct.forall mem (perm.mem_iff.mpr present) ne (OrientedCmp.isLE_antisymm one two)

/-- **Values with distinct keys are sorted in one way.** -/
theorem stdSort_eq_of_perm (perm : values.Perm others)
    (distinct : values.Pairwise fun left right => cmp left right ≠ .eq) :
    stdSort (fun left right => cmp left right == .lt) values
      = stdSort (fun left right => cmp left right == .lt) others := by
  have sorts := stdSort_perm (fun left right => cmp left right == .lt)
  refine eq_of_sorted (((sorts values).trans perm).trans (sorts others).symm) ?_
    (stdSort_pairwise values) (stdSort_pairwise others)
  exact (sorts values).symm.pairwise distinct fun {left right} => mt OrientedCmp.eq_symm

theorem stdSort_stdSort (values : List α) :
    stdSort (fun left right => cmp left right == .lt)
        (stdSort (fun left right => cmp left right == .lt) values)
      = stdSort (fun left right => cmp left right == .lt) values := by
  refine List.Pairwise.insertionSort_eq ((stdSort_pairwise values).imp fun {left right} le => ?_)
  have swap : cmp right left = (cmp left right).swap := OrientedCmp.eq_swap
  show (cmp right left == .lt) = false
  rw [swap]
  cases outcome : cmp left right <;> rw [outcome] at le <;> first | rfl | cases le

theorem stdSort_of_pairwise (sorted : values.Pairwise fun left right => cmp left right = .lt) :
    stdSort (fun left right => cmp left right == .lt) values = values := by
  refine (eq_of_sorted (stdSort_perm _ values).symm ?_ ?_ (stdSort_pairwise values)).symm
  · exact sorted.imp fun less equal => by rw [less] at equal; cases equal
  · exact sorted.imp fun less => by rw [less]; rfl

theorem stdSort_strict (distinct : values.Pairwise fun left right => cmp left right ≠ .eq) :
    (stdSort (fun left right => cmp left right == .lt) values).Pairwise
      fun left right => cmp left right = .lt := by
  have spread : (stdSort (fun left right => cmp left right == .lt) values).Pairwise
      fun left right => cmp left right ≠ .eq :=
    (stdSort_perm _ values).symm.pairwise distinct fun {left right} => mt OrientedCmp.eq_symm
  refine ((stdSort_pairwise values).and spread).imp fun {left right} both => ?_
  obtain ⟨le, unequal⟩ := both
  cases outcome : cmp left right
  · rfl
  · exact absurd outcome unequal
  · rw [outcome] at le
    cases le

end Sorting

end FoundationLang.Package
