/-
**The arms that run.**
-/

import Mathlib.Algebra.Order.BigOperators.Group.List
import Mathlib.Algebra.Order.Group.Nat
import FoundationLang.Match.Coverage

namespace FoundationLang.Match

open Standard

variable {type : PayloadType} {variant : ℕ}

section Values

variable {F O : Type} {same : F → ℤ → Bool} {target : Target} {enumeration : Enumeration}
  {value : Value F O} {arms front : List Arm} {arm : Arm}

/-! ### Some arm runs -/

/-- An arm runs if an arm without a guard matches. -/
theorem select_isSome (guards : ℕ → Bool) (i : ℕ)
    (found : ∃ arm ∈ arms, arm.guarded = false ∧ matchesArm same enumeration value arm = true) :
    ∃ chosen, select same enumeration value guards i arms = some chosen := by
  induction arms generalizing i with
  | nil =>
    obtain ⟨_, inside, _⟩ := found
    cases inside
  | cons x arms ih =>
    unfold select
    by_cases runs : (matchesArm same enumeration value x && (!x.guarded || guards i)) = true
    · rw [if_pos runs]
      exact ⟨i, rfl⟩
    · rw [if_neg runs]
      refine ih (i + 1) ?_
      obtain ⟨arm, inside, plain, matching⟩ := found
      rcases List.mem_cons.mp inside with rfl | later
      · rw [matching, plain] at runs
        exact absurd rfl runs
      · exact ⟨arm, later, plain, matching⟩

theorem matchesArm_names (names : arm.Names enumeration value.tag) :
    matchesArm same enumeration value arm = match arm.pattern with
      | .literal expression => value.payload.equals same expression
      | _ => true := by
  unfold matchesArm
  rw [names.1, names.2, decide_eq_true rfl, Bool.false_or]
  cases arm.pattern <;> exact Bool.true_and _

/-- **Some arm without a guard matches**, if the variant of the value is covered. -/
theorem covered_matches (same : F → ℤ → Bool) (isOf : value.IsOf target enumeration)
    (covered : Covered enumeration arms value.tag) :
    ∃ arm ∈ arms, arm.guarded = false ∧ matchesArm same enumeration value arm = true := by
  rcases covered with ⟨arm, inside, plain, wild⟩ | ⟨arm, inside, plain, names, whole⟩ | ⟨payload, both⟩
  · refine ⟨arm, inside, plain, ?_⟩
    unfold matchesArm
    rw [wild, Bool.true_or]
  · refine ⟨arm, inside, plain, ?_⟩
    rw [matchesArm_names names]
    cases pattern : arm.pattern with
    | literal expression => exact absurd pattern (whole expression)
    | absent | binding => rfl
  · have typed := isOf.2
    rw [payload] at typed
    obtain ⟨_, content⟩ := value
    cases content with
    | boolean value =>
      obtain ⟨arm, inside, plain, names, compared⟩ := both value
      refine ⟨arm, inside, plain, ?_⟩
      rw [matchesArm_names names, compared]
      exact decide_eq_true rfl
    | _ => exact typed.elim

/-! ### Arms that can run -/

/-- **A value gets to the arm**: the arm matches it, and no earlier arm without a guard does. -/
def Reachable (O : Type) (same : F → ℤ → Bool) (target : Target) (enumeration : Enumeration)
    (front : List Arm) (arm : Arm) : Prop :=
  ∃ value : Value F O, value.IsOf target enumeration ∧ matchesArm same enumeration value arm = true ∧
    ∀ earlier ∈ front, earlier.guarded = false → matchesArm same enumeration value earlier = false

/-- No earlier arm without a guard has a literal that equals the payload. -/
def Unequal (same : F → ℤ → Bool) (enumeration : Enumeration) (front : List Arm) (variant : ℕ)
    (payload : Payload F O) : Prop :=
  ∀ earlier ∈ front, ∀ expression, earlier.Compares enumeration variant expression →
    payload.equals same expression = false

/-- Where a variant is not covered, only literals stand before a value. -/
theorem unmatched_iff (left : ¬Covered enumeration front value.tag) :
    (∀ earlier ∈ front, earlier.guarded = false → matchesArm same enumeration value earlier = false) ↔
      Unequal same enumeration front value.tag value.payload := by
  constructor
  · rintro unmatched earlier inside expression ⟨plain, names, compared⟩
    have apart := unmatched earlier inside plain
    rwa [matchesArm_names names, compared] at apart
  · intro unequal earlier inside plain
    by_contra matching
    have matching := Bool.of_not_eq_false matching
    have names : earlier.Names enumeration value.tag := by
      unfold matchesArm at matching
      cases wild : earlier.wildcard with
      | true => exact absurd (Or.inl ⟨earlier, inside, plain, wild⟩) left
      | false =>
        rw [wild, Bool.false_or, Bool.and_eq_true, decide_eq_true_eq] at matching
        exact ⟨wild, matching.1⟩
    rw [matchesArm_names names] at matching
    cases pattern : earlier.pattern with
    | literal expression =>
      have apart := unequal earlier inside expression ⟨plain, names, pattern⟩
      rw [pattern] at matching
      exact absurd (matching.symm.trans apart) Bool.noConfusion
    | absent | binding =>
      refine left (Or.inr (Or.inl ⟨earlier, inside, plain, names, fun expression compared => ?_⟩))
      rw [pattern] at compared
      cases compared

/-- The length of a literal text. -/
def Arm.textLength (arm : Arm) : ℕ :=
  match arm.pattern with
  | .literal (.string text) => text.length
  | _ => 0

theorem exists_text (enumeration : Enumeration) (front : List Arm) (variant : ℕ) :
    ∃ text, ∀ earlier ∈ front, ¬earlier.Compares enumeration variant (.string text) := by
  -- Longer than all of them.
  refine ⟨List.replicate ((front.map Arm.textLength).sum + 1) 0, fun earlier inside compares => ?_⟩
  have most : earlier.textLength ≤ (front.map Arm.textLength).sum :=
    List.le_sum_of_mem (List.mem_map_of_mem inside)
  have own : earlier.textLength = (front.map Arm.textLength).sum + 1 := by
    rw [Arm.textLength, compares.2.2]
    exact List.length_replicate
  omega

theorem fits_inRange {kind : IntegerKind} {magnitude : UInt64} {negative : Bool}
    (fits : integerLiteralFits kind magnitude negative = true)
    (portable : target.wide = false →
      integerLiteralFits (kind.withPointerWidth false) magnitude negative = true) :
    inRange target kind (literalValue magnitude negative) := by
  have range : ∀ kind : IntegerKind, integerLiteralFits kind magnitude negative = true →
      (if kind.isUnsigned then 0 else -(kind.maximum : ℤ) - 1) ≤ literalValue magnitude negative ∧
        literalValue magnitude negative ≤ kind.maximum := by
    intro kind fits
    unfold integerLiteralFits at fits
    unfold literalValue
    cases unsigned : kind.isUnsigned <;> cases negative <;> simp [unsigned] at fits ⊢ <;> omega
  unfold inRange
  cases wide : target.wide with
  | false => exact range _ (portable wide)
  | true =>
    have found := range kind fits
    cases kind <;> exact found

theorem typed_literal {e : PatternExpression}
    (typed : analyzePattern target type e = (type, []))
    (keyed : literalKey e ≠ none) :
    (∃ kind magnitude negative, type = .integer kind ∧ e = .integer magnitude negative ∧
        inRange target kind (literalValue magnitude negative)) ∨
      (∃ single, type = .floating single) ∨
      (∃ value, type = .boolean ∧ e = .boolean value) ∨
      ∃ text, type = .text ∧ e = .string text := by
  cases e with
  | integer magnitude negative =>
    cases type with
    | integer kind =>
      left
      refine ⟨kind, magnitude, negative, rfl, rfl, ?_⟩
      have nothing := congrArg Prod.snd typed
      unfold analyzePattern at nothing
      dsimp only at nothing
      split at nothing
      · cases nothing
      · rename_i fits
        refine fits_inRange (Bool.of_not_eq_false fits) fun narrow => ?_
        cases target with
        | hosted => cases narrow
        | freestanding =>
          dsimp only at nothing
          split at nothing
          · cases nothing
          · rename_i portable
            exact Bool.of_not_eq_false portable
    | floating single => exact Or.inr (Or.inl ⟨single, rfl⟩)
    | _ => cases congrArg Prod.fst typed
  | boolean value =>
    obtain rfl : PayloadType.boolean = type := congrArg Prod.fst typed
    exact Or.inr (Or.inr (Or.inl ⟨value, rfl, rfl⟩))
  | string text =>
    obtain rfl : PayloadType.text = type := congrArg Prod.fst typed
    exact Or.inr (Or.inr (Or.inr ⟨text, rfl, rfl⟩))
  | other => exact absurd rfl keyed

/-- Two literals of one value: a zero may have either sign. -/
def PatternExpression.Same : PatternExpression → PatternExpression → Prop
  | .integer magnitude negative, .integer magnitude' negative' =>
    literalValue magnitude negative = literalValue magnitude' negative'
  | left, right => left = right

/-- **When the analysis makes sure that an arm is reachable.** A wildcard need not have anything left; a
binding is reachable unless every payload equals an earlier literal, and a literal if no earlier one has
its value, which is so for a literal without a guard that is not zero. -/
structure ArmReach (O : Type) (same : F → ℤ → Bool) (target : Target) (enumeration : Enumeration)
    (front : List Arm) (arm : Arm) : Prop where
  behind : ¬HasWildcard front
  wildcard : arm.wildcard = true → ∀ value : Value F O, value.IsOf target enumeration →
    (∀ earlier ∈ front, earlier.guarded = false → ¬earlier.Names enumeration value.tag) →
    Reachable O same target enumeration front arm
  unit : ∀ variant, arm.Names enumeration variant → enumeration.payloadType variant = none →
    Reachable O same target enumeration front arm
  binding : ∀ variant type name, arm.Names enumeration variant →
    enumeration.payloadType variant = some type → arm.pattern = .binding name →
    (Reachable O same target enumeration front arm ↔
      ∃ payload : Payload F O, payload.hasType target type ∧
        Unequal same enumeration front variant payload)
  bindingLeft : ∀ variant type name, arm.Names enumeration variant →
    enumeration.payloadType variant = some type → arm.pattern = .binding name →
    (type = .boolean ∨ type = .text ∨ (∃ index, type = .other index) ∧ Nonempty O) →
    Reachable O same target enumeration front arm
  literal : ∀ variant type expression, arm.Names enumeration variant →
    enumeration.payloadType variant = some type → arm.pattern = .literal expression →
    arm.guarded = false → (∀ single, type ≠ .floating single) →
    (∀ negative, expression ≠ .integer 0 negative) → Reachable O same target enumeration front arm
  literalLeft : ∀ variant type expression, arm.Names enumeration variant →
    enumeration.payloadType variant = some type → arm.pattern = .literal expression →
    (∀ single, type ≠ .floating single) →
    (∀ earlier ∈ front, ∀ other, earlier.Compares enumeration variant other → ¬other.Same expression) →
    Reachable O same target enumeration front arm

theorem reachable_of (payload : Payload F O) (small : variant < enumeration.variants.length)
    (typed : match enumeration.payloadType variant with
      | none => payload = .unit
      | some type => payload.hasType target type) (left : ¬Covered enumeration front variant)
    (matching : matchesArm same enumeration ⟨variant, payload⟩ arm = true)
    (unequal : Unequal same enumeration front variant payload) :
    Reachable O same target enumeration front arm :=
  ⟨⟨variant, payload⟩, ⟨small, typed⟩, matching, (unmatched_iff left).mpr unequal⟩

theorem reach_wildcard (free : ¬HasWildcard front) (wild : arm.wildcard = true)
    (isOf : value.IsOf target enumeration)
    (apart : ∀ earlier ∈ front, earlier.guarded = false → ¬earlier.Names enumeration value.tag) :
    Reachable O same target enumeration front arm := by
  refine ⟨value, isOf, ?_, fun earlier inside plain => ?_⟩
  · unfold matchesArm
    rw [wild, Bool.true_or]
  · have tame : earlier.wildcard = false := by
      by_contra y
      exact free ⟨earlier, inside, plain, Bool.of_not_eq_false y⟩
    unfold matchesArm
    rw [tame, Bool.false_or, decide_eq_false fun found => apart earlier inside plain ⟨tame, found⟩,
      Bool.false_and]

theorem reach_unit (names : arm.Names enumeration variant)
    (left : ¬Covered enumeration front variant) (payload : enumeration.payloadType variant = none)
    (plain : arm.pattern = .absent) : Reachable O same target enumeration front arm := by
  refine reachable_of .unit (findVariant_lt names.2) ?_ left ?_ ?_
  · rw [payload]
  · rw [matchesArm_names names, plain]
  · exact fun _ _ expression _ => rfl

theorem reach_binding {name : Str} (names : arm.Names enumeration variant)
    (left : ¬Covered enumeration front variant)
    (payload : enumeration.payloadType variant = some type) (bound : arm.pattern = .binding name) :
    Reachable O same target enumeration front arm ↔
      ∃ payload : Payload F O, payload.hasType target type ∧
        Unequal same enumeration front variant payload := by
  constructor
  · rintro ⟨⟨tag, content⟩, isOf, matching, unmatched⟩
    have named : tag = variant := by
      unfold matchesArm at matching
      rw [names.1, Bool.false_or, Bool.and_eq_true, decide_eq_true_eq] at matching
      exact Option.some.inj (matching.1.symm.trans names.2)
    subst named
    have typed := isOf.2
    rw [payload] at typed
    exact ⟨content, typed, (unmatched_iff left).mp unmatched⟩
  · rintro ⟨content, _, unequal⟩
    refine reachable_of content (findVariant_lt names.2) ?_ left ?_ unequal
    · rwa [payload]
    · rw [matchesArm_names names, bound]

/-- A payload type that a row of literals does not use up. -/
theorem exists_unequal (left : ¬Covered enumeration front variant)
    (payload : enumeration.payloadType variant = some type)
    (more : type = .boolean ∨ type = .text ∨ (∃ index, type = .other index) ∧ Nonempty O) :
    ∃ payload : Payload F O, payload.hasType target type ∧
      Unequal same enumeration front variant payload := by
  rcases more with rfl | rfl | ⟨⟨index, rfl⟩, ⟨content⟩⟩
  · -- One of the two is not among the literals, or they would cover the variant.
    obtain ⟨value, missing⟩ : ∃ value, ¬∃ arm ∈ front, arm.Compares enumeration variant (.boolean value) := by
      by_contra none'
      exact left (Or.inr (Or.inr ⟨payload, fun value => not_not.mp fun missing => none' ⟨value, missing⟩⟩))
    refine ⟨.boolean value, trivial, fun earlier inside expression compares => ?_⟩
    cases expression with
    | boolean =>
      refine decide_eq_false ?_
      rintro rfl
      exact missing ⟨earlier, inside, compares⟩
    | _ => rfl
  · obtain ⟨text, missing⟩ := exists_text enumeration front variant
    refine ⟨.text text, trivial, fun earlier inside expression compares => ?_⟩
    cases expression with
    | string =>
      refine decide_eq_false ?_
      rintro rfl
      exact missing earlier inside compares
    | _ => rfl
  · exact ⟨.other content, trivial, fun _ _ expression _ => rfl⟩

theorem literalValue_injective {magnitude y : UInt64} {negative negative' : Bool}
    (value : literalValue magnitude negative = literalValue y negative') (nonzero : magnitude ≠ 0) :
    y = magnitude ∧ negative' = negative := by
  have pos : magnitude.toNat ≠ 0 := fun zero => nonzero (UInt64.toNat_inj.mp zero)
  unfold literalValue at value
  have sameNumber : magnitude.toNat = y.toNat := by
    cases negative <;> cases negative' <;> simp at value <;> omega
  refine ⟨UInt64.toNat_inj.mp sameNumber.symm, ?_⟩
  cases negative <;> cases negative' <;> simp at value ⊢ <;> omega

theorem PatternExpression.Same.eq {y expression : PatternExpression} (same : y.Same expression)
    (nonzero : ∀ negative, expression ≠ .integer 0 negative) : y = expression := by
  unfold PatternExpression.Same at same
  split at same
  · obtain ⟨rfl, rfl⟩ := literalValue_injective same.symm fun zero => nonzero _ (by rw [zero])
    rfl
  · exact same

theorem reach_literal {e : PatternExpression} (names : arm.Names enumeration variant)
    (left : ¬Covered enumeration front variant)
    (payload : enumeration.payloadType variant = some type)
    (compared : arm.pattern = .literal e) (keyed : literalKey e ≠ none)
    (typed : analyzePattern target type e = (type, []))
    (exact' : ∀ single, type ≠ .floating single)
    (apart : ∀ earlier ∈ front, ∀ y, earlier.Compares enumeration variant y →
      ¬y.Same e) :
    Reachable O same target enumeration front arm := by
  have small := findVariant_lt names.2
  rcases typed_literal typed keyed with ⟨kind, magnitude, negative, rfl, rfl, range⟩ | ⟨single, rfl⟩ |
    ⟨value, rfl, rfl⟩ | ⟨text, rfl, rfl⟩
  · refine reachable_of (.integer (literalValue magnitude negative)) small ?_ left ?_ ?_
    · rw [payload]
      exact range
    · rw [matchesArm_names names, compared]
      exact decide_eq_true rfl
    · intro earlier inside e compares
      cases e with
      | integer => exact decide_eq_false fun value => apart earlier inside _ compares value.symm
      | _ => rfl
  · exact absurd rfl (exact' single)
  · refine reachable_of (.boolean value) small ?_ left ?_ ?_
    · rw [payload]
      trivial
    · rw [matchesArm_names names, compared]
      exact decide_eq_true rfl
    · intro earlier inside e compares
      cases e with
      | boolean =>
        refine decide_eq_false ?_
        rintro rfl
        exact apart earlier inside _ compares rfl
      | _ => rfl
  · refine reachable_of (.text text) small ?_ left ?_ ?_
    · rw [payload]
      trivial
    · rw [matchesArm_names names, compared]
      exact decide_eq_true rfl
    · intro earlier inside e compares
      cases e with
      | string =>
        refine decide_eq_false ?_
        rintro rfl
        exact apart earlier inside _ compares rfl
      | _ => rfl

theorem Allowed.reach (allowed : Allowed target enumeration front arm) :
    ArmReach O same target enumeration front arm := by
  cases allowed with
  | wildcard free wild =>
    have tame : ∀ variant, ¬arm.Names enumeration variant := fun variant names =>
      Bool.noConfusion (wild.symm.trans names.1)
    exact ⟨free, fun wild value => reach_wildcard free wild, fun variant names => absurd names (tame variant),
      fun variant _ _ names => absurd names (tame variant),
      fun variant _ _ names => absurd names (tame variant),
      fun variant _ _ names => absurd names (tame variant),
      fun variant _ _ names => absurd names (tame variant)⟩
  | unit variant free names left payload plain =>
    refine ⟨free, fun wild _ _ _ => Bool.noConfusion (wild.symm.trans names.1),
      fun _ _ _ => reach_unit names left payload plain, fun y type _ names' payload' => ?_,
      fun y type _ names' payload' => ?_, fun y type _ names' payload' => ?_,
      fun y type _ names' payload' => ?_⟩ <;>
    · obtain rfl := names'.unique names
      cases payload.symm.trans payload'
  | binding variant type name free names left payload bound =>
    refine ⟨free, fun wild _ _ _ => Bool.noConfusion (wild.symm.trans names.1),
      fun y names' payload' => ?_, fun y type' _ names' payload' _ => ?_,
      fun y type' _ names' payload' _ more => ?_, fun y _ _ _ _ compared => ?_,
      fun y _ _ _ _ compared => ?_⟩
    · obtain rfl := names'.unique names
      cases payload.symm.trans payload'
    · obtain rfl := names'.unique names
      exact reach_binding names left payload' bound
    · obtain rfl := names'.unique names
      exact (reach_binding names left payload' bound).mpr (exists_unequal left payload' more)
    · cases bound.symm.trans compared
    · cases bound.symm.trans compared
  | literal variant type expression free names left payload compared keyed typed fresh =>
    refine ⟨free, fun wild _ _ _ => Bool.noConfusion (wild.symm.trans names.1),
      fun y names' payload' => ?_, fun _ _ _ _ _ bound => ?_, fun _ _ _ _ _ bound => ?_,
      fun y type' expression' names' payload' compared' plain exact' nonzero => ?_,
      fun y type' expression' names' payload' compared' exact' apart => ?_⟩
    · obtain rfl := names'.unique names
      cases payload.symm.trans payload'
    · cases compared.symm.trans bound
    · cases compared.symm.trans bound
    · obtain rfl := names'.unique names
      obtain rfl := Option.some.inj (payload.symm.trans payload')
      obtain rfl := ArmPattern.literal.inj (compared.symm.trans compared')
      exact reach_literal names left payload compared keyed typed exact' fun earlier inside y compares
        same => fresh plain earlier inside (same.eq nonzero ▸ compares)
    · obtain rfl := names'.unique names
      obtain rfl := Option.some.inj (payload.symm.trans payload')
      obtain rfl := ArmPattern.literal.inj (compared.symm.trans compared')
      exact reach_literal names left payload compared keyed typed exact' apart

/-- **The arms of an accepted match.** Whatever the guards are, an arm runs for every value of the enum; no
arm is behind a wildcard without a guard, and arms are reachable as `ArmReach` says. -/
theorem match_selects (F O : Type) (same : F → ℤ → Bool) {target : Target} {enumeration : Enumeration}
    {arms : List Arm}
    (accepted : analyzeMatch target enumeration arms = [] ∨
      analyzeSemanticMatch target enumeration arms = []) :
    (∀ value : Value F O, value.IsOf target enumeration → ∀ guards : ℕ → Bool,
      ∃ chosen, select same enumeration value guards 0 arms = some chosen) ∧
    ∀ front arm back, arms = front ++ arm :: back → ArmReach O same target enumeration front arm := by
  obtain ⟨allowed, covered⟩ := accepted_allowed accepted
  refine ⟨fun value isOf guards => ?_, fun front arm back split => (allowed front arm back split).reach⟩
  exact select_isSome guards 0 (covered_matches same isOf (covered value.tag isOf.1))

end Values

/-! ### Two enums -/

/-- The enum with the unit variant `Clear`. -/
def clearOnly : Enumeration where
  variants := [⟨ascii "Clear", true, none⟩]
  isResult := false
  local' := true
  small := by decide

/-- The arms `Clear` and `_`. -/
def clearArms : List Arm :=
  [⟨false, ascii "Clear", .absent, false⟩, ⟨true, ascii "_", .absent, false⟩]

/-- An enum with a number, a truth value and a unit variant. -/
def mixedEnum : Enumeration where
  variants := [⟨ascii "Num", true, some (.integer .i32)⟩, ⟨ascii "Flag", true, some .boolean⟩,
    ⟨ascii "Clear", true, none⟩]
  isResult := false
  local' := true
  small := by decide

/-- The literal `7` with a guard and without one. -/
def sevenArms : List Arm :=
  [⟨false, ascii "Num", .literal (.integer 7 false), true⟩,
    ⟨false, ascii "Num", .literal (.integer 7 false), false⟩]

/-- Arms of all kinds. -/
def mixedArms : List Arm :=
  sevenArms ++ ⟨false, ascii "Num", .binding (ascii "n"), false⟩ ::
    [⟨false, ascii "Flag", .literal (.boolean true), false⟩,
      ⟨false, ascii "Flag", .literal (.boolean false), false⟩, ⟨false, ascii "Clear", .absent, false⟩]

/-- The second arm runs for `7` when the guard of the first is false, and the binding behind both is
reachable as some payload is not `7`. -/
theorem match_selects_sample :
    select (fun _ _ => false) mixedEnum (⟨0, .integer 7⟩ : Value Unit Unit) (fun _ => false) 0 mixedArms
        = some 1 ∧
      Reachable Unit (fun (_ : Unit) _ => false) .hosted mixedEnum sevenArms
        ⟨false, ascii "Num", .binding (ascii "n"), false⟩ := by
  have runs := @match_selects Unit Unit (fun _ _ => false) .hosted mixedEnum mixedArms
    (Or.inl (by decide +kernel))
  have names : Arm.Names ⟨false, ascii "Num", .binding (ascii "n"), false⟩ mixedEnum 0 :=
    ⟨rfl, by decide +kernel⟩
  have binding := (runs.2 sevenArms _ _ rfl).binding 0 (.integer .i32) _ names (by decide +kernel) rfl
  refine ⟨by decide +kernel, binding.mpr ⟨.integer 8, by constructor <;> decide, ?_⟩⟩
  rintro earlier inside expression ⟨_, _, compared⟩
  simp only [sevenArms, List.mem_cons, List.not_mem_nil, or_false] at inside
  rcases inside with rfl | rfl <;> cases compared <;> rfl

/-- **A wildcard behind the last variant is accepted and never runs.** -/
theorem match_wildcard_idle :
    analyzeMatch .hosted clearOnly clearArms = [] ∧ analyzeSemanticMatch .hosted clearOnly clearArms = [] ∧
      ¬Reachable Unit (fun (_ : Unit) _ => false) .hosted clearOnly
        [⟨false, ascii "Clear", .absent, false⟩] ⟨true, ascii "_", .absent, false⟩ := by
  refine ⟨by decide +kernel, by decide +kernel, ?_⟩
  rintro ⟨⟨tag, _⟩, isOf, _, unmatched⟩
  have first : tag = 0 := Nat.lt_one_iff.mp isOf.1
  subst first
  have matched := unmatched _ List.mem_cons_self rfl
  have named : clearOnly.findVariant (ascii "Clear") = some 0 := by decide +kernel
  rw [matchesArm_names ⟨rfl, named⟩] at matched
  cases matched

end FoundationLang.Match
