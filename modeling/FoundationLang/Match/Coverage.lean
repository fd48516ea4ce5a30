/-
**What the analysis of a match guarantees.**
-/

import FoundationLang.Match.Analyzer

namespace FoundationLang.Match

open Standard List

variable {variant : ℕ} {expression : PatternExpression} {first second : ℕ} {key : Str}

/-! ### What arms cover -/

/-- The arm is for the variant. -/
def Arm.Names (arm : Arm) (enumeration : Enumeration) (variant : ℕ) : Prop :=
  arm.wildcard = false ∧ enumeration.findVariant arm.variant = some variant

/-- The arm has no guard and matches every value of a variant that it names. -/
def Arm.Whole (arm : Arm) (enumeration : Enumeration) (variant : ℕ) : Prop :=
  arm.guarded = false ∧ arm.Names enumeration variant ∧
    ∀ expression, arm.pattern ≠ .literal expression

/-- The arm is an unguarded literal of the variant. -/
def Arm.Compares (arm : Arm) (enumeration : Enumeration) (variant : ℕ) (expression : PatternExpression) :
    Prop :=
  arm.guarded = false ∧ arm.Names enumeration variant ∧ arm.pattern = .literal expression

/-- Some arm is a wildcard without a guard. -/
def HasWildcard (arms : List Arm) : Prop :=
  ∃ arm ∈ arms, arm.guarded = false ∧ arm.wildcard = true

/-- **The variants that arms cover.** -/
def Covered (enumeration : Enumeration) (arms : List Arm) (variant : ℕ) : Prop :=
  HasWildcard arms ∨ (∃ arm ∈ arms, arm.Whole enumeration variant) ∨
    enumeration.payloadType variant = some .boolean ∧
      ∀ value, ∃ arm ∈ arms, arm.Compares enumeration variant (.boolean value)

/-- **An arm that may come behind others.** -/
inductive Allowed (target : Target) (enumeration : Enumeration) (before : List Arm) (arm : Arm) : Prop
  | wildcard (free : ¬HasWildcard before) (wild : arm.wildcard = true) (plain : arm.pattern = .absent)
  | unit (variant : ℕ) (free : ¬HasWildcard before) (names : arm.Names enumeration variant)
      (left : ¬Covered enumeration before variant) (payload : enumeration.payloadType variant = none)
      (plain : arm.pattern = .absent)
  | binding (variant : ℕ) (type : PayloadType) (name : Str) (free : ¬HasWildcard before)
      (names : arm.Names enumeration variant) (left : ¬Covered enumeration before variant)
      (payload : enumeration.payloadType variant = some type) (bound : arm.pattern = .binding name)
  | literal (variant : ℕ) (type : PayloadType) (expression : PatternExpression)
      (free : ¬HasWildcard before) (names : arm.Names enumeration variant)
      (left : ¬Covered enumeration before variant)
      (payload : enumeration.payloadType variant = some type)
      (compared : arm.pattern = .literal expression) (keyed : literalKey expression ≠ none)
      (typed : analyzePattern target type expression = (type, []))
      (fresh : arm.guarded = false → ∀ earlier ∈ before, ¬earlier.Compares enumeration variant expression)

/-! ### Keys -/

theorem formatU64_injective (small : first < 2 ^ 64) (small' : second < 2 ^ 64)
    (same : formatU64 first = formatU64 second) : first = second := by
  have read := parseU64_formatU64 small
  rw [same, parseU64_formatU64 small'] at read
  exact (Except.ok.inj read).symm

theorem literalKey_head (keyed : literalKey expression = some key) :
    key.head? = match expression with
      | .integer _ _ => some 105
      | .boolean _ => some 98
      | .string _ => some 115
      | .other _ => none := by
  cases expression with
  | integer | string => cases keyed; rfl
  | boolean v => cases keyed; cases v <;> rfl
  | other => cases keyed

theorem literalKey_injective {first second : PatternExpression}
    (left : literalKey first = some key) (right : literalKey second = some key) : first = second := by
  have head := (literalKey_head left).symm.trans (literalKey_head right)
  have same := left.trans right.symm
  cases first <;> cases second <;> try cases head
  case integer.integer magnitude negative magnitude' negative' =>
    unfold literalKey at same
    rw [Option.some_inj, append_assoc, append_assoc] at same
    have rest := append_cancel_left same
    have sign : negative = negative' := by
      have first := congrArg List.head? rest
      cases negative <;> cases negative' <;> first | rfl | cases first
    rw [sign] at rest
    have ds := formatU64_injective magnitude.toNat_lt magnitude'.toNat_lt
      (append_cancel_left rest)
    rw [sign, UInt64.toNat_inj.mp ds]
  case boolean.boolean v v' =>
    cases v <;> cases v' <;> first | rfl | cases same
  case string.string v v' =>
    unfold literalKey at same
    rw [Option.some_inj] at same
    rw [append_cancel_left same]
  case other.other => cases left

theorem variantKey_injective {key other : Str} (small : first < 2 ^ 64)
    (small' : second < 2 ^ 64) (same : variantKey first key = variantKey second other) :
    first = second ∧ key = other := by
  -- The colon is the first byte that is no digit.
  have ds : ∀ value < 2 ^ 64, ∀ rest : Str,
      (formatU64 value ++ (58 :: rest)).takeWhile (fun b => b ≠ 58) = formatU64 value := by
    intro value _ rest
    rw [takeWhile_append_of_pos, takeWhile_cons_of_neg (by decide), append_nil]
    intro b mem
    have bounds := formatU64_digits mem
    rw [decide_eq_true_eq]
    rintro rfl
    exact absurd bounds.2 (by decide)
  have written : ∀ (variant : ℕ) (key : Str), variantKey variant key = formatU64 variant ++ (58 :: key) :=
    fun variant key => append_assoc ..
  rw [written, written] at same
  have front := congrArg (List.takeWhile fun b => b ≠ 58) same
  rw [ds first small, ds second small'] at front
  rw [front] at same
  exact ⟨formatU64_injective small small' front, tail_eq_of_cons_eq (append_cancel_left same)⟩

/-! ### The sets of literals -/

/-- **What a set of literals does**, in the states that satisfy a condition. -/
structure LiteralSet.Lawful {S : Type} (set : LiteralSet S) (count : ℕ) (valid : S → Prop) : Prop where
  empty : valid (set.empty count)
  empty_contains : ∀ variant < count, ∀ key, set.contains (set.empty count) variant key = false
  insert : ∀ state variant key, valid state → valid (set.insert state variant key)
  insert_contains : ∀ state variant key, valid state → variant < count → ∀ other < count, ∀ key',
    set.contains (set.insert state variant key) other key' = true ↔
      other = variant ∧ key' = key ∨ set.contains state other key' = true

theorem variantSets_lawful (n : ℕ) : variantSets.Lawful n fun sets => sets.length = n where
  empty := length_replicate
  empty_contains variant small key := by
    show (List.getD (List.replicate n []) variant []).contains key = false
    rw [getD_eq_getElem?_getD, List.getElem?_replicate, if_pos small]
    rfl
  insert sets variant key length := (length_modify ..).trans length
  insert_contains sets variant key length small y small' key' := by
    show ((sets.modify variant (key :: ·)).getD y []).contains key' = true ↔
      y = variant ∧ key' = key ∨ (sets.getD y []).contains key' = true
    rw [getD_eq_getElem?_getD, List.getElem?_modify, getD_eq_getElem?_getD,
      List.getElem?_eq_getElem (by rw [length]; exact small')]
    by_cases same : variant = y
    · simp only [if_pos same, Option.map_eq_map, Option.map_some, Option.getD_some,
        contains_cons, Bool.or_eq_true, beq_iff_eq]
      rw [and_iff_right same.symm]
    · simp only [if_neg same, Option.map_eq_map, Option.map_some, Option.getD_some]
      rw [or_iff_right fun both => same both.1.symm]

theorem keySet_lawful {n : ℕ} (bounded : n < 2 ^ 64) : keySet.Lawful n fun _ => True where
  empty := trivial
  empty_contains _ _ _ := rfl
  insert _ _ _ _ := trivial
  insert_contains keys variant key _ small y small' key' := by
    show (variantKey variant key :: keys).contains (variantKey y key') = true ↔
      y = variant ∧ key' = key ∨ keys.contains (variantKey y key') = true
    rw [contains_cons, Bool.or_eq_true, beq_iff_eq]
    refine or_congr_left ⟨fun same => ?_, fun ⟨sameVariant, sameKey⟩ => by rw [sameVariant, sameKey]⟩
    exact variantKey_injective (Nat.lt_trans small' bounded) (Nat.lt_trans small bounded) same

/-! ### One arm -/

section Step

variable {S : Type} {set : LiteralSet S} {target : Target} {enum : Enumeration} {state : State S}
  {arm : Arm}

theorem report_clean {failed : Bool} {code : String} {message : Str} :
    (state.report failed code message).diagnostics = [] ↔ state.diagnostics = [] ∧ failed = false := by
  unfold State.report
  cases failed
  · exact (and_iff_left rfl).symm
  · refine ⟨fun nothing => ?_, fun both => Bool.noConfusion both.2⟩
    exact absurd nothing (append_ne_nil_of_right_ne_nil _ (cons_ne_nil _ _))

theorem report_false (code : String) (message : Str) : state.report false code message = state :=
  rfl

theorem cover_diagnostics (variant : ℕ) : (state.cover arm variant).diagnostics = state.diagnostics := by
  unfold State.cover
  split <;> rfl

theorem analyzeWildcard_clean (clean : (analyzeWildcard state arm).diagnostics = []) :
    state.diagnostics = [] ∧ arm.pattern = .absent ∧
      analyzeWildcard state arm = if arm.guarded then state
        else { state with wildcardCovered := true, covered := state.covered.map fun _ => true } := by
  unfold analyzeWildcard at *
  dsimp only at *
  have before : (state.report (decide (arm.pattern ≠ .absent)) "FDN2041"
      (ascii "wildcard does not accept a payload")).diagnostics = [] := by
    split at clean <;> exact clean
  obtain ⟨first, plain⟩ := report_clean.mp before
  refine ⟨first, not_not.mp (of_decide_eq_false plain), ?_⟩
  rw [plain, report_false]

theorem analyzeLiteral_clean {type : PayloadType}
    (clean : (analyzeLiteral set target state arm variant type expression).diagnostics = []) :
    state.diagnostics = [] ∧ state.covered.getD variant false = false ∧
      analyzePattern target type expression = (type, []) ∧
      ∃ key, literalKey expression = some key ∧
        (arm.guarded = false → set.contains state.literals variant key = false) ∧
        (arm.guarded = true → analyzeLiteral set target state arm variant type expression = state) ∧
        (arm.guarded = false → analyzeLiteral set target state arm variant type expression =
          { state with
            literals := set.insert state.literals variant key
            covered := if decide (type = .boolean) &&
                set.contains (set.insert state.literals variant key) variant (ascii "bool:true") &&
                set.contains (set.insert state.literals variant key) variant (ascii "bool:false") then
              state.covered.set variant true else state.covered }) := by
  have reported : state.diagnostics ++
      literalDiagnostics set target state arm variant type expression = [] := by
    unfold analyzeLiteral at clean
    dsimp only at clean
    split at clean <;> exact clean
  obtain ⟨first, nothing⟩ := append_eq_nil_iff.mp reported
  have parts := nothing
  unfold literalDiagnostics at parts
  dsimp only at parts
  rw [append_eq_nil_iff, append_eq_nil_iff, append_eq_nil_iff] at parts
  obtain ⟨⟨⟨keyed, fits⟩, typed⟩, fresh⟩ := parts
  have keyed' : (literalKey expression).isNone = false := by
    by_contra missing
    rw [if_pos (Bool.of_not_eq_false missing)] at keyed
    cases keyed
  have typed' : type = (analyzePattern target type expression).1 := by
    by_contra differs
    rw [if_pos differs] at typed
    cases typed
  have fresh' : (state.covered.getD variant false ||
      (!arm.guarded && duplicateLiteral set state variant expression)) = false := by
    by_contra duplicate
    rw [if_pos (Bool.of_not_eq_false duplicate)] at fresh
    cases fresh
  rw [Bool.or_eq_false_iff] at fresh'
  obtain ⟨key, known⟩ := Option.isSome_iff_exists.mp (Option.isNone_eq_false_iff.mp keyed')
  have contained : duplicateLiteral set state variant expression =
      set.contains state.literals variant key := by
    unfold duplicateLiteral
    rw [known, Option.any_some]
  have single : arm.guarded = false → set.contains state.literals variant key = false := by
    intro plain
    have second := fresh'.2
    rwa [plain, contained, Bool.not_false, Bool.true_and] at second
  refine ⟨first, fresh'.1, Prod.ext typed'.symm fits, key, known, single, fun guarded => ?_,
    fun plain => ?_⟩
  · unfold analyzeLiteral
    rw [if_pos guarded, reported, ← first]
  · have kept : keepLiteral set state variant expression = set.insert state.literals variant key := by
      unfold keepLiteral
      rw [known]
      dsimp only
      rw [contained, single plain, fresh'.1, Bool.and_false, Bool.or_false, if_neg Bool.false_ne_true]
    unfold analyzeLiteral
    rw [if_neg (by rw [plain]; exact Bool.false_ne_true), reported, kept, ← first]

theorem analyzeVariant_clean
    (clean : (analyzeVariant set target enum state arm variant).diagnostics = []) :
    state.diagnostics = [] ∧ state.covered.getD variant false = false ∧
      (enum.payloadType variant = none ∧ arm.pattern = .absent ∧
          analyzeVariant set target enum state arm variant = state.cover arm variant ∨
        (∃ type name, enum.payloadType variant = some type ∧ arm.pattern = .binding name ∧
          analyzeVariant set target enum state arm variant = state.cover arm variant) ∨
        ∃ type expression, enum.payloadType variant = some type ∧
          arm.pattern = .literal expression ∧
          analyzeVariant set target enum state arm variant =
            analyzeLiteral set target state arm variant type expression) := by
  unfold analyzeVariant at *
  cases payload : enum.payloadType variant with
  | none =>
    rw [payload] at clean
    dsimp only at *
    rw [cover_diagnostics, report_clean, report_clean] at clean
    obtain ⟨⟨first, plain⟩, left⟩ := clean
    rw [plain, report_false] at left ⊢
    rw [left, report_false]
    exact ⟨first, rfl, Or.inl ⟨rfl, not_not.mp (of_decide_eq_false plain), rfl⟩⟩
  | some type =>
    rw [payload] at clean
    dsimp only at *
    cases pattern : arm.pattern with
    | absent =>
      rw [pattern] at clean
      exact absurd (report_clean.mp clean).2 Bool.noConfusion
    | binding name =>
      rw [pattern] at clean
      dsimp only at *
      rw [cover_diagnostics, report_clean] at clean
      obtain ⟨first, left⟩ := clean
      rw [left, report_false]
      exact ⟨first, rfl, Or.inr (Or.inl ⟨type, name, rfl, rfl, rfl⟩)⟩
    | literal expression =>
      rw [pattern] at clean
      dsimp only at *
      obtain ⟨first, left, _⟩ := analyzeLiteral_clean clean
      exact ⟨first, left, Or.inr (Or.inr ⟨type, expression, rfl, rfl, rfl⟩)⟩

/-- **What one arm needs**, and which part of the analysis it goes through. -/
theorem analyzeArm_clean (clean : (analyzeArm set target enum state arm).diagnostics = []) :
    state.diagnostics = [] ∧ state.wildcardCovered = false ∧
      (arm.wildcard = true ∧ arm.pattern = .absent ∧
          (analyzeArm set target enum state arm = if arm.guarded then state
            else { state with wildcardCovered := true, covered := state.covered.map fun _ => true }) ∨
        ∃ variant, arm.Names enum variant ∧
          (analyzeVariant set target enum state arm variant).diagnostics = [] ∧
          analyzeArm set target enum state arm =
            analyzeVariant set target enum state arm variant) := by
  unfold analyzeArm at *
  dsimp only at *
  cases wild : arm.wildcard with
  | true =>
    rw [wild, if_pos rfl] at clean
    rw [if_pos rfl]
    obtain ⟨first, plain, result⟩ := analyzeWildcard_clean clean
    obtain ⟨first, free⟩ := report_clean.mp first
    rw [result, free, report_false]
    exact ⟨first, rfl, Or.inl ⟨rfl, plain, rfl⟩⟩
  | false =>
    rw [wild, if_neg Bool.false_ne_true] at clean
    rw [if_neg Bool.false_ne_true]
    cases named : enum.findVariant arm.variant with
    | none =>
      rw [named] at clean
      exact absurd (report_clean.mp clean).2 Bool.noConfusion
    | some variant =>
      rw [named] at clean
      dsimp only at *
      obtain ⟨first, _⟩ := analyzeVariant_clean clean
      obtain ⟨first, exported⟩ := report_clean.mp first
      obtain ⟨first, free⟩ := report_clean.mp first
      rw [exported, report_false, free, report_false] at clean ⊢
      exact ⟨first, rfl, Or.inr ⟨variant, ⟨wild, named⟩, clean, rfl⟩⟩

/-- What is reported stays. -/
theorem analyzeArms_clean {arms : List Arm}
    (clean : (arms.foldl (analyzeArm set target enum) state).diagnostics = []) :
    state.diagnostics = [] := by
  induction arms generalizing state with
  | nil => exact clean
  | cons arm arms ih => exact (analyzeArm_clean (ih clean)).1

end Step

/-! ### All arms -/

section Tracks

variable {enum : Enumeration} {arms : List Arm} {arm : Arm}

theorem exists_append {holds : Arm → Prop} :
    (∃ y ∈ arms ++ [arm], holds y) ↔ (∃ y ∈ arms, holds y) ∨ holds arm := by
  simp only [mem_append, mem_singleton]
  constructor
  · rintro ⟨y, old | rfl, found⟩
    · exact Or.inl ⟨y, old, found⟩
    · exact Or.inr found
  · rintro (⟨y, old, found⟩ | found)
    · exact ⟨y, Or.inl old, found⟩
    · exact ⟨arm, Or.inr rfl, found⟩

theorem findVariant_lt {name : Str} (found : enum.findVariant name = some variant) :
    variant < enum.variants.length :=
  (List.findIdx?_eq_some_iff_getElem.mp found).1

theorem hasWildcard_append :
    HasWildcard (arms ++ [arm]) ↔ HasWildcard arms ∨ arm.guarded = false ∧ arm.wildcard = true :=
  exists_append

theorem covered_append (other : ∀ v, ¬arm.Compares enum variant (.boolean v)) :
    Covered enum (arms ++ [arm]) variant ↔ Covered enum arms variant ∨
      arm.guarded = false ∧ arm.wildcard = true ∨ arm.Whole enum variant := by
  unfold Covered
  rw [hasWildcard_append, exists_append]
  simp only [exists_append, other, or_false]
  constructor
  · rintro ((wild | new) | (whole | new) | both)
    · exact Or.inl (Or.inl wild)
    · exact Or.inr (Or.inl new)
    · exact Or.inl (Or.inr (Or.inl whole))
    · exact Or.inr (Or.inr new)
    · exact Or.inl (Or.inr (Or.inr both))
  · rintro ((wild | whole | both) | new | new)
    · exact Or.inl (Or.inl wild)
    · exact Or.inr (Or.inl (Or.inl whole))
    · exact Or.inr (Or.inr both)
    · exact Or.inl (Or.inr new)
    · exact Or.inr (Or.inl (Or.inr new))

theorem Covered.mono {more : List Arm} (covered : Covered enum arms variant)
    (subset : arms ⊆ more) : Covered enum more variant := by
  rcases covered with ⟨wild, inside, found⟩ | ⟨whole, inside, found⟩ | ⟨payload, both⟩
  · exact Or.inl ⟨wild, subset inside, found⟩
  · exact Or.inr (Or.inl ⟨whole, subset inside, found⟩)
  · refine Or.inr (Or.inr ⟨payload, fun v => ?_⟩)
    obtain ⟨arm, inside, found⟩ := both v
    exact ⟨arm, subset inside, found⟩

theorem Arm.Names.unique (names : arm.Names enum first)
    (names' : arm.Names enum second) : first = second :=
  Option.some.inj (names.2.symm.trans names'.2)

variable {S : Type} {set : LiteralSet S} {target : Target} {valid : S → Prop} {state : State S}

/-- **What a compiler keeps is about the arms so far.** -/
structure Tracks (set : LiteralSet S) (valid : S → Prop) (enumeration : Enumeration) (state : State S)
    (arms : List Arm) : Prop where
  clean : state.diagnostics = []
  length : state.covered.length = enumeration.variants.length
  covered : ∀ variant < enumeration.variants.length,
    state.covered.getD variant false = true ↔ Covered enumeration arms variant
  valid : valid state.literals
  literals : ∀ variant < enumeration.variants.length, ∀ key,
    set.contains state.literals variant key = true ↔
      ∃ expression, literalKey expression = some key ∧
        ∃ arm ∈ arms, arm.Compares enumeration variant expression
  wildcard : state.wildcardCovered = true ↔ HasWildcard arms

theorem tracks_initial (lawful : set.Lawful enum.variants.length valid) :
    Tracks set valid enum (initialState set enum) [] where
  clean := rfl
  length := length_replicate
  covered variant small := by
    unfold initialState Covered HasWildcard
    rw [getD_eq_getElem?_getD, List.getElem?_replicate, if_pos small]
    simp
  valid := lawful.empty
  literals variant small key := by
    unfold initialState
    rw [lawful.empty_contains variant small key]
    simp
  wildcard := by
    unfold initialState HasWildcard
    simp

theorem Tracks.guarded (tracks : Tracks set valid enum state arms) (guarded : arm.guarded = true) :
    Tracks set valid enum state (arms ++ [arm]) where
  clean := tracks.clean
  length := tracks.length
  covered variant small := by
    rw [tracks.covered variant small, covered_append fun v compares => ?_]
    · unfold Arm.Whole
      simp [guarded]
    · have := compares.1
      rw [guarded] at this
      cases this
  valid := tracks.valid
  literals variant small key := by
    rw [tracks.literals variant small key]
    simp only [exists_append, Arm.Compares, guarded, Bool.true_eq_false, false_and, or_false]
  wildcard := by
    rw [tracks.wildcard, hasWildcard_append]
    simp [guarded]

theorem Tracks.addWildcard (tracks : Tracks set valid enum state arms)
    (plain : arm.guarded = false) (wild : arm.wildcard = true) :
    Tracks set valid enum
      { state with wildcardCovered := true, covered := state.covered.map fun _ => true }
      (arms ++ [arm]) where
  clean := tracks.clean
  length := (length_map _).trans tracks.length
  covered variant small := by
    rw [getD_eq_getElem?_getD, List.getElem?_map,
      List.getElem?_eq_getElem (by rw [tracks.length]; exact small)]
    exact iff_of_true rfl (Or.inl (hasWildcard_append.mpr (Or.inr ⟨plain, wild⟩)))
  valid := tracks.valid
  literals variant small key := by
    have names : ∀ expression, ¬arm.Compares enum variant expression := by
      intro expression compares
      rw [compares.2.1.1] at wild
      cases wild
    rw [tracks.literals variant small key]
    simp only [exists_append, names, or_false]
  wildcard := iff_of_true rfl (hasWildcard_append.mpr (Or.inr ⟨plain, wild⟩))

theorem getD_set (covered : List Bool) (small : variant < covered.length) (y : ℕ) :
    (covered.set variant true).getD y false = true ↔
      y = variant ∨ covered.getD y false = true := by
  rw [getD_eq_getElem?_getD, List.getElem?_set, getD_eq_getElem?_getD]
  by_cases same : variant = y
  · rw [if_pos same, if_pos small]
    exact iff_of_true rfl (Or.inl same.symm)
  · rw [if_neg same]
    exact (or_iff_right fun equal => same equal.symm).symm

theorem Tracks.cover (tracks : Tracks set valid enum state arms)
    (names : arm.Names enum variant)
    (whole : ∀ expression, arm.pattern ≠ .literal expression) :
    Tracks set valid enum (state.cover arm variant) (arms ++ [arm]) := by
  unfold State.cover
  cases guarded : arm.guarded with
  | true => exact tracks.guarded guarded
  | false =>
    rw [if_neg Bool.false_ne_true]
    have never : ∀ y expression, ¬arm.Compares enum y expression :=
      fun y expression compares => whole expression compares.2.2
    have small := findVariant_lt names.2
    refine ⟨tracks.clean, (length_set ..).trans tracks.length, fun y small' => ?_, tracks.valid,
      fun y small' key => ?_, ?_⟩
    · rw [covered_append fun v => never y _, getD_set _ (by rw [tracks.length]; exact small),
        tracks.covered y small', names.1]
      unfold Arm.Whole
      constructor
      · rintro (rfl | old)
        · exact Or.inr (Or.inr ⟨guarded, names, whole⟩)
        · exact Or.inl old
      · rintro (old | ⟨_, wild⟩ | ⟨_, names', _⟩)
        · exact Or.inr old
        · cases wild
        · exact Or.inl (names'.unique names)
    · dsimp only
      rw [tracks.literals y small' key]
      simp only [exists_append, never, or_false]
    · rw [hasWildcard_append, names.1]
      exact tracks.wildcard.trans (or_iff_left fun both => Bool.noConfusion both.2).symm

section

variable (lawful : set.Lawful enum.variants.length valid)
include lawful

theorem Tracks.addLiteral
    (tracks : Tracks set valid enum state arms) {type : PayloadType}
    (names : arm.Names enum variant) (plain : arm.guarded = false)
    (payload : enum.payloadType variant = some type)
    (compared : arm.pattern = .literal expression) (known : literalKey expression = some key) :
    Tracks set valid enum
      { state with
        literals := set.insert state.literals variant key
        covered := if decide (type = .boolean) &&
            set.contains (set.insert state.literals variant key) variant (ascii "bool:true") &&
            set.contains (set.insert state.literals variant key) variant (ascii "bool:false") then
          state.covered.set variant true else state.covered }
      (arms ++ [arm]) := by
  have small := findVariant_lt names.2
  have compares : ∀ {other : ℕ} {expression' : PatternExpression},
      arm.Compares enum other expression' ↔ other = variant ∧ expression' = expression := by
    intro other expression'
    constructor
    · rintro ⟨_, names', compared'⟩
      exact ⟨names'.unique names, ArmPattern.literal.inj (compared'.symm.trans compared)⟩
    · rintro ⟨rfl, rfl⟩
      exact ⟨plain, names, compared⟩
  have literals : ∀ other < enum.variants.length, ∀ key',
      set.contains (set.insert state.literals variant key) other key' = true ↔
        ∃ expression', literalKey expression' = some key' ∧
          ∃ arm' ∈ arms ++ [arm], arm'.Compares enum other expression' := by
    intro other small' key'
    rw [lawful.insert_contains _ _ _ tracks.valid small other small', tracks.literals other small' key']
    simp only [exists_append, compares]
    constructor
    · rintro (⟨rfl, rfl⟩ | ⟨expression', known', old⟩)
      · exact ⟨expression, known, Or.inr ⟨rfl, rfl⟩⟩
      · exact ⟨expression', known', Or.inl old⟩
    · rintro ⟨expression', known', old | ⟨rfl, rfl⟩⟩
      · exact Or.inr ⟨expression', known', old⟩
      · exact Or.inl ⟨rfl, Option.some.inj (known'.symm.trans known)⟩
  have boolean : ∀ v : Bool, set.contains (set.insert state.literals variant key) variant
      (if v then ascii "bool:true" else ascii "bool:false") = true ↔
        ∃ arm' ∈ arms ++ [arm], arm'.Compares enum variant (.boolean v) := by
    intro v
    rw [literals variant small]
    constructor
    · rintro ⟨_, known', found⟩
      rwa [literalKey_injective known' (show literalKey (.boolean v) = some _ from rfl)] at found
    · exact fun found => ⟨.boolean v, rfl, found⟩
  -- The arm covers a variant only together with the other literal.
  have split : ∀ other, Covered enum (arms ++ [arm]) other → Covered enum arms other ∨
      other = variant ∧ type = .boolean ∧
        ∀ v, ∃ arm' ∈ arms ++ [arm], arm'.Compares enum variant (.boolean v) := by
    rintro other (wild | ⟨whole, inside, found⟩ | ⟨payload', both⟩)
    · rcases hasWildcard_append.mp wild with old | new
      · exact Or.inl (Or.inl old)
      · rw [names.1] at new
        exact Bool.noConfusion new.2
    · have some' : ∃ arm' ∈ arms ++ [arm], arm'.Whole enum other := ⟨whole, inside, found⟩
      rcases exists_append.mp some' with old | new
      · exact Or.inl (Or.inr (Or.inl old))
      · exact absurd compared (new.2.2 expression)
    · by_cases same : other = variant
      · subst same
        exact Or.inr ⟨rfl, Option.some.inj (payload.symm.trans payload'), both⟩
      · refine Or.inl (Or.inr (Or.inr ⟨payload', fun v => ?_⟩))
        rcases exists_append.mp (both v) with old | new
        · exact old
        · exact absurd (compares.mp new).1 same
  have two : (decide (type = .boolean) &&
      set.contains (set.insert state.literals variant key) variant (ascii "bool:true") &&
      set.contains (set.insert state.literals variant key) variant (ascii "bool:false")) = true ↔
        type = .boolean ∧
          ∀ v, ∃ arm' ∈ arms ++ [arm], arm'.Compares enum variant (.boolean v) := by
    rw [Bool.and_eq_true, Bool.and_eq_true, decide_eq_true_eq, and_assoc, Bool.forall_bool, and_comm
      (a := ∃ arm' ∈ arms ++ [arm], arm'.Compares enum variant (.boolean false))]
    exact and_congr_right fun _ => and_congr (boolean true) (boolean false)
  refine ⟨tracks.clean, ?_, fun other small' => ?_, lawful.insert _ _ _ tracks.valid, literals, ?_⟩
  · dsimp only
    split
    · exact (length_set ..).trans tracks.length
    · exact tracks.length
  · dsimp only
    by_cases both : type = .boolean ∧
        ∀ v, ∃ arm' ∈ arms ++ [arm], arm'.Compares enum variant (.boolean v)
    · rw [if_pos (two.mpr both), getD_set _ (by rw [tracks.length]; exact small),
        tracks.covered other small']
      constructor
      · rintro (rfl | old)
        · exact Or.inr (Or.inr ⟨both.1 ▸ payload, both.2⟩)
        · exact old.mono (subset_append_left ..)
      · intro covered
        rcases split other covered with old | new
        · exact Or.inr old
        · exact Or.inl new.1
    · rw [if_neg fun found => both (two.mp found), tracks.covered other small']
      constructor
      · exact fun old => old.mono (subset_append_left ..)
      · intro covered
        rcases split other covered with old | new
        · exact old
        · exact absurd new.2 both
  · rw [hasWildcard_append, names.1]
    exact tracks.wildcard.trans (or_iff_left fun both => Bool.noConfusion both.2).symm

/-- **The arm was allowed behind the arms so far**, and they are tracked with it. -/
theorem analyzeArm_tracks
    (tracks : Tracks set valid enum state arms)
    (clean : (analyzeArm set target enum state arm).diagnostics = []) :
    Allowed target enum arms arm ∧
      Tracks set valid enum (analyzeArm set target enum state arm) (arms ++ [arm]) := by
  obtain ⟨_, unmarked, cases'⟩ := analyzeArm_clean clean
  have free : ¬HasWildcard arms := fun wild => by
    rw [← tracks.wildcard, unmarked] at wild
    cases wild
  rcases cases' with ⟨wild, plain, result⟩ | ⟨variant, names, clean, result⟩
  · refine ⟨.wildcard free wild plain, ?_⟩
    rw [result]
    cases guarded : arm.guarded with
    | true => exact tracks.guarded guarded
    | false => exact tracks.addWildcard guarded wild
  · rw [result]
    have small := findVariant_lt names.2
    obtain ⟨_, uncovered, cases'⟩ := analyzeVariant_clean clean
    have left : ¬Covered enum arms variant := fun covered => by
      rw [← tracks.covered variant small, uncovered] at covered
      cases covered
    rcases cases' with ⟨payload, plain, result⟩ | ⟨type, name, payload, bound, result⟩ |
      ⟨type, expression, payload, compared, result⟩
    · rw [result]
      refine ⟨.unit variant free names left payload plain, tracks.cover names fun expression same => ?_⟩
      rw [plain] at same
      cases same
    · rw [result]
      refine ⟨.binding variant type name free names left payload bound,
        tracks.cover names fun expression same => ?_⟩
      rw [bound] at same
      cases same
    · rw [result] at clean ⊢
      obtain ⟨_, _, typed, key, known, fresh, kept, added⟩ := analyzeLiteral_clean clean
      refine ⟨.literal variant type expression free names left payload compared (by rw [known]; simp)
        typed fun plain earlier inside compares => ?_, ?_⟩
      · have seen := (tracks.literals variant small key).mpr ⟨expression, known, earlier, inside, compares⟩
        rw [fresh plain] at seen
        cases seen
      · cases guarded : arm.guarded with
        | true =>
          rw [kept guarded]
          exact tracks.guarded guarded
        | false =>
          rw [added guarded]
          exact tracks.addLiteral lawful names guarded payload compared known

theorem analyzeArms_tracks {s : List Arm}
    (tracks : Tracks set valid enum state s)
    (clean : (arms.foldl (analyzeArm set target enum) state).diagnostics = []) :
    Tracks set valid enum (arms.foldl (analyzeArm set target enum) state)
        (s ++ arms) ∧
      ∀ front arm back, arms = front ++ arm :: back →
        Allowed target enum (s ++ front) arm := by
  induction arms generalizing state s with
  | nil =>
    refine ⟨by rwa [append_nil], fun front arm back split => ?_⟩
    exact absurd split.symm (append_ne_nil_of_right_ne_nil _ (cons_ne_nil _ _))
  | cons first arms ih =>
    obtain ⟨_, next⟩ := analyzeArm_tracks lawful tracks (analyzeArms_clean clean)
    obtain ⟨last, more⟩ := ih next clean
    refine ⟨by rwa [append_assoc] at last, fun front arm back split => ?_⟩
    cases front with
    | nil =>
      cases split
      rwa [append_nil]
    | cons y front =>
      rw [cons_append, List.cons.injEq] at split
      obtain ⟨rfl, split⟩ := split
      have found := more front arm back split
      rwa [append_assoc] at found

/-- **Every arm of an accepted match was allowed**, and the arms cover all variants. -/
theorem analyze_allowed
    {uncovered : Variant → Str} (ran : analyze set target enum uncovered arms = []) :
    (∀ front arm back, arms = front ++ arm :: back → Allowed target enum front arm) ∧
      ∀ variant < enum.variants.length, Covered enum arms variant := by
  unfold analyze at ran
  dsimp only at ran
  obtain ⟨clean, missing⟩ := append_eq_nil_iff.mp ran
  obtain ⟨last, allowed⟩ := analyzeArms_tracks lawful (tracks_initial lawful) clean
  refine ⟨allowed, fun variant small => ?_⟩
  rw [nil_append] at last
  refine (last.covered variant small).mp ?_
  rw [map_eq_nil_iff, filter_eq_nil_iff] at missing
  have inside : variant < (arms.foldl (analyzeArm set target enum)
      (initialState set enum)).covered.length := by rw [last.length]; exact small
  have mem := mem_iff_getElem.mpr ⟨variant, by
    rw [length_zip]
    exact Nat.lt_min.mpr ⟨small, inside⟩, getElem_zip (l := enum.variants)⟩
  have kept := missing _ mem
  rw [getD_eq_getElem?_getD, List.getElem?_eq_getElem inside]
  simpa using kept

end

end Tracks

/-- Either compiler. -/
theorem accepted_allowed {target : Target} {enum : Enumeration} {arms : List Arm}
    (accepted : analyzeMatch target enum arms = [] ∨
      analyzeSemanticMatch target enum arms = []) :
    (∀ front arm back, arms = front ++ arm :: back → Allowed target enum front arm) ∧
      ∀ variant < enum.variants.length, Covered enum arms variant := by
  rcases accepted with accepted | accepted
  · exact analyze_allowed (variantSets_lawful _) accepted
  · exact analyze_allowed (keySet_lawful enum.small) accepted

end FoundationLang.Match
