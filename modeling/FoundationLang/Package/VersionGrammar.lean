/-
**The texts that `parsePackageVersion` accepts.**
-/

import FoundationLang.Package.Precedence

namespace FoundationLang.Package

open Library List

variable {text : String} {version : PackageVersion}

/-! ### The round trip from the text -/

section

variable {bytes : List Char} {mark : Char} {parts : List String} {reject : Bool}

theorem dotted_of_identifiers (read : identifiers bytes reject = some parts) :
    dotted parts = bytes ∧ parts ≠ [] := by
  obtain ⟨rfl, _⟩ := identifiers_eq_some.mp read
  constructor
  · unfold dotted
    rw [map_map]
    have plain : String.toList ∘ String.ofList = id := by
      funext text
      exact String.toList_ofList
    rw [plain, map_id, intercalate_splitOn]
  · exact fun none => splitOn_ne_nil '.' bytes (map_eq_nil_iff.mp none)

theorem marked_of_identifiers (starts : bytes.findIdx (· == mark) < bytes.length)
    (read : identifiers (bytes.drop (bytes.findIdx (· == mark) + 1)) reject = some parts) :
    marked mark parts = bytes.drop (bytes.findIdx (· == mark)) := by
  obtain ⟨joined, filled⟩ := dotted_of_identifiers read
  have here : bytes[bytes.findIdx (· == mark)] = mark := by
    simpa using findIdx_getElem (w := starts)
  unfold marked
  rw [drop_eq_getElem_cons starts, here, joined, if_neg (by simpa using filled)]

theorem hyphen_ne_plus (starts : bytes.findIdx (· == '-') < bytes.length) :
    bytes.findIdx (· == '+') ≠ bytes.findIdx (· == '-') := by
  intro same
  have hyphen : bytes[bytes.findIdx (· == '-')] = '-' := by simpa using findIdx_getElem (w := starts)
  have starts' : bytes.findIdx (· == '+') < bytes.length := by rwa [same]
  have plus : bytes[bytes.findIdx (· == '+')] = '+' := by simpa using findIdx_getElem (w := starts')
  simp only [same, hyphen] at plus
  exact absurd plus (by decide)

/-- The prerelease stands between the first hyphen and the first plus. -/
theorem marked_prerelease {prerelease : List String}
    (labels : parsePrerelease bytes (bytes.findIdx (· == '+')) (bytes.findIdx (· == '-')) =
      some prerelease) :
    marked '-' prerelease = (bytes.take (bytes.findIdx (· == '+'))).drop (bytes.findIdx (· == '-')) ∧
      (bytes.findIdx (· == '-') ≤ bytes.findIdx (· == '+') ∨
        bytes.length ≤ bytes.findIdx (· == '-')) := by
  unfold parsePrerelease at labels
  by_cases starts : bytes.findIdx (· == '-') < bytes.length
  · rw [if_pos starts] at labels
    have ne := hyphen_ne_plus starts
    by_cases later : bytes.findIdx (· == '+') < bytes.findIdx (· == '-')
    · rw [if_pos later] at labels
      cases labels
    · rw [if_neg later] at labels
      have located : (bytes.take (bytes.findIdx (· == '+'))).findIdx (· == '-') =
          bytes.findIdx (· == '-') := by
        rw [findIdx_take]
        omega
      have behind := @marked_of_identifiers (bytes.take (bytes.findIdx (· == '+'))) '-' prerelease true
        (by rw [located, length_take]; omega) (by rw [located]; exact labels)
      rw [located] at behind
      exact ⟨behind, .inl (Nat.not_lt.mp later)⟩
  · rw [if_neg starts] at labels
    cases labels
    refine ⟨?_, .inr (Nat.not_lt.mp starts)⟩
    rw [drop_eq_nil_of_le (by rw [length_take]; omega)]
    rfl

theorem marked_build {build : List String}
    (metadata : parseBuild bytes (bytes.findIdx (· == '+')) = some build) :
    marked '+' build = bytes.drop (bytes.findIdx (· == '+')) := by
  unfold parseBuild at metadata
  by_cases starts : bytes.findIdx (· == '+') < bytes.length
  · rw [if_pos starts] at metadata
    exact marked_of_identifiers starts metadata
  · rw [if_neg starts] at metadata
    cases metadata
    rw [drop_eq_nil_of_le (Nat.not_lt.mp starts)]
    rfl

theorem ofList_of_number {text : List Char} {v : UInt64}
    (read : number (String.ofList text) = some v) : text = (toString v.toNat).toList := by
  rw [← number_eq_some read, String.toList_ofList]

end

/-- **A version has the text that it was parsed from.** -/
theorem string_of_parsed (parsed : parsePackageVersion text = some version) :
    version.string = text := by
  have valid := parsePackageVersion_valid parsed
  rw [← String.toList_inj, valid.toList_string]
  simp only [parsePackageVersion] at parsed
  generalize text.toList = bytes at parsed ⊢
  split at parsed
  case h_2 => cases parsed
  case h_1 major minor patch split =>
    simp only [Option.bind_eq_bind, Option.bind_eq_some_iff, Option.some.injEq] at parsed
    obtain ⟨x, read, y, read', third, read'', prerelease, labels, build, metadata, rfl⟩ := parsed
    have core : dotted [toString x.toNat, toString y.toNat, toString third.toNat] =
        bytes.take (min (bytes.findIdx (· == '+')) (bytes.findIdx (· == '-'))) := by
      have joined : ['.'].intercalate ((bytes.take (min (bytes.findIdx (· == '+'))
          (bytes.findIdx (· == '-')))).splitOn '.') = bytes.take (min (bytes.findIdx (· == '+'))
            (bytes.findIdx (· == '-'))) := intercalate_splitOn '.'
      rw [split, ofList_of_number read, ofList_of_number read', ofList_of_number read''] at joined
      exact joined
    obtain ⟨between, order⟩ := marked_prerelease labels
    change dotted [toString x.toNat, toString y.toNat, toString third.toNat] ++
      (marked '-' prerelease ++ marked '+' build) = bytes
    rw [core, between, marked_build metadata]
    generalize bytes.findIdx (· == '+') = plus at order ⊢
    generalize bytes.findIdx (· == '-') = hyphen at order ⊢
    by_cases before : hyphen ≤ plus
    · have front : bytes.take hyphen = (bytes.take plus).take hyphen := by
        rw [take_take, Nat.min_eq_left before]
      rw [Nat.min_eq_right before, ← append_assoc, front, take_append_drop,
        take_append_drop]
    · have beyond : bytes.length ≤ hyphen := order.resolve_left before
      rw [Nat.min_eq_left (by omega), drop_eq_nil_of_le (by rw [length_take]; omega),
        nil_append, take_append_drop]

/-! ### The grammar -/

theorem identifierCharacter_eq (character : Char) :
    SemVer.identifierCharacter character = (isAlnum character || character == '-') := by
  have alpha : isAlpha character = character.isAlpha := by
    rw [isAlpha, ← Bool.decide_and ('A' ≤ character)]
    rfl
  rw [SemVer.identifierCharacter, Char.isAlphanum, isAlnum, alpha, isDigit_eq]

theorem isBuildIdentifier_iff {text : List Char} :
    SemVer.IsBuildIdentifier text ↔ versionIdentifier text = true := by
  simp only [SemVer.IsBuildIdentifier, versionIdentifier, identifierCharacter_eq, Bool.and_eq_true,
    all_eq_true, Bool.not_eq_true', isEmpty_eq_false_iff]

theorem isPrereleaseIdentifier_iff {text : List Char} :
    SemVer.IsPrereleaseIdentifier text ↔ versionIdentifier text = true ∧ leadingZero text = false := by
  constructor
  · rintro (⟨identifier, y⟩ | same | ⟨numeric, leading⟩)
    · refine ⟨isBuildIdentifier_iff.mp identifier, ?_⟩
      rw [digits_eq] at y
      have filled : text.isEmpty = false := by simpa using identifier.1
      rw [filled, Bool.not_false, Bool.true_and] at y
      simp [leadingZero, y]
    · rw [same]
      decide
    · refine ⟨isBuildIdentifier_iff.mp ⟨?_, ?_⟩, ?_⟩
      · rintro rfl
        cases numeric
      · intro character mem
        rw [SemVer.identifierCharacter, Char.isAlphanum, digits_forall numeric character mem,
          Bool.or_true, Bool.true_or]
      · simp [leadingZero, leading]
  · rintro ⟨identifier, leading⟩
    have build := isBuildIdentifier_iff.mpr identifier
    cases numeric : SemVer.digits text with
    | false => exact .alphanumeric build numeric
    | true =>
      rw [digits_eq, Bool.and_eq_true] at numeric
      by_cases zero : text.head? = some '0'
      · refine .zero ?_
        simp only [leadingZero, numeric.2, zero, beq_self_eq_true, Bool.and_true,
          decide_eq_false_iff_not, Nat.not_lt] at leading
        obtain ⟨_, rfl⟩ := List.head?_eq_some_iff.mp zero
        rw [length_cons] at leading
        rw [eq_nil_of_length_eq_zero (Nat.le_zero.mp (Nat.le_of_succ_le_succ leading))]
      · exact .numeric (by rw [digits_eq, Bool.and_eq_true]; exact numeric) zero

/-- The numbers of a version fit `std::size_t`. -/
structure Fitting (version : SemVer) : Prop where
  major : version.major < 2 ^ 64
  minor : version.minor < 2 ^ 64
  patch : version.patch < 2 ^ 64

/-- **A text of the grammar** whose numbers fit. -/
def IsVersion (text : String) : Prop :=
  ∃ version : SemVer, version.WellFormed ∧ Fitting version ∧ version.text = text.toList

/-- The parser accepts the text exactly if it is a version, and the version it reads has this text. -/
def MeetsGrammar (text : String) : Prop :=
  ((parsePackageVersion text).isSome = true ↔ IsVersion text) ∧
    ∀ version, parsePackageVersion text = some version → version.string = text

/-- **A version without a prerelease whose build metadata has a hyphen.** -/
def HyphenatedBuild (text : String) : Prop :=
  ∃ version : SemVer, version.WellFormed ∧ Fitting version ∧ version.text = text.toList ∧
    version.prerelease = [] ∧ ∃ part ∈ version.build, '-' ∈ part.toList

theorem text_eq (version : SemVer) : version.text =
    dotted [toString version.major, toString version.minor, toString version.patch] ++
      (marked '-' version.prerelease ++ marked '+' version.build) := by
  have mark (mark : Char) (parts : List String) :
      (if parts = [] then [] else mark :: SemVer.dots parts) = marked mark parts := by
    cases parts <;> rfl
  rw [SemVer.text, mark, mark]
  rfl

theorem isVersion_of_parsed (parsed : parsePackageVersion text = some version) :
    IsVersion text := by
  have valid := parsePackageVersion_valid parsed
  refine ⟨version.semver, ⟨fun part mem => ?_, fun part mem => ?_⟩, ⟨?_, ?_, ?_⟩, ?_⟩
  · exact isPrereleaseIdentifier_iff.mpr (valid.prerelease part mem)
  · exact isBuildIdentifier_iff.mpr (valid.build part mem)
  · exact version.major.toNat_lt
  · exact version.minor.toNat_lt
  · exact version.patch.toNat_lt
  · rw [text_eq, ← string_of_parsed parsed, valid.toList_string]
    rfl

/-- A semantic version whose numbers fit, as a version of the code. -/
def packaged (version : SemVer) : PackageVersion where
  major := UInt64.ofNat version.major
  minor := UInt64.ofNat version.minor
  patch := UInt64.ofNat version.patch
  prerelease := version.prerelease
  build := version.build

theorem packaged_core {version : SemVer} (fits : Fitting version) : (packaged version).core =
    [toString version.major, toString version.minor, toString version.patch] := by
  simp only [PackageVersion.core, packaged, UInt64.toNat_ofNat_of_lt' fits.major,
    UInt64.toNat_ofNat_of_lt' fits.minor, UInt64.toNat_ofNat_of_lt' fits.patch]

theorem parsed_of_isVersion (isVersion : IsVersion text) (plain : ¬HyphenatedBuild text) :
    (parsePackageVersion text).isSome = true := by
  obtain ⟨version, wf, fits, same⟩ := isVersion
  have valid : (packaged version).Valid := by
    refine ⟨fun part mem => ?_, fun part mem => ?_, fun release part mem hyphen => ?_⟩
    · exact isPrereleaseIdentifier_iff.mp (wf.prerelease part mem)
    · exact isBuildIdentifier_iff.mp (wf.build part mem)
    · exact plain ⟨version, wf, fits, same, release, part, mem, hyphen⟩
  have string : (packaged version).string = text := by
    rw [← String.toList_inj, valid.toList_string, ← same, text_eq, packaged_core fits]
    rfl
  rw [← string, parsePackageVersion_string valid]
  rfl

theorem order_of_parsed (parsed : parsePackageVersion text = some version) :
    text.toList.findIdx (· == '-') ≤ text.toList.findIdx (· == '+') ∨
      text.toList.length ≤ text.toList.findIdx (· == '-') := by
  simp only [parsePackageVersion] at parsed
  split at parsed
  case h_2 => cases parsed
  case h_1 =>
    simp only [Option.bind_eq_bind, Option.bind_eq_some_iff, Option.some.injEq] at parsed
    obtain ⟨_, _, _, _, _, _, _, labels, _⟩ := parsed
    exact (marked_prerelease labels).2

theorem mem_dotted_of_mem {parts : List String} {part : String} {b : Char} (mem : part ∈ parts)
    (inside : b ∈ part.toList) : b ∈ dotted parts := by
  induction parts with
  | nil => cases mem
  | cons x rest ih =>
    cases rest with
    | nil =>
      obtain rfl := mem_singleton.mp mem
      rwa [dotted, map_cons, map_nil, intercalate_singleton]
    | cons =>
      rw [dotted, map_cons, map_cons, intercalate_cons_cons, ← map_cons,
        append_assoc, mem_append, mem_append]
      rcases mem_cons.mp mem with rfl | later
      · exact .inl inside
      · exact .inr (.inr (ih later))

theorem parse_of_hyphenatedBuild (hyphenated : HyphenatedBuild text) :
    parsePackageVersion text = none := by
  obtain ⟨version, wf, fits, same, release, part, mem, hyphen⟩ := hyphenated
  cases parsed : parsePackageVersion text with
  | none => rfl
  | some =>
    have order := order_of_parsed parsed
    have filled : version.build ≠ [] := ne_nil_of_mem mem
    have bytes : text.toList = dotted (packaged version).core ++ marked '+' version.build := by
      rw [← same, text_eq, packaged_core fits, release]
      rfl
    have plus : text.toList.findIdx (· == '+') = (dotted (packaged version).core).length := by
      rw [bytes]
      exact findIdx_append_of_notMem (notMem_core _ (by decide) (by decide)) (marked_head '+' _)
    have present : '-' ∈ text.toList := by
      rw [bytes, mem_append]
      refine .inr ?_
      rw [marked, if_neg (by simpa using filled)]
      exact mem_cons_of_mem _ (mem_dotted_of_mem mem hyphen)
    have inside : text.toList.findIdx (· == '-') < text.toList.length :=
      findIdx_lt_length_of_exists ⟨'-', present, rfl⟩
    have ne := hyphen_ne_plus inside
    have early : text.toList.findIdx (· == '-') < (dotted (packaged version).core).length := by
      omega
    -- the hyphen would stand among the numbers
    have here : text.toList[text.toList.findIdx (· == '-')]? = some '-' := by
      rw [List.getElem?_eq_getElem inside]
      simpa using findIdx_getElem (w := inside)
    have among : (dotted (packaged version).core)[text.toList.findIdx (· == '-')]? = some '-' := by
      generalize text.toList.findIdx (· == '-') = hyphen at here early
      rwa [bytes, List.getElem?_append_left early] at here
    exact absurd (mem_of_getElem? among) (notMem_core _ (by decide) (by decide))

/-- **The parser accepts the grammar**, but for hyphens in the build metadata of a release. -/
theorem parsePackageVersion_grammar (text : String) : MeetsGrammar text ↔ ¬HyphenatedBuild text := by
  constructor
  · rintro ⟨accepts, _⟩ hyphenated
    have isVersion : IsVersion text := by
      obtain ⟨version, wellFormed, fits, same, _⟩ := hyphenated
      exact ⟨version, wellFormed, fits, same⟩
    have accepted := accepts.mpr isVersion
    rw [parse_of_hyphenatedBuild hyphenated] at accepted
    cases accepted
  · intro plain
    refine ⟨⟨fun accepted => ?_, fun isVersion => parsed_of_isVersion isVersion plain⟩,
      fun version parsed => string_of_parsed parsed⟩
    obtain ⟨_, parsed⟩ := Option.isSome_iff_exists.mp accepted
    exact isVersion_of_parsed parsed

/-- The text `1.0.0+a-b`. -/
theorem grammar_hyphenated : ¬MeetsGrammar "1.0.0+a-b" ∧
    parsePackageVersion "1.0.0+a-b" = none ∧ IsVersion "1.0.0+a-b" := by
  have rejected : parsePackageVersion "1.0.0+a-b" = none := by decide +kernel
  have isVersion : IsVersion "1.0.0+a-b" := by
    refine ⟨⟨1, 0, 0, [], ["a-b"]⟩, ⟨by simp, ?_⟩, ⟨by decide, by decide, by decide⟩, by decide +kernel⟩
    intro part mem
    rw [mem_singleton.mp mem]
    exact isBuildIdentifier_iff.mpr (by decide)
  refine ⟨?_, rejected, isVersion⟩
  rintro ⟨accepts, _⟩
  have accepted := accepts.mpr isVersion
  rw [rejected] at accepted
  cases accepted

end FoundationLang.Package
