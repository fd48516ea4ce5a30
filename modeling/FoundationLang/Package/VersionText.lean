/-
**Names, versions and requirements as text.**

`identifier`, `parsePackageVersion` and `parsePackageRequirement` of `package.cpp`. An offset that
`find` does not find is the length of the text here: every use of `npos` in the source behaves the
same way with it.
-/

import FoundationLang.Package.Order
import FoundationLang.Package.Text

namespace FoundationLang.Package

open List

variable {version : PackageVersion} {parts : List String} {byte : Char}
  {requirement : PackageRequirement} {bytes : List Char}

/-! ### Names -/

/-- The loop of `identifier`; the flag is `segmentStart`. -/
def identifierFrom : Bool → List Char → Bool
  | segmentStart, [] => !segmentStart
  | segmentStart, byte :: rest =>
    if byte = '.' then !segmentStart && identifierFrom true rest
    else if segmentStart then isAlpha byte && identifierFrom false rest
    else (isAlnum byte || byte == '-' || byte == '_') && identifierFrom false rest

/-- `identifier`: segments that start with a letter, separated by dots. -/
def identifier (value : String) : Bool :=
  identifierFrom true value.toList

example : identifier "std.text-1" = true ∧ identifier "a..b" = false ∧ identifier "" = false := by
  decide

/-! ### Versions -/

/-- One identifier between the dots of a version. -/
def versionIdentifier (value : List Char) : Bool :=
  !value.isEmpty && value.all fun byte => isAlnum byte || byte == '-'

/-- A number with a leading zero, which a prerelease may not hold. -/
def leadingZero (value : List Char) : Bool :=
  1 < value.length && value.all isDigit && value.head? == some '0'

/-- `identifiers`: the parts between the dots, if each of them is one. -/
def identifiers (text : List Char) (rejectLeadingZero : Bool) : Option (List String) :=
  let parts := text.splitOn '.'
  if parts.all fun value => versionIdentifier value && !(rejectLeadingZero && leadingZero value)
  then some (parts.map String.ofList) else none

/-- The prerelease of a version text, between the first hyphen and the first plus. -/
def parsePrerelease (bytes : List Char) (buildOffset prereleaseOffset : Nat) :
    Option (List String) :=
  if prereleaseOffset < bytes.length then
    if buildOffset < prereleaseOffset then none
    else identifiers ((bytes.take buildOffset).drop (prereleaseOffset + 1)) true
  else some []

/-- The build metadata of a version text, after the first plus. -/
def parseBuild (bytes : List Char) (buildOffset : Nat) : Option (List String) :=
  if buildOffset < bytes.length then identifiers (bytes.drop (buildOffset + 1)) false else some []

/-- The version that a text spells. -/
def parsePackageVersion (text : String) : Option PackageVersion :=
  let bytes := text.toList
  let buildOffset := bytes.findIdx (· == '+')
  let prereleaseOffset := bytes.findIdx (· == '-')
  let core := bytes.take (min buildOffset prereleaseOffset)
  match core.splitOn '.' with
  | [major, minor, patch] => do
    let major ← number (String.ofList major)
    let minor ← number (String.ofList minor)
    let patch ← number (String.ofList patch)
    let prerelease ← parsePrerelease bytes buildOffset prereleaseOffset
    let build ← parseBuild bytes buildOffset
    some ⟨major, minor, patch, prerelease, build⟩
  | _ => none

/-- The requirement that a text spells. -/
def parsePackageRequirement (text : String) : Option PackageRequirement :=
  if text = "*" then some ⟨.any, {}⟩
  else
    match text.toList with
    | '^' :: rest => (parsePackageVersion (String.ofList rest)).map fun version => ⟨.caret, version⟩
    | '~' :: rest => (parsePackageVersion (String.ofList rest)).map fun version => ⟨.tilde, version⟩
    | _ => (parsePackageVersion text).map fun version => ⟨.exact, version⟩

example : parsePackageVersion "1.20.3-rc.1+b-2"
    = some ⟨1, 20, 3, ["rc", "1"], ["b-2"]⟩ := by decide +kernel

example : parsePackageVersion "1.0.0+a-b" = none := by decide +kernel

/-! ### Words -/

/-- The bytes of names, versions, requirements, digests and fixed words. -/
def wordByte (byte : Char) : Bool :=
  isAlnum byte || byte == '-' || byte == '_' || byte == '.' || byte == '+' || byte == '^' ||
    byte == '~' || byte == '*' || byte == ':' || byte == '/'

/-- A text that is written bare. -/
def Word (token : String) : Prop :=
  token ≠ "" ∧ ∀ byte ∈ token.toList, wordByte byte = true

instance (token : String) : Decidable (Word token) :=
  -- the bytes of the token are tested one by one
  let each : Decidable (∀ byte ∈ token.toList, wordByte byte = true) :=
    List.decidableBAll (fun byte => wordByte byte = true) token.toList
  instDecidableAnd

theorem plain_of_wordByte (word : wordByte byte = true) :
    isSpace byte = false ∧ byte ≠ '#' ∧ byte ≠ '"' ∧ byte ≠ '\\' := by
  have blank : isSpace byte = true → wordByte byte = false := by
    intro space
    unfold isSpace at space
    rw [Bool.or_eq_true, beq_iff_eq, Bool.and_eq_true, decide_eq_true_eq, decide_eq_true_eq] at space
    rcases space with rfl | ⟨low, high⟩
    · decide
    · have lower : 9 ≤ byte.toNat := low
      have upper : byte.toNat ≤ 13 := high
      obtain ⟨code, bounds, rfl⟩ : ∃ code, (9 ≤ code ∧ code ≤ 13) ∧ byte = Char.ofNat code :=
        ⟨byte.toNat, ⟨lower, upper⟩, (Char.ofNat_toNat byte).symm⟩
      obtain rfl | rfl | rfl | rfl | rfl : code = 9 ∨ code = 10 ∨ code = 11 ∨ code = 12 ∨ code = 13 := by
        omega
      all_goals decide
  refine ⟨?_, ?_, ?_, ?_⟩
  · by_contra space
    rw [blank (by simpa using space)] at word
    cases word
  all_goals
    rintro rfl
    exact absurd word (by decide)

/-- Names, versions and digests are written bare. -/
theorem quote_of_word {token : String} (word : Word token) : quote token = token := by
  unfold quote quoteWith
  rw [if_neg]
  rw [quoteRequired, Bool.or_eq_true, not_or, any_eq_true]
  refine ⟨by simpa [String.isEmpty_iff] using word.1, ?_⟩
  rintro ⟨byte, mem, special⟩
  obtain ⟨blank, comment, mark, slash⟩ := plain_of_wordByte (word.2 byte mem)
  simp [blank, comment, mark, slash] at special

theorem word_append {left right : String} (one : Word left) (two : Word right) :
    Word (left ++ right) := by
  refine ⟨fun empty => one.1 (String.append_eq_empty_iff.mp empty).1, fun byte mem => ?_⟩
  rcases mem_append.mp (String.toList_append ▸ mem) with before | after
  · exact one.2 byte before
  · exact two.2 byte after

/-- **Names are words.** -/
theorem word_of_identifier {value : String} (valid : identifier value = true) : Word value := by
  have bytes : ∀ (segmentStart : Bool) (text : List Char),
      identifierFrom segmentStart text = true → ∀ byte ∈ text, wordByte byte = true := by
    intro segmentStart text
    induction text generalizing segmentStart with
    | nil => simp
    | cons x rest ih =>
      intro ran byte mem
      rw [identifierFrom] at ran
      rcases mem_cons.mp mem with rfl | later
      · split_ifs at ran with dot start <;> rw [Bool.and_eq_true] at ran
        · subst dot
          decide
        · simp [wordByte, isAlnum, ran.1]
        · have here := ran.1
          simp only [Bool.or_eq_true] at here
          rcases here with (alnum | hyphen) | underscore
          · simp [wordByte, alnum]
          · simp [wordByte, hyphen]
          · simp [wordByte, underscore]
      · split_ifs at ran with dot start <;> rw [Bool.and_eq_true] at ran
        · exact ih true ran.2 byte later
        · exact ih false ran.2 byte later
        · exact ih false ran.2 byte later
  refine ⟨?_, bytes true value.toList valid⟩
  rintro rfl
  exact absurd valid (by decide)

theorem word_digits (value : Nat) : Word (toString value) := by
  have ds : (toString value).toList = Nat.toDigits 10 value := by simp
  refine ⟨fun empty => ?_, fun byte mem => ?_⟩
  · rw [← String.toList_eq_nil_iff, ds] at empty
    exact Nat.toDigits_ne_nil empty
  · rw [ds] at mem
    have digit := Nat.isDigit_of_mem_toDigits (by decide) (by decide) mem
    rw [← isDigit_eq] at digit
    simp [wordByte, isAlnum, digit]

/-! ### Versions that have a text -/

/-- **The versions that have a text.** -/
structure PackageVersion.Valid (version : PackageVersion) : Prop where
  prerelease : ∀ part ∈ version.prerelease,
    versionIdentifier part.toList = true ∧ leadingZero part.toList = false
  build : ∀ part ∈ version.build, versionIdentifier part.toList = true
  plain : version.prerelease = [] → ∀ part ∈ version.build, '-' ∉ part.toList

/-- The requirements that have a text: `*` has no version. -/
structure PackageRequirement.Valid (requirement : PackageRequirement) : Prop where
  version : requirement.version.Valid
  any : requirement.kind = .any → requirement.version = {}

theorem identifiers_eq_some {text : List Char} {reject : Bool} :
    identifiers text reject = some parts ↔ parts = (text.splitOn '.').map String.ofList
      ∧ ∀ part ∈ parts, versionIdentifier part.toList = true
        ∧ (reject = true → leadingZero part.toList = false) := by
  simp only [identifiers]
  constructor
  · intro parsed
    split at parsed
    · rename_i all
      cases parsed
      refine ⟨rfl, fun part mem => ?_⟩
      obtain ⟨v, present, rfl⟩ := mem_map.mp mem
      have valid := all_eq_true.mp all v present
      rw [Bool.and_eq_true, Bool.not_eq_true', Bool.and_eq_false_iff] at valid
      rw [String.toList_ofList]
      exact ⟨valid.1, fun rejects => valid.2.resolve_left (by simp [rejects])⟩
    · cases parsed
  · rintro ⟨rfl, valid⟩
    rw [if_pos]
    rw [all_eq_true]
    intro v mem
    have ran := valid (String.ofList v) (mem_map_of_mem mem)
    rw [String.toList_ofList] at ran
    rw [Bool.and_eq_true, Bool.not_eq_true', Bool.and_eq_false_iff]
    refine ⟨ran.1, ?_⟩
    cases reject with
    | false => exact .inl rfl
    | true => exact .inr (ran.2 rfl)

theorem parsePrerelease_valid {buildOffset prereleaseOffset : Nat} {prerelease : List String}
    (parsed : parsePrerelease bytes buildOffset prereleaseOffset = some prerelease) :
    ∀ part ∈ prerelease, versionIdentifier part.toList = true ∧ leadingZero part.toList = false := by
  intro part mem
  unfold parsePrerelease at parsed
  split_ifs at parsed
  · obtain ⟨_, valid⟩ := identifiers_eq_some.mp parsed
    exact ⟨(valid part mem).1, (valid part mem).2 rfl⟩
  · cases parsed
    cases mem

theorem parsePrerelease_ne_nil {buildOffset : Nat} (hyphen : '-' ∈ bytes) :
    parsePrerelease bytes buildOffset (bytes.findIdx (· == '-')) ≠ some [] := by
  intro parsed
  unfold parsePrerelease at parsed
  rw [if_pos (findIdx_lt_length_of_exists ⟨'-', hyphen, rfl⟩)] at parsed
  split_ifs at parsed
  have shape := (identifiers_eq_some.mp parsed).1
  exact splitOn_ne_nil '.' _ (map_eq_nil_iff.mp shape.symm)

theorem parseBuild_valid {buildOffset : Nat} {build : List String}
    (parsed : parseBuild bytes buildOffset = some build) :
    ∀ part ∈ build, versionIdentifier part.toList = true ∧ ∀ byte ∈ part.toList, byte ∈ bytes := by
  intro part mem
  unfold parseBuild at parsed
  split_ifs at parsed
  · obtain ⟨shape, valid⟩ := identifiers_eq_some.mp parsed
    refine ⟨(valid part mem).1, fun byte inside => ?_⟩
    rw [shape] at mem
    obtain ⟨_, present, rfl⟩ := mem_map.mp mem
    rw [String.toList_ofList] at inside
    exact mem_of_mem_drop ((Library.mem_splitOn present).1 byte inside)
  · cases parsed
    cases mem

/-- **What is parsed is valid.** -/
theorem parsePackageVersion_valid {text : String} (parsed : parsePackageVersion text = some version) :
    version.Valid := by
  simp only [parsePackageVersion] at parsed
  split at parsed
  case h_2 => cases parsed
  case h_1 =>
    simp only [Option.bind_eq_bind, Option.bind_eq_some_iff, Option.some.injEq] at parsed
    obtain ⟨_, _, _, _, _, _, _, x, build, y, rfl⟩ := parsed
    refine ⟨parsePrerelease_valid x, fun part mem => (parseBuild_valid y part mem).1,
      fun none part mem hyphen => ?_⟩
    -- a hyphen in the build metadata is a hyphen of the text
    simp only at none
    rw [none] at x
    exact parsePrerelease_ne_nil ((parseBuild_valid y part mem).2 '-' hyphen) x

/-! ### Printing a version -/

/-- The parts of a version joined by dots. -/
def dotted (parts : List String) : List Char :=
  ['.'].intercalate (parts.map String.toList)

theorem toList_join_parts (nonempty : ∀ part ∈ parts, part ≠ "") :
    (join parts).toList = dotted parts := by
  have onward : ∀ (rest : List String) (r : String), r ≠ "" →
      (∀ part ∈ rest, part ≠ "") →
      (rest.foldl (fun r v => (if r.isEmpty then r else r.push '.') ++ v)
        r).toList = r.toList ++ rest.flatMap fun part => '.' :: part.toList := by
    intro rest
    induction rest with
    | nil => simp
    | cons part rest ih =>
      intro r filled nonempty
      have here : r.isEmpty = false := by simpa [String.isEmpty_iff] using filled
      rw [foldl_cons, ih]
      · simp [here, String.toList_push]
      · simp [here, String.append_eq_empty_iff, nonempty part (by simp)]
      · exact fun z mem => nonempty z (by simp [mem])
  have spread : ∀ (x : String) (rest : List String),
      dotted (x :: rest) = x.toList ++ rest.flatMap fun part => '.' :: part.toList := by
    intro x rest
    induction rest generalizing x with
    | nil => simp [dotted]
    | cons y rest ih =>
      have tail := ih y
      unfold dotted at tail ⊢
      rw [map_cons, map_cons, intercalate_cons_cons, ← map_cons, tail]
      simp
  cases parts with
  | nil => rfl
  | cons x =>
    rw [spread]
    unfold join
    rw [foldl_cons, onward]
    · simp
    · simpa using nonempty x (by simp)
    · exact fun part mem => nonempty part (by simp [mem])

theorem splitOn_dotted (nonempty : parts ≠ []) (undotted : ∀ part ∈ parts, '.' ∉ part.toList) :
    (dotted parts).splitOn '.' = parts.map String.toList := by
  unfold dotted
  refine splitOn_intercalate '.' (fun part mem => ?_) (by simpa using nonempty)
  obtain ⟨part, present, rfl⟩ := mem_map.mp mem
  exact undotted part present

theorem mem_dotted (mem : byte ∈ dotted parts) :
    byte = '.' ∨ ∃ part ∈ parts, byte ∈ part.toList := by
  induction parts with
  | nil => cases mem
  | cons x rest ih =>
    cases rest with
    | nil =>
      rw [dotted, map_cons, map_nil, intercalate_singleton] at mem
      exact .inr ⟨x, by simp, mem⟩
    | cons =>
      rw [dotted, map_cons, map_cons, intercalate_cons_cons, ← map_cons,
        append_assoc, mem_append, mem_append, mem_singleton] at mem
      rcases mem with here | dot | later
      · exact .inr ⟨x, by simp, here⟩
      · exact .inl dot
      · rcases ih later with dot | ⟨part, present, inside⟩
        · exact .inl dot
        · exact .inr ⟨part, by simp [present], inside⟩

theorem mem_versionIdentifier {part : List Char} (valid : versionIdentifier part = true)
    (mem : byte ∈ part) : isAlnum byte = true ∨ byte = '-' := by
  rw [versionIdentifier, Bool.and_eq_true, all_eq_true] at valid
  simpa using valid.2 byte mem

theorem ne_empty_of_versionIdentifier {part : String}
    (valid : versionIdentifier part.toList = true) : part ≠ "" := by
  rintro rfl
  exact absurd valid (by decide)

theorem notMem_versionIdentifier {part : List Char} (valid : versionIdentifier part = true)
    (other : isAlnum byte = false) (hyphen : byte ≠ '-') : byte ∉ part := by
  intro mem
  rcases mem_versionIdentifier valid mem with alnum | same
  · rw [other] at alnum
    cases alnum
  · exact hyphen same

theorem identifiers_dotted {reject : Bool} (nonempty : parts ≠ [])
    (valid : ∀ part ∈ parts, versionIdentifier part.toList = true
      ∧ (reject = true → leadingZero part.toList = false)) :
    identifiers (dotted parts) reject = some parts := by
  refine identifiers_eq_some.mpr ⟨?_, valid⟩
  rw [splitOn_dotted nonempty fun part mem =>
    notMem_versionIdentifier (valid part mem).1 (by decide) (by decide), map_map]
  simp [Function.comp_def]

/-- The three numbers as they are written. -/
def PackageVersion.core (version : PackageVersion) : List String :=
  [toString version.major.toNat, toString version.minor.toNat, toString version.patch.toNat]

/-- Parts behind the mark that sets them off, or nothing. -/
def marked (mark : Char) (parts : List String) : List Char :=
  if parts.isEmpty then [] else mark :: dotted parts

theorem digit_of_mem_core {part : String} (mem : part ∈ version.core)
    (inside : byte ∈ part.toList) : isDigit byte = true := by
  have ds (v : Nat) (mem : byte ∈ (toString v).toList) : isDigit byte = true := by
    rw [show (toString v).toList = Nat.toDigits 10 v by simp] at mem
    rw [isDigit_eq]
    exact Nat.isDigit_of_mem_toDigits (by decide) (by decide) mem
  simp only [PackageVersion.core, mem_cons, not_mem_nil, or_false] at mem
  rcases mem with rfl | rfl | rfl
  · exact ds _ inside
  · exact ds _ inside
  · exact ds _ inside

theorem notMem_core (version : PackageVersion) (other : isDigit byte = false) (dot : byte ≠ '.') :
    byte ∉ dotted version.core := by
  intro mem
  rcases mem_dotted mem with same | ⟨_, present, inside⟩
  · exact dot same
  · rw [digit_of_mem_core present inside] at other
    cases other

theorem notMem_marked {mark : Char} (valid : ∀ part ∈ parts, byte ∉ part.toList)
    (ne : byte ≠ mark) (dot : byte ≠ '.') : byte ∉ marked mark parts := by
  unfold marked
  split
  · simp
  · rw [mem_cons, not_or]
    refine ⟨ne, fun mem => ?_⟩
    rcases mem_dotted mem with same | ⟨part, present, inside⟩
    · exact dot same
    · exact valid part present inside

theorem PackageVersion.Valid.toList_string (valid : version.Valid) :
    version.string.toList
      = dotted version.core ++ (marked '-' version.prerelease ++ marked '+' version.build) := by
  have prerelease := toList_join_parts fun part mem =>
    ne_empty_of_versionIdentifier (valid.prerelease part mem).1
  have build := toList_join_parts fun part mem =>
    ne_empty_of_versionIdentifier (valid.build part mem)
  simp only [PackageVersion.string, marked, PackageVersion.core, dotted]
  split_ifs
  all_goals
    simp [prerelease, build, dotted, String.toList_append, intercalate_cons_cons]

theorem findIdx_append_of_notMem {mark : Char} {s t : List Char} (absent : mark ∉ s)
    (first : t = [] ∨ t.head? = some mark) :
    (s ++ t).findIdx (· == mark) = s.length := by
  have none : s.findIdx (· == mark) = s.length :=
    findIdx_eq_length_of_false fun byte mem => by
      simpa using fun same : byte = mark => absent (same ▸ mem)
  rw [findIdx_append, if_neg (by omega)]
  rcases first with rfl | head
  · simp
  · cases t with
    | nil => cases head
    | cons =>
      cases head
      simp [findIdx_cons]

theorem marked_head (mark : Char) (parts : List String) :
    marked mark parts = [] ∨ (marked mark parts).head? = some mark := by
  unfold marked
  split
  · exact .inl rfl
  · exact .inr rfl

theorem parsePrerelease_string (valid : version.Valid) :
    (dotted version.core).length ≤ version.string.toList.findIdx (· == '-')
      ∧ (version.prerelease ≠ [] →
        version.string.toList.findIdx (· == '-') = (dotted version.core).length)
      ∧ parsePrerelease version.string.toList
        (dotted version.core ++ marked '-' version.prerelease).length
        (version.string.toList.findIdx (· == '-')) = some version.prerelease := by
  have text := valid.toList_string
  have hyphenFree : '-' ∉ dotted version.core := notMem_core version (by decide) (by decide)
  by_cases release : version.prerelease = []
  · -- without a prerelease there is no hyphen
    have hyphen : version.string.toList.findIdx (· == '-') = version.string.toList.length := by
      refine findIdx_eq_length_of_false fun byte mem => ?_
      rw [text, release] at mem
      simp only [marked, isEmpty_nil, if_true, nil_append] at mem
      rw [beq_eq_false_iff_ne]
      rintro rfl
      rcases mem_append.mp mem with before | after
      · exact hyphenFree before
      · exact notMem_marked (valid.plain release) (by decide) (by decide) after
    refine ⟨?_, fun filled => absurd release filled, ?_⟩
    · rw [hyphen, text, length_append]
      omega
    · rw [hyphen, parsePrerelease, if_neg (by omega), release]
  · have hyphen : version.string.toList.findIdx (· == '-') = (dotted version.core).length := by
      rw [text]
      refine findIdx_append_of_notMem hyphenFree (.inr ?_)
      simp [marked, release]
    refine ⟨hyphen.ge, fun _ => hyphen, ?_⟩
    have starts : (dotted version.core).length < version.string.toList.length := by
      rw [text]
      simp [marked, release]
    rw [hyphen, parsePrerelease, if_pos starts, if_neg (by simp)]
    rw [text, ← append_assoc, take_left, ← drop_drop, drop_left]
    simp only [marked, List.isEmpty_iff, release, if_false, List.drop_succ_cons, List.drop_zero]
    exact identifiers_dotted release fun part mem =>
      ⟨(valid.prerelease part mem).1, fun _ => (valid.prerelease part mem).2⟩

theorem parseBuild_string (valid : version.Valid) :
    parseBuild version.string.toList
      (dotted version.core ++ marked '-' version.prerelease).length = some version.build := by
  unfold parseBuild
  rw [valid.toList_string, ← append_assoc]
  by_cases empty : version.build = []
  · simp [marked, empty]
  · rw [if_pos (by simp [marked, empty]), ← drop_drop, drop_left]
    simp only [marked, List.isEmpty_iff, empty, if_false, List.drop_succ_cons, List.drop_zero]
    exact identifiers_dotted empty fun part mem => ⟨valid.build part mem, by simp⟩

/-- **What is printed is parsed back.** -/
theorem parsePackageVersion_string (valid : version.Valid) :
    parsePackageVersion version.string = some version := by
  have text := valid.toList_string
  have plusFree : '+' ∉ dotted version.core ++ marked '-' version.prerelease := by
    rw [mem_append, not_or]
    refine ⟨notMem_core version (by decide) (by decide), notMem_marked (fun part mem => ?_)
      (by decide) (by decide)⟩
    exact notMem_versionIdentifier (valid.prerelease part mem).1 (by decide) (by decide)
  have build : version.string.toList.findIdx (· == '+')
      = (dotted version.core ++ marked '-' version.prerelease).length := by
    rw [text, ← append_assoc]
    exact findIdx_append_of_notMem plusFree (marked_head '+' _)
  obtain ⟨after, exactly, prerelease⟩ := parsePrerelease_string valid
  have end_core : min (dotted version.core ++ marked '-' version.prerelease).length
      (version.string.toList.findIdx (· == '-')) = (dotted version.core).length := by
    by_cases release : version.prerelease = []
    · rw [release]
      simpa [marked] using after
    · rw [exactly release, length_append]
      omega
  have core : (version.string.toList.take (dotted version.core).length).splitOn '.'
      = version.core.map String.toList := by
    rw [text, take_left]
    refine splitOn_dotted (by simp [PackageVersion.core]) fun part mem inside => ?_
    exact absurd (digit_of_mem_core mem inside) (by decide)
  unfold parsePackageVersion
  simp only [build, end_core, core, prerelease, parseBuild_string valid]
  simp only [PackageVersion.core, map_cons, map_nil, String.ofList_toList,
    number_toString]
  rfl

/-! ### Printing a requirement -/

theorem parsePackageRequirement_valid {text : String}
    (parsed : parsePackageRequirement text = some requirement) : requirement.Valid := by
  unfold parsePackageRequirement at parsed
  split at parsed
  · cases parsed
    exact ⟨⟨by simp, by simp, by simp⟩, fun _ => rfl⟩
  · split at parsed
    all_goals
      obtain ⟨_, read, rfl⟩ := Option.map_eq_some_iff.mp parsed
      exact ⟨parsePackageVersion_valid read, by simp⟩

theorem head?_string (valid : version.Valid) :
    ∃ byte, version.string.toList.head? = some byte ∧ isDigit byte = true := by
  rw [valid.toList_string]
  cases head : (toString version.major.toNat).toList with
  | nil => exact absurd (String.toList_eq_nil_iff.mp head) (word_digits _).1
  | cons x =>
    have mem : toString version.major.toNat ∈ version.core := mem_cons_self
    refine ⟨x, ?_, digit_of_mem_core mem (head ▸ mem_cons_self)⟩
    simp only [dotted, PackageVersion.core, map_cons, intercalate_cons_cons, head]
    rfl

/-- **What is printed is parsed back.** -/
theorem parsePackageRequirement_string (valid : requirement.Valid) :
    parsePackageRequirement requirement.string = some requirement := by
  have parsed := parsePackageVersion_string valid.version
  obtain ⟨_, head, digit⟩ := head?_string valid.version
  obtain ⟨kind, version⟩ := requirement
  cases kind with
  | any =>
    have empty : version = {} := valid.any rfl
    subst empty
    rfl
  | caret =>
    have ne : "^" ++ version.string ≠ "*" := by
      intro same
      have := congrArg (fun text => text.toList.head?) same
      simp at this
    simp [parsePackageRequirement, PackageRequirement.string, ne, parsed]
  | tilde =>
    have ne : "~" ++ version.string ≠ "*" := by
      intro same
      have := congrArg (fun text => text.toList.head?) same
      simp at this
    simp [parsePackageRequirement, PackageRequirement.string, ne, parsed]
  | exact =>
    simp only at head parsed
    have ne : version.string ≠ "*" := by
      intro same
      rw [same] at head
      cases head
      exact absurd digit (by decide)
    simp only [parsePackageRequirement, PackageRequirement.string, ne, if_false]
    split
    · rename_i rest bytes
      rw [bytes] at head
      cases head
      exact absurd digit (by decide)
    · rename_i rest bytes
      rw [bytes] at head
      cases head
      exact absurd digit (by decide)
    · rw [parsed]
      rfl

/-- **Versions and requirements are words.** -/
theorem word_version (valid : version.Valid) : Word version.string := by
  obtain ⟨_, head, _⟩ := head?_string valid
  refine ⟨fun empty => ?_, fun byte mem => ?_⟩
  · rw [empty] at head
    cases head
  · have parts (parts : List String) (each : ∀ part ∈ parts, versionIdentifier part.toList = true)
        (mem : byte ∈ dotted parts) : wordByte byte = true := by
      rcases mem_dotted mem with rfl | ⟨part, present, inside⟩
      · decide
      · rcases mem_versionIdentifier (each part present) inside with alnum | rfl
        · simp [wordByte, alnum]
        · decide
    have behind (mark : Char) (word : wordByte mark = true) (vs : List String)
        (each : ∀ part ∈ vs, versionIdentifier part.toList = true)
        (mem : byte ∈ marked mark vs) : wordByte byte = true := by
      unfold marked at mem
      split at mem
      · cases mem
      · rcases mem_cons.mp mem with same | later
        · exact same ▸ word
        · exact parts vs each later
    rw [valid.toList_string, mem_append, mem_append] at mem
    rcases mem with core | prerelease | build
    · rcases mem_dotted core with rfl | ⟨part, present, inside⟩
      · decide
      · simp [wordByte, isAlnum, digit_of_mem_core present inside]
    · exact behind '-' (by decide) _ (fun part mem => (valid.prerelease part mem).1) prerelease
    · exact behind '+' (by decide) _ valid.build build

theorem word_requirement (valid : requirement.Valid) : Word requirement.string := by
  have version := word_version valid.version
  unfold PackageRequirement.string
  split
  · decide
  · exact version
  · exact word_append (by decide) version
  · exact word_append (by decide) version

end FoundationLang.Package
