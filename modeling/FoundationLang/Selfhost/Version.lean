/-
**Versions of the self-hosted compiler.**

`package_version.fn`. A version keeps its prerelease and its build metadata as texts and looks for
the dots again whenever it compares them; `joinVersion` is the version that the C++ code keeps as
lists of identifiers. Arithmetic is checked: a number that cannot be raised is a panic.
-/

import FoundationLang.Selfhost.Text

namespace FoundationLang.Selfhost

open Package List

variable {parts : List String} {value : String}

/-! ### Numbers and identifiers -/

/-- The loop of `parse.U64`. -/
def u64Loop (result : Nat) : List Char → Option Nat
  | [] => some result
  | byte :: rest =>
    if !isDigit byte then none
    else if (18446744073709551615 - (byte.toNat - 48)) / 10 < result then none
    else u64Loop (result * 10 + (byte.toNat - 48)) rest

/-- `parse.U64`. -/
def parseU64 (value : String) : Option UInt64 :=
  if value.toList.isEmpty then none else (u64Loop 0 value.toList).map UInt64.ofNat

/-- A number without leading zeros. -/
def parsePackageNumber (value : String) : Option UInt64 :=
  if value.toList.isEmpty then none
  else if 1 < value.toList.length && value.toList.head? == some '0' then none
  else parseU64 value

/-- One identifier between the dots. -/
def validVersionIdentifier (value : String) : Bool :=
  !value.toList.isEmpty && value.toList.all fun byte => isAlnum byte || byte == '-'

/-- A separator is found at or behind the start, and inside the text. -/
theorem findPackageByte_bounds {want : Char} {start i : Nat}
    (found : findPackageByte value want start = some i) :
    start ≤ i ∧ i < value.toList.length := by
  rcases findPackageByte_cases value want start with ⟨none, _⟩ | ⟨_, _, some, parts, _⟩
  · rw [none] at found
    cases found
  · rw [some] at found
    cases found
    exact ⟨Nat.le_add_right _ _, length_of_parts parts⟩

/-- The loop of `validPackageIdentifiers`. -/
def validIdentifiersFrom (value : String) (rejectLeadingZero : Bool) (start : Nat) :
    Checked Bool := do
  let part ← packageSlice value start
    ((findPackageByte value '.' start).getD value.toList.length)
  if !validVersionIdentifier part then return false
  if rejectLeadingZero && (1 < part.toList.length && part.toList.all isDigit
      && part.toList.head? == some '0') then return false
  match found : findPackageByte value '.' start with
  | none => return true
  | some offset => validIdentifiersFrom value rejectLeadingZero (offset + 1)
termination_by value.toList.length - start
decreasing_by
  have bounds := findPackageByte_bounds found
  omega

/-- All identifiers between the dots are valid. -/
def validPackageIdentifiers (value : String) (rejectLeadingZero : Bool) : Checked Bool :=
  if value.toList.isEmpty then some false else validIdentifiersFrom value rejectLeadingZero 0

/-! ### Versions -/

/-- A version; the parts behind `-` and `+` are texts. -/
structure PackageVersion where
  major : UInt64 := 0
  minor : UInt64 := 0
  patch : UInt64 := 0
  prerelease : String := ""
  build : String := ""
deriving DecidableEq, Repr, Inhabited

/-- The prerelease of a version text; the inner `none` is a rejection. -/
def parsePrerelease (value : String) (plus dash : Option Nat) : Checked (Option String) :=
  match dash with
  | none => some (some "")
  | some offset => do
    if plus.any (· < offset) then return none
    let prerelease ← packageSlice value (offset + 1) (plus.getD value.toList.length)
    if ← validPackageIdentifiers prerelease true then return some prerelease
    return none

/-- The build metadata of a version text. -/
def parseBuild (value : String) (plus : Option Nat) : Checked (Option String) :=
  match plus with
  | none => some (some "")
  | some offset => do
    let build ← packageSlice value (offset + 1) value.toList.length
    if ← validPackageIdentifiers build false then return some build
    return none

/-- The three numbers of a version text; the inner `none` is a rejection. -/
def parseCore (core : String) : Checked (Option (UInt64 × UInt64 × UInt64)) :=
  match findPackageByte core '.' 0 with
  | none => some none
  | some firstOffset =>
    match findPackageByte core '.' (firstOffset + 1) with
    | none => some none
    | some secondOffset =>
      match findPackageByte core '.' (secondOffset + 1) with
      | some _ => some none
      | none => do
        let major := parsePackageNumber (← packageSlice core 0 firstOffset)
        let minor := parsePackageNumber (← packageSlice core (firstOffset + 1) secondOffset)
        let patch := parsePackageNumber
          (← packageSlice core (secondOffset + 1) core.toList.length)
        match major, minor, patch with
        | some major, some minor, some patch => return some (major, minor, patch)
        | _, _, _ => return none

/-- `parsePackageVersion`; the inner `none` is a rejection. -/
def parsePackageVersion (value : String) : Checked (Option PackageVersion) := do
  let plus := findPackageByte value '+' 0
  let dash := findPackageByte value '-' 0
  let coreEnd := min (plus.getD value.toList.length) (dash.getD value.toList.length)
  match ← parseCore (← packageSlice value 0 coreEnd) with
  | none => return none
  | some (major, minor, patch) =>
    match ← parsePrerelease value plus dash with
    | none => return none
    | some prerelease =>
      match ← parseBuild value plus with
      | none => return none
      | some build => return some ⟨major, minor, patch, prerelease, build⟩

/-! ### Orders -/

/-- `comparePackageIdentifier`. The results of comparisons are only compared with zero: `Ordering`
is their sign. -/
def comparePackageIdentifier (left right : String) : Ordering :=
  match parsePackageNumber left, parsePackageNumber right with
  | some leftValue, some rightValue => compare leftValue rightValue
  | some _, none => .lt
  | none, some _ => .gt
  | none, none => compare left right

/-- The loop of `comparePackagePrerelease`. -/
def comparePrereleaseFrom (left right : String) (leftStart rightStart : Nat) :
    Checked Ordering := do
  let leftPart ← packageSlice left leftStart
    ((findPackageByte left '.' leftStart).getD left.toList.length)
  let rightPart ← packageSlice right rightStart
    ((findPackageByte right '.' rightStart).getD right.toList.length)
  let compared := comparePackageIdentifier leftPart rightPart
  if compared ≠ .eq then return compared
  match leftFound : findPackageByte left '.' leftStart, findPackageByte right '.' rightStart with
  | none, none => return .eq
  | none, some _ => return .lt
  | some _, none => return .gt
  | some leftOffset, some rightOffset =>
    comparePrereleaseFrom left right (leftOffset + 1) (rightOffset + 1)
termination_by left.toList.length - leftStart
decreasing_by
  have bounds := findPackageByte_bounds leftFound
  omega

/-- Prereleases by precedence; none is the highest. -/
def comparePackagePrerelease (left right : String) : Checked Ordering :=
  if left.toList.isEmpty || right.toList.isEmpty then
    if left.toList.isEmpty && right.toList.isEmpty then some .eq
    else if left.toList.isEmpty then some .gt else some .lt
  else comparePrereleaseFrom left right 0 0

/-- The precedence of two versions. -/
def comparePackagePrecedence (left right : PackageVersion) : Checked Ordering :=
  match (compare left.major right.major).then
      ((compare left.minor right.minor).then (compare left.patch right.patch)) with
  | .eq => comparePackagePrerelease left.prerelease right.prerelease
  | different => some different

/-- The precedence, and then the build metadata. -/
def comparePackageVersion (left right : PackageVersion) : Checked Ordering := do
  let precedence ← comparePackagePrecedence left right
  if precedence ≠ .eq then return precedence
  return compare left.build right.build

/-! ### Requirements -/

/-- A requirement on the version of a dependency. -/
structure PackageRequirement where
  kind : PackageRequirementKind := .exact
  version : PackageVersion := {}
deriving DecidableEq, Repr, Inhabited

/-- `parsePackageRequirement`; the inner `none` is a rejection. -/
def parsePackageRequirement (value : String) : Checked (Option PackageRequirement) :=
  if value = "*" then some (some ⟨.any, {}⟩)
  else do
    let (kind, versionText) ←
      if value.toList.head? == some '^' then
        (packageSlice value 1 value.toList.length).map (PackageRequirementKind.caret, ·)
      else if value.toList.head? == some '~' then
        (packageSlice value 1 value.toList.length).map (PackageRequirementKind.tilde, ·)
      else some (PackageRequirementKind.exact, value)
    return (← parsePackageVersion versionText).map fun version => ⟨kind, version⟩

/-- `+= 1` on a `u64`. -/
def raise (value : UInt64) : Checked UInt64 :=
  if value.toNat + 1 < 2 ^ 64 then some (value + 1) else none

/-- The first version that `^` or `~` excludes. -/
def packageRequirementUpperBound (requirement : PackageRequirement) : Checked PackageVersion :=
  let result := { requirement.version with prerelease := "", build := "" }
  if requirement.kind = .tilde then
    (raise result.minor).map fun minor => { result with minor := minor, patch := 0 }
  else if result.major ≠ 0 then
    (raise result.major).map fun major => { result with major := major, minor := 0, patch := 0 }
  else if result.minor ≠ 0 then
    (raise result.minor).map fun minor => { result with minor := minor, patch := 0 }
  else (raise result.patch).map fun patch => { result with patch := patch }

/-- A version meets a requirement. -/
def packageRequirementAccepts (requirement : PackageRequirement) (candidate : PackageVersion) :
    Checked Bool :=
  match requirement.kind with
  | .any => some true
  | .exact => do return (← comparePackageVersion candidate requirement.version) == .eq
  | .caret | .tilde => do
    if (← comparePackagePrecedence candidate requirement.version) = .lt then return false
    let upper ← packageRequirementUpperBound requirement
    return (← comparePackagePrecedence candidate upper) == .lt

example : comparePackageVersion ⟨1, 0, 0, "x", "a.b"⟩ ⟨1, 0, 0, "x", "a-b"⟩ = some .gt := by
  decide +kernel

/-! ### Numbers agree -/

/-- One more decimal digit. -/
abbrev pushDigit (value : Nat) (digit : Char) : Nat :=
  10 * value + (digit.toNat - '0'.toNat)

theorem le_foldl_pushDigit (ds : List Char) (value : Nat) :
    value ≤ ds.foldl pushDigit value := by
  induction ds generalizing value with
  | nil => exact le_refl _
  | cons digit rest ih =>
    have step : value ≤ pushDigit value digit := by
      unfold pushDigit
      omega
    exact step.trans (ih _)

/-- The loop stops at the first digit that makes the number too large. -/
theorem u64Loop_eq (ds : List Char) {r : Nat} (small : r < 2 ^ 64) :
    u64Loop r ds
      = if ds.all isDigit && ds.foldl pushDigit r < 2 ^ 64 then
          some (ds.foldl pushDigit r) else none := by
  induction ds generalizing r with
  | nil =>
    rw [all_nil, foldl_nil, Bool.true_and, if_pos (decide_eq_true small)]
    rfl
  | cons b rest ih =>
    rw [u64Loop, all_cons, foldl_cons]
    cases digit : isDigit b with
    | false => simp
    | true =>
      simp only [isDigit, Bool.and_eq_true, decide_eq_true_eq] at digit
      have low : 48 ≤ b.toNat := digit.1
      have high : b.toNat ≤ 57 := digit.2
      have zero : '0'.toNat = 48 := rfl
      have same : pushDigit r b = r * 10 + (b.toNat - 48) := by
        unfold pushDigit
        omega
      simp only [Bool.not_true, Bool.false_eq_true, if_false, Bool.true_and]
      rw [same]
      by_cases exceeds : (18446744073709551615 - (b.toNat - 48)) / 10 < r
      · have beyond : 2 ^ 64 ≤ r * 10 + (b.toNat - 48) := by omega
        have large := le_foldl_pushDigit rest (r * 10 + (b.toNat - 48))
        rw [if_pos exceeds, if_neg]
        simp only [Bool.and_eq_true, decide_eq_true_eq, not_and, not_lt]
        exact fun _ => beyond.trans large
      · rw [if_neg exceeds, ih (by omega)]

/-- **Both codes read the same numbers.** -/
theorem parsePackageNumber_eq (value : String) : parsePackageNumber value = number value := by
  unfold parsePackageNumber number parseU64
  generalize value.toList = ds
  cases ds with
  | nil => rfl
  | cons x rest =>
    simp only [isEmpty_cons, Bool.false_eq_true, if_false, Bool.false_or]
    rw [u64Loop_eq _ (by decide)]
    split
    · rfl
    · show Option.map _ (if _ && decide (digitsValue (x :: rest) < _) then
        some (digitsValue (x :: rest)) else none) = _
      split <;> rfl

theorem comparePackageIdentifier_eq (left right : String) :
    comparePackageIdentifier left right = compareIdentifier left right := by
  unfold comparePackageIdentifier
  rw [parsePackageNumber_eq, parsePackageNumber_eq]
  rfl

/-! ### Identifiers agree -/

theorem packageSlice_part (aligned : Aligned value.toList) {start : Nat}
    (inside : start ≤ value.toList.length) (here : boundary value.toList start = true) :
    (findPackageByte value '.' start = none ∧ '.' ∉ value.toList.drop start
        ∧ packageSlice value start value.toList.length
          = some (String.ofList (value.toList.drop start)))
      ∨ ∃ before after, findPackageByte value '.' start = some (start + before.length)
        ∧ packageSlice value start (start + before.length) = some (String.ofList before)
        ∧ (value.toList.drop start).splitOn '.' = before :: after.splitOn '.'
        ∧ value.toList.drop (start + before.length + 1) = after
        ∧ start + before.length + 1 ≤ value.toList.length
        ∧ boundary value.toList (start + before.length + 1) = true := by
  have dot : '.'.toNat < 0x80 := by decide
  rcases findPackageByte_cases value '.' start with
    ⟨none, absent⟩ | ⟨before, after, found, parts, absent⟩
  · refine .inl ⟨none, absent, ?_⟩
    rw [packageSlice_eq inside (le_refl _) here boundary_length]
    simp [slice]
  · refine .inr ⟨before, after, found, ?_, splitOn_of_parts parts absent, drop_after parts,
      length_of_parts parts, aligned.boundary_succ (getElem?_separator parts) dot⟩
    have stop := boundary_of_ascii (getElem?_separator parts) dot
    rw [packageSlice_eq (Nat.le_add_right _ _) (le_of_lt (length_of_parts parts)) here stop,
      slice_before parts]

/-- The parts that `identifiers` accepts. -/
def acceptedPart (rejectLeadingZero : Bool) (part : List Char) : Bool :=
  versionIdentifier part && !(rejectLeadingZero && leadingZero part)

theorem check_part (strict : Bool) (part : List Char) (rest : Checked Bool) :
    (if !validVersionIdentifier (String.ofList part) then pure false
      else if strict && (1 < (String.ofList part).toList.length
          && (String.ofList part).toList.all isDigit
          && (String.ofList part).toList.head? == some '0') then pure false
      else rest)
      = if acceptedPart strict part then rest else some false := by
  rw [String.toList_ofList]
  show (if !(!(String.ofList part).toList.isEmpty && (String.ofList part).toList.all _) then _
    else _) = _
  rw [String.toList_ofList]
  show (if !versionIdentifier part then some false
    else if strict && leadingZero part then some false else rest) = _
  unfold acceptedPart
  cases versionIdentifier part <;> cases strict && leadingZero part <;> rfl

theorem validIdentifiersFrom_eq (aligned : Aligned value.toList) (strict : Bool)
    {start : Nat} (inside : start ≤ value.toList.length) (here : boundary value.toList start = true) :
    validIdentifiersFrom value strict start
      = some (((value.toList.drop start).splitOn '.').all (acceptedPart strict)) := by
  generalize size : value.toList.length - start = left
  induction left using Nat.strong_induction_on generalizing start with
  | _ left ih =>
    rw [validIdentifiersFrom]
    rcases packageSlice_part aligned inside here with
      ⟨none, absent, part⟩ | ⟨before, after, found, part, split, rest, inside', here'⟩
    · rw [none, Option.getD_none, part, splitOn_eq_singleton absent]
      refine (check_part strict (value.toList.drop start) (some true)).trans ?_
      rw [all_cons, all_nil, Bool.and_true]
      cases acceptedPart strict (value.toList.drop start) <;> rfl
    · have next := ih (value.toList.length - (start + before.length + 1)) (by omega) inside'
        here' rfl
      rw [rest] at next
      rw [found, Option.getD_some, part, split, all_cons]
      refine (check_part strict before
        (validIdentifiersFrom value strict (start + before.length + 1))).trans ?_
      rw [next]
      cases acceptedPart strict before <;> rfl

/-- **Both codes accept the same identifiers.** -/
theorem validPackageIdentifiers_eq (aligned : Aligned value.toList) (strict : Bool) :
    validPackageIdentifiers value strict
      = some (identifiers value.toList strict).isSome := by
  have parts : (identifiers value.toList strict).isSome
      = (value.toList.splitOn '.').all (acceptedPart strict) := by
    unfold identifiers acceptedPart
    simp only
    split
    · rename_i all
      rw [all]
      rfl
    · rename_i none
      rw [Bool.not_eq_true] at none
      rw [none]
      rfl
  unfold validPackageIdentifiers
  split
  · rename_i empty
    rw [List.isEmpty_iff] at empty
    rw [parts, empty]
    cases strict <;> rfl
  · rw [validIdentifiersFrom_eq aligned strict (Nat.zero_le _) aligned.boundary_zero,
      parts, drop_zero]

/-! ### Versions agree -/

/-- The same version, with its identifiers joined. -/
def joinVersion (version : Package.PackageVersion) : PackageVersion :=
  ⟨version.major, version.minor, version.patch, join version.prerelease, join version.build⟩

theorem join_identifiers {text : List Char} {strict : Bool}
    (parsed : identifiers text strict = some parts) :
    join parts = String.ofList text := by
  unfold identifiers at parsed
  simp only at parsed
  split at parsed
  · rename_i all
    cases parsed
    have nonempty : ∀ part ∈ (text.splitOn '.').map String.ofList, part ≠ "" := by
      intro part mem
      obtain ⟨source, present, rfl⟩ := mem_map.mp mem
      have valid := all_eq_true.mp all source present
      rw [Bool.and_eq_true] at valid
      exact ne_empty_of_versionIdentifier (by rw [String.toList_ofList]; exact valid.1)
    apply String.toList_inj.mp
    rw [toList_join_parts nonempty, String.toList_ofList, dotted, map_map]
    have same : (String.toList ∘ String.ofList) = id := by
      funext part
      exact String.toList_ofList
    rw [same, map_id]
    exact intercalate_splitOn '.'
  · cases parsed

theorem findPackageByte_getD (value : String) (want : Char) :
    (findPackageByte value want 0).getD value.toList.length
      = value.toList.findIdx (· == want)
    ∧ ((findPackageByte value want 0).isSome
      ↔ value.toList.findIdx (· == want) < value.toList.length) := by
  rcases findPackageByte_cases value want 0 with
    ⟨none, absent⟩ | ⟨before, after, found, parts, absent⟩
  · rw [drop_zero] at absent
    have index : value.toList.findIdx (· == want) = value.toList.length :=
      findIdx_eq_length.mpr fun b mem => by
        simpa using fun same : b = want => absent (same ▸ mem)
    simp [none, index]
  · rw [drop_zero] at parts
    have index : value.toList.findIdx (· == want) = before.length := by
      rw [parts]
      exact findIdx_append_of_notMem absent (by simp)
    have inside : before.length < value.toList.length := by simp [parts]
    simp [found, index, inside]

section Offsets

variable {bytes : List Char} {mark : Char}

theorem getElem?_findIdx (inside : bytes.findIdx (· == mark) < bytes.length) :
    bytes[bytes.findIdx (· == mark)]? = some mark := by
  rw [List.getElem?_eq_getElem inside]
  have here : (bytes[bytes.findIdx (· == mark)] == mark) = true := findIdx_getElem (w := inside)
  rw [beq_iff_eq] at here
  rw [here]

theorem boundary_findIdx (ascii : mark.toNat < 0x80) :
    boundary bytes (bytes.findIdx (· == mark)) = true := by
  rcases Nat.lt_or_ge (bytes.findIdx (· == mark)) bytes.length with inside | outside
  · exact boundary_of_ascii (getElem?_findIdx inside) ascii
  · rw [Nat.le_antisymm findIdx_le_length outside]
    exact boundary_length

/-- A search from the start, as an offset up to the length. -/
theorem findPackageByte_eq (value : String) (want : Char) :
    findPackageByte value want 0
      = if value.toList.findIdx (· == want) < value.toList.length then
          some (value.toList.findIdx (· == want)) else none := by
  obtain ⟨offset, present⟩ := findPackageByte_getD value want
  cases found : findPackageByte value want 0 with
  | none =>
    rw [found] at present
    rw [if_neg (by simpa using present)]
  | some =>
    rw [found] at offset present
    rw [if_pos (present.mp rfl), ← offset]
    rfl

end Offsets

theorem checked_identifiers {text : List Char} (aligned : Aligned text) (strict : Bool) :
    (do if ← validPackageIdentifiers (String.ofList text) strict then
          return some (String.ofList text)
        return none : Checked (Option String))
      = some ((identifiers text strict).map join) := by
  have valid : validPackageIdentifiers (String.ofList text) strict
      = some (identifiers (String.ofList text).toList strict).isSome :=
    validPackageIdentifiers_eq (by rw [String.toList_ofList]; exact aligned) strict
  rw [String.toList_ofList] at valid
  rw [valid]
  cases parsed : identifiers text strict with
  | none => rfl
  | some =>
    rw [Option.map_some, join_identifiers parsed]
    rfl

theorem parsePrerelease_eq (aligned : Aligned value.toList) :
    parsePrerelease value (findPackageByte value '+' 0) (findPackageByte value '-' 0)
      = some ((Package.parsePrerelease value.toList (value.toList.findIdx (· == '+'))
        (value.toList.findIdx (· == '-'))).map join) := by
  have stop := (findPackageByte_getD value '+').1
  have plus := findPackageByte_eq value '+'
  have most : value.toList.findIdx (· == '+') ≤ value.toList.length := findIdx_le_length
  unfold parsePrerelease Package.parsePrerelease
  rw [findPackageByte_eq value '-']
  by_cases inside : value.toList.findIdx (· == '-') < value.toList.length
  · have hyphen := getElem?_findIdx inside
    have earlier : (findPackageByte value '+' 0).any (· < value.toList.findIdx (· == '-'))
        = decide (value.toList.findIdx (· == '+') < value.toList.findIdx (· == '-')) := by
      rw [plus]
      split
      · rfl
      · simp only [Option.any_none]
        exact (decide_eq_false (by omega)).symm
    rw [if_pos inside, if_pos inside]
    simp only [earlier, decide_eq_true_eq, stop]
    by_cases before : value.toList.findIdx (· == '+') < value.toList.findIdx (· == '-')
    · rw [if_pos before, if_pos before]
      rfl
    · rw [if_neg before, if_neg before]
      have behind : value.toList.findIdx (· == '-') + 1 ≤ value.toList.findIdx (· == '+') := by
        rcases Nat.lt_or_ge (value.toList.findIdx (· == '+')) value.toList.length with found | outside
        · have apart : value.toList.findIdx (· == '+') ≠ value.toList.findIdx (· == '-') := by
            intro same
            have mark := getElem?_findIdx found
            rw [same, hyphen] at mark
            cases mark
          omega
        · omega
      have here := aligned.boundary_succ hyphen (by decide)
      rw [packageSlice_eq behind most here (boundary_findIdx (by decide))]
      exact checked_identifiers (aligned.slice here) true
  · rw [if_neg inside, if_neg inside]
    rfl

theorem parseBuild_eq (aligned : Aligned value.toList) :
    parseBuild value (findPackageByte value '+' 0)
      = some ((Package.parseBuild value.toList (value.toList.findIdx (· == '+'))).map join) := by
  unfold parseBuild Package.parseBuild
  rw [findPackageByte_eq value '+']
  by_cases inside : value.toList.findIdx (· == '+') < value.toList.length
  · have here := aligned.boundary_succ (getElem?_findIdx inside) (by decide)
    have whole : slice value.toList (value.toList.findIdx (· == '+') + 1) value.toList.length
        = value.toList.drop (value.toList.findIdx (· == '+') + 1) := by
      simp [slice]
    rw [if_pos inside, if_pos inside]
    simp only
    rw [packageSlice_eq inside (Nat.le_refl _) here boundary_length, whole]
    refine checked_identifiers ?_ false
    rw [← whole]
    exact aligned.slice here
  · rw [if_neg inside, if_neg inside]
    rfl

/-- The three numbers as the C++ code finds them. -/
def splitCore (core : List Char) : Option (UInt64 × UInt64 × UInt64) :=
  match core.splitOn '.' with
  | [major, minor, patch] => do
    let major ← number (String.ofList major)
    let minor ← number (String.ofList minor)
    let patch ← number (String.ofList patch)
    some (major, minor, patch)
  | _ => none

theorem parseCore_eq {core : String} (aligned : Aligned core.toList) :
    parseCore core = some (splitCore core.toList) := by
  unfold parseCore splitCore
  rcases packageSlice_part aligned (Nat.zero_le _) aligned.boundary_zero with
    ⟨missing, absent, _⟩ | ⟨x, rest, found, firstPart, split, drop, inside, here⟩
  · rw [drop_zero] at absent
    rw [missing, splitOn_eq_singleton absent]
  · rw [drop_zero] at split
    rw [Nat.zero_add] at *
    rw [found, split]
    simp only
    rcases packageSlice_part aligned inside here with
      ⟨missing, absent, _⟩ | ⟨y, last, found', secondPart, split', drop', inside', here'⟩
    · rw [drop] at absent
      rw [missing, splitOn_eq_singleton absent]
    · rw [drop] at split'
      rw [found', split']
      simp only
      rcases packageSlice_part aligned inside' here' with
        ⟨missing, absent, thirdPart⟩ | ⟨third, more, found'', _, split'', _, _, _⟩
      · rw [drop'] at absent thirdPart
        rw [missing, splitOn_eq_singleton absent, firstPart, secondPart, thirdPart]
        simp only [parsePackageNumber_eq]
        show (match number (String.ofList x), number (String.ofList y),
          number (String.ofList last) with
          | some major, some minor, some patch => some (some (major, minor, patch))
          | _, _, _ => some none) = _
        cases number (String.ofList x) <;> cases number (String.ofList y) <;>
          cases number (String.ofList last) <;> rfl
      · rw [drop'] at split''
        rw [found'', split'']
        cases tail : more.splitOn '.' with
        | nil => exact absurd tail (splitOn_ne_nil '.' more)
        | cons => rfl

/-- **Both codes accept the same version texts**, and read the same version from them. -/
theorem parsePackageVersion_eq (aligned : Aligned value.toList) :
    parsePackageVersion value = some ((Package.parsePackageVersion value).map joinVersion) := by
  have stop : boundary value.toList (min (value.toList.findIdx (· == '+'))
      (value.toList.findIdx (· == '-'))) = true := by
    rcases Nat.le_total (value.toList.findIdx (· == '+')) (value.toList.findIdx (· == '-')) with
      first | first
    · rw [Nat.min_eq_left first]
      exact boundary_findIdx (by decide)
    · rw [Nat.min_eq_right first]
      exact boundary_findIdx (by decide)
  have most : min (value.toList.findIdx (· == '+')) (value.toList.findIdx (· == '-'))
      ≤ value.toList.length := (Nat.min_le_left _ _).trans findIdx_le_length
  have core : slice value.toList 0 (min (value.toList.findIdx (· == '+'))
      (value.toList.findIdx (· == '-'))) = value.toList.take (min (value.toList.findIdx (· == '+'))
      (value.toList.findIdx (· == '-'))) := rfl
  have read : parseCore (String.ofList (value.toList.take (min (value.toList.findIdx (· == '+'))
      (value.toList.findIdx (· == '-'))))) = some (splitCore (value.toList.take
        (min (value.toList.findIdx (· == '+')) (value.toList.findIdx (· == '-'))))) := by
    rw [parseCore_eq, String.toList_ofList]
    rw [String.toList_ofList, ← core]
    exact aligned.slice aligned.boundary_zero
  unfold parsePackageVersion Package.parsePackageVersion
  simp only [(findPackageByte_getD value '+').1, (findPackageByte_getD value '-').1]
  rw [packageSlice_eq (Nat.zero_le _) most aligned.boundary_zero stop, core,
    parsePrerelease_eq aligned, parseBuild_eq aligned]
  simp only [Option.bind_eq_bind, Option.bind_some, read]
  unfold splitCore
  generalize (value.toList.take _).splitOn '.' = parts
  rcases parts with _ | ⟨first, _ | ⟨y, _ | ⟨third, _ | ⟨_, _⟩⟩⟩⟩
  · rfl
  · rfl
  · rfl
  · simp only [Option.bind_eq_bind]
    cases number (String.ofList first) <;> cases number (String.ofList y) <;>
      cases number (String.ofList third) <;> try rfl
    cases Package.parsePrerelease value.toList (value.toList.findIdx (· == '+'))
      (value.toList.findIdx (· == '-')) <;> try rfl
    cases Package.parseBuild value.toList (value.toList.findIdx (· == '+')) <;> rfl
  · rfl

/-! ### Orders agree -/

/-- The identifiers of a text from an offset on. -/
abbrev identifiersFrom (value : String) (start : Nat) : List String :=
  ((value.toList.drop start).splitOn '.').map String.ofList

theorem compare_parts (left right : List Char) {rest : Checked Ordering} {order : Ordering}
    (known : rest = some order) :
    (if comparePackageIdentifier (String.ofList left) (String.ofList right) ≠ .eq then
        pure (comparePackageIdentifier (String.ofList left) (String.ofList right)) else rest)
      = some ((compareIdentifier (String.ofList left) (String.ofList right)).then order) := by
  rw [comparePackageIdentifier_eq, known]
  cases compareIdentifier (String.ofList left) (String.ofList right) <;> rfl

theorem comparePrereleaseFrom_eq {left right : String} (leftAligned : Aligned left.toList)
    (rightAligned : Aligned right.toList) {leftStart rightStart : Nat}
    (leftInside : leftStart ≤ left.toList.length) (rightInside : rightStart ≤ right.toList.length)
    (leftHere : boundary left.toList leftStart = true)
    (rightHere : boundary right.toList rightStart = true) :
    comparePrereleaseFrom left right leftStart rightStart
      = some (compareIdentifiers (identifiersFrom left leftStart)
        (identifiersFrom right rightStart)) := by
  generalize size : left.toList.length - leftStart = remaining
  induction remaining using Nat.strong_induction_on generalizing leftStart rightStart with
  | _ remaining ih =>
    rw [comparePrereleaseFrom]
    rcases packageSlice_part leftAligned leftInside leftHere with
      ⟨leftMissing, leftAbsent, leftPart⟩
        | ⟨leftFirst, leftRest, leftFound, leftPart, leftSplit, leftDrop, leftNext, leftBound⟩
    · rcases packageSlice_part rightAligned rightInside rightHere with
        ⟨rightMissing, rightAbsent, rightPart⟩
          | ⟨rightFirst, rightRest, rightFound, rightPart, rightSplit, _⟩
      · rw [leftMissing, rightMissing, Option.getD_none, Option.getD_none, leftPart, rightPart,
          identifiersFrom, identifiersFrom, splitOn_eq_singleton leftAbsent,
          splitOn_eq_singleton rightAbsent]
        exact compare_parts _ _ rfl
      · obtain ⟨next, others, tail⟩ :=
          exists_cons_of_ne_nil (splitOn_ne_nil '.' rightRest)
        rw [leftMissing, rightFound, Option.getD_none, Option.getD_some, leftPart, rightPart,
          identifiersFrom, identifiersFrom, splitOn_eq_singleton leftAbsent, rightSplit, tail]
        exact compare_parts _ _ rfl
    · rcases packageSlice_part rightAligned rightInside rightHere with
        ⟨rightMissing, rightAbsent, rightPart⟩
          | ⟨rightFirst, rightRest, rightFound, rightPart, rightSplit, rightDrop, rightNext,
            rightBound⟩
      · obtain ⟨next, others, tail⟩ :=
          exists_cons_of_ne_nil (splitOn_ne_nil '.' leftRest)
        rw [leftFound, rightMissing, Option.getD_none, Option.getD_some, leftPart, rightPart,
          identifiersFrom, identifiersFrom, splitOn_eq_singleton rightAbsent, leftSplit, tail]
        exact compare_parts _ _ rfl
      · have onward := ih (left.toList.length - (leftStart + leftFirst.length + 1)) (by omega)
          leftNext rightNext leftBound rightBound rfl
        rw [identifiersFrom, identifiersFrom, leftDrop, rightDrop] at onward
        rw [leftFound, rightFound, Option.getD_some, Option.getD_some, leftPart, rightPart,
          identifiersFrom, identifiersFrom, leftSplit, rightSplit]
        exact compare_parts _ _ onward

theorem aligned_of_ascii {bytes : List Char} (ascii : ∀ b ∈ bytes, b.toNat < 0x80) :
    Aligned bytes := by
  have outside : ∀ b ∈ bytes, continuation b = false := by
    intro b mem
    have small := ascii b mem
    simp only [continuation, Bool.and_eq_false_iff, decide_eq_false_iff_not]
    omega
  refine ⟨fun b found => outside b (mem_of_head? found), ?_⟩
  refine List.Pairwise.isChain (List.Pairwise.imp_of_mem (fun _ two _ _ => outside _ two)
    (pairwise_of_forall (fun _ _ => trivial)))

/-- The identifiers of a version, as the parsers accept them. -/
def Identifiers (parts : List String) : Prop :=
  ∀ part ∈ parts, versionIdentifier part.toList = true

theorem identifier_byte {b : Char} (alnum : isAlnum b = true) :
    (48 ≤ b.toNat ∧ b.toNat ≤ 57) ∨ (65 ≤ b.toNat ∧ b.toNat ≤ 90)
      ∨ (97 ≤ b.toNat ∧ b.toNat ≤ 122) := by
  simp only [isAlnum, isAlpha, isDigit, Bool.or_eq_true, Bool.and_eq_true, decide_eq_true_eq] at alnum
  rcases alnum with (upper | lower) | digit
  · exact .inr (.inl upper)
  · exact .inr (.inr lower)
  · exact .inl digit

section

variable (valid : Identifiers parts)
include valid

theorem Identifiers.nonempty : ∀ part ∈ parts, part ≠ "" :=
  fun part mem => ne_empty_of_versionIdentifier (valid part mem)

theorem Identifiers.undotted : ∀ part ∈ parts, '.' ∉ part.toList :=
  fun part mem => notMem_versionIdentifier (valid part mem) (by decide) (by decide)

theorem Identifiers.aligned : Aligned (join parts).toList := by
  rw [toList_join_parts valid.nonempty]
  refine aligned_of_ascii fun b mem => ?_
  rcases mem_dotted mem with rfl | ⟨part, present, inside⟩
  · decide
  · rcases mem_versionIdentifier (valid part present) inside with alnum | rfl
    · have range := identifier_byte alnum
      omega
    · decide

theorem Identifiers.isEmpty_join :
    (join parts).toList.isEmpty = parts.isEmpty := by
  rw [toList_join_parts valid.nonempty]
  cases parts with
  | nil => rfl
  | cons x rest =>
    have filled := valid.nonempty x mem_cons_self
    cases rest with
    | nil => simpa [dotted] using filled
    | cons => simp [dotted, intercalate_cons_cons]

theorem Identifiers.split (filled : parts ≠ []) :
    identifiersFrom (join parts) 0 = parts := by
  rw [identifiersFrom, drop_zero, toList_join_parts valid.nonempty,
    splitOn_dotted filled valid.undotted, map_map]
  simp [Function.comp_def]

end

/-- **Both codes order prereleases alike.** -/
theorem comparePackagePrerelease_eq {left right : List String} (one : Identifiers left)
    (two : Identifiers right) :
    comparePackagePrerelease (join left) (join right) = some (comparePrerelease left right) := by
  unfold comparePackagePrerelease comparePrerelease
  rw [one.isEmpty_join, two.isEmpty_join]
  cases left with
  | nil => cases right <;> rfl
  | cons =>
    cases right with
    | nil => rfl
    | cons =>
      show comparePrereleaseFrom _ _ 0 0 = _
      rw [comparePrereleaseFrom_eq one.aligned two.aligned (Nat.zero_le _) (Nat.zero_le _)
        one.aligned.boundary_zero two.aligned.boundary_zero, one.split (by simp),
        two.split (by simp)]
      rfl

/-- **Both codes give the same precedence.** -/
theorem comparePackagePrecedence_eq {left right : Package.PackageVersion}
    (one : Identifiers left.prerelease) (two : Identifiers right.prerelease) :
    comparePackagePrecedence (joinVersion left) (joinVersion right)
      = some (comparePrecedence left right) := by
  unfold comparePackagePrecedence comparePrecedence joinVersion
  simp only [comparePackagePrerelease_eq one two]
  cases compare left.major right.major <;> cases compare left.minor right.minor <;>
    cases compare left.patch right.patch <;> rfl

end FoundationLang.Selfhost
