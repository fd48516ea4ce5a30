/-
**The two version codes side by side.**

The self-hosted code keeps a prerelease and a build metadata as one text, and it counts the upper
bound of a requirement up with the arithmetic of the language, which traps. So it parts from the
bootstrap code in two places:

* build metadata are compared as texts, where a hyphen comes before the dot that ends an identifier;
* the bound behind the greatest number has no value.

Everywhere else both codes accept the same texts, order them alike and admit the same versions.
-/
import FoundationLang.Selfhost.Version

namespace FoundationLang.Selfhost

open Package List

/-! ### Build metadata -/

/-- At the first identifiers that differ, one goes on behind a hyphen where the other ends and more
identifiers follow. -/
def hyphenMeetsDot : List String → List String → Bool
  | left :: lefts, right :: rights =>
    if left = right then hyphenMeetsDot lefts rights
    else (!lefts.isEmpty && (left.toList ++ ['-']).isPrefixOf right.toList)
      || (!rights.isEmpty && (right.toList ++ ['-']).isPrefixOf left.toList)
  | _, _ => false

/-- The order of byte strings. -/
abbrev compareBytes : List Char → List Char → Ordering :=
  List.compareLex compare

theorem compare_string (left right : String) :
    compare left right = compareBytes left.toList right.toList := by
  have lists : ∀ one two : List Char, compareOfLessAndEq one two = compareBytes one two := by
    intro one
    induction one with
    | nil =>
      intro two
      cases two <;> simp [compareOfLessAndEq, compareBytes, List.compareLex]
    | cons b rest ih =>
      intro two
      cases two with
      | nil => simp [compareOfLessAndEq, compareBytes, List.compareLex]
      | cons other others =>
        have onward : compareBytes (b :: rest) (other :: others)
            = (compareOfLessAndEq b other).then (compareOfLessAndEq rest others) := by
          rw [ih]
          exact List.compareLex_cons_cons
        rw [onward]
        unfold compareOfLessAndEq
        simp only [cons_lt_cons_iff, List.cons.injEq]
        rcases lt_trichotomy b other with less | same | greater
        · simp [less]
        · subst same
          simp
        · have ne : b ≠ other := ne_of_gt greater
          have above : ¬b < other := not_lt_of_gt greater
          simp [ne, above]
  rw [← lists]
  show compareOfLessAndEq left right = _
  unfold compareOfLessAndEq
  simp only [String.lt_iff_toList_lt, String.toList_inj]

theorem compareBytes_cons (b y : Char) (rest others : List Char) :
    compareBytes (b :: rest) (y :: others)
      = (compare b y).then (compareBytes rest others) :=
  List.compareLex_cons_cons

/-- A common beginning does not matter. -/
theorem compareBytes_append (common left right : List Char) :
    compareBytes (common ++ left) (common ++ right) = compareBytes left right := by
  induction common with
  | nil => rfl
  | cons b rest ih =>
    have self : compare b b = .eq := Std.ReflCmp.compare_self
    rw [cons_append, cons_append, compareBytes_cons, ih, self]
    rfl

theorem differ_cases {left right : List Char} (ne : left ≠ right) :
    (∃ common one two lefts rights, one ≠ two ∧ left = common ++ one :: lefts
        ∧ right = common ++ two :: rights)
      ∨ (∃ b rest, right = left ++ b :: rest) ∨ ∃ b rest, left = right ++ b :: rest := by
  induction left generalizing right with
  | nil =>
    cases right with
    | nil => exact absurd rfl ne
    | cons b rest => exact .inr (.inl ⟨b, rest, rfl⟩)
  | cons x rest ih =>
    cases right with
    | nil => exact .inr (.inr ⟨x, rest, rfl⟩)
    | cons y others =>
      by_cases same : x = y
      · subst same
        rcases ih fun equal => ne (by rw [equal]) with
          ⟨common, one, two, lefts, rights, apart, rfl, rfl⟩ | ⟨b, more, rfl⟩ | ⟨b, more, rfl⟩
        · exact .inl ⟨x :: common, one, two, lefts, rights, apart, rfl, rfl⟩
        · exact .inr (.inl ⟨b, more, rfl⟩)
        · exact .inr (.inr ⟨b, more, rfl⟩)
      · exact .inl ⟨[], x, y, rest, others, same, rfl, rfl⟩

/-- What stands behind the first identifier. -/
def behind (rest : List String) : List Char :=
  if rest.isEmpty then [] else '.' :: dotted rest

theorem dotted_cons (x : String) (rest : List String) :
    dotted (x :: rest) = x.toList ++ behind rest := by
  cases rest with
  | nil => simp [dotted, behind]
  | cons => simp [dotted, behind, intercalate_cons_cons]

/-- One identifier goes on where the other ends: a dot comes before a letter or a digit, and after
a hyphen. -/
theorem compare_longer {left right : String} {byte : Char} {more : List Char}
    (lefts rights : List String) (valid : versionIdentifier right.toList = true)
    (longer : right.toList = left.toList ++ byte :: more) :
    compare left right = .lt
      ∧ (compareBytes (dotted (left :: lefts)) (dotted (right :: rights)) = .lt
        ↔ hyphenMeetsDot (left :: lefts) (right :: rights) = false) := by
  have mem : byte ∈ right.toList := by simp [longer]
  have ne : left ≠ right := by
    rintro rfl
    have length := congrArg List.length longer
    simp at length
  have after : ((right.toList ++ ['-']).isPrefixOf left.toList) = false := by
    rw [Bool.eq_false_iff]
    intro before
    have length := (List.isPrefixOf_iff_prefix.mp before).length_le
    simp [longer] at length
  have joint : (left.toList ++ ['-']).isPrefixOf right.toList = (byte == '-') := by
    rw [longer, Bool.eq_iff_iff, isPrefixOf_iff_prefix, prefix_append_right_inj,
      cons_prefix_cons, beq_iff_eq]
    simp [eq_comm]
  refine ⟨?_, ?_⟩
  · have ends := compareBytes_append left.toList [] (byte :: more)
    rw [append_nil] at ends
    rw [compare_string, longer, ends]
    rfl
  · rw [dotted_cons, dotted_cons, longer, append_assoc, compareBytes_append, hyphenMeetsDot,
      if_neg ne, after, joint, Bool.and_false, Bool.or_false]
    cases lefts with
    | nil => simp [behind, compareBytes, List.compareLex]
    | cons =>
      show compareBytes ('.' :: _) (byte :: _) = .lt ↔ (byte == '-') = false
      rw [compareBytes_cons]
      rcases mem_versionIdentifier valid mem with alnum | rfl
      · have range := identifier_byte alnum
        have less : '.' < byte := by
          show '.'.toNat < byte.toNat
          have dot : '.'.toNat = 46 := rfl
          omega
        have word : byte ≠ '-' := by
          rintro rfl
          exact absurd alnum (by decide)
        have order : compare '.' byte = .lt := compare_lt_iff_lt.mpr less
        rw [order]
        simp [word]
      · have order : compare '.' '-' = .gt := by decide
        rw [order]
        simp

theorem compareBytes_swap (left right : List Char) :
    compareBytes left right = (compareBytes right left).swap :=
  Std.OrientedCmp.eq_swap

theorem hyphenMeetsDot_comm (left right : List String) :
    hyphenMeetsDot left right = hyphenMeetsDot right left := by
  induction left generalizing right with
  | nil => cases right <;> rfl
  | cons x rest ih =>
    cases right with
    | nil => rfl
    | cons y =>
      by_cases same : x = y
      · rw [hyphenMeetsDot, hyphenMeetsDot, if_pos same, if_pos same.symm, ih]
      · rw [hyphenMeetsDot, hyphenMeetsDot, if_neg same, if_neg (Ne.symm same), Bool.or_comm]

theorem compare_parted {left right : String} {common s t : List Char} {one two : Char}
    (lefts rights : List String) (apart : one ≠ two)
    (first : left.toList = common ++ one :: s)
    (second : right.toList = common ++ two :: t) :
    compareBytes (dotted (left :: lefts)) (dotted (right :: rights)) = compare left right
      ∧ compare left right ≠ .eq
      ∧ hyphenMeetsDot (left :: lefts) (right :: rights) = false := by
  have decided : compare one two ≠ .eq := fun equal => apart (compare_eq_iff_eq.mp equal)
  have text : compare left right = compare one two := by
    rw [compare_string, first, second, compareBytes_append, compareBytes_cons]
    cases order : compare one two with
    | eq => exact absurd order decided
    | lt | gt => rfl
  have ne : left ≠ right := by
    rintro rfl
    rw [first, append_cancel_left_eq, List.cons.injEq] at second
    exact apart second.1
  have never : ∀ {here there : List Char} {b y : Char} {tail : List Char}, b ≠ y →
      (common ++ b :: here ++ tail).isPrefixOf (common ++ y :: there) = false := by
    intro here there b y tail unequal
    rw [Bool.eq_false_iff, ne_eq, isPrefixOf_iff_prefix, append_assoc,
      prefix_append_right_inj, cons_append, cons_prefix_cons]
    exact fun both => unequal both.1
  refine ⟨?_, text ▸ decided, ?_⟩
  · rw [dotted_cons, dotted_cons, text, first, second, append_assoc, append_assoc,
      compareBytes_append, cons_append, cons_append, compareBytes_cons]
    cases order : compare one two with
    | eq => exact absurd order decided
    | lt | gt => rfl
  · rw [hyphenMeetsDot, if_neg ne, first, second, never apart, never (Ne.symm apart),
      Bool.and_false, Bool.and_false, Bool.or_false]

theorem compare_behind (x : String) (lefts rights : List String)
    (leftFilled : ∀ part ∈ lefts, part ≠ "") (rightFilled : ∀ part ∈ rights, part ≠ "") :
    compareBytes (dotted (x :: lefts)) (dotted (x :: rights))
      = compareBytes (dotted lefts) (dotted rights) := by
  have starts : ∀ (next : String) (others : List String), next ≠ "" →
      ∃ b rest, dotted (next :: others) = b :: rest := by
    intro next others filled
    have present : next.toList ≠ [] := by simpa using filled
    obtain ⟨b, rest, parts⟩ := exists_cons_of_ne_nil present
    exact ⟨b, rest ++ behind others, by rw [dotted_cons, parts, cons_append]⟩
  rw [dotted_cons, dotted_cons, compareBytes_append]
  cases lefts with
  | nil =>
    cases rights with
    | nil => rfl
    | cons right rights =>
      obtain ⟨b, rest, parts⟩ := starts right rights (rightFilled _ mem_cons_self)
      rw [parts]
      rfl
  | cons left lefts =>
    cases rights with
    | nil =>
      obtain ⟨_, _, parts⟩ := starts left lefts (leftFilled _ mem_cons_self)
      rw [parts]
      rfl
    | cons =>
      show compareBytes ('.' :: _) ('.' :: _) = _
      exact compareBytes_append ['.'] _ _

/-- **Joined identifiers are ordered as their lists, unless a hyphen meets a dot.** -/
theorem compare_join_iff {left right : List String} (one : Identifiers left)
    (two : Identifiers right) :
    compare (join left) (join right) = compareTexts left right
      ↔ hyphenMeetsDot left right = false := by
  rw [compare_string, toList_join_parts one.nonempty, toList_join_parts two.nonempty]
  induction left generalizing right with
  | nil =>
    cases right with
    | nil => simp [dotted, compareTexts, hyphenMeetsDot, compareBytes]
    | cons right rights =>
      have ends := compare_behind "" [] (right :: rights) (by simp) two.nonempty
      rw [← ends]
      simp [dotted_cons, behind, compareTexts, hyphenMeetsDot, compareBytes, List.compareLex]
  | cons left lefts ih =>
    cases right with
    | nil =>
      have ends := compare_behind "" (left :: lefts) [] one.nonempty (by simp)
      rw [← ends]
      simp [dotted_cons, behind, compareTexts, hyphenMeetsDot, compareBytes, List.compareLex]
    | cons right rights =>
      have leftValid := one left mem_cons_self
      have rightValid := two right mem_cons_self
      have leftRest : Identifiers lefts := fun part mem => one part (mem_cons_of_mem _ mem)
      have rightRest : Identifiers rights :=
        fun part mem => two part (mem_cons_of_mem _ mem)
      by_cases same : left = right
      · subst same
        have self : compare left left = .eq := Std.ReflCmp.compare_self
        rw [compare_behind _ _ _ leftRest.nonempty rightRest.nonempty, compareTexts, self,
          hyphenMeetsDot, if_pos rfl]
        exact ih leftRest rightRest
      · rw [compareTexts]
        rcases differ_cases fun equal => same (String.toList_inj.mp equal) with
          ⟨common, b, z, before, after, apart, x, y⟩
            | ⟨b, more, longer⟩ | ⟨b, more, longer⟩
        · obtain ⟨texts, decided, apart⟩ := compare_parted lefts rights apart x y
          rw [texts, apart]
          cases order : compare left right with
          | eq => exact absurd order decided
          | lt => simp
          | gt => simp
        · obtain ⟨less, bytes⟩ := compare_longer lefts rights rightValid longer
          rw [less]
          exact bytes
        · obtain ⟨less, bytes⟩ := compare_longer rights lefts leftValid longer
          have swapped : compare left right = (compare right left).swap := Std.OrientedCmp.eq_swap
          rw [swapped, less, hyphenMeetsDot_comm, ← bytes, compareBytes_swap]
          show _ = Ordering.gt ↔ _
          rw [Ordering.swap_eq_gt]

theorem join_inj {left right : List String} (one : Identifiers left) (two : Identifiers right)
    (same : join left = join right) : left = right := by
  have empty : left.isEmpty = right.isEmpty := by
    rw [← one.isEmpty_join, ← two.isEmpty_join, same]
  by_cases filled : left = []
  · subst filled
    exact (isEmpty_iff.mp empty.symm).symm
  · have other : right ≠ [] := by
      rintro rfl
      exact filled (isEmpty_iff.mp empty)
    rw [← one.split filled, ← two.split other, same]

/-! ### Orders of versions -/

/-- Two versions with the same precedence whose build metadata the self-hosted code confuses. -/
def buildsConfused (left right : Package.PackageVersion) : Bool :=
  comparePrecedence left right == .eq && hyphenMeetsDot left.build right.build

theorem identifiers_prerelease {v : Package.PackageVersion} (valid : v.Valid) :
    Identifiers v.prerelease :=
  fun part mem => (valid.prerelease part mem).1

theorem comparePackageVersion_eq {left right : Package.PackageVersion} (one : left.Valid)
    (two : right.Valid) :
    comparePackageVersion (joinVersion left) (joinVersion right)
      = some ((comparePrecedence left right).then (compare (join left.build) (join right.build))) := by
  unfold comparePackageVersion
  rw [comparePackagePrecedence_eq (identifiers_prerelease one) (identifiers_prerelease two)]
  cases comparePrecedence left right <;> rfl

/-- **The orders of versions agree, unless build metadata are confused.** -/
theorem comparePackageVersion_iff {left right : Package.PackageVersion} (one : left.Valid)
    (two : right.Valid) :
    comparePackageVersion (joinVersion left) (joinVersion right) = some (left.compareVersion right)
      ↔ buildsConfused left right = false := by
  rw [comparePackageVersion_eq one two, Option.some_inj, PackageVersion.compareVersion,
    buildsConfused]
  cases comparePrecedence left right with
  | lt | gt => simp
  | eq =>
    show compare (join left.build) (join right.build) = compareTexts left.build right.build ↔ _
    rw [compare_join_iff one.build two.build]
    simp

/-! ### Requirements agree -/

/-- The requirement that the self-hosted code keeps. -/
def joinRequirement (requirement : Package.PackageRequirement) : PackageRequirement :=
  ⟨requirement.kind, joinVersion requirement.version⟩

theorem packageSlice_tail {v : String} {first : Char} {rest : List Char}
    (aligned : Aligned v.toList) (parts : v.toList = first :: rest)
    (ascii : first.toNat < 0x80) :
    packageSlice v 1 v.toList.length = some (String.ofList rest)
      ∧ Aligned (String.ofList rest).toList := by
  have start : v.toList[0]? = some first := by rw [parts]; rfl
  have length : 1 ≤ v.toList.length := by simp [parts]
  have here : boundary v.toList 1 = true := aligned.boundary_succ start ascii
  have content : slice v.toList 1 v.toList.length = rest := by
    simp [slice, parts]
  refine ⟨?_, ?_⟩
  · rw [packageSlice_eq length (le_refl _) here boundary_length, content]
  · rw [String.toList_ofList, ← content]
    exact aligned.slice here

theorem map_joinRequirement (kind : PackageRequirementKind)
    (parsed : Option Package.PackageVersion) :
    ((parsed.map joinVersion).map fun version => (⟨kind, version⟩ : PackageRequirement))
      = (parsed.map fun version => (⟨kind, version⟩ : Package.PackageRequirement)).map
        joinRequirement := by
  cases parsed <;> rfl

/-- **Both codes accept the same requirements.** -/
theorem parsePackageRequirement_eq {v : String} (aligned : Aligned v.toList) :
    parsePackageRequirement v
      = some ((Package.parsePackageRequirement v).map joinRequirement) := by
  unfold parsePackageRequirement Package.parsePackageRequirement
  by_cases any : v = "*"
  · rw [if_pos any, if_pos any]
    rfl
  rw [if_neg any, if_neg any]
  have here : ∀ mark, (v.toList.head? == some mark) = true → ∃ rest, v.toList = mark :: rest := by
    intro mark head
    rw [beq_iff_eq] at head
    exact ⟨_, eq_cons_of_mem_head? head⟩
  by_cases caret : (v.toList.head? == some '^') = true
  · obtain ⟨rest, parts⟩ := here '^' caret
    obtain ⟨tail, sound⟩ := packageSlice_tail aligned parts (by decide)
    rw [if_pos caret, tail, parts]
    show ((parsePackageVersion (String.ofList rest)).bind fun parsed => some _) = _
    rw [parsePackageVersion_eq sound, Option.bind_some, map_joinRequirement]
    rfl
  rw [if_neg caret]
  by_cases tilde : (v.toList.head? == some '~') = true
  · obtain ⟨rest, parts⟩ := here '~' tilde
    obtain ⟨tail, sound⟩ := packageSlice_tail aligned parts (by decide)
    rw [if_pos tilde, tail, parts]
    show ((parsePackageVersion (String.ofList rest)).bind fun parsed => some _) = _
    rw [parsePackageVersion_eq sound, Option.bind_some, map_joinRequirement]
    rfl
  rw [if_neg tilde]
  show ((parsePackageVersion v).bind fun parsed => some _) = _
  rw [parsePackageVersion_eq aligned, Option.bind_some, map_joinRequirement]
  split
  · rename_i rest parts
    exact absurd (by rw [parts]; rfl) caret
  · rename_i rest parts
    exact absurd (by rw [parts]; rfl) tilde
  · rfl

/-! ### Acceptance -/

/-- The number that an upper bound raises. -/
def raisedNumber (requirement : Package.PackageRequirement) : UInt64 :=
  if requirement.kind = .tilde then requirement.version.minor
  else if requirement.version.major ≠ 0 then requirement.version.major
  else if requirement.version.minor ≠ 0 then requirement.version.minor
  else requirement.version.patch

/-- The range of a requirement goes up to the greatest number. -/
def unbounded (requirement : Package.PackageRequirement) : Bool :=
  raisedNumber requirement == 18446744073709551615

theorem raise_eq (v : UInt64) :
    raise v = if v == 18446744073709551615 then none else some (v + 1) := by
  have bound := v.toNat_lt
  by_cases greatest : v = 18446744073709551615
  · subst greatest
    rfl
  · have ne : v.toNat ≠ 18446744073709551615 := fun same =>
      greatest (UInt64.toNat_inj.mp same)
    rw [if_neg (by simpa using greatest), raise, if_pos (by omega)]

/-- **The upper bounds agree, or the self-hosted code panics.** -/
theorem packageRequirementUpperBound_eq (req : Package.PackageRequirement) :
    packageRequirementUpperBound (joinRequirement req)
      = if unbounded req then none else some (joinVersion (upperBound req)) := by
  have raised (v : UInt64) (self : UInt64 → PackageVersion) (y : Package.PackageVersion)
      (same : self (v + 1) = joinVersion y) :
      (raise v).map self
        = if v == 18446744073709551615 then none else some (joinVersion y) := by
    rw [raise_eq, ← same]
    split <;> rfl
  unfold packageRequirementUpperBound upperBound unbounded raisedNumber
  by_cases tilde : req.kind = .tilde
  · rw [if_pos tilde, if_pos tilde, if_pos (show (joinRequirement req).kind = _ from tilde)]
    exact raised _ _ _ rfl
  rw [if_neg tilde, if_neg tilde, if_neg (show (joinRequirement req).kind ≠ _ from tilde)]
  by_cases major : req.version.major ≠ 0
  · rw [if_pos major, if_pos major,
      if_pos (show (joinRequirement req).version.major ≠ 0 from major)]
    exact raised _ _ _ rfl
  rw [if_neg major, if_neg major,
    if_neg (show ¬(joinRequirement req).version.major ≠ 0 from major)]
  by_cases minor : req.version.minor ≠ 0
  · rw [if_pos minor, if_pos minor,
      if_pos (show (joinRequirement req).version.minor ≠ 0 from minor)]
    exact raised _ _ _ rfl
  rw [if_neg minor, if_neg minor,
    if_neg (show ¬(joinRequirement req).version.minor ≠ 0 from minor)]
  exact raised _ _ _ rfl

theorem upperBound_prerelease (req : Package.PackageRequirement) :
    (upperBound req).prerelease = [] := by
  unfold upperBound
  dsimp only
  split_ifs <;> rfl

/-- A range that the self-hosted code cannot end, asked for a version that is not below it. -/
def rangePanics (requirement : Package.PackageRequirement) (candidate : Package.PackageVersion) :
    Bool :=
  (requirement.kind == .caret || requirement.kind == .tilde)
    && comparePrecedence candidate requirement.version != .lt && unbounded requirement

/-- **Both codes admit the same versions, unless the self-hosted code panics.** -/
theorem packageRequirementAccepts_iff {req : Package.PackageRequirement}
    {c : Package.PackageVersion} (one : c.Valid) (two : req.version.Valid) :
    packageRequirementAccepts (joinRequirement req) (joinVersion c)
        = some (req.accepts c)
      ↔ rangePanics req c = false := by
  have ranged : (do
        if (← comparePackagePrecedence (joinVersion c) (joinVersion req.version)) = .lt
        then return false
        let upper ← packageRequirementUpperBound (joinRequirement req)
        return (← comparePackagePrecedence (joinVersion c) upper) == .lt : Checked Bool)
      = some (comparePrecedence c req.version != .lt &&
          comparePrecedence c (upperBound req) == .lt)
      ↔ (comparePrecedence c req.version != .lt && unbounded req)
          = false := by
    rw [comparePackagePrecedence_eq (identifiers_prerelease one) (identifiers_prerelease two),
      packageRequirementUpperBound_eq]
    cases below : comparePrecedence c req.version == .lt with
    | true =>
      rw [beq_iff_eq] at below
      simp [below]
    | false =>
      have free : Identifiers (upperBound req).prerelease := by
        rw [upperBound_prerelease]
        simp [Identifiers]
      rw [beq_eq_false_iff_ne] at below
      cases unbounded req with
      | true => simp [below]
      | false => simp [below, comparePackagePrecedence_eq (identifiers_prerelease one) free]
  unfold packageRequirementAccepts PackageRequirement.accepts rangePanics
  have joined : (joinRequirement req).kind = req.kind := rfl
  rw [joined]
  cases kind : req.kind with
  | any => simp
  | exact =>
    have same : ((comparePrecedence c req.version).then
        (compare (join c.build) (join req.version.build)) == .eq)
        = (c == req.version) := by
      rw [Bool.eq_iff_iff, beq_iff_eq, beq_iff_eq, Ordering.then_eq_eq]
      refine ⟨?_, fun equal => ?_⟩
      · rintro ⟨precedence, builds⟩
        have build := join_inj one.build two.build (compare_eq_iff_eq.mp builds)
        have compared : c.compareVersion req.version = .eq := by
          rw [PackageVersion.compareVersion, precedence, build]
          exact Std.ReflCmp.compare_self
        exact Std.LawfulEqCmp.eq_of_compare compared
      · rw [equal]
        exact ⟨Std.ReflCmp.compare_self, Std.ReflCmp.compare_self⟩
    show (comparePackageVersion (joinVersion c) (joinVersion req.version)).bind
      (fun order => some (order == .eq)) = some (c == req.version) ↔ _
    rw [comparePackageVersion_eq one two, Option.bind_some, same]
    simp
  | caret | tilde => simpa [joinRequirement, kind] using ranged

/-! ### Agreement -/

/-- **The two version codes agree** on two version texts and a requirement text: the self-hosted code
never panics, it accepts the same texts, it orders accepted versions alike and it admits an accepted
version where the bootstrap code does. -/
structure VersionCodeAgrees (left right requirement : String) : Prop where
  parses : parsePackageVersion left = some ((Package.parsePackageVersion left).map joinVersion)
  requires : parsePackageRequirement requirement
    = some ((Package.parsePackageRequirement requirement).map joinRequirement)
  ordering : ∀ one two, Package.parsePackageVersion left = some one →
    Package.parsePackageVersion right = some two →
    comparePackageVersion (joinVersion one) (joinVersion two) = some (one.compareVersion two)
  acceptance : ∀ candidate required, Package.parsePackageVersion left = some candidate →
    Package.parsePackageRequirement requirement = some required →
    packageRequirementAccepts (joinRequirement required) (joinVersion candidate)
      = some (required.accepts candidate)

/-- **Exactly when the two version codes agree.** -/
theorem versionCodeAgrees_iff (left right requirement : String) :
    VersionCodeAgrees (utf8 left) (utf8 right) (utf8 requirement)
      ↔ (∀ one two, Package.parsePackageVersion (utf8 left) = some one →
          Package.parsePackageVersion (utf8 right) = some two → buildsConfused one two = false)
        ∧ ∀ candidate required, Package.parsePackageVersion (utf8 left) = some candidate →
          Package.parsePackageRequirement (utf8 requirement) = some required →
          rangePanics required candidate = false := by
  constructor
  · intro agrees
    refine ⟨fun one two first second => ?_, fun candidate required first second => ?_⟩
    · exact (comparePackageVersion_iff (parsePackageVersion_valid first)
        (parsePackageVersion_valid second)).mp (agrees.ordering one two first second)
    · exact (packageRequirementAccepts_iff (parsePackageVersion_valid first)
        (parsePackageRequirement_valid second).version).mp
          (agrees.acceptance candidate required first second)
  · rintro ⟨builds, ranges⟩
    exact {
      parses := parsePackageVersion_eq (aligned_utf8 left)
      requires := parsePackageRequirement_eq (aligned_utf8 requirement)
      ordering := fun one two first second =>
        (comparePackageVersion_iff (parsePackageVersion_valid first)
          (parsePackageVersion_valid second)).mpr (builds one two first second)
      acceptance := fun candidate required first second =>
        (packageRequirementAccepts_iff (parsePackageVersion_valid first)
          (parsePackageRequirement_valid second).version).mpr
            (ranges candidate required first second) }

example : rangePanics ⟨.caret, { major := 18446744073709551615 }⟩
    { major := 18446744073709551615 } = true := by decide +kernel

/-- Of `a.b` and `a-b` the lists put the first below, the joined texts above. -/
theorem versionCode_disagrees :
    ¬VersionCodeAgrees (utf8 "1.0.0-x+a.b") (utf8 "1.0.0-x+a-b") (utf8 "*") := by
  intro agrees
  have wrong := agrees.ordering ⟨1, 0, 0, ["x"], ["a", "b"]⟩ ⟨1, 0, 0, ["x"], ["a-b"]⟩
    (by decide +kernel) (by decide +kernel)
  exact absurd wrong (by decide +kernel)

end FoundationLang.Selfhost
