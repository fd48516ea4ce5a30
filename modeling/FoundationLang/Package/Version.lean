/-
**Package versions and requirements.**

`PackageVersion` and `PackageRequirement` of `package.hpp`, with the functions of `package.cpp` that
the resolver calls: the precedence of two versions, the total order that also looks at build
metadata, and acceptance of a version by a requirement. `std::size_t` is `UInt64`, so `upperBound`
wraps exactly where the source's `++` does.
-/

import Mathlib.Data.String.Basic
import Std.Data.TreeMap

namespace FoundationLang.Package

/-! ### Versions -/

/-- A version; the identifiers between the dots are texts. -/
structure PackageVersion where
  major : UInt64 := 0
  minor : UInt64 := 0
  patch : UInt64 := 0
  prerelease : List String := []
  build : List String := []
deriving DecidableEq, Repr, Inhabited

/-- The decimal digits `std::from_chars` accepts. -/
def isDigit (character : Char) : Bool :=
  '0' ≤ character && character ≤ '9'

/-- The value of a digit string, most significant digit first. -/
def digitsValue (digits : List Char) : Nat :=
  digits.foldl (fun value digit => 10 * value + (digit.toNat - '0'.toNat)) 0

/-- `number`: a decimal `std::size_t` without leading zeros. -/
def number (text : String) : Option UInt64 :=
  let digits := text.toList
  if digits.isEmpty || (1 < digits.length && digits.head? == some '0') then none
  else if digits.all isDigit && digitsValue digits < 2 ^ 64 then
    some (UInt64.ofNat (digitsValue digits))
  else none

/-- `join`: the identifiers of a version, separated by dots. The separator is guarded by the text
so far being empty, not by the position. -/
def join (values : List String) : String :=
  values.foldl (fun result value => (if result.isEmpty then result else result.push '.') ++ value) ""

/-- `PackageVersion::string`. -/
def PackageVersion.string (version : PackageVersion) : String :=
  let core := toString version.major.toNat ++ "." ++ toString version.minor.toNat ++ "." ++
    toString version.patch.toNat
  let core := if version.prerelease.isEmpty then core else core ++ "-" ++ join version.prerelease
  if version.build.isEmpty then core else core ++ "+" ++ join version.build

/-- One identifier of a prerelease against another: numbers by value, a number below a word, words
by their bytes. -/
def compareIdentifier (left right : String) : Ordering :=
  match number left, number right with
  | some leftNumber, some rightNumber => compare leftNumber rightNumber
  | some _, none => .lt
  | none, some _ => .gt
  | none, none => compare left right

/-- The loop of `comparePrerelease` over the common positions; a proper prefix is the lower one. -/
def compareIdentifiers : List String → List String → Ordering
  | [], [] => .eq
  | [], _ :: _ => .lt
  | _ :: _, [] => .gt
  | left :: lefts, right :: rights =>
    (compareIdentifier left right).then (compareIdentifiers lefts rights)

/-- `comparePrerelease`: a release is above each of its prereleases. -/
def comparePrerelease (left right : List String) : Ordering :=
  if left.isEmpty || right.isEmpty then
    if left.isEmpty && right.isEmpty then .eq
    else if left.isEmpty then .gt else .lt
  else compareIdentifiers left right

/-- `comparePrecedence`: the three core numbers, then the prerelease. -/
def comparePrecedence (left right : PackageVersion) : Ordering :=
  (compare left.major right.major).then <|
    (compare left.minor right.minor).then <|
      (compare left.patch right.patch).then (comparePrerelease left.prerelease right.prerelease)

/-- `operator<=>` of two string vectors, as `std::vector` compares them. -/
def compareTexts : List String → List String → Ordering
  | [], [] => .eq
  | [], _ :: _ => .lt
  | _ :: _, [] => .gt
  | left :: lefts, right :: rights => (compare left right).then (compareTexts lefts rights)

/-- `PackageVersion::operator<=>`: precedence, then build metadata. -/
def PackageVersion.compareVersion (left right : PackageVersion) : Ordering :=
  (comparePrecedence left right).then (compareTexts left.build right.build)

/-! ### Requirements -/

/-- `*`, an exact version, `^` or `~`. -/
inductive PackageRequirementKind
  | any | exact | caret | tilde
deriving DecidableEq, Repr, Inhabited

/-- A requirement on the version of a dependency. -/
structure PackageRequirement where
  kind : PackageRequirementKind := .exact
  version : PackageVersion := {}
deriving DecidableEq, Repr, Inhabited

/-- `PackageRequirement::string`. -/
def PackageRequirement.string (requirement : PackageRequirement) : String :=
  match requirement.kind with
  | .any => "*"
  | .exact => requirement.version.string
  | .caret => "^" ++ requirement.version.string
  | .tilde => "~" ++ requirement.version.string

/-- `upperBound`: the first version above a caret or tilde range. -/
def upperBound (requirement : PackageRequirement) : PackageVersion :=
  let base := { requirement.version with prerelease := [], build := [] }
  if requirement.kind = .tilde then { base with minor := base.minor + 1, patch := 0 }
  else if base.major ≠ 0 then { base with major := base.major + 1, minor := 0, patch := 0 }
  else if base.minor ≠ 0 then { base with minor := base.minor + 1, patch := 0 }
  else { base with patch := base.patch + 1 }

/-- `PackageRequirement::accepts`. -/
def PackageRequirement.accepts (requirement : PackageRequirement) (candidate : PackageVersion) :
    Bool :=
  match requirement.kind with
  | .any => true
  | .exact => candidate == requirement.version
  | .caret | .tilde =>
    comparePrecedence candidate requirement.version != .lt &&
      comparePrecedence candidate (upperBound requirement) == .lt

example : (PackageRequirement.mk .caret { major := 1, minor := 2 }).accepts
    { major := 1, minor := 9 } = true := by decide

end FoundationLang.Package
