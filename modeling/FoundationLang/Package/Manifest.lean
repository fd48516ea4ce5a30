/-
**Manifests, catalog candidates and locks.**

The records of `package.hpp`, and target selection from `target.cpp`. A path is the text it was made
from.
-/

import FoundationLang.Package.Version

namespace FoundationLang.Package

/-! ### Targets -/

/-- A platform to build for; `unknown` is the default of the source. -/
inductive TargetPlatform
  | unknown | linux | macOS | windows | freestanding
deriving DecidableEq, Repr, Inhabited

/-- `TargetSelector`: `hosted` stands for every operating-system platform. -/
inductive TargetSelector
  | linux | macOS | windows | freestanding | hosted
deriving DecidableEq, Repr, Inhabited

/-- The word for a platform. -/
def targetPlatformName : TargetPlatform → String
  | .linux => "linux"
  | .macOS => "macos"
  | .windows => "windows"
  | .freestanding => "freestanding"
  | .unknown => "unknown"

/-- A platform with an operating system. -/
def hostedTargetPlatform (target : TargetPlatform) : Bool :=
  target == .linux || target == .macOS || target == .windows

/-- The declaration order of the enumeration, which is the canonical manifest order. -/
def TargetSelector.rank : TargetSelector → Nat
  | .linux => 0
  | .macOS => 1
  | .windows => 2
  | .freestanding => 3
  | .hosted => 4

/-- A selector admits a target. -/
def targetSelected (selector : TargetSelector) (target : TargetPlatform) : Bool :=
  match selector with
  | .linux => target == .linux
  | .macOS => target == .macOS
  | .windows => target == .windows
  | .freestanding => target == .freestanding
  | .hosted => hostedTargetPlatform target

/-- Some target is admitted by both. -/
def targetSelectorsOverlap (left right : TargetSelector) : Bool :=
  [TargetPlatform.linux, .macOS, .windows, .freestanding].any fun target =>
    targetSelected left target && targetSelected right target

/-! ### Dependencies and manifests -/

/-- Where a dependency comes from. -/
inductive PackageLocationKind
  | path | registry | sdk
deriving DecidableEq, Repr, Inhabited

/-- The declaration order of the enumeration, by which `std::tie` compares kinds. -/
def PackageLocationKind.rank : PackageLocationKind → Nat
  | .path => 0
  | .registry => 1
  | .sdk => 2

/-- A test dependency is none for the packages that depend on this one. -/
inductive PackageDependencyScope
  | runtime | test
deriving DecidableEq, Repr, Inhabited

/-- The declaration order of the enumeration, by which the edge set is sorted. -/
def PackageDependencyScope.rank : PackageDependencyScope → Nat
  | .runtime => 0
  | .test => 1

/-- One `dependency` line. -/
structure PackageDependency where
  name : String
  requirement : PackageRequirement
  kind : PackageLocationKind := .registry
  location : String
  target : Option TargetSelector := none
  scope : PackageDependencyScope := .runtime
deriving DecidableEq, Repr, Inhabited

/-- `active`: the dependency applies to the target being resolved. -/
def active (dependency : PackageDependency) (target : TargetPlatform) : Bool :=
  match dependency.target with
  | none => true
  | some selector => targetSelected selector target

/-- `PackageManifest::Foreign`. -/
structure Foreign where
  ecosystem : String
  identifier : String
  version : String
  kind : String
  resolver : String
deriving DecidableEq, Repr, Inhabited

/-- The profile of an `fcs` line. -/
inductive CodeStandardProfile
  | valid | standard | strict
deriving DecidableEq, Repr, Inhabited

/-- How a rule is reported. -/
inductive CodeStandardSeverity
  | off | warning | error
deriving DecidableEq, Repr, Inhabited

/-- One `fcs_rule` line. -/
structure CodeStandardRuleSetting where
  code : String
  severity : CodeStandardSeverity
deriving DecidableEq, Repr, Inhabited

/-- `PackageManifest::NativeLink`. -/
structure NativeLink where
  library : String
  target : Option TargetSelector := none
deriving DecidableEq, Repr, Inhabited

/-- `PackageManifest::NativeSource`. -/
structure NativeSource where
  path : String
  target : Option TargetSelector := none
deriving DecidableEq, Repr, Inhabited

/-- A manifest; what is optional in it has the defaults of the source. -/
structure PackageManifest where
  name : String
  version : PackageVersion := {}
  language : UInt32 := 1
  languageExplicit : Bool := false
  sdk : PackageRequirement := {}
  codeStandard : CodeStandardProfile := .standard
  codeStandardExplicit : Bool := false
  codeStandardRules : List CodeStandardRuleSetting := []
  source : String := ""
  testSource : Option String := none
  dependencies : List PackageDependency := []
  nativeLibrary : Bool := false
  nativeName : Option String := none
  nativeSOVersion : Option UInt32 := none
  nativeSources : List NativeSource := []
  nativeLinks : List NativeLink := []
  foreign : List Foreign := []
deriving DecidableEq, Repr, Inhabited

/-- `PackageCandidate`: one version of a package that the catalog offers. -/
structure PackageCandidate where
  manifest : PackageManifest
  digest : String
  kind : PackageLocationKind := .registry
  location : String
  root : String := ""
deriving DecidableEq, Repr, Inhabited

/-! ### Locks -/

/-- A dependency between two packages of a lock. -/
structure PackageEdge where
  parent : String
  dependency : String
  scope : PackageDependencyScope := .runtime
deriving DecidableEq, Repr, Inhabited

/-- A package of a lock, at one version. -/
structure LockedPackage where
  name : String
  version : PackageVersion
  digest : String
  kind : PackageLocationKind
  location : String
deriving DecidableEq, Repr, Inhabited

/-- The native library that the root provides. -/
structure LockedNativeLibrary where
  name : String
  soVersion : Option UInt32
  digest : String
deriving DecidableEq, Repr, Inhabited

/-- A foreign package that the root was made from. -/
structure LockedForeign where
  ecosystem : String
  identifier : String
  version : String
  kind : String
  resolver : String
  digest : String
deriving DecidableEq, Repr, Inhabited

/-- A lock. -/
structure PackageLock where
  rootName : String
  rootVersion : PackageVersion
  target : TargetPlatform := .linux
  nativeLibrary : Option LockedNativeLibrary := none
  foreign : List LockedForeign := []
  packages : List LockedPackage := []
  edges : List PackageEdge := []
deriving DecidableEq, Repr, Inhabited

/-- What the resolver returns: a lock and its candidates. -/
structure PackageResolution where
  lock : PackageLock
  packages : List PackageCandidate := []
deriving DecidableEq, Repr, Inhabited

/-- A diagnostic and its place. -/
structure PackageError where
  path : String
  line : Nat := 1
  column : Nat := 1
  code : String
  message : String
deriving DecidableEq, Repr, Inhabited

/-- `PackageParseResult<T>`. -/
structure PackageParseResult (T : Type) where
  value : Option T := none
  errors : List PackageError := []
deriving DecidableEq, Repr, Inhabited

end FoundationLang.Package
