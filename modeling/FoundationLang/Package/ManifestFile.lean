/-
**The manifest file.**

`parsePackageManifest` and `renderPackageManifest` of `package.cpp`. As for the lock, the lambda that
handles a line is a function on a reader that holds what the lambda captures. Ten of the directives
take one value, at most once: they are `singleEntry` at their own check, field, code and text.
-/

import FoundationLang.Package.LockText

namespace FoundationLang.Package

/-- At most so many rules and dependencies. -/
def maxPackageEntries : Nat := 4096

/-! ### Words of the format -/

/-- The selector that a word names. -/
def parseTargetSelector (value : String) : Option TargetSelector :=
  if value = "hosted" then some .hosted
  else
    match parseTargetPlatform value with
    | some .linux => some .linux
    | some .macOS => some .macOS
    | some .windows => some .windows
    | some .freestanding => some .freestanding
    | some .unknown => none
    | none => none

/-- The word for a selector. -/
def targetSelectorName : TargetSelector → String
  | .linux => "linux"
  | .macOS => "macos"
  | .windows => "windows"
  | .freestanding => "freestanding"
  | .hosted => "hosted"

/-- The profile that a word names. -/
def parseCodeStandardProfile (value : String) : Option CodeStandardProfile :=
  if value = "valid" then some .valid
  else if value = "standard" then some .standard
  else if value = "strict" then some .strict
  else none

/-- The word for a profile. -/
def codeStandardProfileName : CodeStandardProfile → String
  | .valid => "valid"
  | .standard => "standard"
  | .strict => "strict"

/-- The severity that a word names. -/
def parseCodeStandardSeverity (value : String) : Option CodeStandardSeverity :=
  if value = "off" then some .off
  else if value = "warning" then some .warning
  else if value = "error" then some .error
  else none

/-- The word for a severity. -/
def codeStandardSeverityName : CodeStandardSeverity → String
  | .off => "off"
  | .warning => "warning"
  | .error => "error"

/-- The rules whose severity a manifest may set. -/
def configurableCodeStandardRule (code : String) : Bool :=
  ["FCS1001", "FCS1002", "FCS2001", "FCS2002", "FCS3001", "FCS4001", "FCS5001", "FCS6001",
    "FCS7001", "FCS7002", "FCS7003", "FCS7004"].contains code

/-- Some target is admitted by both; no selector admits all. -/
def overlappingTargets (left right : Option TargetSelector) : Bool :=
  match left, right with
  | some left, some right => targetSelectorsOverlap left right
  | _, _ => true

/-! ### Directives -/

/-- The variables that the lambda of `parsePackageManifest` captures. -/
structure ManifestReader where
  manifest : PackageManifest := { name := "" }
  formatSeen : Bool := false
  nameSeen : Bool := false
  versionSeen : Bool := false
  languageSeen : Bool := false
  sdkSeen : Bool := false
  codeStandardSeen : Bool := false
  codeStandardRules : List String := []
  sourceSeen : Bool := false
  testSourceSeen : Bool := false
  nativeLibrarySeen : Bool := false
  nativeNameSeen : Bool := false
  nativeSOVersionSeen : Bool := false
  errors : List PackageError := []
deriving DecidableEq, Repr, Inhabited

/-- What a directive makes of the manifest, or the code and the text of its error. -/
abbrev ManifestEntry := Except (String × String) PackageManifest

/-- A directive that takes one value and may occur once. -/
def singleEntry {α : Type} (seen : Bool) (parse : String → Option α) (store : α → PackageManifest)
    (error : String × String) (arguments : List String) : ManifestEntry :=
  match arguments with
  | [value] =>
    match parse value with
    | some parsed => if seen then .error error else .ok (store parsed)
    | none => .error error
  | _ => .error error

/-- A value that passes a check. -/
def checked (check : String → Bool) (value : String) : Option String :=
  if check value then some value else none

/-- `format foundation.package/v1`. -/
def manifestFormatEntry (reader : ManifestReader) : List String → ManifestEntry :=
  singleEntry reader.formatSeen (checked (· == "foundation.package/v1")) (fun _ => reader.manifest)
    ("FDN4004", "expected one format foundation.package/v1 directive")

/-- `name NAME`. -/
def nameEntry (reader : ManifestReader) : List String → ManifestEntry :=
  singleEntry reader.nameSeen (checked identifier)
    (fun name => { reader.manifest with name := name })
    ("FDN4005", "expected one valid package name")

/-- `version VERSION`. -/
def versionEntry (reader : ManifestReader) : List String → ManifestEntry :=
  singleEntry reader.versionSeen parsePackageVersion
    (fun version => { reader.manifest with version := version })
    ("FDN4006", "expected one semantic package version")

/-- `language 1`: the manifest takes any SDK. -/
def languageEntry (reader : ManifestReader) : List String → ManifestEntry :=
  singleEntry reader.languageSeen (fun value => if number value = some 1 then some () else none)
    (fun _ => { reader.manifest with language := 1, languageExplicit := true, sdk := ⟨.any, {}⟩ })
    ("FDN4007", "expected one supported language level")

/-- `sdk REQUIREMENT`. -/
def sdkEntry (reader : ManifestReader) : List String → ManifestEntry :=
  singleEntry reader.sdkSeen parsePackageRequirement
    (fun requirement => { reader.manifest with sdk := requirement })
    ("FDN4007", "expected one SDK version requirement")

/-- `fcs PROFILE`. -/
def fcsEntry (reader : ManifestReader) : List String → ManifestEntry :=
  singleEntry reader.codeStandardSeen parseCodeStandardProfile
    (fun profile => { reader.manifest with codeStandard := profile, codeStandardExplicit := true })
    ("FDN4014", "expected at most one FCS profile: valid, standard, or strict")

/-- `source DIRECTORY`. -/
def sourceEntry (reader : ManifestReader) : List String → ManifestEntry :=
  singleEntry reader.sourceSeen (checked relativeSource)
    (fun source => { reader.manifest with source := source })
    ("FDN4008", "expected one relative source directory without ..")

/-- `test_source DIRECTORY`. -/
def testSourceEntry (reader : ManifestReader) : List String → ManifestEntry :=
  singleEntry reader.testSourceSeen (checked relativeSource)
    (fun source => { reader.manifest with testSource := some source })
    ("FDN4013", "expected at most one relative test source directory without ..")

/-- `native_library c`. -/
def nativeLibraryEntry (reader : ManifestReader) : List String → ManifestEntry :=
  singleEntry reader.nativeLibrarySeen (checked (· == "c"))
    (fun _ => { reader.manifest with nativeLibrary := true })
    ("FDN4015", "expected one native_library c directive")

/-- `native_name NAME`. -/
def nativeNameEntry (reader : ManifestReader) : List String → ManifestEntry :=
  singleEntry reader.nativeNameSeen (checked identifier)
    (fun name => { reader.manifest with nativeName := some name })
    ("FDN4015", "expected one valid native library name")

/-- `native_soversion NUMBER`. -/
def nativeSOVersionEntry (reader : ManifestReader) : List String → ManifestEntry :=
  singleEntry reader.nativeSOVersionSeen number32
    (fun version => { reader.manifest with nativeSOVersion := some version })
    ("FDN4015", "expected one native library SOVERSION")

/-- `fcs_rule CODE SEVERITY`. -/
def fcsRuleEntry (reader : ManifestReader) (arguments : List String) : ManifestEntry :=
  let error := ("FDN4014",
    "fcs_rule requires one unique configurable FCS code and severity: off, warning, or error")
  match arguments with
  | [code, severity] =>
    match parseCodeStandardSeverity severity with
    | some severity =>
      if configurableCodeStandardRule code && !reader.codeStandardRules.contains code &&
          reader.manifest.codeStandardRules.length != maxPackageEntries then
        .ok { reader.manifest with
          codeStandardRules := reader.manifest.codeStandardRules ++ [⟨code, severity⟩] }
      else .error error
    | none => .error error
  | _ => .error error

/-- The rules seen after an `fcs_rule` line: the insertion comes before the last check. -/
def ruleCodesAfter (reader : ManifestReader) (arguments : List String) : List String :=
  match arguments with
  | [code, severity] =>
    if (parseCodeStandardSeverity severity).isSome && configurableCodeStandardRule code then
      reader.codeStandardRules.insert code
    else reader.codeStandardRules
  | _ => reader.codeStandardRules

/-- The target behind a native source or link: nothing, or `target SELECTOR`. -/
def parseOptionalTarget (qualifiers : List String) : Option (Option TargetSelector) :=
  match qualifiers with
  | [] => some none
  | [word, selector] => if word = "target" then (parseTargetSelector selector).map some else none
  | _ => none

/-- `native_source FILE [target SELECTOR]`. -/
def nativeSourceEntry (manifest : PackageManifest) (arguments : List String) : ManifestEntry :=
  let error := ("FDN4015", "native_source requires one unique relative C file and optional target")
  match arguments with
  | file :: qualifiers =>
    match parseOptionalTarget qualifiers with
    | some target =>
      let path := lexicallyNormal file
      if relativeSource file && fileExtension path == ".c" &&
          !manifest.nativeSources.any (fun entry =>
            pathParts entry.path == pathParts path && overlappingTargets entry.target target) then
        .ok { manifest with nativeSources := manifest.nativeSources ++ [⟨path, target⟩] }
      else .error error
    | none => .error error
  | _ => .error error

/-- `native_link LIBRARY [target SELECTOR]`. -/
def nativeLinkEntry (manifest : PackageManifest) (arguments : List String) : ManifestEntry :=
  let error := ("FDN4015", "native_link requires one unique library and optional target")
  match arguments with
  | library :: qualifiers =>
    match parseOptionalTarget qualifiers with
    | some target =>
      if identifier library &&
          !manifest.nativeLinks.any (fun entry =>
            entry.library == library && overlappingTargets entry.target target) then
        .ok { manifest with nativeLinks := manifest.nativeLinks ++ [⟨library, target⟩] }
      else .error error
    | none => .error error
  | _ => .error error

/-- `foreign ECOSYSTEM IDENTIFIER VERSION KIND RESOLVER abi c/v1`. -/
def manifestForeignEntry (manifest : PackageManifest) (arguments : List String) : ManifestEntry :=
  let error := ("FDN4015",
    "foreign requires ecosystem, identifier, version, resolver kind, resolver, and abi c/v1")
  match arguments with
  | [ecosystem, name, version, kind, resolver, abi, level] =>
    if foreignEcosystem ecosystem && !name.isEmpty && !version.isEmpty && !resolver.isEmpty &&
        foreignKind kind && (kind != "path" || relativeSource resolver) && abi == "abi" &&
        level == "c/v1" && !manifest.foreign.any (fun entry =>
          entry.ecosystem == ecosystem && entry.identifier == name) then
      .ok { manifest with
        foreign := manifest.foreign ++ [⟨ecosystem, name, version, kind, resolver⟩] }
    else .error error
  | _ => .error error

/-- The variables of the loop over the qualifiers of a dependency. -/
structure Qualifiers where
  target : Option TargetSelector := none
  scope : PackageDependencyScope := .runtime
  scopeSeen : Bool := false
  valid : Bool := true
deriving DecidableEq, Repr, Inhabited

/-- The loop over the qualifiers of a dependency, two tokens at a time. -/
def readQualifiers (state : Qualifiers) : List String → Qualifiers
  | word :: value :: rest =>
    if word = "target" ∧ state.target = none then
      let target := parseTargetSelector value
      readQualifiers { state with target := target, valid := state.valid && target.isSome } rest
    else if word = "scope" ∧ state.scopeSeen = false ∧ value = "test" then
      readQualifiers { state with scope := .test, scopeSeen := true } rest
    else readQualifiers { state with valid := false } rest
  | _ => state

/-- `dependency NAME REQUIREMENT KIND LOCATION [target SELECTOR] [scope test]`. -/
def dependencyEntry (manifest : PackageManifest) (arguments : List String) : ManifestEntry :=
  let invalid := ("FDN4009", "invalid package dependency")
  match arguments with
  | name :: requirement :: kind :: location :: qualifiers =>
    if qualifiers.length ≠ 0 ∧ qualifiers.length ≠ 2 ∧ qualifiers.length ≠ 4 then
      .error ("FDN4009", "dependency requires name, version, source kind, and location")
    else
      let qualified := readQualifiers {} qualifiers
      match parsePackageRequirement requirement, locationKind kind with
      | some requirement, some kind =>
        if identifier name && validLocation kind location && qualified.valid then
          if manifest.dependencies.length = maxPackageEntries then
            .error ("FDN4010", "package manifest exceeds 4096 dependencies")
          else if manifest.dependencies.any fun other =>
              other.name == name && other.target == qualified.target then
            .error ("FDN4011", "duplicate package dependency " ++ name)
          else .ok { manifest with dependencies := manifest.dependencies ++
            [⟨name, requirement, kind, location, qualified.target, qualified.scope⟩] }
        else .error invalid
      | _, _ => .error invalid
  | _ => .error ("FDN4009", "dependency requires name, version, source kind, and location")

/-- An error of one line. -/
def ManifestReader.report (reader : ManifestReader) (error : PackageError) : ManifestReader :=
  { reader with errors := reader.errors ++ [error] }

/-- The manifest a directive made, or its error. -/
def ManifestReader.accept (reader : ManifestReader) (path : String) (line : Nat)
    (entry : ManifestEntry) : ManifestReader :=
  match entry with
  | .ok manifest => { reader with manifest := manifest }
  | .error (code, message) => reader.report ⟨path, line, 1, code, message⟩

/-- The lambda of `parsePackageManifest`. -/
def manifestDirective (path directive : String) (arguments : List String) (line : Nat)
    (reader : ManifestReader) : ManifestReader :=
  if directive = "format" then
    { reader.accept path line (manifestFormatEntry reader arguments) with formatSeen := true }
  else if directive = "name" then
    { reader.accept path line (nameEntry reader arguments) with nameSeen := true }
  else if directive = "version" then
    { reader.accept path line (versionEntry reader arguments) with versionSeen := true }
  else if directive = "language" then
    { reader.accept path line (languageEntry reader arguments) with languageSeen := true }
  else if directive = "sdk" then
    { reader.accept path line (sdkEntry reader arguments) with sdkSeen := true }
  else if directive = "fcs" then
    { reader.accept path line (fcsEntry reader arguments) with codeStandardSeen := true }
  else if directive = "fcs_rule" then
    { reader.accept path line (fcsRuleEntry reader arguments) with
      codeStandardRules := ruleCodesAfter reader arguments }
  else if directive = "source" then
    { reader.accept path line (sourceEntry reader arguments) with sourceSeen := true }
  else if directive = "test_source" then
    { reader.accept path line (testSourceEntry reader arguments) with testSourceSeen := true }
  else if directive = "native_library" then
    { reader.accept path line (nativeLibraryEntry reader arguments) with nativeLibrarySeen := true }
  else if directive = "native_name" then
    { reader.accept path line (nativeNameEntry reader arguments) with nativeNameSeen := true }
  else if directive = "native_soversion" then
    { reader.accept path line (nativeSOVersionEntry reader arguments) with
      nativeSOVersionSeen := true }
  else if directive = "native_source" then
    reader.accept path line (nativeSourceEntry reader.manifest arguments)
  else if directive = "native_link" then
    reader.accept path line (nativeLinkEntry reader.manifest arguments)
  else if directive = "foreign" then
    reader.accept path line (manifestForeignEntry reader.manifest arguments)
  else if directive = "dependency" then
    reader.accept path line (dependencyEntry reader.manifest arguments)
  else reader.report ⟨path, line, 1, "FDN4012", "unknown package directive " ++ directive⟩

/-! ### After the last line -/

/-- The errors of a manifest without a directive that it must have. -/
def missingManifestDirectives (path : String) (reader : ManifestReader) : List PackageError :=
  (if reader.formatSeen then []
    else [⟨path, 1, 1, "FDN4004", "missing package format directive"⟩]) ++
  (if reader.nameSeen then [] else [⟨path, 1, 1, "FDN4005", "missing package name"⟩]) ++
  (if reader.versionSeen then [] else [⟨path, 1, 1, "FDN4006", "missing package version"⟩]) ++
  (if !reader.languageSeen && !reader.sdkSeen then
      [⟨path, 1, 1, "FDN4007", "missing language or SDK requirement"⟩]
    else if reader.languageSeen && reader.sdkSeen then
      [⟨path, 1, 1, "FDN4007", "package manifest must select either language or SDK"⟩]
    else []) ++
  (if reader.sourceSeen then [] else [⟨path, 1, 1, "FDN4008", "missing source directory"⟩])

/-- A C file below the directory of a foreign C path source. -/
def ownedSource (manifest : PackageManifest) (source : NativeSource) : Bool :=
  manifest.foreign.any fun foreign =>
    foreign.ecosystem == "c" && foreign.kind == "path" &&
      (lexicallyRelative source.path (lexicallyNormal foreign.resolver)).head?.any (· != "..")

/-- The errors of a manifest whose directives do not fit together. -/
def manifestConflicts (path : String) (manifest : PackageManifest) : List PackageError :=
  (if manifest.testSource.any (nestedSource manifest.source) then
    [⟨path, 1, 1, "FDN4013", "source and test_source directories cannot overlap"⟩] else []) ++
  (if manifest.testSource.isNone && manifest.dependencies.any (·.scope == .test) then
    [⟨path, 1, 1, "FDN4013", "test dependencies require a test_source directory"⟩] else []) ++
  (if (manifest.nativeName.isSome || manifest.nativeSOVersion.isSome) && !manifest.nativeLibrary then
    [⟨path, 1, 1, "FDN4015", "native library metadata requires native_library c"⟩] else []) ++
  (if manifest.nativeLibrary && manifest.nativeName.isNone then
    [⟨path, 1, 1, "FDN4015", "native_library c requires native_name"⟩] else []) ++
  (if (!manifest.nativeLinks.isEmpty || !manifest.foreign.isEmpty) && !manifest.nativeLibrary &&
      manifest.nativeSources.isEmpty then
    [⟨path, 1, 1, "FDN4015",
      "native links and foreign provenance require native_library c or native_source"⟩] else []) ++
  (manifest.nativeSources.filter (!ownedSource manifest ·)).map fun _ =>
    ⟨path, 1, 1, "FDN4015", "native_source must belong to a foreign c path source"⟩

/-- The order of optional targets: none comes first. -/
def compareTarget (left right : Option TargetSelector) : Ordering :=
  compare (left.map TargetSelector.rank) (right.map TargetSelector.rank)

/-- By path, then by target. -/
def compareNativeSource (left right : NativeSource) : Ordering :=
  (comparePath left.path right.path).then (compareTarget left.target right.target)

/-- By library, then by target. -/
def compareNativeLink (left right : NativeLink) : Ordering :=
  (compare left.library right.library).then (compareTarget left.target right.target)

/-- By name, then by target. -/
def compareDependency (left right : PackageDependency) : Ordering :=
  (compare left.name right.name).then (compareTarget left.target right.target)

/-- The order in which foreign entries are rendered. -/
def compareManifestForeign (left right : Foreign) : Ordering :=
  compareTexts [left.ecosystem, left.identifier, left.version, left.kind, left.resolver]
    [right.ecosystem, right.identifier, right.version, right.kind, right.resolver]

/-- The order in which rules are rendered. -/
def compareRule (left right : CodeStandardRuleSetting) : Ordering :=
  compare left.code right.code

/-- What `finishManifest` sorts. -/
def PackageManifest.sort (manifest : PackageManifest) : PackageManifest :=
  { manifest with
    nativeSources :=
      stdSort (fun left right => compareNativeSource left right == .lt) manifest.nativeSources
    nativeLinks :=
      stdSort (fun left right => compareNativeLink left right == .lt) manifest.nativeLinks
    dependencies :=
      stdSort (fun left right => compareDependency left right == .lt) manifest.dependencies }

/-- The end of `parsePackageManifest`, after the last line. -/
def finishManifest (path : String) (reader : ManifestReader) : PackageParseResult PackageManifest :=
  let errors := reader.errors ++ missingManifestDirectives path reader ++
    manifestConflicts path reader.manifest
  if errors.isEmpty then { value := some reader.manifest.sort } else { errors := errors }

/-- The manifest of a text, or the errors of its lines. -/
def parsePackageManifest (path source : String) : PackageParseResult PackageManifest :=
  finishManifest path (lines ManifestReader.report (manifestDirective path) path source {})

/-! ### Rendering -/

/-- A target behind a native source or link, as it is written. -/
def renderTarget (target : Option TargetSelector) : String :=
  match target with
  | some target => " target " ++ targetSelectorName target
  | none => ""

/-- A line with one optional value. -/
def renderOptional (directive : String) (value : Option String) : String :=
  match value with
  | some value => directive ++ " " ++ value ++ "\n"
  | none => ""

/-- The line of a rule. -/
def renderRule (rule : CodeStandardRuleSetting) : String :=
  "fcs_rule " ++ rule.code ++ " " ++ codeStandardSeverityName rule.severity ++ "\n"

/-- One `native_source` line. -/
def renderNativeSource (source : NativeSource) : String :=
  "native_source " ++ quote (genericString source.path) ++ renderTarget source.target ++ "\n"

/-- One `native_link` line. -/
def renderNativeLink (link : NativeLink) : String :=
  "native_link " ++ quote link.library ++ renderTarget link.target ++ "\n"

/-- The line of a foreign entry. -/
def renderManifestForeign (entry : Foreign) : String :=
  "foreign " ++ quote entry.ecosystem ++ " " ++ quote entry.identifier ++ " " ++
    quote entry.version ++ " " ++ entry.kind ++ " " ++ quote entry.resolver ++ " abi c/v1\n"

/-- The line of a dependency. -/
def renderDependency (dependency : PackageDependency) : String :=
  "dependency " ++ dependency.name ++ " " ++ dependency.requirement.string ++ " " ++
    locationName dependency.kind ++ " " ++ quote dependency.location ++
    renderTarget dependency.target ++
    (if dependency.scope = .test then " scope test" else "") ++ "\n"

/-- The rules in the order in which they are rendered. -/
def PackageManifest.sortedRules (manifest : PackageManifest) : List CodeStandardRuleSetting :=
  stdSort (fun left right => compareRule left right == .lt) manifest.codeStandardRules

/-- The foreign entries in the order in which they are rendered. -/
def PackageManifest.sortedForeign (manifest : PackageManifest) : List Foreign :=
  stdSort (fun left right => compareManifestForeign left right == .lt) manifest.foreign

/-- The text of a manifest. -/
def renderPackageManifest (manifest : PackageManifest) : String :=
  "format foundation.package/v1\n" ++
  "name " ++ manifest.name ++ "\n" ++
  "version " ++ manifest.version.string ++ "\n" ++
  (if manifest.languageExplicit then "language " ++ toString manifest.language.toNat ++ "\n"
    else "sdk " ++ manifest.sdk.string ++ "\n") ++
  (if manifest.codeStandardExplicit then
      "fcs " ++ codeStandardProfileName manifest.codeStandard ++ "\n" else "") ++
  String.join (manifest.sortedRules.map renderRule) ++
  "source " ++ quote (genericString manifest.source) ++ "\n" ++
  renderOptional "test_source"
    (manifest.testSource.map fun source => quote (genericString source)) ++
  (if manifest.nativeLibrary then "native_library c\n" else "") ++
  renderOptional "native_name" (manifest.nativeName.map quote) ++
  renderOptional "native_soversion"
    (manifest.nativeSOVersion.map fun version => toString version.toNat) ++
  String.join (manifest.sort.nativeSources.map renderNativeSource) ++
  String.join (manifest.sort.nativeLinks.map renderNativeLink) ++
  String.join (manifest.sortedForeign.map renderManifestForeign) ++
  String.join (manifest.sort.dependencies.map renderDependency)

end FoundationLang.Package
