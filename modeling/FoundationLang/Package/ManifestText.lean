/-
**Manifests and their texts.**

As for locks, a manifest with valid fields is rendered line by line, and its lines are read back. The
renderer sorts the rules and the foreign entries and writes the generic strings of the two source
directories, and the parser keeps these as they are written. So one pass through both may change the
order and the spelling of a path, and a second pass changes nothing.
-/

import FoundationLang.Package.ManifestFields

namespace FoundationLang.Package

open Std List

variable {manifest : PackageManifest}

/-! ### The lines of a manifest -/

/-- The tokens of a target, if there is one. -/
def targetTokens (target : Option TargetSelector) : List String :=
  match target with
  | some target => ["target", targetSelectorName target]
  | none => []

/-- The line of the language level or of the SDK requirement. -/
def compilerLine (manifest : PackageManifest) : Line :=
  if manifest.languageExplicit then ("language", ["1"]) else ("sdk", [manifest.sdk.string])

/-- The line of the code standard, when the manifest names one. -/
def profileLines (manifest : PackageManifest) : List Line :=
  if manifest.codeStandardExplicit then
    [("fcs", [codeStandardProfileName manifest.codeStandard])]
  else []

/-- The tokens of an `fcs_rule` line. -/
def ruleLine (rule : CodeStandardRuleSetting) : Line :=
  ("fcs_rule", [rule.code, codeStandardSeverityName rule.severity])

/-- The `native_library` line, if there is one. -/
def libraryLines (manifest : PackageManifest) : List Line :=
  if manifest.nativeLibrary then [("native_library", ["c"])] else []

/-- The tokens of the `native_soversion` line. -/
def soVersionLine (version : UInt32) : Line :=
  ("native_soversion", [toString version.toNat])

/-- The tokens of a `native_source` line. -/
def nativeSourceLine (source : NativeSource) : Line :=
  ("native_source", source.path :: targetTokens source.target)

/-- The tokens of a `native_link` line. -/
def nativeLinkLine (link : NativeLink) : Line :=
  ("native_link", link.library :: targetTokens link.target)

/-- The tokens of a `foreign` line. -/
def manifestForeignLine (entry : Foreign) : Line :=
  ("foreign", [entry.ecosystem, entry.identifier, entry.version, entry.kind, entry.resolver, "abi",
    "c/v1"])

/-- The tokens of a `dependency` line. -/
def dependencyLine (dependency : PackageDependency) : Line :=
  ("dependency", [dependency.name, dependency.requirement.string, locationName dependency.kind,
    dependency.location] ++ targetTokens dependency.target ++
    if dependency.scope = .test then ["scope", "test"] else [])

/-- **The lines of a manifest**, in the order in which they are rendered. -/
def manifestLines (manifest : PackageManifest) : List Line :=
  [("format", ["foundation.package/v1"]), ("name", [manifest.name]),
    ("version", [manifest.version.string]), compilerLine manifest] ++
  profileLines manifest ++
  manifest.codeStandardRules.map ruleLine ++
  [("source", [manifest.source])] ++
  manifest.testSource.toList.map (fun source => ("test_source", [source])) ++
  libraryLines manifest ++
  manifest.nativeName.toList.map (fun name => ("native_name", [name])) ++
  manifest.nativeSOVersion.toList.map soVersionLine ++
  manifest.nativeSources.map nativeSourceLine ++
  manifest.nativeLinks.map nativeLinkLine ++
  manifest.foreign.map manifestForeignLine ++
  manifest.dependencies.map dependencyLine

/-- A manifest with the generic strings of its directories. -/
def PackageManifest.generic (manifest : PackageManifest) : PackageManifest :=
  { manifest with
    source := genericString manifest.source
    testSource := manifest.testSource.map genericString }

/-- The manifest as it is rendered: the rules and the foreign entries sorted too. -/
def PackageManifest.rendered (manifest : PackageManifest) : PackageManifest :=
  { manifest.generic.sort with
    codeStandardRules := manifest.sortedRules, foreign := manifest.sortedForeign }

theorem PackageManifest.reordered_rendered (manifest : PackageManifest) :
    manifest.generic.Reordered manifest.rendered :=
  ⟨(stdSort_perm _ _).symm, (stdSort_perm _ _).symm, (stdSort_perm _ _).symm,
    (stdSort_perm _ _).symm, (stdSort_perm _ _).symm, rfl⟩

theorem PackageManifest.Fields.generic (fs : manifest.Fields) : manifest.generic.Fields :=
  { fs with
    source := relativeSource_genericString fs.source
    testSource := fun source given => by
      obtain ⟨written, present, rfl⟩ := Option.map_eq_some_iff.mp given
      exact relativeSource_genericString (fs.testSource written present) }

theorem PackageManifest.Fields.rendered (fs : manifest.Fields) : manifest.rendered.Fields :=
  fs.generic.of_reordered manifest.reordered_rendered

/-- The directories overlap or not, however they are written. -/
theorem manifestConflicts_generic (path : String) (fs : manifest.Fields) :
    manifestConflicts path manifest.generic = manifestConflicts path manifest := by
  have nested : manifest.generic.testSource.any (nestedSource manifest.generic.source)
      = manifest.testSource.any (nestedSource manifest.source) := by
    simp only [PackageManifest.generic]
    cases given : manifest.testSource with
    | none => simp only [Option.map_none, Option.any_none]
    | some source =>
      have relative := fs.testSource source given
      simp only [Option.map_some, Option.any_some, nestedSource,
        lexicallyNormal_genericString fs.source, lexicallyNormal_genericString relative]
  have absent : manifest.generic.testSource.isNone = manifest.testSource.isNone := by
    simp only [PackageManifest.generic, Option.isNone_map]
  have owned : ownedSource manifest.generic = ownedSource manifest := rfl
  unfold manifestConflicts
  rw [nested, absent, owned]
  rfl

/-! ### A manifest is rendered line by line -/

theorem lineText_cons (x : String) (rest : List String) :
    lineText (x :: rest) = quote x ++ String.join (rest.map fun token => " " ++ quote token) := by
  apply String.ext
  rw [toList_lineText_cons]
  simp [String.toList_join, flatMap_map]

theorem join_targetTokens (target : Option TargetSelector) :
    String.join ((targetTokens target).map fun token => " " ++ quote token) = renderTarget target := by
  cases target with
  | none => rfl
  | some selector => cases selector <;> decide +kernel

theorem word_of_configurable {code : String} (known : configurableCodeStandardRule code = true) :
    Word code := by
  have all : ∀ code ∈ ["FCS1001", "FCS1002", "FCS2001", "FCS2002", "FCS3001", "FCS4001", "FCS5001",
      "FCS6001", "FCS7001", "FCS7002", "FCS7003", "FCS7004"], Word code := by
    decide
  exact all code (contains_iff_mem.mp known)

theorem renderRule_eq {rule : CodeStandardRuleSetting}
    (known : configurableCodeStandardRule rule.code = true) :
    renderRule rule = lineText (ruleLine rule).tokens ++ "\n" := by
  have directive : Word "fcs_rule" := by decide
  have severity : Word (codeStandardSeverityName rule.severity) := by
    cases rule.severity <;> decide
  have start : "fcs_rule " = "fcs_rule" ++ " " := by decide
  unfold renderRule
  simp only [Line.tokens, ruleLine, lineText_cons_cons, lineText_singleton, quote_of_word directive,
    quote_of_word (word_of_configurable known), quote_of_word severity, start, String.append_assoc]

theorem renderNativeSource_eq {src : NativeSource} (valid : src.Valid) :
    renderNativeSource src = lineText (nativeSourceLine src).tokens ++ "\n" := by
  have directive : Word "native_source" := by decide
  have start : "native_source " = "native_source" ++ " " := by decide
  unfold renderNativeSource
  rw [genericString_of_normal valid.relative valid.normal]
  simp only [Line.tokens, nativeSourceLine, lineText_cons, map_cons, String.join_cons,
    join_targetTokens, quote_of_word directive, start, String.append_assoc]

theorem renderNativeLink_eq (link : NativeLink) :
    renderNativeLink link = lineText (nativeLinkLine link).tokens ++ "\n" := by
  have directive : Word "native_link" := by decide
  have start : "native_link " = "native_link" ++ " " := by decide
  unfold renderNativeLink
  simp only [Line.tokens, nativeLinkLine, lineText_cons, map_cons, String.join_cons,
    join_targetTokens, quote_of_word directive, start, String.append_assoc]

theorem renderManifestForeign_eq {e : Foreign} (valid : e.Valid) :
    renderManifestForeign e = lineText (manifestForeignLine e).tokens ++ "\n" := by
  have directive : Word "foreign" := by decide
  have abi : Word "abi" := by decide
  have level : Word "c/v1" := by decide
  have start : "foreign " = "foreign" ++ " " := by decide
  have ws : " abi c/v1\n" = " " ++ ("abi" ++ (" " ++ ("c/v1" ++ "\n"))) := by decide
  unfold renderManifestForeign
  simp only [Line.tokens, manifestForeignLine, lineText_cons_cons, lineText_singleton,
    quote_of_word directive, quote_of_word abi, quote_of_word level,
    quote_of_word (word_foreignKind valid.kind), start, ws, String.append_assoc]

theorem renderDependency_eq {dep : PackageDependency} (valid : dep.Valid) :
    renderDependency dep = lineText (dependencyLine dep).tokens ++ "\n" := by
  have directive : Word "dependency" := by decide
  have start : "dependency " = "dependency" ++ " " := by decide
  have scope : String.join ((if dep.scope = .test then ["scope", "test"] else []).map
      fun token => " " ++ quote token) = if dep.scope = .test then " scope test" else "" := by
    cases dep.scope <;> decide +kernel
  unfold renderDependency
  simp only [Line.tokens, dependencyLine, cons_append, nil_append, lineText_cons,
    map_cons, map_append, String.join_cons, String.join_append, join_targetTokens, scope,
    quote_of_word directive, quote_of_word (word_of_identifier valid.name),
    quote_of_word (word_requirement valid.requirement),
    quote_of_word (word_locationName dep.kind), start, String.append_assoc]

theorem linesText_singleton (line : Line) :
    linesText [line.tokens] = lineText line.tokens ++ "\n" := by
  rw [linesText_cons]
  simp [linesText]

theorem lineText_pair {directive : String} (word : Word directive) (v : String) :
    lineText (Line.tokens (directive, [v])) ++ "\n"
      = directive ++ " " ++ quote v ++ "\n" := by
  simp only [Line.tokens, lineText_cons_cons, lineText_singleton, quote_of_word word,
    String.append_assoc]

theorem linesText_toList {directive : String} (word : Word directive) (v : Option String) :
    linesText ((v.toList.map fun v => ((directive, [v]) : Line)).map Line.tokens)
      = renderOptional directive (v.map quote) := by
  cases v with
  | none => rfl
  | some =>
    simp only [Option.toList_some, map_cons, map_nil]
    rw [linesText_singleton, lineText_pair word]
    rfl

theorem linesText_soVersion (v : Option UInt32) :
    linesText ((v.toList.map soVersionLine).map Line.tokens)
      = renderOptional "native_soversion" (v.map fun v => toString v.toNat) := by
  cases v with
  | none => rfl
  | some v =>
    simp only [Option.toList_some, map_cons, map_nil]
    rw [linesText_singleton, soVersionLine, lineText_pair (by decide),
      quote_of_word (word_digits v.toNat)]
    rfl

theorem linesText_compilerLine (fs : manifest.Fields) :
    linesText [(compilerLine manifest).tokens]
      = if manifest.languageExplicit then "language " ++ toString manifest.language.toNat ++ "\n"
        else "sdk " ++ manifest.sdk.string ++ "\n" := by
  unfold compilerLine
  cases explicit : manifest.languageExplicit with
  | true =>
    rw [linesText_singleton, if_pos rfl, if_pos rfl, fs.language]
    decide +kernel
  | false =>
    have start : "sdk " = "sdk" ++ " " := by decide
    rw [linesText_singleton, if_neg (by decide), if_neg (by decide), lineText_pair (by decide),
      quote_of_word (word_requirement (fs.sdk explicit)), start]

theorem linesText_profileLines (manifest : PackageManifest) :
    linesText ((profileLines manifest).map Line.tokens)
      = if manifest.codeStandardExplicit then
          "fcs " ++ codeStandardProfileName manifest.codeStandard ++ "\n" else "" := by
  unfold profileLines
  cases manifest.codeStandardExplicit with
  | false => rfl
  | true => cases manifest.codeStandard <;> decide +kernel

theorem linesText_libraryLines (manifest : PackageManifest) :
    linesText ((libraryLines manifest).map Line.tokens)
      = if manifest.nativeLibrary then "native_library c\n" else "" := by
  unfold libraryLines
  cases manifest.nativeLibrary <;> decide +kernel

theorem linesText_head (fs : manifest.Fields) :
    linesText ([("format", ["foundation.package/v1"]), ("name", [manifest.name]),
        ("version", [manifest.version.string]), compilerLine manifest].map Line.tokens)
      = "format foundation.package/v1\n" ++ "name " ++ manifest.name ++ "\n" ++
        "version " ++ manifest.version.string ++ "\n" ++
        (if manifest.languageExplicit then "language " ++ toString manifest.language.toNat ++ "\n"
          else "sdk " ++ manifest.sdk.string ++ "\n") := by
  have format : "format foundation.package/v1\n"
      = "format" ++ (" " ++ ("foundation.package/v1" ++ "\n")) := by decide
  have name : "name " = "name" ++ " " := by decide
  have version : "version " = "version" ++ " " := by decide
  have level : Word "foundation.package/v1" := by decide
  simp only [map_cons, map_nil]
  rw [linesText_cons, linesText_cons, linesText_cons, linesText_compilerLine fs,
    lineText_pair (by decide), lineText_pair (by decide), lineText_pair (by decide),
    quote_of_word level, quote_of_word (word_of_identifier fs.name),
    quote_of_word (word_version fs.version)]
  simp only [format, name, version, String.append_assoc]

/-- **A manifest is rendered line by line.** -/
theorem renderPackageManifest_eq (fs : manifest.Fields) :
    renderPackageManifest manifest
      = linesText ((manifestLines manifest.rendered).map Line.tokens) := by
  have again := fs.rendered
  have rules := linesText_map ruleLine renderRule manifest.sortedRules fun rule mem =>
    renderRule_eq (again.rules rule mem)
  have sources := linesText_map nativeSourceLine renderNativeSource manifest.sort.nativeSources
    fun source mem => renderNativeSource_eq (again.sources source mem)
  have links := linesText_map nativeLinkLine renderNativeLink manifest.sort.nativeLinks
    fun link _ => renderNativeLink_eq link
  have foreign := linesText_map manifestForeignLine renderManifestForeign manifest.sortedForeign
    fun entry mem => renderManifestForeign_eq (again.foreign entry mem)
  have deps := linesText_map dependencyLine renderDependency manifest.sort.dependencies
    fun dep mem => renderDependency_eq (again.dependencies dep mem)
  have source : linesText ([(("source", [genericString manifest.source]) : Line)].map Line.tokens)
      = "source " ++ quote (genericString manifest.source) ++ "\n" := by
    have start : "source " = "source" ++ " " := by decide
    rw [map_singleton, linesText_singleton, lineText_pair (by decide), start]
  have tests : manifest.rendered.testSource.map quote
      = manifest.testSource.map fun source => quote (genericString source) := Option.map_map ..
  unfold renderPackageManifest manifestLines
  simp only [map_append, linesText_append]
  rw [linesText_head again, linesText_profileLines, linesText_libraryLines, linesText_soVersion,
    linesText_toList (by decide), linesText_toList (by decide), tests]
  show _ = _ ++ linesText (List.map Line.tokens (List.map ruleLine manifest.sortedRules))
    ++ linesText ([(("source", [genericString manifest.source]) : Line)].map Line.tokens)
    ++ _ ++ _ ++ _ ++ _
    ++ linesText (List.map Line.tokens (List.map nativeSourceLine manifest.sort.nativeSources))
    ++ linesText (List.map Line.tokens (List.map nativeLinkLine manifest.sort.nativeLinks))
    ++ linesText (List.map Line.tokens (List.map manifestForeignLine manifest.sortedForeign))
    ++ linesText (List.map Line.tokens (List.map dependencyLine manifest.sort.dependencies))
  rw [← rules, ← sources, ← links, ← foreign, ← deps, source]
  simp only [String.append_assoc]
  rfl

/-! ### Reading the lines of a manifest -/

theorem singleEntry_unseen {α : Type} {seen : Bool} {parse : String → Option α} {text : String}
    {v : α} (store : α → PackageManifest) (error : String × String) (unseen : seen = false)
    (parsed : parse text = some v) :
    singleEntry seen parse store error [text] = .ok (store v) := by
  simp [singleEntry, parsed, unseen]

theorem checked_of {check : String → Bool} {value : String} (passed : check value = true) :
    checked check value = some value := by
  simp [checked, passed]

theorem parseOptionalTarget_tokens (target : Option TargetSelector) :
    parseOptionalTarget (targetTokens target) = some target := by
  cases target with
  | none => rfl
  | some target => cases target <;> decide

theorem parseCodeStandardProfile_name (profile : CodeStandardProfile) :
    parseCodeStandardProfile (codeStandardProfileName profile) = some profile := by
  cases profile <;> decide

theorem parseCodeStandardSeverity_name (severity : CodeStandardSeverity) :
    parseCodeStandardSeverity (codeStandardSeverityName severity) = some severity := by
  cases severity <;> decide

theorem readQualifiers_tokens (target : Option TargetSelector) (scope : PackageDependencyScope) :
    readQualifiers {} (targetTokens target ++ if scope = .test then ["scope", "test"] else [])
      = { target := target, scope := scope, scopeSeen := scope == .test } := by
  cases target with
  | none => cases scope <;> decide
  | some target => cases target <;> cases scope <;> decide

theorem length_rules_le {codes : List String}
    (known : ∀ code ∈ codes, configurableCodeStandardRule code = true) (unique : codes.Nodup) :
    codes.length ≤ 12 := by
  have inside : codes ⊆ ["FCS1001", "FCS1002", "FCS2001", "FCS2002", "FCS3001", "FCS4001", "FCS5001",
      "FCS6001", "FCS7001", "FCS7002", "FCS7003", "FCS7004"] := fun code mem =>
    contains_iff_mem.mp (known code mem)
  exact (unique.subperm inside).length_le

/-- The reader behind lines of native sources. -/
def ManifestReader.addSources (reader : ManifestReader) (sources : List NativeSource) :
    ManifestReader :=
  { reader with manifest := { reader.manifest with
    nativeSources := reader.manifest.nativeSources ++ sources } }

/-- The reader behind lines of native links. -/
def ManifestReader.addLinks (reader : ManifestReader) (links : List NativeLink) : ManifestReader :=
  { reader with manifest := { reader.manifest with
    nativeLinks := reader.manifest.nativeLinks ++ links } }

/-- The reader behind lines of foreign packages. -/
def ManifestReader.addForeign (reader : ManifestReader) (entries : List Foreign) : ManifestReader :=
  { reader with manifest := { reader.manifest with
    foreign := reader.manifest.foreign ++ entries } }

/-- The reader behind lines of dependencies. -/
def ManifestReader.addDependencies (reader : ManifestReader)
    (dependencies : List PackageDependency) : ManifestReader :=
  { reader with manifest := { reader.manifest with
    dependencies := reader.manifest.dependencies ++ dependencies } }

section Read

variable {reader : ManifestReader} (path : String) (n : Nat)

theorem read_name {name : String} (valid : identifier name = true)
    (unseen : reader.nameSeen = false) :
    manifestDirective path "name" [name] n reader
      = { reader with manifest := { reader.manifest with name := name }, nameSeen := true } := by
  simp only [manifestDirective, String.reduceEq, reduceIte, nameEntry,
    singleEntry_unseen _ _ unseen (checked_of valid)]
  rfl

theorem read_version {version : PackageVersion} (valid : version.Valid)
    (unseen : reader.versionSeen = false) :
    manifestDirective path "version" [version.string] n reader
      = { reader with
        manifest := { reader.manifest with version := version }, versionSeen := true } := by
  simp only [manifestDirective, String.reduceEq, reduceIte, versionEntry,
    singleEntry_unseen _ _ unseen (parsePackageVersion_string valid)]
  rfl

theorem read_language (unseen : reader.languageSeen = false) :
    manifestDirective path "language" ["1"] n reader
      = { reader with
        manifest := { reader.manifest with
          language := 1, languageExplicit := true, sdk := ⟨.any, {}⟩ }
        languageSeen := true } := by
  have parsed : (if Package.number "1" = some 1 then some () else none) = some () := by decide
  unfold manifestDirective languageEntry
  rw [singleEntry_unseen _ _ unseen parsed]
  rfl

theorem read_sdk {requirement : PackageRequirement} (valid : requirement.Valid)
    (unseen : reader.sdkSeen = false) :
    manifestDirective path "sdk" [requirement.string] n reader
      = { reader with manifest := { reader.manifest with sdk := requirement }, sdkSeen := true } := by
  simp only [manifestDirective, String.reduceEq, reduceIte, sdkEntry,
    singleEntry_unseen _ _ unseen (parsePackageRequirement_string valid)]
  rfl

theorem read_fcs (profile : CodeStandardProfile) (unseen : reader.codeStandardSeen = false) :
    manifestDirective path "fcs" [codeStandardProfileName profile] n reader
      = { reader with
        manifest := { reader.manifest with codeStandard := profile, codeStandardExplicit := true }
        codeStandardSeen := true } := by
  simp only [manifestDirective, String.reduceEq, reduceIte, fcsEntry,
    singleEntry_unseen _ _ unseen (parseCodeStandardProfile_name profile)]
  rfl

theorem read_source {source : String} (valid : relativeSource source = true)
    (unseen : reader.sourceSeen = false) :
    manifestDirective path "source" [source] n reader
      = { reader with
        manifest := { reader.manifest with source := source }, sourceSeen := true } := by
  simp only [manifestDirective, String.reduceEq, reduceIte, sourceEntry,
    singleEntry_unseen _ _ unseen (checked_of valid)]
  rfl

theorem read_testSource {source : String} (valid : relativeSource source = true)
    (unseen : reader.testSourceSeen = false) :
    manifestDirective path "test_source" [source] n reader
      = { reader with
        manifest := { reader.manifest with testSource := some source }, testSourceSeen := true } := by
  simp only [manifestDirective, String.reduceEq, reduceIte, testSourceEntry,
    singleEntry_unseen _ _ unseen (checked_of valid)]
  rfl

theorem read_nativeLibrary (unseen : reader.nativeLibrarySeen = false) :
    manifestDirective path "native_library" ["c"] n reader
      = { reader with
        manifest := { reader.manifest with nativeLibrary := true }, nativeLibrarySeen := true } := by
  simp only [manifestDirective, String.reduceEq, reduceIte, nativeLibraryEntry,
    singleEntry_unseen _ _ unseen (show checked (· == "c") "c" = _ from checked_of rfl)]
  rfl

theorem read_nativeName {name : String} (valid : identifier name = true)
    (unseen : reader.nativeNameSeen = false) :
    manifestDirective path "native_name" [name] n reader
      = { reader with
        manifest := { reader.manifest with nativeName := some name }, nativeNameSeen := true } := by
  simp only [manifestDirective, String.reduceEq, reduceIte, nativeNameEntry,
    singleEntry_unseen _ _ unseen (checked_of valid)]
  rfl

theorem read_soVersion (version : UInt32) (unseen : reader.nativeSOVersionSeen = false) :
    manifestDirective path "native_soversion" [toString version.toNat] n reader
      = { reader with
        manifest := { reader.manifest with nativeSOVersion := some version }
        nativeSOVersionSeen := true } := by
  simp only [manifestDirective, String.reduceEq, reduceIte, nativeSOVersionEntry,
    singleEntry_unseen _ _ unseen (number32_toString version)]
  rfl

theorem read_rule {rule : CodeStandardRuleSetting}
    (known : configurableCodeStandardRule rule.code = true)
    (fresh : rule.code ∉ reader.codeStandardRules)
    (room : reader.manifest.codeStandardRules.length ≠ maxPackageEntries) :
    manifestDirective path (ruleLine rule).1 (ruleLine rule).2 n reader
      = { reader with
        manifest := { reader.manifest with
          codeStandardRules := reader.manifest.codeStandardRules ++ [rule] }
        codeStandardRules := reader.codeStandardRules.insert rule.code } := by
  have entry : fcsRuleEntry reader (ruleLine rule).2 = .ok { reader.manifest with
      codeStandardRules := reader.manifest.codeStandardRules ++ [rule] } := by
    simp [fcsRuleEntry, ruleLine, parseCodeStandardSeverity_name, known, fresh, room]
  have codes : ruleCodesAfter reader (ruleLine rule).2
      = reader.codeStandardRules.insert rule.code := by
    simp [ruleCodesAfter, ruleLine, parseCodeStandardSeverity_name, known]
  show manifestDirective path "fcs_rule" _ n reader = _
  simp only [manifestDirective, String.reduceEq, reduceIte, entry, codes]
  rfl

theorem read_nativeSource {src : NativeSource} (valid : src.Valid)
    (fresh : ∀ y ∈ reader.manifest.nativeSources, ¬y.Clash src) :
    manifestDirective path (nativeSourceLine src).1 (nativeSourceLine src).2 n reader
      = reader.addSources [src] := by
  have unused : (reader.manifest.nativeSources.any fun entry =>
      pathParts entry.path == pathParts src.path
        && overlappingTargets entry.target src.target) = false := by
    rw [any_eq_false]
    intro y mem same
    rw [Bool.and_eq_true, beq_iff_eq] at same
    exact fresh y mem same
  have entry : nativeSourceEntry reader.manifest (nativeSourceLine src).2
      = .ok { reader.manifest with
        nativeSources := reader.manifest.nativeSources ++ [src] } := by
    simp [nativeSourceEntry, nativeSourceLine, parseOptionalTarget_tokens, valid.normal,
      valid.relative, valid.extension, unused]
  show manifestDirective path "native_source" _ n reader = _
  simp only [manifestDirective, String.reduceEq, reduceIte, entry]
  rfl

theorem read_nativeLink {link : NativeLink} (valid : identifier link.library = true)
    (fresh : ∀ y ∈ reader.manifest.nativeLinks, ¬y.Clash link) :
    manifestDirective path (nativeLinkLine link).1 (nativeLinkLine link).2 n reader
      = reader.addLinks [link] := by
  have unused : (reader.manifest.nativeLinks.any fun entry =>
      entry.library == link.library && overlappingTargets entry.target link.target) = false := by
    rw [any_eq_false]
    intro y mem same
    rw [Bool.and_eq_true, beq_iff_eq] at same
    exact fresh y mem same
  have entry : nativeLinkEntry reader.manifest (nativeLinkLine link).2
      = .ok { reader.manifest with nativeLinks := reader.manifest.nativeLinks ++ [link] } := by
    simp [nativeLinkEntry, nativeLinkLine, parseOptionalTarget_tokens, valid, unused]
  show manifestDirective path "native_link" _ n reader = _
  simp only [manifestDirective, String.reduceEq, reduceIte, entry]
  rfl

theorem read_manifestForeign {e : Foreign} (valid : e.Valid)
    (fresh : e.key ∉ reader.manifest.foreign.map Foreign.key) :
    manifestDirective path (manifestForeignLine e).1 (manifestForeignLine e).2 n reader
      = reader.addForeign [e] := by
  have unused : (reader.manifest.foreign.any fun y =>
      y.ecosystem == e.ecosystem && y.identifier == e.identifier) = false :=
    any_key_eq_false fresh
  have below : (e.kind != "path" || relativeSource e.resolver) = true := by
    by_cases path : e.kind = "path"
    · simp [valid.path path]
    · simp [path]
  have ran : manifestForeignEntry reader.manifest (manifestForeignLine e).2
      = .ok { reader.manifest with foreign := reader.manifest.foreign ++ [e] } := by
    simp only [manifestForeignEntry, manifestForeignLine, valid.ecosystem, valid.kind, below, unused]
    simp [valid.identifier, valid.version, valid.resolver]
  show manifestDirective path "foreign" _ n reader = _
  simp only [manifestDirective, String.reduceEq, reduceIte, ran]
  rfl

theorem read_dependency {dep : PackageDependency} (valid : dep.Valid)
    (fresh : dep.key ∉ reader.manifest.dependencies.map PackageDependency.key)
    (room : reader.manifest.dependencies.length ≠ maxPackageEntries) :
    manifestDirective path (dependencyLine dep).1 (dependencyLine dep).2 n reader
      = reader.addDependencies [dep] := by
  have unused : (reader.manifest.dependencies.any fun y =>
      y.name == dep.name && y.target == dep.target) = false :=
    any_key_eq_false fresh
  have ran : dependencyEntry reader.manifest (dependencyLine dep).2
      = .ok { reader.manifest with
        dependencies := reader.manifest.dependencies ++ [dep] } := by
    have counted : ∀ ts : List String,
        ts = targetTokens dep.target ++
          (if dep.scope = .test then ["scope", "test"] else []) →
        ¬(ts.length ≠ 0 ∧ ts.length ≠ 2 ∧ ts.length ≠ 4) := by
      rintro ts rfl
      cases dep.target <;> cases dep.scope <;> simp [targetTokens]
    have ts := readQualifiers_tokens dep.target dep.scope
    simp only [dependencyLine, cons_append, nil_append]
    generalize counts : targetTokens dep.target ++
      (if dep.scope = .test then ["scope", "test"] else []) = qualifiers at ts
    rw [dependencyEntry, if_neg (counted qualifiers counts.symm), ts]
    simp [parsePackageRequirement_string valid.requirement, locationKind_name, valid.name,
      valid.location, room, unused]
  show manifestDirective path "dependency" _ n reader = _
  simp only [manifestDirective, String.reduceEq, reduceIte, ran]
  rfl

end Read

/-! ### Reading lists of entries -/

/-- The reader behind lines of rules. -/
def ManifestReader.addRules (reader : ManifestReader) (rules : List CodeStandardRuleSetting) :
    ManifestReader :=
  { reader with
    manifest := { reader.manifest with
      codeStandardRules := reader.manifest.codeStandardRules ++ rules }
    codeStandardRules :=
      rules.foldl (fun codes rule => codes.insert rule.code) reader.codeStandardRules }

theorem apart_of_pairwise {α : Type} {apart : α → α → Prop} {s rest : List α} {value : α}
    (spread : (s ++ value :: rest).Pairwise apart) : ∀ y ∈ s, apart y value := by
  rw [pairwise_append] at spread
  exact fun y mem => spread.2.2 y mem value mem_cons_self

section ReadLists

variable (path : String) (n : Nat) {reader : ManifestReader}

theorem readLines_rules (rules : List CodeStandardRuleSetting)
    (known : ∀ rule ∈ rules, configurableCodeStandardRule rule.code = true)
    (unique : (rules.map (·.code)).Nodup) (unseen : reader.codeStandardRules = [])
    (none : reader.manifest.codeStandardRules = []) :
    readLines (manifestDirective path) n (rules.map ruleLine) reader
      = reader.addRules rules := by
  refine readLines_map ManifestReader.addRules
    (fun reader rules =>
      (∀ rule ∈ reader.manifest.codeStandardRules ++ rules,
        configurableCodeStandardRule rule.code = true)
      ∧ ((reader.manifest.codeStandardRules ++ rules).map (·.code)).Nodup
      ∧ ∀ code ∈ reader.codeStandardRules, code ∈ reader.manifest.codeStandardRules.map (·.code))
    (by simp [ManifestReader.addRules]) (by simp [ManifestReader.addRules])
    (fun reader rule rest good => ?_) (fun reader rule rest n valid good => ?_) n known ?_
  · obtain ⟨known, unique, codes⟩ := good
    refine ⟨by simpa [ManifestReader.addRules] using known,
      by simpa [ManifestReader.addRules] using unique, fun code mem => ?_⟩
    rcases mem_insert_iff.mp mem with rfl | before
    · simp [ManifestReader.addRules]
    · simp only [ManifestReader.addRules, map_append]
      exact mem_append_left _ (codes code before)
  · obtain ⟨known, unique, codes⟩ := good
    have room : reader.manifest.codeStandardRules.length ≠ maxPackageEntries := by
      have short : ((reader.manifest.codeStandardRules ++ rule :: rest).map (·.code)).length ≤ 12 := by
        refine length_rules_le (fun code mem => ?_) unique
        obtain ⟨y, present, rfl⟩ := mem_map.mp mem
        exact known y present
      rw [length_map, length_append] at short
      unfold maxPackageEntries
      omega
    exact read_rule path n valid (fun mem => fresh_of_nodup unique (codes _ mem)) room
  · simpa [none, unseen] using ⟨known, unique⟩

theorem readLines_nativeSources (sources : List NativeSource)
    (valid : ∀ source ∈ sources, source.Valid)
    (unique : (reader.manifest.nativeSources ++ sources).Pairwise
      fun left right => ¬left.Clash right) :
    readLines (manifestDirective path) n (sources.map nativeSourceLine) reader
      = reader.addSources sources :=
  readLines_map ManifestReader.addSources
    (fun reader sources =>
      (reader.manifest.nativeSources ++ sources).Pairwise fun left right => ¬left.Clash right)
    (by simp [ManifestReader.addSources]) (by simp [ManifestReader.addSources])
    (fun _ _ _ unique => by simpa [ManifestReader.addSources] using unique)
    (fun _ _ _ n valid unique => read_nativeSource path n valid (apart_of_pairwise unique))
    n valid unique

theorem readLines_nativeLinks (links : List NativeLink)
    (valid : ∀ link ∈ links, identifier link.library = true)
    (unique : (reader.manifest.nativeLinks ++ links).Pairwise fun left right => ¬left.Clash right) :
    readLines (manifestDirective path) n (links.map nativeLinkLine) reader
      = reader.addLinks links :=
  readLines_map ManifestReader.addLinks
    (fun reader links =>
      (reader.manifest.nativeLinks ++ links).Pairwise fun left right => ¬left.Clash right)
    (by simp [ManifestReader.addLinks]) (by simp [ManifestReader.addLinks])
    (fun _ _ _ unique => by simpa [ManifestReader.addLinks] using unique)
    (fun _ _ _ n valid unique => read_nativeLink path n valid (apart_of_pairwise unique))
    n valid unique

theorem readLines_manifestForeign (entries : List Foreign) (valid : ∀ entry ∈ entries, entry.Valid)
    (unique : ((reader.manifest.foreign ++ entries).map Foreign.key).Nodup) :
    readLines (manifestDirective path) n (entries.map manifestForeignLine) reader
      = reader.addForeign entries :=
  readLines_map ManifestReader.addForeign
    (fun reader entries => ((reader.manifest.foreign ++ entries).map Foreign.key).Nodup)
    (by simp [ManifestReader.addForeign]) (by simp [ManifestReader.addForeign])
    (fun _ _ _ unique => by simpa [ManifestReader.addForeign] using unique)
    (fun _ _ _ n valid unique => read_manifestForeign path n valid (fresh_of_nodup unique))
    n valid unique

theorem readLines_dependencies (dependencies : List PackageDependency)
    (valid : ∀ dep ∈ dependencies, dep.Valid)
    (unique : ((reader.manifest.dependencies ++ dependencies).map PackageDependency.key).Nodup)
    (few : (reader.manifest.dependencies ++ dependencies).length ≤ maxPackageEntries) :
    readLines (manifestDirective path) n (dependencies.map dependencyLine) reader
      = reader.addDependencies dependencies := by
  refine readLines_map ManifestReader.addDependencies
    (fun reader dependencies =>
      ((reader.manifest.dependencies ++ dependencies).map PackageDependency.key).Nodup
      ∧ (reader.manifest.dependencies ++ dependencies).length ≤ maxPackageEntries)
    (by simp [ManifestReader.addDependencies]) (by simp [ManifestReader.addDependencies])
    (fun _ _ _ good => by simpa [ManifestReader.addDependencies] using good)
    (fun reader dep rest n valid good => ?_) n valid ⟨unique, few⟩
  have room : reader.manifest.dependencies.length ≠ maxPackageEntries := by
    have few := good.2
    rw [length_append, length_cons] at few
    omega
  exact read_dependency path n valid (fresh_of_nodup good.1) room

end ReadLists

/-! ### Reading the lines of a manifest -/

/-- The reader after the lines before the rules. -/
def manifestHead (manifest : PackageManifest) : ManifestReader where
  manifest := {
    name := manifest.name
    version := manifest.version
    languageExplicit := manifest.languageExplicit
    sdk := manifest.sdk
    codeStandard := manifest.codeStandard
    codeStandardExplicit := manifest.codeStandardExplicit }
  formatSeen := true
  nameSeen := true
  versionSeen := true
  languageSeen := manifest.languageExplicit
  sdkSeen := !manifest.languageExplicit
  codeStandardSeen := manifest.codeStandardExplicit

theorem readLines_manifestHead (path : String) (fs : manifest.Fields) :
    readLines (manifestDirective path) 1 ([("format", ["foundation.package/v1"]),
      ("name", [manifest.name]), ("version", [manifest.version.string]), compilerLine manifest] ++
      profileLines manifest) {} = manifestHead manifest := by
  have format : manifestDirective path "format" ["foundation.package/v1"] 1 {}
      = { formatSeen := true } := by
    rw [manifestDirective, if_pos rfl]
    rfl
  have compiler (reader : ManifestReader) (language : reader.languageSeen = false)
      (sdk : reader.sdkSeen = false) : manifestDirective path (compilerLine manifest).1
        (compilerLine manifest).2 4 reader
      = if manifest.languageExplicit then
        { reader with
          manifest := { reader.manifest with
            language := 1, languageExplicit := true, sdk := manifest.sdk }
          languageSeen := true }
        else { reader with
          manifest := { reader.manifest with sdk := manifest.sdk }, sdkSeen := true } := by
    unfold compilerLine
    cases explicit : manifest.languageExplicit with
    | true =>
      rw [fs.anySdk explicit]
      exact read_language path 4 language
    | false => exact read_sdk path 4 (fs.sdk explicit) sdk
  have profile (reader : ManifestReader) (unseen : reader.codeStandardSeen = false) :
      readLines (manifestDirective path) 5 (profileLines manifest) reader
      = if manifest.codeStandardExplicit then
        { reader with
          manifest := { reader.manifest with
            codeStandard := manifest.codeStandard, codeStandardExplicit := true }
          codeStandardSeen := true }
        else reader := by
    unfold profileLines
    cases manifest.codeStandardExplicit with
    | true => exact read_fcs path 5 manifest.codeStandard unseen
    | false => rfl
  rw [readLines_append, readLines_cons, readLines_cons, readLines_cons, readLines_cons, format,
    read_name path _ fs.name rfl, read_version path _ fs.version rfl, compiler _ rfl rfl]
  unfold manifestHead
  cases explicit : manifest.languageExplicit <;> cases standard : manifest.codeStandardExplicit
  · rw [fs.profile standard]
    exact (profile _ rfl).trans (by rw [standard]; rfl)
  · exact (profile _ rfl).trans (by rw [standard]; rfl)
  · rw [fs.profile standard]
    exact (profile _ rfl).trans (by rw [standard]; rfl)
  · exact (profile _ rfl).trans (by rw [standard]; rfl)

/-- The reader after the lines before the lists of native sources, links, foreign entries and
dependencies. -/
def manifestBody (manifest : PackageManifest) : ManifestReader :=
  let reader := (manifestHead manifest).addRules manifest.codeStandardRules
  { reader with
    manifest := { reader.manifest with
      source := manifest.source
      testSource := manifest.testSource
      nativeLibrary := manifest.nativeLibrary
      nativeName := manifest.nativeName
      nativeSOVersion := manifest.nativeSOVersion }
    sourceSeen := true
    testSourceSeen := manifest.testSource.isSome
    nativeLibrarySeen := manifest.nativeLibrary
    nativeNameSeen := manifest.nativeName.isSome
    nativeSOVersionSeen := manifest.nativeSOVersion.isSome }

section ReadOptional

variable (path : String) (n : Nat) {reader : ManifestReader}

theorem readLines_testSource (fs : manifest.Fields) (unseen : reader.testSourceSeen = false)
    (absent : reader.manifest.testSource = none) :
    readLines (manifestDirective path) n
        (manifest.testSource.toList.map fun source => ("test_source", [source])) reader
      = { reader with
        manifest := { reader.manifest with testSource := manifest.testSource }
        testSourceSeen := manifest.testSource.isSome } := by
  cases given : manifest.testSource with
  | none =>
    show reader = { reader with
      manifest := { reader.manifest with testSource := none }, testSourceSeen := false }
    rw [← absent, ← unseen]
  | some source => exact read_testSource path n (fs.testSource source given) unseen

theorem readLines_nativeLibrary (unseen : reader.nativeLibrarySeen = false)
    (absent : reader.manifest.nativeLibrary = false) :
    readLines (manifestDirective path) n (libraryLines manifest) reader
      = { reader with
        manifest := { reader.manifest with nativeLibrary := manifest.nativeLibrary }
        nativeLibrarySeen := manifest.nativeLibrary } := by
  unfold libraryLines
  cases manifest.nativeLibrary with
  | false =>
    have same : { reader.manifest with nativeLibrary := false } = reader.manifest := by
      rw [← absent]
    show reader = { reader with
      manifest := { reader.manifest with nativeLibrary := false }, nativeLibrarySeen := false }
    rw [same, ← unseen]
  | true => exact read_nativeLibrary path n unseen

theorem readLines_nativeName (fs : manifest.Fields) (unseen : reader.nativeNameSeen = false)
    (absent : reader.manifest.nativeName = none) :
    readLines (manifestDirective path) n
        (manifest.nativeName.toList.map fun name => ("native_name", [name])) reader
      = { reader with
        manifest := { reader.manifest with nativeName := manifest.nativeName }
        nativeNameSeen := manifest.nativeName.isSome } := by
  cases given : manifest.nativeName with
  | none =>
    show reader = { reader with
      manifest := { reader.manifest with nativeName := none }, nativeNameSeen := false }
    rw [← absent, ← unseen]
  | some name => exact read_nativeName path n (fs.nativeName name given) unseen

theorem readLines_soVersion (unseen : reader.nativeSOVersionSeen = false)
    (absent : reader.manifest.nativeSOVersion = none) :
    readLines (manifestDirective path) n (manifest.nativeSOVersion.toList.map soVersionLine)
        reader
      = { reader with
        manifest := { reader.manifest with nativeSOVersion := manifest.nativeSOVersion }
        nativeSOVersionSeen := manifest.nativeSOVersion.isSome } := by
  cases manifest.nativeSOVersion with
  | none =>
    show reader = { reader with
      manifest := { reader.manifest with nativeSOVersion := none }, nativeSOVersionSeen := false }
    rw [← absent, ← unseen]
  | some version => exact read_soVersion path n version unseen

end ReadOptional

/-- **The lines of a manifest are read back.** -/
theorem readLines_manifestLines (path : String) (fs : manifest.Fields) :
    ∃ reader, readLines (manifestDirective path) 1 (manifestLines manifest) {} = reader
      ∧ reader.manifest = manifest ∧ reader.errors = []
      ∧ missingManifestDirectives path reader = [] := by
  refine ⟨((((manifestBody manifest).addSources manifest.nativeSources).addLinks
    manifest.nativeLinks).addForeign manifest.foreign).addDependencies manifest.dependencies,
    ?_, ?_, rfl, ?_⟩
  · unfold manifestLines
    rw [readLines_append, readLines_append, readLines_append, readLines_append, readLines_append,
      readLines_append, readLines_append, readLines_append, readLines_append, readLines_append,
      readLines_manifestHead path fs,
      readLines_rules path _ _ fs.rules fs.rulesUnique rfl rfl, readLines_cons,
      read_source path _ fs.source rfl]
    show readLines _ _ _ (readLines _ _ _ (readLines _ _ _ (readLines _ _ _ (readLines _ _ _
      (readLines _ _ _ (readLines _ _ _ (readLines _ _ _ _))))))) = _
    rw [readLines_testSource path _ fs rfl rfl, readLines_nativeLibrary path _ rfl rfl,
      readLines_nativeName path _ fs rfl rfl, readLines_soVersion path _ rfl rfl,
      readLines_nativeSources path _ _ fs.sources, readLines_nativeLinks path _ _ fs.links,
      readLines_manifestForeign path _ _ fs.foreign,
      readLines_dependencies path _ _ fs.dependencies]
    · rfl
    · exact fs.dependenciesUnique
    · exact fs.few
    · exact fs.foreignUnique
    · exact fs.linksUnique
    · exact fs.sourcesUnique
  · have level := fs.language
    obtain ⟨⟩ := manifest
    cases level
    rfl
  · unfold missingManifestDirectives
    cases explicit : manifest.languageExplicit <;>
      simp [explicit, ManifestReader.addDependencies, ManifestReader.addForeign,
        ManifestReader.addLinks, ManifestReader.addSources, manifestBody, ManifestReader.addRules,
        manifestHead]

/-! ### Round trips -/

/-- **A valid manifest is rendered to a text that parses to its rendered order.** -/
theorem parsePackageManifest_render (path : String) (fs : manifest.Fields)
    (fits : manifestConflicts path manifest = []) :
    parsePackageManifest path (renderPackageManifest manifest)
      = { value := some manifest.rendered } := by
  obtain ⟨_, read, made, silent, complete⟩ := readLines_manifestLines path fs.rendered
  have sorted : manifest.rendered.sort = manifest.rendered := by
    simp only [PackageManifest.rendered, PackageManifest.sort, stdSort_stdSort]
  unfold parsePackageManifest
  rw [renderPackageManifest_eq fs, lines_linesText, read]
  unfold finishManifest
  rw [← manifestConflicts_generic path fs] at fits
  rw [silent, complete, made,
    manifestConflicts_of_reordered path manifest.reordered_rendered fits, sorted]
  rfl

/-- Two manifests that differ in the order of their foreign entries and of their rules only. The two
directories are compared as paths, by their elements; both are relative. -/
structure PackageManifest.SameUpToOrder (left right : PackageManifest) : Prop where
  rules : left.codeStandardRules.Perm right.codeStandardRules
  foreign : left.foreign.Perm right.foreign
  source : pathParts left.source = pathParts right.source
  testSource : left.testSource.map pathParts = right.testSource.map pathParts
  others : { left with
    codeStandardRules := right.codeStandardRules, foreign := right.foreign
    source := right.source, testSource := right.testSource } = right

/-- **The manifest codec round trip.** A manifest that was parsed is rendered to a text that is
accepted and parses to it up to the order of foreign entries and rules, and what was parsed again is
rendered to the same text. -/
theorem parsePackageManifest_roundTrip (path source : String) (manifest : PackageManifest)
    (accepted : (parsePackageManifest path source).value = some manifest) :
    ∃ again, parsePackageManifest path (renderPackageManifest manifest) = { value := some again }
      ∧ again.SameUpToOrder manifest
      ∧ renderPackageManifest again = renderPackageManifest manifest := by
  obtain ⟨fields, fits, sorted⟩ := parsePackageManifest_accepts accepted
  refine ⟨manifest.rendered, parsePackageManifest_render path fields fits, ?_, ?_⟩
  · refine ⟨stdSort_perm _ _, stdSort_perm _ _, pathParts_genericString fields.source, ?_, sorted⟩
    cases given : manifest.testSource with
    | none => simp [PackageManifest.rendered, PackageManifest.generic, PackageManifest.sort, given]
    | some source =>
      simp [PackageManifest.rendered, PackageManifest.generic, PackageManifest.sort, given,
        pathParts_genericString (fields.testSource source given)]
  · have twice : manifest.rendered.rendered = manifest.rendered := by
      have again : manifest.testSource.map (genericString ∘ genericString)
          = manifest.testSource.map genericString :=
        Option.map_congr fun source given =>
          genericString_genericString (fields.testSource source given)
      simp only [PackageManifest.rendered, PackageManifest.sort, PackageManifest.sortedRules,
        PackageManifest.sortedForeign, PackageManifest.generic, stdSort_stdSort, Option.map_map, again,
        genericString_genericString fields.source]
    rw [renderPackageManifest_eq fields, renderPackageManifest_eq fields.rendered, twice]

/-- A manifest with a comment, a quoted path with a doubled separator and two rules out of order. -/
def sampleManifestText : String :=
  "format foundation.package/v1\nname app # comment\nversion 1.0.0\nlanguage 1\n" ++
    "fcs_rule FCS2001 off\nfcs_rule FCS1001 error\nsource \"a b//c\"\r\n"

theorem parsePackageManifest_roundTrip_sample :
    ∃ manifest again, (parsePackageManifest "p" sampleManifestText).value = some manifest
      ∧ manifest.source = "a b//c"
      ∧ parsePackageManifest "p" (renderPackageManifest manifest) = { value := some again }
      ∧ again.SameUpToOrder manifest := by
  have accepted : (parsePackageManifest "p" sampleManifestText).value
      = some { name := "app", version := { major := 1 }, languageExplicit := true, sdk := ⟨.any, {}⟩
               codeStandardRules := [⟨"FCS2001", .off⟩, ⟨"FCS1001", .error⟩], source := "a b//c" } := by
    decide +kernel
  obtain ⟨again, read, same, _⟩ :=
    parsePackageManifest_roundTrip "p" sampleManifestText _ accepted
  exact ⟨_, again, accepted, rfl, read, same⟩

end FoundationLang.Package
