/-
**The fields of a manifest.**

Every manifest that `parsePackageManifest` accepts has valid fields that fit together, and its native
sources, native links and dependencies are sorted. Nothing of this depends on the order in which the
entries of a list were written.
-/

import FoundationLang.Package.ManifestFile

namespace FoundationLang.Package

open Std List

variable {arguments : List String} {manifest : PackageManifest} {s : PackageManifest}

/-! ### Valid manifests -/

/-- A native source that its directive accepts: its path is a normal form. -/
structure NativeSource.Valid (source : NativeSource) : Prop where
  relative : relativeSource source.path = true
  normal : lexicallyNormal source.path = source.path
  extension : fileExtension source.path = ".c"

/-- Two native sources that cannot both be built. -/
def NativeSource.Clash (left right : NativeSource) : Prop :=
  pathParts left.path = pathParts right.path ∧ overlappingTargets left.target right.target = true

/-- Two native links that cannot both be made. -/
def NativeLink.Clash (left right : NativeLink) : Prop :=
  left.library = right.library ∧ overlappingTargets left.target right.target = true

/-- A foreign entry that its directive accepts. -/
structure Foreign.Valid (entry : Foreign) : Prop where
  ecosystem : foreignEcosystem entry.ecosystem = true
  identifier : entry.identifier ≠ ""
  version : entry.version ≠ ""
  kind : foreignKind entry.kind = true
  resolver : entry.resolver ≠ ""
  path : entry.kind = "path" → relativeSource entry.resolver = true

/-- What makes a foreign entry unique. -/
def Foreign.key (entry : Foreign) : String × String :=
  (entry.ecosystem, entry.identifier)

/-- A dependency that its directive accepts. -/
structure PackageDependency.Valid (dependency : PackageDependency) : Prop where
  name : identifier dependency.name = true
  requirement : dependency.requirement.Valid
  location : validLocation dependency.kind dependency.location = true

/-- What makes a dependency unique. -/
def PackageDependency.key (dependency : PackageDependency) : String × Option TargetSelector :=
  (dependency.name, dependency.target)

/-- The fields of a manifest that have a default. -/
structure PackageManifest.Entries (manifest : PackageManifest) : Prop where
  language : manifest.language = 1
  profile : manifest.codeStandardExplicit = false → manifest.codeStandard = .standard
  rules : ∀ rule ∈ manifest.codeStandardRules, configurableCodeStandardRule rule.code = true
  rulesUnique : (manifest.codeStandardRules.map (·.code)).Nodup
  testSource : ∀ source, manifest.testSource = some source → relativeSource source = true
  nativeName : ∀ name, manifest.nativeName = some name → identifier name = true
  sources : ∀ source ∈ manifest.nativeSources, source.Valid
  sourcesUnique : manifest.nativeSources.Pairwise fun left right => ¬left.Clash right
  links : ∀ link ∈ manifest.nativeLinks, identifier link.library = true
  linksUnique : manifest.nativeLinks.Pairwise fun left right => ¬left.Clash right
  foreign : ∀ entry ∈ manifest.foreign, entry.Valid
  foreignUnique : (manifest.foreign.map Foreign.key).Nodup
  dependencies : ∀ dependency ∈ manifest.dependencies, dependency.Valid
  dependenciesUnique : (manifest.dependencies.map PackageDependency.key).Nodup
  few : manifest.dependencies.length ≤ maxPackageEntries

/-- **Every field of the manifest is one that its directive accepts.** -/
structure PackageManifest.Fields (manifest : PackageManifest) : Prop extends manifest.Entries where
  name : identifier manifest.name = true
  version : manifest.version.Valid
  anySdk : manifest.languageExplicit = true → manifest.sdk = ⟨.any, {}⟩
  sdk : manifest.languageExplicit = false → manifest.sdk.Valid
  source : relativeSource manifest.source = true

/-! ### What a directive accepts -/

/-- What the reader knows of the manifest as long as it has reported nothing. -/
structure ManifestReader.Valid (reader : ManifestReader) : Prop where
  entries : reader.manifest.Entries
  codes : ∀ rule ∈ reader.manifest.codeStandardRules, rule.code ∈ reader.codeStandardRules
  name : reader.nameSeen = true → identifier reader.manifest.name = true
  version : reader.versionSeen = true → reader.manifest.version.Valid
  source : reader.sourceSeen = true → relativeSource reader.manifest.source = true
  language : reader.manifest.languageExplicit = reader.languageSeen
  anySdk : reader.languageSeen = true → reader.sdkSeen = false →
    reader.manifest.sdk = ⟨.any, {}⟩
  sdk : reader.sdkSeen = true → reader.languageSeen = false → reader.manifest.sdk.Valid

theorem singleEntry_ok {α : Type} {seen : Bool} {parse : String → Option α}
    {store : α → PackageManifest} {error : String × String}
    (accepted : singleEntry seen parse store error arguments = .ok manifest) :
    ∃ text value, parse text = some value ∧ manifest = store value := by
  unfold singleEntry at accepted
  split at accepted
  · rename_i text
    split at accepted
    · rename_i value parsed
      split at accepted
      · cases accepted
      · cases accepted
        exact ⟨text, value, parsed, rfl⟩
    · cases accepted
  · cases accepted

theorem checked_eq_some {check : String → Bool} {text v : String}
    (parsed : checked check text = some v) : check v = true := by
  unfold checked at parsed
  split_ifs at parsed with passed
  cases parsed
  exact passed

theorem fcsRuleEntry_ok {reader : ManifestReader}
    (accepted : fcsRuleEntry reader arguments = .ok manifest) :
    ∃ rule : CodeStandardRuleSetting, configurableCodeStandardRule rule.code = true
      ∧ rule.code ∉ reader.codeStandardRules
      ∧ ruleCodesAfter reader arguments = reader.codeStandardRules.insert rule.code
      ∧ manifest = { reader.manifest with
        codeStandardRules := reader.manifest.codeStandardRules ++ [rule] } := by
  unfold fcsRuleEntry at accepted
  simp only at accepted
  split at accepted
  · rename_i code word
    split at accepted
    · rename_i severity parsed
      split at accepted
      · rename_i passed
        cases accepted
        simp only [Bool.and_eq_true, Bool.not_eq_true', contains_eq_mem, decide_eq_false_iff_not]
          at passed
        exact ⟨⟨code, severity⟩, passed.1.1, passed.1.2, by simp [ruleCodesAfter, parsed, passed.1.1],
          rfl⟩
      · cases accepted
    · cases accepted
  · cases accepted

theorem nativeSourceEntry_ok
    (accepted : nativeSourceEntry s arguments = .ok manifest) :
    ∃ source : NativeSource, source.Valid ∧ (∀ y ∈ s.nativeSources, ¬y.Clash source)
      ∧ manifest = { s with nativeSources := s.nativeSources ++ [source] } := by
  unfold nativeSourceEntry at accepted
  simp only at accepted
  split at accepted
  · rename_i file qualifiers
    split at accepted
    · rename_i target _
      split at accepted
      · rename_i passed
        cases accepted
        simp only [Bool.and_eq_true, Bool.not_eq_true', any_eq_false, beq_iff_eq] at passed
        obtain ⟨⟨relative, extension⟩, fresh⟩ := passed
        obtain ⟨below, normal⟩ := lexicallyNormal_idem relative
        exact ⟨⟨lexicallyNormal file, target⟩, ⟨below, normal, extension⟩, fresh, rfl⟩
      · cases accepted
    · cases accepted
  · cases accepted

theorem nativeLinkEntry_ok
    (accepted : nativeLinkEntry s arguments = .ok manifest) :
    ∃ link : NativeLink, identifier link.library = true
      ∧ (∀ y ∈ s.nativeLinks, ¬y.Clash link)
      ∧ manifest = { s with nativeLinks := s.nativeLinks ++ [link] } := by
  unfold nativeLinkEntry at accepted
  simp only at accepted
  split at accepted
  · rename_i library qualifiers
    split at accepted
    · rename_i target _
      split at accepted
      · rename_i passed
        cases accepted
        simp only [Bool.and_eq_true, Bool.not_eq_true', any_eq_false, beq_iff_eq] at passed
        exact ⟨⟨library, target⟩, passed.1, passed.2, rfl⟩
      · cases accepted
    · cases accepted
  · cases accepted

theorem manifestForeignEntry_ok
    (accepted : manifestForeignEntry s arguments = .ok manifest) :
    ∃ entry : Foreign, entry.Valid ∧ entry.key ∉ s.foreign.map Foreign.key
      ∧ manifest = { s with foreign := s.foreign ++ [entry] } := by
  unfold manifestForeignEntry at accepted
  simp only at accepted
  split at accepted
  · rename_i ecosystem name version kind resolver abi level
    split at accepted
    · rename_i passed
      cases accepted
      simp only [Bool.and_eq_true, Bool.or_eq_true, bne_iff_ne, Bool.not_eq_true',
        String.isEmpty_eq_false_iff, any_eq_false, beq_iff_eq, not_and] at passed
      obtain ⟨⟨⟨⟨⟨⟨⟨⟨known, named⟩, versioned⟩, resolved⟩, kinded⟩, below⟩, _⟩, _⟩, fresh⟩ := passed
      refine ⟨⟨ecosystem, name, version, kind, resolver⟩,
        ⟨known, named, versioned, kinded, resolved, fun path => below.resolve_left fun y =>
          y path⟩, fun mem => ?_, rfl⟩
      obtain ⟨y, present, same⟩ := mem_map.mp mem
      obtain ⟨one, two⟩ := Prod.mk.inj same
      exact fresh y present one two
    · cases accepted
  · cases accepted

theorem dependencyEntry_ok
    (accepted : dependencyEntry s arguments = .ok manifest) :
    ∃ dep : PackageDependency, dep.Valid
      ∧ dep.key ∉ s.dependencies.map PackageDependency.key
      ∧ s.dependencies.length ≠ maxPackageEntries
      ∧ manifest = { s with dependencies := s.dependencies ++ [dep] } := by
  unfold dependencyEntry at accepted
  simp only at accepted
  split at accepted
  · rename_i name text word location qualifiers
    split at accepted
    · cases accepted
    · split at accepted
      · rename_i requirement kind parsed _
        split at accepted
        · rename_i passed
          simp only [Bool.and_eq_true] at passed
          split at accepted
          · cases accepted
          · rename_i room
            split at accepted
            · cases accepted
            · rename_i fresh
              cases accepted
              refine ⟨⟨name, requirement, kind, location, (readQualifiers {} qualifiers).target,
                (readQualifiers {} qualifiers).scope⟩,
                ⟨passed.1.1, parsePackageRequirement_valid parsed, passed.1.2⟩, fun mem => ?_, room,
                rfl⟩
              obtain ⟨y, present, same⟩ := mem_map.mp mem
              obtain ⟨one, two⟩ := Prod.mk.inj same
              exact fresh (any_eq_true.mpr ⟨y, present, by simp [one, two]⟩)
        · cases accepted
      · cases accepted
  · cases accepted

/-! ### What the reader keeps -/

/-- A reader that has reported nothing took what the directive made. -/
theorem ManifestReader.accept_silent {reader : ManifestReader} {path : String} {line : Nat}
    {entry : ManifestEntry} (silent : (reader.accept path line entry).errors = []) :
    ∃ manifest, entry = .ok manifest ∧ reader.errors = []
      ∧ reader.accept path line entry = { reader with manifest := manifest } := by
  unfold ManifestReader.accept at silent ⊢
  split at silent
  · exact ⟨_, rfl, silent, rfl⟩
  · simp [ManifestReader.report] at silent

theorem ManifestReader.valid_ite {condition : Prop} [Decidable condition]
    {taken others : ManifestReader} (first : taken.errors = [] → taken.Valid)
    (rest : others.errors = [] → others.Valid) :
    (if condition then taken else others).errors = [] →
      (if condition then taken else others).Valid := by
  split
  · exact first
  · exact rest

theorem pairwise_append_singleton {α : Type} {apart : α → α → Prop} {values : List α} {v : α}
    (spread : values.Pairwise apart) (last : ∀ y ∈ values, apart y v) :
    (values ++ [v]).Pairwise apart := by
  rw [pairwise_append]
  refine ⟨spread, pairwise_singleton _ _, fun y mem same present => ?_⟩
  rw [mem_singleton.mp present]
  exact last y mem

section Step

variable {reader : ManifestReader}

theorem fcsRule_valid (valid : reader.Valid)
    (accepted : fcsRuleEntry reader arguments = .ok manifest) :
    { reader with manifest := manifest
                  codeStandardRules := ruleCodesAfter reader arguments : ManifestReader }.Valid := by
  obtain ⟨rule, known, fresh, after, rfl⟩ := fcsRuleEntry_ok accepted
  rw [after]
  have unused : rule.code ∉ reader.manifest.codeStandardRules.map (·.code) := by
    intro mem
    obtain ⟨y, present, same⟩ := mem_map.mp mem
    exact fresh (same ▸ valid.codes y present)
  exact { valid with
    entries := { valid.entries with
      rules := forall_mem_append_singleton valid.entries.rules known
      rulesUnique := nodup_map_append valid.entries.rulesUnique unused }
    codes := forall_mem_append_singleton
      (fun y mem => mem_insert_of_mem (valid.codes y mem)) mem_insert_self }

theorem dependency_valid (valid : reader.Valid)
    (accepted : dependencyEntry reader.manifest arguments = .ok manifest) :
    { reader with manifest := manifest : ManifestReader }.Valid := by
  obtain ⟨dep, known, fresh, room, rfl⟩ := dependencyEntry_ok accepted
  refine { valid with
    entries := { valid.entries with
      dependencies := forall_mem_append_singleton valid.entries.dependencies known
      dependenciesUnique := nodup_map_append valid.entries.dependenciesUnique fresh
      few := ?_ } }
  have few := valid.entries.few
  show (reader.manifest.dependencies ++ [dep]).length ≤ maxPackageEntries
  rw [length_append, length_singleton]
  omega

theorem language_valid (valid : reader.Valid)
    (accepted : languageEntry reader arguments = .ok manifest) :
    { reader with manifest := manifest, languageSeen := true : ManifestReader }.Valid := by
  obtain ⟨_, _, _, rfl⟩ := singleEntry_ok accepted
  exact { valid with
    entries := { valid.entries with language := rfl }
    language := rfl
    anySdk := fun _ _ => rfl
    sdk := fun _ unseen => absurd unseen (by simp) }

theorem sdk_valid (valid : reader.Valid) (accepted : sdkEntry reader arguments = .ok manifest) :
    { reader with manifest := manifest, sdkSeen := true : ManifestReader }.Valid := by
  obtain ⟨_, _, parsed, rfl⟩ := singleEntry_ok accepted
  exact { valid with
    entries := { valid.entries with }
    anySdk := fun _ unseen => absurd unseen (by simp)
    sdk := fun _ _ => parsePackageRequirement_valid parsed }

end Step

/-- **One line keeps what the reader knows**, as long as nothing is reported. -/
theorem manifestDirective_valid (path directive : String) (arguments : List String) (line : Nat)
    (reader : ManifestReader) (valid : reader.errors = [] → reader.Valid)
    (silent : (manifestDirective path directive arguments line reader).errors = []) :
    (manifestDirective path directive arguments line reader).Valid := by
  revert silent
  unfold manifestDirective
  refine ManifestReader.valid_ite (fun silent => ?format) ?_
  case format =>
    obtain ⟨manifest, accepted, s, after⟩ := reader.accept_silent silent
    obtain ⟨_, _, _, rfl⟩ := singleEntry_ok accepted
    rw [after]
    exact { valid s with }
  refine ManifestReader.valid_ite (fun silent => ?name) ?_
  case name =>
    obtain ⟨manifest, accepted, s, after⟩ := reader.accept_silent silent
    obtain ⟨_, _, parsed, rfl⟩ := singleEntry_ok accepted
    rw [after]
    exact { valid s with
      entries := { (valid s).entries with }
      name := fun _ => checked_eq_some parsed }
  refine ManifestReader.valid_ite (fun silent => ?version) ?_
  case version =>
    obtain ⟨manifest, accepted, s, after⟩ := reader.accept_silent silent
    obtain ⟨_, _, parsed, rfl⟩ := singleEntry_ok accepted
    rw [after]
    exact { valid s with
      entries := { (valid s).entries with }
      version := fun _ => parsePackageVersion_valid parsed }
  refine ManifestReader.valid_ite (fun silent => ?language) ?_
  case language =>
    obtain ⟨manifest, accepted, s, after⟩ := reader.accept_silent silent
    rw [after]
    exact (language_valid (valid s) accepted :)
  refine ManifestReader.valid_ite (fun silent => ?sdk) ?_
  case sdk =>
    obtain ⟨manifest, accepted, s, after⟩ := reader.accept_silent silent
    rw [after]
    exact (sdk_valid (valid s) accepted :)
  refine ManifestReader.valid_ite (fun silent => ?fcs) ?_
  case fcs =>
    obtain ⟨manifest, accepted, s, after⟩ := reader.accept_silent silent
    obtain ⟨_, _, _, rfl⟩ := singleEntry_ok accepted
    rw [after]
    exact { valid s with
      entries := { (valid s).entries with profile := fun implicit => absurd implicit (by simp) } }
  refine ManifestReader.valid_ite (fun silent => ?rule) ?_
  case rule =>
    obtain ⟨manifest, accepted, s, after⟩ := reader.accept_silent silent
    rw [after]
    exact (fcsRule_valid (valid s) accepted :)
  refine ManifestReader.valid_ite (fun silent => ?source) ?_
  case source =>
    obtain ⟨manifest, accepted, s, after⟩ := reader.accept_silent silent
    obtain ⟨_, _, parsed, rfl⟩ := singleEntry_ok accepted
    rw [after]
    exact { valid s with
      entries := { (valid s).entries with }
      source := fun _ => checked_eq_some parsed }
  refine ManifestReader.valid_ite (fun silent => ?test) ?_
  case test =>
    obtain ⟨manifest, accepted, s, after⟩ := reader.accept_silent silent
    obtain ⟨_, _, parsed, rfl⟩ := singleEntry_ok accepted
    rw [after]
    exact { valid s with
      entries := { (valid s).entries with
        testSource := fun _ same => Option.some.inj same ▸ checked_eq_some parsed } }
  refine ManifestReader.valid_ite (fun silent => ?library) ?_
  case library =>
    obtain ⟨manifest, accepted, s, after⟩ := reader.accept_silent silent
    obtain ⟨_, _, _, rfl⟩ := singleEntry_ok accepted
    rw [after]
    exact { valid s with entries := { (valid s).entries with } }
  refine ManifestReader.valid_ite (fun silent => ?native) ?_
  case native =>
    obtain ⟨manifest, accepted, s, after⟩ := reader.accept_silent silent
    obtain ⟨_, _, parsed, rfl⟩ := singleEntry_ok accepted
    rw [after]
    exact { valid s with
      entries := { (valid s).entries with
        nativeName := fun _ same => Option.some.inj same ▸ checked_eq_some parsed } }
  refine ManifestReader.valid_ite (fun silent => ?soversion) ?_
  case soversion =>
    obtain ⟨manifest, accepted, s, after⟩ := reader.accept_silent silent
    obtain ⟨_, _, _, rfl⟩ := singleEntry_ok accepted
    rw [after]
    exact { valid s with entries := { (valid s).entries with } }
  refine ManifestReader.valid_ite (fun silent => ?file) ?_
  case file =>
    obtain ⟨manifest, accepted, s, after⟩ := reader.accept_silent silent
    obtain ⟨entry, known, fresh, rfl⟩ := nativeSourceEntry_ok accepted
    rw [after]
    exact { valid s with
      entries := { (valid s).entries with
        sources := forall_mem_append_singleton (valid s).entries.sources known
        sourcesUnique := pairwise_append_singleton (valid s).entries.sourcesUnique fresh } }
  refine ManifestReader.valid_ite (fun silent => ?link) ?_
  case link =>
    obtain ⟨manifest, accepted, s, after⟩ := reader.accept_silent silent
    obtain ⟨entry, known, fresh, rfl⟩ := nativeLinkEntry_ok accepted
    rw [after]
    exact { valid s with
      entries := { (valid s).entries with
        links := forall_mem_append_singleton (valid s).entries.links known
        linksUnique := pairwise_append_singleton (valid s).entries.linksUnique fresh } }
  refine ManifestReader.valid_ite (fun silent => ?foreign) ?_
  case foreign =>
    obtain ⟨manifest, accepted, s, after⟩ := reader.accept_silent silent
    obtain ⟨_, known, fresh, rfl⟩ := manifestForeignEntry_ok accepted
    rw [after]
    exact { valid s with
      entries := { (valid s).entries with
        foreign := forall_mem_append_singleton (valid s).entries.foreign known
        foreignUnique := nodup_map_append (valid s).entries.foreignUnique fresh } }
  refine ManifestReader.valid_ite (fun silent => ?dependency) ?_
  case dependency =>
    obtain ⟨_, accepted, s, after⟩ := reader.accept_silent silent
    rw [after]
    exact (dependency_valid (valid s) accepted :)
  simp [ManifestReader.report]

theorem manifestLines_valid (path source : String) :
    (lines ManifestReader.report (manifestDirective path) path source {}).errors = [] →
      (lines ManifestReader.report (manifestDirective path) path source {}).Valid := by
  refine linesWith_keeps (fun reader : ManifestReader => reader.errors = [] → reader.Valid)
    path source (fun _ => ?_) (fun reader error _ silent => ?_) (manifestDirective_valid path)
  · refine ⟨?_, ?_, ?_, ?_, ?_, ?_, ?_, ?_⟩
    · constructor <;> simp
    all_goals simp
  · simp [ManifestReader.report] at silent

/-! ### The order of entries -/

instance : TransCmp compareTarget :=
  transCmp_on compare fun target : Option TargetSelector => target.map TargetSelector.rank

instance : TransCmp compareNativeSource := by
  have := transCmp_on compareTexts fun source : NativeSource => pathParts source.path
  have := transCmp_on compareTarget NativeSource.target
  exact inferInstanceAs (TransCmp (compareLex (α := NativeSource)
    (fun left right => compareTexts (pathParts left.path) (pathParts right.path))
    fun left right => compareTarget left.target right.target))

instance : TransCmp compareNativeLink := by
  have := transCmp_on compareTarget NativeLink.target
  exact inferInstanceAs (TransCmp (compareLex (α := NativeLink) (compareOn (·.library))
    fun left right => compareTarget left.target right.target))

instance : TransCmp compareDependency := by
  have := transCmp_on compareTarget PackageDependency.target
  exact inferInstanceAs (TransCmp (compareLex (α := PackageDependency) (compareOn (·.name))
    fun left right => compareTarget left.target right.target))

instance : TransCmp compareManifestForeign :=
  transCmp_on compareTexts fun entry : Foreign =>
    [entry.ecosystem, entry.identifier, entry.version, entry.kind, entry.resolver]

instance : TransCmp compareRule :=
  transCmp_on compare CodeStandardRuleSetting.code

theorem PackageManifest.sort_sort (manifest : PackageManifest) :
    manifest.sort.sort = manifest.sort := by
  simp only [PackageManifest.sort, stdSort_stdSort]

/-- Two manifests with the same fields, up to the order of their lists. -/
structure PackageManifest.Reordered (left right : PackageManifest) : Prop where
  rules : left.codeStandardRules.Perm right.codeStandardRules
  dependencies : left.dependencies.Perm right.dependencies
  sources : left.nativeSources.Perm right.nativeSources
  links : left.nativeLinks.Perm right.nativeLinks
  foreign : left.foreign.Perm right.foreign
  others : { left with
    codeStandardRules := right.codeStandardRules, dependencies := right.dependencies
    nativeSources := right.nativeSources, nativeLinks := right.nativeLinks
    foreign := right.foreign } = right

theorem PackageManifest.reordered_sort (manifest : PackageManifest) :
    manifest.Reordered manifest.sort :=
  ⟨.refl _, (stdSort_perm _ _).symm, (stdSort_perm _ _).symm, (stdSort_perm _ _).symm, .refl _, rfl⟩

theorem overlappingTargets_comm (left right : Option TargetSelector) :
    overlappingTargets left right = overlappingTargets right left := by
  cases left with
  | none => cases right <;> rfl
  | some left =>
    cases right with
    | none => rfl
    | some right => cases left <;> cases right <;> rfl

theorem NativeSource.Clash.symm {left right : NativeSource} (clash : left.Clash right) :
    right.Clash left :=
  ⟨clash.1.symm, overlappingTargets_comm left.target right.target ▸ clash.2⟩

theorem NativeLink.Clash.symm {left right : NativeLink} (clash : left.Clash right) :
    right.Clash left :=
  ⟨clash.1.symm, overlappingTargets_comm left.target right.target ▸ clash.2⟩

theorem PackageManifest.Fields.of_reordered {left right : PackageManifest} (fields : left.Fields)
    (same : left.Reordered right) : right.Fields := by
  obtain ⟨rules, dependencies, sources, links, foreign, others⟩ := same
  rw [← others]
  exact { fields with
    rules := fun rule mem => fields.rules rule (rules.mem_iff.mpr mem)
    rulesUnique := (rules.map _).nodup_iff.mp fields.rulesUnique
    sources := fun source mem => fields.sources source (sources.mem_iff.mpr mem)
    sourcesUnique := sources.pairwise fields.sourcesUnique fun {_ _} apart clash =>
      apart clash.symm
    links := fun link mem => fields.links link (links.mem_iff.mpr mem)
    linksUnique := links.pairwise fields.linksUnique fun {_ _} apart clash => apart clash.symm
    foreign := fun entry mem => fields.foreign entry (foreign.mem_iff.mpr mem)
    foreignUnique := (foreign.map _).nodup_iff.mp fields.foreignUnique
    dependencies := fun dep mem =>
      fields.dependencies dep (dependencies.mem_iff.mpr mem)
    dependenciesUnique := (dependencies.map _).nodup_iff.mp fields.dependenciesUnique
    few := dependencies.length_eq ▸ fields.few }

theorem manifestConflicts_of_reordered (path : String) {left right : PackageManifest}
    (same : left.Reordered right) (none : manifestConflicts path left = []) :
    manifestConflicts path right = [] := by
  obtain ⟨_, dependencies, sources, links, foreign, others⟩ := same
  have owned : ownedSource left = ownedSource right := by
    funext source
    exact foreign.any_eq
  have unowned : (left.nativeSources.filter (!ownedSource left ·)).map (fun _ =>
        (⟨path, 1, 1, "FDN4015", "native_source must belong to a foreign c path source"⟩ :
          PackageError)) = []
      ↔ (right.nativeSources.filter (!ownedSource right ·)).map (fun _ =>
        (⟨path, 1, 1, "FDN4015", "native_source must belong to a foreign c path source"⟩ :
          PackageError)) = [] := by
    rw [List.map_eq_nil_iff, List.map_eq_nil_iff, owned, ← List.isEmpty_iff, ← List.isEmpty_iff,
      (sources.filter _).isEmpty_eq]
  unfold manifestConflicts at none ⊢
  simp only [List.append_eq_nil_iff, unowned, dependencies.any_eq, sources.isEmpty_eq,
    links.isEmpty_eq, foreign.isEmpty_eq] at none ⊢
  rw [← others] at none ⊢
  exact none

/-- **What is accepted has valid fields that fit together.** -/
theorem parsePackageManifest_accepts {path source : String}
    (accepted : (parsePackageManifest path source).value = some manifest) :
    manifest.Fields ∧ manifestConflicts path manifest = [] ∧ manifest.sort = manifest := by
  unfold parsePackageManifest finishManifest at accepted
  have valid := manifestLines_valid path source
  generalize lines ManifestReader.report (manifestDirective path) path source {} = reader
    at accepted valid
  simp only at accepted
  split at accepted
  case isFalse => cases accepted
  case isTrue silent =>
    cases accepted
    rw [List.isEmpty_iff, List.append_eq_nil_iff, List.append_eq_nil_iff] at silent
    obtain ⟨⟨errors, missing⟩, conflicts⟩ := silent
    obtain ⟨entries, _, name, version, source, language, anySdk, sdk⟩ := valid errors
    have seen : reader.nameSeen = true ∧ reader.versionSeen = true ∧ reader.sourceSeen = true
        ∧ reader.sdkSeen = !reader.languageSeen := by
      unfold missingManifestDirectives at missing
      cases named : reader.nameSeen <;> cases versioned : reader.versionSeen <;>
        cases sourced : reader.sourceSeen <;> cases explicit : reader.languageSeen <;>
        cases required : reader.sdkSeen <;>
        simp [named, versioned, sourced, explicit, required] at missing ⊢
    have fields : reader.manifest.Fields := { entries with
      name := name seen.1
      version := version seen.2.1
      source := source seen.2.2.1
      anySdk := fun explicit => anySdk (language ▸ explicit) (by
        rw [seen.2.2.2, ← language, explicit]
        rfl)
      sdk := fun implicit => sdk (by
        rw [seen.2.2.2, ← language, implicit]
        rfl) (language ▸ implicit) }
    exact ⟨fields.of_reordered reader.manifest.reordered_sort,
      manifestConflicts_of_reordered path reader.manifest.reordered_sort conflicts,
      reader.manifest.sort_sort⟩

end FoundationLang.Package
