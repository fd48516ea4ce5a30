/-
**Resolution does not depend on the order of the catalog.**

Two runs of `resolvePackageGraph` on one catalog in two orders. The catalog is sorted before the
search, so the search itself sees one list, unless two candidates compare as equal; and then
`adjacent_find` has found them and the run ends with `FDN4053`. The checks before the sort do not
look at the order either: they ask whether some candidate is invalid, and name the first one.
-/

import FoundationLang.Package.ResolverComplete
import FoundationLang.Package.ResolverFailure

namespace FoundationLang.Package

open Std Relation

/-! ### Duplicates of a sorted catalog -/

theorem adjacentFind_eq_none_iff {catalog : List PackageCandidate}
    (sorted : catalog.Pairwise fun left right => (compareCandidate left right).isLE = true) :
    adjacentFind duplicateCandidate catalog = none
      ↔ catalog.Pairwise fun left right => compareSource left right ≠ .eq := by
  induction catalog with
  | nil => simp [adjacentFind]
  | cons first rest ih =>
    cases rest with
    | nil => simp [adjacentFind]
    | cons y =>
      have tail := ih sorted.of_cons
      rw [adjacentFind]
      by_cases same : duplicateCandidate first y = true
      · have equal := duplicateCandidate_iff.mp same
        rw [if_pos same]
        refine ⟨fun found => (by cases found), fun distinct => ?_⟩
        exact absurd equal (List.rel_of_pairwise_cons distinct (by simp))
      · rw [if_neg same, tail]
        refine ⟨fun distinct => List.pairwise_cons.mpr ⟨fun z mem => ?_, distinct⟩,
          fun distinct => distinct.of_cons⟩
        have unequal : compareSource first y ≠ .eq := fun equal =>
          same (duplicateCandidate_iff.mpr equal)
        have sources (left right : PackageCandidate)
            (le : (compareCandidate left right).isLE = true) :
            (compareSource left right).isLE = true := by
          rw [compareCandidate_eq] at le
          cases outcome : compareSource left right <;> rw [outcome] at le <;> first | rfl | cases le
        have below := sources first y (List.rel_of_pairwise_cons sorted (by simp))
        intro equal
        rcases List.mem_cons.mp mem with here | later
        · exact unequal (here ▸ equal)
        · -- `first ≤ y ≤ z` and `first` equal to `z` make all three equal
          have above := sources y z (List.rel_of_pairwise_cons sorted.of_cons later)
          have swap (left right : PackageCandidate) :
              compareSource left right = (compareSource right left).swap := OrientedCmp.eq_swap
          have back : (compareSource z first).isLE = true := by
            rw [swap, equal]
            rfl
          have closed : (compareSource y first).isLE = true := TransCmp.isLE_trans above back
          rw [swap] at closed
          cases outcome : compareSource first y <;> rw [outcome] at below closed unequal
          · cases closed
          · exact unequal rfl
          · cases below

/-- **No two candidates of one source**: of one name, version, kind and location. -/
def DistinctSources (catalog : List PackageCandidate) : Prop :=
  catalog.Pairwise fun left right => compareSource left right ≠ .eq

theorem sortCatalog_perm (catalog : List PackageCandidate) :
    (sortCatalog catalog).Perm catalog :=
  stdSort_perm _ catalog

theorem distinctSources_of_perm {x second : List PackageCandidate} (perm : x.Perm second) :
    DistinctSources x ↔ DistinctSources second :=
  perm.pairwise_iff fun {_ _} => mt OrientedCmp.eq_symm

theorem adjacentFind_sortCatalog (catalog : List PackageCandidate) :
    adjacentFind duplicateCandidate (sortCatalog catalog) = none ↔ DistinctSources catalog := by
  unfold sortCatalog
  rw [adjacentFind_eq_none_iff (stdSort_pairwise catalog)]
  exact distinctSources_of_perm (sortCatalog_perm catalog)

theorem sortCatalog_eq_of_perm {x second : List PackageCandidate} (perm : x.Perm second)
    (distinct : DistinctSources x) : sortCatalog x = sortCatalog second := by
  refine stdSort_eq_of_perm perm (distinct.imp fun {left right} unequal equal => unequal ?_)
  rw [compareCandidate_eq, Ordering.then_eq_eq] at equal
  exact equal.1

/-! ### Outcomes of a run -/

/-- A run that fails, with one code. -/
def Fails (code : String) (outcome : Option (PackageParseResult PackageResolution)) : Prop :=
  ∃ result, outcome = some result ∧ result.value = none ∧ result.errors ≠ []
    ∧ ∀ error ∈ result.errors, error.code = code

/-- A run that returns a lock. -/
def Locks (lock : PackageLock) (outcome : Option (PackageParseResult PackageResolution)) : Prop :=
  ∃ result resolution, outcome = some result ∧ result.value = some resolution
    ∧ resolution.lock = lock

/-- **Two runs with the same outcome**: equal locks, or failures with one code. -/
def SameOutcome (one two : Option (PackageParseResult PackageResolution)) : Prop :=
  (∃ lock, Locks lock one ∧ Locks lock two) ∨ ∃ code, Fails code one ∧ Fails code two

/-- **A settled input**: a check before the search fails, or a level that the search can reach
explains itself. -/
def Settled (root : PackageManifest) (sdk : PackageVersion) (target : TargetPlatform)
    (catalog : List PackageCandidate) : Prop :=
  root.sdk.accepts sdk = false ∨ maxCatalogCandidates < catalog.length
    ∨ (∃ candidate ∈ catalog, invalidCandidate candidate = true) ∨ ¬DistinctSources catalog
    ∨ ∃ state, ReflTransGen (SearchStep sdk target (sortCatalog catalog)) (rootState root target)
        state ∧ Explains sdk target (sortCatalog catalog) state

section Outcome

variable (environment : Environment) (rootManifestPath : String) {root : PackageManifest}
  {sdk : PackageVersion} {target : TargetPlatform} {catalog : List PackageCandidate}

theorem fails_single (code message : String) :
    Fails code (some { errors := [⟨rootManifestPath, 1, 1, code, message⟩] }) :=
  ⟨_, rfl, rfl, by simp, by simp⟩

theorem resolve_sdk (rejected : root.sdk.accepts sdk = false) :
    Fails "FDN4050"
      (resolvePackageGraph environment rootManifestPath root sdk target catalog) := by
  rw [resolvePackageGraph, if_pos (by simp [rejected])]
  exact fails_single rootManifestPath _ _

section

variable (accepted : root.sdk.accepts sdk = true)
include accepted

theorem resolve_large
    (large : maxCatalogCandidates < catalog.length) :
    Fails "FDN4055"
      (resolvePackageGraph environment rootManifestPath root sdk target catalog) := by
  rw [resolvePackageGraph, if_neg (by simp [accepted]), if_pos large]
  exact fails_single rootManifestPath _ _

theorem resolve_invalid
    (small : ¬maxCatalogCandidates < catalog.length)
    (invalid : ∃ candidate ∈ catalog, invalidCandidate candidate = true) :
    Fails "FDN4051"
      (resolvePackageGraph environment rootManifestPath root sdk target catalog) := by
  obtain ⟨_, x⟩ := Option.isSome_iff_exists.mp (List.find?_isSome.mpr invalid)
  rw [resolvePackageGraph, if_neg (by simp [accepted]), if_neg small, x]
  exact fails_single rootManifestPath _ _

theorem resolve_duplicate
    (small : ¬maxCatalogCandidates < catalog.length)
    (valid : ¬∃ candidate ∈ catalog, invalidCandidate candidate = true)
    (shared : ¬DistinctSources catalog) :
    Fails "FDN4053"
      (resolvePackageGraph environment rootManifestPath root sdk target catalog) := by
  have none : catalog.find? invalidCandidate = none := by
    rw [List.find?_eq_none]
    exact fun candidate mem invalid => valid ⟨candidate, mem, invalid⟩
  rw [← adjacentFind_sortCatalog, ← ne_eq, Option.ne_none_iff_exists'] at shared
  obtain ⟨_, found⟩ := shared
  rw [resolvePackageGraph, if_neg (by simp [accepted]), if_neg small, none]
  simp only [found]
  exact fails_single rootManifestPath _ _

/-- The rest of `resolvePackageGraph`, once the checks have passed. -/
def searchOutcome (root : PackageManifest) (sdk : PackageVersion) (target : TargetPlatform)
    (sorted : List PackageCandidate) : Option (PackageParseResult PackageResolution) :=
  match solveRoot root sdk target sorted with
  | (none, none) => none
  | (none, some failure) =>
    some { errors := [⟨rootManifestPath, 1, 1, failure.code, failure.message⟩] }
  | (some state, _) =>
    let metadata := lockRootPackageMetadata environment
      { rootName := root.name, rootVersion := root.version, target := target } root target
      rootManifestPath
    if metadata.2.isEmpty then some { value := some (lockGraph sorted state metadata.1) }
    else some { errors := metadata.2 }

theorem resolve_search
    (small : ¬maxCatalogCandidates < catalog.length)
    (valid : ¬∃ candidate ∈ catalog, invalidCandidate candidate = true)
    (distinct : DistinctSources catalog) :
    resolvePackageGraph environment rootManifestPath root sdk target catalog
      = searchOutcome environment rootManifestPath root sdk target (sortCatalog catalog) := by
  have none : catalog.find? invalidCandidate = none := by
    rw [List.find?_eq_none]
    exact fun candidate mem invalid => valid ⟨candidate, mem, invalid⟩
  rw [resolvePackageGraph, if_neg (by simp [accepted]), if_neg small, none]
  simp only [(adjacentFind_sortCatalog catalog).mpr distinct]
  rfl

end

theorem searchOutcome_same (sorted : List PackageCandidate)
    (explained : Explained (solveRoot root sdk target sorted)) :
    SameOutcome (searchOutcome environment rootManifestPath root sdk target sorted)
      (searchOutcome environment rootManifestPath root sdk target sorted) := by
  unfold searchOutcome
  split
  case h_1 silent =>
    rw [silent] at explained
    exact absurd (explained rfl) (by simp)
  case h_2 failure _ =>
    have fails := fails_single rootManifestPath failure.code failure.message
    exact .inr ⟨failure.code, fails, fails⟩
  case h_3 state _ _ =>
    simp only
    split
    case isTrue => exact .inl ⟨_, ⟨_, _, rfl, rfl, rfl⟩, ⟨_, _, rfl, rfl, rfl⟩⟩
    case isFalse reported =>
      have fails : Fails "FDN4057" (some { errors := (lockRootPackageMetadata environment
          { rootName := root.name, rootVersion := root.version, target := target } root target
          rootManifestPath).2 }) :=
        ⟨_, rfl, rfl, fun empty => reported (List.isEmpty_iff.mpr empty), fun error mem =>
          lockRootPackageMetadata_codes { rootName := root.name, rootVersion := root.version }
            target mem⟩
      exact .inr ⟨_, fails, fails⟩

theorem searchOutcome_silent {sorted : List PackageCandidate}
    (silent : ¬Explained (solveRoot root sdk target sorted)) :
    searchOutcome environment rootManifestPath root sdk target sorted = none := by
  unfold searchOutcome
  generalize solveRoot root sdk target sorted = outcome at silent
  obtain ⟨_ | _, _ | _⟩ := outcome
  · rfl
  · simp [Explained] at silent
  · simp [Explained] at silent
  · simp [Explained] at silent

end Outcome

/-! ### Two runs -/

/-- **Resolution is deterministic.** On two orders of one catalog `resolvePackageGraph` returns
equal locks or fails with one code, exactly when the input is settled. -/
theorem resolvePackageGraph_order (environment : Environment) (rootManifestPath : String)
    (root : PackageManifest) (sdk : PackageVersion) (target : TargetPlatform)
    (first second : List PackageCandidate) (perm : first.Perm second) :
    SameOutcome (resolvePackageGraph environment rootManifestPath root sdk target first)
        (resolvePackageGraph environment rootManifestPath root sdk target second)
      ↔ Settled root sdk target first := by
  have length : first.length = second.length := perm.length_eq
  have invalids : (∃ candidate ∈ first, invalidCandidate candidate = true)
      ↔ ∃ candidate ∈ second, invalidCandidate candidate = true :=
    exists_congr fun _ => and_congr_left fun _ => perm.mem_iff
  have sources := distinctSources_of_perm perm
  cases accepted : root.sdk.accepts sdk with
  | false =>
    refine iff_of_true (.inr ⟨"FDN4050", ?_, ?_⟩) (.inl accepted)
    · exact resolve_sdk environment rootManifestPath accepted
    · exact resolve_sdk environment rootManifestPath accepted
  | true =>
  by_cases large : maxCatalogCandidates < first.length
  · refine iff_of_true (.inr ⟨"FDN4055", ?_, ?_⟩) (.inr (.inl large))
    · exact resolve_large environment rootManifestPath accepted large
    · exact resolve_large environment rootManifestPath accepted (length ▸ large)
  by_cases invalid : ∃ candidate ∈ first, invalidCandidate candidate = true
  · refine iff_of_true (.inr ⟨"FDN4051", ?_, ?_⟩) (.inr (.inr (.inl invalid)))
    · exact resolve_invalid environment rootManifestPath accepted large invalid
    · exact resolve_invalid environment rootManifestPath accepted (length ▸ large)
        (invalids.mp invalid)
  by_cases distinct : DistinctSources first
  swap
  · refine iff_of_true (.inr ⟨"FDN4053", ?_, ?_⟩) (.inr (.inr (.inr (.inl distinct))))
    · exact resolve_duplicate environment rootManifestPath accepted large invalid distinct
    · exact resolve_duplicate environment rootManifestPath accepted (length ▸ large)
        (invalids.not.mp invalid) (sources.not.mp distinct)
  -- both runs search the same sorted list
  rw [resolve_search environment rootManifestPath accepted large invalid distinct,
    resolve_search environment rootManifestPath accepted (length ▸ large) (invalids.not.mp invalid)
      (sources.mp distinct), ← sortCatalog_eq_of_perm perm distinct]
  constructor
  · intro same
    refine .inr (.inr (.inr (.inr (exists_explains ?_))))
    by_contra silent
    rw [searchOutcome_silent environment rootManifestPath silent] at same
    rcases same with ⟨_, ⟨_, _, none, _⟩, _⟩ | ⟨_, ⟨_, none, _⟩, _⟩
    · cases none
    · cases none
  · rintro (rejected | oversized | present | shared | ⟨_, reached, explains⟩)
    · exact absurd (accepted.symm.trans rejected) (by simp)
    · exact absurd oversized large
    · exact absurd present invalid
    · exact absurd distinct shared
    · exact searchOutcome_same environment rootManifestPath _
        (solveRoot_explained reached explains)

/-- A second candidate for the sample root. -/
def olderCandidate : PackageCandidate :=
  { sampleCandidate with manifest := { sampleCandidate.manifest with
    version := { major := 1, minor := 1 } } }

/-- The sample catalog in two orders gives one lock. -/
theorem resolvePackageGraph_order_sample :
    SameOutcome
        (resolvePackageGraph sampleEnvironment "foundation.toml" sampleRoot {} .linux
          [sampleCandidate, olderCandidate])
        (resolvePackageGraph sampleEnvironment "foundation.toml" sampleRoot {} .linux
          [olderCandidate, sampleCandidate])
      ↔ Settled sampleRoot {} .linux [sampleCandidate, olderCandidate] :=
  resolvePackageGraph_order sampleEnvironment "foundation.toml" sampleRoot {} .linux _ _
    (List.Perm.swap _ _ _)

/-- **A run without an outcome.** The root that is rejected in silence does not fail with a code,
not even against itself. -/
theorem resolvePackageGraph_order_silent :
    ¬SameOutcome
      (resolvePackageGraph sampleEnvironment "foundation.toml" silentRoot {} .linux silentCatalog)
      (resolvePackageGraph sampleEnvironment "foundation.toml" silentRoot {} .linux
        silentCatalog) := by
  have none : resolvePackageGraph sampleEnvironment "foundation.toml" silentRoot {} .linux
      silentCatalog = none := rfl
  rw [none]
  rintro (⟨_, ⟨_, _, absent, _⟩, _⟩ | ⟨_, ⟨_, absent, _⟩, _⟩)
  · cases absent
  · cases absent

end FoundationLang.Package
