/-
**When the graph of a lock is accepted.**
-/

import FoundationLang.Package.LockText

namespace FoundationLang.Package

open Library Relation

/-- The root, or a package of the lock. -/
def PackageLock.Known (lock : PackageLock) (name : String) : Prop :=
  name = lock.rootName ∨ lock.Names name

/-- **A sound graph of packages and edges.** -/
structure PackageLock.GraphSound (lock : PackageLock) : Prop where
  known : ∀ edge ∈ lock.edges, lock.Known edge.parent ∧ lock.Known edge.dependency
  unique : (lock.edges.map PackageEdge.ends).Nodup
  scopes : ∀ edge ∈ lock.edges, edge.scope = .test → edge.parent = lock.rootName
  acyclic : Acyclic lock.Depends
  reachable : ∀ package ∈ lock.packages, ReflTransGen lock.Depends lock.rootName package.name

variable {lock : PackageLock}

theorem PackageLock.GraphSound.reaches (sound : lock.GraphSound) {name : String}
    (known : lock.Known name) : ReflTransGen lock.Depends lock.rootName name := by
  rcases known with rfl | ⟨package, mem, rfl⟩
  · exact .refl
  · exact sound.reachable package mem

/-- **No edge of a sound graph leads to the root**, since that would close a cycle. -/
theorem PackageLock.GraphSound.dependency_ne_root (sound : lock.GraphSound) {edge : PackageEdge}
    (mem : edge ∈ lock.edges) : edge.dependency ≠ lock.rootName := by
  intro same
  have step : lock.Depends edge.parent lock.rootName := ⟨edge.scope, by rwa [← same]⟩
  exact sound.acyclic lock.rootName (.tail' (sound.reaches (sound.known edge mem).1) step)

theorem graphValid_iff : lock.GraphValid ↔
    (∀ package ∈ lock.packages,
      package.name ≠ lock.rootName ∧ validLocation package.kind package.location = true) ∧
      lock.GraphSound := by
  constructor
  · intro valid
    exact ⟨valid.identity, fun edge mem => ⟨valid.parents edge mem,
      .inr (valid.dependencies edge mem)⟩, valid.unique, valid.scopes, valid.acyclic,
      valid.reachable⟩
  · rintro ⟨identity, sound⟩
    refine ⟨identity, fun edge mem => (sound.known edge mem).1, fun edge mem => ?_,
      sound.scopes, sound.unique, sound.reachable, sound.acyclic⟩
    exact (sound.known edge mem).2.resolve_left (sound.dependency_ne_root mem)

/-- **What `validateLockGraph` accepts**: the sound graphs in which the root has its name alone. -/
theorem validateLockGraph_accepts (lock : PackageLock)
    (located : ∀ package ∈ lock.packages, validLocation package.kind package.location = true) :
    validateLockGraph lock = none ↔
      (∀ package ∈ lock.packages, package.name ≠ lock.rootName) ∧ lock.GraphSound := by
  rw [validateLockGraph_eq_none, graphValid_iff]
  refine and_congr_left fun _ => forall₂_congr fun package mem => ?_
  exact and_iff_left (located package mem)

/-- A lock with two packages, one behind the other. -/
def pathLock : PackageLock where
  rootName := "app"
  rootVersion := {}
  packages := [⟨"a", {}, "", .registry, "main"⟩, ⟨"b", {}, "", .registry, "main"⟩]
  edges := [⟨"app", "a", .test⟩, ⟨"a", "b", .runtime⟩]

theorem validateLockGraph_accepts_sample : validateLockGraph pathLock = none ∧ pathLock.GraphSound := by
  have accepted : validateLockGraph pathLock = none := by decide +kernel
  exact ⟨accepted, ((validateLockGraph_accepts pathLock (by decide +kernel)).mp accepted).2⟩

/-- A lock with a package that has the name of the root. -/
def namesakeText : String :=
  "format foundation.lock/v1\nroot app 1.0.0\ntarget linux\n" ++
    "package app 1.0.0 sha256:" ++ String.ofList (List.replicate 64 '0') ++ " registry main\n"

/-- A lock with a package of the name of its root. -/
def namesakeLock : PackageLock where
  rootName := "app"
  rootVersion := ⟨1, 0, 0, [], []⟩
  target := .linux
  packages := [⟨"app", ⟨1, 0, 0, [], []⟩, "sha256:" ++ String.ofList (List.replicate 64 '0'), .registry,
    "main"⟩]

theorem namesakeLock_sound : namesakeLock.GraphSound where
  known := by simp [namesakeLock]
  unique := by simp [namesakeLock]
  scopes := by simp [namesakeLock]
  acyclic := by
    intro node cycle
    obtain ⟨_, _, step⟩ := TransGen.tail'_iff.mp cycle
    obtain ⟨_, mem⟩ := step
    cases mem
  reachable := by
    intro package mem
    rw [List.mem_singleton.mp mem]
    exact .refl

/-- **A sound graph that is read and not accepted.** -/
theorem validateLockGraph_namesake :
    (lines LockReader.report (lockDirective "foundation.lock") "foundation.lock" namesakeText {}).errors =
        [] ∧
      (lines LockReader.report (lockDirective "foundation.lock") "foundation.lock" namesakeText {}).lock =
        namesakeLock ∧
      namesakeLock.GraphSound ∧ validateLockGraph namesakeLock ≠ none := by
  have read : lines LockReader.report (lockDirective "foundation.lock") "foundation.lock" namesakeText {} =
      { lock := namesakeLock, formatSeen := true, rootSeen := true, targetSeen := true } := by
    decide +kernel
  rw [read]
  exact ⟨rfl, rfl, namesakeLock_sound, by decide +kernel⟩

end FoundationLang.Package
