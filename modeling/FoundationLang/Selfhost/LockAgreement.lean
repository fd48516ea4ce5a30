/-
**The two lock codecs side by side.**

On a text that both compilers tokenize alike, the self-hosted reader follows the one of the bootstrap
compiler line by line (`Follows`): it has the same lock, or it has reported an edge that occurs twice,
which the bootstrap compiler finds in the graph at the end.

* `renderPackageLock_eq` — both write the same bytes, where they quote alike.
-/

import FoundationLang.Selfhost.LineTokens
import FoundationLang.Selfhost.Location
import FoundationLang.Selfhost.LockGraph
import FoundationLang.Selfhost.VersionAgreement

namespace FoundationLang.Selfhost

open Package List

variable {args : List String} {reader : Package.LockReader} {lock : Package.PackageLock}
variable {s : Package.PackageLock}
  {self : LockReader}

/-! ### Readers that follow each other -/

/-- The reader of the self-hosted compiler. -/
def joinReader (reader : Package.LockReader) : LockReader :=
  ⟨joinLock reader.lock, reader.formatSeen, reader.rootSeen, reader.targetSeen, reader.nativeSeen,
    reader.errors⟩

/-- A lock without an edge that occurs twice, and with SDK locations that both compilers accept. -/
structure SoFar (lock : Package.PackageLock) : Prop where
  unique : (lock.edges.map PackageEdge.ends).Nodup
  locations : ∀ package ∈ lock.packages, package.kind = .sdk → locationAlike package.location = true

/-- Some edge occurs twice. -/
def Repeats (lock : Package.PackageLock) : Prop :=
  ¬(lock.edges.map PackageEdge.ends).Nodup

/-- **The self-hosted reader follows the bootstrap one**, or it has reported an edge that occurs
twice. -/
def Follows (reader : Package.LockReader) (self : LockReader) : Prop :=
  (self = joinReader reader ∧ SoFar reader.lock) ∨ (self.errors ≠ [] ∧ Repeats reader.lock)

/-- The entries that the two compilers make of one line. -/
def EntryFollows (entry : Package.LockEntry) (self : LockEntry) : Prop :=
  (self = entry.map joinLock ∧ ∀ lock, entry = .ok lock → SoFar lock)
    ∨ ∃ error lock, self = .error error ∧ entry = .ok lock ∧ Repeats lock

theorem accept_follows (follows : Follows reader self) {e : Package.LockEntry}
    {y : LockEntry} (path : String) (line : Nat)
    (entries : self = joinReader reader → SoFar reader.lock → EntryFollows e y)
    (grows : Repeats reader.lock → ∀ lock, e = .ok lock → Repeats lock) :
    Follows (reader.accept path line e) (self.accept path line y) := by
  rcases follows with ⟨same, sound⟩ | ⟨failed, repeats⟩
  · subst same
    rcases entries rfl sound with ⟨rfl, kept⟩ | ⟨error, lock, rfl, rfl, twice⟩
    · cases e with
      | ok lock => exact .inl ⟨rfl, kept lock rfl⟩
      | error => exact .inl ⟨rfl, sound⟩
    · exact .inr ⟨by simp [LockReader.accept, LockReader.report], twice⟩
  · refine .inr ⟨?_, ?_⟩
    · cases y with
      | ok => exact failed
      | error => simp [LockReader.accept, LockReader.report]
    · cases e with
      | ok lock => exact grows repeats lock rfl
      | error => exact repeats

/-! ### Entries -/

/-- A version that is read gives a version or none, and no panic. -/
theorem rootEntry_checked (reader : LockReader)
    (aligned : ∀ token ∈ args, Aligned token.toList) :
    ∃ entry, rootEntry reader args = some entry := by
  match args, aligned with
  | [], _ => exact ⟨_, rfl⟩
  | [_], _ => exact ⟨_, rfl⟩
  | _ :: _ :: _ :: _, _ => exact ⟨_, rfl⟩
  | [name, versionText], aligned =>
    unfold rootEntry
    simp only [parsePackageVersion_eq (aligned versionText (by simp)), Option.bind_eq_bind,
      Option.bind_some]
    cases Package.parsePackageVersion versionText with
    | none => exact ⟨_, rfl⟩
    | some =>
      dsimp only [Option.map_some]
      split
      · exact ⟨_, rfl⟩
      · exact ⟨_, rfl⟩

theorem rootEntry_eq (reader : Package.LockReader)
    (aligned : ∀ token ∈ args, Aligned token.toList) :
    rootEntry (joinReader reader) args
      = some ((Package.rootEntry reader args).map joinLock) := by
  match args, aligned with
  | [], _ => rfl
  | [_], _ => rfl
  | _ :: _ :: _ :: _, _ => rfl
  | [name, versionText], aligned =>
    unfold rootEntry Package.rootEntry
    simp only [parsePackageVersion_eq (aligned versionText (by simp)), Option.bind_eq_bind,
      Option.bind_some]
    cases Package.parsePackageVersion versionText with
    | none => rfl
    | some =>
      dsimp only [Option.map_some]
      show (if (isValidPackageName name && !reader.rootSeen) = true then _ else _) = _
      split
      · rfl
      · rfl

theorem formatEntry_eq (reader : Package.LockReader) (args : List String) :
    formatEntry (joinReader reader) args
      = (Package.formatEntry reader args).map joinLock := by
  unfold formatEntry Package.formatEntry
  rw [apply_ite (Except.map joinLock)]
  rfl

theorem targetEntry_eq (reader : Package.LockReader) (args : List String) :
    targetEntry (joinReader reader) args
      = (Package.targetEntry reader args).map joinLock := by
  match args with
  | [] => rfl
  | _ :: _ :: _ => rfl
  | [target] =>
    unfold targetEntry Package.targetEntry parseTargetPlatformText
    dsimp only
    cases parseTargetPlatform target with
    | none => rfl
    | some =>
      rw [apply_ite (Except.map joinLock)]
      rfl

theorem lockedSOVersion_eq (text : String) : lockedSOVersion text = parseSOVersion text := by
  unfold lockedSOVersion parseSOVersion number32
  rw [parsePackageNumber_eq]
  by_cases none : text = "-"
  · rw [if_pos none, if_pos none]
  · rw [if_neg none, if_neg none]
    cases number text with
    | none => rfl
    | some v =>
      by_cases large : v.toNat > 4294967295
      · have beyond : ¬v.toNat < 2 ^ 32 := by omega
        show (if v.toNat > 4294967295 then _ else _)
          = Option.map some (if v.toNat < 2 ^ 32 then _ else _)
        rw [if_pos large, if_neg beyond]
        rfl
      · have within : v.toNat < 2 ^ 32 := by omega
        show (if v.toNat > 4294967295 then _ else _)
          = Option.map some (if v.toNat < 2 ^ 32 then _ else _)
        rw [if_neg large, if_pos within]
        rfl

theorem parseLockedNative_eq (reader : Package.LockReader) (args : List String) :
    parseLockedNative (joinReader reader) args
      = (Package.nativeEntry reader args).map joinLock := by
  match args with
  | [] => rfl
  | [_] => rfl
  | [_, _] => rfl
  | [_, _, _] => rfl
  | _ :: _ :: _ :: _ :: _ :: _ => rfl
  | [kind, name, soText, digestText] =>
    unfold parseLockedNative Package.nativeEntry
    dsimp only
    rw [lockedSOVersion_eq]
    cases parseSOVersion soText with
    | none => rfl
    | some =>
      rw [apply_ite (Except.map joinLock)]
      rfl

theorem parseLockedForeign_eq (lock : Package.PackageLock) (args : List String) :
    parseLockedForeign (joinLock lock) args
      = (Package.foreignEntry lock args).map joinLock := by
  unfold parseLockedForeign
  split
  · rename_i ecosystem name version kind resolver abi level digestText
    unfold Package.foreignEntry
    rw [apply_ite (Except.map joinLock)]
    rfl
  · rename_i y
    have missed : Package.foreignEntry lock args
        = .error ("FDN4029", "invalid foreign provenance lock entry") := by
      unfold Package.foreignEntry
      split
      · exact absurd rfl (y _ _ _ _ _ _ _ _)
      · rfl
    rw [missed]
    rfl

/-- The tokens of a line name no SDK location that one compiler accepts and the other one refuses.
Neither looks at it when the name, the version or the digest in front of it is wrong. -/
def tokensAlike (tokens : List String) : Bool :=
  match tokens with
  | [directive, name, versionText, digestText, kind, location] =>
    !(directive == "package" && kind == "sdk" && identifier name &&
      (Package.parsePackageVersion versionText).isSome && digest digestText) || locationAlike location
  | _ => true

example : tokensAlike ["package", "1bad", "1.0.0", "sha256:0", "sdk", "a/../b"] = true
    ∧ locationAlike "/a/../b" = true ∧ locationAlike "a/../b" = false := by decide +kernel

theorem locationKind_sdk {text : String} : locationKind text = some .sdk ↔ text = "sdk" := by
  unfold locationKind
  constructor
  · intro kind
    split_ifs at kind with path registry sdk
    · cases kind
    · cases kind
    · exact sdk
  · rintro rfl
    rfl

theorem parseLockedPackage_checked (lock : PackageLock)
    (aligned : ∀ token ∈ args, Aligned token.toList) :
    ∃ entry, parseLockedPackage lock args = some entry := by
  unfold parseLockedPackage
  split
  · rename_i name versionText digestText kindText location
    simp only [parsePackageVersion_eq (aligned versionText (by simp)), Option.bind_eq_bind,
      Option.bind_some]
    cases Package.parsePackageVersion versionText with
    | none => exact ⟨_, rfl⟩
    | some =>
      cases packageLocationKindFor kindText with
      | none => exact ⟨_, rfl⟩
      | some =>
        dsimp only [Option.map_some]
        split
        · split
          · exact ⟨_, rfl⟩
          · exact ⟨_, rfl⟩
        · exact ⟨_, rfl⟩
  · exact ⟨_, rfl⟩

theorem any_joinPackage (packages : List Package.LockedPackage) (name : String) :
    (packages.map joinPackage).any (·.name == name) = packages.any (·.name == name) := by
  rw [any_map]
  rfl

theorem parseLockedPackage_eq (lock : Package.PackageLock)
    (aligned : ∀ token ∈ args, Aligned token.toList)
    (alike : tokensAlike ("package" :: args) = true) :
    parseLockedPackage (joinLock lock) args
      = some ((Package.packageEntry lock args).map joinLock) := by
  match args, aligned, alike with
  | [], _, _ => rfl
  | [_], _, _ => rfl
  | [_, _], _, _ => rfl
  | [_, _, _], _, _ => rfl
  | [_, _, _, _], _, _ => rfl
  | _ :: _ :: _ :: _ :: _ :: _ :: _, _, _ => rfl
  | [name, versionText, digestText, kindText, location], aligned, alike =>
    unfold parseLockedPackage Package.packageEntry
    simp only [parsePackageVersion_eq (aligned versionText (by simp)), Option.bind_eq_bind,
      Option.bind_some]
    cases version : Package.parsePackageVersion versionText with
    | none => rfl
    | some =>
      have kinds : packageLocationKindFor kindText = locationKind kindText := rfl
      rw [kinds, Option.map_some]
      cases named : locationKind kindText with
      | none => rfl
      | some kind =>
        have checks : (identifier name && digest digestText && validPackageLocation kind location)
            = (identifier name && digest digestText && validLocation kind location) := by
          cases fs : identifier name && digest digestText with
          | false => rfl
          | true =>
            rw [Bool.and_eq_true] at fs
            rw [validPackageLocation_eq]
            rintro rfl
            have word := locationKind_sdk.mp named
            simpa [tokensAlike, word, version, fs] using alike
        dsimp only
        rw [show (joinLock lock).packages = lock.packages.map joinPackage from rfl,
          any_joinPackage]
        show (if (identifier name && digest digestText && validPackageLocation kind location) = true
          then _ else _) = _
        rw [checks]
        split
        · split
          · rfl
          · simp [joinLock, joinPackage, Except.map]
        · rfl

/-- An edge that is new is taken by both; one that is there already only by the bootstrap compiler. -/
theorem parseLockedEdge_follows (sound : SoFar lock) (args : List String) :
    EntryFollows (Package.edgeEntry lock args) (parseLockedEdge (joinLock lock) args) := by
  match args with
  | [] => exact .inl ⟨rfl, by simp [Package.edgeEntry]⟩
  | [_] => exact .inl ⟨rfl, by simp [Package.edgeEntry]⟩
  | parent :: dep :: qualifiers =>
    unfold Package.edgeEntry parseLockedEdge
    dsimp only
    cases parseScope qualifiers with
    | none => exact .inl ⟨rfl, by simp⟩
    | some =>
      cases named : (identifier parent && identifier dep) with
      | false => exact .inl ⟨by simp [Except.map], by simp⟩
      | true =>
        simp only [Bool.true_and, if_true]
        cases known : (joinLock lock).edges.any fun edge =>
            edge.parent == parent && edge.dependency == dep with
        | true =>
          refine .inr ⟨_, _, rfl, rfl, fun distinct => ?_⟩
          obtain ⟨edge, mem, same⟩ := any_eq_true.mp known
          rw [Bool.and_eq_true, beq_iff_eq, beq_iff_eq] at same
          rw [map_append, nodup_append'] at distinct
          refine distinct.2.2 (mem_map_of_mem mem) ?_
          rw [map_singleton, mem_singleton, PackageEdge.ends, same.1, same.2]
          rfl
        | false =>
          refine .inl ⟨rfl, ?_⟩
          intro grown ran
          cases ran
          refine ⟨nodup_map_append sound.unique fun mem => ?_, sound.locations⟩
          obtain ⟨edge, present, same⟩ := mem_map.mp mem
          obtain ⟨one, two⟩ := Prod.mk.inj same
          refine Bool.eq_false_iff.mp known (any_eq_true.mpr ⟨edge, present, ?_⟩)
          rw [Bool.and_eq_true, beq_iff_eq, beq_iff_eq]
          exact ⟨one, two⟩

/-- A package line adds an SDK location that both compilers accept. -/
theorem packageEntry_soFar (sound : SoFar s)
    (alike : tokensAlike ("package" :: args) = true)
    (ran : Package.packageEntry s args = .ok lock) : SoFar lock := by
  unfold Package.packageEntry at ran
  split at ran
  · rename_i name versionText digestText kindText location
    split at ran
    · rename_i version kind read named
      split at ran
      · rename_i checks
        rw [Bool.and_eq_true, Bool.and_eq_true] at checks
        split at ran
        · cases ran
        · cases ran
          refine ⟨sound.unique, forall_mem_append_singleton sound.locations ?_⟩
          rintro rfl
          have word := locationKind_sdk.mp named
          simpa [tokensAlike, word, read, checks] using alike
      · cases ran
    · cases ran
  · cases ran

/-- Edges are only ever added. -/
theorem Repeats.append {more : List PackageEdge}
    (repeats : Repeats s) (edges : lock.edges = s.edges ++ more) : Repeats lock := by
  intro distinct
  rw [edges, map_append] at distinct
  exact repeats (nodup_append'.mp distinct).1

theorem Repeats.of_eq (repeats : Repeats s)
    (edges : lock.edges = s.edges) : Repeats lock := by
  unfold Repeats
  rw [edges]
  exact repeats

/-- An entry that both compilers make alike, and that leaves packages and edges alone. -/
theorem accept_follows_of_eq (follows : Follows reader self) {e : Package.LockEntry}
    {y : LockEntry} (path : String) (line : Nat)
    (same : self = joinReader reader → y = e.map joinLock)
    (kept : ∀ lock, e = .ok lock →
      lock.edges = reader.lock.edges ∧ lock.packages = reader.lock.packages) :
    Follows (reader.accept path line e) (self.accept path line y) := by
  refine accept_follows follows path line (fun equal sound => .inl ⟨same equal, fun lock ran => ?_⟩)
    fun repeats lock ran => repeats.of_eq (kept lock ran).1
  obtain ⟨edges, packages⟩ := kept lock ran
  refine ⟨?_, ?_⟩
  · rw [edges]
    exact sound.unique
  · rw [packages]
    exact sound.locations

theorem lockDirective_follows (follows : Follows reader self) (path directive : String) (line : Nat)
    (aligned : ∀ token ∈ args, Aligned token.toList)
    (alike : tokensAlike (directive :: args) = true) :
    ∃ next, lockDirective path directive args line self = some next
      ∧ Follows (Package.lockDirective path directive args line reader) next := by
  -- a flag that is set afterwards does not matter
  have flagged : ∀ {reader : Package.LockReader} {self : LockReader}
      (one : Package.LockReader → Package.LockReader) (two : LockReader → LockReader),
      (∀ reader, joinReader (one reader) = two (joinReader reader)) →
      (∀ reader, (one reader).lock = reader.lock) → (∀ self, (two self).errors = self.errors) →
      Follows reader self → Follows (one reader) (two self) := by
    intro reader self one two joined lock errors follows
    rcases follows with ⟨rfl, sound⟩ | ⟨failed, repeats⟩
    · exact .inl ⟨(joined reader).symm, by rw [lock]; exact sound⟩
    · exact .inr ⟨by rw [errors]; exact failed, by rw [lock]; exact repeats⟩
  unfold lockDirective Package.lockDirective
  by_cases format : directive = "format"
  · rw [if_pos format, if_pos format]
    refine ⟨_, rfl, flagged (fun reader => { reader with formatSeen := true })
      (fun self => { self with formatSeen := true }) (fun _ => rfl) (fun _ => rfl) (fun _ => rfl) ?_⟩
    refine accept_follows_of_eq follows path line (fun same => ?_) fun lock ran => ?_
    · rw [same, formatEntry_eq]
    · rw [formatEntry_ok ran]
      exact ⟨rfl, rfl⟩
  rw [if_neg format, if_neg format]
  by_cases root : directive = "root"
  · rw [if_pos root, if_pos root]
    obtain ⟨entry, found⟩ := rootEntry_checked self aligned
    rw [found]
    refine ⟨_, rfl, flagged (fun reader => { reader with rootSeen := true })
      (fun self => { self with rootSeen := true }) (fun _ => rfl) (fun _ => rfl) (fun _ => rfl) ?_⟩
    refine accept_follows_of_eq follows path line (fun same => ?_) fun lock ran => ?_
    · rw [same, rootEntry_eq reader aligned] at found
      exact (Option.some_inj.mp found).symm
    · obtain ⟨_, _, _, _, rfl⟩ := rootEntry_ok ran
      exact ⟨rfl, rfl⟩
  rw [if_neg root, if_neg root]
  by_cases target : directive = "target"
  · rw [if_pos target, if_pos target]
    refine ⟨_, rfl, flagged (fun reader => { reader with targetSeen := true })
      (fun self => { self with targetSeen := true }) (fun _ => rfl) (fun _ => rfl) (fun _ => rfl) ?_⟩
    refine accept_follows_of_eq follows path line (fun same => ?_) fun lock ran => ?_
    · rw [same, targetEntry_eq]
    · obtain ⟨target, _, rfl⟩ := targetEntry_ok ran
      exact ⟨rfl, rfl⟩
  rw [if_neg target, if_neg target]
  by_cases native : directive = "native"
  · rw [if_pos native, if_pos native]
    refine ⟨_, rfl, flagged (fun reader => { reader with nativeSeen := true })
      (fun self => { self with nativeSeen := true }) (fun _ => rfl) (fun _ => rfl) (fun _ => rfl) ?_⟩
    refine accept_follows_of_eq follows path line (fun same => ?_) fun lock ran => ?_
    · rw [same, parseLockedNative_eq]
    · obtain ⟨native, _, rfl⟩ := nativeEntry_ok ran
      exact ⟨rfl, rfl⟩
  rw [if_neg native, if_neg native]
  by_cases foreign : directive = "foreign"
  · rw [if_pos foreign, if_pos foreign]
    refine ⟨_, rfl, accept_follows_of_eq follows path line (fun same => ?_) fun lock ran => ?_⟩
    · rw [same, ← parseLockedForeign_eq]
      rfl
    · obtain ⟨entry, _, _, rfl⟩ := foreignEntry_ok ran
      exact ⟨rfl, rfl⟩
  rw [if_neg foreign, if_neg foreign]
  by_cases package : directive = "package"
  · rw [if_pos package, if_pos package]
    rw [package] at alike
    obtain ⟨_, found⟩ := parseLockedPackage_checked self.lock aligned
    rw [found]
    refine ⟨_, rfl, accept_follows follows path line (fun same sound => ?_)
      fun repeats lock ran => ?_⟩
    · subst same
      have equal := (parseLockedPackage_eq reader.lock aligned alike).symm.trans found
      exact .inl ⟨(Option.some_inj.mp equal).symm,
        fun lock ran => packageEntry_soFar sound alike ran⟩
    · obtain ⟨package, _, _, rfl⟩ := packageEntry_ok ran
      exact repeats
  rw [if_neg package, if_neg package]
  by_cases edge : directive = "edge"
  · rw [if_pos edge, if_pos edge]
    refine ⟨_, rfl, accept_follows follows path line (fun same sound => ?_)
      fun repeats lock ran => ?_⟩
    · subst same
      exact parseLockedEdge_follows sound args
    · obtain ⟨edge, _, rfl⟩ := edgeEntry_ok ran
      exact repeats.append rfl
  rw [if_neg edge, if_neg edge]
  refine ⟨_, rfl, ?_⟩
  rcases follows with ⟨rfl, sound⟩ | ⟨_, repeats⟩
  · exact .inl ⟨rfl, sound⟩
  · exact .inr ⟨by simp [LockReader.report], repeats⟩

/-! ### Whole texts -/

/-- **A line that both compilers read alike**: its tokens, and the SDK location it may hold. -/
def readAlike (line : List Char) : Bool :=
  lineAlike .between (stripReturn line) &&
    match tokenize (String.ofList (stripReturn line)) with
    | .ok tokens => tokensAlike tokens
    | .error _ => true

theorem lines_follows (path text : String)
    (alike : ∀ line ∈ (utf8 text).toList.splitOn '\n', readAlike line = true) :
    ∃ self, linesWith tokenizePackageLine (fun state error => state.map (LockReader.report · error))
        (fun directive args line state =>
          state.bind (lockDirective path directive args line)) path (utf8 text) (some {})
          = some self
      ∧ Follows (lines Package.LockReader.report (Package.lockDirective path) path (utf8 text) {})
        self := by
  have aligned : ∀ line ∈ (utf8 text).toList.splitOn '\n', Aligned (stripReturn line) :=
    fun line mem => aligned_line text mem
  unfold lines linesWith
  have start : Follows {} {} := .inl ⟨rfl, ⟨by simp, by simp⟩⟩
  generalize (utf8 text).toList.splitOn '\n' = split at alike aligned
  generalize 1 = number
  generalize ({} : LockReader) = self at start
  generalize ({} : Package.LockReader) = reader at start
  induction split generalizing number self reader with
  | nil => exact ⟨self, rfl, start⟩
  | cons line rest ih =>
    have here := alike line mem_cons_self
    rw [readAlike, Bool.and_eq_true] at here
    obtain ⟨places, locations⟩ := here
    obtain ⟨same, ts⟩ := tokenizePackageLine_eq places (aligned line mem_cons_self)
    rw [zipIdx_cons, foldl_cons, foldl_cons]
    dsimp only
    rw [same]
    have onward := fun self reader start => ih
      (fun y mem => alike y (mem_cons_of_mem _ mem))
      (fun y mem => aligned y (mem_cons_of_mem _ mem)) (number + 1) self reader start
    cases read : tokenize (String.ofList (stripReturn line)) with
    | error =>
      refine onward _ _ ?_
      rcases start with ⟨rfl, sound⟩ | ⟨_, repeats⟩
      · exact .inl ⟨rfl, sound⟩
      · exact .inr ⟨by simp [LockReader.report], repeats⟩
    | ok ws =>
      cases ws with
      | nil => exact onward _ _ start
      | cons directive =>
        obtain ⟨_, found, follows⟩ := lockDirective_follows start path directive number
          (fun token mem => ts _ read token (mem_cons_of_mem _ mem))
          (by rw [read] at locations; exact locations)
        dsimp only
        rw [Option.bind_some, found]
        exact onward _ _ follows

/-! ### Sorting -/

section Sorting

variable {α β : Type} {cmp : α → α → Ordering}

theorem sortArena_map (cmp' : β → β → Ordering) (rename : α → β)
    (same : ∀ left right, cmp' (rename left) (rename right) = cmp left right) (vs : List α) :
    sortArena cmp' (vs.map rename) = (sortArena cmp vs).map rename := by
  have sink : ∀ (v : α) (sorted : List α), sinkValue cmp' (rename v) (sorted.map rename)
      = (sinkValue cmp v sorted).map rename := by
    intro v sorted
    induction sorted with
    | nil => rfl
    | cons left rest ih =>
      rw [map_cons, sinkValue, sinkValue, same, ih]
      split <;> rfl
  have fold : ∀ vs sorted : List α,
      (vs.map rename).foldl (fun sorted v => sinkValue cmp' v sorted) (sorted.map rename)
        = (vs.foldl (fun sorted v => sinkValue cmp v sorted) sorted).map rename := by
    intro vs
    induction vs with
    | nil => exact fun _ => rfl
    | cons v rest ih =>
      intro sorted
      rw [map_cons, foldl_cons, foldl_cons, sink, ih]
  unfold sortArena
  rw [← map_nil, fold, map_reverse]

variable [Std.TransCmp cmp]

theorem sinkValue_pairwise (v : α) {sorted : List α}
    (ordered : sorted.Pairwise fun right left => (cmp left right).isLE = true) :
    (sinkValue cmp v sorted).Pairwise fun right left => (cmp left right).isLE = true := by
  induction sorted with
  | nil => simp [sinkValue]
  | cons left rest ih =>
    obtain ⟨greatest, ordered⟩ := pairwise_cons.mp ordered
    rw [sinkValue]
    split
    · rename_i greater
      have swap : cmp v left = (cmp left v).swap := Std.OrientedCmp.eq_swap
      refine pairwise_cons.mpr ⟨fun y mem => ?_, ih ordered⟩
      rcases mem_cons.mp ((sinkValue_perm v rest).mem_iff.mp mem) with rfl | later
      · rw [swap, greater]
        rfl
      · exact greatest y later
    · rename_i lower
      have least : (cmp left v).isLE = true := by
        cases order : cmp left v with
        | gt => exact absurd order lower
        | lt => rfl
        | eq => rfl
      refine pairwise_cons.mpr ⟨fun y mem => ?_, pairwise_cons.mpr ⟨greatest, ordered⟩⟩
      rcases mem_cons.mp mem with rfl | later
      · exact least
      · exact Std.TransCmp.isLE_trans (greatest y later) least

/-- **Both compilers sort values with distinct keys alike.** -/
theorem sortArena_eq {values : List α} (distinct : values.Pairwise fun left right => cmp left right ≠ .eq) :
    sortArena cmp values = stdSort (fun left right => cmp left right == .lt) values := by
  have fold : ∀ (values sorted : List α),
      sorted.Pairwise (fun right left => (cmp left right).isLE = true) →
      (values.foldl (fun sorted v => sinkValue cmp v sorted) sorted).Pairwise
        fun right left => (cmp left right).isLE = true := by
    intro values
    induction values with
    | nil => exact fun _ => id
    | cons v rest ih =>
      exact fun sorted ordered => ih _ (sinkValue_pairwise v ordered)
  have ordered : (sortArena cmp values).Pairwise fun left right => (cmp left right).isLE = true := by
    unfold sortArena
    rw [pairwise_reverse]
    exact fold values [] .nil
  refine eq_of_sorted ((sortArena_perm values).trans (stdSort_perm _ values).symm) ?_ ordered
    (stdSort_pairwise values)
  exact (sortArena_perm values).symm.pairwise distinct fun {left right} => mt Std.OrientedCmp.eq_symm

end Sorting

theorem comparePackageEdge_eq : comparePackageEdge = compareEdge := by
  funext left right
  obtain ⟨_, _, leftScope⟩ := left
  obtain ⟨_, _, rightScope⟩ := right
  unfold comparePackageEdge compareEdge
  cases leftScope <;> cases rightScope <;> rfl

theorem compareLockedForeign_eq : compareLockedForeign = compareForeign := by
  funext left right
  unfold compareLockedForeign compareForeign
  simp only [compareTexts, Ordering.then_eq]

/-- **Both compilers sort a lock alike.** -/
theorem sort_joinLock (entries : lock.Entries) (unique : (lock.edges.map PackageEdge.ends).Nodup) :
    (joinLock lock).sort = joinLock lock.sort := by
  have packages : lock.packages.Pairwise fun left right => compareLocked left right ≠ .eq := by
    refine (pairwise_map.mp entries.packagesUnique).imp fun ne equal => ne ?_
    exact Std.LawfulEqCmp.eq_of_compare equal
  have edges : lock.edges.Pairwise fun left right => compareEdge left right ≠ .eq := by
    refine (pairwise_map.mp unique).imp fun ne equal => ne ?_
    rw [Std.LawfulEqCmp.eq_of_compare equal]
  have foreign : lock.foreign.Pairwise fun left right => compareForeign left right ≠ .eq := by
    refine (pairwise_map.mp entries.foreignUnique).imp fun ne equal => ne ?_
    have texts : compareTexts _ _ = .eq := equal
    have same := Std.LawfulEqCmp.eq_of_compare texts
    simp only [List.cons.injEq] at same
    rw [LockedForeign.key, LockedForeign.key, same.1, same.2.1]
  have renamed : sortArena compareLockedPackage (lock.packages.map joinPackage)
      = (sortArena compareLocked lock.packages).map joinPackage :=
    sortArena_map compareLockedPackage joinPackage (fun _ _ => rfl) lock.packages
  unfold PackageLock.sort Package.PackageLock.sort joinLock
  rw [comparePackageEdge_eq, compareLockedForeign_eq, sortArena_eq edges, sortArena_eq foreign,
    renamed, sortArena_eq packages]

/-! ### The end of a text -/

/-- **Both readers come to the same end.** -/
theorem finishLock_follows (follows : Follows reader self)
    (valid : reader.errors = [] → reader.Valid) (path : String) :
    ∃ result, finishLock path self = some result
      ∧ result.value = (Package.finishLock path reader).value.map joinLock := by
  rcases follows with ⟨rfl, sound⟩ | ⟨failed, repeats⟩
  · unfold finishLock Package.finishLock
    have missing : missingDirectives path (joinReader reader)
        = Package.missingDirectives path reader := rfl
    have errors : (joinReader reader).errors = reader.errors := rfl
    rw [missing, errors]
    dsimp only
    cases silent : (reader.errors ++ Package.missingDirectives path reader).isEmpty with
    | false => exact ⟨_, rfl, rfl⟩
    | true =>
      rw [List.isEmpty_iff, List.append_eq_nil_iff] at silent
      have entries := (valid silent.1).entries
      obtain ⟨outcome, checked, accepts⟩ := validatePackageLockGraph_iff entries.packagesUnique
        sound.unique fun package mem => validPackageLocation_eq (sound.locations package mem)
      simp only [if_true]
      rw [show (joinReader reader).lock = joinLock reader.lock from rfl, checked]
      cases graph : validateLockGraph reader.lock with
      | none =>
        rw [accepts.mpr (validateLockGraph_eq_none.mp graph)]
        refine ⟨_, rfl, ?_⟩
        rw [sort_joinLock entries sound.unique]
        rfl
      | some =>
        cases outcome with
        | some => exact ⟨_, rfl, rfl⟩
        | none =>
          rw [validateLockGraph_eq_none.mpr (accepts.mp rfl)] at graph
          cases graph
  · have rejects : (Package.finishLock path reader).value = none := by
      unfold Package.finishLock
      dsimp only
      split
      · cases graph : validateLockGraph reader.lock with
        | none => exact absurd (validateLockGraph_eq_none.mp graph).unique repeats
        | some => rfl
      · rfl
    have reported : (self.errors ++ missingDirectives path self).isEmpty = false := by
      rw [isEmpty_eq_false_iff]
      exact fun empty => failed (List.append_eq_nil_iff.mp empty).1
    refine ⟨{ errors := self.errors ++ missingDirectives path self }, ?_, ?_⟩
    · unfold finishLock
      dsimp only
      rw [reported]
      rfl
    · rw [rejects]
      rfl

/-- **Both compilers reject a text, or both accept it with the same lock.** -/
theorem parsePackageLock_follows (path text : String)
    (alike : ∀ line ∈ (utf8 text).toList.splitOn '\n', readAlike line = true) :
    ∃ result, parsePackageLock path (utf8 text) = some result
      ∧ result.value = (Package.parsePackageLock path (utf8 text)).value.map joinLock := by
  obtain ⟨_, read, follows⟩ := lines_follows path text alike
  obtain ⟨result, finished, same⟩ := finishLock_follows follows (lines_valid path (utf8 text)) path
  refine ⟨result, ?_, same⟩
  unfold parsePackageLock
  rw [read]
  exact finished

/-! ### Rendering -/

/-- **A value that both compilers write alike**: both quote it or neither does, and what is quoted is
ASCII. -/
def quotesAlike (value : String) : Bool :=
  quoteRequired isPackageSpace value == quoteRequired isSpace value &&
    (!quoteRequired isSpace value || value.toList.all (·.toNat < 0x80))

theorem quotePackageText_eq {value : String} (alike : quotesAlike value = true) :
    quotePackageText value = quote value := by
  unfold quotesAlike at alike
  rw [Bool.and_eq_true, beq_iff_eq, Bool.or_eq_true, Bool.not_eq_true', all_eq_true] at alike
  obtain ⟨same, ascii⟩ := alike
  unfold quotePackageText quote quoteWith
  rw [same]
  split
  · rename_i required
    have small : ∀ b ∈ value.toList, b.toNat < 0x80 := by
      rcases ascii with bare | ascii
      · rw [required] at bare
        cases bare
      · exact fun b mem => of_decide_eq_true (ascii b mem)
    have bytes : value.toList.flatMap (escapeWith writeCodePoint)
        = value.toList.flatMap (escapeWith fun b => [b]) := by
      refine flatMap_congr fun b mem => ?_
      unfold escapeWith
      rw [writeCodePoint_ascii (small b mem)]
    rw [bytes]
  · rfl

theorem isEmpty_join {parts : List String} (valid : Identifiers parts) :
    (join parts).isEmpty = parts.isEmpty := by
  rw [← valid.isEmpty_join, Bool.eq_iff_iff, String.isEmpty_iff, List.isEmpty_iff,
    String.toList_eq_nil_iff]

/-- **Both compilers write the same version.** -/
theorem packageVersionString_eq {v : Package.PackageVersion} (valid : v.Valid) :
    packageVersionString (joinVersion v) = v.string := by
  unfold packageVersionString PackageVersion.string joinVersion
  rw [isEmpty_join (identifiers_prerelease valid), isEmpty_join valid.build]

/-- The texts of a lock that may be quoted. -/
def quotedValues (lock : Package.PackageLock) : List String :=
  (lock.foreign.flatMap fun entry => [entry.identifier, entry.version, entry.resolver]) ++
    lock.packages.map (·.location)

theorem quotesAlike_ecosystem {v : String} (known : foreignEcosystem v = true) :
    quotesAlike v = true := by
  simp only [foreignEcosystem, Bool.or_eq_true, beq_iff_eq] at known
  rcases known with ((rfl | rfl) | rfl) | rfl <;> decide

/-- **Both compilers write the same lock.** -/
theorem renderPackageLock_joinLock (fs : lock.Fields)
    (unique : (lock.edges.map PackageEdge.ends).Nodup)
    (alike : ∀ value ∈ quotedValues lock, quotesAlike value = true) :
    renderPackageLock (joinLock lock) = Package.renderPackageLock lock := by
  have foreign : ∀ entry ∈ lock.sort.foreign, renderForeign entry = Package.renderForeign entry := by
    intro entry mem
    have present : entry ∈ lock.foreign := (stdSort_perm _ _).mem_iff.mp mem
    have quoted : ∀ value ∈ [entry.identifier, entry.version, entry.resolver],
        quotePackageText value = quote value := fun value inside =>
      quotePackageText_eq (alike value (mem_append_left _ (mem_flatMap.mpr
        ⟨entry, present, inside⟩)))
    unfold renderForeign Package.renderForeign
    rw [quotePackageText_eq (quotesAlike_ecosystem (fs.foreign entry present).ecosystem),
      quoted entry.identifier (by simp), quoted entry.version (by simp),
      quoted entry.resolver (by simp)]
  have packages : ∀ package ∈ lock.sort.packages,
      renderLocked (joinPackage package) = Package.renderLocked package := by
    intro package mem
    have present : package ∈ lock.packages := (stdSort_perm _ _).mem_iff.mp mem
    have quoted := quotePackageText_eq (alike package.location
      (mem_append_right _ (mem_map_of_mem present)))
    unfold renderLocked Package.renderLocked joinPackage
    rw [packageVersionString_eq (fs.packages package present).version, quoted]
  have packageLines : lock.sort.packages.map (renderLocked ∘ joinPackage)
      = lock.sort.packages.map Package.renderLocked := map_congr_left packages
  unfold renderPackageLock Package.renderPackageLock
  rw [sort_joinLock fs.toEntries unique]
  unfold joinLock
  rw [packageVersionString_eq fs.rootVersion, map_map, packageLines,
    map_congr_left foreign]
  rfl

/-! ### Agreement -/

/-- **The two lock codecs agree on a text**: the self-hosted code does not panic, both reject the text
or both accept it with the same lock, and both write an accepted lock with the same bytes. -/
structure LockCodecsAgree (path text : String) : Prop where
  parses : ∃ result, parsePackageLock path text = some result
    ∧ result.value = (Package.parsePackageLock path text).value.map joinLock
  renders : ∀ lock, (Package.parsePackageLock path text).value = some lock →
    renderPackageLock (joinLock lock) = Package.renderPackageLock lock

/-- **A text that both codecs treat alike**: every line is read alike, and what an accepted lock
quotes is quoted alike. -/
def textAlike (path text : String) : Bool :=
  (text.toList.splitOn '\n').all readAlike &&
    match (Package.parsePackageLock path text).value with
    | some lock => (quotedValues lock).all quotesAlike
    | none => true

/-- **Where every place of a text is treated alike, the codecs agree.** -/
theorem lockCodecs_agree (path text : String) (alike : textAlike path (utf8 text) = true) :
    LockCodecsAgree path (utf8 text) := by
  rw [textAlike, Bool.and_eq_true, all_eq_true] at alike
  obtain ⟨lines, values⟩ := alike
  refine ⟨parsePackageLock_follows path text lines, fun lock accepted => ?_⟩
  obtain ⟨fields, graph, _⟩ := parsePackageLock_accepts accepted
  rw [accepted, all_eq_true] at values
  exact renderPackageLock_joinLock fields graph.unique values

theorem lockCodecs_agree_sample :
    textAlike "foundation.lock" (utf8 sampleLockText) = true
      ∧ LockCodecsAgree "foundation.lock" (utf8 sampleLockText) :=
  ⟨by decide +kernel, lockCodecs_agree "foundation.lock" sampleLockText (by decide +kernel)⟩

/-- The letter of a quoted location becomes two code points in the self-hosted compiler. -/
theorem lockCodecs_disagree :
    ¬LockCodecsAgree "foundation.lock" (utf8 ("format foundation.lock/v1\nroot app 1.0.0\n" ++
      "target linux\npackage dep 1.0.0 sha256:" ++
      "0123456789abcdef0123456789abcdef0123456789abcdef0123456789abcdef" ++
      " path \"dép ôt\"\nedge app dep\n")) := by
  rintro ⟨⟨_, parsed, same⟩, _⟩
  have wrong := congrArg (Option.map PackageParseResult.value) parsed
  rw [Option.map_some, same] at wrong
  exact absurd wrong (by decide +kernel)

end FoundationLang.Selfhost
