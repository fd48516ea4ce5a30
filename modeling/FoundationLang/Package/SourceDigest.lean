/-
**What a package digest commits to.**

* `hashed_eq_frames` — the bytes that the hash is given are frames of the manifest, and of the path and
  the content of each file.
-/

import FoundationLang.Package.SourceFiles

namespace FoundationLang.Package

open Std Library List

variable {files : List PackageSourceFile} {manifest : PackageManifest}
variable {entries : List (EntryName × Node)}
  {dir directory : String} {tree : Node}

/-! ### The files of a package, as a set -/

/-- The directories whose files belong to a package. -/
def packageDirectories (manifest : PackageManifest) : List String :=
  sourceDirectories manifest ++
    (manifest.foreign.filter fun foreign => foreign.kind == "path" &&
      ownsNativeSource manifest (lexicallyNormal foreign.resolver)).map
        fun foreign => lexicallyNormal foreign.resolver

/-- A regular file below a directory of the tree. -/
def FoundFile (tree : Node) (directory : String) (file : PackageSourceFile) : Prop :=
  ∃ entries names bytes, tree.status directory = some (.directory entries)
    ∧ FileBelow entries names bytes
    ∧ file = ⟨lexicallyNormal (pathBelow directory names), bytes.length⟩

/-- The files of a package: relative paths and the bytes at these paths. -/
def packageFiles (tree : Node) (manifest : PackageManifest) : Set (String × List Char) :=
  {entry | (∃ directory ∈ packageDirectories manifest, ∃ file, FoundFile tree directory file
    ∧ file.path = entry.1) ∧ tree.read entry.1 = some entry.2}

theorem Lists.mem_iff {d : Nat}
    (listed : Lists d directory (.directory entries) files) (file : PackageSourceFile) :
    file ∈ files ↔ ∃ names bytes, FileBelow entries names bytes
      ∧ file = ⟨lexicallyNormal (pathBelow directory names), bytes.length⟩ := by
  induction d generalizing directory entries files file with
  | zero =>
    obtain ⟨rfl, rfl⟩ := listed
    constructor
    · intro mem
      cases mem
    · rintro ⟨_, _, below, _⟩
      cases below with
      | here mem => cases mem
      | inside mem => cases mem
  | succ d ih =>
    have each : ∀ entry ∈ entries, ∀ part,
        Lists d (joinPath directory entry.1.text) entry.2 part → ∀ file, file ∈ part
          ↔ ∃ names bytes, FileBelow [entry] names bytes
            ∧ file = ⟨lexicallyNormal (pathBelow directory names), bytes.length⟩ := by
      rintro ⟨name, node⟩ _ part lists file
      cases node with
      | link => cases d <;> exact lists.elim
      | special => cases d <;> exact lists.elim
      | file bytes =>
        have alone : part = [⟨lexicallyNormal (joinPath directory name.text), bytes.length⟩] := by
          cases d <;> exact lists
        rw [alone, mem_singleton]
        constructor
        · intro same
          exact ⟨[name], bytes, .here mem_cons_self, same⟩
        · rintro ⟨names, _, below, same⟩
          cases below with
          | here mem =>
            cases mem_singleton.mp mem
            exact same
          | inside mem => cases mem_singleton.mp mem
      | directory =>
        rw [ih lists]
        constructor
        · rintro ⟨names, bytes, below, same⟩
          exact ⟨name :: names, bytes, .inside mem_cons_self below, same⟩
        · rintro ⟨_, bytes, below, same⟩
          cases below with
          | here mem => cases mem_singleton.mp mem
          | @inside _ _ _ names _ mem below =>
            cases mem_singleton.mp mem
            exact ⟨names, bytes, below, same⟩
    rw [Gathers.mem_iff listed each file]
    constructor
    · rintro ⟨_, mem, names, bytes, below, same⟩
      refine ⟨names, bytes, ?_, same⟩
      cases below with
      | here x => exact .here (mem_singleton.mp x ▸ mem)
      | inside x below => exact .inside (mem_singleton.mp x ▸ mem) below
    · rintro ⟨_, _, below, same⟩
      cases below with
      | here mem => exact ⟨_, mem, _, _, .here mem_cons_self, same⟩
      | inside mem below => exact ⟨_, mem, _, _, .inside mem_cons_self below, same⟩

theorem FileBelow.filled {names : List EntryName}
    {bytes : List Char} (below : FileBelow entries names bytes) : names ≠ [] := by
  cases below <;> exact cons_ne_nil _ _

theorem SourceListing.mem_iff (listing : SourceListing tree directory files)
    (file : PackageSourceFile) : file ∈ files ↔ FoundFile tree directory file := by
  obtain ⟨entries, status, listed⟩ := listing
  rw [listed.mem_iff]
  constructor
  · rintro ⟨names, bytes, below, same⟩
    exact ⟨entries, names, bytes, status, below, same⟩
  · rintro ⟨_, names, bytes, again, below, same⟩
    cases status.symm.trans again
    exact ⟨names, bytes, below, same⟩

theorem ForeignSource.mem_iff {resolver : String} {found : List PackageSourceFile}
    (src : ForeignSource dir tree resolver found) (file : PackageSourceFile) :
    file ∈ (sortSourceFiles found).map (relocate resolver) ↔ FoundFile tree resolver file := by
  obtain ⟨entries, status, listed⟩ := src.listed
  have moved {names : List EntryName} {bytes : List Char} (filled : names ≠ []) :
      relocate resolver ⟨lexicallyNormal (pathBelow "" names), bytes.length⟩
        = ⟨lexicallyNormal (pathBelow resolver names), bytes.length⟩ := by
    rw [relocate, lexicallyNormal_pathBelow filled, (pathBelow_eq filled).2.2.2 resolver]
  rw [mem_map]
  constructor
  · rintro ⟨file, mem, rfl⟩
    obtain ⟨names, bytes, below, rfl⟩ := (listed.mem_iff file).mp ((mem_sortSourceFiles _ _).mp mem)
    exact ⟨entries, names, bytes, status, below, moved below.filled⟩
  · rintro ⟨_, names, bytes, again, below, rfl⟩
    cases status.symm.trans again
    exact ⟨_, (mem_sortSourceFiles _ _).mpr ((listed.mem_iff _).mpr ⟨names, bytes, below, rfl⟩),
      moved below.filled⟩

theorem ForeignListing.mem_iff {foreign : Foreign}
    (listing : ForeignListing dir tree manifest foreign files)
    (file : PackageSourceFile) :
    file ∈ files
      ↔ (foreign.kind = "path" ∧ ownsNativeSource manifest (lexicallyNormal foreign.resolver) = true)
        ∧ FoundFile tree (lexicallyNormal foreign.resolver) file := by
  unfold ForeignListing at listing
  split at listing
  · rename_i owned
    obtain ⟨_, source, rfl⟩ := listing
    rw [source.mem_iff]
    exact (and_iff_right owned).symm
  · rename_i skipped
    subst listing
    exact iff_of_false (by simp) fun both => skipped both.1

/-- **The recorded files** are the files below the directories of the package. -/
theorem PackageListing.mem_iff {own taken : List PackageSourceFile}
    (listing : PackageListing dir tree manifest own taken) (file : PackageSourceFile) :
    file ∈ own ++ taken ↔ ∃ directory ∈ packageDirectories manifest, FoundFile tree directory file := by
  have sources := listing.sources.mem_iff (fun _ _ _ listing => SourceListing.mem_iff listing) file
  have foreign := listing.foreign.mem_iff (fun _ _ _ listing => ForeignListing.mem_iff listing) file
  rw [mem_append, sources, foreign]
  constructor
  · rintro (⟨directory, mem, found⟩ | ⟨entry, mem, ⟨path, owns⟩, found⟩)
    · exact ⟨directory, mem_append_left _ mem, found⟩
    · refine ⟨_, mem_append_right _ (mem_map.mpr ⟨entry, ?_, rfl⟩), found⟩
      exact mem_filter.mpr ⟨mem, by simp [path, owns]⟩
  · rintro ⟨directory, mem, found⟩
    rcases mem_append.mp mem with own | taken
    · exact .inl ⟨directory, own, found⟩
    · obtain ⟨entry, kept, rfl⟩ := mem_map.mp taken
      obtain ⟨present, owned⟩ := mem_filter.mp kept
      exact .inr ⟨entry, present, by simpa using owned, found⟩

/-! ### Accepted packages -/

/-- What the hash is fed. -/
def hashedBytes (packageDirectory : String) (tree : Node) (manifest : PackageManifest) :
    Except SourceStop (List Char) :=
  (hashPackageSource packageDirectory tree manifest).map Prod.snd

/-- The paths and the contents of the files. -/
def recordedFiles (tree : Node) (files : List PackageSourceFile) : List (String × List Char) :=
  files.map fun file => (file.path, (tree.read file.path).getD [])

/-- What is known about a package that was accepted with these files. -/
structure Accepted (packageDirectory : String) (tree : Node) (manifest : PackageManifest)
    (files : List PackageSourceFile) : Prop where
  listing : ∃ own taken, PackageListing packageDirectory tree manifest own taken
    ∧ files = sortSourceFiles (own ++ taken)
  brief : (renderPackageManifest manifest).length < 2 ^ 64
  readable : ∀ file ∈ files, Readable tree.read file

theorem totalBytes_sort_pushAll (files : List PackageSourceFile) :
    (SourceRecord.pushAll {} files).sort.totalBytes = ((sortSourceFiles files).map (·.size)).sum := by
  have sums := ((stdSort_perm (fun left right => compareSourceFile left right == .lt)
    files).map (·.size)).sum_eq
  rw [SourceRecord.sort, pushAll_eq]
  exact (Nat.zero_add _).trans sums.symm

/-- **What is hashed**, for the files that are accepted. -/
theorem accepted_iff (dir : String) (tree : Node) (manifest : PackageManifest)
    (files : List PackageSourceFile) :
    Accepted dir tree manifest files
      ↔ ∃ record, hashPackageSource dir tree manifest
          = .ok (record, packageBytes tree manifest files)
        ∧ record.files = files ∧ record.totalBytes = (files.map (·.size)).sum := by
  constructor
  · rintro ⟨⟨own, taken, listing, rfl⟩, brief, readable⟩
    have got := (collectPackageSource_ok_iff dir tree manifest _).mpr
      ⟨own, taken, listing, rfl⟩
    rw [← files_sort_pushAll] at readable
    have hashed := (hashPackageSource_ok_iff dir tree manifest _ _).mpr
      ⟨got, brief, readable, rfl⟩
    rw [files_sort_pushAll] at hashed
    exact ⟨_, hashed, files_sort_pushAll _, totalBytes_sort_pushAll _⟩
  · rintro ⟨_, hashed, rfl, _⟩
    obtain ⟨got, brief, readable, _⟩ := (hashPackageSource_ok_iff _ _ _ _ _).mp hashed
    obtain ⟨own, taken, listing, rfl⟩ := (collectPackageSource_ok_iff _ _ _ _).mp got
    exact ⟨⟨own, taken, listing, files_sort_pushAll _⟩, brief, readable⟩

theorem hashedBytes_eq (accepted : Accepted dir tree manifest files) :
    hashedBytes dir tree manifest = .ok (packageBytes tree manifest files) := by
  obtain ⟨_, hashed, _⟩ := (accepted_iff _ _ _ _).mp accepted
  rw [hashedBytes, hashed]
  rfl

/-- **When a package is accepted**, and what comes of it. -/
theorem inspectPackageSource_ok_iff (dir : String) (tree : Node)
    (sha256 : List Char → List UInt8) (manifest : PackageManifest)
    (snapshot : PackageSourceSnapshot) :
    inspectPackageSource dir tree sha256 manifest = .ok snapshot
      ↔ Accepted dir tree manifest snapshot.files
        ∧ snapshot.totalBytes = (snapshot.files.map (·.size)).sum
        ∧ snapshot.digest = digestText (sha256 (packageBytes tree manifest snapshot.files)) := by
  unfold inspectPackageSource
  constructor
  · intro done
    cases hashed : hashPackageSource dir tree manifest with
    | error =>
      rw [hashed] at done
      cases done
    | ok outcome =>
      obtain ⟨record, _⟩ := outcome
      obtain ⟨got, _, _, rfl⟩ := (hashPackageSource_ok_iff _ _ _ _ _).mp hashed
      obtain ⟨own, taken, _, rfl⟩ := (collectPackageSource_ok_iff _ _ _ _).mp got
      have total := totalBytes_sort_pushAll (own ++ taken)
      rw [← files_sort_pushAll] at total
      rw [hashed] at done
      cases done
      exact ⟨(accepted_iff _ _ _ _).mpr ⟨_, hashed, rfl, total⟩, total, rfl⟩
  · rintro ⟨accepted, sum, digest⟩
    obtain ⟨_, hashed, files, total⟩ := (accepted_iff _ _ _ _).mp accepted
    rw [hashed]
    show Except.ok (PackageSourceSnapshot.mk _ _ _) = _
    rw [files, total, ← digest, ← sum]

section Accepted

variable (accepted : Accepted dir tree manifest files)
include accepted

/-- **The recorded files with their contents are the files of the package.** -/
theorem mem_packageFiles_iff (e : String × List Char) :
    e ∈ packageFiles tree manifest ↔ e ∈ recordedFiles tree files := by
  obtain ⟨⟨own, taken, listing, rfl⟩, _, readable⟩ := accepted
  have mem (file : PackageSourceFile) := (mem_sortSourceFiles (own ++ taken) file).trans
    (listing.mem_iff file)
  rw [recordedFiles, mem_map]
  constructor
  · rintro ⟨⟨directory, inside, file, found, path⟩, read⟩
    refine ⟨file, (mem file).mpr ⟨directory, inside, found⟩, ?_⟩
    rw [path, read]
    rfl
  · rintro ⟨file, present, rfl⟩
    obtain ⟨directory, inside, found⟩ := (mem file).mp present
    obtain ⟨_, _, read, _⟩ := readable file present
    exact ⟨⟨directory, inside, file, found, rfl⟩, by simp [read]⟩

theorem Accepted.fits : Fits {} files := by
  obtain ⟨_, _, listing, rfl⟩ := accepted.listing
  exact listing.fits.perm (stdSort_perm _ _).symm

theorem recordedFiles_sorted :
    (recordedFiles tree files).Pairwise fun left right => compare left.1 right.1 = .lt := by
  obtain ⟨_, _, listing, rfl⟩ := accepted.listing
  rw [recordedFiles, pairwise_map]
  have sorted := stdSort_strict listing.fits.distinct
  exact sorted

/-- **The bytes are frames**: the manifest, then the path and the content of each file. -/
theorem packageBytes_eq_frames :
    packageBytes tree manifest files = "foundation.package.digest/v1".toList
      ++ frames updateSize ("foundation.package".toList :: (renderPackageManifest manifest).toList
        :: (recordedFiles tree files).flatMap fun entry => [entry.1.toList, entry.2]) := by
  have header (path : String) (bytes : List Char) : updateEntryHeader path bytes.length ++ bytes
      = frame updateSize path.toList ++ frame updateSize bytes := by
    rw [frame, frame, updateEntryHeader, String.length_toList, append_assoc]
  have fed : ∀ files : List PackageSourceFile, (∀ file ∈ files, Readable tree.read file) →
      fedBytes tree.read files
        = frames updateSize ((recordedFiles tree files).flatMap fun entry => [entry.1.toList, entry.2]) := by
    intro files readable
    induction files with
    | nil => rfl
    | cons file rest ih =>
      obtain ⟨here, later⟩ := forall_mem_cons.mp readable
      obtain ⟨_, bytes, read, size⟩ := here
      calc fedBytes tree.read (file :: rest)
        _ = updateEntryHeader file.path file.size ++ bytes ++ fedBytes tree.read rest := by
          simp [fedBytes, read]
        _ = frame updateSize file.path.toList ++ frame updateSize bytes
              ++ frames updateSize
                ((recordedFiles tree rest).flatMap fun entry => [entry.1.toList, entry.2]) := by
          rw [← size, header, ih later]
        _ = _ := by simp [frames, recordedFiles, read]
  have whole (domain : List Char) (title text : String) (rest : List (List Char)) :
      domain ++ updateEntryHeader title text.length ++ text.toList ++ frames updateSize rest
        = domain ++ frames updateSize (title.toList :: text.toList :: rest) := by
    rw [append_assoc domain, ← String.length_toList (s := text), header]
    simp [frames]
  unfold packageBytes
  rw [fed files accepted.readable]
  exact whole _ _ _ _

end Accepted

/-! ### The bytes commit to the files -/

theorem length_updateSize (v : Nat) : (updateSize v).length = 8 := by
  simp [updateSize]

/-- Eight bytes tell 64-bit sizes apart. -/
theorem updateSize_injOn : Set.InjOn updateSize {size | size < 2 ^ 64} := by
  intro left small right bounded same
  have byte (value : Nat) (low : value < 256) : (Char.ofNat value).toNat = value := by
    have valid : value.isValidChar := by
      left
      omega
    rw [Char.ofNat, dif_pos valid]
    exact UInt32.toNat_ofNatLT
  have digit {one two : Nat} (chars : Char.ofNat (one % 256) = Char.ofNat (two % 256)) :
      one % 256 = two % 256 := by
    rw [← byte (one % 256) (Nat.mod_lt _ (by decide)), chars, byte _ (Nat.mod_lt _ (by decide))]
  simp only [updateSize, show List.range 8 = [0, 1, 2, 3, 4, 5, 6, 7] from rfl, map_cons,
    map_nil, List.cons.injEq, and_true] at same
  obtain ⟨seven, six, five, four, three, two, one, zero⟩ := same
  replace seven := digit seven
  replace six := digit six
  replace five := digit five
  replace four := digit four
  replace three := digit three
  replace two := digit two
  replace one := digit one
  replace zero := digit zero
  simp only [Nat.shiftRight_eq_div_pow, Set.mem_ofPred_eq] at *
  omega

theorem flatMap_pair_inj {entries others : List (String × List Char)}
    (same : (entries.flatMap fun entry => [entry.1.toList, entry.2])
      = others.flatMap fun entry => [entry.1.toList, entry.2]) : entries = others := by
  induction entries generalizing others with
  | nil =>
    cases others with
    | nil => rfl
    | cons => cases same
  | cons entry entries ih =>
    cases others with
    | nil => cases same
    | cons =>
      simp only [flatMap_cons, cons_append, nil_append, List.cons.injEq] at same
      obtain ⟨path, bytes, rest⟩ := same
      rw [ih rest, Prod.ext (String.toList_injective path) bytes]

/-- The order of recorded files. -/
def compareRecorded (left right : String × List Char) : Ordering :=
  compare left.1 right.1

instance : TransCmp compareRecorded :=
  transCmp_on compare Prod.fst

theorem length_framed_lt (accepted : Accepted directory tree manifest files) :
    ∀ text ∈ "foundation.package".toList :: (renderPackageManifest manifest).toList
      :: (recordedFiles tree files).flatMap (fun entry => [entry.1.toList, entry.2]),
      text.length < 2 ^ 64 := by
  have title : "foundation.package".toList.length < 2 ^ 64 := by decide +kernel
  refine forall_mem_cons.mpr ⟨title, forall_mem_cons.mpr ⟨?_, ?_⟩⟩
  · rw [String.length_toList]
    exact accepted.brief
  · intro text mem
    obtain ⟨_, recorded, mem⟩ := mem_flatMap.mp mem
    obtain ⟨file, present, rfl⟩ := mem_map.mp recorded
    obtain ⟨_, _, read, size⟩ := accepted.readable file present
    obtain ⟨each, _⟩ := (fits_iff bounded_empty files).mp accepted.fits
    have small := (each file present).2
    simp only [read, Option.getD_some, mem_cons, not_mem_nil, or_false] at mem
    rcases mem with rfl | rfl
    · rwa [String.length_toList]
    · rw [size]
      exact Nat.lt_of_le_of_lt small (by decide)

section TwoPackages

variable {directory' : String} {tree' : Node} {manifest' : PackageManifest}
  {files' : List PackageSourceFile} (accepted : Accepted directory tree manifest files)
  (accepted' : Accepted directory' tree' manifest' files')
include accepted accepted'

theorem recordedFiles_eq_iff :
    recordedFiles tree files = recordedFiles tree' files'
      ↔ packageFiles tree manifest = packageFiles tree' manifest' := by
  have sorted := recordedFiles_sorted accepted
  have sorted' := recordedFiles_sorted accepted'
  have nodup {entries : List (String × List Char)}
      (order : entries.Pairwise fun left right => compare left.1 right.1 = .lt) : entries.Nodup := by
    refine order.imp fun {left right} less same => ?_
    have equal : compare right.1 right.1 = .eq := ReflCmp.compare_self
    rw [same, equal] at less
    cases less
  constructor
  · intro same
    ext entry
    rw [mem_packageFiles_iff accepted, mem_packageFiles_iff accepted', same]
  · intro same
    have perm : (recordedFiles tree files).Perm (recordedFiles tree' files') := by
      rw [perm_ext_iff_of_nodup (nodup sorted) (nodup sorted')]
      intro entry
      rw [← mem_packageFiles_iff accepted, ← mem_packageFiles_iff accepted', same]
    refine @eq_of_sorted _ compareRecorded _ _ _ perm ?_ ?_ ?_
    · exact sorted.imp fun {left right} less equal => by
        rw [compareRecorded, less] at equal
        cases equal
    · exact sorted.imp fun {left right} less => by rw [compareRecorded, less]; rfl
    · exact sorted'.imp fun {left right} less => by rw [compareRecorded, less]; rfl

/-- **The bytes commit to the manifest and the files.** -/
theorem hashedBytes_eq_iff :
    hashedBytes directory tree manifest = hashedBytes directory' tree' manifest'
      ↔ renderPackageManifest manifest = renderPackageManifest manifest'
        ∧ packageFiles tree manifest = packageFiles tree' manifest' := by
  rw [hashedBytes_eq accepted, hashedBytes_eq accepted', Except.ok.injEq,
    packageBytes_eq_frames accepted, packageBytes_eq_frames accepted', append_cancel_left_eq,
    ← recordedFiles_eq_iff accepted accepted']
  constructor
  · intro same
    have texts := frames_injective (by decide) length_updateSize updateSize_injOn (length_framed_lt accepted)
      (length_framed_lt accepted') same
    simp only [List.cons.injEq, true_and] at texts
    exact ⟨String.toList_injective texts.1, flatMap_pair_inj texts.2⟩
  · rintro ⟨manifests, recorded⟩
    rw [manifests, recorded]

end TwoPackages

/-! ### The order of the entries does not show -/

/-- Two entries of one name that list the same files, perhaps in another order. -/
def ListsAlike (depth : Nat) (entry other : EntryName × Node) : Prop :=
  entry.1 = other.1 ∧ ∀ path files, Lists depth path entry.2 files →
    ∃ files', Lists depth path other.2 files' ∧ files.Perm files'

theorem Lists.reordered {node other : Node} (same : Reordered node other) {d : Nat}
    {path : String} (listed : Lists d path node files) :
    ∃ files', Lists d path other files' ∧ files.Perm files' := by
  induction same generalizing d path files with
  | refl => exact ⟨files, listed, .refl _⟩
  | trans _ _ one two =>
    obtain ⟨_, listed, alike⟩ := one listed
    obtain ⟨last, listed, again⟩ := two listed
    exact ⟨last, listed, alike.trans again⟩
  | order unique perm =>
    cases d with
    | zero =>
      obtain ⟨rfl, rfl⟩ := listed
      exact ⟨[], ⟨nil_perm.mp perm, rfl⟩, .refl _⟩
    | succ => exact Gathers.perm listed perm
  | @inside node other before after name step ih =>
    cases d with
    | zero => simp [Lists] at listed
    | succ d =>
      have same (entries : List (EntryName × Node)) : List.Forall₂ (ListsAlike d) entries entries :=
        forall₂_same.mpr fun entry _ => ⟨rfl, fun _ files listed => ⟨files, listed, .refl _⟩⟩
      have pairs : List.Forall₂ (ListsAlike d) (before ++ (name, node) :: after)
          (before ++ (name, other) :: after) :=
        rel_append (same before) (.cons ⟨rfl, fun _ _ listed => ih listed⟩ (same after))
      refine Gathers.forall₂ listed pairs ?_
      rintro _ _ _ ⟨names, lists⟩ listed
      rw [names] at listed
      exact lists _ _ listed
  | link =>
    cases d <;> exact listed.elim

section Order

variable {other : Node} (same : Reordered tree other)
include same

theorem directory_reordered {directory : String}
    (status : tree.status directory = some (.directory entries)) :
    ∃ others, other.status directory = some (.directory others)
      ∧ Reordered (.directory entries) (.directory others) := by
  have found := same.status directory
  rw [status] at found
  cases there : other.status directory with
  | none =>
    rw [there] at found
    cases found
  | some =>
    rw [there] at found
    cases found with
    | some alike =>
      obtain ⟨others, rfl, _⟩ := alike.shape
      exact ⟨others, rfl, alike⟩

theorem SourceListing.reordered {directory : String} (listing : SourceListing tree directory files) :
    ∃ files', SourceListing other directory files' ∧ files.Perm files' := by
  obtain ⟨_, status, listed⟩ := listing
  obtain ⟨others, status', alike⟩ := directory_reordered same status
  obtain ⟨files', listed', perm⟩ := listed.reordered alike
  exact ⟨files', ⟨others, status', listed'⟩, perm⟩

theorem checkComponents_reordered (dir resolver : String) :
    checkComponents dir tree resolver = checkComponents dir other resolver := by
  unfold checkComponents
  congr 1
  funext current part
  dsimp only
  have found := same.status (joinPath current part)
  revert found
  generalize tree.status (joinPath current part) = here
  generalize other.status (joinPath current part) = there
  rintro (alike | _)
  · rename_i node node'
    have shape := alike.shape
    cases node with
    | file | special =>
      cases shape
      rfl
    | directory | link =>
      obtain ⟨_, rfl, _⟩ := shape
      rfl
  · rfl

theorem ForeignListing.reordered {foreign : Foreign}
    (listing : ForeignListing dir tree manifest foreign files) :
    ∃ files', ForeignListing dir other manifest foreign files' ∧ files.Perm files' := by
  unfold ForeignListing at listing ⊢
  split at listing
  · rename_i owned
    obtain ⟨_, ⟨_, ⟨_, status, listed⟩, nonempty, fits, readable⟩, rfl⟩ := listing
    obtain ⟨entries', status', alike⟩ := directory_reordered same status
    obtain ⟨found', listed', perm⟩ := listed.reordered alike
    simp only [if_pos owned]
    refine ⟨_, ⟨found', ⟨?_, ⟨entries', status', listed'⟩, ?_, fits.perm perm, ?_⟩, rfl⟩, ?_⟩
    · rwa [← checkComponents_reordered same]
    · rintro rfl
      exact nonempty (perm_nil.mp perm)
    · intro file mem
      simp only [← same.read]
      exact readable file (perm.mem_iff.mpr mem)
    · rw [sortSourceFiles_perm fits perm]
  · rename_i skipped
    exact ⟨[], by rw [if_neg skipped], by rw [listing]⟩

/-- **Acceptance does not depend on the order**, nor do the files. -/
theorem Accepted.reordered (accepted : Accepted dir tree manifest files) :
    Accepted dir other manifest files := by
  obtain ⟨⟨_, _, ⟨⟨_, rfl⟩, sources, foreign, fits⟩, rfl⟩, brief, readable⟩ := accepted
  obtain ⟨others, rfl, _⟩ := same.shape
  obtain ⟨own', sources', one⟩ := sources.imp fun _ _ listing => SourceListing.reordered same listing
  obtain ⟨taken', foreign', two⟩ := foreign.imp fun _ _ listing => ForeignListing.reordered same listing
  have perm := one.append two
  refine ⟨⟨own', taken', ⟨⟨others, rfl⟩, sources', foreign', fits.perm perm⟩, ?_⟩, brief, ?_⟩
  · exact sortSourceFiles_perm fits perm
  · intro file mem
    obtain ⟨path, bytes, _, size⟩ := readable file mem
    exact ⟨path, bytes, by rwa [← same.read], size⟩

theorem inspectPackageSource_reordered {sha256 : List Char → List UInt8}
    {snapshot : PackageSourceSnapshot}
    (accepted : inspectPackageSource dir tree sha256 manifest = .ok snapshot) :
    inspectPackageSource dir other sha256 manifest = .ok snapshot := by
  obtain ⟨package, total, digest⟩ := (inspectPackageSource_ok_iff _ _ _ _ _).mp accepted
  have reads : tree.read = other.read := funext same.read
  refine (inspectPackageSource_ok_iff _ _ _ _ _).mpr ⟨package.reordered same, total, ?_⟩
  unfold packageBytes at digest ⊢
  rw [digest, reads]

end Order

/-! ### The limits -/

theorem bind_ne_error {ε α β : Type} {x : Except ε α} {next : α → Except ε β} {stop : ε}
    (one : x ≠ .error stop) (two : ∀ v, x = .ok v → next v ≠ .error stop) :
    x >>= next ≠ .error stop := by
  cases x with
  | error => exact fun same => one (congrArg Except.error (Except.error.inj same))
  | ok v => exact two v rfl

theorem sourceError_ne_underflow (path : String) (text : String × String) :
    sourceError path text ≠ .underflow :=
  fun same => nomatch same

/-- The subtraction of a limit check does not wrap around when larger files are turned away first. -/
theorem addSourceFile_ne_underflow {fail : SourceCheck → SourceStop} {oversized : Nat → Bool}
    {r : SourceRecord} {file : PackageSourceFile} (reports : ∀ check, fail check ≠ .underflow)
    (limit : maxSourceBytes < file.size → oversized file.size = true) :
    addSourceFile fail oversized r file ≠ .error .underflow := by
  have reported (check : SourceCheck) :
      (.error (fail check) : Except SourceStop SourceRecord) ≠ .error .underflow :=
    fun same => reports check (Except.error.inj same)
  unfold addSourceFile
  by_cases portable : portablePath file.path = false
  · rw [if_pos portable]
    exact reported _
  by_cases seen : folded file.path ∈ r.foldedPaths
  · rw [if_neg portable, if_pos seen]
    exact reported _
  by_cases large : oversized file.size = true
  · rw [if_neg portable, if_neg seen, if_pos large]
    exact reported _
  rw [if_neg portable, if_neg seen, if_neg large, if_neg fun exceeds => large (limit exceeds)]
  split
  · exact reported _
  · split
    · exact reported _
    · exact fun same => nomatch same

theorem walkSource_ne_underflow {fail : SourceCheck → String → SourceStop}
    (reports : ∀ check path, fail check path ≠ .underflow) (d : Nat) (directory : String)
    (entries : List (EntryName × Node)) (r : SourceRecord) :
    walkSource fail d directory entries r ≠ .error .underflow := by
  induction d generalizing directory entries r with
  | zero =>
    cases entries with
    | nil => exact fun same => nomatch same
    | cons => exact fun same => reports _ _ (Except.error.inj same)
  | succ d ih =>
    refine foldlM_ne_error (fun entry _ r => ?_) r
    obtain ⟨_, node⟩ := entry
    cases node with
    | link => exact fun same => reports _ _ (Except.error.inj same)
    | special => exact fun same => reports _ _ (Except.error.inj same)
    | directory => exact ih _ _ _
    | file =>
      refine addSourceFile_ne_underflow (fun check => reports check _) fun exceeds => ?_
      have room : maxSourceFileBytes ≤ maxSourceBytes := by decide
      exact decide_eq_true (Nat.lt_of_le_of_lt room exceeds)

theorem hashFiles_ne_underflow {read : String → Option (List Char)} {changed : String → SourceStop}
    (reports : ∀ path, changed path ≠ .underflow) (files : List PackageSourceFile) :
    hashFiles read changed files ≠ .error .underflow := by
  induction files with
  | nil =>
    intro same
    cases same
  | cons file rest ih =>
    unfold hashFiles
    split
    · intro same
      cases same
    · split
      · exact fun same => reports _ (Except.error.inj same)
      · refine bind_ne_error ih fun _ _ same => ?_
        cases same

section Limits

variable (dir : String) (tree : Node)

theorem addSource_ne_underflow (r : SourceRecord) (directory : String) :
    addSource dir tree r directory ≠ .error .underflow := by
  unfold addSource
  split
  · exact walkSource_ne_underflow (fun _ _ => sourceError_ne_underflow _ _) _ _ _ _
  · exact fun same => nomatch same

theorem hashForeignSource_ne_underflow (directory : String) :
    hashForeignSource dir tree directory ≠ .error .underflow := by
  unfold hashForeignSource
  refine bind_ne_error ?_ fun record _ => ?_
  · unfold collectForeignSource
    split
    · refine bind_ne_error (walkSource_ne_underflow (fun _ _ => sourceError_ne_underflow _ _) _ _ _ _) ?_
      intro record _
      split <;> exact fun same => nomatch same
    · exact fun same => nomatch same
  · exact bind_ne_error (hashFiles_ne_underflow (fun _ => sourceError_ne_underflow _ _) _)
      fun _ _ same => nomatch same

/-- The files of a foreign snapshot are small: taking them over does not wrap around either. -/
theorem addForeign_ne_underflow (manifest : PackageManifest) (r : SourceRecord)
    (foreign : Foreign) : addForeign dir tree manifest r foreign ≠ .error .underflow := by
  unfold addForeign
  dsimp only
  split
  · exact fun same => nomatch same
  split
  · exact fun same => nomatch same
  refine bind_ne_error ?_ fun _ _ => bind_ne_error (hashForeignSource_ne_underflow _ _ _) ?_
  · refine foldlM_ne_error (fun part _ current => ?_) ""
    dsimp only
    split <;> exact fun same => nomatch same
  · rintro ⟨snapshot, bytes⟩ hashed
    obtain ⟨got, _⟩ := (hashForeignSource_ok_iff _ _ _ _ _).mp hashed
    obtain ⟨_, found, _, _, fits, _, rfl⟩ := (collectForeignSource_ok_iff _ _ _ _).mp got
    obtain ⟨each, _⟩ := (fits_iff bounded_empty found).mp fits
    refine foldlM_ne_error (fun file mem r => ?_) r
    refine addSourceFile_ne_underflow (fun _ => sourceError_ne_underflow _ _) fun exceeds => ?_
    rw [files_sort_pushAll, mem_sortSourceFiles] at mem
    have room : maxSourceFileBytes ≤ maxSourceBytes := by decide
    have small := (each file mem).2
    simp only at exceeds
    omega

/-- **No limit check wraps around.** -/
theorem hashPackageSource_ne_underflow (manifest : PackageManifest) :
    hashPackageSource dir tree manifest ≠ .error .underflow := by
  unfold hashPackageSource
  refine bind_ne_error ?_ fun record _ => ?_
  · unfold collectPackageSource
    split
    · refine bind_ne_error (foldlM_ne_error (fun _ _ _ => addSource_ne_underflow _ _ _ _) _) ?_
      intro record _
      refine bind_ne_error (foldlM_ne_error (fun _ _ _ => addForeign_ne_underflow _ _ _ _ _) _) ?_
      exact fun _ _ same => nomatch same
    · exact fun same => nomatch same
  · dsimp only
    split
    · exact fun same => nomatch same
    · exact bind_ne_error (hashFiles_ne_underflow (fun _ => sourceError_ne_underflow _ _) _)
        fun _ _ same => nomatch same

end Limits

/-! ### The digest -/

/-- **What the digest commits to.** The bytes that are hashed are the same exactly when the manifest's
text and the files are; the order in which the file system lists entries changes nothing; no two
recorded paths are the same without case; the recorded total is that of the files and within the
limit; and no limit check wraps around. -/
theorem digest_commits (sha256 : List Char → List UInt8) :
    (∀ directory directory' tree tree' manifest manifest' snapshot snapshot',
      inspectPackageSource directory tree sha256 manifest = .ok snapshot →
      inspectPackageSource directory' tree' sha256 manifest' = .ok snapshot' →
      (hashedBytes directory tree manifest = hashedBytes directory' tree' manifest'
        ↔ renderPackageManifest manifest = renderPackageManifest manifest'
          ∧ packageFiles tree manifest = packageFiles tree' manifest'))
    ∧ (∀ directory tree tree' manifest snapshot, Reordered tree tree' →
      (inspectPackageSource directory tree sha256 manifest = .ok snapshot
        ↔ inspectPackageSource directory tree' sha256 manifest = .ok snapshot))
    ∧ (∀ directory tree manifest snapshot,
      inspectPackageSource directory tree sha256 manifest = .ok snapshot →
      (∃ bytes, hashedBytes directory tree manifest = .ok bytes
        ∧ snapshot.digest = digestText (sha256 bytes))
      ∧ (snapshot.files.Pairwise fun left right => folded left.path ≠ folded right.path)
      ∧ snapshot.totalBytes = (snapshot.files.map (·.size)).sum
      ∧ snapshot.totalBytes ≤ maxSourceBytes)
    ∧ ∀ directory tree manifest,
      inspectPackageSource directory tree sha256 manifest ≠ .error .underflow := by
  refine ⟨?_, ?_, ?_, ?_⟩
  · intro directory directory' tree tree' manifest manifest' snapshot snapshot' one two
    exact hashedBytes_eq_iff ((inspectPackageSource_ok_iff _ _ _ _ _).mp one).1
      ((inspectPackageSource_ok_iff _ _ _ _ _).mp two).1
  · intro directory tree tree' manifest snapshot same
    exact ⟨inspectPackageSource_reordered same, inspectPackageSource_reordered same.symm⟩
  · intro directory tree manifest snapshot done
    obtain ⟨accepted, total, digest⟩ := (inspectPackageSource_ok_iff _ _ _ _ _).mp done
    obtain ⟨_, spread, _, sum, _⟩ := (fits_iff bounded_empty _).mp accepted.fits
    refine ⟨⟨_, hashedBytes_eq accepted, digest⟩, pairwise_map.mp spread, total, ?_⟩
    rw [total]
    exact (Nat.zero_add _).symm.trans_le sum
  · intro directory tree manifest wrapped
    refine hashPackageSource_ne_underflow directory tree manifest ?_
    unfold inspectPackageSource at wrapped
    cases hashed : hashPackageSource directory tree manifest with
    | error =>
      rw [hashed] at wrapped
      exact congrArg Except.error (Except.error.inj wrapped)
    | ok =>
      rw [hashed] at wrapped
      cases wrapped

/-- A package of two files, one of them in a directory of its own. -/
def sampleTree (before after : List (EntryName × Node)) : Node :=
  .directory [(⟨"src", by decide +kernel⟩, .directory (before
    ++ [(⟨"a", by decide +kernel⟩, .directory [(⟨"C.fn", by decide +kernel⟩, .file [])])] ++ after))]

/-- The other file. -/
def sampleEntry : EntryName × Node :=
  (⟨"b.fn", by decide +kernel⟩, .file ['x'])

/-- The digest of the bytes that are hashed for `sampleTree`. -/
def sampleHash (_ : List Char) : List UInt8 :=
  [0xf7, 0xa7, 0xe9, 0xd7, 0xef, 0xa3, 0x3d, 0xf7, 0x1e, 0x9f, 0xe4, 0x39, 0xa0, 0x4c, 0x8b, 0x21,
    0xcd, 0x2b, 0x71, 0xbf, 0x67, 0x20, 0x87, 0xdc, 0xf7, 0xf3, 0x2f, 0x28, 0x82, 0xfb, 0x85, 0xed]

/-- The sample is accepted, and listed the other way round as well. -/
theorem digest_commits_sample :
    ∃ snapshot,
      inspectPackageSource "p" (sampleTree [sampleEntry] []) sampleHash { name := "p", source := "src" }
          = .ok snapshot
        ∧ inspectPackageSource "p" (sampleTree [] [sampleEntry]) sampleHash
          { name := "p", source := "src" } = .ok snapshot
        ∧ snapshot.totalBytes ≤ maxSourceBytes
        ∧ (renderPackageManifest { name := "p", source := "src" }
            = renderPackageManifest { name := "p", source := "src" }
          ∧ packageFiles (sampleTree [sampleEntry] []) { name := "p", source := "src" }
            = packageFiles (sampleTree [] [sampleEntry]) { name := "p", source := "src" }) := by
  have accepted : inspectPackageSource "p" (sampleTree [sampleEntry] []) sampleHash
      { name := "p", source := "src" } = .ok
        ⟨"sha256:f7a7e9d7efa33df71e9fe439a04c8b21cd2b71bf672087dcf7f32f2882fb85ed", 1,
          [⟨"src/a/C.fn", 0⟩, ⟨"src/b.fn", 1⟩]⟩ := by decide +kernel
  have other : inspectPackageSource "p" (sampleTree [] [sampleEntry]) sampleHash
      { name := "p", source := "src" } = .ok
        ⟨"sha256:f7a7e9d7efa33df71e9fe439a04c8b21cd2b71bf672087dcf7f32f2882fb85ed", 1,
          [⟨"src/a/C.fn", 0⟩, ⟨"src/b.fn", 1⟩]⟩ := by decide +kernel
  have bytes : hashedBytes "p" (sampleTree [sampleEntry] []) { name := "p", source := "src" }
      = hashedBytes "p" (sampleTree [] [sampleEntry]) { name := "p", source := "src" } := by
    decide +kernel
  obtain ⟨commits, _, limits, _⟩ := digest_commits sampleHash
  exact ⟨_, accepted, other, (limits _ _ _ _ accepted).2.2.2, (commits _ _ _ _ _ _ _ _ accepted other).mp bytes⟩

end FoundationLang.Package
