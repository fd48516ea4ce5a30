/-
**Package sources.**

`inspectPackageSource` and `inspectForeignSource` of `package_source.cpp`: the files of a package are
collected below its source directories and its own foreign sources, checked, sorted, and fed to a hash
behind the text of the manifest.

Two outcomes say what the types of the source rule out or hide: `underflow`, where the unsigned
subtraction of a limit check would wrap around, and `overlong`, where a text is longer than a
`std::size_t` can count.
-/

import FoundationLang.Package.Tree
import FoundationLang.Package.ManifestFile

namespace FoundationLang.Package

/-! ### Limits and paths -/

/-- The number of files of a package. -/
def maxSourceFiles : Nat := 8192

/-- The size of one file. -/
def maxSourceFileBytes : Nat := 32 * 1024 * 1024

/-- The size of all files together. -/
def maxSourceBytes : Nat := 256 * 1024 * 1024

/-- The depth of directories. -/
def maxSourceDepth : Nat := 64

/-- A name that every file system takes. -/
def portablePart (part : String) : Bool :=
  if part.isEmpty || part == "." || part == ".." || part.toList.getLast? == some ' ' ||
      part.toList.getLast? == some '.' then false
  else part.toList.all fun byte => isAlnum byte || byte == '.' || byte == '_' || byte == '-'

/-- Every part is portable, and there is no root. -/
def portablePath (path : String) : Bool :=
  if path.isEmpty || hasRootPath path then false else (pathParts path).all portablePart

/-- Names that differ in case only collide on some file systems. -/
def folded (value : String) : String :=
  String.ofList (value.toList.map Char.toLower)

/-! ### Results -/

/-- A file and its size. -/
structure PackageSourceFile where
  path : String
  size : Nat
deriving DecidableEq, Repr

/-- The digest of the files, and the files. -/
structure PackageSourceSnapshot where
  digest : String
  totalBytes : Nat
  files : List PackageSourceFile
deriving DecidableEq, Repr

/-- Why there is no snapshot. -/
inductive SourceStop
  | reported (errors : List PackageError)
  | underflow
  | overlong
deriving DecidableEq, Repr

/-- The checks on an entry, in the order in which they are made. -/
inductive SourceCheck
  | depth | symlink | regular | portable | collision | size | count
deriving DecidableEq, Repr

/-- The code and the text of a failed check of `inspectPackageSource`. -/
def packageCheck : SourceCheck → String × String
  | .depth => ("FDN4032", "package source exceeds depth limit")
  | .symlink => ("FDN4033", "package source cannot contain symlinks")
  | .regular => ("FDN4034", "package source can contain only regular files")
  | .portable => ("FDN4035", "package source path is not portable")
  | .collision => ("FDN4036", "package source paths collide without case sensitivity")
  | .size => ("FDN4037", "package source exceeds size limit")
  | .count => ("FDN4038", "package source exceeds file limit")

/-- The code and the text of a failed check of `inspectForeignSource`. -/
def foreignCheck : SourceCheck → String × String
  | .depth => ("FDN4057", "foreign path source exceeds depth limit")
  | .symlink => ("FDN4057", "foreign path source cannot contain symlinks")
  | .regular => ("FDN4057", "foreign path source can contain only regular files")
  | .portable => ("FDN4057", "foreign path source is not portable")
  | .collision => ("FDN4057", "foreign path source paths collide without case sensitivity")
  | .size => ("FDN4057", "foreign path source exceeds size limit")
  | .count => ("FDN4057", "foreign path source exceeds file limit")

/-- The one error that `addError` leaves before the function returns. -/
def sourceError (path : String) (text : String × String) : SourceStop :=
  .reported [⟨path, 1, 1, text.1, text.2⟩]

/-! ### Collecting files -/

/-- The variables of the loops: the snapshot without its digest, and `foldedPaths`. -/
structure SourceRecord where
  files : List PackageSourceFile := []
  totalBytes : Nat := 0
  foldedPaths : List String := []
deriving DecidableEq, Repr

/-- A file that passed its checks. -/
def SourceRecord.push (record : SourceRecord) (file : PackageSourceFile) : SourceRecord :=
  { files := record.files ++ [file]
    totalBytes := record.totalBytes + file.size
    foldedPaths := folded file.path :: record.foldedPaths }

/-- The checks on a regular file. Where foreign files are taken over, the limit of one file is not
checked again. -/
def addSourceFile (fail : SourceCheck → SourceStop) (oversized : Nat → Bool) (record : SourceRecord)
    (file : PackageSourceFile) : Except SourceStop SourceRecord :=
  if portablePath file.path = false then .error (fail .portable)
  else if folded file.path ∈ record.foldedPaths then .error (fail .collision)
  else if oversized file.size then .error (fail .size)
  else if maxSourceBytes < file.size then .error .underflow
  else if record.totalBytes > maxSourceBytes - file.size then .error (fail .size)
  else if record.files.length = maxSourceFiles then .error (fail .count)
  else .ok (record.push file)

/-- The loop over a `recursive_directory_iterator`: the entries of a directory, and those of a
directory below it before the next entry. The number is how many levels are left. -/
def walkSource (fail : SourceCheck → String → SourceStop) :
    Nat → String → List (EntryName × Node) → SourceRecord → Except SourceStop SourceRecord
  | 0, _, [], record => .ok record
  | 0, directory, (name, _) :: _, _ => .error (fail .depth (joinPath directory name.text))
  | depth + 1, directory, entries, record =>
    entries.foldlM (fun record entry =>
      let path := joinPath directory entry.1.text
      match entry.2 with
      | .link _ => .error (fail .symlink path)
      | .directory inner => walkSource fail depth path inner record
      | .special => .error (fail .regular path)
      | .file bytes =>
        addSourceFile (fail · path) (maxSourceFileBytes < ·) record
          ⟨lexicallyNormal path, bytes.length⟩) record

/-- The order of the files. -/
def compareSourceFile (left right : PackageSourceFile) : Ordering :=
  compare left.path right.path

/-- `std::sort` of the files. -/
def sortSourceFiles (files : List PackageSourceFile) : List PackageSourceFile :=
  stdSort (fun left right => compareSourceFile left right == .lt) files

/-- The files in the order in which they are hashed. -/
def SourceRecord.sort (record : SourceRecord) : SourceRecord :=
  { record with files := sortSourceFiles record.files }

/-! ### Hashing -/

/-- `updateSize`: eight bytes, the highest first. -/
def updateSize (value : Nat) : List Char :=
  (List.range 8).map fun index => Char.ofNat ((value >>> ((7 - index) * 8)) % 256)

/-- What the hash is fed before the bytes of a file. -/
def updateEntryHeader (path : String) (size : Nat) : List Char :=
  updateSize path.length ++ path.toList ++ updateSize size

/-- `hashFile`: the bytes that are fed, when there are as many as expected. -/
def hashFile (bytes : Option (List Char)) (expectedSize : Nat) : Option (List Char) :=
  bytes.filter fun bytes => bytes.length == expectedSize

/-- The loop over the files of a snapshot. -/
def hashFiles (read : String → Option (List Char)) (changed : String → SourceStop) :
    List PackageSourceFile → Except SourceStop (List Char)
  | [] => .ok []
  | file :: rest =>
    if 2 ^ 64 ≤ file.path.length then .error .overlong
    else
      match hashFile (read file.path) file.size with
      | none => .error (changed file.path)
      | some bytes => do
        let others ← hashFiles read changed rest
        .ok (updateEntryHeader file.path file.size ++ bytes ++ others)

/-- The digits of `digest`. -/
def digestDigit (value : UInt8) : Char :=
  "0123456789abcdef".toList.getD value.toNat '0'

/-- The digest as it is written. -/
def digestText (digestBytes : List UInt8) : String :=
  "sha256:" ++ String.ofList
    (digestBytes.flatMap fun (value : UInt8) =>
      [digestDigit (value >>> 4), digestDigit (value &&& 0x0f)])

/-! ### Foreign sources -/

section Foreign

variable (packageDirectory : String) (tree : Node)

/-- The loop of `inspectForeignSource` and what comes before it: the files below a directory of the
tree, by their paths below that directory. -/
def collectForeignSource (directory : String) : Except SourceStop SourceRecord :=
  let sourceDirectory := joinPath packageDirectory directory
  match tree.status directory with
  | some (.directory entries) => do
    let fail := fun check path => sourceError (joinPath sourceDirectory path) (foreignCheck check)
    let record ← walkSource fail maxSourceDepth "" entries {}
    if record.files = [] then
      .error (sourceError sourceDirectory ("FDN4057", "foreign path source is empty"))
    else .ok record.sort
  | _ =>
    .error (sourceError sourceDirectory ("FDN4057", "foreign path source must be a real directory"))

/-- `inspectForeignSource` up to `hash.finish()`. -/
def hashForeignSource (directory : String) : Except SourceStop (SourceRecord × List Char) := do
  let sourceDirectory := joinPath packageDirectory directory
  let record ← collectForeignSource packageDirectory tree directory
  let bytes ← hashFiles (fun path => tree.read (joinPath directory path))
    (fun path => sourceError (joinPath sourceDirectory path)
      ("FDN4057", "foreign path source changed while it was read")) record.files
  .ok (record, "foundation.foreign.path.digest/v1".toList ++ bytes)

/-- The snapshot of the directory of a foreign package. -/
def inspectForeignSource (sha256 : List Char → List UInt8) (directory : String) :
    Except SourceStop PackageSourceSnapshot :=
  (hashForeignSource packageDirectory tree directory).map fun (record, bytes) =>
    ⟨digestText (sha256 bytes), record.totalBytes, record.files⟩

/-- A native source lies below the directory of a foreign source. -/
def ownsNativeSource (manifest : PackageManifest) (resolver : String) : Bool :=
  manifest.nativeSources.any fun source =>
    (lexicallyRelative source.path resolver).head?.any (· != "..")

/-- No part of the path of a resolver is a link. -/
def checkComponents (resolver : String) : Except SourceStop String :=
  (pathParts resolver).foldlM (fun current part =>
    let current := joinPath current part
    match tree.status current with
    | none | some (.link _) =>
      .error (sourceError (joinPath packageDirectory current)
        ("FDN4057", "foreign path source cannot use symlinked path components"))
    | some _ => .ok current) ""

/-- The files of one foreign entry of the manifest, taken over. -/
def addForeign (manifest : PackageManifest) (record : SourceRecord) (foreign : Foreign) :
    Except SourceStop SourceRecord :=
  let resolver := lexicallyNormal foreign.resolver
  if foreign.kind ≠ "path" then .ok record
  else if ownsNativeSource manifest resolver = false then .ok record
  else do
    let _ ← checkComponents packageDirectory tree resolver
    let snapshot ← hashForeignSource packageDirectory tree resolver
    snapshot.1.files.foldlM (fun record file =>
      let relative := lexicallyNormal (joinPath resolver file.path)
      addSourceFile (fun check => sourceError (joinPath packageDirectory relative) (packageCheck check))
        (fun _ => false) record ⟨relative, file.size⟩) record

end Foreign

/-! ### Packages -/

section Package

variable (packageDirectory : String) (tree : Node)

/-- The files below one source directory. -/
def addSource (record : SourceRecord) (directory : String) : Except SourceStop SourceRecord :=
  match tree.status directory with
  | some (.directory entries) =>
    walkSource (fun check path => sourceError (joinPath packageDirectory path) (packageCheck check))
      maxSourceDepth directory entries record
  | _ =>
    .error (sourceError (joinPath packageDirectory directory)
      ("FDN4031", "package source must be a real directory"))

/-- Where the files of a package are looked for. -/
def sourceDirectories (manifest : PackageManifest) : List String :=
  manifest.source :: manifest.testSource.toList

/-- The files of the package, sorted after the source directories and again at the end. -/
def collectPackageSource (manifest : PackageManifest) : Except SourceStop SourceRecord :=
  match tree with
  | .directory _ => do
    let record ← (sourceDirectories manifest).foldlM (addSource packageDirectory tree) {}
    let record ← manifest.foreign.foldlM (addForeign packageDirectory tree manifest) record.sort
    .ok record.sort
  | _ => .error (sourceError packageDirectory ("FDN4030", "package root must be a real directory"))

/-- `inspectPackageSource` up to `hash.finish()`. -/
def hashPackageSource (manifest : PackageManifest) : Except SourceStop (SourceRecord × List Char) := do
  let record ← collectPackageSource packageDirectory tree manifest
  let canonicalManifest := renderPackageManifest manifest
  if 2 ^ 64 ≤ canonicalManifest.length then .error .overlong
  let bytes ← hashFiles tree.read
    (fun path => sourceError (joinPath packageDirectory path)
      ("FDN4040", "package source changed while it was read")) record.files
  .ok (record, "foundation.package.digest/v1".toList
    ++ updateEntryHeader "foundation.package" canonicalManifest.length
    ++ canonicalManifest.toList ++ bytes)

/-- The snapshot with its digest, for any hash function. -/
def inspectPackageSource (sha256 : List Char → List UInt8) (manifest : PackageManifest) :
    Except SourceStop PackageSourceSnapshot :=
  (hashPackageSource packageDirectory tree manifest).map fun (record, bytes) =>
    ⟨digestText (sha256 bytes), record.totalBytes, record.files⟩

end Package

end FoundationLang.Package
