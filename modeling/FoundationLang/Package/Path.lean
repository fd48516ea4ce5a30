/-
**Relative paths.**

The operations of `std::filesystem::path` on POSIX that manifests and locks use, on paths without a
root: the callers have turned paths with a root away before they look at the elements.
-/

import FoundationLang.Package.VersionText

namespace FoundationLang.Package

open List

/-! ### Elements -/

/-- The texts between the separators. -/
def pathPieces (path : String) : List String :=
  (path.toList.splitOn '/').map String.ofList

/-- `path::has_root_path`. -/
def hasRootPath (path : String) : Bool :=
  path.toList.head? == some '/'

/-- The elements of a path, in order. -/
def pathParts (path : String) : List String :=
  (pathPieces path).filter (· ≠ "") ++ if path.toList.getLast? = some '/' then [""] else []

/-- `path::generic_string`. -/
def genericString (path : String) : String :=
  (if hasRootPath path then "/" else "") ++ "/".intercalate (pathParts path)

example : genericString "a//b/" = "a/b/" ∧ genericString "//a" = "/a" := by decide +kernel

/-- `path::compare`, element by element. -/
def comparePath (left right : String) : Ordering :=
  compareTexts (pathParts left) (pathParts right)

/-! ### Normal form -/

/-- One element of a path, put on the elements before it, the last one first. -/
def normalStep (stack : List String) (piece : String) : List String :=
  if piece = "" ∨ piece = "." then stack
  else if piece = ".." then
    match stack with
    | [] => [".."]
    | top :: rest => if top = ".." then ".." :: stack else rest
  else piece :: stack

/-- The elements of the normal form. -/
def normalParts (path : String) : List String :=
  ((pathPieces path).foldl normalStep []).reverse

/-- The path ends in a directory: a separator, a dot or a `..` comes last. -/
def endsInDirectory (path : String) : Bool :=
  (pathPieces path).getLast?.any fun last => last == "" || last == "." || last == ".."

/-- `path::lexically_normal`. -/
def lexicallyNormal (path : String) : String :=
  if path = "" then ""
  else if normalParts path = [] then "."
  else
    "/".intercalate (normalParts path) ++
      if endsInDirectory path && (normalParts path).getLast? != some ".." then "/" else ""

example : lexicallyNormal "./a//b/../c.c" = "a/c.c" ∧ lexicallyNormal "a/b/.." = "a/"
    ∧ lexicallyNormal "a/.." = "." := by decide +kernel

/-- `path::filename`. -/
def fileName (path : String) : String :=
  (pathParts path).getLast?.getD ""

/-- `path::extension`. -/
def fileExtension (path : String) : String :=
  let name := (fileName path).toList
  if name = ['.', '.'] ∨ '.' ∉ name.drop 1 then ""
  else String.ofList ('.' :: (name.reverse.takeWhile (· != '.')).reverse)

example : fileExtension "a/b.tar.c" = ".c" ∧ fileExtension ".c" = "" ∧ fileExtension "a.c/" = "" := by
  decide +kernel

/-- The elements left after the common beginning of two paths. -/
def dropCommon : List String → List String → List String × List String
  | left :: lefts, right :: rights =>
    if left = right then dropCommon lefts rights else (left :: lefts, right :: rights)
  | lefts, rights => (lefts, rights)

/-- The elements of `path::lexically_relative`, none for an empty path. -/
def lexicallyRelative (path base : String) : List String :=
  match dropCommon (pathParts path) (pathParts base) with
  | ([], []) => ["."]
  | (rest, above) =>
    let names := (above.filter fun part => part ≠ "" ∧ part ≠ "." ∧ part ≠ "..").length
    let parents := (above.filter (· = "..")).length
    if names < parents then []
    else if names = parents ∧ (rest = [] ∨ rest.head? = some "") then ["."]
    else List.replicate (names - parents) ".." ++ rest

/-! ### Checks -/

/-- A path that stays below its root and names something. -/
def relativeSource (value : String) : Bool :=
  !value.isEmpty && !hasRootPath value && lexicallyNormal value != "." &&
    (pathParts value).all (· != "..")

/-- One of the two directories is inside the other. -/
def nestedSource (left right : String) : Bool :=
  let rest := dropCommon (pathParts (lexicallyNormal left)) (pathParts (lexicallyNormal right))
  rest.1.isEmpty || rest.2.isEmpty

/-- What a location of each kind looks like. -/
def validLocation (kind : PackageLocationKind) (value : String) : Bool :=
  if value.isEmpty || value.toList.any fun byte => byte.toNat < 0x20 then false
  else
    match kind with
    | .registry => identifier value
    | .sdk => relativeSource value
    | .path => !hasRootPath value

/-- `sha256:` and 64 lower-case digits. -/
def digest (value : String) : Bool :=
  digestHex value

/-! ### A normal form is its own normal form -/

/-- An element that a normal form keeps. -/
def Kept (part : String) : Prop :=
  part ≠ "" ∧ part ≠ "." ∧ part ≠ ".." ∧ '/' ∉ part.toList

/-- The elements that a path keeps when no `..` takes one back. -/
def keptParts (path : String) : List String :=
  (pathPieces path).filter fun piece => piece ≠ "" ∧ piece ≠ "."

theorem notMem_pathPieces {path : String} (upward : ∀ part ∈ pathParts path, part ≠ "..")
    {piece : String} (mem : piece ∈ pathPieces path) : piece ≠ ".." := by
  rintro rfl
  refine upward ".." ?_ rfl
  exact mem_append_left _ (mem_filter.mpr ⟨mem, by decide⟩)

theorem kept_of_mem {path : String} (upward : ∀ part ∈ pathParts path, part ≠ "..")
    {part : String} (mem : part ∈ keptParts path) : Kept part := by
  obtain ⟨present, filled⟩ := mem_filter.mp mem
  simp only [ne_eq, decide_eq_true_eq] at filled
  refine ⟨filled.1, filled.2, notMem_pathPieces upward present, ?_⟩
  obtain ⟨_, inside, rfl⟩ := mem_map.mp present
  rw [String.toList_ofList]
  exact (Library.mem_splitOn inside).2

/-- Without `..` the normal form drops dots and nothing else. -/
theorem normalParts_eq {path : String} (upward : ∀ part ∈ pathParts path, part ≠ "..") :
    normalParts path = keptParts path := by
  have fold : ∀ (pieces stack : List String), (∀ piece ∈ pieces, piece ≠ "..") →
      (pieces.foldl normalStep stack).reverse
        = stack.reverse ++ pieces.filter fun piece => piece ≠ "" ∧ piece ≠ "." := by
    intro pieces
    induction pieces with
    | nil => simp
    | cons x rest ih =>
      intro stack plain
      have here := plain x (by simp)
      rw [foldl_cons, ih _ fun piece mem => plain piece (by simp [mem])]
      by_cases dot : x = "" ∨ x = "."
      · rw [normalStep.eq_def, if_pos dot, filter_cons_of_neg (by simpa using or_iff_not_imp_left.mp dot)]
      · rw [normalStep.eq_def, if_neg dot, if_neg here,
          filter_cons_of_pos (by simpa using not_or.mp dot)]
        simp
  unfold normalParts keptParts
  rw [fold _ _ fun piece mem => notMem_pathPieces upward mem]
  rfl

theorem pathPieces_intercalate {parts : List String} (nonempty : parts ≠ [])
    (whole : ∀ part ∈ parts, '/' ∉ part.toList) (trailing : Bool) :
    pathPieces ("/".intercalate parts ++ if trailing then "/" else "")
      = parts ++ if trailing then [""] else [] := by
  have pieces : (['/'].intercalate (parts.map String.toList)).splitOn '/'
      = parts.map String.toList := by
    refine splitOn_intercalate '/' (fun part mem => ?_) (by simpa using nonempty)
    obtain ⟨part, present, rfl⟩ := mem_map.mp mem
    exact whole part present
  have back : (parts.map String.toList).map String.ofList = parts := by
    simp [Function.comp_def]
  unfold pathPieces
  rw [String.toList_append, String.toList_intercalate]
  cases trailing with
  | false =>
    show List.map _ (List.splitOn '/' (_ ++ [])) = _
    rw [append_nil, show "/".toList = ['/'] from rfl, pieces, back]
    simp
  | true =>
    show List.map _ (List.splitOn '/' (_ ++ '/' :: [])) = _
    rw [splitOn_append_cons_self, show "/".toList = ['/'] from rfl, pieces, map_append,
      back]
    rfl

theorem hasRootPath_intercalate {x : String} (rest : List String) (tail : String)
    (filled : x ≠ "") (whole : '/' ∉ x.toList) :
    hasRootPath ("/".intercalate (x :: rest) ++ tail) = false := by
  cases bytes : x.toList with
  | nil => exact absurd (String.toList_eq_nil_iff.mp bytes) filled
  | cons byte =>
    have head : ("/".intercalate (x :: rest) ++ tail).toList.head? = some byte := by
      rw [String.toList_append, String.toList_intercalate, map_cons, bytes]
      cases rest <;> simp [intercalate_cons_cons]
    rw [hasRootPath, head, beq_eq_false_iff_ne]
    rintro same
    cases same
    exact whole (by simp [bytes])

theorem lexicallyNormal_eq {path : String} (relative : relativeSource path = true) :
    keptParts path ≠ [] ∧ (∀ part ∈ keptParts path, Kept part)
      ∧ lexicallyNormal path
        = "/".intercalate (keptParts path) ++ if endsInDirectory path then "/" else "" := by
  simp only [relativeSource, Bool.and_eq_true, Bool.not_eq_true', bne_iff_ne, ne_eq,
    all_eq_true] at relative
  obtain ⟨⟨⟨filled, _⟩, named⟩, upward⟩ := relative
  have parts := normalParts_eq upward
  have kept : ∀ part ∈ keptParts path, Kept part := fun part => kept_of_mem upward
  have exist : path ≠ "" := by simpa [String.isEmpty_iff] using filled
  unfold lexicallyNormal at named ⊢
  rw [if_neg exist, parts] at named ⊢
  by_cases empty : keptParts path = []
  · exact absurd (if_pos empty) named
  · refine ⟨empty, kept, ?_⟩
    have last : (keptParts path).getLast? ≠ some ".." := by
      intro same
      exact (kept ".." (mem_of_getLast? same)).2.2.1 rfl
    rw [if_neg empty]
    simp [last]

/-- **A normal form is its own normal form.** -/
theorem lexicallyNormal_idem {path : String} (relative : relativeSource path = true) :
    relativeSource (lexicallyNormal path) = true
      ∧ lexicallyNormal (lexicallyNormal path) = lexicallyNormal path := by
  obtain ⟨nonempty, kept, normal⟩ := lexicallyNormal_eq relative
  have pieces := pathPieces_intercalate nonempty (fun part mem => (kept part mem).2.2.2)
    (endsInDirectory path)
  rw [← normal] at pieces
  have exist : lexicallyNormal path ≠ "" := by
    intro empty
    rw [empty] at pieces
    obtain ⟨x, rest, parts⟩ := exists_cons_of_ne_nil nonempty
    rw [parts, show pathPieces "" = [""] from rfl, cons_append] at pieces
    exact (kept x (parts ▸ mem_cons_self)).1 (List.cons.inj pieces).1.symm
  have upward : ∀ part ∈ pathParts (lexicallyNormal path), part ≠ ".." := by
    rintro part mem rfl
    rcases mem_append.mp mem with inside | last
    · rw [pieces, filter_append, mem_append, mem_filter, mem_filter] at inside
      rcases inside with ⟨present, _⟩ | ⟨present, _⟩
      · exact (kept ".." present).2.2.1 rfl
      · split at present <;> simp at present
    · split at last <;> simp at last
  have same : keptParts (lexicallyNormal path) = keptParts path := by
    have all : (keptParts path).filter (fun piece => piece ≠ "" ∧ piece ≠ ".") = keptParts path :=
      filter_eq_self.mpr fun part mem =>
        decide_eq_true ⟨(kept part mem).1, (kept part mem).2.1⟩
    rw [keptParts, pieces, filter_append, all]
    cases endsInDirectory path <;> simp
  have dir : endsInDirectory (lexicallyNormal path) = endsInDirectory path := by
    unfold endsInDirectory at pieces ⊢
    rw [pieces]
    cases (pathPieces path).getLast?.any fun last => last == "" || last == "." || last == ".." with
    | true => simp
    | false =>
      cases last : (keptParts path).getLast? with
      | none => exact absurd (List.getLast?_eq_none_iff.mp last) nonempty
      | some part =>
        obtain ⟨filled, dot, parent, _⟩ := kept part (mem_of_getLast? last)
        simp [last, filled, dot, parent]
  have rooted : hasRootPath (lexicallyNormal path) = false := by
    obtain ⟨x, rest, parts⟩ := exists_cons_of_ne_nil nonempty
    obtain ⟨filled, _, _, separator⟩ := kept x (parts ▸ mem_cons_self)
    rw [normal, parts]
    exact hasRootPath_intercalate rest _ filled separator
  have again : lexicallyNormal (lexicallyNormal path) = lexicallyNormal path := by
    have last : (keptParts path).getLast? ≠ some ".." := fun same =>
      (kept ".." (mem_of_getLast? same)).2.2.1 rfl
    conv_lhs => rw [lexicallyNormal]
    rw [if_neg exist, normalParts_eq upward, same, if_neg nonempty, dir, normal]
    simp [last]
  refine ⟨?_, again⟩
  have named : lexicallyNormal path ≠ "." := by
    intro dot
    rw [dot] at same
    exact nonempty (same.symm.trans rfl)
  simp only [relativeSource, again, rooted, Bool.not_false, Bool.and_true, Bool.and_eq_true,
    Bool.not_eq_true', bne_iff_ne, ne_eq, all_eq_true]
  exact ⟨⟨by simpa [String.isEmpty_iff] using exist, named⟩, upward⟩

/-! ### Generic strings -/

theorem intercalate_pathPieces (path : String) : "/".intercalate (pathPieces path) = path := by
  apply String.toList_injective
  rw [String.toList_intercalate, pathPieces, map_map]
  simp [Function.comp_def, intercalate_splitOn]

/-- A path ends in a separator when its last piece is empty. -/
theorem getLast?_pathPieces {path : String} (filled : path ≠ "") :
    path.toList.getLast? = some '/' ↔ (pathPieces path).getLast? = some "" := by
  constructor
  · intro last
    obtain ⟨before, whole⟩ := getLast?_eq_some_iff.mp last
    rw [pathPieces, whole, splitOn_append_cons_self, splitOn_nil, map_append]
    simp
  · intro last
    obtain ⟨before, pieces⟩ := getLast?_eq_some_iff.mp last
    have whole := intercalate_pathPieces path
    by_cases alone : before = []
    · rw [pieces, alone, nil_append, String.intercalate_singleton] at whole
      exact absurd whole.symm filled
    · rw [pieces, String.intercalate_append_of_ne_nil alone (by simp), String.intercalate_singleton,
        String.append_empty] at whole
      rw [← whole, String.toList_append]
      exact getLast?_concat

/-- Empty pieces do not matter for the normal form. -/
theorem normalParts_filter (path : String) :
    ((pathParts path).foldl normalStep []).reverse = normalParts path := by
  have skip : (fun stack piece => if decide (piece ≠ "") then normalStep stack piece else stack)
      = normalStep := by
    funext stack piece
    by_cases empty : piece = "" <;> simp [empty, normalStep]
  rw [normalParts, pathParts, foldl_append, foldl_filter, skip]
  split
  · rfl
  · rfl

section Generic

variable {path : String} (relative : relativeSource path = true)
include relative

/-- A relative path that names something has an element, which is no separator. -/
theorem pathParts_eq_cons : ∃ x rest, pathParts path = x :: rest ∧ x ≠ ""
    ∧ (∀ part ∈ pathParts path, '/' ∉ part.toList) := by
  obtain ⟨named, _, _⟩ := lexicallyNormal_eq relative
  have names : (pathPieces path).filter (· ≠ "") ≠ [] := by
    intro none
    refine named (eq_nil_iff_forall_not_mem.mpr fun part mem => ?_)
    obtain ⟨present, filled⟩ := mem_filter.mp mem
    have inside : part ∈ (pathPieces path).filter (· ≠ "") :=
      mem_filter.mpr ⟨present, decide_eq_true (of_decide_eq_true filled).1⟩
    rw [none] at inside
    cases inside
  obtain ⟨x, rest, split⟩ := exists_cons_of_ne_nil names
  have here : x ∈ (pathPieces path).filter (· ≠ "") := split ▸ mem_cons_self
  refine ⟨x, _, by rw [pathParts, split, cons_append], of_decide_eq_true (mem_filter.mp here).2, ?_⟩
  intro part mem
  rcases mem_append.mp mem with inside | last
  · obtain ⟨_, within, rfl⟩ := mem_map.mp (mem_filter.mp inside).1
    rw [String.toList_ofList]
    exact (Library.mem_splitOn within).2
  · split at last
    · rw [mem_singleton.mp last]
      simp
    · cases last

theorem genericString_eq : genericString path = "/".intercalate (pathParts path) := by
  simp only [relativeSource, Bool.and_eq_true, Bool.not_eq_true'] at relative
  rw [genericString, relative.1.1.2]
  exact String.empty_append

theorem pathPieces_genericString : pathPieces (genericString path) = pathParts path := by
  obtain ⟨_, _, split, _, whole⟩ := pathParts_eq_cons relative
  rw [genericString_eq relative]
  simpa using pathPieces_intercalate (by simp [split]) whole false

theorem genericString_ne_empty : genericString path ≠ "" := by
  intro empty
  obtain ⟨_, _, split, filled, _⟩ := pathParts_eq_cons relative
  have pieces := pathPieces_genericString relative
  rw [empty, split] at pieces
  exact filled (List.cons.inj pieces).1.symm

omit relative in
/-- The last element is empty when the path ends in a separator. -/
theorem getLast?_pathParts :
    (pathParts path).getLast? = some "" ↔ path.toList.getLast? = some '/' := by
  rw [pathParts]
  split
  · rename_i trailing
    simp [trailing]
  · rename_i plain
    rw [append_nil]
    refine iff_of_false (fun last => ?_) plain
    have empty := (mem_filter.mp (mem_of_getLast? last)).2
    simp at empty

/-- A generic string has the elements of its path. -/
theorem pathParts_genericString : pathParts (genericString path) = pathParts path := by
  conv_lhs => rw [pathParts]
  simp only [getLast?_pathPieces (genericString_ne_empty relative), pathPieces_genericString relative,
    getLast?_pathParts]
  rw [pathParts, filter_append, filter_filter]
  simp only [Bool.and_self]
  split <;> simp

/-- **The normal form of a generic string is that of its path.** -/
theorem lexicallyNormal_genericString :
    lexicallyNormal (genericString path) = lexicallyNormal path := by
  have exist : path ≠ "" := by
    rintro rfl
    cases relative
  have parts : normalParts (genericString path) = normalParts path := by
    rw [normalParts, pathPieces_genericString relative, normalParts_filter]
  have dir : endsInDirectory (genericString path) = endsInDirectory path := by
    unfold endsInDirectory
    rw [pathPieces_genericString relative]
    by_cases trailing : path.toList.getLast? = some '/'
    · rw [getLast?_pathParts.mpr trailing, (getLast?_pathPieces exist).mp trailing]
    · rw [pathParts, if_neg trailing, append_nil]
      cases last : (pathPieces path).getLast? with
      | none => rw [List.getLast?_eq_none_iff.mp last, filter_nil, getLast?_nil]
      | some piece =>
        have filled : piece ≠ "" := by
          rintro rfl
          exact trailing ((getLast?_pathPieces exist).mpr last)
        obtain ⟨before, pieces⟩ := getLast?_eq_some_iff.mp last
        have stays : [piece].filter (fun piece => decide (piece ≠ "")) = [piece] := by simp [filled]
        rw [pieces, filter_append, stays, getLast?_concat]
  unfold lexicallyNormal
  rw [if_neg (genericString_ne_empty relative), if_neg exist, parts, dir]

theorem hasRootPath_genericString : hasRootPath (genericString path) = false := by
  obtain ⟨x, rest, split, filled, whole⟩ := pathParts_eq_cons relative
  have plain := hasRootPath_intercalate rest "" filled (whole x (split ▸ mem_cons_self))
  rwa [String.append_empty, ← split, ← genericString_eq relative] at plain

theorem relativeSource_genericString : relativeSource (genericString path) = true := by
  have root := hasRootPath_genericString relative
  have parts := pathParts_genericString relative
  have normal := lexicallyNormal_genericString relative
  have filled := genericString_ne_empty relative
  simp only [relativeSource, Bool.and_eq_true, Bool.not_eq_true'] at relative ⊢
  rw [parts, normal]
  exact ⟨⟨⟨by simpa [String.isEmpty_iff] using filled, root⟩, relative.1.2⟩, relative.2⟩

theorem genericString_genericString : genericString (genericString path) = genericString path := by
  rw [genericString_eq (relativeSource_genericString relative), pathParts_genericString relative,
    genericString_eq relative]

/-- A normal form is a generic string. -/
theorem genericString_of_normal (normal : lexicallyNormal path = path) :
    genericString path = path := by
  obtain ⟨nonempty, kept, same⟩ := lexicallyNormal_eq relative
  have pieces := pathPieces_intercalate nonempty (fun part mem => (kept part mem).2.2.2)
    (endsInDirectory path)
  rw [← same, normal] at pieces
  have filled : path ≠ "" := by
    rintro rfl
    cases relative
  have parts : pathParts path = pathPieces path := by
    have names : (keptParts path).filter (· ≠ "") = keptParts path :=
      filter_eq_self.mpr fun part mem => decide_eq_true (kept part mem).1
    rw [pathParts, pieces, filter_append, names]
    simp only [getLast?_pathPieces filled, pieces]
    cases endsInDirectory path with
    | true => simp
    | false =>
      have last : (keptParts path).getLast? ≠ some "" := fun same =>
        (kept "" (mem_of_getLast? same)).1 rfl
      simp [last]
  rw [genericString_eq relative, parts, intercalate_pathPieces]

end Generic

end FoundationLang.Package
