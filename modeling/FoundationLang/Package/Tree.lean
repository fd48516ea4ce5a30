/-
**Package directories.**

What the package code sees of the file system: a finite tree of regular files, directories, symbolic
links and other entries, and the path lookups of POSIX on it. Nothing changes while it is looked at.
-/

import FoundationLang.Package.Path

namespace FoundationLang.Package

open List

/-! ### Trees -/

instance (part : String) : Decidable (Kept part) :=
  inferInstanceAs (Decidable (_ ∧ _ ∧ _ ∧ _))

/-- The name of an entry: not empty, not a dot or two, and without separators. -/
structure EntryName where
  text : String
  kept : Kept text

/-- What `lstat` shows. A link comes with the place that it leads to: what is there, then the
directories above that, the innermost first. It leads nowhere when the list is empty. -/
inductive Node
  | file (bytes : List Char)
  | directory (entries : List (EntryName × Node))
  | link (target : List Node)
  | special

/-- `path::operator/`. -/
def joinPath (left right : String) : String :=
  if hasRootPath right then right
  else if left = "" ∨ left.toList.getLast? = some '/' then left ++ right
  else left ++ "/" ++ right

/-! ### Lookups -/

/-- The place at the end of a link; every other place stays as it is. -/
def follow : List Node → List Node
  | .link target :: _ => target
  | place => place

/-- The entry of a directory under a name. -/
def findEntry (entries : List (EntryName × Node)) (name : String) : Option Node :=
  (entries.find? fun entry => entry.1.text == name).map Prod.snd

/-- One element of a path, taken from a place. A place is an entry with the directories above it. -/
def enter (place : List Node) (part : String) : Option (List Node) :=
  match follow place with
  | .directory entries :: above =>
    if part = "" ∨ part = "." then some (.directory entries :: above)
    else if part = ".." then if above.isEmpty then none else some above
    else (findEntry entries part).map fun node => node :: .directory entries :: above
  | _ => none

/-- The place of a path below the root of the tree. Nothing is known above the root, and a path with
a root leaves the tree. -/
def Node.find (tree : Node) (path : String) : Option (List Node) :=
  if hasRootPath path then none else (pathParts path).foldlM enter [tree]

/-- `symlink_status`: none when there is no such entry. -/
def Node.status (tree : Node) (path : String) : Option Node :=
  (tree.find path).bind List.head?

/-- The bytes of a regular file, opened by its path. -/
def Node.read (tree : Node) (path : String) : Option (List Char) :=
  match (tree.find path).map follow with
  | some (.file bytes :: _) => some bytes
  | _ => none

/-- The names that lead from a directory to a regular file, through directories only, and the bytes
of the file. -/
inductive FileBelow : List (EntryName × Node) → List EntryName → List Char → Prop
  | here {entries : List (EntryName × Node)} {name : EntryName} {bytes : List Char}
      (member : (name, .file bytes) ∈ entries) : FileBelow entries [name] bytes
  | inside {entries inner : List (EntryName × Node)} {name : EntryName} {names : List EntryName}
      {bytes : List Char} (member : (name, .directory inner) ∈ entries)
      (below : FileBelow inner names bytes) : FileBelow entries (name :: names) bytes

/-- The path of an entry that is reached by names from a directory. -/
def pathBelow (directory : String) (names : List EntryName) : String :=
  names.foldl (fun path name => joinPath path name.text) directory

/-! ### Paths below a directory -/

/-- A path that needs a separator before something is joined to it. -/
def OpenEnded (path : String) : Prop :=
  path ≠ "" ∧ path.toList.getLast? ≠ some '/'

theorem EntryName.openEnded (name : EntryName) : OpenEnded name.text :=
  ⟨name.kept.1, fun last => name.kept.2.2.2 (mem_of_getLast? last)⟩

theorem EntryName.rootless (name : EntryName) : hasRootPath name.text = false := by
  unfold hasRootPath
  rw [beq_eq_false_iff_ne]
  exact fun x => name.kept.2.2.2 (mem_of_head? x)

theorem OpenEnded.append {path : String} (openEnded : OpenEnded path) (s : String) :
    OpenEnded (s ++ path) := by
  obtain ⟨filled, last⟩ := openEnded
  constructor
  · intro empty
    have bytes := congrArg String.toList empty
    rw [String.toList_append] at bytes
    exact filled (String.toList_eq_nil_iff.mp (append_eq_nil_iff.mp bytes).2)
  · rw [String.toList_append, List.getLast?_append]
    cases bytes : path.toList.getLast? with
    | none => exact absurd (String.toList_eq_nil_iff.mp (List.getLast?_eq_none_iff.mp bytes)) filled
    | some =>
      rw [bytes] at last
      exact last

theorem hasRootPath_append {path : String} (filled : path ≠ "") (t : String) :
    hasRootPath (path ++ t) = hasRootPath path := by
  unfold hasRootPath
  rw [String.toList_append, List.head?_append]
  cases bytes : path.toList with
  | nil => exact absurd (String.toList_eq_nil_iff.mp bytes) filled
  | cons => rfl

theorem joinPath_openEnded {path right : String} (openEnded : OpenEnded path)
    (rootless : hasRootPath right = false) : joinPath path right = path ++ "/" ++ right := by
  unfold joinPath
  rw [if_neg (by simp [rootless]), if_neg (by simp [openEnded.1, openEnded.2])]

theorem joinPath_eq (left : String) :
    ∃ before, ∀ right, hasRootPath right = false → joinPath left right = before ++ right := by
  unfold joinPath
  by_cases ends : left = "" ∨ left.toList.getLast? = some '/'
  · exact ⟨left, fun right rootless => by rw [if_neg (by simp [rootless]), if_pos ends]⟩
  · exact ⟨left ++ "/", fun right rootless => by rw [if_neg (by simp [rootless]), if_neg ends]⟩

theorem pathBelow_concat (dir : String) (names : List EntryName) (last : EntryName) :
    pathBelow dir (names ++ [last]) = joinPath (pathBelow dir names) last.text :=
  foldl_append

theorem pathBelow_eq {names : List EntryName} (filled : names ≠ []) :
    pathBelow "" names = "/".intercalate (names.map EntryName.text)
      ∧ OpenEnded (pathBelow "" names) ∧ hasRootPath (pathBelow "" names) = false
      ∧ ∀ dir, pathBelow dir names = joinPath dir (pathBelow "" names) := by
  induction names using List.reverseRecOn with
  | nil => exact absurd rfl filled
  | append_singleton names last ih =>
    by_cases empty : names = []
    · subst empty
      have alone : pathBelow "" [last] = last.text := by
        show joinPath "" last.text = _
        unfold joinPath
        rw [if_neg (by simp [last.rootless]), if_pos (.inl rfl), String.empty_append]
      rw [nil_append, alone]
      exact ⟨(String.intercalate_singleton).symm, last.openEnded, last.rootless, fun _ => rfl⟩
    · obtain ⟨text, openEnded, rootless, from_⟩ := ih empty
      have joined : pathBelow "" (names ++ [last]) = pathBelow "" names ++ "/" ++ last.text := by
        rw [pathBelow_concat, joinPath_openEnded openEnded last.rootless]
      refine ⟨?_, ?_, ?_, fun dir => ?_⟩
      · rw [joined, text, map_append, String.intercalate_append_of_ne_nil (by simpa using empty)
          (by simp), map_singleton, String.intercalate_singleton]
      · rw [joined]
        exact last.openEnded.append _
      · rw [joined, String.append_assoc, hasRootPath_append openEnded.1, rootless]
      · obtain ⟨before, join⟩ := joinPath_eq dir
        have longer : hasRootPath (pathBelow "" names ++ "/" ++ last.text) = false := by
          rw [String.append_assoc, hasRootPath_append openEnded.1, rootless]
        rw [pathBelow_concat, from_, joined, join _ rootless, join _ longer,
          joinPath_openEnded (openEnded.append before) last.rootless]
        simp [String.append_assoc]

theorem lexicallyNormal_pathBelow {names : List EntryName} (filled : names ≠ []) :
    lexicallyNormal (pathBelow "" names) = pathBelow "" names := by
  obtain ⟨text, openEnded, _⟩ := pathBelow_eq filled
  have kept : ∀ part ∈ names.map EntryName.text, Kept part := by
    intro part mem
    obtain ⟨name, _, rfl⟩ := mem_map.mp mem
    exact name.kept
  have present : names.map EntryName.text ≠ [] := by simpa using filled
  have pieces : pathPieces (pathBelow "" names) = names.map EntryName.text := by
    rw [text]
    simpa using pathPieces_intercalate present (fun part mem => (kept part mem).2.2.2) false
  have upward : ∀ part ∈ pathParts (pathBelow "" names), part ≠ ".." := by
    rintro part mem rfl
    rw [pathParts, pieces, mem_append, mem_filter] at mem
    rcases mem with ⟨here, _⟩ | last
    · exact (kept ".." here).2.2.1 rfl
    · split at last <;> simp at last
  have parts : normalParts (pathBelow "" names) = names.map EntryName.text := by
    rw [normalParts_eq upward, keptParts, pieces]
    exact filter_eq_self.mpr fun part mem =>
      decide_eq_true ⟨(kept part mem).1, (kept part mem).2.1⟩
  have ends : endsInDirectory (pathBelow "" names) = false := by
    unfold endsInDirectory
    rw [pieces]
    cases last : (names.map EntryName.text).getLast? with
    | none => exact absurd (List.getLast?_eq_none_iff.mp last) present
    | some part =>
      obtain ⟨nonempty, dot, parent, _⟩ := kept part (mem_of_getLast? last)
      simp [nonempty, dot, parent]
  conv_lhs => rw [lexicallyNormal]
  rw [if_neg openEnded.1, parts, if_neg present, ends, ← text]
  simp

/-! ### The order of the entries -/

/-- The same tree, with directories listed in another order. -/
inductive Reordered : Node → Node → Prop
  | refl (node : Node) : Reordered node node
  | trans {first second third : Node} (one : Reordered first second) (two : Reordered second third) :
      Reordered first third
  | order {entries others : List (EntryName × Node)} (unique : (entries.map (·.1.text)).Nodup)
      (perm : entries.Perm others) : Reordered (.directory entries) (.directory others)
  | inside {node other : Node} (before after : List (EntryName × Node)) (name : EntryName)
      (step : Reordered node other) :
      Reordered (.directory (before ++ (name, node) :: after))
        (.directory (before ++ (name, other) :: after))
  | link {node other : Node} (before after : List Node) (step : Reordered node other) :
      Reordered (.link (before ++ node :: after)) (.link (before ++ other :: after))

theorem Reordered.symm {first y : Node} (same : Reordered first y) :
    Reordered y first := by
  induction same with
  | refl node => exact .refl node
  | trans _ _ one two => exact two.trans one
  | order unique perm => exact .order ((perm.map _).nodup_iff.mp unique) perm.symm
  | inside before after name _ ih => exact .inside before after name ih
  | link before after _ ih => exact .link before after ih

/-- Two places that differ in the order of entries only. -/
abbrev SamePlace : List Node → List Node → Prop :=
  List.Forall₂ Reordered

theorem SamePlace.refl (place : List Node) : SamePlace place place :=
  forall₂_same.mpr fun node _ => .refl node

theorem SamePlace.trans {x y third : List Node} (one : SamePlace x y)
    (two : SamePlace y third) : SamePlace x third := by
  induction one generalizing third with
  | nil => exact two
  | cons head _ ih =>
    cases two with
    | cons next rest => exact .cons (head.trans next) (ih rest)

theorem SamePlace.replace {node y : Node} (s t : List Node)
    (step : Reordered node y) : SamePlace (s ++ node :: t) (s ++ y :: t) :=
  rel_append (SamePlace.refl s) (.cons step (SamePlace.refl t))

/-- What the order of the entries leaves of a node. -/
def SameShape : Node → Node → Prop
  | .file bytes, other => other = .file bytes
  | .directory entries, other => ∃ others, other = .directory others
      ∧ ∀ name, Option.Rel Reordered (findEntry entries name) (findEntry others name)
  | .link target, other => ∃ place, other = .link place ∧ SamePlace target place
  | .special, other => other = .special

theorem findEntry_append (s t : List (EntryName × Node)) (name : String) :
    findEntry (s ++ t) name = (findEntry s name).or (findEntry t name) := by
  unfold findEntry
  rw [List.find?_append]
  cases s.find? fun entry => entry.1.text == name <;> rfl

theorem optionRel_refl (found : Option Node) : Option.Rel Reordered found found := by
  cases found with
  | none => exact .none
  | some node => exact .some (.refl node)

theorem findEntry_perm {entries others : List (EntryName × Node)}
    (unique : (entries.map (·.1.text)).Nodup) (perm : entries.Perm others) (name : String) :
    findEntry entries name = findEntry others name := by
  unfold findEntry
  congr 1
  have unique' : (others.map (·.1.text)).Nodup := (perm.map _).nodup_iff.mp unique
  have spread {list : List (EntryName × Node)} (once : (list.map (·.1.text)).Nodup)
      {one two : EntryName × Node} (first : one ∈ list) (second : two ∈ list)
      (equal : one.1.text = two.1.text) : one = two :=
    inj_on_of_nodup_map once first second equal
  cases found : entries.find? fun entry => entry.1.text == name with
  | none =>
    refine (List.find?_eq_none.mpr fun entry mem => ?_).symm
    exact List.find?_eq_none.mp found entry (perm.mem_iff.mpr mem)
  | some entry =>
    have mem : entry ∈ others := perm.mem_iff.mp (mem_of_find?_eq_some found)
    have named := List.find?_some found
    cases again : others.find? fun entry => entry.1.text == name with
    | none => exact absurd named (List.find?_eq_none.mp again entry mem)
    | some =>
      have alike := List.find?_some again
      rw [beq_iff_eq] at named alike
      rw [spread unique' mem (mem_of_find?_eq_some again) (named.trans alike.symm)]

theorem Reordered.shape {node other : Node} (same : Reordered node other) : SameShape node other := by
  induction same with
  | refl node =>
    cases node with
    | file => rfl
    | directory entries => exact ⟨entries, rfl, fun name => optionRel_refl _⟩
    | link target => exact ⟨target, rfl, .refl target⟩
    | special => rfl
  | @trans x y third _ _ one two =>
    cases x with
    | file =>
      cases one
      exact two
    | directory entries =>
      obtain ⟨others, rfl, found⟩ := one
      obtain ⟨last, rfl, again⟩ := two
      refine ⟨last, rfl, fun name => ?_⟩
      have here := found name
      have there := again name
      revert here there
      generalize findEntry entries name = left
      generalize findEntry others name = m
      generalize findEntry last name = right
      rintro (one | _) (two | _)
      · exact .some (one.trans two)
      · exact .none
    | link =>
      obtain ⟨_, rfl, alike⟩ := one
      obtain ⟨last, rfl, again⟩ := two
      exact ⟨last, rfl, alike.trans again⟩
    | special =>
      cases one
      exact two
  | order unique perm =>
    refine ⟨_, rfl, fun name => ?_⟩
    rw [findEntry_perm unique perm name]
    exact optionRel_refl _
  | @inside node other before after name step =>
    refine ⟨_, rfl, fun wanted => ?_⟩
    rw [findEntry_append, findEntry_append]
    cases findEntry before wanted with
    | some found => exact .some (.refl found)
    | none =>
      simp only [Option.none_or, findEntry, List.find?_cons]
      split
      · exact .some step
      · exact optionRel_refl _
  | link before after step => exact ⟨_, rfl, .replace before after step⟩

theorem SamePlace.follow {p y : List Node} (same : SamePlace p y) :
    SamePlace (follow p) (follow y) := by
  cases same with
  | nil => exact .nil
  | @cons node y rest others head tail =>
    have shape := head.shape
    cases node with
    | file =>
      cases shape
      exact .cons head tail
    | directory =>
      obtain ⟨_, rfl, _⟩ := shape
      exact .cons head tail
    | link =>
      obtain ⟨_, rfl, alike⟩ := shape
      exact alike
    | special =>
      cases shape
      exact .cons head tail

/-- One element of a path does not see the order. -/
theorem SamePlace.enter {p y : List Node} (same : SamePlace p y) (part : String) :
    Option.Rel SamePlace (enter p part) (enter y part) := by
  have followed := same.follow
  unfold Package.enter
  revert followed
  generalize Package.follow p = here
  generalize Package.follow y = there
  intro followed
  cases followed with
  | nil => exact .none
  | @cons node y above others head tail =>
    have shape := head.shape
    cases node with
    | file =>
      cases shape
      exact .none
    | link =>
      obtain ⟨_, rfl, _⟩ := shape
      exact .none
    | special =>
      cases shape
      exact .none
    | directory entries =>
      obtain ⟨entries', rfl, found⟩ := shape
      show Option.Rel _ (if _ then _ else _) (if _ then _ else _)
      by_cases dot : part = "" ∨ part = "."
      · rw [if_pos dot, if_pos dot]
        exact .some (.cons head tail)
      · rw [if_neg dot, if_neg dot]
        by_cases parent : part = ".."
        · rw [if_pos parent, if_pos parent]
          cases tail with
          | nil => exact .none
          | cons up rest => exact .some (.cons up rest)
        · rw [if_neg parent, if_neg parent]
          have here := found part
          revert here
          generalize findEntry entries part = left
          generalize findEntry entries' part = right
          rintro (step | _)
          · exact .some (.cons step (.cons head tail))
          · exact .none

/-- The place of a path does not depend on the order, but for the order below it. -/
theorem Reordered.find {tree y : Node} (same : Reordered tree y) (path : String) :
    Option.Rel SamePlace (tree.find path) (y.find path) := by
  have walk : ∀ (parts : List String) (p place' : List Node), SamePlace p place' →
      Option.Rel SamePlace (parts.foldlM Package.enter p) (parts.foldlM Package.enter place') := by
    intro parts
    induction parts with
    | nil => exact fun p place' alike => .some alike
    | cons part parts ih =>
      intro p place' alike
      rw [foldlM_cons, foldlM_cons]
      have first := alike.enter part
      revert first
      generalize Package.enter p part = left
      generalize Package.enter place' part = right
      rintro (step | _)
      · exact ih _ _ step
      · exact .none
  unfold Node.find
  split
  · exact .none
  · exact walk _ _ _ (.cons same .nil)

theorem Reordered.status {tree y : Node} (same : Reordered tree y) (path : String) :
    Option.Rel Reordered (tree.status path) (y.status path) := by
  unfold Node.status
  have found := same.find path
  revert found
  generalize tree.find path = left
  generalize y.find path = right
  rintro (step | _)
  · cases step with
    | nil => exact .none
    | cons head => exact .some head
  · exact .none

/-- **A file reads the same in any order.** -/
theorem Reordered.read {tree y : Node} (same : Reordered tree y) (path : String) :
    tree.read path = y.read path := by
  unfold Node.read
  have found := same.find path
  revert found
  generalize tree.find path = left
  generalize y.find path = right
  rintro (step | _)
  · have followed := SamePlace.follow step
    rw [Option.map_some, Option.map_some]
    revert followed
    generalize Package.follow _ = here
    generalize Package.follow _ = there
    intro followed
    cases followed with
    | nil => rfl
    | @cons node y _ _ head _ =>
      have shape := head.shape
      cases node with
      | file =>
        cases shape
        rfl
      | directory =>
        obtain ⟨_, rfl, _⟩ := shape
        rfl
      | link =>
        obtain ⟨_, rfl, _⟩ := shape
        rfl
      | special =>
        cases shape
        rfl
  · rfl

end FoundationLang.Package
