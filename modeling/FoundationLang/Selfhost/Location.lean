/-
**Locations of locked packages.**

The self-hosted compiler looks for `..` in the normal form of an SDK location, and takes a backslash
for a separator there; the bootstrap compiler looks for it in the location itself, between slashes.
-/

import FoundationLang.Selfhost.Lock
import Mathlib.Data.List.TakeWhile

namespace FoundationLang.Selfhost

open Package List

variable {before stack : List String} {last value : String} {r : String}

/-! ### Normal forms -/

/-- An element that a normal form may hold. -/
structure Element (part : String) : Prop where
  filled : part ≠ ""
  dotless : part ≠ "."
  whole : '/' ∉ part.toList

/-- The text of some elements, the last one first. -/
def spelled : List String → List Char
  | [] => []
  | [only] => only.toList
  | last :: before => spelled before ++ '/' :: last.toList

theorem spelled_cons (filled : before ≠ []) :
    spelled (last :: before) = spelled before ++ '/' :: last.toList := by
  cases before with
  | nil => exact absurd rfl filled
  | cons => rw [spelled]; simp

/-- A normal form in the making and its elements; no elements are written as nothing or as a dot. -/
def Spells (result : String) (stack : List String) : Prop :=
  (stack = [] ∧ (result = "" ∨ result = ".")) ∨ (stack ≠ [] ∧ result.toList = spelled stack)

theorem slash_mem_spelled (filled : before ≠ []) : '/' ∈ spelled (last :: before) := by
  simp [spelled_cons filled]

theorem getLast?_spelled (element : Element last) :
    (spelled (last :: before)).getLast? = last.toList.getLast? := by
  have some : last.toList ≠ [] := by simpa using element.filled
  cases before with
  | nil => rfl
  | cons =>
    rw [spelled_cons (by simp), List.getLast?_append, List.getLast?_cons_of_ne_nil some]
    simp [List.getLast?_eq_some_getLast some]

theorem spelled_ne (element : Element last)
    (text : r.toList = spelled (last :: before)) : r ≠ "" ∧ r ≠ "." := by
  cases before with
  | nil =>
    have same : r = last := String.toList_inj.mp text
    rw [same]
    exact ⟨element.filled, element.dotless⟩
  | cons =>
    have slash : '/' ∈ r.toList := text ▸ slash_mem_spelled (by simp)
    refine ⟨?_, ?_⟩
    · rintro rfl
      simp at slash
    · rintro rfl
      simp at slash

theorem appendSegment_spells {r seg : String} (spells : Spells r stack)
    (elements : ∀ part ∈ stack, Element part) :
    Spells (appendSegment r seg) (seg :: stack) := by
  refine .inr ⟨by simp, ?_⟩
  rcases spells with ⟨rfl, empty⟩ | ⟨filled, text⟩
  · rw [appendSegment, if_pos empty]
    rfl
  · obtain ⟨last, _, rfl⟩ := exists_cons_of_ne_nil filled
    have element := elements last mem_cons_self
    obtain ⟨some, y⟩ := spelled_ne element text
    have ending : r.toList.getLast? ≠ Option.some '/' := by
      rw [text, getLast?_spelled element]
      exact fun slash => element.whole (mem_of_getLast? slash)
    rw [appendSegment, if_neg (not_or.mpr ⟨some, y⟩), if_pos ending, spelled_cons filled,
      String.toList_append, String.toList_append, text]
    simp

theorem last_slash {front tail : List Char} (whole : '/' ∉ tail) :
    (front ++ '/' :: tail).reverse.takeWhile (· ≠ '/') = tail.reverse
      ∧ (front ++ '/' :: tail).reverse.dropWhile (· ≠ '/') = '/' :: front.reverse := by
  have inner : ∀ b ∈ tail.reverse, decide (b ≠ '/') = true := by
    intro b mem
    rw [decide_eq_true_eq]
    rintro rfl
    exact whole (mem_reverse.mp mem)
  rw [reverse_append, reverse_cons, append_assoc, singleton_append,
    takeWhile_append_of_pos inner, dropWhile_append_of_pos inner]
  simp

theorem isParentSegment_spelled (element : Element last)
    (text : r.toList = spelled (last :: before)) :
    isParentSegment r = (last == "..") := by
  unfold isParentSegment
  cases before with
  | nil =>
    have same : r = last := String.toList_inj.mp text
    have never : ['/', '.', '.'].isSuffixOf last.toList = false := by
      rw [Bool.eq_false_iff, ne_eq, isSuffixOf_iff_suffix]
      exact fun suffix => element.whole (suffix.subset (by simp))
    rw [same, never, Bool.or_false]
  | cons next rest =>
    have slash : '/' ∈ r.toList := text ▸ slash_mem_spelled (by simp)
    have other : (r == "..") = false := by
      rw [beq_eq_false_iff_ne]
      rintro rfl
      simp at slash
    rw [other, Bool.false_or, text, spelled_cons (by simp), Bool.eq_iff_iff,
      isSuffixOf_iff_suffix, beq_iff_eq]
    constructor
    · rintro ⟨_, whole⟩
      have parts := congrArg (fun bytes : List Char => bytes.reverse.takeWhile (· ≠ '/')) whole
      have dots : '/' ∉ ['.', '.'] := by simp
      rw [(last_slash dots).1, (last_slash element.whole).1, reverse_inj] at parts
      exact String.toList_inj.mp parts.symm
    · rintro rfl
      exact ⟨spelled (next :: rest), rfl⟩

theorem removeLastSegment_spells
    (elements : ∀ part ∈ last :: before, Element part)
    (text : r.toList = spelled (last :: before)) :
    Spells (removeLastSegment r) before := by
  have element := elements last mem_cons_self
  obtain ⟨some, y⟩ := spelled_ne element text
  rw [removeLastSegment, if_neg (not_or.mpr ⟨some, y⟩), text]
  cases before with
  | nil =>
    have skip : (spelled [last]).reverse.dropWhile (· ≠ '/') = [] := by
      rw [dropWhile_eq_nil_iff]
      intro b mem
      rw [decide_eq_true_eq]
      rintro rfl
      exact element.whole (mem_reverse.mp mem)
    rw [skip]
    exact .inl ⟨rfl, .inr rfl⟩
  | cons next rest =>
    have more : spelled (next :: rest) ≠ [] := by
      intro empty
      have text : "".toList = spelled (next :: rest) := empty.symm
      exact (spelled_ne (elements next (by simp)) text).1 rfl
    obtain ⟨b, others, parts⟩ := exists_cons_of_ne_nil (reverse_ne_nil_iff.mpr more)
    rw [spelled_cons (by simp), (last_slash element.whole).2, parts]
    refine .inr ⟨by simp, ?_⟩
    show (String.ofList (b :: others).reverse).toList = _
    rw [← parts, reverse_reverse, String.toList_ofList]

theorem normalizeSegment_spells {r seg : String} (spells : Spells r stack)
    (elements : ∀ part ∈ stack, Element part) (filled : seg ≠ "") (whole : '/' ∉ seg.toList) :
    Spells (normalizeSegment r seg) (normalStep stack seg)
      ∧ ∀ part ∈ normalStep stack seg, Element part := by
  have pushed : seg ≠ "." → ∀ part ∈ seg :: stack, Element part := by
    intro dotless part mem
    rcases mem_cons.mp mem with rfl | later
    · exact ⟨filled, dotless, whole⟩
    · exact elements part later
  unfold normalizeSegment
  by_cases dot : seg = "."
  · rw [if_pos dot, normalStep.eq_def, if_pos (.inr dot)]
    exact ⟨spells, elements⟩
  have proper : ¬(seg = "" ∨ seg = ".") := not_or.mpr ⟨filled, dot⟩
  rw [if_neg dot, normalStep.eq_def, if_neg proper]
  by_cases up : seg = ".."
  · rw [if_pos up, if_pos up]
    subst up
    cases stack with
    | nil =>
      have empty : ¬(r ≠ "" ∧ r ≠ "." ∧ isParentSegment r = false) := by
        rcases spells with ⟨_, rfl | rfl⟩ | ⟨filled, _⟩
        · simp
        · simp
        · exact absurd rfl filled
      rw [if_neg empty]
      exact ⟨appendSegment_spells spells elements, pushed dot⟩
    | cons top rest =>
      have text : r.toList = spelled (top :: rest) := by
        rcases spells with ⟨empty, _⟩ | ⟨_, text⟩
        · cases empty
        · exact text
      obtain ⟨some, y⟩ := spelled_ne (elements top mem_cons_self) text
      rw [isParentSegment_spelled (elements top mem_cons_self) text]
      dsimp only
      by_cases parent : top = ".."
      · rw [if_neg (by simp [parent]), if_pos parent]
        exact ⟨appendSegment_spells spells elements, pushed dot⟩
      · rw [if_pos ⟨some, y, beq_eq_false_iff_ne.mpr parent⟩, if_neg parent]
        exact ⟨removeLastSegment_spells elements text,
          fun part mem => elements part (mem_cons_of_mem _ mem)⟩
  · rw [if_neg up, if_neg up]
    exact ⟨appendSegment_spells spells elements, pushed dot⟩

theorem mem_pathPieces {piece : String} (mem : piece ∈ pathPieces value) :
    '/' ∉ piece.toList := by
  obtain ⟨_, inside, rfl⟩ := mem_map.mp mem
  rw [String.toList_ofList]
  exact (Library.mem_splitOn inside).2

/-- **The normal form has the elements of `lexicallyNormal`.** -/
theorem normalizePath_toList (value : String) :
    (∀ part ∈ normalParts value, Element part)
      ∧ (normalizePath value = "." ↔ normalParts value = [])
      ∧ (normalParts value ≠ [] → (normalizePath value).toList = spelled (normalParts value).reverse) := by
  have fold : ∀ (pieces : List String) (r : String) (stack : List String),
      (∀ piece ∈ pieces, '/' ∉ piece.toList) → Spells r stack →
      (∀ part ∈ stack, Element part) →
      Spells ((pieces.filter (· ≠ "")).foldl normalizeSegment r) (pieces.foldl normalStep stack)
        ∧ ∀ part ∈ pieces.foldl normalStep stack, Element part := by
    intro pieces
    induction pieces with
    | nil => exact fun _ _ _ spells elements => ⟨spells, elements⟩
    | cons piece rest ih =>
      intro r stack whole spells elements
      have later := fun y mem => whole y (mem_cons_of_mem piece mem)
      rw [foldl_cons]
      by_cases empty : piece = ""
      · rw [filter_cons_of_neg (by simp [empty]), normalStep.eq_def, if_pos (.inl empty)]
        exact ih r stack later spells elements
      · obtain ⟨next, kept⟩ := normalizeSegment_spells spells elements empty
          (whole piece mem_cons_self)
        rw [filter_cons_of_pos (by simpa using empty), foldl_cons]
        exact ih _ _ later next kept
  obtain ⟨spells, elements⟩ := fold (pathPieces value) "" [] (fun piece => mem_pathPieces)
    (.inl ⟨rfl, .inl rfl⟩) (by simp)
  unfold normalizePath normalParts
  generalize (pathPieces value).foldl normalStep [] = stack at spells elements
  refine ⟨fun part mem => elements part (mem_reverse.mp mem), ?_⟩
  rw [reverse_eq_nil_iff, reverse_reverse]
  rcases spells with ⟨rfl, empty | dot⟩ | ⟨filled, text⟩
  · rw [if_pos empty]
    simp
  · rw [dot, if_neg (by decide)]
    simp
  · obtain ⟨last, _, rfl⟩ := exists_cons_of_ne_nil filled
    obtain ⟨some, y⟩ := spelled_ne (elements last mem_cons_self) text
    rw [if_neg some]
    exact ⟨iff_of_false y filled, fun _ => text⟩

/-! ### Ways up -/

/-- Some element is a `..`, or has one between backslashes. -/
def climbs (parts : List String) : Bool :=
  parts.any fun part => (part.toList.splitOn '\\').contains ['.', '.']

/-- Slashes first, backslashes second. -/
theorem splitOnP_separators (bytes : List Char) :
    bytes.splitOnP (fun b => b == '/' || b == '\\')
      = (bytes.splitOn '/').flatMap (·.splitOn '\\') := by
  induction bytes with
  | nil => rfl
  | cons b rest ih =>
    obtain ⟨x, _, parts⟩ := exists_cons_of_ne_nil (splitOn_ne_nil '/' rest)
    rw [splitOnP_cons_eq_if_modifyHead, ih, splitOn_cons_eq_if_modifyHead, parts]
    by_cases slash : b = '/'
    · subst slash
      rfl
    · by_cases back : b = '\\'
      · subst back
        rw [if_pos (by decide), if_neg (by decide), modifyHead_cons, flatMap_cons,
          flatMap_cons, splitOn_cons_eq_if_modifyHead, if_pos (by decide),
          cons_append]
      · obtain ⟨_, _, pieces⟩ := exists_cons_of_ne_nil (splitOn_ne_nil '\\' x)
        rw [if_neg (by simp [slash, back]), if_neg (by simpa using slash), modifyHead_cons,
          flatMap_cons, flatMap_cons, splitOn_cons_eq_if_modifyHead,
          if_neg (by simpa using back), pieces]
        rfl

theorem splitOn_spelled (filled : stack ≠ []) (elements : ∀ part ∈ stack, Element part) :
    (spelled stack).splitOn '/' = stack.reverse.map String.toList := by
  induction stack with
  | nil => exact absurd rfl filled
  | cons last before ih =>
    have element := elements last mem_cons_self
    cases before with
    | nil => exact splitOn_eq_singleton element.whole
    | cons =>
      rw [spelled_cons (by simp), splitOn_append_cons_self, ih (by simp)
        fun part mem => elements part (mem_cons_of_mem _ mem),
        splitOn_eq_singleton element.whole]
      simp

theorem relativePackageSource_eq (value : String) :
    relativePackageSource value
      = (!value.isEmpty && !hasRootPath value && !(normalParts value).isEmpty
        && !climbs (normalParts value)) := by
  obtain ⟨elements, dot, text⟩ := normalizePath_toList value
  unfold relativePackageSource
  by_cases empty : normalParts value = []
  · rw [dot.mpr empty, empty]
    simp
  · have named : (normalizePath value != ".") = true := by
      rw [bne_iff_ne]
      exact fun same => empty (dot.mp same)
    have ways : (((normalizePath value).toList.splitOnP fun b => b == '/' || b == '\\').all
        (· != ['.', '.'])) = !climbs (normalParts value) := by
      rw [text empty, splitOnP_separators, splitOn_spelled (by simpa using empty)
        fun part mem => elements part (mem_reverse.mp mem), reverse_reverse]
      unfold climbs
      rw [Bool.eq_iff_iff]
      simp only [all_eq_true, mem_flatMap, mem_map, bne_iff_ne, ne_eq,
        forall_exists_index, and_imp, forall_apply_eq_imp_iff₂, Bool.not_eq_true', any_eq_false,
        contains_eq_mem, decide_eq_true_eq]
      exact ⟨fun all part mem present => all _ part mem present rfl,
        fun all piece part mem inside same => all part mem (same ▸ inside)⟩
    have some : (normalParts value).isEmpty = false := by simpa using empty
    rw [named, ways, some]
    rfl

/-- **Where both compilers accept the same SDK locations.** With a `..` between slashes, the normal
form is nothing or still goes up; without one, no element goes up between backslashes. -/
def sourceAlike (value : String) : Bool :=
  if (pathPieces value).contains ".." then
    (normalParts value).isEmpty || climbs (normalParts value)
  else !climbs (pathPieces value)

example : sourceAlike "a/b" = true ∧ sourceAlike "../a" = true ∧ sourceAlike "a/../b" = false
    ∧ sourceAlike "a\\..\\b" = false := by decide +kernel

theorem lexicallyNormal_eq_dot (filled : value ≠ "") (level : ∀ part ∈ pathParts value, part ≠ "..") :
    lexicallyNormal value = "." ↔ normalParts value = [] := by
  unfold lexicallyNormal
  rw [if_neg filled]
  by_cases empty : normalParts value = []
  · rw [if_pos empty]
    exact iff_of_true rfl empty
  · rw [if_neg empty]
    refine iff_of_false (fun same => ?_) empty
    have kept : ∀ part ∈ normalParts value, Kept part := by
      rw [normalParts_eq level]
      exact fun part => kept_of_mem level
    have pieces := pathPieces_intercalate empty (fun part mem => (kept part mem).2.2.2)
      (endsInDirectory value && (normalParts value).getLast? != some "..")
    obtain ⟨x, _, parts⟩ := exists_cons_of_ne_nil empty
    rw [same, parts, show pathPieces "." = ["."] from rfl, cons_append] at pieces
    exact (kept x (parts ▸ mem_cons_self)).2.1 (List.cons.inj pieces).1.symm

theorem relativePackageSource_alike (alike : sourceAlike value = true) :
    relativePackageSource value = relativeSource value := by
  rw [relativePackageSource_eq]
  unfold sourceAlike at alike
  unfold relativeSource
  cases upward : (pathPieces value).contains ".." with
  | true =>
    rw [upward, if_pos rfl] at alike
    have refused : ((pathParts value).all (· != "..")) = false := by
      rw [all_eq_false]
      refine ⟨"..", mem_append_left _ (mem_filter.mpr ⟨?_, by decide⟩), by decide⟩
      simpa using upward
    rw [refused, Bool.and_false]
    rcases Bool.or_eq_true _ _ ▸ alike with nothing | up
    · rw [nothing]
      simp
    · rw [up]
      simp
  | false =>
    rw [upward, if_neg (by decide), Bool.not_eq_true'] at alike
    have none : ∀ part ∈ pathParts value, part ≠ ".." := by
      rintro part mem rfl
      rcases mem_append.mp mem with inside | last
      · have present := (mem_filter.mp inside).1
        simp [present] at upward
      · split at last <;> simp at last
    have level : climbs (normalParts value) = false := by
      rw [normalParts_eq none]
      unfold climbs at alike ⊢
      rw [any_eq_false] at alike ⊢
      exact fun part mem => alike part (mem_filter.mp mem).1
    by_cases filled : value = ""
    · subst filled
      rfl
    have named : (lexicallyNormal value != ".") = !(normalParts value).isEmpty := by
      rw [Bool.eq_iff_iff, bne_iff_ne, ne_eq, lexicallyNormal_eq_dot filled none]
      simp
    have ran : ((pathParts value).all (· != "..")) = true := by
      rw [all_eq_true]
      exact fun part mem => bne_iff_ne.mpr (none part mem)
    rw [named, level, ran]
    rfl

/-- A location that is looked at for ways up: it is not empty or rooted and has no control byte. -/
def examined (value : String) : Bool :=
  !value.isEmpty && !(value.toList.any fun byte => byte.toNat < 32) && !hasRootPath value

/-- **An SDK location that both compilers accept or refuse.** -/
def locationAlike (value : String) : Bool :=
  !examined value || sourceAlike value

/-- **Both compilers accept the same locations.** -/
theorem validPackageLocation_eq {kind : PackageLocationKind}
    (alike : kind = .sdk → locationAlike value = true) :
    validPackageLocation kind value = validLocation kind value := by
  unfold validPackageLocation validLocation
  cases kind with
  | registry | path => rfl
  | sdk =>
    by_cases faulty : (value.isEmpty || value.toList.any fun b => b.toNat < 32) = true
    · rw [if_pos faulty, if_pos faulty]
    · rw [if_neg faulty, if_neg faulty]
      dsimp only
      cases rooted : hasRootPath value with
      | true =>
        rw [relativePackageSource_eq, relativeSource, rooted]
        simp
      | false =>
        refine relativePackageSource_alike ?_
        rw [Bool.or_eq_true, not_or, Bool.not_eq_true, Bool.not_eq_true] at faulty
        simpa [locationAlike, examined, faulty, rooted] using alike rfl

end FoundationLang.Selfhost
