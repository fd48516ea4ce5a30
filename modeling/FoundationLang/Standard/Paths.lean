/-
**Paths**, as `std.path` normalises them. Its reads and slices never panic (`PathReads`).
-/

import FoundationLang.Standard.Strings
import Mathlib.Data.List.TakeWhile

namespace FoundationLang.Standard.Paths

open Library List

/-! ### The code -/

/-- The functions with a body for each `@target`. -/
structure Target where
  isSeparator : UInt8 → Bool
  separatorFor : Str → Str
  volumeLength : Str → ℕ
  rootLength : Str → ℕ

/-- Linux, macOS and freestanding. -/
def posix : Target where
  isSeparator byte := byte == 47
  separatorFor _ := ascii "/"
  volumeLength _ := 0
  rootLength value := if value.head?.any (· == 47) then 1 else 0

theorem dropWhile_shorter {holds : UInt8 → Bool} {rest : Str} (more : rest.dropWhile holds ≠ []) :
    ((rest.dropWhile holds).dropWhile (!holds ·)).length < rest.length := by
  have plain := head_dropWhile_not holds more
  have shorter := (dropWhile_suffix (l := rest) holds).length_le
  obtain ⟨_, others, parts⟩ := exists_cons_of_ne_nil more
  simp only [parts, head_cons] at plain
  have inner := (dropWhile_suffix (l := others) (!holds ·)).length_le
  rw [parts] at shorter ⊢
  rw [dropWhile_cons_of_pos (by simp [plain])]
  exact Nat.lt_of_le_of_lt inner shorter

section Code

variable (target : Target)

/-- `normalizedPrefix`: every separator is written anew. -/
def normalizedPrefix (value : Str) (length : ℕ) (separator : Str) : Str :=
  (value.take length).flatMap fun byte => if target.isSeparator byte then separator else [byte]

/-- A segment behind the result so far. -/
def appendSegment (current segment separator : Str) (rooted : Bool) : Str :=
  if current = [] then segment
  else if current = ascii "." then segment
  else if rooted && current.endsWith separator then current ++ segment
  else if current.getLast?.any (!target.isSeparator ·) then current ++ separator ++ segment
  else current ++ segment

/-- The loop of `removeLastSegment`; nothing when it does not return. -/
def removeLoop (current : Str) (root volume : ℕ) : ℕ → Option Str
  | 0 => none
  | stop + 1 =>
    if root < stop + 1 ∧ volume < stop + 1 then
      if current[stop]?.any target.isSeparator then
        if stop < root then some (current.take root)
        else if stop = 0 then some (ascii ".")
        else some (current.take stop)
      else removeLoop current root volume stop
    else none

/-- The result without its last segment. -/
def removeLastSegment (current : Str) (root volume : ℕ) : Str :=
  if current.length ≤ root ∨ current.length ≤ volume ∨ current = ascii "." then current
  else
    match removeLoop target current root volume current.length with
    | some value => value
    | none =>
      if 0 < root then normalizedPrefix target current root (target.separatorFor current)
      else if 0 < volume then
        normalizedPrefix target current volume (target.separatorFor current) ++ ascii "."
      else ascii "."

/-- The last segment is `..`. -/
def isParentSegment (value separator : Str) : Bool :=
  value == ascii ".." || value.endsWith (separator ++ ascii "..")

/-- What `Normalize` does with one segment. -/
def normalizeSegment (root volume : ℕ) (separator result segment : Str) : Str :=
  if segment = ascii "." then result
  else if segment = ascii ".." then
    if root < result.length ∧ volume < result.length ∧ result ≠ ascii "."
        ∧ isParentSegment result separator = false then
      removeLastSegment target result root volume
    else if root = 0 then appendSegment target result segment separator false
    else result
  else if root = 0 ∧ 0 < volume ∧ result.length = volume then result ++ segment
  else appendSegment target result segment separator (0 < root)

/-- The loop of `Normalize`, over what is left of the path. -/
def normalizeLoop (root volume : ℕ) (separator result rest : Str) : Str :=
  let value := rest.dropWhile target.isSeparator
  if value = [] then result
  else
    normalizeLoop root volume separator
      (normalizeSegment target root volume separator result
        (value.takeWhile (!target.isSeparator ·)))
      (value.dropWhile (!target.isSeparator ·))
termination_by rest.length
decreasing_by exact dropWhile_shorter ‹_›

/-- `Normalize`. -/
def normalize (value : Str) : Str :=
  if value = [] then ascii "."
  else
    let separator := target.separatorFor value
    let root := target.rootLength value
    let volume := target.volumeLength value
    let front := if root > volume then root else volume
    let result := normalizeLoop target root volume separator
      (normalizedPrefix target value front separator) (value.drop front)
    if result = [] then
      if 0 < root then normalizedPrefix target value root separator
      else if 0 < volume then normalizedPrefix target value volume separator ++ ascii "."
      else ascii "."
    else result

end Code

/-! ### A stack of segments -/

section Stack

/-- One segment on the stack, whose last segment is in front. A `..` takes an ordinary one away. -/
def push (rooted : Bool) (stack : List Str) (part : Str) : List Str :=
  if part = [] ∨ part = ascii "." then stack
  else if part = ascii ".." then
    if stack.head?.all (· == ascii "..") then if rooted then stack else part :: stack
    else stack.tail
  else part :: stack

/-- The segments of a stack between slashes. -/
def spelled (rooted : Bool) : List Str → Str
  | [] => if rooted then [47] else []
  | [only] => if rooted then 47 :: only else only
  | last :: before => spelled rooted before ++ 47 :: last

/-- What it is for: a stack of the segments between slashes. -/
def lexical (path : Str) : Str :=
  let rooted := path.head? == some 47
  let stack := (path.splitOn 47).foldl (push rooted) []
  if rooted = false ∧ stack = [] then ascii "." else spelled rooted stack

example : lexical (ascii "../a//./b/../..") = ascii ".."
    ∧ lexical (ascii "/../a/") = ascii "/a" := by decide

/-- A segment that a normal form may hold. -/
structure Segment (part : Str) : Prop where
  filled : part ≠ []
  dotless : part ≠ ascii "."
  whole : 47 ∉ part

/-- A stack that is its own normal form. -/
structure Normal (rooted : Bool) (stack : List Str) : Prop where
  segments : ∀ part ∈ stack, Segment part
  rebuilt : stack.reverse.foldl (push rooted) [] = stack

variable {rooted : Bool} {last part : Str} {before stack : List Str}

theorem push_segment (seg : Segment part) (ordinary : part ≠ ascii "..") :
    push rooted stack part = part :: stack := by
  rw [push, if_neg (not_or.mpr ⟨seg.filled, seg.dotless⟩), if_neg ordinary]

theorem Normal.grow (normal : Normal rooted stack) (seg : Segment part)
    (grows : push rooted stack part = part :: stack) : Normal rooted (part :: stack) where
  segments := by
    intro y mem
    rcases mem_cons.mp mem with rfl | later
    · exact seg
    · exact normal.segments y later
  rebuilt := by rw [reverse_cons, foldl_append, normal.rebuilt, foldl_cons, foldl_nil, grows]

theorem Normal.shrink (normal : Normal rooted (last :: before)) (ordinary : last ≠ ascii "..") :
    Normal rooted before := by
  refine ⟨fun part mem => normal.segments part (mem_cons_of_mem _ mem), ?_⟩
  have rebuilt := normal.rebuilt
  rw [reverse_cons, foldl_append, foldl_cons, foldl_nil,
    push_segment (normal.segments last mem_cons_self) ordinary] at rebuilt
  exact (cons.inj rebuilt).2

theorem Normal.push (normal : Normal rooted stack) (whole : 47 ∉ part) :
    Normal rooted (push rooted stack part) := by
  by_cases skipped : part = [] ∨ part = ascii "."
  · rw [Paths.push, if_pos skipped]
    exact normal
  have segment : Segment part := ⟨(not_or.mp skipped).1, (not_or.mp skipped).2, whole⟩
  by_cases up : part = ascii ".."
  · have step := Paths.push.eq_def rooted stack part
    rw [if_neg skipped, if_pos up] at step
    split_ifs at step with top absolute
    · rwa [step]
    · rw [step]
      exact normal.grow segment step
    · rw [step]
      obtain _ | ⟨_, _⟩ := stack
      · exact absurd rfl top
      · exact normal.shrink (by simpa using top)
  · rw [push_segment segment up]
    exact normal.grow segment (push_segment segment up)

theorem Normal.fold (parts : List Str) (whole : ∀ part ∈ parts, 47 ∉ part)
    (normal : Normal rooted stack) : Normal rooted (parts.foldl (Paths.push rooted) stack) := by
  induction parts generalizing stack with
  | nil => exact normal
  | cons part rest ih =>
    exact ih (fun y mem => whole y (mem_cons_of_mem _ mem))
      (normal.push (whole part mem_cons_self))

theorem spelled_cons (filled : before ≠ []) :
    spelled rooted (last :: before) = spelled rooted before ++ 47 :: last := by
  cases before with
  | nil => exact absurd rfl filled
  | cons => rfl

theorem ends (rooted : Bool) (last : Str) (before : List Str) :
    spelled rooted (last :: before) = last
      ∨ ∃ front, spelled rooted (last :: before) = front ++ 47 :: last := by
  cases before with
  | nil =>
    cases rooted with
    | false => exact .inl rfl
    | true => exact .inr ⟨[], rfl⟩
  | cons => exact .inr ⟨_, rfl⟩

/-- A text with segments is not empty, not a dot, and does not end with a slash. -/
theorem spelled_ne (rooted : Bool) (seg : Segment last) (before : List Str) :
    spelled rooted (last :: before) ≠ [] ∧ spelled rooted (last :: before) ≠ ascii "."
      ∧ (spelled rooted (last :: before)).getLast? ≠ some 47 := by
  rcases ends rooted last before with same | ⟨_, same⟩
  · rw [same]
    exact ⟨seg.filled, seg.dotless, fun slash => seg.whole (mem_of_getLast? slash)⟩
  · rw [same]
    refine ⟨by simp, fun dot => ?_, fun slash => ?_⟩
    · have slash : 47 ∈ ascii "." := dot ▸ by simp
      exact absurd slash (by decide)
    · rw [getLast?_append, getLast?_cons_of_ne_nil seg.filled,
        getLast?_eq_some_getLast seg.filled] at slash
      exact seg.whole (Option.some.inj slash ▸ getLast_mem _)

/-- The first byte says whether the text is rooted. -/
theorem head?_spelled (segments : ∀ part ∈ stack, Segment part) (some : stack ≠ [] ∨ rooted = true) :
    ((spelled rooted stack).head? == Option.some 47) = rooted := by
  fun_induction spelled rooted stack with
  | case1 absolute => exact absolute.symm
  | case2 relative => exact absurd (some.resolve_left (· rfl)) relative
  | case3 _ absolute => exact absolute.symm
  | case4 only relative =>
    rw [Bool.eq_false_iff.mpr relative]
    exact beq_eq_false_iff_ne.mpr fun slash =>
      (segments only mem_cons_self).whole (mem_of_head? slash)
  | case5 last before more ih =>
    obtain ⟨next, _, rfl⟩ := exists_cons_of_ne_nil more
    have later := fun part mem => segments part (mem_cons_of_mem last mem)
    rw [head?_append_of_ne_nil _ (spelled_ne _ (later next mem_cons_self) _).1]
    exact ih later (.inl more)

theorem fold_spelled (segments : ∀ part ∈ stack, Segment part) :
    ((spelled rooted stack).splitOn 47).foldl (push rooted) []
      = stack.reverse.foldl (push rooted) [] := by
  fun_induction spelled rooted stack with
  | case1 => rfl
  | case2 => rfl
  | case3 only =>
    rw [splitOn_cons_eq_if_modifyHead, if_pos (by rfl),
      splitOn_eq_singleton (segments only mem_cons_self).whole]
    rfl
  | case4 only => rw [splitOn_eq_singleton (segments only mem_cons_self).whole, reverse_singleton]
  | case5 last before more ih =>
    rw [splitOn_append_cons_self, foldl_append,
      ih fun part mem => segments part (mem_cons_of_mem last mem),
      splitOn_eq_singleton (segments last mem_cons_self).whole, reverse_cons, foldl_append]

theorem lexical_spelled (normal : Normal rooted stack) (some : stack ≠ [] ∨ rooted = true) :
    lexical (spelled rooted stack) = spelled rooted stack := by
  have shown : ¬(rooted = false ∧ stack = []) := by
    rintro ⟨rfl, rfl⟩
    simp at some
  rw [lexical, head?_spelled normal.segments some, fold_spelled normal.segments, normal.rebuilt]
  exact if_neg shown

end Stack

/-! ### The text against the stack -/

section Text

variable {rooted : Bool} {last part tail front result : Str} {before stack : List Str} {root : ℕ}

/-- The text written so far and its stack; no segments may also be written as a dot. -/
def Spells (rooted : Bool) (result : Str) (stack : List Str) : Prop :=
  result = spelled rooted stack ∨ (rooted = false ∧ stack = [] ∧ result = ascii ".")

theorem appendSegment_spells (spells : Spells rooted result stack) (normal : Normal rooted stack) :
    Spells rooted (appendSegment posix result part (ascii "/") rooted) (part :: stack) := by
  refine .inl ?_
  rcases spells with rfl | ⟨rfl, rfl, rfl⟩
  · cases stack with
    | nil => cases rooted <;> rfl
    | cons last before =>
      obtain ⟨some, y, ending⟩ :=
        spelled_ne rooted (normal.segments last mem_cons_self) before
      rw [spelled_cons (by simp : last :: before ≠ [])]
      generalize spelled rooted (last :: before) = text at some y ending
      have behind : text.endsWith (ascii "/") = false := by
        rw [Str.endsWith, Bool.eq_false_iff, ne_eq, isSuffixOf_iff_suffix]
        rintro ⟨_, rfl⟩
        simp [ascii] at ending
      have plain : text.getLast?.any (!posix.isSeparator ·) = true := by
        rw [getLast?_eq_some_getLast some] at ending ⊢
        simpa [posix] using ending
      rw [appendSegment, if_neg some, if_neg y, behind, Bool.and_false, if_neg (by decide),
        if_pos plain, append_assoc]
      rfl
  · rfl

theorem isParentSegment_spelled (seg : Segment last) :
    isParentSegment (spelled rooted (last :: before)) (ascii "/") = (last == ascii "..") := by
  have dots : (47 : UInt8) ∉ ascii ".." := by decide
  rw [isParentSegment, Str.endsWith, Bool.eq_iff_iff, Bool.or_eq_true, isSuffixOf_iff_suffix,
    beq_iff_eq, beq_iff_eq]
  rcases ends rooted last before with same | ⟨front, same⟩
  · rw [same]
    exact or_iff_left fun suffix => seg.whole (suffix.subset (by decide))
  · rw [same]
    constructor
    · rintro (text | ⟨start, text⟩)
      · exact absurd (text ▸ by simp : 47 ∈ ascii "..") dots
      · have parts : start ++ 47 :: ascii ".." = front ++ 47 :: last := text
        have pieces := congrArg (fun text : Str => (text.splitOn 47).getLast?) parts
        simpa [splitOn_append_cons_self, splitOn_eq_singleton dots,
          splitOn_eq_singleton seg.whole, eq_comm] using pieces
    · rintro rfl
      exact .inr ⟨front, rfl⟩

theorem removeLoop_segment (whole : 47 ∉ tail) (below : root ≤ front.length) {n : ℕ}
    (inside : n ≤ tail.length) :
    removeLoop posix (front ++ tail) root 0 (front.length + n)
      = removeLoop posix (front ++ tail) root 0 front.length := by
  induction n with
  | zero => rfl
  | succ n ih =>
    have plain : (front ++ tail)[front.length + n]?.any posix.isSeparator = false := by
      rw [getElem?_append_right (by omega), Nat.add_sub_cancel_left,
        getElem?_eq_getElem (by omega)]
      exact beq_eq_false_iff_ne.mpr fun slash => whole (slash ▸ getElem_mem _)
    rw [← Nat.add_assoc, removeLoop, if_pos ⟨by omega, by omega⟩, if_neg (by simp [plain]),
      ih (by omega)]

theorem length_spelled (rooted : Bool) (seg : Segment last) (before : List Str) :
    rooted.toNat < (spelled rooted (last :: before)).length := by
  have filled := length_pos_iff.mpr seg.filled
  cases before with
  | nil => cases rooted <;> simpa [spelled] using filled
  | cons =>
    have small := rooted.toNat_le
    rw [spelled_cons (by simp), length_append, length_cons]
    omega

theorem removeLastSegment_spells (normal : Normal rooted (last :: before)) :
    Spells rooted (removeLastSegment posix (spelled rooted (last :: before)) rooted.toNat 0)
      before := by
  have segment := normal.segments last mem_cons_self
  have long := length_spelled rooted segment before
  have other := (spelled_ne rooted segment before).2.1
  rw [removeLastSegment, if_neg (not_or.mpr ⟨by omega, not_or.mpr ⟨by omega, other⟩⟩)]
  cases before with
  | nil =>
    have alone : spelled rooted [last] = spelled rooted [] ++ last := by cases rooted <;> rfl
    have start : (spelled rooted []).length = rooted.toNat := by cases rooted <;> rfl
    rw [alone, length_append, removeLoop_segment segment.whole (by omega) (by omega)]
    cases rooted with
    | false => exact .inr ⟨rfl, rfl, rfl⟩
    | true => exact .inl rfl
  | cons next rest =>
    have inner := length_spelled rooted (normal.segments next (by simp)) rest
    rw [spelled_cons (by simp : next :: rest ≠ [])]
    generalize text : spelled rooted (next :: rest) = front at inner
    have split : front ++ 47 :: last = (front ++ [47]) ++ last := by simp
    have slash : (front ++ [47] ++ last)[front.length]?.any posix.isSeparator = true := by
      simp [posix]
    have stop : (front ++ [47]).length = front.length + 1 := by simp
    rw [split, length_append, removeLoop_segment segment.whole (by omega) (by omega), stop,
      removeLoop, if_pos ⟨by omega, by omega⟩, if_pos slash, if_neg (by omega), if_neg (by omega)]
    exact .inl (by simp [text])

theorem normalizeSegment_spells (spells : Spells rooted result stack) (normal : Normal rooted stack)
    (filled : part ≠ []) :
    Spells rooted (normalizeSegment posix rooted.toNat 0 (ascii "/") result part)
      (push rooted stack part) := by
  rw [normalizeSegment]
  by_cases dot : part = ascii "."
  · rw [if_pos dot, push, if_pos (.inr dot)]
    exact spells
  rw [if_neg dot, push, if_neg (not_or.mpr ⟨filled, dot⟩)]
  by_cases up : part = ascii ".."
  · rw [if_pos up, if_pos up]
    have kept : Spells rooted
        (if rooted.toNat = 0 then appendSegment posix result part (ascii "/") false else result)
        (if rooted then stack else part :: stack) := by
      cases rooted with
      | true => exact spells
      | false => exact appendSegment_spells spells normal
    cases stack with
    | nil =>
      have stays : ¬(rooted.toNat < result.length ∧ 0 < result.length ∧ result ≠ ascii "."
          ∧ isParentSegment result (ascii "/") = false) := by
        rcases spells with rfl | ⟨_, _, rfl⟩
        · cases rooted <;> simp [spelled]
        · simp
      rw [if_neg stays]
      exact kept
    | cons last before =>
      have segment := normal.segments last mem_cons_self
      have long := length_spelled rooted segment before
      have text : result = spelled rooted (last :: before) :=
        spells.resolve_right fun empty => (by cases empty.2.1)
      rw [text, isParentSegment_spelled segment, head?_cons, Option.all_some]
      cases top : last == ascii ".." with
      | true =>
        rw [if_neg (by simp), ← text]
        exact kept
      | false =>
        rw [if_pos ⟨long, by omega, (spelled_ne _ segment _).2.1, rfl⟩, if_neg (by decide)]
        exact removeLastSegment_spells normal
  · rw [if_neg up, if_neg up, if_neg (by simp)]
    have kind : decide (0 < rooted.toNat) = rooted := by cases rooted <;> rfl
    rw [kind]
    exact appendSegment_spells spells normal

theorem fold_skip (rest : Str) :
    (rest.splitOn 47).foldl (push rooted) stack
      = ((rest.dropWhile posix.isSeparator).splitOn 47).foldl (push rooted) stack := by
  induction rest with
  | nil => rfl
  | cons b rest ih =>
    by_cases slash : b = 47
    · subst slash
      rw [dropWhile_cons_of_pos (by rfl), ← ih, splitOn_cons_eq_if_modifyHead, if_pos (by rfl)]
      rfl
    · rw [dropWhile_cons_of_neg (by simpa [posix] using slash)]

theorem segment_whole (v : Str) : 47 ∉ v.takeWhile (!posix.isSeparator ·) :=
  fun slash => by simpa [posix] using mem_takeWhile_imp slash

theorem segment_filled {rest : Str} (more : rest.dropWhile posix.isSeparator ≠ []) :
    (rest.dropWhile posix.isSeparator).takeWhile (!posix.isSeparator ·) ≠ [] := by
  have plain := head_dropWhile_not posix.isSeparator more
  obtain ⟨_, _, parts⟩ := exists_cons_of_ne_nil more
  simp only [parts, head_cons] at plain
  rw [parts, takeWhile_cons_of_pos (by simp [plain])]
  simp

theorem fold_segment (v : Str) :
    (v.splitOn 47).foldl (push rooted) stack
      = ((v.dropWhile (!posix.isSeparator ·)).splitOn 47).foldl (push rooted)
          (push rooted stack (v.takeWhile (!posix.isSeparator ·))) := by
  have whole := segment_whole v
  have parts := takeWhile_append_dropWhile (p := (!posix.isSeparator ·)) (l := v)
  cases more : v.dropWhile (!posix.isSeparator ·) with
  | nil =>
    rw [more, append_nil] at parts
    rw [parts] at whole ⊢
    rw [splitOn_eq_singleton whole]
    rfl
  | cons b rest =>
    have slash := head_dropWhile_not (!posix.isSeparator ·) (more ▸ cons_ne_nil b rest)
    simp only [more, head_cons] at slash
    obtain rfl : b = 47 := by simpa [posix] using slash
    generalize v.takeWhile (!posix.isSeparator ·) = part at whole parts ⊢
    rw [← parts, more, splitOn_append_cons_self, splitOn_eq_singleton whole,
      splitOn_cons_eq_if_modifyHead, if_pos (by rfl)]
    rfl

theorem normalizeLoop_spells (rest : Str) (spells : Spells rooted result stack)
    (normal : Normal rooted stack) :
    Spells rooted (normalizeLoop posix rooted.toNat 0 (ascii "/") result rest)
      ((rest.splitOn 47).foldl (push rooted) stack) := by
  rw [fold_skip]
  fun_induction normalizeLoop posix rooted.toNat 0 (ascii "/") result rest generalizing stack with
  | case1 result rest v =>
    rename_i none
    rw [show rest.dropWhile _ = [] from none]
    exact spells
  | case2 result rest v more =>
    rename_i ih
    rw [fold_segment, fold_skip]
    exact ih (normalizeSegment_spells spells normal (segment_filled more))
      (normal.push (segment_whole v))

theorem Spells.shown (spells : Spells rooted result stack) (normal : Normal rooted stack)
    {y : Str} (empty : rooted = false → y = ascii ".") :
    (if result = [] then y else result)
      = if rooted = false ∧ stack = [] then ascii "." else spelled rooted stack := by
  rcases spells with rfl | ⟨relative, none, rfl⟩
  · cases stack with
    | nil =>
      cases rooted with
      | true => rfl
      | false => exact empty rfl
    | cons last =>
      rw [if_neg (spelled_ne _ (normal.segments last mem_cons_self) _).1, if_neg (by simp)]
  · rw [if_neg (by decide), if_pos ⟨relative, none⟩]

end Text

/-- **On POSIX, `Normalize` is lexical normalisation**, and once is enough. -/
theorem normalize_posix (path : Str) :
    normalize posix path = lexical path
      ∧ normalize posix (normalize posix path) = normalize posix path := by
  have same : ∀ value, normalize posix value = lexical value := by
    intro value
    cases value with
    | nil => decide
    | cons first more =>
      have fresh (rooted : Bool) : Normal rooted [] := ⟨by simp, rfl⟩
      cases slash : first == 47 with
      | true =>
        obtain rfl := beq_iff_eq.mp slash
        have parts : (47 :: more).splitOn 47 = [] :: more.splitOn 47 := by
          rw [splitOn_cons_eq_if_modifyHead]
          rfl
        rw [normalize, if_neg (cons_ne_nil _ _), lexical, parts]
        exact (normalizeLoop_spells more (.inl rfl) (fresh true)).shown
          ((fresh true).fold _ fun part mem => (mem_splitOn mem).2) (by simp)
      | false =>
        have start : posix.rootLength (first :: more) = 0 := by simp [posix, slash]
        have head : ((first :: more).head? == some 47) = false := slash
        rw [normalize, if_neg (cons_ne_nil _ _), lexical, start, head]
        exact (normalizeLoop_spells (first :: more) (.inl rfl) (fresh false)).shown
          ((fresh false).fold _ fun part mem => (mem_splitOn mem).2) fun _ => rfl
  have twice : lexical (lexical path) = lexical path := by
    have fresh : Normal (path.head? == some 47) [] := ⟨by simp, rfl⟩
    have normal := fresh.fold (path.splitOn 47) fun part mem => (mem_splitOn mem).2
    rw [lexical.eq_def path]
    dsimp only
    split_ifs with empty
    · rfl
    · exact lexical_spelled normal (by grind)
  rw [same, same]
  exact ⟨rfl, twice⟩

end FoundationLang.Standard.Paths
