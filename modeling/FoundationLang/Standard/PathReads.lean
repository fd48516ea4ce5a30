/-
**Normalising a path never panics.**

`byteAt` and `slice` of `std.path` panic outside of a string and inside of a code point. Here are the
functions of `Standard/Paths` again, as they read and cut their strings, and without a result where
they panic.
-/

import FoundationLang.Standard.Paths

namespace FoundationLang.Standard.Paths

open Library List

/-! ### The code -/

/-- `byteAt`. -/
def byteAt (value : Str) (index : ℕ) : Option UInt8 :=
  value[index]?

/-- `slice`. -/
def slice (value : Str) (start stop : ℕ) : Option Str :=
  (value.slice start stop).toOption

/-- The inner loops of `Normalize`: the first byte from an offset on that is of another kind. -/
def skip (holds : UInt8 → Bool) (value : Str) (offset : ℕ) : Option ℕ :=
  if offset < value.length then do
    if holds (← byteAt value offset) then skip holds value (offset + 1) else return offset
  else some offset
termination_by value.length - offset

section Code

variable (target : Target)

/-- The loop of `normalizedPrefix`, from an offset on. -/
def prefixReads (value separator : Str) (length start offset : ℕ) (written : Str) : Option Str :=
  if offset < length then do
    if target.isSeparator (← byteAt value offset) then
      let part ← if start < offset then slice value start offset else some []
      prefixReads value separator length (offset + 1) (offset + 1) (written ++ part ++ separator)
    else prefixReads value separator length start (offset + 1) written
  else if start < length then (slice value start length).map (written ++ ·)
  else some written
termination_by length - offset

/-- `appendSegment`. -/
def appendReads (current segment separator : Str) (rooted : Bool) : Option Str :=
  if current = [] then some segment
  else if current = ascii "." then some segment
  else if rooted && current.endsWith separator then some (current ++ segment)
  else do
    let last ← byteAt current (current.length - 1)
    if !target.isSeparator last then return current ++ separator ++ segment
    else return current ++ segment

/-- The loop of `removeLastSegment`. -/
def removeReads (current : Str) (root volume : ℕ) : ℕ → Option (Option Str)
  | 0 => some none
  | stop + 1 =>
    if root < stop + 1 ∧ volume < stop + 1 then do
      if target.isSeparator (← byteAt current stop) then
        if stop < root then (slice current 0 root).map some
        else if stop = 0 then some (some (ascii "."))
        else (slice current 0 stop).map some
      else removeReads current root volume stop
    else some none

/-- `removeLastSegment`. -/
def removeLastReads (current : Str) (root volume : ℕ) : Option Str :=
  if current.length ≤ root ∨ current.length ≤ volume ∨ current = ascii "." then some current
  else do
    match ← removeReads target current root volume current.length with
    | some value => return value
    | none =>
      if 0 < root then prefixReads target current (target.separatorFor current) root 0 0 []
      else if 0 < volume then
        let front ← prefixReads target current (target.separatorFor current) volume 0 0 []
        return front ++ ascii "."
      else return ascii "."

/-- What `Normalize` does with one segment. -/
def segmentReads (root volume : ℕ) (separator result segment : Str) : Option Str :=
  if segment = ascii "." then some result
  else if segment = ascii ".." then
    if root < result.length ∧ volume < result.length ∧ result ≠ ascii "."
        ∧ isParentSegment result separator = false then
      removeLastReads target result root volume
    else if root = 0 then appendReads target result segment separator false
    else some result
  else if root = 0 ∧ 0 < volume ∧ result.length = volume then some (result ++ segment)
  else appendReads target result segment separator (0 < root)

/-- The loop of `Normalize`, for a number of rounds. -/
def loopReads (value : Str) (root volume : ℕ) (separator : Str) : ℕ → Str → ℕ → Option Str
  | 0, _, _ => none
  | rounds + 1, result, offset => do
    let start ← skip target.isSeparator value offset
    if start = value.length then return result
    let stop ← skip (!target.isSeparator ·) value start
    let segment ← slice value start stop
    let result ← segmentReads target root volume separator result segment
    loopReads value root volume separator rounds result stop

/-- `Normalize`. -/
def normalizeReads (value : Str) : Option Str :=
  if value = [] then some (ascii ".")
  else do
    let separator := target.separatorFor value
    let root := target.rootLength value
    let volume := target.volumeLength value
    let front := if root > volume then root else volume
    let result ← prefixReads target value separator front 0 0 []
    let result ← loopReads target value root volume separator (value.length + 1) result front
    if result = [] then
      if 0 < root then prefixReads target value separator root 0 0 []
      else if 0 < volume then
        return (← prefixReads target value separator volume 0 0 []) ++ ascii "."
      else return ascii "."
    else return result

end Code

/-! ### No panic -/

section Panics

variable {front part back value result : Str} {rooted : Bool}

/-- A part between two boundaries is cut. -/
theorem slice_parts (here : Boundary (part ++ back)) (behind : Boundary back) :
    slice (front ++ (part ++ back)) front.length (front ++ part).length = some part := by
  have cut : (front ++ (part ++ back)).drop (front ++ part).length = back := by
    rw [← append_assoc, drop_left]
  have sliced : ((front ++ (part ++ back)).take (front ++ part).length).drop front.length = part := by
    rw [← append_assoc, take_left, drop_left]
  rw [slice, Str.slice, if_pos (by simp), (boundary_iff _ _).mpr (by rwa [drop_left]),
    (boundary_iff _ _).mpr (by rwa [cut]), sliced]
  rfl

/-- The inner loops stop behind the bytes of their kind. -/
theorem skip_parts (holds : UInt8 → Bool) (front rest : Str) :
    skip holds (front ++ rest) front.length = some (front ++ rest.takeWhile holds).length := by
  induction rest generalizing front with
  | nil => rw [skip, if_neg (by simp), takeWhile_nil, append_nil]
  | cons b rest ih =>
    have read : byteAt (front ++ b :: rest) front.length = some b := by simp [byteAt]
    rw [skip, if_pos (by simp), read, Option.bind_eq_bind, Option.bind_some, takeWhile_cons]
    cases holds b with
    | true =>
      have next := ih (front ++ [b])
      rw [append_assoc, append_assoc, length_append] at next
      exact next
    | false => simp

/-- A result that is UTF-8 and keeps its root. -/
structure Sound (rooted : Bool) (result : Str) : Prop where
  text : Utf8 result
  root : rooted = true → result.head? = some 47

/-- The root of a path is read and written. -/
theorem prefixReads_posix (root : rooted = true → value.head? = some 47) :
    prefixReads posix value (ascii "/") rooted.toNat 0 0 []
        = some (normalizedPrefix posix value rooted.toNat (ascii "/"))
      ∧ Sound rooted (normalizedPrefix posix value rooted.toNat (ascii "/")) := by
  cases rooted with
  | false =>
    rw [prefixReads, normalizedPrefix]
    exact ⟨rfl, .nil, fun absolute => absurd absolute Bool.false_ne_true⟩
  | true =>
    obtain ⟨rest, rfl⟩ : ∃ rest, value = 47 :: rest := head?_eq_some_iff.mp (root rfl)
    have read : prefixReads posix (47 :: rest) (ascii "/") 1 0 0 []
        = prefixReads posix (47 :: rest) (ascii "/") 1 1 1 (ascii "/") := by
      rw [prefixReads]
      rfl
    refine ⟨?_, Utf8.ascii_cons (by decide) .nil, fun _ => rfl⟩
    rw [Bool.toNat_true, read, prefixReads]
    rfl

/-- A segment is appended, and the result stays sound. -/
theorem appendReads_posix (sound : Sound rooted result) (text : Utf8 part) :
    appendReads posix result part (ascii "/") rooted
        = some (appendSegment posix result part (ascii "/") rooted)
      ∧ Sound rooted (appendSegment posix result part (ascii "/") rooted) := by
  have start (short : result = [] ∨ result = ascii ".") : Sound rooted part := by
    refine ⟨text, fun absolute => ?_⟩
    have head := sound.root absolute
    rcases short with rfl | rfl <;> cases head
  have longer (some : result ≠ []) {more : Str} (spelled : Utf8 more) : Sound rooted (result ++ more) :=
    ⟨sound.text.append spelled, fun absolute => by
      rw [head?_append_of_ne_nil _ some, sound.root absolute]⟩
  have slash : Utf8 (ascii "/") := .ascii_cons (by decide) .nil
  unfold appendReads appendSegment
  by_cases empty : result = []
  · rw [if_pos empty, if_pos empty]
    exact ⟨rfl, start (.inl empty)⟩
  by_cases dot : result = ascii "."
  · rw [if_neg empty, if_neg empty, if_pos dot, if_pos dot]
    exact ⟨rfl, start (.inr dot)⟩
  have read : byteAt result (result.length - 1) = result.getLast? := getLast?_eq_getElem?.symm
  rw [if_neg empty, if_neg empty, if_neg dot, if_neg dot, read, getLast?_eq_some_getLast empty,
    Option.bind_eq_bind, Option.bind_some, Option.any_some]
  split_ifs
  · exact ⟨rfl, longer empty text⟩
  · rw [append_assoc]
    exact ⟨rfl, longer empty (Utf8.append slash text)⟩
  · exact ⟨rfl, longer empty text⟩

/-- A dot is UTF-8. -/
theorem utf8_dot : Utf8 (ascii ".") :=
  .ascii_cons (by decide) .nil

/-- The search for the last separator cuts in front of it only. -/
theorem removeReads_posix (sound : Sound rooted result) {count : ℕ} (inside : count ≤ result.length) :
    removeReads posix result rooted.toNat 0 count
        = some (removeLoop posix result rooted.toNat 0 count)
      ∧ ∀ value ∈ removeLoop posix result rooted.toNat 0 count, Sound rooted value := by
  induction count with
  | zero => exact ⟨rfl, fun _ found => absurd found (Option.not_mem_none _)⟩
  | succ count ih =>
    obtain ⟨rest, reads⟩ := ih (Nat.le_of_succ_le inside)
    have read : byteAt result count = some result[count] := getElem?_eq_getElem inside
    rw [removeReads, removeLoop]
    by_cases more : rooted.toNat < count + 1 ∧ 0 < count + 1
    · rw [if_pos more, if_pos more, read, getElem?_eq_getElem inside, Option.bind_eq_bind,
        Option.bind_some, Option.any_some]
      cases slash : posix.isSeparator result[count] with
      | false => exact ⟨rest, reads⟩
      | true =>
        obtain slash : result[count] = 47 := beq_iff_eq.mp slash
        have parts : result = result.take count ++ 47 :: result.drop (count + 1) := by
          rw [← slash, ← drop_eq_getElem_cons inside, take_append_drop]
        have behind : Boundary (47 :: result.drop (count + 1)) :=
          boundary_cons.mpr (by unfold Continuation; decide)
        obtain ⟨front, _⟩ := Utf8.split (parts ▸ sound.text) behind
        have sliced : slice result 0 count = some (result.take count) := by
          have cut := @slice_parts [] (result.take count) (47 :: result.drop (count + 1))
            (parts ▸ sound.text.boundary) behind
          rwa [nil_append, ← parts, nil_append, length_take_of_le (Nat.le_of_succ_le inside)] at cut
        have low : ¬count < rooted.toNat := by omega
        rw [if_pos rfl, if_pos rfl, if_neg low, if_neg low, sliced]
        by_cases start : count = 0
        · rw [if_pos start, if_pos start]
          refine ⟨rfl, fun value found => ?_⟩
          cases found
          refine ⟨utf8_dot, fun absolute => ?_⟩
          subst absolute start
          exact absurd more.1 (by decide)
        · rw [if_neg start, if_neg start]
          refine ⟨rfl, fun value found => ?_⟩
          cases found
          exact ⟨front, fun absolute => by rw [head?_take, if_neg start, sound.root absolute]⟩
    · rw [if_neg more, if_neg more]
      exact ⟨rfl, fun _ found => absurd found (Option.not_mem_none _)⟩

/-- The last segment is taken away, and the result stays sound. -/
theorem removeLastReads_posix (sound : Sound rooted result) :
    removeLastReads posix result rooted.toNat 0
        = some (removeLastSegment posix result rooted.toNat 0)
      ∧ Sound rooted (removeLastSegment posix result rooted.toNat 0) := by
  obtain ⟨reads, kept⟩ := removeReads_posix sound (Nat.le_refl _)
  obtain ⟨whole, sound'⟩ := prefixReads_posix sound.root
  unfold removeLastReads removeLastSegment
  by_cases short : result.length ≤ rooted.toNat ∨ result.length ≤ 0 ∨ result = ascii "."
  · rw [if_pos short, if_pos short]
    exact ⟨rfl, sound⟩
  rw [if_neg short, if_neg short, reads, Option.bind_eq_bind, Option.bind_some]
  cases found : removeLoop posix result rooted.toNat 0 result.length with
  | some => exact ⟨rfl, kept _ found⟩
  | none =>
    cases rooted with
    | true => exact ⟨whole, sound'⟩
    | false => exact ⟨rfl, utf8_dot, fun absolute => absurd absolute Bool.false_ne_true⟩

/-- One segment is read as it is normalised. -/
theorem segmentReads_posix (sound : Sound rooted result) (text : Utf8 part) :
    segmentReads posix rooted.toNat 0 (ascii "/") result part
        = some (normalizeSegment posix rooted.toNat 0 (ascii "/") result part)
      ∧ Sound rooted (normalizeSegment posix rooted.toNat 0 (ascii "/") result part) := by
  have appended := appendReads_posix sound text
  unfold segmentReads normalizeSegment
  split_ifs with dot up inner relative volume
  · exact ⟨rfl, sound⟩
  · exact removeLastReads_posix sound
  · cases rooted with
    | true => cases relative
    | false => exact appended
  · exact ⟨rfl, sound⟩
  · exact absurd volume.2.1 (by decide)
  · cases rooted with
    | true | false => exact appended

/-- What follows the separators in front is UTF-8. -/
theorem utf8_dropWhile {rest : Str} (text : Utf8 rest) : Utf8 (rest.dropWhile posix.isSeparator) := by
  induction rest with
  | nil => exact text
  | cons b rest ih =>
    rw [dropWhile_cons]
    split
    · rename_i slash
      obtain rfl : b = 47 := beq_iff_eq.mp slash
      exact ih (text.tail (by decide))
    · exact text

/-- The loop reads what is left of the path, by induction on its length. -/
theorem loopReads_posix {k : ℕ} {front rest : Str} (whole : front ++ rest = value)
    (text : Utf8 rest) (enough : rest.length < k) (sound : Sound rooted result) :
    loopReads posix value rooted.toNat 0 (ascii "/") k result front.length
      = some (normalizeLoop posix rooted.toNat 0 (ascii "/") result rest) := by
  induction k generalizing front rest result with
  | zero => omega
  | succ k ih =>
    subst whole
    have later := utf8_dropWhile text
    have shorter := @dropWhile_shorter posix.isSeparator rest
    have skipped := skip_parts posix.isSeparator front rest
    have split := takeWhile_append_dropWhile (p := posix.isSeparator) (l := rest)
    rw [loopReads, skipped, normalizeLoop, Option.bind_eq_bind, Option.bind_some]
    generalize rest.takeWhile posix.isSeparator = slashes at *
    generalize behind : rest.dropWhile posix.isSeparator = y at *
    subst split
    by_cases empty : y = []
    · rw [if_pos (by simp [empty]), if_pos empty]
      rfl
    have next : Boundary (y.dropWhile (!posix.isSeparator ·)) := by
      cases plain : y.dropWhile (!posix.isSeparator ·) with
      | nil => exact boundary_nil
      | cons b others =>
        have slash := head_dropWhile_not (p := (!posix.isSeparator ·)) (l := y) (by simp [plain])
        simp only [plain, head_cons, Bool.not_eq_false'] at slash
        obtain rfl : b = 47 := beq_iff_eq.mp slash
        exact boundary_cons.mpr (by unfold Continuation; decide)
    have parts := takeWhile_append_dropWhile (p := (!posix.isSeparator ·)) (l := y)
    rw [if_neg (by simpa using empty), if_neg empty, ← append_assoc,
      skip_parts (!posix.isSeparator ·) (front ++ slashes) y, Option.bind_eq_bind, Option.bind_some]
    generalize y.takeWhile (!posix.isSeparator ·) = part at *
    generalize y.dropWhile (!posix.isSeparator ·) = back at *
    subst parts
    obtain ⟨spelled, text⟩ := later.split next
    obtain ⟨added, sound⟩ := segmentReads_posix sound spelled
    rw [slice_parts later.boundary next, Option.bind_some, added, Option.bind_some]
    rw [append_assoc front slashes (part ++ back)]
    refine ih ?_ text (Nat.lt_of_lt_of_le (shorter empty) (Nat.le_of_lt_succ enough)) sound
    rw [append_assoc, append_assoc]

/-- **On POSIX, `Normalize` reads and cuts inside of its strings**: it returns for every path. -/
theorem normalizeReads_posix (path : Text) :
    normalizeReads posix path.bytes = some (normalize posix path.bytes) := by
  have text := utf8_of_valid path.valid
  generalize path.bytes = value at *
  by_cases empty : value = []
  · rw [normalizeReads, normalize, if_pos empty, if_pos empty]
  obtain ⟨rooted, root, head, rest, short⟩ : ∃ rooted : Bool, posix.rootLength value = rooted.toNat
      ∧ (rooted = true → value.head? = some 47) ∧ Utf8 (value.drop rooted.toNat)
      ∧ rooted.toNat ≤ value.length := by
    cases value with
    | nil => exact absurd rfl empty
    | cons b rest =>
      cases slash : b == 47 with
      | true =>
        obtain rfl := beq_iff_eq.mp slash
        exact ⟨true, rfl, fun _ => rfl, text.tail (by decide), by simp⟩
      | false =>
        refine ⟨false, by simp [posix, slash], fun absolute => ?_, text, by simp⟩
        exact absurd absolute Bool.false_ne_true
  obtain ⟨starts, sound⟩ := prefixReads_posix head
  have loops := loopReads_posix (take_append_drop rooted.toNat value) rest
    (by rw [length_drop]; omega : _ < value.length + 1) sound
  rw [length_take_of_le short] at loops
  have front : (if rooted.toNat > 0 then rooted.toNat else 0) = rooted.toNat := by
    cases rooted <;> rfl
  rw [normalizeReads, normalize, if_neg empty, if_neg empty]
  simp only [root, show posix.volumeLength value = 0 from rfl,
    show posix.separatorFor value = ascii "/" from rfl, front, starts, loops, Option.bind_eq_bind,
    Option.bind_some]
  split_ifs with _ _ never
  · rfl
  · exact absurd never (Nat.lt_irrefl 0)
  · rfl
  · rfl

end Panics

end FoundationLang.Standard.Paths
