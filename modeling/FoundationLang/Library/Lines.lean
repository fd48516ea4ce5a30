/-
**Lines that end in CR LF.**

* `joinLines` — lines one after the other, each with its end.
* `splitLines` — the lines of a text and what is left behind the last of them; a text that was joined
  from lines without a line feed is split into the same lines (`splitLines_joinLines`).
-/

import Mathlib.Algebra.Group.Nat.Defs

namespace FoundationLang.Library

open List

/-- The end of a line. -/
def crlf : List UInt8 :=
  [13, 10]

/-- **Lines with their ends.** -/
def joinLines (lines : List (List UInt8)) : List UInt8 :=
  lines.flatMap (· ++ crlf)

/-- The loop of `splitLines`, with the line so far. -/
def splitFrom (line : List UInt8) : List UInt8 → List (List UInt8) × List UInt8
  | [] => ([], line)
  | byte :: rest =>
    if byte = 10 ∧ line.getLast? = some 13 then
      let (lines, left) := splitFrom [] rest
      (line.dropLast :: lines, left)
    else splitFrom (line ++ [byte]) rest

/-- **The lines of a text**, and what is behind the last one. -/
def splitLines (text : List UInt8) : List (List UInt8) × List UInt8 :=
  splitFrom [] text

@[simp]
theorem joinLines_nil : joinLines [] = [] :=
  rfl

@[simp]
theorem joinLines_cons (line : List UInt8) (lines : List (List UInt8)) :
    joinLines (line :: lines) = line ++ crlf ++ joinLines lines :=
  rfl

@[simp]
theorem joinLines_append (x second : List (List UInt8)) :
    joinLines (x ++ second) = joinLines x ++ joinLines second := by
  simp [joinLines]

theorem splitFrom_append (line : List UInt8) {more : List UInt8} (plain : 10 ∉ more)
    (rest : List UInt8) : splitFrom line (more ++ rest) = splitFrom (line ++ more) rest := by
  induction more generalizing line with
  | nil => rw [nil_append, append_nil]
  | cons b more ih =>
    rw [mem_cons, not_or] at plain
    rw [cons_append, splitFrom, if_neg (by intro both; exact plain.1 both.1.symm),
      ih _ plain.2, append_assoc, singleton_append]

theorem splitFrom_crlf (line rest : List UInt8) :
    splitFrom line (crlf ++ rest) =
      (line :: (splitFrom [] rest).1, (splitFrom [] rest).2) := by
  change splitFrom line ([13] ++ (10 :: rest)) = _
  rw [splitFrom_append line (by decide), splitFrom, if_pos ⟨rfl, by simp⟩,
    dropLast_concat]

/-- **The lines of a text that was joined are the ones it was joined from.** -/
theorem splitLines_joinLines {lines : List (List UInt8)} (plain : ∀ line ∈ lines, 10 ∉ line) :
    splitLines (joinLines lines) = (lines, []) := by
  unfold splitLines
  induction lines with
  | nil => rfl
  | cons line lines ih =>
    rw [joinLines_cons, append_assoc, splitFrom_append [] (plain line mem_cons_self),
      nil_append, splitFrom_crlf,
      ih fun line mem => plain line (mem_cons_of_mem _ mem)]

end FoundationLang.Library
