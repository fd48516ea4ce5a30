/-
**The package `std.pattern`.**

A pattern is matched byte by byte, from the start of the text when it is anchored there and from
every position otherwise. The matcher tries a part of the pattern with as many bytes as possible
first and then with fewer; every call of `matchFrom` is counted against a budget.
-/

import FoundationLang.Standard.Text

namespace FoundationLang.Standard.Pattern

open Library Outcome

/-- A function that returns a value or panics. -/
abbrev Run (α : Type) : Type :=
  Outcome Empty α

/-- How many calls were made, and how many may be. -/
structure MatchBudget where
  used : ℕ
  limit : ℕ
deriving DecidableEq, Repr

/-- A byte; outside the text is a panic. -/
def byteAt (value : Text) (index : ℕ) : Run ℕ :=
  match value.byteAt index with
  | .ok found => .ok found
  | .error _ => panic (.message "pattern byte index invariant failed")

/-- `*`, `+` or `?`. -/
def quantifier (value : ℕ) : Bool :=
  value == 42 || value == 43 || value == 63

/-- A byte that is no atom by itself. -/
def unsupported (value : ℕ) : Bool :=
  quantifier value || value == 36 || value == 94 || value == 40 || value == 41 || value == 124 ||
    value == 123 || value == 125

/-! ### The parts of a pattern -/

/-- The loop of `atomEnd` over a class, with a bound on its rounds: the cursor grows. -/
def classEnd (pattern : Text) (stop : ℕ) : ℕ → ℕ → Run ℕ
  | _, 0 => .ok stop
  | cursor, rounds + 1 =>
    if cursor < stop then do
      let value ← byteAt pattern cursor
      if value = 92 then classEnd pattern stop (← checked (cursor + 2)) rounds
      else if value = 93 then checked (cursor + 1)
      else classEnd pattern stop (← checked (cursor + 1)) rounds
    else .ok stop

/-- The end of the atom at a position. -/
def atomEnd (pattern : Text) (position stop : ℕ) : Run ℕ := do
  let current ← byteAt pattern position
  let next ← checked (position + 1)
  if current = 92 then
    if next < stop then checked (position + 2) else .ok stop
  else if current ≠ 91 then .ok next
  else classEnd pattern stop next (stop - next)

/-- A byte of a class, which may be escaped; the cursor behind it. -/
def classByte (pattern : Text) (cursor : ℕ) : Run (ℕ × ℕ) := do
  let first ← byteAt pattern cursor
  if first = 92 then
    let cursor ← checked (cursor + 1)
    let first ← byteAt pattern cursor
    .ok (first, ← checked (cursor + 1))
  else .ok (first, ← checked (cursor + 1))

/-- A `-` and another byte of the class follow. -/
def rangeBehind (pattern : Text) (cursor close : ℕ) : Run Bool := do
  let next ← checked (cursor + 1)
  if next < close then
    let value ← byteAt pattern cursor
    .ok (value == 45)
  else .ok false

/-- The loop of `classMatches`, with a bound on its rounds: the cursor grows. -/
def classContains (pattern : Text) (close value : ℕ) : ℕ → Bool → ℕ → Run Bool
  | _, matched, 0 => .ok matched
  | cursor, matched, rounds + 1 =>
    if cursor < close then do
      let (first, cursor) ← classByte pattern cursor
      let range ← rangeBehind pattern cursor close
      if range then
        let (last, cursor) ← classByte pattern (← checked (cursor + 1))
        classContains pattern close value cursor (matched || (value ≥ first && value ≤ last)) rounds
      else classContains pattern close value cursor (matched || value == first) rounds
    else .ok matched

/-- Does a `^` stand at the beginning of the class? -/
def negatedClass (pattern : Text) (cursor close : ℕ) : Run Bool :=
  if cursor < close then do
    let value ← byteAt pattern cursor
    .ok (value == 94)
  else .ok false

/-- A class accepts a byte. -/
def classMatches (pattern : Text) (position stop value : ℕ) : Run Bool := do
  let close ← checkedSub (← atomEnd pattern position stop) 1
  let cursor ← checked (position + 1)
  let negated ← negatedClass pattern cursor close
  if negated then
    let cursor ← checked (cursor + 1)
    let matched ← classContains pattern close value cursor false (close - cursor)
    .ok !matched
  else classContains pattern close value cursor false (close - cursor)

/-- An atom accepts a byte. -/
def atomMatches (pattern : Text) (position stop value : ℕ) : Run Bool := do
  let current ← byteAt pattern position
  if current = 46 then .ok true
  else if current = 92 then
    let next ← checked (position + 1)
    if next < stop then
      let escaped ← byteAt pattern next
      .ok (escaped == value)
    else .ok false
  else if current = 91 then classMatches pattern position stop value
  else .ok (current == value)

/-! ### Validity -/

/-- The loop of `finalAnchor`: the number of backslashes in front of a position. -/
def escapesBefore (pattern : Text) (start : ℕ) : ℕ → Run ℕ
  | 0 => .ok 0
  | cursor + 1 =>
    if cursor + 1 > start then do
      let value ← byteAt pattern cursor
      if value = 92 then checked ((← escapesBefore pattern start cursor) + 1) else .ok 0
    else .ok 0

/-- The pattern ends with a `$` that is not escaped. -/
def finalAnchor (pattern : Text) (start stop : ℕ) : Run Bool :=
  if stop ≤ start then .ok false
  else do
    let last ← byteAt pattern (stop - 1)
    if last ≠ 36 then .ok false
    else
      let escapes ← escapesBefore pattern start (stop - 1)
      .ok (escapes % 2 == 0)

/-- A quantifier behind an atom is skipped; `none` when another one follows. -/
def skipQuantifier (pattern : Text) (cursor stop : ℕ) : Run (Option ℕ) :=
  if cursor < stop then do
    let value ← byteAt pattern cursor
    if quantifier value then
      let next ← checked (cursor + 1)
      if next < stop then
        let value ← byteAt pattern next
        .ok (if quantifier value then none else some next)
      else .ok (some next)
    else .ok (some cursor)
  else .ok (some cursor)

/-- Does a class end with the pattern, and not with a bracket? -/
def unclosedClass (pattern : Text) (close stop : ℕ) : Run Bool :=
  if close = stop then do
    let last ← byteAt pattern (stop - 1)
    .ok (last != 93)
  else .ok false

/-- The check of a class that ends at `close`. -/
def validClass (pattern : Text) (cursor close stop : ℕ) : Run (Option ℕ) := do
  let unclosed ← unclosedClass pattern close stop
  if unclosed then .ok none
  else
    let inner ← checkedSub close 1
    let contents ← checked (cursor + 1)
    let negated ← negatedClass pattern contents inner
    let contents ← checked (if negated then contents + 1 else contents)
    .ok (if contents ≥ inner then none else some close)

/-- The check of an atom; the cursor behind it, or `none` for `return false`. -/
def validAtom (pattern : Text) (cursor stop : ℕ) : Run (Option ℕ) := do
  let current ← byteAt pattern cursor
  if unsupported current then .ok none
  else if current = 92 then
    let next ← checked (cursor + 2)
    .ok (if next > stop then none else some next)
  else if current = 91 then
    let close ← atomEnd pattern cursor stop
    validClass pattern cursor close stop
  else
    let next ← checked (cursor + 1)
    .ok (some next)

/-- The loop of `validPattern`, with a bound on its rounds: the cursor grows. -/
def validPattern (pattern : Text) (stop : ℕ) : ℕ → ℕ → Run Bool
  | _, 0 => .ok true
  | cursor, rounds + 1 =>
    if cursor < stop then do
      match ← validAtom pattern cursor stop with
      | none => .ok false
      | some cursor =>
        match ← skipQuantifier pattern cursor stop with
        | none => .ok false
        | some cursor => validPattern pattern stop cursor rounds
    else .ok true

/-- The anchors of a pattern, and what is between them. -/
structure Anchors where
  anchoredStart : Bool
  patternStart : ℕ
  anchoredEnd : Bool
  patternEnd : ℕ
deriving DecidableEq, Repr

/-- Does a pattern start with `^`? -/
def startAnchor (expression : Text) : Run Bool :=
  if 0 < expression.byteLen then do
    let first ← byteAt expression 0
    .ok (first == 94)
  else .ok false

/-- The first lines of `IsValid` and of `Matches`. -/
def anchors (expression : Text) : Run Anchors := do
  let patternLength := expression.byteLen
  let anchoredStart ← startAnchor expression
  let patternStart := if anchoredStart then 1 else 0
  let anchoredEnd ← finalAnchor expression patternStart patternLength
  let patternEnd := if anchoredEnd then patternLength - 1 else patternLength
  .ok { anchoredStart, patternStart, anchoredEnd, patternEnd }

/-- `IsValid`, the patterns that are matched at all. -/
def isValid (expression : Text) : Run Bool :=
  if expression.byteLen > 1024 then .ok false
  else do
    let found ← anchors expression
    validPattern expression found.patternEnd found.patternStart
      (found.patternEnd - found.patternStart)

/-! ### Matching -/

/-- The quantifier behind an atom, if there is one. -/
def quantifierBehind (pattern : Text) (nextAtom patternEnd : ℕ) : Run (Option ℕ) :=
  if nextAtom < patternEnd then do
    let value ← byteAt pattern nextAtom
    .ok (if quantifier value then some value else none)
  else .ok none

/-- The loop that takes as many bytes as possible, with the number of bytes of the text that are
left. -/
def takeMost (value pattern : Text) (patternPosition patternEnd quantifier : ℕ) : ℕ → ℕ → Run ℕ
  | maximum, 0 => .ok maximum
  | maximum, left + 1 => do
    let byte ← byteAt value maximum
    let accepted ← atomMatches pattern patternPosition patternEnd byte
    if accepted then
      let maximum ← checked (maximum + 1)
      if quantifier = 63 then .ok maximum
      else takeMost value pattern patternPosition patternEnd quantifier maximum left
    else .ok maximum

/-- The loop over the candidates, from `required + extra` down to `required`. -/
def tryCandidates (next : ℕ → MatchBudget → Run (Bool × MatchBudget)) (required : ℕ) :
    ℕ → MatchBudget → Run (Bool × MatchBudget)
  | 0, budget => next required budget
  | extra + 1, budget => do
    let (found, budget) ← next (required + (extra + 1)) budget
    if found then .ok (true, budget) else tryCandidates next required extra budget

/-- `matchFrom`. When the fuel is at least what is left of the budget, the budget is used up before
the fuel is. -/
def matchFrom (value pattern : Text) (patternEnd : ℕ) (anchoredEnd : Bool) :
    ℕ → ℕ → ℕ → MatchBudget → Run (Bool × MatchBudget)
  | 0, _, _, budget => .ok (false, budget)
  | fuel + 1, valuePosition, patternPosition, budget => do
    if budget.used ≥ budget.limit then .ok (false, budget)
    else
      let used ← checked (budget.used + 1)
      let budget : MatchBudget := { budget with used := used }
      if patternPosition ≥ patternEnd then
        .ok (!anchoredEnd || valuePosition == value.byteLen, budget)
      else
        let nextAtom ← atomEnd pattern patternPosition patternEnd
        match ← quantifierBehind pattern nextAtom patternEnd with
        | none =>
          if valuePosition ≥ value.byteLen then .ok (false, budget)
          else
            let byte ← byteAt value valuePosition
            let accepted ← atomMatches pattern patternPosition patternEnd byte
            if !accepted then .ok (false, budget)
            else
              let valuePosition ← checked (valuePosition + 1)
              matchFrom value pattern patternEnd anchoredEnd fuel valuePosition nextAtom budget
        | some quantifier =>
          let nextPattern ← checked (nextAtom + 1)
          let minimum := if quantifier = 42 ∨ quantifier = 63 then 0 else 1
          let maximum ← takeMost value pattern patternPosition patternEnd quantifier valuePosition
            (value.byteLen - valuePosition)
          let required ← checked (valuePosition + minimum)
          if maximum < required then .ok (false, budget)
          else
            tryCandidates (fun candidate budget =>
              matchFrom value pattern patternEnd anchoredEnd fuel candidate nextPattern budget)
              required (maximum - required) budget

/-- The budget in front of the upper bound. -/
def wantedLimit (valueLength patternLength : ℕ) : Run ℕ :=
  if valueLength ≤ 10000 ∧ patternLength ≤ 1000 then do
    let product ← checked ((← checked (valueLength + 1)) * (← checked (patternLength + 1)))
    let limit ← checked (product * 8)
    .ok (if limit < 1024 then 1024 else limit)
  else .ok 1024

/-- The budget of a text and a pattern of these lengths. -/
def budgetLimit (valueLength patternLength : ℕ) : Run ℕ := do
  let limit ← wantedLimit valueLength patternLength
  .ok (if limit > 1000000 then 1000000 else limit)

/-- The loop over the starts, with the number of starts that are left behind this one. -/
def searchFrom (value expression : Text) (patternStart patternEnd : ℕ) (anchoredEnd : Bool) :
    ℕ → ℕ → MatchBudget → Run (Bool × MatchBudget)
  | _, 0, budget => .ok (false, budget)
  | start, left + 1, budget => do
    let (found, budget) ← matchFrom value expression patternEnd anchoredEnd
      (budget.limit - budget.used) start patternStart budget
    if found then .ok (true, budget)
    else if budget.used ≥ budget.limit then .ok (false, budget)
    else
      let start ← checked (start + 1)
      searchFrom value expression patternStart patternEnd anchoredEnd start left budget

/-- `Matches` for a valid pattern, with the budget in the end. -/
def search (value expression : Text) : Run (Bool × MatchBudget) := do
  let found ← anchors expression
  let limit ← budgetLimit value.byteLen expression.byteLen
  let budget : MatchBudget := { used := 0, limit := limit }
  if found.anchoredStart then
    matchFrom value expression found.patternEnd found.anchoredEnd (limit - 0) 0 found.patternStart
      budget
  else
    searchFrom value expression found.patternStart found.patternEnd found.anchoredEnd 0
      (value.byteLen + 1) budget

/-- `Matches`. -/
def patternMatches (value expression : Text) : Run Bool := do
  let valid ← isValid expression
  if !valid then .ok false
  else
    let (found, _) ← search value expression
    .ok found

example : patternMatches (.literal [65, 100, 97]) (.literal [94, 91, 65, 45, 90, 93, 46, 43, 36]) =
    .ok true := by
  decide +kernel

end FoundationLang.Standard.Pattern
