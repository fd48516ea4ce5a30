/-
**Route patterns of `foundation.web`.**

A pattern is matched segment by segment: a segment is fixed text, a parameter with constraints, or a
parameter that takes everything that is left.

Slices are taken beside `/`, braces, `:` and `,` only, so that none of them fails.
-/

import FoundationLang.Standard.Pattern
import FoundationLang.Web.Request
import Mathlib.Data.List.DropRight

namespace FoundationLang.Web

open Library Standard List

/-- Why a route is not registered. -/
inductive RegistrationError
  | emptyPath
  | invalidPath
  | malformedSegment
  | invalidParameter
  | duplicateParameter
  | unknownConstraint
  | unsupportedConstraint
  | catchAllNotLast
  | ambiguousRoute
  | duplicateRoute
  | duplicateId
deriving DecidableEq, Repr

/-! ### Cursors -/

/-- `pathCursor`, by the bytes between its offset and its end. -/
structure PathCursor where
  rest : Str
deriving DecidableEq, Repr

/-- `newPathCursor`. Slashes around the path are left out. -/
def newPathCursor (value : Str) : PathCursor :=
  ⟨(value.dropWhile (· == 47)).rdropWhile (· == 47)⟩

namespace PathCursor

/-- A segment is left. -/
def hasNext (self : PathCursor) : Bool :=
  !self.rest.isEmpty

/-- The next segment. -/
def next (self : PathCursor) : Str × PathCursor :=
  (self.rest.takeWhile (· != 47), ⟨(self.rest.dropWhile (· != 47)).tail⟩)

/-- What is left of the path. -/
def remaining (self : PathCursor) : Str :=
  self.rest

/-- The segments behind a part of one. -/
def segmentsFrom (segment : Str) : Str → List Str
  | [] => [segment]
  | byte :: rest =>
    if byte = 47 then
      if rest.isEmpty then [segment] else segment :: segmentsFrom [] rest
    else segmentsFrom (segment ++ [byte]) rest

/-- **The segments that are still to come.** -/
def segments (self : PathCursor) : List Str :=
  if self.hasNext then segmentsFrom [] self.rest else []

theorem segmentsFrom_eq (seg rest : Str) :
    segmentsFrom seg rest = (seg ++ rest.takeWhile (· != 47)) ::
      segments ⟨(rest.dropWhile (· != 47)).tail⟩ := by
  induction rest generalizing seg with
  | nil =>
    rw [segmentsFrom, takeWhile_nil, append_nil]
    rfl
  | cons b rest ih =>
    rw [segmentsFrom]
    by_cases slash : b = 47
    · rw [if_pos slash, takeWhile_cons_of_neg (by simp [slash]),
        dropWhile_cons_of_neg (by simp [slash]), append_nil]
      cases rest with
      | nil => rfl
      | cons => rfl
    · rw [if_neg slash, ih, takeWhile_cons_of_pos (by simpa using slash),
        dropWhile_cons_of_pos (by simpa using slash), append_assoc,
        singleton_append]

/-- **What `HasNext` and `Next` return, one after the other.** -/
theorem segments_eq (self : PathCursor) :
    self.segments = if self.hasNext then self.next.1 :: self.next.2.segments else [] := by
  unfold segments
  cases self.hasNext with
  | false => rfl
  | true =>
    rw [if_pos rfl, if_pos rfl, segmentsFrom_eq, nil_append]
    rfl

end PathCursor

/-! ### Segments -/

/-- The name of a parameter and its constraints. -/
structure ParameterSpec where
  name : Str
  constraints : Str
deriving DecidableEq, Repr

/-- `slice` beside bytes of ASCII, inside the string. -/
def cut (value : Str) (start stop : ℕ) : Str :=
  (value.take stop).drop start

/-- A segment in braces. -/
def isParameterSegment (value : Str) : Bool :=
  value.length ≥ 3 && value.head? == some 123 && value.getLast? == some 125

/-- A segment that takes the rest of the path. -/
def isCatchAllSegment (value : Str) : Bool :=
  isParameterSegment value && value.length ≥ 4 && value[1]? == some 42

/-- The name behind the star. -/
def catchAllName (value : Str) : Str :=
  cut value 2 (value.length - 1)

/-- The name up to the colon, and the constraints behind it. -/
def parameterSpecFor (value : Str) : ParameterSpec :=
  let inner := cut value 1 (value.length - 1)
  match Str.find inner (ascii ":") with
  | none => ⟨inner, []⟩
  | some offset => ⟨cut inner 0 offset, cut inner (offset + 1) inner.length⟩

/-- A letter in ASCII. -/
def asciiLetter (value : ℕ) : Bool :=
  (value ≥ 65 && value ≤ 90) || (value ≥ 97 && value ≤ 122)

/-- A letter or underscore, then digits too. -/
def validParameterName : Str → Bool
  | [] => false
  | first :: rest =>
    if first.toNat != 95 && !asciiLetter first.toNat then false
    else rest.all fun byte =>
      !(byte.toNat != 95 && !asciiLetter byte.toNat && (byte.toNat < 48 || byte.toNat > 57))

/-! ### Constraints -/

/-- The string of these bytes. -/
def textOf (value : Str) : Option Text :=
  if valid : utf8Valid value = true ∧ value.length < 2 ^ 63 then some ⟨value, valid.1, valid.2⟩
  else none

/-- `portablePattern.IsValid`. -/
def portableIsValid (expression : Str) : Bool :=
  match textOf expression with
  | none => false
  | some expression =>
    match Pattern.isValid expression with
    | .ok valid => valid
    | .error _ => false

/-- `portablePattern.Matches`. -/
def portableMatches (value expression : Str) : Bool :=
  match textOf value, textOf expression with
  | some value, some expression =>
    match Pattern.patternMatches value expression with
    | .ok found => found
    | .error _ => false
  | _, _ => false

/-- The value is an integer of 64 bits. -/
def integerParsed (value : Str) : Bool :=
  match parseI64 value with
  | .ok _ => true
  | .error _ => false

/-- `int`. -/
def integerConstraintMatches (value : Str) : Bool :=
  if Str.startsWith value (ascii "+") then
    if value.length == 1 then false else integerParsed (cut value 1 value.length)
  else integerParsed value

/-- `alpha`. -/
def alphaConstraintMatches (value : Str) : Bool :=
  value.all fun byte => asciiLetter byte.toNat

/-- One constraint; an unknown one matches nothing. -/
def constraintMatches (constraint value : Str) : Bool :=
  if constraint = ascii "int" then integerConstraintMatches value
  else if constraint = ascii "alpha" then alphaConstraintMatches value
  else if Str.startsWith constraint (ascii "regex(") && Str.endsWith constraint (ascii ")") then
    portableMatches value (cut constraint 6 (constraint.length - 1))
  else false

/-- All constraints, between commas. -/
def constraintsMatch (constraints value : Str) : Bool :=
  if constraints = [] then true
  else if Str.startsWith constraints (ascii "regex(") then constraintMatches constraints value
  else (Str.partsFrom 44 [] constraints).all fun constraint => constraintMatches constraint value

/-- Every constraint is known, and its pattern valid. -/
def validateConstraints (value : Str) : Except RegistrationError Unit :=
  if value = [] then .ok ()
  else if Str.startsWith value (ascii "regex(") then
    if !Str.endsWith value (ascii ")") then .error .unknownConstraint
    else if !portableIsValid (cut value 6 (value.length - 1)) then .error .unknownConstraint
    else .ok ()
  else if (Str.partsFrom 44 [] value).all fun constraint =>
      constraint = ascii "int" || constraint = ascii "alpha" then .ok ()
  else .error .unknownConstraint

/-! ### Patterns that can be registered -/

/-- `parameterNames`, by their text. -/
abbrev ParameterNames : Type :=
  Str

/-- The name is taken. -/
def containsName (names : ParameterNames) (expected : Str) : Bool :=
  Str.contains names (ascii "|" ++ expected ++ ascii "|")

/-- One more name. -/
def addName (names : ParameterNames) (name : Str) : ParameterNames :=
  names ++ name ++ ascii "|"

/-- The end of `validateRouteSegment`, for the name of a parameter. -/
def validateName (names : ParameterNames) (name : Str) : Except RegistrationError Unit :=
  if !validParameterName name then .error .invalidParameter
  else if containsName names name then .error .duplicateParameter
  else .ok ()

/-- One segment of a pattern. -/
def validateRouteSegment (segment : Str) (last : Bool) (names : ParameterNames) :
    Except RegistrationError ParameterNames :=
  if !Str.contains segment (ascii "\x7b") && !Str.contains segment (ascii "\x7d") then .ok names
  else if !isParameterSegment segment then .error .malformedSegment
  else if isCatchAllSegment segment then
    if !last then .error .catchAllNotLast
    else if Str.contains (catchAllName segment) (ascii ":") then .error .unsupportedConstraint
    else do
      validateName names (catchAllName segment)
      return addName names (catchAllName segment)
  else do
    let spec := parameterSpecFor segment
    validateName names spec.name
    validateConstraints spec.constraints
    return addName names spec.name

/-- The loop of `validateRoutePath`. -/
def validateSegments : List Str → ParameterNames → Except RegistrationError Unit
  | [], _ => .ok ()
  | segment :: segments, names => do
    validateSegments segments (← validateRouteSegment segment segments.isEmpty names)

/-- The patterns that can be registered. -/
def validateRoutePath (path : Str) : Except RegistrationError Unit :=
  validateSegments (newPathCursor path).segments (ascii "|")

/-! ### Patterns in the way of each other -/

/-- The loop of `patternsEquivalent`. -/
def segmentsEquivalent : List Str → List Str → Bool
  | left :: lefts, right :: rights => if left ≠ right then false else segmentsEquivalent lefts rights
  | lefts, rights => lefts.isEmpty && rights.isEmpty

/-- Patterns with the same segments. -/
def patternsEquivalent (left right : Str) : Bool :=
  segmentsEquivalent (newPathCursor left).segments (newPathCursor right).segments

/-- The loop of `patternsAmbiguous`. -/
def segmentsAmbiguous : List Str → List Str → Bool
  | left :: lefts, right :: rights =>
    if !isParameterSegment left || !isParameterSegment right then
      if isParameterSegment left != isParameterSegment right then false
      else if left ≠ right then false
      else segmentsAmbiguous lefts rights
    else if isCatchAllSegment left != isCatchAllSegment right then true
    else if isCatchAllSegment left then
      if catchAllName left ≠ catchAllName right then true else segmentsAmbiguous lefts rights
    else if (parameterSpecFor left).name ≠ (parameterSpecFor right).name then true
    else if (parameterSpecFor left).constraints ≠ (parameterSpecFor right).constraints then true
    else segmentsAmbiguous lefts rights
  | _, _ => false

/-- Patterns that differ first in two parameters. -/
def patternsAmbiguous (left right : Str) : Bool :=
  segmentsAmbiguous (newPathCursor left).segments (newPathCursor right).segments

/-! ### Matching -/

/-- The parameters and the rank of a match. -/
structure PathMatch where
  params : List Parameter
  rank : Str
deriving DecidableEq, Repr

/-- The match behind the last segment. -/
def completePathMatch (params : List Parameter) (rank : Str) : PathMatch :=
  ⟨params.reverse, rank⟩

/-- The loop of `matchRoutePattern`. The parameters are collected from the front. -/
def matchSegments : List Str → PathCursor → List Parameter → Str → Option PathMatch
  | [], values, params, rank =>
    if values.hasNext then none else some (completePathMatch params (rank ++ ascii "3"))
  | segment :: segments, values, params, rank =>
    if isCatchAllSegment segment then
      some (completePathMatch (⟨catchAllName segment, values.remaining⟩ :: params)
        (rank ++ ascii "0"))
    else if !values.hasNext then none
    else
      let (value, values) := values.next
      if isParameterSegment segment then
        let spec := parameterSpecFor segment
        if !constraintsMatch spec.constraints value then none
        else matchSegments segments values (⟨spec.name, value⟩ :: params) (rank ++ ascii "1")
      else if segment ≠ value then none
      else matchSegments segments values params (rank ++ ascii "2")

/-- The parameters of a path and the rank of the match. -/
def matchRoutePattern (pattern path : Str) : Option PathMatch :=
  matchSegments (newPathCursor pattern).segments (newPathCursor path) [] []

example : matchRoutePattern (ascii "/users/\x7bid:int\x7d/\x7b*rest\x7d") (ascii "/users/7//x/") =
    some ⟨[⟨ascii "id", ascii "7"⟩, ⟨ascii "rest", ascii "/x"⟩], ascii "210"⟩ := by
  decide +kernel

end FoundationLang.Web
