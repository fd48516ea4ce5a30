/-
**What a pattern means.**

Two patterns with the same shape match the same paths with the same parameters and the same rank.
-/

import FoundationLang.Web.Patterns

namespace FoundationLang.Web

open Library Standard List

/-- **A segment of a pattern.** -/
inductive Segment
  | text (value : Str)
  | parameter (spec : ParameterSpec)
  | catchAll (name : Str)
deriving DecidableEq

/-- A segment, parsed. -/
def segmentOf (segment : Str) : Segment :=
  if isCatchAllSegment segment then .catchAll (catchAllName segment)
  else if isParameterSegment segment then .parameter (parameterSpecFor segment)
  else .text segment

/-- **The shape of a pattern.** -/
def shape (pattern : Str) : List Segment :=
  (newPathCursor pattern).segments.map segmentOf

/-! ### Matching a shape -/

/-- The match of a path against a shape. -/
def matchShape : List Segment → PathCursor → List Parameter → Str → Option PathMatch
  | [], values, params, rank =>
    if values.hasNext then none else some (completePathMatch params (rank ++ ascii "3"))
  | .catchAll name :: _, values, params, rank =>
    some (completePathMatch (⟨name, values.remaining⟩ :: params) (rank ++ ascii "0"))
  | .parameter spec :: shape, values, params, rank =>
    if !values.hasNext then none
    else if !constraintsMatch spec.constraints values.next.1 then none
    else matchShape shape values.next.2 (⟨spec.name, values.next.1⟩ :: params) (rank ++ ascii "1")
  | .text value :: shape, values, params, rank =>
    if !values.hasNext then none
    else if value ≠ values.next.1 then none
    else matchShape shape values.next.2 params (rank ++ ascii "2")

theorem catchAll_parameter {seg : Str} (catchAll : isCatchAllSegment seg = true) :
    isParameterSegment seg = true := by
  unfold isCatchAllSegment at catchAll
  rw [Bool.and_eq_true, Bool.and_eq_true] at catchAll
  exact catchAll.1.1

theorem matchSegments_shape (segments : List Str) (vs : PathCursor) (params : List Parameter)
    (rank : Str) :
    matchSegments segments vs params rank =
      matchShape (segments.map segmentOf) vs params rank := by
  induction segments generalizing vs params rank with
  | nil => rfl
  | cons segment segments ih =>
    rw [matchSegments, map_cons, segmentOf]
    cases isCatchAllSegment segment with
    | true => rfl
    | false =>
      cases isParameterSegment segment with
      | true =>
        rw [if_neg Bool.false_ne_true, if_neg Bool.false_ne_true, if_pos rfl, matchShape]
        dsimp only
        rw [if_pos rfl, ih]
      | false =>
        rw [if_neg Bool.false_ne_true, if_neg Bool.false_ne_true, if_neg Bool.false_ne_true,
          matchShape]
        dsimp only
        rw [if_neg Bool.false_ne_true, ih]

/-- **A match depends on the shape only.** -/
theorem matchRoutePattern_shape (pattern path : Str) :
    matchRoutePattern pattern path = matchShape (shape pattern) (newPathCursor path) [] [] :=
  matchSegments_shape _ _ _ _

/-- **The rank of a shape.** -/
def rankOf : List Segment → Str
  | [] => ascii "3"
  | .catchAll _ :: _ => ascii "0"
  | .parameter _ :: shape => ascii "1" ++ rankOf shape
  | .text _ :: shape => ascii "2" ++ rankOf shape

theorem matchShape_rank {shape : List Segment} {vs : PathCursor} {params : List Parameter}
    {rank : Str} {matched : PathMatch} (found : matchShape shape vs params rank = some matched) :
    matched.rank = rank ++ rankOf shape := by
  induction shape generalizing vs params rank with
  | nil =>
    rw [matchShape] at found
    split at found
    · cases found
    · cases found
      rfl
  | cons segment shape ih =>
    cases segment with
    | catchAll =>
      cases found
      rfl
    | parameter =>
      rw [matchShape] at found
      split at found
      · cases found
      · split at found
        · cases found
        · rw [ih found, rankOf, append_assoc]
    | text =>
      rw [matchShape] at found
      split at found
      · cases found
      · split at found
        · cases found
        · rw [ih found, rankOf, append_assoc]

theorem matchRoutePattern_rank {pattern path : Str} {matched : PathMatch}
    (found : matchRoutePattern pattern path = some matched) :
    matched.rank = rankOf (shape pattern) := by
  rw [matchRoutePattern_shape] at found
  exact matchShape_rank found

/-! ### Patterns that can be registered -/

/-- Nothing stands behind a parameter that takes everything. -/
def Closed : List Segment → Prop
  | [] => True
  | .catchAll _ :: shape => shape = []
  | _ :: shape => Closed shape

theorem contains_brace {seg : Str} (parameter : isParameterSegment seg = true) :
    Str.contains seg (ascii "\x7b") = true := by
  unfold isParameterSegment at parameter
  rw [Bool.and_eq_true, Bool.and_eq_true, beq_iff_eq, beq_iff_eq] at parameter
  cases seg with
  | nil => cases parameter.1.2
  | cons x =>
    obtain rfl : x = 123 := Option.some.inj parameter.1.2
    rfl

theorem validateRouteSegment_last {seg : Str} {last : Bool} {names names' : ParameterNames}
    (catchAll : isCatchAllSegment seg = true)
    (valid : validateRouteSegment seg last names = .ok names') : last = true := by
  have parameter := catchAll_parameter catchAll
  unfold validateRouteSegment at valid
  rw [contains_brace parameter, parameter, catchAll] at valid
  cases last with
  | true => rfl
  | false => cases valid

theorem validateSegments_closed {segments : List Str} {names : ParameterNames}
    (valid : validateSegments segments names = .ok ()) : Closed (segments.map segmentOf) := by
  induction segments generalizing names with
  | nil => exact trivial
  | cons segment segments ih =>
    rw [validateSegments] at valid
    obtain ⟨_, ran, valid⟩ := except_bind_eq_ok.mp valid
    have rest := ih valid
    rw [map_cons, segmentOf]
    cases catchAll : isCatchAllSegment segment with
    | true =>
      have last := validateRouteSegment_last catchAll ran
      rw [List.isEmpty_iff] at last
      rw [last]
      rfl
    | false =>
      rw [if_neg Bool.false_ne_true]
      split
      · exact rest
      · exact rest

/-- **Registered patterns are closed.** -/
theorem validateRoutePath_closed {path : Str} (valid : validateRoutePath path = .ok ()) :
    Closed (shape path) :=
  validateSegments_closed valid

/-! ### Ambiguity -/

/-- `patternsAmbiguous`, for shapes. -/
def shapesAmbiguous : List Segment → List Segment → Bool
  | .text left :: lefts, .text right :: rights =>
    if left ≠ right then false else shapesAmbiguous lefts rights
  | .parameter left :: lefts, .parameter right :: rights =>
    if left ≠ right then true else shapesAmbiguous lefts rights
  | .catchAll left :: lefts, .catchAll right :: rights =>
    if left ≠ right then true else shapesAmbiguous lefts rights
  | .parameter _ :: _, .catchAll _ :: _ => true
  | .catchAll _ :: _, .parameter _ :: _ => true
  | _, _ => false

theorem segmentOf_cases (seg : Str) :
    (isCatchAllSegment seg = true ∧ isParameterSegment seg = true ∧
        segmentOf seg = .catchAll (catchAllName seg)) ∨
      (isCatchAllSegment seg = false ∧ isParameterSegment seg = true ∧
        segmentOf seg = .parameter (parameterSpecFor seg)) ∨
      (isParameterSegment seg = false ∧ segmentOf seg = .text seg) := by
  unfold segmentOf
  cases catchAll : isCatchAllSegment seg with
  | true => exact .inl ⟨rfl, catchAll_parameter catchAll, rfl⟩
  | false =>
    cases isParameterSegment seg with
    | true => exact .inr (.inl ⟨rfl, rfl, rfl⟩)
    | false => exact .inr (.inr ⟨rfl, rfl⟩)

theorem spec_ne_iff {left right : ParameterSpec} :
    left ≠ right ↔ left.name ≠ right.name ∨ left.constraints ≠ right.constraints := by
  rw [← not_and_or, not_iff_not]
  constructor
  · rintro rfl
    exact ⟨rfl, rfl⟩
  · obtain ⟨_, _⟩ := left
    obtain ⟨_, _⟩ := right
    rintro ⟨rfl, rfl⟩
    rfl

/-- **Ambiguity depends on the shapes only.** -/
theorem segmentsAmbiguous_shape (lefts rights : List Str) :
    segmentsAmbiguous lefts rights =
      shapesAmbiguous (lefts.map segmentOf) (rights.map segmentOf) := by
  induction lefts generalizing rights with
  | nil => cases rights <;> rfl
  | cons left lefts ih =>
    cases rights with
    | nil =>
      rw [map_cons]
      cases segmentOf left <;> rfl
    | cons right =>
      rw [segmentsAmbiguous, map_cons, map_cons]
      rcases segmentOf_cases left with ⟨all, parameter, same⟩ | ⟨all, parameter, same⟩ |
        ⟨parameter, same⟩
      · rcases segmentOf_cases right with ⟨all', parameter', same'⟩ | ⟨all', parameter', same'⟩ |
          ⟨parameter', same'⟩
        · rw [same, same', all, all', parameter, parameter', shapesAmbiguous, ih]
          rfl
        · rw [same, same', all, all', parameter, parameter']
          rfl
        · rw [same, same', parameter, parameter']
          rfl
      · rcases segmentOf_cases right with ⟨all', parameter', same'⟩ | ⟨all', parameter', same'⟩ |
          ⟨parameter', same'⟩
        · rw [same, same', all, all', parameter, parameter']
          rfl
        · rw [same, same', all, all', parameter, parameter', shapesAmbiguous, ih]
          simp only [Bool.not_true, Bool.or_self, Bool.false_eq_true, if_false, bne_self_eq_false,
            spec_ne_iff]
          by_cases names : (parameterSpecFor left).name = (parameterSpecFor right).name
          · simp [names]
          · simp [names]
        · rw [same, same', parameter, parameter']
          rfl
      · rcases segmentOf_cases right with ⟨all', parameter', same'⟩ | ⟨all', parameter', same'⟩ |
          ⟨parameter', same'⟩
        · rw [same, same', parameter, parameter']
          rfl
        · rw [same, same', parameter, parameter']
          rfl
        · rw [same, same', parameter, parameter', shapesAmbiguous, ih]
          rfl

theorem patternsAmbiguous_shape (left right : Str) :
    patternsAmbiguous left right = shapesAmbiguous (shape left) (shape right) :=
  segmentsAmbiguous_shape _ _

theorem shapesAmbiguous_comm (lefts rights : List Segment) :
    shapesAmbiguous lefts rights = shapesAmbiguous rights lefts := by
  induction lefts generalizing rights with
  | nil =>
    cases rights with
    | nil => rfl
    | cons right => cases right <;> rfl
  | cons left lefts ih =>
    cases rights with
    | nil => cases left <;> rfl
    | cons right rights =>
      cases left <;> cases right <;>
        simp only [shapesAmbiguous, ih rights, ne_comm]

/-- **Shapes that match one path with the same rank are the same**, unless they are ambiguous. The
first segments have the same digit; texts are that of the path, and parameters that differ are
ambiguous. -/
theorem same_shape {left right : List Segment} {vs : PathCursor} {params params' : List Parameter}
    {rank rank' : Str} {matched matched' : PathMatch} (closed : Closed left) (closed' : Closed right)
    (found : matchShape left vs params rank = some matched)
    (found' : matchShape right vs params' rank' = some matched')
    (same : rankOf left = rankOf right) (apart : shapesAmbiguous left right = false) :
    left = right := by
  induction left generalizing right vs params params' rank rank' with
  | nil =>
    cases right with
    | nil => rfl
    | cons segment => cases segment <;> cases same
  | cons x left ih =>
    cases right with
    | nil => cases x <;> cases same
    | cons y right =>
      cases x with
      | catchAll =>
        cases y with
        | catchAll =>
          obtain rfl : left = [] := closed
          obtain rfl : right = [] := closed'
          rw [shapesAmbiguous] at apart
          split_ifs at apart with ne
          rw [not_not.mp ne]
        | parameter => cases same
        | text => cases same
      | parameter spec =>
        cases y with
        | catchAll => cases same
        | text => cases same
        | parameter spec' =>
          rw [shapesAmbiguous] at apart
          split_ifs at apart with ne
          rw [matchShape] at found found'
          split_ifs at found found'
          obtain rfl : spec = spec' := not_not.mp ne
          obtain rfl : left = right :=
            ih closed closed' found found' (append_cancel_left same) apart
          rfl
      | text v =>
        cases y with
        | catchAll => cases same
        | parameter => cases same
        | text value' =>
          rw [shapesAmbiguous] at apart
          rw [matchShape] at found found'
          split_ifs at found found' with _ here there
          obtain rfl : v = value' := (not_not.mp here).trans (not_not.mp there).symm
          rw [if_neg (fun ne => ne rfl)] at apart
          obtain rfl : left = right :=
            ih closed closed' found found' (append_cancel_left same) apart
          rfl

/-- Patterns that match one path with the same rank, and are not reported as ambiguous, have the
same shape. -/
theorem shape_eq_of_rank {left right path : Str} {matched matched' : PathMatch}
    (closed : Closed (shape left)) (closed' : Closed (shape right))
    (found : matchRoutePattern left path = some matched)
    (found' : matchRoutePattern right path = some matched') (same : matched.rank = matched'.rank)
    (apart : patternsAmbiguous left right = false) : shape left = shape right := by
  have ranks : rankOf (shape left) = rankOf (shape right) := by
    rw [← matchRoutePattern_rank found, ← matchRoutePattern_rank found', same]
  rw [patternsAmbiguous_shape] at apart
  rw [matchRoutePattern_shape] at found found'
  exact same_shape closed closed' found found' ranks apart

end FoundationLang.Web
