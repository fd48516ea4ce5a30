/-
**The search as a recursion.**

The inner loop of `rejectTypeCycles` keeps its own stack. `Visits` is the recursion that the stack
stands for, over the children of one type after the other.
-/

import FoundationLang.Layout.Cycles

namespace FoundationLang.Layout

open Contract List Function

variable (copies : SemanticType → Bool) (declarations : Declarations)

/-- The instances of a declaration on a way, the last one first. -/
def instances (trail : List SemanticType) (node : Nat) : List SemanticType :=
  trail.filter fun type => typeNode declarations type = node

/-- The last instance of its declaration on the way makes a type look like a recurrence. -/
def Flagged (trail : List SemanticType) (child : SemanticType) : Prop :=
  recurs (instances declarations trail (typeNode declarations child)) child = true

instance (trail : List SemanticType) : DecidablePred (Flagged declarations trail) :=
  fun _ => inferInstanceAs (Decidable (_ = true))

/-- A child that the search goes into. -/
structure Enters (trail : List SemanticType) (validated : List String) (child : SemanticType) :
    Prop where
  entered : Entered declarations child
  plain : ¬Flagged declarations trail child
  fresh : semanticTypeKey child ∉ validated

/-- The keys of the types that are done, and one more. -/
def addKey (key : String) (validated : List String) : List String :=
  if key ∈ validated then validated else key :: validated

/-- The visit of the children of the last type of a way: the keys of the types that are done then, or
`none` for the error. -/
inductive Visits : List SemanticType → List String → List SemanticType → Option (List String) → Prop
  | done {trail : List SemanticType} {validated : List String} :
    Visits trail validated [] (some validated)
  | flagged {trail : List SemanticType} {validated : List String} {child : SemanticType}
    {rest : List SemanticType} (entered : Entered declarations child)
    (flagged : Flagged declarations trail child) : Visits trail validated (child :: rest) none
  | passed {trail : List SemanticType} {validated : List String} {child : SemanticType}
    {rest : List SemanticType} {outcome : Option (List String)}
    (passed : Entered declarations child →
      ¬Flagged declarations trail child ∧ semanticTypeKey child ∈ validated)
    (later : Visits trail validated rest outcome) : Visits trail validated (child :: rest) outcome
  | inside {trail : List SemanticType} {validated : List String} {child : SemanticType}
    {rest : List SemanticType} (enters : Enters declarations trail validated child)
    (here : Visits (child :: trail) validated (layoutChildren copies declarations child) none) :
    Visits trail validated (child :: rest) none
  | enter {trail : List SemanticType} {validated inner : List String} {child : SemanticType}
    {rest : List SemanticType} {outcome : Option (List String)}
    (enters : Enters declarations trail validated child)
    (here : Visits (child :: trail) validated (layoutChildren copies declarations child) (some inner))
    (later : Visits trail (addKey (semanticTypeKey child) inner) rest outcome) :
    Visits trail validated (child :: rest) outcome

/-- The state in which the loop visits these children of its last frame. -/
def standing (frame : Frame) (below : List Frame) (trail : List SemanticType)
    (validated : List String) (children : List SemanticType) : Walk :=
  ⟨{ frame with children := children } :: below, instances declarations trail, validated⟩

/-- A type on the stack whose children are done. -/
def frameOf (type : SemanticType) : Frame :=
  ⟨type, typeNode declarations type, semanticTypeKey type, []⟩

/-- The search ends with a result. -/
def Runs (state : Walk) (result : Option (List String)) : Prop :=
  ∃ fuel, walk copies declarations fuel state = some result

variable {copies declarations}

/-! ### One pass of the loop -/

section Turn

variable {frame : Frame} {below : List Frame} {trail : List SemanticType} {validated : List String}
  {child : SemanticType} {children : List SemanticType}

theorem instances_cons : instances declarations (child :: trail)
    = update (instances declarations trail) (typeNode declarations child)
      (child :: instances declarations trail (typeNode declarations child)) := by
  funext node
  by_cases same : node = typeNode declarations child
  · subst same
    simp [instances]
  · rw [update_of_ne same, instances, filter_cons_of_neg (by simpa using Ne.symm same), instances]

/-- The last frame is left. -/
theorem turn_done (type : SemanticType) :
    turn copies declarations (standing declarations (frameOf declarations type) below (type :: trail)
        validated []) { frameOf declarations type with children := [] } below
      = some ⟨below, instances declarations trail, addKey (semanticTypeKey type) validated⟩ := by
  simp only [turn, standing, frameOf, instances_cons, update_self, tail_cons, update_idem,
    update_eq_self, addKey]

theorem turn_cons : turn copies declarations
      (standing declarations frame below trail validated (child :: children))
      { frame with children := child :: children } below
    = if Entered declarations child then
        if Flagged declarations trail child then none
        else if semanticTypeKey child ∈ validated then
          some (standing declarations frame below trail validated children)
        else some (standing declarations (frameOf declarations child)
          ({ frame with children := children } :: below) (child :: trail) validated
          (layoutChildren copies declarations child))
      else some (standing declarations frame below trail validated children) := by
  simp only [turn, standing, Walk.push, instances_cons, frameOf, Flagged]
  rfl

end Turn

/-! ### Runs of the loop -/

theorem walk_mono {fuel more : Nat} {s : Walk} {result : Option (List String)}
    (ended : walk copies declarations fuel s = some result) (enough : fuel ≤ more) :
    walk copies declarations more s = some result := by
  induction fuel generalizing s more with
  | zero => simp [walk] at ended
  | succ fuel ih =>
    obtain ⟨more, rfl⟩ := Nat.exists_eq_add_one_of_ne_zero (by omega : more ≠ 0)
    rw [walk] at ended ⊢
    split at ended
    · exact ended
    · split at ended
      · exact ended
      · exact ih ended (by omega)

theorem walk_turn {fuel : Nat} {s : Walk} {frame : Frame} {rest : List Frame}
    (stacked : s.stack = frame :: rest) : walk copies declarations (fuel + 1) s
      = (turn copies declarations s frame rest).elim (some none) (walk copies declarations fuel) := by
  rw [walk]
  simp only [stacked]
  cases turn copies declarations s frame rest <;> rfl

theorem Runs.of_turn {s next : Walk} {frame : Frame} {rest : List Frame}
    {result : Option (List String)} (stacked : s.stack = frame :: rest)
    (turned : turn copies declarations s frame rest = some next)
    (runs : Runs copies declarations next result) : Runs copies declarations s result := by
  obtain ⟨fuel, ended⟩ := runs
  exact ⟨fuel + 1, by rw [walk_turn stacked, turned, Option.elim_some, ended]⟩

/-- The loop ends as the recursion does, whatever is on the stack below. -/
def Simulates (copies : SemanticType → Bool) (declarations : Declarations)
    (trail : List SemanticType) (validated : List String) (children : List SemanticType) :
    Option (List String) → Prop
  | none => ∀ frame below,
    Runs copies declarations (standing declarations frame below trail validated children) none
  | some after => ∀ frame below result,
    Runs copies declarations (standing declarations frame below trail after []) result →
      Runs copies declarations (standing declarations frame below trail validated children) result

theorem Simulates.of_turns {trail : List SemanticType} {validated s : List String}
    {children rest : List SemanticType} {outcome : Option (List String)}
    (simulates : Simulates copies declarations trail s rest outcome)
    (turns : ∀ frame below result,
      Runs copies declarations (standing declarations frame below trail s rest) result →
        Runs copies declarations (standing declarations frame below trail validated children) result) :
    Simulates copies declarations trail validated children outcome := by
  cases outcome with
  | none => exact fun frame below => turns frame below none (simulates frame below)
  | some =>
    intro frame below result ends
    exact turns frame below result (simulates frame below result ends)

/-- **What the recursion does the loop does.** -/
theorem runs_of_visits {trail : List SemanticType} {validated : List String}
    {children : List SemanticType} {outcome : Option (List String)}
    (visits : Visits copies declarations trail validated children outcome) :
    Simulates copies declarations trail validated children outcome := by
  induction visits with
  | done => exact fun _ _ _ ends => ends
  | flagged entered flagged =>
    exact fun frame below =>
      ⟨1, by rw [walk_turn rfl, turn_cons, if_pos entered, if_pos flagged, Option.elim_none]⟩
  | @passed trail validated child rest outcome passed later ih =>
    refine ih.of_turns fun frame below result ends => .of_turn rfl ?_ ends
    rw [turn_cons]
    by_cases entered : Entered declarations child
    · rw [if_pos entered, if_neg (passed entered).1, if_pos (passed entered).2]
    · rw [if_neg entered]
  | @inside _ _ child rest enters here ih =>
    intro frame below
    refine .of_turn rfl ?_ (ih (frameOf declarations child) ({ frame with children := rest } :: below))
    rw [turn_cons, if_pos enters.entered, if_neg enters.plain, if_neg enters.fresh]
  | enter enters here later ihHere ihLater =>
    refine ihLater.of_turns fun frame below result ends => ?_
    refine .of_turn rfl (by rw [turn_cons, if_pos enters.entered, if_neg enters.plain,
      if_neg enters.fresh]) ?_
    exact ihHere _ _ result (.of_turn rfl (turn_done _) ends)

/-- **What the loop does the recursion does.** -/
theorem visits_of_walk {fuel : Nat} {frame : Frame} {below : List Frame} {trail : List SemanticType}
    {validated : List String} {children : List SemanticType} {result : Option (List String)}
    (ended : walk copies declarations fuel
      (standing declarations frame below trail validated children) = some result) :
    Visits copies declarations trail validated children none ∧ result = none ∨
      ∃ after less, less ≤ fuel ∧ Visits copies declarations trail validated children (some after) ∧
        walk copies declarations less (standing declarations frame below trail after []) = some result := by
  induction fuel using Nat.strongRecOn generalizing frame below trail validated children with
  | _ fuel ih =>
  cases children with
  | nil => exact .inr ⟨validated, fuel, Nat.le_refl _, .done, ended⟩
  | cons child rest =>
    cases fuel with
    | zero => simp [walk] at ended
    | succ fuel =>
      have go (passed : Entered declarations child →
            ¬Flagged declarations trail child ∧ semanticTypeKey child ∈ validated)
          (ended : walk copies declarations fuel
            (standing declarations frame below trail validated rest) = some result) :
          Visits copies declarations trail validated (child :: rest) none ∧ result = none ∨
            ∃ after less, less ≤ fuel + 1 ∧
              Visits copies declarations trail validated (child :: rest) (some after) ∧
              walk copies declarations less (standing declarations frame below trail after [])
                = some result := by
        rcases ih fuel (by omega) ended with ⟨visits, none⟩ | ⟨after, less, fewer, visits, more⟩
        · exact .inl ⟨.passed passed visits, none⟩
        · exact .inr ⟨after, less, by omega, .passed passed visits, more⟩
      rw [walk_turn rfl, turn_cons] at ended
      split_ifs at ended with entered flagged known
      · exact .inl ⟨.flagged entered flagged, (Option.some.inj ended).symm⟩
      · exact go (fun _ => ⟨flagged, known⟩) ended
      · have enters : Enters declarations trail validated child := ⟨entered, flagged, known⟩
        rcases ih fuel (by omega) ended with ⟨visits, none⟩ | ⟨inner, less, fewer, visits, more⟩
        · exact .inl ⟨.inside enters visits, none⟩
        cases less with
        | zero => simp [walk] at more
        | succ less =>
          rw [walk_turn rfl, turn_done] at more
          rcases ih less (by omega) more with ⟨later, none⟩ | ⟨after, last, fewer', later, ended⟩
          · exact .inl ⟨.enter enters visits later, none⟩
          · exact .inr ⟨after, last, by omega, .enter enters visits later, ended⟩
      · exact go (fun enters => absurd enters entered) ended

end FoundationLang.Layout
