/-
**Structured control flow over abstract actions.**

A small language of structured code over a type of actions, its paths, and triples about them.
Nothing here says what an action does: a state type and a step function are supplied by the user.

* `Code` — actions in sequence, choice, loops and jumps.
* `Path code trace exit` — the code performs the actions of `trace` and then leaves by `exit`, for
  some outcome of every choice and some number of rounds of every loop. A path may stop anywhere, so
  the traces of a code are closed under prefixes and cover runs that never end.
* `Triple` — a path that starts in a state of the precondition, and all of whose steps meet the
  assumption, has only safe steps and leaves by an exit whose postcondition holds.

The rules `Triple.seq`, `Triple.either`, `Triple.loop` and so on prove triples along the code.
-/

import Mathlib.Data.List.Basic

namespace FoundationLang.Library

/-! ### Code and its paths -/

/-- How a piece of code is left. `stop` is a path that goes no further. -/
inductive Exit
  | normal | brk | cont | ret | stop
deriving DecidableEq, Repr, Inhabited

/-- Structured code. -/
inductive Code (α : Type)
  | skip
  | act (action : α)
  | seq (first second : Code α)
  | either (left right : Code α)
  | loop (guard body : Code α)
  | jump (exit : Exit)
deriving DecidableEq, Repr, Inhabited

/-- Several pieces of code in a row. -/
def Code.all {α : Type} : List (Code α) → Code α
  | [] => .skip
  | first :: rest => .seq first (Code.all rest)

/-- Several actions in a row. -/
def Code.acts {α : Type} (actions : List α) : Code α :=
  Code.all (actions.map .act)

/-- Every way through the code that ends normally performs an action of this kind. -/
def Code.always {α : Type} (kind : α → Bool) : Code α → Bool
  | .skip => false
  | .act action => kind action
  | .seq first second => first.always kind || second.always kind
  | .either left right => left.always kind && right.always kind
  | .loop guard _ => guard.always kind
  | .jump _ => true

/-- The code has an action of this kind. -/
def Code.any {α : Type} (kind : α → Bool) : Code α → Bool
  | .skip | .jump _ => false
  | .act action => kind action
  | .seq first second | .either first second | .loop first second =>
    first.any kind || second.any kind

/-- The actions of a code without jumps and branches. -/
def Code.straight {α : Type} : Code α → Option (List α)
  | .skip => some []
  | .act action => some [action]
  | .seq first second => do
    let before ← first.straight
    let after ← second.straight
    pure (before ++ after)
  | .either _ _ | .loop _ _ | .jump _ => none

theorem Code.straight_seq {α : Type} {first second : Code α} {actions : List α}
    (straight : (Code.seq first second).straight = some actions) :
    ∃ before after, first.straight = some before ∧ second.straight = some after
      ∧ actions = before ++ after := by
  simp only [Code.straight, Option.bind_eq_bind, Option.bind_eq_some_iff, Option.pure_def,
    Option.some.injEq] at straight
  obtain ⟨before, one, after, two, rfl⟩ := straight
  exact ⟨before, after, one, two, rfl⟩

theorem Code.always_of_straight {α : Type} (kind : α → Bool) {code : Code α} {actions : List α}
    (straight : code.straight = some actions) : code.always kind = actions.any kind := by
  induction code generalizing actions with
  | skip | act => cases straight; simp [Code.always]
  | either | loop | jump => cases straight
  | seq first second one two =>
    obtain ⟨_, _, first, second, rfl⟩ := Code.straight_seq straight
    rw [Code.always, one first, two second, List.any_append]

theorem Code.any_of_straight {α : Type} (kind : α → Bool) {code : Code α} {actions : List α}
    (straight : code.straight = some actions) : code.any kind = actions.any kind := by
  induction code generalizing actions with
  | skip | act => cases straight; simp [Code.any]
  | either | loop | jump => cases straight
  | seq first second one two =>
    obtain ⟨_, _, first, second, rfl⟩ := Code.straight_seq straight
    rw [Code.any, one first, two second, List.any_append]

theorem Code.straight_acts {α : Type} (actions : List α) :
    (Code.acts actions).straight = some actions := by
  induction actions with
  | nil => rfl
  | cons action rest ih =>
    simp only [Code.acts] at ih
    simp [Code.acts, Code.all, Code.straight, ih]

/-- **The control-flow paths of a code.** -/
inductive Path {α : Type} : Code α → List α → Exit → Prop
  | stop {code : Code α} : Path code [] .stop
  | skip : Path .skip [] .normal
  | act {action : α} : Path (.act action) [action] .normal
  | seq {first second : Code α} {before after : List α} {exit : Exit}
    (one : Path first before .normal) (two : Path second after exit) :
    Path (.seq first second) (before ++ after) exit
  | seqExit {first second : Code α} {trace : List α} {exit : Exit}
    (one : Path first trace exit) (left : exit ≠ .normal) : Path (.seq first second) trace exit
  | eitherLeft {left right : Code α} {trace : List α} {exit : Exit} (one : Path left trace exit) :
    Path (.either left right) trace exit
  | eitherRight {left right : Code α} {trace : List α} {exit : Exit} (two : Path right trace exit) :
    Path (.either left right) trace exit
  | loopEnd {guard body : Code α} {trace : List α} (last : Path guard trace .normal) :
    Path (.loop guard body) trace .normal
  | loopGuard {guard body : Code α} {trace : List α} {exit : Exit} (test : Path guard trace exit)
    (left : exit ≠ .normal) : Path (.loop guard body) trace exit
  | loopRound {guard body : Code α} {test round rest : List α} {middle exit : Exit}
    (tested : Path guard test .normal) (ran : Path body round middle)
    (again : middle = .normal ∨ middle = .cont) (later : Path (.loop guard body) rest exit) :
    Path (.loop guard body) (test ++ round ++ rest) exit
  | loopBreak {guard body : Code α} {test round : List α} (tested : Path guard test .normal)
    (ran : Path body round .brk) : Path (.loop guard body) (test ++ round) .normal
  | loopExit {guard body : Code α} {test round : List α} {exit : Exit}
    (tested : Path guard test .normal) (ran : Path body round exit)
    (left : exit = .ret ∨ exit = .stop) : Path (.loop guard body) (test ++ round) exit
  | jump {exit : Exit} : Path (.jump exit) [] exit

/-- One path, by its choices: `true` takes the left branch, or another round of a loop. The choices
that are left come last; without any, the right branch is taken and no round. -/
def Code.follow {α : Type} : Nat → Code α → List Bool → Option (List α × Exit × List Bool)
  | 0, _, _ => none
  | _ + 1, .skip, choices => some ([], .normal, choices)
  | _ + 1, .act action, choices => some ([action], .normal, choices)
  | _ + 1, .jump exit, choices => some ([], exit, choices)
  | fuel + 1, .seq first second, choices => do
    let (before, exit, choices) ← first.follow fuel choices
    if exit = .normal then
      let (after, exit, choices) ← second.follow fuel choices
      pure (before ++ after, exit, choices)
    else pure (before, exit, choices)
  | fuel + 1, .either left right, choices =>
    match choices with
    | true :: choices => left.follow fuel choices
    | _ => right.follow fuel choices.tail
  | fuel + 1, .loop guard body, choices => do
    let (test, exit, choices) ← guard.follow fuel choices
    if exit ≠ .normal then pure (test, exit, choices)
    else match choices with
    | true :: choices => do
      let (round, exit, choices) ← body.follow fuel choices
      match exit with
      | .normal | .cont => do
        let (rest, exit, choices) ← (Code.loop guard body).follow fuel choices
        pure (test ++ round ++ rest, exit, choices)
      | .brk => pure (test ++ round, .normal, choices)
      | .ret | .stop => pure (test ++ round, exit, choices)
    | _ => pure (test, .normal, choices.tail)

theorem Code.follow_path {α : Type} {fuel : Nat} {code : Code α} {choices rest : List Bool}
    {trace : List α} {exit : Exit} (follows : code.follow fuel choices = some (trace, exit, rest)) :
    Path code trace exit := by
  induction fuel generalizing code choices trace exit rest with
  | zero => cases follows
  | succ fuel ih =>
    cases code with
    | skip => cases follows; exact .skip
    | act => cases follows; exact .act
    | jump => cases follows; exact .jump
    | seq =>
      simp only [Code.follow, Option.bind_eq_bind, Option.bind_eq_some_iff, Prod.exists] at follows
      obtain ⟨_, m, later, one, follows⟩ := follows
      split at follows
      · rename_i normal
        subst normal
        obtain ⟨⟨_, last, others⟩, two, done⟩ := Option.bind_eq_some_iff.mp follows
        cases done
        exact .seq (ih one) (ih two)
      · rename_i left
        cases follows
        exact .seqExit (ih one) left
    | either =>
      simp only [Code.follow] at follows
      split at follows
      · exact .eitherLeft (ih follows)
      · exact .eitherRight (ih follows)
    | loop =>
      simp only [Code.follow, Option.bind_eq_bind, Option.bind_eq_some_iff, Prod.exists] at follows
      obtain ⟨_, _, _, one, follows⟩ := follows
      split at follows
      · rename_i left
        cases follows
        exact .loopGuard (ih one) left
      rename_i normal
      rw [not_not] at normal
      subst normal
      split at follows
      · obtain ⟨⟨_, m, _⟩, two, follows⟩ := Option.bind_eq_some_iff.mp follows
        cases m with
        | normal =>
          obtain ⟨⟨last, final, others⟩, three, done⟩ := Option.bind_eq_some_iff.mp follows
          cases done
          exact .loopRound (ih one) (ih two) (.inl rfl) (ih three)
        | cont =>
          obtain ⟨⟨_, _, _⟩, three, done⟩ := Option.bind_eq_some_iff.mp follows
          cases done
          exact .loopRound (ih one) (ih two) (.inr rfl) (ih three)
        | brk =>
          cases follows
          exact .loopBreak (ih one) (ih two)
        | ret =>
          cases follows
          exact .loopExit (ih one) (ih two) (.inl rfl)
        | stop =>
          cases follows
          exact .loopExit (ih one) (ih two) (.inr rfl)
      · cases follows
        exact .loopEnd (ih one)

/-! ### Running a trace -/

section Machine

variable {α S : Type} (step : α → S → S)

/-- The state after a trace. -/
def run (state : S) (trace : List α) : S :=
  trace.foldl (fun state action => step action state) state

/-- The property holds at every step of the trace, of the action and the state before it. -/
def Along (property : α → S → Prop) : S → List α → Prop
  | _, [] => True
  | state, action :: rest => property action state ∧ Along property (step action state) rest

instance decidableAlong (property : α → S → Prop) [∀ action state, Decidable (property action state)] :
    ∀ state trace, Decidable (Along step property state trace)
  | _, [] => .isTrue trivial
  | state, action :: rest =>
    have := decidableAlong property (step action state) rest
    inferInstanceAs (Decidable (property action state ∧ Along step property (step action state) rest))

@[simp] theorem run_nil (state : S) : run step state [] = state := rfl

@[simp] theorem run_cons (s : S) (action : α) (rest : List α) :
    run step s (action :: rest) = run step (step action s) rest := rfl

@[simp] theorem run_append (state : S) (s after : List α) :
    run step state (s ++ after) = run step (run step state s) after :=
  List.foldl_append

variable {step}

theorem along_append {property : α → S → Prop} {state : S} {s after : List α} :
    Along step property state (s ++ after)
      ↔ Along step property state s ∧ Along step property (run step state s) after := by
  induction s generalizing state with
  | nil => simp [Along]
  | cons action rest ih =>
    rw [List.cons_append, Along, Along, ih, run_cons, and_assoc]

theorem along_iff {property : α → S → Prop} {s : S} {trace : List α} :
    Along step property s trace
      ↔ ∀ before action after, trace = before ++ action :: after →
        property action (run step s before) := by
  induction trace generalizing s with
  | nil => simp [Along]
  | cons first rest ih =>
    rw [Along, ih]
    constructor
    · rintro ⟨here, later⟩ before action after split
      cases before with
      | nil =>
        cases split
        exact here
      | cons y before =>
        cases split
        exact later before action after rfl
    · intro all
      exact ⟨all [] first rest rfl, fun before action after split =>
        all (first :: before) action after (by rw [split, List.cons_append])⟩

/-! ### Triples -/

variable (step) in
/-- **A triple.** `meets` is assumed of every step, `safe` is proved of every step, and `post` holds
at every exit other than `stop`. -/
def Triple (meets safe : α → S → Prop) (pre : S → Prop) (code : Code α)
    (post : Exit → S → Prop) : Prop :=
  ∀ state trace exit, Path code trace exit → pre state → Along step meets state trace →
    Along step safe state trace ∧ (exit ≠ .stop → post exit (run step state trace))

/-- A postcondition with another normal exit. -/
def onNormal (post : Exit → S → Prop) (normal : S → Prop) : Exit → S → Prop
  | .normal => normal
  | exit => post exit

@[simp] theorem onNormal_normal (post : Exit → S → Prop) (normal : S → Prop) :
    onNormal post normal .normal = normal := rfl

theorem onNormal_of_ne (post : Exit → S → Prop) (normal : S → Prop) {exit : Exit}
    (left : exit ≠ .normal) : onNormal post normal exit = post exit := by
  cases exit with
  | normal => exact absurd rfl left
  | brk | cont | ret | stop => rfl

variable {meets safe : α → S → Prop} {pre : S → Prop} {post : Exit → S → Prop}
  {first second guard body : Code α}

theorem Triple.consequence {pre' : S → Prop} {post' : Exit → S → Prop}
    (triple : Triple step meets safe pre first post) (stronger : ∀ state, pre' state → pre state)
    (weaker : ∀ exit state, post exit state → post' exit state) :
    Triple step meets safe pre' first post' := by
  intro state trace exit path start met
  obtain ⟨steps, final⟩ := triple state trace exit path (stronger state start) met
  exact ⟨steps, fun running => weaker exit _ (final running)⟩

theorem Triple.of_state
    (each : ∀ state, pre state → Triple step meets safe (· = state) first post) :
    Triple step meets safe pre first post :=
  fun state trace exit path start met => each state start state trace exit path rfl met

theorem Triple.skip (done : ∀ state, pre state → post .normal state) :
    Triple step meets safe pre .skip post := by
  intro state trace exit path start _
  cases path with
  | stop => exact ⟨trivial, fun running => absurd rfl running⟩
  | skip => exact ⟨trivial, fun _ => done state start⟩

theorem Triple.act {action : α}
    (performs : ∀ state, pre state → meets action state →
      safe action state ∧ post .normal (step action state)) :
    Triple step meets safe pre (.act action) post := by
  intro state trace exit path start met
  cases path with
  | stop => exact ⟨trivial, fun running => absurd rfl running⟩
  | act =>
    obtain ⟨here, final⟩ := performs state start met.1
    exact ⟨⟨here, trivial⟩, fun _ => final⟩

theorem Triple.jump {exit : Exit} (leaves : ∀ state, pre state → post exit state) :
    Triple step meets safe pre (.jump exit) post := by
  intro state trace exit path start _
  cases path with
  | stop => exact ⟨trivial, fun running => absurd rfl running⟩
  | jump => exact ⟨trivial, fun _ => leaves state start⟩

/-- The rule of sequence. -/
theorem Triple.seq (m : S → Prop)
    (one : Triple step meets safe pre first (onNormal post m))
    (two : Triple step meets safe m second post) :
    Triple step meets safe pre (.seq first second) post := by
  intro state trace exit path start met
  cases path with
  | stop => exact ⟨trivial, fun running => absurd rfl running⟩
  | seq before after =>
    rw [along_append] at met ⊢
    obtain ⟨steps, between⟩ := one state _ _ before start met.1
    obtain ⟨more, final⟩ := two _ _ _ after (between (by decide)) met.2
    exact ⟨⟨steps, more⟩, by rwa [run_append]⟩
  | seqExit only left =>
    obtain ⟨steps, final⟩ := one state _ _ only start met
    rw [onNormal_of_ne post m left] at final
    exact ⟨steps, final⟩

theorem Triple.either (one : Triple step meets safe pre first post)
    (two : Triple step meets safe pre second post) :
    Triple step meets safe pre (.either first second) post := by
  intro state trace exit path start met
  cases path with
  | stop => exact ⟨trivial, fun running => absurd rfl running⟩
  | eitherLeft path => exact one state _ _ path start met
  | eitherRight path => exact two state _ _ path start met

/-- The postcondition of a loop body: another round, or the end of the loop. -/
def bodyPost (invariant : S → Prop) (post : Exit → S → Prop) : Exit → S → Prop
  | .normal => invariant
  | .cont => invariant
  | .brk => post .normal
  | .ret => post .ret
  | .stop => post .stop

/-- **The rule of loops.** The invariant holds before each test, `middle` after it; the body
restores the invariant, whether it ends or continues, and breaks into the postcondition. -/
theorem Triple.loop (inv m : S → Prop)
    (test : Triple step meets safe inv guard (onNormal post m))
    (ends : ∀ state, m state → post .normal state)
    (round : Triple step meets safe m body (bodyPost inv post)) :
    Triple step meets safe inv (.loop guard body) post := by
  intro state trace exit path start met
  generalize whole : Code.loop guard body = code at path
  induction path generalizing state with
  | stop => exact ⟨trivial, fun running => absurd rfl running⟩
  | skip | act | seq | seqExit | eitherLeft | eitherRight | jump => cases whole
  | loopEnd last =>
    cases whole
    obtain ⟨steps, final⟩ := test state _ _ last start met
    exact ⟨steps, fun _ => ends _ (final (by decide))⟩
  | loopGuard only left =>
    cases whole
    obtain ⟨steps, final⟩ := test state _ _ only start met
    rw [onNormal_of_ne post m left] at final
    exact ⟨steps, final⟩
  | loopRound tested ran again _ _ _ ih =>
    cases whole
    rw [along_append, along_append] at met
    obtain ⟨steps, between⟩ := test state _ _ tested start met.1.1
    obtain ⟨more, after⟩ := round _ _ _ ran (between (by decide)) met.1.2
    rw [run_append] at met
    obtain ⟨rest, final⟩ := ih _ (by
      rcases again with rfl | rfl
      · exact after (by decide)
      · exact after (by decide)) met.2 rfl
    simp only [along_append, run_append]
    exact ⟨⟨⟨steps, more⟩, rest⟩, final⟩
  | loopBreak tested ran =>
    cases whole
    rw [along_append] at met ⊢
    obtain ⟨steps, between⟩ := test state _ _ tested start met.1
    obtain ⟨more, after⟩ := round _ _ _ ran (between (by decide)) met.2
    exact ⟨⟨steps, more⟩, by rw [run_append]; exact fun _ => after (by decide)⟩
  | loopExit tested ran left =>
    cases whole
    rw [along_append] at met ⊢
    obtain ⟨steps, between⟩ := test state _ _ tested start met.1
    obtain ⟨more, after⟩ := round _ _ _ ran (between (by decide)) met.2
    refine ⟨⟨steps, more⟩, ?_⟩
    rw [run_append]
    rcases left with rfl | rfl
    · exact after
    · exact fun running => absurd rfl running

end Machine

end FoundationLang.Library
