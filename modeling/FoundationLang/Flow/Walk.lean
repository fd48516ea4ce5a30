/-
**The walk over a body is sound.**

By induction over the syntax, every expression and statement that the walk accepts meets the
judgement for every track, and so does every function body with its closures.
-/

import FoundationLang.Flow.Joins

namespace FoundationLang.Flow

open Library

/-! ### Tests of loops -/

section Tests

variable {track : Track} {s : Analyzer} {test : Walked} {ends : Bool}

theorem tested_sound {ids : List Nat} (wf : WellFormed s) :
    Evaluates track s (.act (.tested ids)) s false := by
  refine ⟨⟨⟨wf, .refl _, fun _ => .inl, Follows.act ?_⟩, .of_flags fun _ _ _ => rfl⟩, rfl⟩
  refine fun marks env _ holds _ => ⟨by cases track <;> trivial, holds.marks, holds.scopes, ?_⟩
  exact holds.covered.congr rfl (Track.bad_congr rfl rfl)

theorem whileTest (wf : WellFormed s)
    (eval : Evaluates track s test.code test.state ends)
    (unmoved : ∀ id < s.locals.length,
      Track.moves.flag test.state id = true → Track.moves.flag s id = true)
    {marks : List Mark} (marked : Marked s marks) :
    Triple Env.step track.meets track.safe (Holds track s marks)
      (.seq test.code
        (.act (.tested (localsAny Action.storesResult test.code s.locals.length))))
      (onNormal (Post track test.state marks false) (Tested track s test.state marks)) := by
  refine Triple.seq (Holds track test.state marks) ?_ (Triple.act fun env holds met => ?_)
  · refine (eval.follows marks marked).consequence (fun _ holds => holds)
      fun exit env post => ?_
    cases exit with
    | normal => exact post.2
    | brk | cont => exact post
    | ret | stop => trivial
  · refine ⟨by cases track <;> trivial, ⟨holds.marks, holds.scopes,
      holds.covered.congr rfl (Track.bad_congr rfl rfl)⟩, fun id mem affected => ?_⟩
    rw [Track.bad_step (by rintro ⟨⟩)] at affected
    have inside := wf.bounded id mem
    have flagged := holds.covered id (by rwa [eval.scopes]) affected
    cases track with
    | moves => exact unmoved id inside flagged
    | results =>
      rcases eval.raises id inside flagged with already | stored
      · exact already
      · rw [met id (mem_localsAny.mpr ⟨inside, stored⟩)] at affected
        cases affected
    | drops => cases affected

theorem forTest {marks : List Mark} :
    Triple Env.step track.meets track.safe (Holds track s marks) .skip
      (onNormal (Post track s marks false) (Tested track s s marks)) :=
  Triple.skip fun _ holds => ⟨holds, holds.covered⟩

end Tests

/-! ### Bodies -/

section Bodies

variable {track : Track} {s : Analyzer} {captured body : Walked}

theorem Evaluates.bodySound {code : Code Action} {t : Analyzer} {ends : Bool}
    (eval : Evaluates track s code t ends) (none : s.scopes = []) :
    BodySound track code := by
  have marked : Marked s [] := ⟨List.nil_prefix, nofun⟩
  refine (eval.follows [] marked).consequence ?_ fun _ _ _ => trivial
  rintro _ rfl
  refine ⟨rfl, by rw [none]; exact .nil, ?_⟩
  rw [none]
  exact nofun

theorem functionBody_sound {parameters : List Declaration} {walk : Analyzer → Checked Walked}
    (wf : WellFormed s)
    (inner : ∀ state walked, WellFormed state → walk state = .ok walked →
      Transfer track state walked.code walked.state walked.returns)
    (ran : functionBody parameters walk s = .ok body) :
    Evaluates track s body.code body.state body.returns := by
  simp only [functionBody, bind_ok, require_ok, exists_const, pure_ok] at ran
  obtain ⟨_, walks, -, rfl⟩ := ran
  exact inScope_sound (fun _ => introducing_sound wf.opened inner) walks

theorem enterClosure_wellFormed {returnsVoid : Bool} :
    WellFormed (enterClosure s returnsVoid) :=
  ⟨rfl, rfl, List.Pairwise.nil, nofun⟩

theorem leaveClosure_sound {returnsVoid : Bool} {ends : Bool}
    (eval : Evaluates track s captured.code captured.state false)
    (inner : Evaluates track (enterClosure captured.state returnsVoid) body.code body.state ends) :
    Evaluates track s captured.code (leaveClosure captured.state body) false := by
  have flags (track : Track) :
      track.flag (leaveClosure captured.state body) = track.flag captured.state :=
    Track.flag_congr rfl rfl rfl
  have form := eval.wellFormed
  refine ⟨⟨⟨⟨form.outstanding, form.moves, form.ordered, form.bounded⟩,
    eval.ext.trans ⟨rfl, fun present => present, List.prefix_rfl, rfl, rfl⟩, ?_, ?_⟩,
    ?_, ?_, nofun⟩, eval.scopes⟩
  · intro code mem
    rcases List.mem_cons.mp mem with rfl | old
    · exact .inr (inner.bodySound rfl)
    · exact (inner.closures code old).elim (eval.closures code) .inr
  · refine eval.follows.weaken rfl List.prefix_rfl (fun _ id _ flagged => ?_) nofun
    rwa [flags]
  · intro track
    rw [flags]
    exact eval.clears track
  · rw [flags]
    exact eval.raises

end Bodies

/-! ### The induction -/

/-- The walk over an expression is sound, and does not get past one of type `never`. -/
def ExpressionSound (track : Track) (walk : Analyzer → Checked Walked) : Prop :=
  ∀ state walked, WellFormed state → walk state = .ok walked →
    Evaluates track state walked.code walked.state walked.returns
      ∧ (walked.type.isNever = true → walked.returns = true)

/-- The walk over a block meets the judgement. -/
def StatementsSound (track : Track) (walk : Analyzer → Checked Walked) : Prop :=
  ∀ state walked, WellFormed state → walk state = .ok walked →
    Transfer track state walked.code walked.state walked.returns

section Constructs

variable {track : Track} {state : Analyzer} {walked : Walked} {block : Stmts}

theorem value_never {type : FlowType} {panics : Bool} {code : Code Action} {late : List Nat} :
    (Walked.value state type panics code late).type.isNever = true →
      (Walked.value state type panics code late).returns = true := by
  intro never
  simp only [Walked.value] at never ⊢
  rw [never, Bool.true_or]

theorem mention_never {name : String} {use : ExpressionUse}
    (ran : mention name use state = .ok walked) :
    walked.type.isNever = true → walked.returns = true := by
  simp only [mention, bind_ok, require_ok, exists_const, pure_ok] at ran
  obtain ⟨_, -, -, -, -, rfl⟩ := ran
  exact value_never

theorem replaceTarget_never {p : Expr} {v target : Walked}
    (ran : replaceTarget state p v target = .ok walked) :
    walked.type.isNever = true → walked.returns = true := by
  simp only [replaceTarget, bind_ok, require_ok, exists_const, pure_ok] at ran
  obtain ⟨-, rfl⟩ := ran
  exact value_never

theorem panics_returns {e : Expr} {use : ExpressionUse} (panics : e.panics = true)
    (ran : analyzeExpression e use state = .ok walked) : walked.returns = true := by
  cases e with
  | operands =>
    rw [Expr.panics] at panics
    simp only [analyzeExpression, bind_ok, pure_ok] at ran
    obtain ⟨_, -, rfl⟩ := ran
    simp only [Walked.value, panics, Bool.or_true]
  | _ => cases panics

theorem forLoop_sound {declarations : List Declaration}
    (statements : StatementsSound track (analyzeStatements block)) (wf : WellFormed state)
    (ran : (do
        let body ← loopBody (introducing declarations (analyzeStatements block)) state
        let merged ← mergeLoop state body
        pure ({ state := merged, code := loopCode .skip body.code } : Walked)) = .ok walked) :
    Transfer track state walked.code walked.state walked.returns := by
  simp only [bind_ok, pure_ok] at ran
  obtain ⟨body, bodies, _, merges, rfl⟩ := ran
  have round := loopBody_sound wf (fun _ _ form => introducing_sound form statements) bodies
  exact (loop_sound merges wf round wf (.skip wf) (fun _ _ => forTest)
    fun _ _ moved => moved).toTransfer

theorem whileLoop_sound {test body : Walked} {merged : Analyzer} {ends : Bool}
    (eval : Evaluates track state test.code test.state ends) (wf : WellFormed state)
    (unmoved : test.state.movePrefix state = state.moveStates)
    (round : Round track test.state body) (merges : mergeLoop test.state body = .ok merged) :
    Evaluates track state (loopCode (.seq test.code
      (.act (.tested (localsAny Action.storesResult test.code state.locals.length)))) body.code)
      merged false := by
  have moves : ∀ id < state.locals.length,
      Track.moves.flag test.state id = true → Track.moves.flag state id = true := by
    intro id inside flagged
    rw [flag_moves_eq eval.ext inside, ← movePrefix_getD wf inside, unmoved] at flagged
    exact flagged
  exact loop_sound merges eval.wellFormed round wf
    (eval.seq (tested_sound eval.wellFormed))
    (fun _ => whileTest wf eval moves) moves

/-- How far a match or select has got: the state before its arms, the guards that were tried, and
the state now. -/
structure Between (track : Track) (before : Analyzer) (tests : Code Action) (state : Analyzer) :
    Prop where
  wellFormed : WellFormed state
  ext : Extends before state
  scopes : state.scopes = before.scopes
  closures : ∀ body ∈ state.closures, body ∈ before.closures ∨ BodySound track body
  tested : Evaluates track before tests (rewind before state) false

/-- Branches that are walked over without tests between them. -/
theorem Between.of_extends {s : Analyzer} (wellFormed : WellFormed s)
    (form : WellFormed state) (ext : Extends s state) (scopes : state.scopes = s.scopes)
    (closures : ∀ body ∈ state.closures, body ∈ s.closures ∨ BodySound track body) :
    Between track s .skip state where
  wellFormed := form
  ext := ext
  scopes := scopes
  closures := closures
  tested := by
    have same : Same s (rewind s state) :=
      ⟨rewind_wellFormed ext wellFormed form, ext.trans restoreStates_extends, scopes,
        fun track _ inside => rewind_flag ext track inside⟩
    exact same.evaluates closures (same.skip wellFormed)

theorem Between.refl (wf : WellFormed state) : Between track state .skip state :=
  .of_extends wf wf (.refl _) rfl fun _ => .inl

theorem Between.next {s : Analyzer} {tests failed : Code Action} {arm : Walked} {ends : Bool}
    (between : Between track s tests state) (wf : WellFormed s)
    (eval : Evaluates track (rewind s state) arm.code arm.state ends)
    (fails : Same (rewind s state) (rewind s arm.state) →
      Follows track (rewind s state) failed (rewind s arm.state) false) :
    Between track s (.seq tests failed) arm.state := by
  have ext : Extends state arm.state := restoreStates_extends.trans eval.ext
  have same : Same (rewind s state) (rewind s arm.state) :=
    .rewind wf eval.wellFormed between.ext ext eval.scopes
  refine ⟨eval.wellFormed, between.ext.trans ext, eval.scopes.trans between.scopes, ?_,
    (between.tested.seq (same.evaluates eval.closures (fails same)))⟩
  exact fun body mem => (eval.closures body mem).elim (between.closures body) .inr

theorem branch_sound {v : Expr}
    (statements : StatementsSound track (analyzeStatements block))
    (e : ExpressionSound track (analyzeExpression v .consume))
    (wf : WellFormed state)
    (ran : inScope (fun state => do
        let block ← analyzeStatements block state
        let v ← analyzeExpression v .consume block.state
        pure { v with returns := block.returns, code := .seq block.code v.code }) state
      = .ok walked) :
    Evaluates track state walked.code walked.state walked.returns := by
  simp only [inScope, bind_ok, pure_ok] at ran
  obtain ⟨_, ⟨x, blocks, y, values, rfl⟩, closes⟩ := ran
  have one := statements _ x wf.opened blocks
  have two := (e _ y one.wellFormed values).1
  obtain ⟨eval, returns, -⟩ := closeScope_sound (one.seq two.toTransfer) closes
  refine eval.forget fun ends => ?_
  rw [returns] at ends
  rw [ends, Bool.true_or]

theorem block_sound (statements : StatementsSound track (analyzeStatements block)) :
    ∀ state walked, WellFormed state → inScope (analyzeStatements block) state = .ok walked →
      Evaluates track state walked.code walked.state walked.returns :=
  fun _ _ wf ran =>
    inScope_sound (fun walked walks => statements _ walked wf.opened walks) ran

end Constructs

mutual

theorem analyzeExpression_sound (track : Track) : ∀ (e : Expr) (use : ExpressionUse),
    ExpressionSound track (analyzeExpression e use)
  | .literal type, use => by
    intro state walked wf ran
    simp only [analyzeExpression, pure_ok] at ran
    subst ran
    exact ⟨(Evaluates.skip wf).value, value_never⟩
  | .name name, use => by
    intro state walked wf ran
    rw [analyzeExpression] at ran
    exact ⟨mention_sound wf ran, mention_never ran⟩
  | .field base type, use => by
    intro state walked wf ran
    simp only [analyzeExpression, bind_ok, pure_ok] at ran
    obtain ⟨inner, walks, rfl⟩ := ran
    have one := (analyzeExpression_sound track base .inspect _ inner wf walks).1
    exact ⟨one.value, value_never⟩
  | .index base position type, use => by
    intro state walked wf ran
    simp only [analyzeExpression, bind_ok, pure_ok] at ran
    obtain ⟨x, walks, y, more, rfl⟩ := ran
    have one := (analyzeExpression_sound track base .inspect _ x wf walks).1
    have two := (analyzeExpression_sound track position .inspect _ y one.wellFormed more).1
    exact ⟨(one.seq (two.reads _)).value, value_never⟩
  | .operands args type panics aliases, use => by
    intro state walked wf ran
    simp only [analyzeExpression, bind_ok, pure_ok] at ran
    obtain ⟨inner, walks, rfl⟩ := ran
    have one := analyzeArguments_sound track args _ inner wf walks
    exact ⟨(one.reads _).value, value_never⟩
  | .callLocal callee args type, use => by
    intro state walked wf ran
    simp only [analyzeExpression, bind_ok, pure_ok] at ran
    obtain ⟨id, -, inner, walks, rfl⟩ := ran
    have one := analyzeArguments_sound track args _ inner wf walks
    exact ⟨(one.reads _).value, value_never⟩
  | .method base owns args type, use => by
    intro state walked wf ran
    simp only [analyzeExpression, bind_ok, pure_ok] at ran
    obtain ⟨x, walks, y, receives, third, more, rfl⟩ := ran
    have one := (analyzeExpression_sound track base .inspect _ x wf walks).1
    have two : Evaluates track x.state y.code y.state false := by
      refine receive_sound one.wellFormed receives ?_
      rintro name _ rfl found
      rw [analyzeExpression] at walks
      obtain ⟨_, -, known, -, unmoved, -⟩ := mention_inspect walks
      rw [known] at found
      cases found
      exact unmoved
    have three := analyzeArguments_sound track args _ third two.wellFormed more
    exact ⟨(one.seq (two.seq (three.reads _))).value, value_never⟩
  | .logical left right, use => by
    intro state walked wf ran
    simp only [analyzeExpression, bind_ok, pure_ok] at ran
    obtain ⟨x, walks, y, more, rfl⟩ := ran
    have one := (analyzeExpression_sound track left .inspect _ x wf walks).1
    have two := (analyzeExpression_sound track right .inspect _ y one.wellFormed more).1
    exact ⟨joinLogical_sound ⟨one.wellFormed, two.wellFormed, two.ext⟩ one (two.forget nofun), nofun⟩
  | .replace place v, use => by
    intro state walked wf ran
    simp only [analyzeExpression, bind_ok] at ran
    obtain ⟨x, walks, y, more, replaces⟩ := ran
    have one := (analyzeExpression_sound track v .consume _ x wf walks).1
    have two := (analyzeExpression_sound track place .inspect _ y one.wellFormed more).1
    refine ⟨replaceTarget_sound one two ?_ replaces, replaceTarget_never replaces⟩
    rintro _ rfl
    rwa [analyzeExpression] at more
  | .closure captures parameters returnsVoid body type, use => by
    intro state walked wf ran
    simp only [analyzeExpression, bind_ok, pure_ok, Prod.exists] at ran
    obtain ⟨captured, _, captures, _, bodies, rfl⟩ := ran
    have one : Evaluates track state captured.code captured.state false :=
      captureAll_sound wf captures
    have two := functionBody_sound enterClosure_wellFormed
      (analyzeStatements_sound track body) bodies
    exact ⟨(leaveClosure_sound one two).value, value_never⟩
  | .conditional condition thenBlock thenValue elseBlock elseValue, use => by
    intro state walked wf ran
    simp only [analyzeExpression] at ran
    rw [bind_ok] at ran
    obtain ⟨x, walks, ran⟩ := ran
    rw [bind_ok] at ran
    obtain ⟨_, joins, ran⟩ := ran
    rw [pure_ok] at ran
    subst ran
    have one := (analyzeExpression_sound track condition .consume _ x wf walks).1
    have two := twoBranches_sound one.wellFormed
      (fun _ => branch_sound (analyzeStatements_sound track thenBlock)
        (analyzeExpression_sound track thenValue .consume) one.wellFormed)
      (fun _ _ form => branch_sound (analyzeStatements_sound track elseBlock)
        (analyzeExpression_sound track elseValue .consume) form) joins
    exact ⟨(one.seq two).value, value_never⟩
  | .matchOn v arms, use => by
    intro state walked wf ran
    simp only [analyzeExpression, bind_ok, pure_ok] at ran
    obtain ⟨x, walks, y, more, rfl⟩ := ran
    have one := (analyzeExpression_sound track v .consume _ x wf walks).1
    have two := analyzeArms_sound track arms _ _ _ y one.wellFormed (.refl one.wellFormed) more
    exact ⟨(one.seq (joinArms_sound two.1 one.wellFormed)).value, value_never⟩

theorem analyzeArguments_sound (track : Track) : ∀ (args : Args) (state : Analyzer)
    (walked : Walked), WellFormed state → analyzeArguments args state = .ok walked →
    Evaluates track state walked.code walked.state false
  | .nil => by
    intro state walked wf ran
    simp only [analyzeArguments, pure_ok] at ran
    subst ran
    exact .skip wf
  | .cons use argument rest => by
    intro state walked wf ran
    simp only [analyzeArguments, bind_ok, pure_ok] at ran
    obtain ⟨x, walks, y, more, rfl⟩ := ran
    have one := (analyzeExpression_sound track argument use _ x wf walks).1
    have two := analyzeArguments_sound track rest _ y one.wellFormed more
    exact (one.seq two).forget nofun

theorem analyzeGuard_sound (track : Track) : ∀ (guard : OptExpr) (payload : Option Payload)
    (state : Analyzer) (walked : Walked), WellFormed state →
    analyzeGuard guard payload state = .ok walked →
    Evaluates track state walked.code walked.state false
      ∧ ∀ id < state.locals.length, Track.moves.flag walked.state id = Track.moves.flag state id
  | .none, payload => by
    intro state walked wf ran
    simp only [analyzeGuard, pure_ok] at ran
    subst ran
    exact ⟨.skip wf, fun _ _ => rfl⟩
  | .some guard, .none => by
    intro state walked wf ran
    simp only [analyzeGuard, bind_ok, require_ok, exists_const, pure_ok, beq_iff_eq] at ran
    obtain ⟨inner, walks, unmoved, rfl⟩ := ran
    have eval := (analyzeExpression_sound track guard .inspect _ inner wf walks).1
    exact guard_sound eval wf unmoved
  | .some guard, .some payload => by
    intro state walked wf ran
    simp only [analyzeGuard, bind_ok, require_ok, exists_const, pure_ok, beq_iff_eq] at ran
    obtain ⟨inner, walks, unmoved, rfl⟩ := ran
    have eval : Evaluates track state inner.code inner.state inner.returns := by
      refine inScope_sound (fun _ => introducing_sound wf.opened ?_) walks
      intro state walked form walks
      exact (analyzeExpression_sound track guard .inspect state walked form walks).1.toTransfer
    exact guard_sound eval wf unmoved

theorem analyzeTail_sound (track : Track) : ∀ (tail : OptExpr),
    ExpressionSound track (analyzeTail tail)
  | .none => by
    intro state walked wf ran
    simp only [analyzeTail, pure_ok] at ran
    subst ran
    exact ⟨.skip wf, nofun⟩
  | .some v => by
    intro state walked wf ran
    rw [analyzeTail] at ran
    exact analyzeExpression_sound track v .consume _ walked wf ran

theorem analyzeArms_sound (track : Track) : ∀ (arms : Arms) (s : Analyzer)
    (tests : Code Action) (state : Analyzer) (walked : Arms.Walked), WellFormed s →
    Between track s tests state → analyzeArms arms s tests state = .ok walked →
    ArmsSound track s walked ∧ state.locals <+: walked.state.locals
  | .nil => by
    intro s tests state walked wf between ran
    simp only [analyzeArms, pure_ok] at ran
    subst ran
    exact ⟨.nil between.wellFormed between.ext between.scopes between.closures, List.prefix_rfl⟩
  | .cons guard payload block tail rest => by
    intro s tests state walked wf between ran
    simp only [analyzeArms, bind_ok, pure_ok] at ran
    obtain ⟨guarded, guards, bound, binds, x, blocks, v, values, arm, closes, others, more,
      rfl⟩ := ran
    have started : WellFormed (rewind s state) :=
      rewind_wellFormed between.ext wf between.wellFormed
    obtain ⟨guardSound, unmoved⟩ :=
      analyzeGuard_sound track guard payload _ guarded started.opened guards
    have boundSound := introduceAll_sound track guardSound.wellFormed binds
    have blockSound := analyzeStatements_sound track block _ x boundSound.wellFormed blocks
    obtain ⟨valueSound, never⟩ := analyzeTail_sound track tail _ v blockSound.wellFormed values
    have whole := guardSound.toTransfer.seq
      (boundSound.seq (blockSound.seq valueSound.toTransfer))
    obtain ⟨armSound, returns, -⟩ := closeScope_sound whole closes
    have terminates : arm.returns = true →
        (false || (false || (x.returns || v.returns))) = true := by
      rw [returns, Bool.false_or, Bool.false_or, Bool.or_eq_true, Bool.or_eq_true]
      exact fun ends => ends.imp_right never
    have ext : Extends state arm.state := restoreStates_extends.trans armSound.ext
    have later : guarded.state.locals <+: arm.state.locals := by
      simp only [closeScope, Analyzer.reportScope, bind_ok, require_ok, exists_const, pure_ok]
        at closes
      obtain ⟨-, rfl⟩ := closes
      exact boundSound.ext.locals.trans (blockSound.ext.locals.trans valueSound.ext.locals)
    have others := fun next =>
      analyzeArms_sound track rest s _ arm.state others wf next more
    obtain ⟨restSound, longer⟩ := others <| between.next wf armSound fun same => by
      cases guard with
      | none => exact same.skip started
      | some => exact guardFailure_follows started le_rfl guardSound unmoved same later
    exact ⟨.cons between.tested armSound terminates wf restSound longer,
      ext.locals.trans longer⟩

theorem analyzeOperations_sound (track : Track) : ∀ (operations : Operations),
    ∀ state walked, WellFormed state → analyzeOperations operations state = .ok walked →
      Transfer track state walked.code walked.state false
  | .nil => by
    intro state walked wf ran
    simp only [analyzeOperations, pure_ok] at ran
    subst ran
    exact (Evaluates.skip wf).toTransfer
  | .cons operation storages rest => by
    intro state walked wf ran
    simp only [analyzeOperations, bind_ok, pure_ok] at ran
    obtain ⟨x, walks, stored, stores, later, more, rfl⟩ := ran
    have one := (analyzeExpression_sound track operation .consume _ x wf walks).1
    have two := introduceAll_sound track one.wellFormed stores
    have three := analyzeOperations_sound track rest _ later two.wellFormed more
    exact (one.toTransfer.seq (two.seq three)).forget nofun

theorem analyzeBranches_sound (track : Track) : ∀ (branches : Branches) (s state : Analyzer)
    (walked : Arms.Walked), WellFormed s → Between track s .skip state →
    analyzeBranches branches s state = .ok walked →
    ArmsSound track s walked ∧ state.locals <+: walked.state.locals
  | .nil => by
    intro s state walked wf between ran
    simp only [analyzeBranches, pure_ok] at ran
    subst ran
    exact ⟨.nil between.wellFormed between.ext between.scopes between.closures, List.prefix_rfl⟩
  | .cons binding body rest => by
    intro s state walked wf between ran
    simp only [analyzeBranches, bind_ok, pure_ok] at ran
    obtain ⟨branch, walks, others, more, rfl⟩ := ran
    have started : WellFormed (rewind s state) :=
      rewind_wellFormed between.ext wf between.wellFormed
    have branchSound : Evaluates track (rewind s state) branch.code branch.state branch.returns :=
      inScope_sound (fun _ => introducing_sound started.opened
        (analyzeStatements_sound track body)) walks
    have ext : Extends state branch.state := restoreStates_extends.trans branchSound.ext
    have next : Between track s .skip branch.state := by
      refine .of_extends wf branchSound.wellFormed (between.ext.trans ext)
        (branchSound.scopes.trans between.scopes) fun code mem => ?_
      exact (branchSound.closures code mem).elim (between.closures code) .inr
    obtain ⟨restSound, longer⟩ :=
      analyzeBranches_sound track rest s branch.state others wf next more
    exact ⟨.cons between.tested branchSound (fun ends => ends) wf restSound longer,
      ext.locals.trans longer⟩

theorem analyzeStatement_sound (track : Track) : ∀ (statement : Stmt),
    StatementsSound track (analyzeStatement statement)
  | .variableStatement binding initializer storages => by
    intro state walked wf ran
    simp only [analyzeStatement, bind_ok, pure_ok] at ran
    obtain ⟨v, walks, stored, stores, bound, binds, rfl⟩ := ran
    have one := (analyzeExpression_sound track initializer .consume _ v wf walks).1
    have two := introduceAll_sound track one.wellFormed stores
    have three := introduce_sound track two.wellFormed binds
    exact (one.toTransfer.seq (two.seq three)).forget nofun
  | .constElse binding initializer error elseBlock => by
    intro state walked wf ran
    simp only [analyzeStatement, bind_ok, require_ok, exists_const, pure_ok] at ran
    obtain ⟨v, walks, -, handled, handles, bound, binds, rfl⟩ := ran
    have one := (analyzeExpression_sound track initializer .consume _ v wf walks).1
    have two := orElse_sound one.wellFormed (analyzeStatements_sound track elseBlock) handles
    have three := introduce_sound track two.wellFormed binds
    exact (one.toTransfer.seq (two.toTransfer.seq three)).forget nofun
  | .structDestructure initializer bindings => by
    intro state walked wf ran
    simp only [analyzeStatement, bind_ok, pure_ok] at ran
    obtain ⟨v, walks, bound, binds, rfl⟩ := ran
    have one := (analyzeExpression_sound track initializer .consume _ v wf walks).1
    have two := introduceAll_sound track one.wellFormed binds
    exact (one.toTransfer.seq two).forget nofun
  | .assignName name v => by
    intro state walked wf ran
    simp only [analyzeStatement, bind_ok] at ran
    obtain ⟨stored, walks, assigns⟩ := ran
    have one := (analyzeExpression_sound track v .consume _ stored wf walks).1
    have returns : walked.returns = false := by
      simp only [assign, bind_ok, require_ok, exists_const, pure_ok] at assigns
      obtain ⟨_, -, -, rfl⟩ := assigns
      rfl
    rw [returns]
    exact (assign_sound one assigns).toTransfer
  | .assignPlace target v => by
    intro state walked wf ran
    simp only [analyzeStatement, bind_ok, pure_ok] at ran
    obtain ⟨place, walks, stored, more, rfl⟩ := ran
    have one := (analyzeExpression_sound track target .inspect _ place wf walks).1
    have two := (analyzeExpression_sound track v .consume _ stored one.wellFormed more).1
    exact ((assignTo_sound one two wf).reads _).toTransfer
  | .compoundAssign target v => by
    intro state walked wf ran
    simp only [analyzeStatement, bind_ok, pure_ok] at ran
    obtain ⟨place, walks, stored, more, rfl⟩ := ran
    have one := (analyzeExpression_sound track target .inspect _ place wf walks).1
    have two := (analyzeExpression_sound track v .inspect _ stored one.wellFormed more).1
    exact (one.seq (two.reads _)).toTransfer.forget nofun
  | .resultElse result storages error elseBlock => by
    intro state walked wf ran
    simp only [analyzeStatement, bind_ok, require_ok, exists_const, pure_ok] at ran
    obtain ⟨v, walks, -, stored, stores, handled, handles, rfl⟩ := ran
    have one := (analyzeExpression_sound track result .consume _ v wf walks).1
    have two := introduceAll_sound track one.wellFormed stores
    have three := orElse_sound two.wellFormed (analyzeStatements_sound track elseBlock) handles
    exact (one.toTransfer.seq (two.seq three.toTransfer)).forget nofun
  | .expression expression storages => by
    intro state walked wf ran
    simp only [analyzeStatement, bind_ok] at ran
    obtain ⟨v, walks, stored, stores, leaves⟩ := ran
    have one := (analyzeExpression_sound track expression .consume _ v wf walks).1
    have two := introduceAll_sound track one.wellFormed stores
    have both := one.toTransfer.seq two
    rw [Bool.or_false] at both
    exact leaveBehind_sound both leaves
  | .returnStatement .none tail => by
    intro state walked wf ran
    simp only [analyzeStatement, bind_ok, require_ok, exists_const] at ran
    exact leaveFunction_sound (Evaluates.skip wf).toTransfer ran.2
  | .returnStatement (.some v) tail => by
    intro state walked wf ran
    simp only [analyzeStatement, bind_ok] at ran
    obtain ⟨returned, walks, ran⟩ := ran
    have one := (analyzeExpression_sound track v .consume _ returned wf walks).1
    split at ran
    · exact leaveBehind_sound one.toTransfer ran
    split at ran
    · rename_i panics
      rw [pure_ok] at ran
      subst ran
      rw [panics_returns panics walks] at one
      exact one.toTransfer.panics
    · simp only [bind_ok, require_ok, exists_const] at ran
      exact leaveFunction_sound one.toTransfer ran.2
  | .discard v storages => by
    intro state walked wf ran
    simp only [analyzeStatement, bind_ok, pure_ok] at ran
    obtain ⟨dropped, walks, stored, stores, rfl⟩ := ran
    have one := (analyzeExpression_sound track v .consume _ dropped wf walks).1
    have two := introduceAll_sound track one.wellFormed stores
    exact (one.toTransfer.seq two).forget nofun
  | .unsafeStatement body => by
    intro state walked wf ran
    rw [analyzeStatement] at ran
    exact (block_sound (analyzeStatements_sound track body) _ _ wf ran).toTransfer
  | .breakStatement => by
    intro state walked wf ran
    rw [analyzeStatement] at ran
    exact (loopJump_sound wf (.inl rfl) ran).toTransfer
  | .continueStatement => by
    intro state walked wf ran
    rw [analyzeStatement] at ran
    exact (loopJump_sound wf (.inr rfl) ran).toTransfer
  | .ifStatement condition thenBlock elseBlock => by
    intro state walked wf ran
    simp only [analyzeStatement, bind_ok, pure_ok] at ran
    obtain ⟨test, walks, branches, joins, rfl⟩ := ran
    have one := (analyzeExpression_sound track condition .consume _ test wf walks).1
    have two := twoBranches_sound one.wellFormed
      (fun _ => block_sound (analyzeStatements_sound track thenBlock) _ _ one.wellFormed)
      (analyzeElse_sound track elseBlock) joins
    refine ((one.seq two).forget fun ends => ?_).toTransfer
    rw [ends, Bool.or_true]
  | .forStatement sequence storage index v body => by
    intro state walked wf ran
    simp only [analyzeStatement] at ran
    rw [bind_ok] at ran
    obtain ⟨counted, walks, ran⟩ := ran
    rw [bind_ok] at ran
    obtain ⟨loop, loops, ran⟩ := ran
    rw [pure_ok] at ran
    subst ran
    have one := (analyzeExpression_sound track sequence .inspect _ counted wf walks).1
    have two : Evaluates track counted.state loop.code loop.state loop.returns := by
      refine inScope_sound (fun _ => introducing_sound one.wellFormed.opened ?_) loops
      exact fun _ _ form => forLoop_sound (analyzeStatements_sound track body) form
    exact (one.seq two).toTransfer.forget nofun
  | .select timeout operations branches => by
    intro state walked wf ran
    simp only [analyzeStatement, bind_ok, pure_ok] at ran
    obtain ⟨duration, lasts, started, starts, arms, walks, deadline, declares, rfl⟩ := ran
    have zero := (analyzeTail_sound track timeout _ duration wf lasts).1
    have one := startSelect_sound zero
      (analyzeOperations_sound track operations _ started zero.wellFormed starts) wf
    have reads := (@accesses_sound track _ one.wellFormed started.late).toTransfer
    have two := joinSelect_sound (analyzeBranches_sound track branches _ _ arms one.wellFormed
      (.refl one.wellFormed) walks).1 one.wellFormed
    have three := introduce_sound track two.wellFormed declares
    refine ((one.seq reads).seq (two.toTransfer.seq three)).forget fun ends => ?_
    rwa [Bool.or_false, Bool.false_or, Bool.or_false]
  | .whileStatement condition body => by
    intro state walked wf ran
    simp only [analyzeStatement, bind_ok, require_ok, exists_const, pure_ok, beq_iff_eq] at ran
    obtain ⟨test, walks, unmoved, round, rounds, _, merges, rfl⟩ := ran
    have one := (analyzeExpression_sound track condition .consume _ test wf walks).1
    have two := loopBody_sound one.wellFormed (analyzeStatements_sound track body) rounds
    exact (whileLoop_sound one wf unmoved two merges).toTransfer

theorem analyzeElse_sound (track : Track) : ∀ (block : OptStmts),
    ∀ state walked, WellFormed state → analyzeElse block state = .ok walked →
      Evaluates track state walked.code walked.state walked.returns
  | .none => by
    intro state walked wf ran
    simp only [analyzeElse, pure_ok] at ran
    subst ran
    exact .skip wf
  | .some block => by
    intro state walked wf ran
    rw [analyzeElse] at ran
    exact block_sound (analyzeStatements_sound track block) _ _ wf ran

theorem analyzeStatements_sound (track : Track) : ∀ (block : Stmts),
    StatementsSound track (analyzeStatements block)
  | .nil => by
    intro state walked wf ran
    simp only [analyzeStatements, pure_ok] at ran
    subst ran
    exact (Evaluates.skip wf).toTransfer
  | .cons x rest => by
    intro state walked wf ran
    simp only [analyzeStatements, bind_ok, pure_ok] at ran
    obtain ⟨here, walks, later, more, rfl⟩ := ran
    have one := analyzeStatement_sound track x _ here wf walks
    exact one.seq (analyzeStatements_sound track rest _ later one.wellFormed more)

end

/-- **The analysis is sound**: every body of an accepted function is. -/
theorem analyzeFunction_sound (track : Track) {function : Function} {bodies : List (Code Action)}
    (ran : analyzeFunction function = .ok bodies) : ∀ body ∈ bodies, BodySound track body := by
  simp only [analyzeFunction, bind_ok, pure_ok] at ran
  obtain ⟨_, walks, rfl⟩ := ran
  have empty : WellFormed { scopes := [], returnsVoid := function.returnsVoid } :=
    ⟨rfl, rfl, List.Pairwise.nil, nofun⟩
  have eval := functionBody_sound empty (analyzeStatements_sound track function.body) walks
  intro body mem
  rcases List.mem_cons.mp mem with rfl | closure
  · exact eval.bodySound rfl
  · exact (eval.closures body closure).resolve_left nofun

end FoundationLang.Flow
