/-
**The walk's own steps are sound.**

Each definition that the walk is made of, from `mention` to `mergeLoop`, meets the judgement of
`Flow.Judgement`, for every track at once. What a walk does to the flags is needed beside it, since
two constructs run code in another order or under other conditions than it was walked over:

* a flag that a walk clears belongs to a local that every way through its code mentions or renews;
* a `Result` that a walk flags belongs to a local that its code stores into.

`Transfer` is a sound walk with these effects, `Evaluates` one that declares nothing.
-/

import FoundationLang.Flow.Judgement

namespace FoundationLang.Flow

open Library List

variable {s : Analyzer} {name : String}

/-! ### Effects on the flags -/

/-- The action takes the flag away from the local. -/
def Track.clears : Track → Nat → Action → Bool
  | .moves => Action.renews
  | .results => Action.mentions
  | .drops => fun _ _ => false

/-- What a walk does to the flags of the locals it starts with. -/
structure Effect (before : Analyzer) (code : Code Action) (after : Analyzer) (ends : Bool) :
    Prop where
  clears : ∀ (track : Track), ∀ id < before.locals.length, track.flag before id = true →
    track.flag after id = true ∨ code.always (track.clears id) = true
  raises : ∀ id < before.locals.length, Track.results.flag after id = true →
    Track.results.flag before id = true ∨ code.any (Action.storesResult id) = true
  always : ends = true → ∀ (track : Track) id, code.always (track.clears id) = true

/-- **A sound walk and its effects.** -/
structure Transfer (track : Track) (before : Analyzer) (code : Code Action) (after : Analyzer)
    (ends : Bool) : Prop extends Sound track before code after ends, Effect before code after ends

/-- A walk that declares nothing. -/
structure Evaluates (track : Track) (before : Analyzer) (code : Code Action) (after : Analyzer)
    (ends : Bool) : Prop extends Transfer track before code after ends where
  scopes : after.scopes = before.scopes

section Rules

variable {track : Track} {before m after : Analyzer} {code first second : Code Action}
  {ends early late : Bool}

theorem Effect.of_flags (same : ∀ (track : Track), ∀ id < before.locals.length,
    track.flag after id = track.flag before id) : Effect before code after false where
  clears := fun track id inside flagged => .inl (by rwa [same track id inside])
  raises := fun id inside flagged => .inl (by rwa [same .results id inside] at flagged)
  always := fun never => absurd never (by decide)

theorem Effect.seq (one : Effect before first m early) (two : Effect m second after late)
    (grown : before.locals <+: m.locals) :
    Effect before (.seq first second) after (early || late) where
  clears := by
    intro track id inside flagged
    rw [Code.always, Bool.or_eq_true]
    rcases one.clears track id inside flagged with still | cleared
    · rcases two.clears track id (inside.trans_le grown.length_le) still with still | cleared
      · exact .inl still
      · exact .inr (.inr cleared)
    · exact .inr (.inl cleared)
  raises := by
    intro id inside flagged
    rw [Code.any, Bool.or_eq_true]
    rcases two.raises id (inside.trans_le grown.length_le) flagged with already | stored
    · exact (one.raises id inside already).imp_right .inl
    · exact .inr (.inr stored)
  always := by
    intro never track id
    rw [Code.always, Bool.or_eq_true]
    rcases Bool.or_eq_true_iff.mp never with never | never
    · exact .inl (one.always never track id)
    · exact .inr (two.always never track id)

theorem Transfer.seq (one : Transfer track before first m early)
    (two : Transfer track m second after late) :
    Transfer track before (.seq first second) after (early || late) :=
  ⟨one.toSound.seq two.toSound, one.toEffect.seq two.toEffect one.ext.locals⟩

theorem Evaluates.seq (one : Evaluates track before first m early)
    (two : Evaluates track m second after late) :
    Evaluates track before (.seq first second) after (early || late) :=
  ⟨one.toTransfer.seq two.toTransfer, two.scopes.trans one.scopes⟩

theorem Evaluates.skip (wellFormed : WellFormed before) :
    Evaluates track before .skip before false :=
  ⟨⟨.skip wellFormed, .of_flags fun _ _ _ => rfl⟩, rfl⟩

theorem Transfer.forget (transfer : Transfer track before code after early)
    (ends : late = true → early = true) : Transfer track before code after late where
  toSound := { transfer.toSound with
    follows := transfer.follows.weaken rfl prefix_rfl (fun _ _ _ => id) ends }
  toEffect := { transfer.toEffect with
    always := fun never => transfer.always (ends never) }

theorem Evaluates.forget (evaluates : Evaluates track before code after early)
    (ends : late = true → early = true) : Evaluates track before code after late :=
  ⟨evaluates.toTransfer.forget ends, evaluates.scopes⟩

theorem Evaluates.value {type : FlowType} {panics : Bool} {reads : List Nat}
    (evaluates : Evaluates track before code after ends) :
    Evaluates track before (Walked.value after type panics code reads).code after
      (type.isNever || panics) := by
  rw [Walked.value]
  cases type.isNever || panics with
  | false => exact evaluates.forget fun never => absurd never (by decide)
  | true =>
    rw [if_pos rfl]
    refine ⟨⟨{ evaluates.toSound with
      follows := evaluates.follows.stop rfl prefix_rfl }, ?_⟩, evaluates.scopes⟩
    have jumps (track : Track) (id : Nat) :
        (Code.seq code (.jump .stop)).always (track.clears id) = true := by
      rw [Code.always, Code.always, Bool.or_true]
    refine ⟨fun track id _ _ => .inr (jumps track id), fun id inside flagged => ?_,
      fun _ => jumps⟩
    rw [Code.any, Code.any, Bool.or_false]
    exact evaluates.raises id inside flagged

end Rules

/-! ### Declarations -/

theorem LocalType.inspected_isResult {type : LocalType} (result : type.type.isResult = true) :
    type.inspected.isResult = true := by
  cases type with
  | value => exact result
  | borrow => cases result

theorem LocalType.inspected_requiresDrop {type : LocalType}
    (requires : type.type.requiresDrop = true) : type.inspected.requiresDrop = true := by
  cases type with
  | value => exact requires
  | borrow => cases requires

theorem Corresponds.push {locals : List Local} {scopes : List (List (String × Nat))}
    {slots : List (List Slot)} {e : String × Nat} {slot : Slot}
    (corresponds : Corresponds locals scopes slots) (related : Matches locals e slot) :
    Corresponds locals (pushEntry e scopes) (pushEntry slot slots) := by
  cases corresponds with
  | nil => exact .cons (.cons related .nil) .nil
  | cons scope rest => exact .cons (.cons related scope) rest

section Push

variable {name : String} {type : LocalType} {capture handled : Bool}

theorem push_extends : Extends s (s.push name type capture handled) where
  tail := by
    rw [Analyzer.push]
    cases s.scopes <;> rfl
  nonempty := fun _ => by
    rw [Analyzer.push]
    cases s.scopes <;> exact cons_ne_nil _ _
  locals := prefix_append _ _
  bases := rfl
  void := rfl

theorem push_wellFormed (wellFormed : WellFormed s) :
    WellFormed (s.push name type capture handled) where
  outstanding := by simp [Analyzer.push, wellFormed.outstanding]
  moves := by simp [Analyzer.push, wellFormed.moves]
  ordered := by
    rw [Analyzer.push, scopeIds_pushEntry]
    exact pairwise_cons.mpr ⟨wellFormed.bounded, wellFormed.ordered⟩
  bounded := by
    intro id mem
    simp only [Analyzer.push, scopeIds_pushEntry, length_append, length_singleton] at *
    rcases mem_cons.mp mem with rfl | old
    · exact Nat.lt_succ_self _
    · exact Nat.lt_succ_of_lt (wellFormed.bounded id old)

theorem push_flag (wellFormed : WellFormed s) (track : Track) {id : Nat}
    (inside : id < s.locals.length) :
    track.flag (s.push name type capture handled) id = track.flag s id := by
  have same :=
    (push_extends : Extends s (s.push name type capture handled)).localAt inside
  cases track with
  | moves =>
    rw [Track.flag, Track.flag, same, Analyzer.moveState, Analyzer.push,
      getD_append _ _ _ _ (by rwa [wellFormed.moves])]
    rfl
  | results =>
    rw [Track.flag, Track.flag, same, Analyzer.outstanding, Analyzer.push,
      getD_append _ _ _ _ (by rwa [wellFormed.outstanding])]
    rfl
  | drops => rfl

end Push

theorem introduce_sound (track : Track) {d : Declaration} {w : Walked}
    (wellFormed : WellFormed s) (ran : introduce d s = .ok w) :
    Transfer track s w.code w.state false := by
  simp only [introduce, bind_ok, require_ok, exists_const, pure_ok] at ran
  obtain ⟨-, rfl⟩ := ran
  refine ⟨⟨push_wellFormed wellFormed, push_extends, fun _ => .inl, ?_⟩,
    .of_flags fun track id inside => push_flag wellFormed track inside⟩
  refine Follows.act fun marks env _ holds _ => ⟨?_, holds.marks, ?_, ?_⟩
  · cases track <;> trivial
  · exact (holds.scopes.mono (prefix_append _ _)).push
      ⟨rfl, ⟨_, d.type, d.capture⟩, List.getElem?_concat_length, rfl, rfl⟩
  · intro id mem affected
    rw [Analyzer.push, scopeIds_pushEntry] at mem
    rcases mem_cons.mp mem with rfl | old
    · cases track with
      | moves | drops => simp [Track.bad, Env.step] at affected
      | results =>
        have pending : (d.type.type.isResult && !d.handled) = true := by
          simpa [Track.bad, Env.step] using affected
        have result := LocalType.inspected_isResult (Bool.and_eq_true_iff.mp pending).1
        simp [Track.flag, Analyzer.outstanding, Analyzer.localAt, Analyzer.push, pending, result,
          ← wellFormed.outstanding]
    · have inside := wellFormed.bounded id old
      rw [push_flag wellFormed track inside]
      refine holds.covered id old ?_
      rwa [← Track.bad_step]
      exact fun same => inside.ne' (Option.some.inj same)

theorem introduceAll_sound (track : Track) {declarations : List Declaration} {w : Walked}
    (wellFormed : WellFormed s) (ran : introduceAll declarations s = .ok w) :
    Transfer track s w.code w.state false := by
  induction declarations generalizing s w with
  | nil =>
    rw [introduceAll, pure_ok] at ran
    cases ran
    exact (Evaluates.skip wellFormed).toTransfer
  | cons decl rest ih =>
    simp only [introduceAll, bind_ok, pure_ok] at ran
    obtain ⟨first, one, _, others, rfl⟩ := ran
    have step := introduce_sound track wellFormed one
    exact step.seq (ih step.wellFormed others)

/-! ### Mentions -/

theorem lookup_mem {α β : Type} [BEq α] [LawfulBEq α] {key : α} {value : β}
    {entries : List (α × β)} (found : entries.lookup key = some value) :
    ∃ entry ∈ entries, entry.2 = value := by
  obtain ⟨_, _, rfl, _⟩ := lookup_eq_some_iff.mp found
  exact ⟨(key, value), mem_append_right _ mem_cons_self, rfl⟩

theorem lookupLocal_mem {id : Nat} (found : s.lookupLocal name = some id) :
    id ∈ scopeIds s.scopes := by
  obtain ⟨scope, mem, inside⟩ := exists_of_findSome?_eq_some found
  obtain ⟨entry, present, same⟩ := lookup_mem inside
  exact mem_scopeIds.mpr ⟨scope, mem, entry, present, same⟩

theorem findLocal_mem {id : Nat} (found : s.findLocal name = .ok id) :
    id ∈ scopeIds s.scopes := by
  rw [Analyzer.findLocal] at found
  split at found
  · rename_i present
    cases found
    exact lookupLocal_mem present
  · cases found

/-- Only the states of the locals differ. -/
structure Restates (before after : Analyzer) : Prop where
  scopes : after.scopes = before.scopes
  locals : after.locals = before.locals
  bases : after.loopScopeBases = before.loopScopeBases
  void : after.returnsVoid = before.returnsVoid
  closures : after.closures = before.closures
  outstandingLength : after.resultOutstanding.length = before.resultOutstanding.length
  movesLength : after.moveStates.length = before.moveStates.length

namespace Restates

variable {before m after : Analyzer} {id : Nat}

theorem refl : Restates before before :=
  ⟨rfl, rfl, rfl, rfl, rfl, rfl, rfl⟩

theorem trans (one : Restates before m) (two : Restates m after) :
    Restates before after where
  scopes := two.scopes.trans one.scopes
  locals := two.locals.trans one.locals
  bases := two.bases.trans one.bases
  void := two.void.trans one.void
  closures := two.closures.trans one.closures
  outstandingLength := two.outstandingLength.trans one.outstandingLength
  movesLength := two.movesLength.trans one.movesLength

theorem setMove {v : MoveState} : Restates before (before.setMove id v) :=
  ⟨rfl, rfl, rfl, rfl, rfl, rfl, length_set⟩

theorem setOutstanding {v : Bool} : Restates before (before.setOutstanding id v) :=
  ⟨rfl, rfl, rfl, rfl, rfl, length_set, rfl⟩

theorem wellFormed (restates : Restates before after) (wellFormed : WellFormed before) :
    WellFormed after where
  outstanding := by rw [restates.outstandingLength, restates.locals, wellFormed.outstanding]
  moves := by rw [restates.movesLength, restates.locals, wellFormed.moves]
  ordered := by rw [restates.scopes]; exact wellFormed.ordered
  bounded := by rw [restates.scopes, restates.locals]; exact wellFormed.bounded

theorem ext (restates : Restates before after) : Extends before after where
  tail := by rw [restates.scopes]
  nonempty := by rw [restates.scopes]; exact fun present => present
  locals := restates.locals ▸ prefix_rfl
  bases := restates.bases
  void := restates.void

end Restates

theorem setMove_flag_of_ne {id other : Nat} {v : MoveState} (ne : id ≠ other)
    (track : Track) : track.flag (s.setMove id v) other = track.flag s other := by
  cases track with
  | moves =>
    simp only [Track.flag, Analyzer.moveState, Analyzer.setMove, Analyzer.localAt,
      set_getD_of_ne ne]
  | results | drops => rfl

theorem setOutstanding_flag_of_ne {id other : Nat} {v : Bool} (ne : id ≠ other)
    (track : Track) :
    track.flag (s.setOutstanding id v) other = track.flag s other := by
  cases track with
  | results =>
    simp only [Track.flag, Analyzer.outstanding, Analyzer.setOutstanding, Analyzer.localAt,
      set_getD_of_ne ne]
  | moves | drops => rfl

/-- A change of the states of one local that a mention of it makes. -/
structure Uses (id : Nat) (before after : Analyzer) : Prop extends Restates before after where
  moves : ∀ other, Track.moves.flag before other = true → Track.moves.flag after other = true
  others : ∀ other ≠ id, Track.results.flag after other = Track.results.flag before other
  mentioned : Track.results.flag after id = true → Track.results.flag before id = true

namespace Uses

variable {before m after : Analyzer} {id : Nat}

theorem refl : Uses id before before :=
  ⟨.refl, fun _ flagged => flagged, fun _ _ => rfl, fun flagged => flagged⟩

theorem trans (one : Uses id before m) (two : Uses id m after) : Uses id before after where
  toRestates := one.toRestates.trans two.toRestates
  moves := fun y flagged => two.moves y (one.moves y flagged)
  others := fun y ne => (two.others y ne).trans (one.others y ne)
  mentioned := fun flagged => one.mentioned (two.mentioned flagged)

theorem setMove : Uses id before (before.setMove id .moved) where
  toRestates := .setMove
  moves := by
    intro y flagged
    by_cases same : id = y
    · subst same
      by_cases inside : id < before.moveStates.length
      · simp_all [Track.flag, Analyzer.moveState, Analyzer.setMove, Analyzer.localAt]
      · simp_all [Track.flag, Analyzer.moveState]
    · rwa [setMove_flag_of_ne same]
  others := fun _ _ => rfl
  mentioned := fun flagged => flagged

theorem setOutstanding : Uses id before (before.setOutstanding id false) where
  toRestates := .setOutstanding
  moves := fun _ flagged => flagged
  others := fun y ne => setOutstanding_flag_of_ne ne.symm .results
  mentioned := by
    intro flagged
    by_cases inside : id < before.resultOutstanding.length
    · simp [Track.flag, Analyzer.outstanding, Analyzer.setOutstanding, inside] at flagged
    · simp_all [Track.flag, Analyzer.outstanding, Analyzer.setOutstanding, Analyzer.localAt]

end Uses

section Mentions

variable {track : Track} {before after : Analyzer} {id : Nat}
variable {w : Walked} {type : FlowType}

theorem Uses.flags (uses : Uses id before after) {y : Nat} (ne : y ≠ id)
    (flagged : track.flag before y = true) : track.flag after y = true := by
  cases track with
  | moves => exact uses.moves y flagged
  | results => rwa [uses.others y ne]
  | drops => exact flagged

/-- The three ways to mention a local. -/
def Mentions (id : Nat) (action : Action) : Prop :=
  action = .read id ∨ action = .take id ∨ action = .access id

theorem Uses.holds {action : Action} {marks : List Mark} {env : Env} (uses : Uses id before after)
    (mentions : Mentions id action) (moved : action = .take id → Track.moves.flag after id = true)
    (holds : Holds track before marks env) : Holds track after marks (Env.step action env) where
  marks := by
    rcases mentions with rfl | rfl | rfl
    all_goals exact holds.marks
  scopes := by
    rw [uses.scopes, uses.locals]
    rcases mentions with rfl | rfl | rfl
    all_goals exact holds.scopes
  covered := by
    intro other mem affected
    rw [uses.scopes] at mem
    by_cases same : other = id
    · subst same
      cases track with
      | drops => cases affected
      | results => rcases mentions with rfl | rfl | rfl <;> simp [Track.bad, Env.step] at affected
      | moves =>
        rcases mentions with rfl | rfl | rfl
        · exact uses.moves other (holds.covered other mem affected)
        · exact moved rfl
        · exact uses.moves other (holds.covered other mem affected)
    · have target : action.target ≠ some other := by
        rcases mentions with rfl | rfl | rfl
        all_goals exact fun equal => same (Option.some.inj equal).symm
      rw [Track.bad_step target] at affected
      exact uses.flags same (holds.covered other mem affected)

theorem Uses.evaluates {action : Action} (uses : Uses id before after)
    (wellFormed : WellFormed before) (mentions : Mentions id action)
    (available : action ≠ .access id →
      id ∈ scopeIds before.scopes ∧ Track.moves.flag before id = false)
    (moved : action = .take id → Track.moves.flag after id = true) :
    Evaluates track before (.act action) after false := by
  have safe {marks : List Mark} {env : Env} (holds : Holds .moves before marks env)
      (ne : action ≠ .access id) : env.taken id = false := by
    obtain ⟨mem, unmoved⟩ := available ne
    have covered : env.taken id = true → Track.moves.flag before id = true := holds.covered id mem
    rw [unmoved] at covered
    cases taken : env.taken id with
    | false => rfl
    | true => cases covered taken
  refine ⟨⟨⟨uses.wellFormed wellFormed, uses.ext, ?_, ?_⟩, ?_⟩, uses.scopes⟩
  · rw [uses.closures]
    exact fun _ => .inl
  · refine Follows.act fun marks env _ holds met => ⟨?_, uses.holds mentions moved holds⟩
    cases track with
    | results | drops => rcases mentions with rfl | rfl | rfl <;> trivial
    | moves =>
      rcases mentions with rfl | rfl | rfl
      · exact safe holds nofun
      · exact safe holds nofun
      · exact met
  · refine ⟨fun track y inside flagged => ?_, fun y inside flagged => ?_, nofun⟩
    · by_cases same : y = id
      · subst same
        cases track with
        | moves => exact .inl (uses.moves y flagged)
        | results =>
          right
          rcases mentions with rfl | rfl | rfl <;> simp [Code.always, Track.clears, Action.mentions]
        | drops => exact .inl flagged
      · exact .inl (uses.flags same flagged)
    · left
      by_cases same : y = id
      · subst same
        exact uses.mentioned flagged
      · rwa [← uses.others y same]

theorem unmoved_of_required
    (stronger : (before.localAt id).type.type.requiresDrop = true → type.requiresDrop = true)
    (notMoved : (!(type.requiresDrop && before.moveState id = .moved)) = true)
    (notMaybe : (!(type.requiresDrop && before.moveState id = .maybeMoved)) = true) :
    Track.moves.flag before id = false := by
  rw [Track.flag]
  cases requires : (before.localAt id).type.type.requiresDrop with
  | false => rw [Bool.and_false]
  | true =>
    rw [stronger requires] at notMoved notMaybe
    cases s : before.moveState id with
    | available => rfl
    | moved => simp [s] at notMoved
    | maybeMoved => simp [s] at notMaybe

theorem setMove_flag (wellFormed : WellFormed before) (mem : id ∈ scopeIds before.scopes)
    (requires : (before.localAt id).type.type.requiresDrop = true) :
    Track.moves.flag (before.setMove id .moved) id = true := by
  have inside : id < before.moveStates.length := by
    rw [wellFormed.moves]
    exact wellFormed.bounded id mem
  simp only [Track.flag, Analyzer.moveState, Analyzer.setMove, Analyzer.localAt,
    set_getD_self inside] at requires ⊢
  rw [requires]
  rfl

theorem Uses.use {moves : Bool} : Uses id before (before.use id type moves) := by
  rw [Analyzer.use]
  cases moves <;> cases type.isResult
  · exact .refl
  · exact .setOutstanding
  · exact .setMove
  · exact Uses.setMove.trans .setOutstanding

theorem use_flag (wellFormed : WellFormed before) (mem : id ∈ scopeIds before.scopes)
    (requires : (before.localAt id).type.type.requiresDrop = true) :
    Track.moves.flag (before.use id type true) id = true := by
  have moved := setMove_flag wellFormed mem requires
  rw [Analyzer.use]
  cases type.isResult
  · exact moved
  · exact Uses.setOutstanding.moves id moved

theorem use_sound {moves : Bool} (wellFormed : WellFormed before)
    (mem : id ∈ scopeIds before.scopes) (unmoved : Track.moves.flag before id = false)
    (requires : moves = true → (before.localAt id).type.type.requiresDrop = true) :
    Evaluates track before (.act (if moves then .take id else .read id))
      (before.use id type moves) false := by
  refine Uses.use.evaluates wellFormed ?_ (fun _ => ⟨mem, unmoved⟩) ?_
  · cases moves
    · exact .inl rfl
    · exact .inr (.inl rfl)
  · cases moves
    · exact nofun
    · exact fun _ => use_flag wellFormed mem (requires rfl)

theorem mention_sound {use : ExpressionUse} (wellFormed : WellFormed before)
    (ran : mention name use before = .ok w) :
    Evaluates track before w.code w.state w.returns := by
  simp only [mention, bind_ok, require_ok, exists_const, pure_ok] at ran
  obtain ⟨_, found, -, notMoved, notMaybe, rfl⟩ := ran
  refine Evaluates.value (use_sound wellFormed (findLocal_mem found)
    (unmoved_of_required ?_ notMoved notMaybe) ?_)
  · split
    · exact fun requires => requires
    · exact LocalType.inspected_requiresDrop
  · cases use with
    | consume | inspect => simp

theorem mention_inspect (ran : mention name .inspect before = .ok w) :
    ∃ id, before.findLocal name = .ok id ∧ w.state.findLocal name = .ok id
      ∧ w.type = (before.localAt id).type.inspected
      ∧ Track.moves.flag w.state id = false ∧ Track.results.flag w.state id = false := by
  simp only [mention, bind_ok, require_ok, exists_const, pure_ok] at ran
  obtain ⟨id, found, -, notMoved, notMaybe, rfl⟩ := ran
  have unmoved : Track.moves.flag before id = false :=
    unmoved_of_required LocalType.inspected_requiresDrop (by simpa using notMoved)
      (by simpa using notMaybe)
  refine ⟨id, found, ?_, rfl, ?_, ?_⟩
  · simpa [Walked.value, Analyzer.findLocal, Analyzer.lookupLocal, Uses.use.scopes] using found
  · simp only [Walked.value, Analyzer.use, reduceCtorEq, if_false, decide_false, Bool.and_false,
      Bool.false_eq_true]
    split <;> exact unmoved
  · simp only [Walked.value, Analyzer.use, reduceCtorEq, if_false, decide_false, Bool.and_false,
      Bool.false_eq_true]
    cases result : (before.localAt id).type.inspected.isResult with
    | false => simp [Track.flag, result]
    | true =>
      by_cases inside : id < before.resultOutstanding.length
      · simp [Track.flag, Analyzer.outstanding, Analyzer.setOutstanding, inside]
      · simp [Track.flag, Analyzer.outstanding, Analyzer.setOutstanding, inside]

section

variable (wellFormed : WellFormed before)
include wellFormed

theorem access_sound :
    Evaluates track before (.act (.access id)) before false :=
  Uses.refl.evaluates wellFormed (.inr (.inr rfl)) (fun y => absurd rfl y) nofun

theorem receive_sound {base : Expr} {owns : Bool}
    (ran : receive base owns before = .ok w)
    (available : ∀ name id, base = .name name → before.findLocal name = .ok id →
      Track.moves.flag before id = false) :
    Evaluates track before w.code w.state false := by
  unfold receive at ran
  cases owns with
  | false =>
    rw [if_neg (by decide), pure_ok] at ran
    subst ran
    exact .skip wellFormed
  | true =>
    rw [if_pos rfl] at ran
    split at ran
    · simp only [bind_ok, require_ok, exists_const, pure_ok] at ran
      obtain ⟨id, found, requires, rfl⟩ := ran
      have mem := findLocal_mem found
      refine Uses.setMove.evaluates wellFormed (.inr (.inl rfl))
        (fun _ => ⟨mem, available _ id rfl found⟩)
        fun _ => setMove_flag wellFormed mem requires
    · cases ran

theorem capture_sound {e : Capture} {inner : Declaration}
    (ran : capture e before = .ok (w, inner)) :
    Evaluates track before w.code w.state false := by
  rw [capture] at ran
  split at ran
  · cases ran
  · rename_i id found
    have mem := lookupLocal_mem found
    simp only at ran
    split at ran
    · rename_i copied
      cases ran
      have plain : (before.localAt id).type.type.requiresDrop = false := by
        cases requires : (before.localAt id).type.type.requiresDrop with
        | false => rfl
        | true =>
          rw [requires] at copied
          cases mode : e.mode <;> simp [mode] at copied
      exact Uses.refl.evaluates wellFormed (.inl rfl)
        (fun _ => ⟨mem, by rw [Track.flag, plain, Bool.and_false]⟩) nofun
    · simp only [bind_ok, require_ok, exists_const, pure_ok, Prod.mk.injEq] at ran
      obtain ⟨notMoved, notMaybe, rfl, -⟩ := ran
      refine use_sound wellFormed mem ?_ fun requires => requires
      rw [decide_eq_true_iff] at notMoved notMaybe
      cases s : before.moveState id with
      | available => simp [Track.flag, s]
      | moved => exact absurd s notMoved
      | maybeMoved => exact absurd s notMaybe
    · cases ran
      exact access_sound wellFormed
    · cases ran
      exact access_sound wellFormed

theorem captureAll_sound {entries : List Capture} {inner : List Declaration}
    (ran : captureAll entries before = .ok (w, inner)) :
    Evaluates track before w.code w.state false := by
  induction entries generalizing before w inner with
  | nil =>
    simp only [captureAll, pure_ok, Prod.mk.injEq] at ran
    obtain ⟨rfl, -⟩ := ran
    exact .skip wellFormed
  | cons entry rest ih =>
    simp only [captureAll, bind_ok, require_ok, exists_const, pure_ok, Prod.mk.injEq,
      Prod.exists] at ran
    obtain ⟨-, first, _, one, _, _, others, rfl, -⟩ := ran
    have step : Evaluates track before first.code first.state false := capture_sound wellFormed one
    exact step.seq (ih step.wellFormed others)

end

end Mentions

/-! ### Drop lists -/

section Drops

variable {scopes : List (List (String × Nat))} {slots : List (List Slot)}

theorem localAt_of_getElem? {id : Nat} {declared : Local}
    (present : s.locals[id]? = some declared) : s.localAt id = declared := by
  rw [Analyzer.localAt, getD_eq_getElem?_getD, present, Option.getD_some]

theorem filterMap_drops {scope : List (String × Nat)} {slots : List Slot}
    (related : List.Forall₂ (Matches s.locals) scope slots) :
    (scope.filterMap fun entry =>
      if !(s.localAt entry.2).capture && (s.localAt entry.2).type.type.requiresDrop then
        some entry.2 else none)
      = (slots.filter fun slot => slot.requiresDrop && !slot.capture).map (·.id) := by
  induction related with
  | nil => rfl
  | cons related _ ih =>
    obtain ⟨same, _, present, drops, captured⟩ := related
    rw [filterMap_cons, filter_cons, localAt_of_getElem? present, ← drops, ← captured,
      ih, Bool.and_comm]
    split
    · rename_i dropped
      split at dropped
      · cases dropped
      · rename_i unlisted
        rw [if_neg unlisted]
    · rename_i dropped
      split at dropped
      · rename_i listed
        cases dropped
        rw [if_pos listed, map_cons, same]
      · cases dropped

theorem scopeDrops_eq {scope : List (String × Nat)} {slots : List Slot}
    (related : List.Forall₂ (Matches s.locals) scope slots)
    (ordered : (scope.map Prod.snd).Pairwise (· > ·)) :
    s.scopeDrops scope = droppable [slots] := by
  have sorted : ((slots.filter fun slot => slot.requiresDrop && !slot.capture).map
      (·.id)).Pairwise (· ≥ ·) := by
    have ids : slots.map (·.id) = scope.map Prod.snd := by
      have whole : Corresponds s.locals [scope] [slots] := .cons related .nil
      simpa [scopeIds] using whole.ids
    rw [← ids] at ordered
    exact (ordered.sublist ((filter_sublist).map _)).imp fun above => above.le
  rw [Analyzer.scopeDrops, filterMap_drops related, sorted.insertionSort_eq, droppable,
    flatten_singleton]

theorem flatMap_scopeDrops (corresponds : Corresponds s.locals scopes slots)
    (ordered : (scopeIds scopes).Pairwise (· > ·)) :
    scopes.flatMap s.scopeDrops = droppable slots ∧ (droppable slots).Nodup := by
  refine ⟨?_, ?_⟩
  · induction corresponds with
    | nil => rfl
    | cons related _ ih =>
      rw [scopeIds, flatten_cons, map_append, pairwise_append] at ordered
      rw [flatMap_cons, ih ordered.2.1, scopeDrops_eq related ordered.1]
      simp [droppable]
  · rw [← corresponds.ids] at ordered
    have decreasing : (droppable slots).Pairwise (· > ·) :=
      ordered.sublist ((filter_sublist).map _)
    exact decreasing.imp fun above => above.ne'

end Drops

/-! ### Leaving scopes -/

section Leaving

variable {track : Track} {before after : Analyzer} {w : Walked} {marks : List Mark} {env : Env}
variable {closed : Walked}
  {ends : Bool}

theorem Holds.handled {n : Nat} (holds : Holds .results before marks env)
    (reported : ∀ id ∈ scopeIds (before.scopes.take n), before.outstanding id = false) :
    Handled env (env.scopes.take n) := by
  have each : ∀ slot ∈ (env.scopes.take n).flatten, env.pending slot.id = false := by
    refine ((holds.scopes.take n).forall_slot fun id => env.pending id = false).mpr ?_
    intro id mem
    obtain ⟨scope, inside, rest⟩ := mem_scopeIds.mp mem
    have covered : env.pending id = true → Track.results.flag before id = true :=
      holds.covered id (mem_scopeIds.mpr ⟨scope, mem_of_mem_take inside, rest⟩)
    rw [Track.flag, reported id mem, Bool.false_and] at covered
    cases pending : env.pending id with
    | false => rfl
    | true => cases covered pending
  exact fun scope mem slot inside => each slot (mem_flatten.mpr ⟨scope, mem, inside⟩)

theorem Holds.dropped (holds : Holds track before marks env) (n : Nat)
    (wellFormed : WellFormed before) :
    (before.scopes.take n).flatMap before.scopeDrops = droppable (env.scopes.take n)
      ∧ (droppable (env.scopes.take n)).Nodup := by
  refine flatMap_scopeDrops (holds.scopes.take n) (wellFormed.ordered.sublist ?_)
  have split : before.scopes.flatten
      = (before.scopes.take n).flatten ++ (before.scopes.drop n).flatten := by
    rw [← flatten_append, take_append_drop]
  rw [scopeIds, scopeIds, split]
  exact (sublist_append_left _ _).map _

theorem all_handled {scopes : List (List (String × Nat))}
    (reported : (scopes.all fun scope => scope.all fun entry => !before.outstanding entry.2) = true) :
    ∀ id ∈ scopeIds scopes, before.outstanding id = false := by
  intro id mem
  obtain ⟨scope, inside, entry, present, rfl⟩ := mem_scopeIds.mp mem
  have each := all_eq_true.mp (all_eq_true.mp reported scope inside) entry present
  simpa using each

theorem Effect.scope {code : Code Action} {drops : List Nat}
    (inner : Effect (openScope before) code after ends) :
    Effect before (scopeCode code drops) (popScope after) ends := by
  have opened (track : Track) : track.flag (openScope before) = track.flag before :=
    Track.flag_congr rfl rfl rfl
  have popped (track : Track) : track.flag (popScope after) = track.flag after :=
    Track.flag_congr rfl rfl rfl
  have always (track : Track) (id : Nat) :
      (scopeCode code drops).always (track.clears id) = code.always (track.clears id) := by
    cases track <;> simp [scopeCode, Code.always, Track.clears, Action.renews, Action.mentions]
  have any (id : Nat) :
      (scopeCode code drops).any (Action.storesResult id) = code.any (Action.storesResult id) := by
    simp [scopeCode, Code.any, Action.storesResult]
  refine ⟨fun track => ?_, ?_, fun never track id => ?_⟩
  · simp only [always, popped, ← opened]
    exact inner.clears track
  · simp only [any, popped, ← opened]
    exact inner.raises
  · rw [always]
    exact inner.always never track id

theorem take_one_eq {α : Type} (lists : List (List α)) :
    lists.take 1 = if lists = [] then [] else [lists.headD []] := by
  cases lists <;> rfl

theorem closeScope_leaves (present : before.scopes ≠ []) (wellFormed : WellFormed before)
    (reported : ((before.scopes.headD []).all fun entry => !before.outstanding entry.2) = true)
    (holds : Holds track before marks env) :
    track.safe (.leave (before.scopeDrops (before.scopes.headD []))) env := by
  have first : before.scopes.take 1 = [before.scopes.headD []] := by
    rw [take_one_eq, if_neg present]
  cases track with
  | moves => trivial
  | results =>
    refine holds.handled (all_handled ?_)
    rw [first, all_cons, all_nil, Bool.and_true]
    exact reported
  | drops =>
    obtain ⟨listed, once⟩ := holds.dropped 1 wellFormed
    rw [first, flatMap_singleton] at listed
    exact ⟨listed, listed ▸ once⟩

theorem closeScope_sound
    (inner : Transfer track (openScope before) w.code w.state ends)
    (ran : closeScope w = .ok closed) :
    Evaluates track before closed.code closed.state ends ∧ closed.returns = w.returns
      ∧ closed.type = w.type := by
  simp only [closeScope, Analyzer.reportScope, bind_ok, require_ok, exists_const, pure_ok] at ran
  obtain ⟨reported, rfl⟩ := ran
  have present : w.state.scopes ≠ [] := inner.ext.nonempty (cons_ne_nil _ _)
  exact ⟨⟨⟨inner.toSound.scope fun _ _ => closeScope_leaves present inner.wellFormed reported,
    inner.toEffect.scope⟩, inner.ext.tail⟩, rfl, rfl⟩

theorem closeScope_round
    (inner : Transfer track (openScope before) w.code w.state ends)
    (ran : closeScope w = .ok closed) (surrounds : Surrounds before marks) :
    Triple Env.step track.meets track.safe (Holds track before marks) closed.code
      (Post track closed.state marks ends) := by
  simp only [closeScope, Analyzer.reportScope, bind_ok, require_ok, exists_const, pure_ok] at ran
  obtain ⟨reported, rfl⟩ := ran
  have present : w.state.scopes ≠ [] := inner.ext.nonempty (cons_ne_nil _ _)
  exact Triple.scope inner.follows inner.ext
    (fun _ _ => closeScope_leaves present inner.wellFormed reported) surrounds

theorem inScope_sound {walk : Analyzer → Checked Walked}
    (inner : ∀ w, walk (openScope before) = .ok w →
      Transfer track (openScope before) w.code w.state w.returns)
    (ran : inScope walk before = .ok closed) :
    Evaluates track before closed.code closed.state closed.returns := by
  simp only [inScope, bind_ok] at ran
  obtain ⟨w, walks, closes⟩ := ran
  obtain ⟨_, returns, -⟩ := closeScope_sound (inner w walks) closes
  rwa [returns]

theorem introducing_sound {declarations : List Declaration} {walk : Analyzer → Checked Walked}
    (wellFormed : WellFormed before)
    (later : ∀ s w, WellFormed s → walk s = .ok w →
      Transfer track s w.code w.state w.returns)
    (ran : introducing declarations walk before = .ok w) :
    Transfer track before w.code w.state w.returns := by
  simp only [introducing, bind_ok, pure_ok] at ran
  obtain ⟨declared, declares, rest, walks, rfl⟩ := ran
  have first := introduceAll_sound track wellFormed declares
  exact first.seq (later _ rest first.wellFormed walks)

theorem Effect.jump {code : Code Action} {exit : Exit}
    (same : after.resultOutstanding = before.resultOutstanding)
    (locals : after.locals = before.locals) :
    Effect before (.seq code (.jump exit)) after true := by
  have jumps (track : Track) (id : Nat) :
      (Code.seq code (.jump exit)).always (track.clears id) = true := by
    rw [Code.always, Code.always, Bool.or_true]
  refine ⟨fun track id _ _ => .inr (jumps track id), fun id _ flagged => .inl ?_, fun _ => jumps⟩
  simpa only [Track.flag, Analyzer.outstanding, Analyzer.localAt, same, locals] using flagged

theorem leaveFunction_sound {left : Walked}
    (transfer : Transfer track before w.code w.state ends)
    (ran : leaveFunction w = .ok left) :
    Transfer track before left.code left.state left.returns := by
  simp only [leaveFunction, Analyzer.reportOutstanding, bind_ok, require_ok, exists_const,
    pure_ok] at ran
  obtain ⟨reported, rfl⟩ := ran
  have handled (id : Nat) : w.state.outstanding id = false := by
    rw [Analyzer.outstanding, getD_eq_getElem?_getD]
    cases present : w.state.resultOutstanding[id]? with
    | none => rfl
    | some v => simpa using all_eq_true.mp reported v (mem_of_getElem? present)
  have jump : Transfer track w.state
      (.seq (.act (.leaveFunction w.state.activeDrops)) (.jump .ret)) w.state true := by
    refine ⟨⟨transfer.wellFormed, .refl _, fun _ => .inl, fun marks _ => ?_⟩, .jump rfl rfl⟩
    refine Triple.seq (fun _ => True) (Triple.act fun env holds _ => ⟨?_, trivial⟩)
      (Triple.jump fun _ _ => trivial)
    have all : env.scopes.take w.state.scopes.length = env.scopes := by
      rw [← holds.scopes.length, take_length]
    cases track with
    | moves => trivial
    | results =>
      have every : Handled env (env.scopes.take w.state.scopes.length) :=
        holds.handled fun id _ => handled id
      rwa [all] at every
    | drops =>
      obtain ⟨listed, once⟩ := holds.dropped w.state.scopes.length transfer.wellFormed
      rw [all, take_length] at listed
      rw [all, ← listed] at once
      exact ⟨listed, once⟩
  have whole := transfer.seq jump
  rwa [Bool.or_true] at whole

theorem loopJump_sound {keyword : String} {exit : Exit} (wellFormed : WellFormed before)
    (kind : exit = .brk ∨ exit = .cont) (ran : loopJump keyword exit before = .ok w) :
    Evaluates track before w.code w.state w.returns := by
  rw [loopJump] at ran
  split at ran
  · cases ran
  rename_i base bases known
  simp only [Analyzer.reportScopesFrom, bind_ok, require_ok, exists_const, pure_ok] at ran
  obtain ⟨_, ⟨reported, rfl⟩, rfl⟩ := ran
  refine ⟨⟨⟨⟨wellFormed.outstanding, wellFormed.moves, wellFormed.ordered, wellFormed.bounded⟩,
    ⟨rfl, fun present => present, prefix_rfl, rfl, rfl⟩, fun _ => .inl, ?_⟩, .jump rfl rfl⟩, rfl⟩
  intro marks marked
  refine Triple.seq (Left track before marks) (Triple.act fun env holds met => ?_) (Triple.jump ?_)
  · cases marks with
    | nil =>
      -- A jump in a closure, out of a loop around the closure: there is no loop to leave.
      cases track with
      | moves => exact ⟨trivial, trivial⟩
      | results => exact absurd holds.marks met.1
      | drops => exact absurd holds.marks met
    | cons mark =>
      have depth : mark.depth = base := by
        have bases := marked.bases
        rw [known, map_cons, cons_prefix_cons] at bases
        exact bases.1
      have inner : env.loopScopes = env.scopes.take (before.scopes.length - base) := by
        rw [Env.loopScopes, holds.marks, ← depth, holds.scopes.length]
      have outside : env.outerScopes = env.scopes.drop (before.scopes.length - base) := by
        rw [Env.outerScopes, holds.marks, ← depth, holds.scopes.length]
      refine ⟨?_, congrArg List.tail holds.marks, ?_, ?_⟩
      · cases track with
        | moves => trivial
        | results =>
          have every := holds.handled (all_handled reported)
          rwa [← inner] at every
        | drops =>
          obtain ⟨listed, once⟩ := holds.dropped (before.scopes.length - base) wellFormed
          rw [← inner] at listed once
          rw [← listed] at once
          exact ⟨listed, once⟩
      · have related := holds.scopes.drop (before.scopes.length - base)
        rwa [← outside, ← depth] at related
      · intro id mem affected
        rw [Track.bad_step (by rintro ⟨⟩)] at affected
        cases track with
        | moves => exact holds.settled met id mem affected
        | results => exact holds.settled met.2 id mem affected
        | drops => cases affected
  · rcases kind with rfl | rfl
    · exact fun env left => left.weaken rfl prefix_rfl
    · exact fun env left => left.weaken rfl prefix_rfl

end Leaving

end FoundationLang.Flow
