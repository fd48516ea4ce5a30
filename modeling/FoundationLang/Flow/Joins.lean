/-
**Where paths meet.**

Branches are walked over one after the other, each from the state before them, and their states are
merged. The merged state flags whatever one of the branches that go on has flagged, so it covers the
environments of all of them. Loops are the case of a branch that comes back: one pass over the body
must leave the moves as they were.
-/

import FoundationLang.Flow.Assignments

namespace FoundationLang.Flow

open Library List

variable {state before : Analyzer}

/-! ### Restored states -/

section Restored

variable {outstanding : List Bool} {moves : List MoveState} {id : Nat}

theorem restoreStates_moves : Track.moves.flag (state.restoreStates outstanding moves) id
    = (moves.getD id .available != .available && (state.localAt id).type.type.requiresDrop) := by
  simp only [Track.flag, Analyzer.moveState, Analyzer.restoreStates, Analyzer.restoreMoves,
    Analyzer.restoreOutstanding, restore_getD]
  rfl

theorem restoreStates_results : Track.results.flag (state.restoreStates outstanding moves) id
    = (outstanding.getD id false && (state.localAt id).type.inspected.isResult) := by
  simp only [Track.flag, Analyzer.outstanding, Analyzer.restoreStates, Analyzer.restoreMoves,
    Analyzer.restoreOutstanding, restore_getD]
  rfl

theorem restoreStates_wellFormed (wellFormed : WellFormed state)
    (fewer : outstanding.length ≤ state.locals.length) (less : moves.length ≤ state.locals.length) :
    WellFormed (state.restoreStates outstanding moves) where
  outstanding := (restore_length (by rwa [wellFormed.outstanding])).trans wellFormed.outstanding
  moves := (restore_length (by rwa [← wellFormed.moves] at less)).trans wellFormed.moves
  ordered := wellFormed.ordered
  bounded := wellFormed.bounded

theorem restoreStates_extends : Extends state (state.restoreStates outstanding moves) :=
  ⟨rfl, fun present => present, prefix_rfl, rfl, rfl⟩

theorem rewind_flag (ext : Extends before state) (track : Track)
    (inside : id < before.locals.length) : track.flag (rewind before state) id = track.flag before id := by
  cases track with
  | moves => rw [rewind, restoreStates_moves, ext.localAt inside]; rfl
  | results => rw [rewind, restoreStates_results, ext.localAt inside]; rfl
  | drops => rfl

theorem rewind_flag_of_le (wellFormed : WellFormed before) (track : Track)
    (outside : before.locals.length ≤ id) : track.flag (rewind before state) id = false := by
  cases track with
  | moves =>
    rw [rewind, restoreStates_moves, getD_eq_getElem?_getD,
      List.getElem?_eq_none (by rwa [wellFormed.moves])]
    rfl
  | results =>
    rw [rewind, restoreStates_results, getD_eq_getElem?_getD,
      List.getElem?_eq_none (by rwa [wellFormed.outstanding])]
    rfl
  | drops => rfl

theorem rewind_wellFormed (ext : Extends before state) (wellFormed : WellFormed before)
    (later : WellFormed state) : WellFormed (rewind before state) :=
  restoreStates_wellFormed later (wellFormed.outstanding.trans_le ext.locals.length_le)
    (wellFormed.moves.trans_le ext.locals.length_le)

end Restored

/-! ### Two ways -/

section Ways

variable {track : Track} {left right m after : Analyzer} {code first second : Code Action}
  {ends early late : Bool}

/-- A branch that was walked over later, from the same states, is one from before. -/
theorem Evaluates.rewound (evaluates : Evaluates track (rewind before m) code after ends)
    (ext : Extends before m) (scopes : m.scopes = before.scopes)
    (closures : ∀ body ∈ m.closures, body ∈ before.closures ∨ BodySound track body)
    (wellFormed : WellFormed before) : Evaluates track before code after ends := by
  have later : Extends before (rewind before m) := ext.trans restoreStates_extends
  have flags (track : Track) {id : Nat} (inside : id < before.locals.length) :=
    rewind_flag ext track inside
  have longer {id : Nat} (inside : id < before.locals.length) :
      id < (rewind before m).locals.length := inside.trans_le ext.locals.length_le
  refine ⟨⟨⟨evaluates.wellFormed, later.trans evaluates.ext, ?_, ?_⟩, ?_, ?_, evaluates.always⟩,
    evaluates.scopes.trans scopes⟩
  · exact fun body mem => (evaluates.closures body mem).elim (closures body) .inr
  · refine evaluates.follows.start ⟨scopes, ext.locals, fun id mem flagged => ?_⟩ ext.bases
    rwa [flags track (wellFormed.bounded id mem)]
  · intro track id inside flagged
    exact evaluates.clears track id (longer inside) (by rwa [flags track inside])
  · intro id inside flagged
    have raised := evaluates.raises id (longer inside) flagged
    rwa [flags .results inside] at raised

/-- **Two branches and the state that covers both.** -/
theorem Evaluates.either (one : Evaluates track before first left early)
    (two : Evaluates track before second right late) (wellFormed : WellFormed before)
    (joined : WellFormed after) (ext : Extends before after) (scopes : after.scopes = before.scopes)
    (fromLeft : left.locals <+: after.locals) (fromRight : right.locals <+: after.locals)
    (closures : ∀ body ∈ after.closures, body ∈ before.closures ∨ BodySound track body)
    (leftFlags : early = false → ∀ (track : Track), ∀ id < before.locals.length,
      track.flag left id = true → track.flag after id = true)
    (rightFlags : late = false → ∀ (track : Track), ∀ id < before.locals.length,
      track.flag right id = true → track.flag after id = true)
    (raises : ∀ id < before.locals.length, Track.results.flag after id = true →
      Track.results.flag left id = true ∨ Track.results.flag right id = true) :
    Evaluates track before (.either first second) after (early && late) := by
  refine ⟨⟨⟨joined, ext, closures, Follows.either ?_ ?_⟩, ?_, ?_, ?_⟩, scopes⟩
  · refine one.follows.weaken (scopes.trans one.scopes.symm) fromLeft (fun running id mem => ?_)
      fun never => never
    rw [one.scopes] at mem
    exact leftFlags running track id (wellFormed.bounded id mem)
  · refine two.follows.weaken (scopes.trans two.scopes.symm) fromRight (fun running id mem => ?_)
      fun never => never
    rw [two.scopes] at mem
    exact rightFlags running track id (wellFormed.bounded id mem)
  · intro track id inside flagged
    rw [Code.always, Bool.and_eq_true]
    -- A branch that does not take the flag away goes on, and so the merged state has it.
    refine or_and_left.mpr ⟨?_, ?_⟩
    · rcases one.clears track id inside flagged with still | cleared
      · cases early with
        | false => exact .inl (leftFlags rfl track id inside still)
        | true => exact .inr (one.always rfl track id)
      · exact .inr cleared
    · rcases two.clears track id inside flagged with still | cleared
      · cases late with
        | false => exact .inl (rightFlags rfl track id inside still)
        | true => exact .inr (two.always rfl track id)
      · exact .inr cleared
  · intro id inside flagged
    rw [Code.any, Bool.or_eq_true]
    rcases raises id inside flagged with fromOne | fromTwo
    · exact (one.raises id inside fromOne).imp_right .inl
    · exact (two.raises id inside fromTwo).imp_right .inr
  · intro never track id
    obtain ⟨one', two'⟩ := Bool.and_eq_true_iff.mp never
    rw [Code.always, one.always one' track id, two.always two' track id, Bool.and_true]

end Ways

/-! ### Merged branches -/

section Branches

variable {track : Track} {one two : Walked} {id : Nat}

/-- A merged local may have been moved when it was on one of the ways. -/
theorem mergeMove_flagged (left right : MoveState) :
    (mergeMove left right != .available) = (left != .available || right != .available) := by
  cases left <;> cases right <;> rfl

theorem mergeMove_left {left right : MoveState} (moved : (left != .available) = true) :
    (mergeMove left right != .available) = true := by
  rw [mergeMove_flagged, moved, Bool.true_or]

theorem mergeMove_right {left right : MoveState} (moved : (right != .available) = true) :
    (mergeMove left right != .available) = true := by
  rw [mergeMove_flagged, moved, Bool.or_true]

section

variable (wellFormed : WellFormed before)
include wellFormed

theorem movePrefix_getD (inside : id < before.locals.length) :
    (state.movePrefix before).getD id .available = state.moveState id := by
  rw [Analyzer.movePrefix, take_getD (by rwa [wellFormed.moves]), Analyzer.moveState]

theorem outstandingPrefix_getD (inside : id < before.locals.length) :
    (state.outstandingPrefix before).getD id false = state.outstanding id := by
  rw [Analyzer.outstandingPrefix, take_getD (by rwa [wellFormed.outstanding]), Analyzer.outstanding]

end

/-- A state that was reached by a walk. -/
structure Reached (before state : Analyzer) : Prop where
  start : WellFormed before
  wellFormed : WellFormed state
  ext : Extends before state

theorem movePrefix_length (reached : Reached before state) :
    (state.movePrefix before).length = before.locals.length := by
  rw [Analyzer.movePrefix, length_take, reached.start.moves, reached.wellFormed.moves,
    min_eq_left reached.ext.locals.length_le]

theorem outstandingPrefix_length (reached : Reached before state) :
    (state.outstandingPrefix before).length = before.locals.length := by
  rw [Analyzer.outstandingPrefix, length_take, reached.start.outstanding,
    reached.wellFormed.outstanding, min_eq_left reached.ext.locals.length_le]

theorem flag_moves_eq (ext : Extends before state) (inside : id < before.locals.length) :
    Track.moves.flag state id
      = (state.moveState id != .available && (before.localAt id).type.type.requiresDrop) := by
  rw [Track.flag, ext.localAt inside]

theorem flag_results_eq (ext : Extends before state) (inside : id < before.locals.length) :
    Track.results.flag state id
      = (state.outstanding id && (before.localAt id).type.inspected.isResult) := by
  rw [Track.flag, ext.localAt inside]

variable (left : Reached before one.state) (right : Reached before two.state)
include left right

theorem joinBranches_moves (inside : id < before.locals.length) :
    Track.moves.flag (joinBranches before one two) id
      = ((if one.returns && two.returns then before.moveState id
          else if one.returns then two.state.moveState id
          else if two.returns then one.state.moveState id
          else mergeMove (one.state.moveState id) (two.state.moveState id)) != .available
        && (before.localAt id).type.type.requiresDrop) := by
  rw [joinBranches, restoreStates_moves, right.ext.localAt inside, mergeMoves]
  congr 2
  split
  · rfl
  split
  · exact movePrefix_getD left.start inside
  split
  · exact movePrefix_getD left.start inside
  · rw [zipWith_getD (by rwa [movePrefix_length left])
      (by rwa [movePrefix_length right]), movePrefix_getD left.start inside,
      movePrefix_getD left.start inside]

theorem joinBranches_results (inside : id < before.locals.length) :
    Track.results.flag (joinBranches before one two) id
      = ((if one.returns && two.returns then false
          else if one.returns then two.state.outstanding id
          else if two.returns then one.state.outstanding id
          else one.state.outstanding id || two.state.outstanding id)
        && (before.localAt id).type.inspected.isResult) := by
  rw [joinBranches, restoreStates_results, right.ext.localAt inside, mergeOutstanding,
    zipWith_getD (by rwa [outstandingPrefix_length left])
      (by rwa [outstandingPrefix_length right]),
    outstandingPrefix_getD left.start inside, outstandingPrefix_getD left.start inside]

theorem joinBranches_left (running : one.returns = false) (inside : id < before.locals.length)
    (flagged : track.flag one.state id = true) :
    track.flag (joinBranches before one two) id = true := by
  cases track with
  | moves =>
    rw [joinBranches_moves left right inside, running]
    rw [flag_moves_eq left.ext inside, Bool.and_eq_true] at flagged
    rw [flagged.2, Bool.and_true]
    cases two.returns
    · exact mergeMove_left flagged.1
    · exact flagged.1
  | results =>
    rw [joinBranches_results left right inside, running]
    rw [flag_results_eq left.ext inside, Bool.and_eq_true] at flagged
    rw [flagged.1, flagged.2]
    cases two.returns <;> rfl
  | drops => exact flagged

theorem joinBranches_right (running : two.returns = false) (inside : id < before.locals.length)
    (flagged : track.flag two.state id = true) :
    track.flag (joinBranches before one two) id = true := by
  cases track with
  | moves =>
    rw [joinBranches_moves left right inside, running]
    rw [flag_moves_eq right.ext inside, Bool.and_eq_true] at flagged
    rw [flagged.2, Bool.and_true]
    cases one.returns
    · exact mergeMove_right flagged.1
    · exact flagged.1
  | results =>
    rw [joinBranches_results left right inside, running]
    rw [flag_results_eq right.ext inside, Bool.and_eq_true] at flagged
    rw [flagged.1, flagged.2]
    cases one.returns <;> cases one.state.outstanding id <;> rfl
  | drops => exact flagged

theorem joinBranches_raises (inside : id < before.locals.length)
    (flagged : Track.results.flag (joinBranches before one two) id = true) :
    Track.results.flag one.state id = true ∨ Track.results.flag two.state id = true := by
  rw [joinBranches_results left right inside,
    Bool.and_eq_true] at flagged
  rw [flag_results_eq left.ext inside, flag_results_eq right.ext inside, flagged.2, Bool.and_true,
    Bool.and_true]
  obtain ⟨outstanding, -⟩ := flagged
  split at outstanding
  · cases outstanding
  split at outstanding
  · exact .inr outstanding
  split at outstanding
  · exact .inl outstanding
  · exact Bool.or_eq_true_iff.mp outstanding

theorem joinBranches_wellFormed : WellFormed (joinBranches before one two) := by
  have longer := right.ext.locals.length_le
  refine restoreStates_wellFormed right.wellFormed ?_ ?_
  · rw [mergeOutstanding, length_zipWith, outstandingPrefix_length left,
      outstandingPrefix_length right, min_self]
    exact longer
  · rw [mergeMoves]
    split
    · rwa [left.start.moves]
    split
    · rwa [movePrefix_length right]
    split
    · rwa [movePrefix_length left]
    · rwa [length_zipWith, movePrefix_length left,
        movePrefix_length right, min_self]

end Branches

theorem twoBranches_sound {track : Track} {joined : Walked}
    {thenWalk elseWalk : Analyzer → Checked Walked} (wellFormed : WellFormed before)
    (thenSound : ∀ w, thenWalk before = .ok w →
      Evaluates track before w.code w.state w.returns)
    (elseSound : ∀ state w, WellFormed state → elseWalk state = .ok w →
      Evaluates track state w.code w.state w.returns)
    (ran : twoBranches thenWalk elseWalk before = .ok joined) :
    Evaluates track before joined.code joined.state joined.returns := by
  simp only [twoBranches, bind_ok, pure_ok] at ran
  obtain ⟨one, thenWalks, two, elseWalks, rfl⟩ := ran
  have thenBranch := thenSound one thenWalks
  have rewound := elseSound _ two (rewind_wellFormed thenBranch.ext wellFormed
    thenBranch.wellFormed) elseWalks
  have elseBranch := rewound.rewound thenBranch.ext thenBranch.scopes thenBranch.closures wellFormed
  have left : Reached before one.state := ⟨wellFormed, thenBranch.wellFormed, thenBranch.ext⟩
  have right : Reached before two.state := ⟨wellFormed, elseBranch.wellFormed, elseBranch.ext⟩
  refine thenBranch.either elseBranch wellFormed ?_ ?_ ?_ ?_ ?_ ?_ ?_ ?_ ?_
  · exact joinBranches_wellFormed left right
  · exact elseBranch.ext.trans restoreStates_extends
  · exact elseBranch.scopes
  · exact rewound.ext.locals
  · exact prefix_rfl
  · exact elseBranch.closures
  · exact fun goes track id inside => joinBranches_left left right goes inside
  · exact fun goes track id inside => joinBranches_right left right goes inside
  · exact fun id inside => joinBranches_raises left right inside

theorem orElse_sound {track : Track} {error : ElseBinding} {message : String}
    {walk : Analyzer → Checked Walked} {w : Walked} (wellFormed : WellFormed before)
    (block : ∀ state w, WellFormed state → walk state = .ok w →
      Transfer track state w.code w.state w.returns)
    (ran : orElse error walk message before = .ok w) :
    Evaluates track before w.code w.state false := by
  simp only [orElse, bind_ok, require_ok, exists_const, pure_ok] at ran
  obtain ⟨branch, walks, exits, rfl⟩ := ran
  have sound : Evaluates track before branch.code branch.state branch.returns :=
    inScope_sound (fun _ => introducing_sound wellFormed.opened block) walks
  rw [exits] at sound
  refine sound.either (.skip wellFormed) wellFormed (rewind_wellFormed sound.ext wellFormed
    sound.wellFormed) (sound.ext.trans restoreStates_extends) sound.scopes prefix_rfl
    sound.ext.locals sound.closures nofun (fun _ track id inside flagged => ?_)
    fun id inside flagged => .inr ?_
  · rwa [rewind_flag sound.ext track inside]
  · rwa [rewind_flag sound.ext .results inside] at flagged

/-! ### Values that are left behind -/

section Values

variable {track : Track} {value target : Walked} {ends : Bool}

theorem Transfer.panics {code : Code Action} {after : Analyzer}
    (transfer : Transfer track before code after true) :
    Transfer track before code after.forgetOutstanding true where
  wellFormed := ⟨by simp [Analyzer.forgetOutstanding, transfer.wellFormed.outstanding],
    transfer.wellFormed.moves, transfer.wellFormed.ordered, transfer.wellFormed.bounded⟩
  ext := transfer.ext.trans ⟨rfl, fun present => present, prefix_rfl, rfl, rfl⟩
  closures := transfer.closures
  follows := transfer.follows.weaken rfl prefix_rfl nofun fun never => never
  clears := fun track id _ _ => .inr (transfer.always rfl track id)
  raises := by
    intro id _ flagged
    have none : after.forgetOutstanding.outstanding id = false := by
      simp only [Analyzer.outstanding, Analyzer.forgetOutstanding, getD_eq_getElem?_getD,
        List.getElem?_map]
      cases after.resultOutstanding[id]? <;> rfl
    rw [Track.flag, none, Bool.false_and] at flagged
    cases flagged
  always := transfer.always

theorem leaveBehind_sound {left : Walked}
    (transfer : Transfer track before value.code value.state value.returns)
    (ran : leaveBehind value = .ok left) :
    Transfer track before left.code left.state left.returns := by
  simp only [leaveBehind, bind_ok, require_ok, exists_const, pure_ok] at ran
  obtain ⟨-, -, rfl⟩ := ran
  cases returns : value.returns with
  | false =>
    rw [returns] at transfer
    simpa [returns] using transfer
  | true =>
    rw [returns] at transfer
    simpa [returns] using transfer.panics

theorem mem_localsAny {property : Nat → Action → Bool} {code : Code Action} {count id : Nat} :
    id ∈ localsAny property code count ↔ id < count ∧ code.any (property id) = true := by
  rw [localsAny, mem_filter, mem_range]

section Logical

variable {right : Walked} (reached : Reached value.state right.state)
include reached

theorem joinLogical_moves {id : Nat} (inside : id < value.state.locals.length) :
    Track.moves.flag (joinLogical value right).state id
      = (mergeMove (value.state.moveState id) (right.state.moveState id) != .available
        && (value.state.localAt id).type.type.requiresDrop) := by
  have same : (joinLogical value right).state.localAt id = value.state.localAt id :=
    reached.ext.localAt inside
  rw [Track.flag, same]
  simp only [joinLogical, Analyzer.restoreMoves, Analyzer.moveState, restore_getD]
  rw [zipWith_getD (by rwa [reached.start.moves])
    (by rwa [movePrefix_length reached]), movePrefix_getD reached.start inside]
  rfl

theorem joinLogical_wellFormed : WellFormed (joinLogical value right).state where
  outstanding := reached.wellFormed.outstanding
  moves := by
    refine (restore_length ?_).trans reached.wellFormed.moves
    rw [length_zipWith, reached.start.moves, movePrefix_length reached, min_self,
      reached.wellFormed.moves]
    exact reached.ext.locals.length_le
  ordered := reached.wellFormed.ordered
  bounded := reached.wellFormed.bounded

theorem joinLogical_clears (clears : ∀ (track : Track), ∀ id < value.state.locals.length,
      track.flag value.state id = true →
      track.flag right.state id = true ∨ right.code.always (track.clears id) = true)
    (track : Track) {id : Nat} (inside : id < value.state.locals.length)
    (flagged : track.flag value.state id = true) :
    track.flag (joinLogical value right).state id = true
      ∨ track = .results ∧ right.code.always (Action.mentions id) = true := by
  cases track with
  | moves =>
    rw [joinLogical_moves reached inside]
    rw [Track.flag, Bool.and_eq_true] at flagged
    exact .inl (by rw [mergeMove_left flagged.1, flagged.2]; rfl)
  | results => exact (clears .results id inside flagged).imp_right fun mentioned => ⟨rfl, mentioned⟩
  | drops => cases flagged

theorem joinLogical_sound (one : Evaluates track before value.code value.state ends)
    (two : Evaluates track value.state right.code right.state false) :
    Evaluates track before (joinLogical value right).code (joinLogical value right).state false := by
  have joined := joinLogical_wellFormed reached
  have longer : Extends value.state (joinLogical value right).state :=
    reached.ext.trans ⟨rfl, fun present => present, prefix_rfl, rfl, rfl⟩
  have keeps := joinLogical_clears reached two.clears
  suffices choice : Evaluates track value.state (.either right.code (.act (.skipped
      (localsAlways Action.mentions right.code value.state.locals.length))))
      (joinLogical value right).state (false && false) from (one.seq choice).forget nofun
  refine ⟨⟨⟨joined, longer, two.closures, Follows.either ?_ (Follows.act ?_)⟩, ?_, ?_,
    nofun⟩, two.scopes⟩
  · refine two.follows.weaken rfl prefix_rfl (fun _ id mem flagged => ?_) nofun
    rw [two.scopes] at mem
    have inside := reached.start.bounded id mem
    cases track with
    | moves =>
      rw [joinLogical_moves reached inside]
      rw [flag_moves_eq reached.ext inside, Bool.and_eq_true] at flagged
      rw [mergeMove_right flagged.1, flagged.2]
      rfl
    | results | drops => exact flagged
  · intro marks env _ holds met
    refine ⟨by cases track <;> trivial, holds.marks, ?_, ?_⟩
    · have related := holds.scopes.mono reached.ext.locals
      rwa [← two.scopes] at related
    · intro id mem affected
      have inScope : id ∈ scopeIds value.state.scopes := by rwa [← two.scopes]
      have inside := reached.start.bounded id inScope
      rw [Track.bad_step (by rintro ⟨⟩)] at affected
      rcases keeps track inside (holds.covered id inScope affected) with stays | ⟨rfl, mentioned⟩
      · exact stays
      · rw [met id (mem_localsAlways.mpr ⟨inside, mentioned⟩)] at affected
        cases affected
  · intro track id inside flagged
    refine (keeps track inside flagged).imp_right ?_
    rintro ⟨rfl, mentioned⟩
    rw [Code.always, Track.clears, mentioned, Bool.true_and, Code.always, Action.mentions,
      contains_iff_mem, mem_localsAlways]
    exact ⟨inside, mentioned⟩
  · intro id inside flagged
    refine (two.raises id inside flagged).imp_right fun stored => ?_
    rw [Code.any, stored, Bool.true_or]

end Logical

end Values

/-! ### Arms -/

section MergeAll

variable {α : Type} {merge : α → α → α} {default : α} {count id : Nat}

theorem foldl_zipWith_length {first : List α} {rest : List (List α)} (length : first.length = count)
    (lengths : ∀ entries ∈ rest, entries.length = count) :
    (rest.foldl (List.zipWith merge) first).length = count := by
  induction rest generalizing first with
  | nil => exact length
  | cons entries rest ih =>
    refine ih ?_ fun others mem => lengths others (mem_cons_of_mem _ mem)
    rw [length_zipWith, length, lengths entries mem_cons_self, min_self]

theorem foldl_zipWith_flagged (flagged : α → Bool) {first : List α} {rest : List (List α)}
    (joins : ∀ left right, flagged (merge left right) = (flagged left || flagged right))
    (length : first.length = count) (lengths : ∀ entries ∈ rest, entries.length = count)
    (inside : id < count) :
    flagged ((rest.foldl (List.zipWith merge) first).getD id default)
      = (flagged (first.getD id default) || rest.any fun entries => flagged (entries.getD id default)) := by
  induction rest generalizing first with
  | nil => rw [any_nil, Bool.or_false]; rfl
  | cons entries rest ih =>
    have same := lengths entries mem_cons_self
    rw [foldl_cons, ih (by rw [length_zipWith, length, same, min_self])
      fun others mem => lengths others (mem_cons_of_mem _ mem),
      zipWith_getD (by omega) (by omega), joins, any_cons, Bool.or_assoc]

theorem mergeAll_length {lists : List (List α)} {merged : List α}
    (lengths : ∀ entries ∈ lists, entries.length = count)
    (found : mergeAll merge lists = some merged) : merged.length = count := by
  cases lists with
  | nil => cases found
  | cons first =>
    cases found
    exact foldl_zipWith_length (lengths first mem_cons_self)
      fun entries mem => lengths entries (mem_cons_of_mem _ mem)

theorem mergeAll_flagged (flagged : α → Bool) {lists : List (List α)} {merged : List α}
    (joins : ∀ left right, flagged (merge left right) = (flagged left || flagged right))
    (lengths : ∀ entries ∈ lists, entries.length = count) (inside : id < count)
    (found : mergeAll merge lists = some merged) :
    flagged (merged.getD id default)
      = lists.any fun entries => flagged (entries.getD id default) := by
  cases lists with
  | nil => cases found
  | cons first =>
    cases found
    rw [any_cons]
    exact foldl_zipWith_flagged flagged joins (lengths first mem_cons_self)
      (fun entries mem => lengths entries (mem_cons_of_mem _ mem)) inside

end MergeAll

/-- What an arm flags. -/
def Track.armFlag (before : Analyzer) (arm : ArmState) (id : Nat) : Track → Bool
  | .moves => arm.moves.getD id .available != .available
      && (before.localAt id).type.type.requiresDrop
  | .results => arm.outstanding.getD id false && (before.localAt id).type.inspected.isResult
  | .drops => false

theorem armFlag_armState {w : Walked} {id : Nat} (wellFormed : WellFormed before)
    (ext : Extends before w.state) (inside : id < before.locals.length) (track : Track) :
    track.armFlag before (armState before w) id = track.flag w.state id := by
  cases track with
  | moves =>
    rw [Track.armFlag, armState, movePrefix_getD wellFormed inside, flag_moves_eq ext inside]
  | results =>
    rw [Track.armFlag, armState, outstandingPrefix_getD wellFormed inside,
      flag_results_eq ext inside]
  | drops => rfl

/-- **The arms of a match or select**, and what any state has to flag that covers them. -/
structure ArmsSound (track : Track) (before : Analyzer) (walked : Arms.Walked) : Prop where
  wellFormed : WellFormed walked.state
  ext : Extends before walked.state
  scopes : walked.state.scopes = before.scopes
  closures : ∀ body ∈ walked.state.closures, body ∈ before.closures ∨ BodySound track body
  lengths : ∀ arm ∈ walked.arms, arm.moves.length = before.locals.length
    ∧ arm.outstanding.length = before.locals.length
  raises : ∀ arm ∈ walked.arms, ∀ id < before.locals.length,
    Track.results.armFlag before arm id = true →
    Track.results.flag before id = true ∨ walked.code.any (Action.storesResult id) = true
  always : walked.arms.all (·.terminates) = true →
    ∀ (track : Track) id, walked.code.always (track.clears id) = true
  covers : ∀ after, after.scopes = before.scopes → walked.state.locals <+: after.locals →
    (∀ arm ∈ walked.arms, arm.terminates = false → ∀ (track : Track), ∀ id < before.locals.length,
      track.armFlag before arm id = true → track.flag after id = true) →
    Follows track before walked.code after (walked.arms.all (·.terminates))
    ∧ ∀ (track : Track), ∀ id < before.locals.length, track.flag before id = true →
      track.flag after id = true ∨ walked.code.always (track.clears id) = true

section Arms

variable {track : Track} {m : Analyzer} {w : Arms.Walked} {tests : Code Action}
variable {e : ArmState}
  {arm : Walked} {ends : Bool}

theorem ArmsSound.nil (wellFormed : WellFormed m) (ext : Extends before m)
    (scopes : m.scopes = before.scopes)
    (closures : ∀ body ∈ m.closures, body ∈ before.closures ∨ BodySound track body) :
    ArmsSound track before { state := m } where
  wellFormed := wellFormed
  ext := ext
  scopes := scopes
  closures := closures
  lengths := nofun
  raises := nofun
  always := fun _ _ _ => rfl
  covers := fun _ _ _ _ => ⟨fun _ _ => Triple.jump fun _ _ => trivial, fun _ _ _ _ => .inr rfl⟩

theorem ArmsSound.cons (tested : Evaluates track before tests m false)
    (evaluates : Evaluates track m arm.code arm.state ends)
    (terminates : arm.returns = true → ends = true) (wellFormed : WellFormed before)
    (rest : ArmsSound track before w) (later : arm.state.locals <+: w.state.locals) :
    ArmsSound track before (consArm before tests arm w) := by
  have whole : Evaluates track before (.seq tests arm.code) arm.state ends := by
    have both := tested.seq evaluates
    rwa [Bool.false_or] at both
  have flags {id : Nat} (inside : id < before.locals.length) (track : Track) :=
    (armFlag_armState wellFormed whole.ext inside track)
  refine ⟨rest.wellFormed, rest.ext, rest.scopes, rest.closures, ?_, ?_, ?_, ?_⟩
  · intro e mem
    rcases mem_cons.mp mem with rfl | old
    · have reached : Reached before arm.state := ⟨wellFormed, whole.wellFormed, whole.ext⟩
      exact ⟨movePrefix_length reached, outstandingPrefix_length reached⟩
    · exact rest.lengths e old
  · intro e mem id inside flagged
    rw [consArm, Code.any, Bool.or_eq_true]
    rcases mem_cons.mp mem with rfl | old
    · rw [flags inside .results] at flagged
      exact (whole.raises id inside flagged).imp_right .inl
    · exact (rest.raises e old id inside flagged).imp_right .inr
  · intro all track id
    obtain ⟨first, others⟩ := Bool.and_eq_true_iff.mp all
    rw [consArm, Code.always, whole.always (terminates first) track id,
      rest.always others track id, Bool.and_true]
  · intro after scopes locals covered
    obtain ⟨follows, clears⟩ := rest.covers after scopes locals fun e mem =>
      covered e (mem_cons_of_mem _ mem)
    have here (running : ends = false) (track : Track) {id : Nat} (inside : id < before.locals.length)
        (flagged : track.flag arm.state id = true) : track.flag after id = true := by
      refine covered _ mem_cons_self ?_ track id inside (by rwa [flags inside])
      rw [armState, ← Bool.not_eq_true]
      exact fun returns => by rw [terminates returns] at running; cases running
    refine ⟨Follows.either ?_ follows, fun track id inside flagged => ?_⟩
    · refine whole.follows.weaken (scopes.trans whole.scopes.symm) (later.trans locals)
        (fun running id mem flagged => ?_) terminates
      rw [whole.scopes] at mem
      exact here running track (wellFormed.bounded id mem) flagged
    · rw [consArm, Code.always, Bool.and_eq_true]
      rcases clears track id inside flagged with stays | gone
      · exact .inl stays
      · rcases whole.clears track id inside flagged with stays | cleared
        · cases running : ends with
          | false => exact .inl (here running track inside stays)
          | true => exact .inr ⟨whole.always running track id, gone⟩
        · exact .inr ⟨cleared, gone⟩

theorem mem_continuing {arms : List ArmState} :
    e ∈ continuing arms ↔ e ∈ arms ∧ e.terminates = false := by
  rw [continuing, mem_filter, Bool.not_eq_true']

section Merged

variable (sound : ArmsSound track before w)

include sound

theorem outstanding_lengths : ∀ entries ∈ (continuing w.arms).map (·.outstanding),
    entries.length = before.locals.length := by
  rw [forall_mem_map]
  exact fun e mem => (sound.lengths e (mem_continuing.mp mem).1).2

theorem moves_lengths : ∀ entries ∈ (continuing w.arms).map (·.moves),
    entries.length = before.locals.length := by
  rw [forall_mem_map]
  exact fun e mem => (sound.lengths e (mem_continuing.mp mem).1).1

theorem mergeArmOutstanding_iff {merged : List Bool} {id : Nat}
    (found : mergeArmOutstanding w.arms = some merged) (inside : id < before.locals.length) :
    merged.getD id false = true
      ↔ ∃ e ∈ continuing w.arms, e.outstanding.getD id false = true := by
  have joined : merged.getD id false = _ :=
    mergeAll_flagged (fun value => value) (fun _ _ => rfl) (outstanding_lengths sound) inside found
  rw [joined, any_map, any_eq_true]
  rfl

theorem mergeArmMoves_iff {merged : List MoveState} {id : Nat}
    (found : mergeArmMoves w.arms = some merged) (inside : id < before.locals.length) :
    (merged.getD id .available != .available) = true
      ↔ ∃ e ∈ continuing w.arms, (e.moves.getD id .available != .available) = true := by
  have joined : (merged.getD id .available != .available) = _ :=
    mergeAll_flagged (fun value => value != .available) mergeMove_flagged (moves_lengths sound)
      inside found
  rw [joined, any_map, any_eq_true]
  rfl

omit sound in
theorem mergeArmMoves_isSome (mem : e ∈ w.arms)
    (running : e.terminates = false) :
    (∃ merged, mergeArmMoves w.arms = some merged)
      ∧ ∃ merged, mergeArmOutstanding w.arms = some merged := by
  have present := mem_continuing.mpr ⟨mem, running⟩
  rw [mergeArmMoves, mergeArmOutstanding]
  cases known : continuing w.arms with
  | nil =>
    rw [known] at present
    cases present
  | cons => exact ⟨⟨_, rfl⟩, ⟨_, rfl⟩⟩

variable {outstanding : List Bool}
  (merges : ∀ merged, mergeArmOutstanding w.arms = some merged → outstanding = merged)
  (alone : mergeArmOutstanding w.arms = none → outstanding.length = before.locals.length
    ∧ ∀ id, outstanding.getD id false = true → before.outstanding id = true)

include merges

theorem afterArms_covers (mem : e ∈ w.arms)
    (running : e.terminates = false) (y : Track) {id : Nat}
    (inside : id < before.locals.length) (flagged : y.armFlag before e id = true) :
    y.flag (afterArms before w outstanding) id = true := by
  obtain ⟨⟨moves, moved⟩, results, handled⟩ := mergeArmMoves_isSome mem running
  have present := mem_continuing.mpr ⟨mem, running⟩
  cases y with
  | moves =>
    rw [Track.armFlag, Bool.and_eq_true] at flagged
    rw [afterArms, restoreStates_moves, sound.ext.localAt inside, moved, Option.getD_some,
      (mergeArmMoves_iff sound moved inside).mpr ⟨e, present, flagged.1⟩, flagged.2, Bool.true_and]
  | results =>
    rw [Track.armFlag, Bool.and_eq_true] at flagged
    rw [afterArms, restoreStates_results, sound.ext.localAt inside, merges results handled,
      (mergeArmOutstanding_iff sound handled inside).mpr ⟨e, present, flagged.1⟩, flagged.2,
      Bool.true_and]
  | drops => exact flagged

include alone

theorem afterArms_wellFormed (wellFormed : WellFormed before) :
    WellFormed (afterArms before w outstanding) := by
  have longer := sound.ext.locals.length_le
  refine restoreStates_wellFormed sound.wellFormed ?_ ?_
  · cases found : mergeArmOutstanding w.arms with
    | none => rwa [(alone found).1]
    | some merged => rwa [merges merged found, mergeAll_length (outstanding_lengths sound) found]
  · cases found : mergeArmMoves w.arms with
    | none => rwa [Option.getD_none, wellFormed.moves]
    | some => rwa [Option.getD_some, mergeAll_length (moves_lengths sound) found]

theorem afterArms_raises {id : Nat} (inside : id < before.locals.length)
    (flagged : Track.results.flag (afterArms before w outstanding) id = true) :
    Track.results.flag before id = true ∨ w.code.any (Action.storesResult id) = true := by
  rw [afterArms, restoreStates_results, sound.ext.localAt inside, Bool.and_eq_true] at flagged
  cases found : mergeArmOutstanding w.arms with
  | none =>
    left
    rw [Track.flag, (alone found).2 id flagged.1, flagged.2, Bool.and_true]
  | some merged =>
    rw [merges merged found, mergeArmOutstanding_iff sound found inside] at flagged
    obtain ⟨⟨e, present, outstanding⟩, result⟩ := flagged
    refine sound.raises e (mem_continuing.mp present).1 id inside ?_
    rw [Track.armFlag, outstanding, result, Bool.and_true]

theorem afterArms_sound (wellFormed : WellFormed before) :
    Evaluates track before w.code (afterArms before w outstanding)
      (w.arms.all (·.terminates)) := by
  obtain ⟨follows, clears⟩ := sound.covers (afterArms before w outstanding) sound.scopes
    prefix_rfl fun e mem running y id inside flagged =>
      afterArms_covers sound merges mem running y inside flagged
  exact ⟨⟨⟨afterArms_wellFormed sound merges alone wellFormed,
    sound.ext.trans restoreStates_extends, sound.closures, follows⟩, clears,
    fun id inside => afterArms_raises sound merges alone inside, sound.always⟩, sound.scopes⟩

omit merges alone

theorem joinArms_sound (wellFormed : WellFormed before) :
    Evaluates track before w.code (joinArms before w)
      (w.arms.all (·.terminates)) := by
  refine afterArms_sound sound (fun merged found => ?_) (fun none => ?_) wellFormed
  · have some : w.arms.isEmpty = false := by
      cases known : w.arms with
      | nil => rw [known] at found; cases found
      | cons => rfl
    rw [some, if_neg (by decide), found, Option.getD_some]
  · rw [none, Option.getD_none]
    split
    · exact ⟨wellFormed.outstanding, fun _ outstanding => outstanding⟩
    · refine ⟨by rw [length_map, wellFormed.outstanding], fun id outstanding => ?_⟩
      rw [map_const', getD_eq_getElem?_getD, List.getElem?_replicate] at outstanding
      split at outstanding <;> cases outstanding

theorem joinSelect_sound (wellFormed : WellFormed before) :
    Evaluates track before w.code (joinSelect before w)
      (w.arms.all (·.terminates)) := by
  refine afterArms_sound sound (fun merged found => ?_) (fun none => ?_) wellFormed
  · rw [found, Option.getD_some]
  · rw [none, Option.getD_none]
    exact ⟨wellFormed.outstanding, fun _ outstanding => outstanding⟩

end Merged

end Arms

/-! ### Guards -/

section Guards

variable {track : Track} {after : Analyzer} {w guarded : Walked} {guard : Code Action}
  {ends : Bool}

theorem guard_sound (evaluates : Evaluates track before w.code w.state ends)
    (wellFormed : WellFormed before)
    (unmoved : w.state.movePrefix before = before.moveStates) :
    Evaluates track before w.code (w.state.restoreMoves before.moveStates) false
      ∧ ∀ id < before.locals.length,
        Track.moves.flag (w.state.restoreMoves before.moveStates) id
          = Track.moves.flag before id := by
  have longer := evaluates.ext.locals.length_le
  have original {id : Nat} (inside : id < before.locals.length) :
      (w.state.restoreMoves before.moveStates).moveState id = before.moveState id := by
    rw [Analyzer.restoreMoves, Analyzer.moveState, restore_getD, Analyzer.moveState]
  have moves {id : Nat} (inside : id < before.locals.length) :
      (w.state.restoreMoves before.moveStates).moveState id = w.state.moveState id := by
    have reading : (w.state.movePrefix before).getD id .available
        = w.state.moveState id := movePrefix_getD wellFormed inside
    rw [original inside, ← reading, unmoved]
    rfl
  have flags (track : Track) {id : Nat} (inside : id < before.locals.length) :
      track.flag (w.state.restoreMoves before.moveStates) id
        = track.flag w.state id := by
    cases track with
    | moves => rw [Track.flag, moves inside]; rfl
    | results | drops => rfl
  refine ⟨⟨⟨⟨?_, evaluates.ext.trans ⟨rfl, fun present => present, prefix_rfl, rfl, rfl⟩,
    evaluates.closures, ?_⟩, ?_, ?_, ?_⟩, evaluates.scopes⟩, ?_⟩
  · refine ⟨evaluates.wellFormed.outstanding, ?_, evaluates.wellFormed.ordered,
      evaluates.wellFormed.bounded⟩
    refine (restore_length ?_).trans evaluates.wellFormed.moves
    rwa [wellFormed.moves, evaluates.wellFormed.moves]
  · refine evaluates.follows.weaken rfl prefix_rfl (fun _ id mem flagged => ?_)
      fun ends => absurd ends Bool.false_ne_true
    rw [evaluates.scopes] at mem
    rwa [flags track (wellFormed.bounded id mem)]
  · intro track id inside flagged
    rw [flags track inside]
    exact evaluates.clears track id inside flagged
  · exact evaluates.raises
  · exact fun ends => absurd ends Bool.false_ne_true
  · intro id inside
    have same : (w.state.restoreMoves before.moveStates).localAt id = before.localAt id :=
      evaluates.ext.localAt inside
    rw [Track.flag, Track.flag, original inside, same]

/-- Later locals change nothing for the open ones. -/
structure Same (before after : Analyzer) : Prop where
  wellFormed : WellFormed after
  ext : Extends before after
  scopes : after.scopes = before.scopes
  flags : ∀ (track : Track), ∀ id < before.locals.length, track.flag after id = track.flag before id

/-- The states before some branches are the same whenever they are restored. -/
theorem Same.rewind (wellFormed : WellFormed before) (later : WellFormed after)
    (first : Extends before state) (ext : Extends state after)
    (same : after.scopes = state.scopes) : Same (rewind before state) (rewind before after) where
  wellFormed := rewind_wellFormed (first.trans ext) wellFormed later
  ext := ⟨ext.tail, ext.nonempty, ext.locals, ext.bases, ext.void⟩
  scopes := same
  flags := by
    intro track id _
    rcases Nat.lt_or_ge id before.locals.length with inside | outside
    · rw [rewind_flag (first.trans ext) track inside, rewind_flag first track inside]
    · rw [rewind_flag_of_le wellFormed track outside, rewind_flag_of_le wellFormed track outside]

theorem Same.evaluates (same : Same before after)
    (closures : ∀ body ∈ after.closures, body ∈ before.closures ∨ BodySound track body)
    (follows : Follows track before guard after false) : Evaluates track before guard after false :=
  ⟨⟨⟨same.wellFormed, same.ext, closures, follows⟩, .of_flags same.flags⟩, same.scopes⟩

theorem Same.skip (same : Same before after) (wellFormed : WellFormed before) :
    Follows track before .skip after false := by
  refine Follows.skip.weaken same.scopes same.ext.locals (fun _ id mem flagged => ?_) nofun
  rwa [same.flags track id (wellFormed.bounded id mem)]

theorem guardFailure_follows {count : Nat} (wellFormed : WellFormed before)
    (many : before.locals.length ≤ count)
    (evaluates : Evaluates track (openScope before) guarded.code guarded.state false)
    (unmoved : ∀ id < before.locals.length,
      Track.moves.flag guarded.state id = Track.moves.flag before id)
    (same : Same before after) (later : guarded.state.locals <+: after.locals) :
    Follows track before (guardFailure guarded.code count) after false := by
  have opened (track : Track) : track.flag (openScope after) = track.flag after :=
    Track.flag_congr rfl rfl rfl
  have ext : Extends guarded.state (openScope after) := by
    refine ⟨?_, fun _ => cons_ne_nil _ _, later, ?_, ?_⟩
    · rw [evaluates.scopes]
      exact same.scopes
    · rw [evaluates.ext.bases]
      exact same.ext.bases
    · rw [evaluates.ext.void]
      exact same.ext.void
  have failed : Follows track guarded.state
      (.act (.guardFailed (localsAny Action.storesResult guarded.code count)))
      (openScope after) false := by
    refine Follows.act fun marks env _ holds met =>
      ⟨by cases track <;> trivial, holds.marks, ?_, ?_⟩
    · have related := holds.scopes.mono later
      rw [evaluates.scopes] at related
      rw [openScope, same.scopes]
      exact related
    · intro id mem affected
      rw [openScope, same.scopes] at mem
      have inside := wellFormed.bounded id mem
      rw [Track.bad_step (by rintro ⟨⟩)] at affected
      have flagged := holds.covered id (by rw [evaluates.scopes]; exact mem) affected
      rw [opened, same.flags track id inside]
      cases track with
      | moves => rwa [unmoved id inside] at flagged
      | results =>
        rcases evaluates.raises id inside flagged with already | stored
        · exact already
        · rw [met id (mem_localsAny.mpr ⟨inside.trans_le many, stored⟩)] at affected
          cases affected
      | drops => exact flagged
  have inner := evaluates.follows.seq failed evaluates.ext ext
  refine Follows.either (same.skip wellFormed)
    ((fun marks marked => ?_ : Follows track before _ after false))
  refine Triple.scope inner (evaluates.ext.trans ext) (fun marks env holds => ?_) marked.surrounds
  have empty : env.scopes.take 1 = [[]] := by
    obtain ⟨slots, rest, none, -, known⟩ := forall₂_cons_left_iff.mp holds.scopes
    rw [known, forall₂_nil_left_iff.mp none]
    rfl
  cases track with
  | moves => trivial
  | results =>
    rw [Track.safe, ResultSafe, empty]
    exact fun scope mem slot inside => by
      rw [mem_singleton.mp mem] at inside
      cases inside
  | drops =>
    rw [Track.safe, DropSafe, empty]
    exact ⟨rfl, nodup_nil⟩

end Guards

/-! ### Loops -/

section Loops

variable {track : Track} {tested after : Analyzer} {body : Walked} {guard : Code Action}
  {ends : Bool}

/-- One pass over the body of a loop. -/
structure Round (track : Track) (before : Analyzer) (body : Walked) : Prop
    extends Effect before body.code body.state body.returns where
  wellFormed : WellFormed body.state
  ext : Extends before body.state
  scopes : body.state.scopes = before.scopes
  closures : ∀ code ∈ body.state.closures, code ∈ before.closures ∨ BodySound track code
  follows : ∀ marks, Surrounds (inLoop before) marks →
    Triple Env.step track.meets track.safe (Holds track (inLoop before) marks) body.code
      (Post track body.state marks body.returns)

theorem loopBody_sound {walk : Analyzer → Checked Walked} (wellFormed : WellFormed before)
    (inner : ∀ state w, WellFormed state → walk state = .ok w →
      Transfer track state w.code w.state w.returns)
    (ran : loopBody walk before = .ok body) : Round track before body := by
  simp only [loopBody, inScope, bind_ok, pure_ok] at ran
  obtain ⟨closed, ⟨w, walks, closes⟩, rfl⟩ := ran
  have started : WellFormed (inLoop before) :=
    ⟨wellFormed.outstanding, wellFormed.moves, wellFormed.ordered, wellFormed.bounded⟩
  have transfer := inner _ w started.opened walks
  obtain ⟨evaluates, returns, -⟩ := closeScope_sound transfer closes
  have looping (track : Track) : track.flag (inLoop before) = track.flag before :=
    Track.flag_congr rfl rfl rfl
  have popped (track : Track) :
      track.flag { closed.state with loopScopeBases := before.loopScopeBases }
        = track.flag closed.state := Track.flag_congr rfl rfl rfl
  have form := evaluates.wellFormed
  refine ⟨⟨?_, ?_, ?_⟩, ⟨form.outstanding, form.moves, form.ordered, form.bounded⟩,
    ⟨evaluates.ext.tail, evaluates.ext.nonempty, evaluates.ext.locals, rfl, evaluates.ext.void⟩,
    evaluates.scopes, evaluates.closures, fun marks surrounds => ?_⟩
  · intro track
    rw [popped, ← looping]
    exact evaluates.clears track
  · rw [popped, ← looping]
    exact evaluates.raises
  · rw [returns]
    exact evaluates.always
  · refine (closeScope_round transfer closes surrounds).consequence (fun _ holds => holds)
      fun exit env post => ?_
    cases exit with
    | normal =>
      refine ⟨returns.trans post.1, post.2.marks, post.2.scopes, ?_⟩
      rw [Covered, popped]
      exact post.2.covered
    | brk | cont => exact Left.weaken post rfl prefix_rfl
    | ret | stop => trivial

section Merge

variable (ran : mergeLoop tested body = .ok after) (wellFormed : WellFormed tested)
  (round : Round track tested body)

include ran

theorem mergeLoop_unmoved (running : body.returns = false) :
    body.state.movePrefix tested = tested.moveStates := by
  simp only [mergeLoop, bind_ok, require_ok, exists_const, pure_ok] at ran
  have equal := ran.1
  rw [running] at equal
  simpa using equal

theorem mergeLoop_eq : ∃ moves, after = body.state.restoreStates
      (List.zipWith (· || ·) tested.resultOutstanding (body.state.outstandingPrefix tested)) moves
    ∧ moves = List.zipWith (fun e _ => e) tested.moveStates (body.state.movePrefix tested) := by
  simp only [mergeLoop, bind_ok, require_ok, exists_const, pure_ok] at ran
  obtain ⟨equal, rfl⟩ := ran
  refine ⟨_, rfl, ?_⟩
  cases settled : body.returns && !(body.state.loopJumps != tested.loopJumps) with
  | true => simp
  | false =>
    have same : body.state.movePrefix tested = tested.moveStates := by
      cases returns : body.returns <;> simp_all
    rw [same]
    refine ext_getElem (by simp) fun index _ _ => ?_
    simp

include wellFormed round

theorem mergeLoop_results {id : Nat} (inside : id < tested.locals.length) :
    Track.results.flag after id
      = (Track.results.flag tested id || Track.results.flag body.state id) := by
  obtain ⟨_, rfl, -⟩ := mergeLoop_eq ran
  rw [restoreStates_results, zipWith_getD (by rwa [wellFormed.outstanding])
    (by rwa [outstandingPrefix_length ⟨wellFormed, round.wellFormed, round.ext⟩]),
    outstandingPrefix_getD wellFormed inside, round.ext.localAt inside, Track.flag,
    flag_results_eq round.ext inside, Bool.and_or_distrib_right]
  rfl

theorem mergeLoop_moves {id : Nat} (inside : id < tested.locals.length) :
    Track.moves.flag after id = Track.moves.flag tested id := by
  obtain ⟨_, rfl, rfl⟩ := mergeLoop_eq ran
  rw [restoreStates_moves, zipWith_getD (by rwa [wellFormed.moves])
    (by rwa [movePrefix_length ⟨wellFormed, round.wellFormed, round.ext⟩]), round.ext.localAt inside]
  rfl

theorem mergeLoop_wellFormed : WellFormed after := by
  have longer := round.ext.locals.length_le
  obtain ⟨_, rfl, rfl⟩ := mergeLoop_eq ran
  refine restoreStates_wellFormed round.wellFormed ?_ ?_
  · rw [length_zipWith, wellFormed.outstanding,
      outstandingPrefix_length ⟨wellFormed, round.wellFormed, round.ext⟩, min_self]
    exact longer
  · rw [length_zipWith, wellFormed.moves,
      movePrefix_length ⟨wellFormed, round.wellFormed, round.ext⟩, min_self]
    exact longer

theorem mergeLoop_flags (y : Track) {id : Nat} (inside : id < tested.locals.length)
    (flagged : y.flag tested id = true) : y.flag after id = true := by
  cases y with
  | moves => rwa [mergeLoop_moves ran wellFormed round inside]
  | results => rw [mergeLoop_results ran wellFormed round inside, flagged, Bool.true_or]
  | drops => exact flagged

/-- **Loops.** The guard leads to `tested`, the state in which the body is walked over. -/
theorem loop_sound (started : WellFormed before)
    (evaluates : Evaluates track before guard tested ends)
    (test : ∀ marks, Marked before marks →
      Triple Env.step track.meets track.safe (Holds track before marks) guard
        (onNormal (Post track tested marks false) (Tested track before tested marks)))
    (unmoved : ∀ id < before.locals.length,
      Track.moves.flag tested id = true → Track.moves.flag before id = true) :
    Evaluates track before (loopCode guard body.code) after false := by
  have longer := evaluates.ext.locals.length_le
  have merged : after.scopes = tested.scopes ∧ after.locals = body.state.locals
      ∧ after.loopScopeBases = body.state.loopScopeBases
      ∧ after.returnsVoid = body.state.returnsVoid ∧ after.closures = body.state.closures := by
    obtain ⟨moves, rfl, -⟩ := mergeLoop_eq ran
    exact ⟨round.scopes, rfl, rfl, rfl, rfl⟩
  obtain ⟨scopes, locals, bases, void, closures⟩ := merged
  have flags (y : Track) {id : Nat} (inside : id < tested.locals.length) :=
    mergeLoop_flags ran wellFormed round y inside
  have ext : Extends before after := by
    refine ⟨by rw [scopes, evaluates.scopes], by rw [scopes, evaluates.scopes]; exact fun p => p,
      ?_, ?_, ?_⟩
    · rw [locals]
      exact evaluates.ext.locals.trans round.ext.locals
    · rw [bases, round.ext.bases, evaluates.ext.bases]
    · rw [void, round.ext.void, evaluates.ext.void]
  refine ⟨⟨⟨mergeLoop_wellFormed ran wellFormed round, ext, ?_, ?_⟩, ?_, ?_, nofun⟩,
    scopes.trans evaluates.scopes⟩
  · rw [closures]
    exact fun code mem => (round.closures code mem).elim (evaluates.closures code) .inr
  · refine Follows.loop test round.follows started evaluates.scopes
      (evaluates.ext.locals.trans round.ext.locals) round.scopes evaluates.ext.bases ?_ ?_ ?_
    · intro running id mem moves flagged
      subst moves
      have inside := started.bounded id mem
      refine unmoved id inside ?_
      have reading : (body.state.movePrefix tested).getD id .available = body.state.moveState id :=
        movePrefix_getD wellFormed (inside.trans_le longer)
      rw [mergeLoop_unmoved ran running] at reading
      rw [flag_moves_eq round.ext (inside.trans_le longer), ← reading] at flagged
      exact flagged
    · refine ⟨scopes, by rw [locals]; exact round.ext.locals, fun id mem flagged => ?_⟩
      exact flags track (wellFormed.bounded id mem) flagged
    · exact locals ▸ prefix_rfl
  · intro y id inside flagged
    rcases evaluates.clears y id inside flagged with stays | cleared
    · exact .inl (flags y (inside.trans_le longer) stays)
    · exact .inr cleared
  · intro id inside flagged
    simp only [loopCode, Code.any, Bool.or_eq_true]
    rw [mergeLoop_results ran wellFormed round (inside.trans_le longer), Bool.or_eq_true]
      at flagged
    have origin : Track.results.flag tested id = true
        ∨ body.code.any (Action.storesResult id) = true :=
      flagged.elim .inl (round.raises id (inside.trans_le longer))
    rcases origin with already | stored
    · exact (evaluates.raises id inside already).imp_right .inl
    · exact .inr (.inr (.inr (.inl stored)))

end Merge

end Loops

end FoundationLang.Flow
