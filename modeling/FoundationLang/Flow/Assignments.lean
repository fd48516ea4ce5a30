/-
**Assignments.**

A name that is assigned to is available again and holds what it was given. A place that is assigned
to is evaluated after the value, while the walk meets it before; the two orders agree when the place
only reads and the `Result`s it mentions are handled.
-/

import FoundationLang.Flow.Transfer

namespace FoundationLang.Flow

open Library List

variable {code : Code Action} {ids : List Nat}

section Stores

variable {track : Track} {s t : Analyzer} {value target : Walked} {id : Nat} {ends : Bool}
variable {type : FlowType}

/-- A local that holds no unhandled `Result` gets a new value. -/
theorem store_sound {mustUse : Bool} (restates : Restates s t)
    (wf : WellFormed s) (mem : id ∈ scopeIds s.scopes)
    (others : ∀ (track : Track), ∀ other ≠ id, track.flag t other = track.flag s other)
    (handled : Track.results.flag s id = false)
    (stored : Track.results.flag t id = mustUse) :
    Evaluates track s (.act (.store id mustUse)) t false := by
  refine ⟨⟨⟨restates.wellFormed wf, restates.ext, ?_, Follows.act ?_⟩, ?_, ?_, nofun⟩,
    restates.scopes⟩
  · rw [restates.closures]
    exact fun _ => .inl
  · intro marks env _ holds _
    refine ⟨?_, holds.marks, ?_, ?_⟩
    · cases track with
      | moves | drops => trivial
      | results =>
        have covered : env.pending id = true → Track.results.flag s id = true :=
          holds.covered id mem
        rw [handled] at covered
        rw [Track.safe, ResultSafe]
        cases pending : env.pending id with
        | false => rfl
        | true => cases covered pending
    · rw [restates.scopes, restates.locals]
      exact holds.scopes
    · intro other inScope affected
      rw [restates.scopes] at inScope
      by_cases same : other = id
      · subst same
        cases track with
        | moves | drops => simp [Track.bad, Env.step] at affected
        | results =>
          rw [stored]
          simpa [Track.bad, Env.step] using affected
      · have elsewhere : (Action.store id mustUse).target ≠ some other :=
          fun equal => same (Option.some.inj equal).symm
        rw [Track.bad_step elsewhere] at affected
        rw [others track other same]
        exact holds.covered other inScope affected
  · intro track other inside flagged
    by_cases same : other = id
    · subst same
      cases track with
      | moves => exact .inr (by simp [Code.always, Track.clears, Action.renews])
      | results => rw [handled] at flagged; cases flagged
      | drops => cases flagged
    · exact .inl (by rwa [others track other same])
  · intro other inside flagged
    by_cases same : other = id
    · subst same
      rw [stored] at flagged
      exact .inr (by simp [Code.any, Action.storesResult, flagged])
    · exact .inl (by rwa [others .results other same] at flagged)

theorem setOutstanding_flag (wf : WellFormed s) (mem : id ∈ scopeIds s.scopes) :
    Track.results.flag (s.setOutstanding id true) id
      = (s.localAt id).type.inspected.isResult := by
  have inside : id < s.resultOutstanding.length := by
    rw [wf.outstanding]
    exact wf.bounded id mem
  simp only [Track.flag, Analyzer.outstanding, Analyzer.setOutstanding, Analyzer.localAt,
    set_getD_self inside, Bool.true_and]

theorem assigned_restates : Restates s (s.assigned id type) := by
  rw [Analyzer.assigned]
  cases type.requiresDrop <;> cases type.isResult
  · exact .refl
  · exact .setOutstanding
  · exact .setMove
  · exact Restates.setMove.trans .setOutstanding

theorem assigned_flag_of_ne (track : Track) {other : Nat} (ne : other ≠ id) :
    track.flag (s.assigned id type) other = track.flag s other := by
  rw [Analyzer.assigned]
  cases type.requiresDrop <;> cases type.isResult
  · rfl
  · exact setOutstanding_flag_of_ne ne.symm track
  · exact setMove_flag_of_ne ne.symm track
  · exact (setOutstanding_flag_of_ne ne.symm track).trans
      (setMove_flag_of_ne ne.symm track)

theorem assigned_flag (wf : WellFormed s)
    (mem : id ∈ scopeIds s.scopes) (declared : (s.localAt id).type = .value type) :
    Track.results.flag (s.assigned id type) id = type.isResult := by
  have inspected : (s.localAt id).type.inspected.isResult = type.isResult := by
    rw [declared, LocalType.inspected]
  rw [Analyzer.assigned]
  cases requires : type.requiresDrop <;> cases result : type.isResult
  · exact (congrArg (s.outstanding id && ·) (inspected.trans result)).trans (Bool.and_false _)
  · exact (setOutstanding_flag wf mem).trans (inspected.trans result)
  · exact (congrArg (s.outstanding id && ·) (inspected.trans result)).trans (Bool.and_false _)
  · exact (setOutstanding_flag (Restates.setMove.wellFormed wf) mem).trans
      (inspected.trans result)

theorem assign_sound {name : String} {w : Walked}
    (eval : Evaluates track s value.code value.state ends)
    (ran : assign name value = .ok w) :
    Evaluates track s w.code w.state false := by
  simp only [assign, bind_ok, require_ok, exists_const, pure_ok] at ran
  obtain ⟨id, found, handled, rfl⟩ := ran
  have mem := findLocal_mem found
  have wf := eval.wellFormed
  cases declared : (value.state.localAt id).type with
  | value type =>
    rw [declared, LocalType.type] at handled
    have unflagged : Track.results.flag value.state id = false := by
      rw [Track.flag, declared, LocalType.inspected, Bool.and_comm]
      exact (Bool.not_eq_true' _).mp handled
    exact (eval.seq (store_sound assigned_restates wf mem
      (fun track y => assigned_flag_of_ne track) unflagged
      (assigned_flag wf mem declared))).forget fun ends => absurd ends Bool.false_ne_true
  | borrow =>
    exact (eval.seq (.skip wf)).forget fun ends => absurd ends Bool.false_ne_true

/-! ### Places -/

theorem mem_localsAlways {property : Nat → Action → Bool} {n id : Nat} :
    id ∈ localsAlways property code n ↔ id < n ∧ code.always (property id) = true := by
  rw [localsAlways, mem_filter, mem_range]

/-- Code that only reads has the actions of the same reads made later. -/
theorem straight_of_readsOnly (reads : readsOnly code = some ids) :
    ∃ actions, code.straight = some actions ∧ ∀ kind : Action → Bool,
      (∀ id, kind (.read id) = kind (.access id)) → actions.any kind = (ids.map .access).any kind := by
  simp only [readsOnly, Option.bind_eq_bind, Option.bind_eq_some_iff] at reads
  obtain ⟨actions, straight, each⟩ := reads
  refine ⟨actions, straight, fun kind alike => ?_⟩
  clear straight
  induction actions generalizing ids with
  | nil =>
    rw [mapM_nil] at each
    cases each
    rfl
  | cons action rest ih =>
    simp only [mapM_cons, Option.bind_eq_bind, Option.bind_eq_some_iff, Option.pure_def,
      Option.some.injEq] at each
    obtain ⟨_, one, _, more, rfl⟩ := each
    cases action <;> cases one
    · rw [any_cons, map_cons, any_cons, ih more, alike]
    · rw [any_cons, map_cons, any_cons, ih more]

theorem readsOnly_always (reads : readsOnly code = some ids) {kind : Action → Bool}
    (alike : ∀ id, kind (.read id) = kind (.access id)) :
    code.always kind = (accesses ids).always kind := by
  obtain ⟨_, straight, same⟩ := straight_of_readsOnly reads
  rw [Code.always_of_straight _ straight, accesses, Code.always_of_straight _ (Code.straight_acts _),
    same kind alike]

theorem accesses_sound (wf : WellFormed s) (ids : List Nat) :
    Evaluates track s (accesses ids) s false := by
  induction ids with
  | nil => exact .skip wf
  | cons id rest ih => exact (access_sound wf).seq ih

/-- The C expression of an operand is read once more after the operands behind it. -/
theorem Evaluates.reads (eval : Evaluates track s code t ends) (ids : List Nat) :
    Evaluates track s (.seq code (accesses ids)) t ends := by
  have both := eval.seq (accesses_sound eval.wellFormed ids)
  rwa [Bool.or_false] at both

section Places

variable {late : Bool}

theorem readsOnly_clears (reads : readsOnly code = some ids) {track : Track}
    (cleared : code.always (track.clears id) = true) :
    track = .results ∧ code.always (Action.mentions id) = true := by
  cases track with
  | results => exact ⟨rfl, cleared⟩
  | moves | drops =>
    rw [readsOnly_always reads fun _ => rfl, accesses,
      Code.always_of_straight _ (Code.straight_acts _)] at cleared
    simp [Track.clears, Action.renews] at cleared

theorem readsOnly_stores (reads : readsOnly code = some ids) :
    code.any (Action.storesResult id) = false := by
  obtain ⟨_, straight, same⟩ := straight_of_readsOnly reads
  rw [Code.any_of_straight _ straight, same _ fun _ => rfl]
  simp [Action.storesResult]

section

variable (p : Evaluates track s target.code target.state ends)
  (transfer : Transfer track target.state value.code value.state late)
include p transfer

theorem postponed_other {start : Bool → List Nat → Action} (other : readsOnly target.code = none)
    (follows : ∀ ids, Follows track s (.seq (.act (start false ids))
      (.seq value.code target.code)) value.state false) :
    Transfer track s (postponed start s target.code value.code) value.state false := by
  have code : postponed start s target.code value.code
      = .seq (.act (start false (localsAlways Action.mentions target.code s.locals.length)))
        (.seq value.code target.code) := by
    simp only [postponed, other, Option.isSome_none]
  rw [code]
  refine ⟨⟨transfer.wellFormed, p.ext.trans transfer.ext, ?_, follows _⟩, ?_, ?_, nofun⟩
  · exact fun body mem => (transfer.closures body mem).elim (p.closures body) .inr
  · intro track id inside flagged
    simp only [Code.always, Bool.or_eq_true]
    rcases p.clears track id inside flagged with stays | cleared
    · exact (transfer.clears track id (inside.trans_le p.ext.locals.length_le)
        stays).imp_right fun cleared => .inr (.inl cleared)
    · exact .inr (.inr (.inr cleared))
  · intro id inside flagged
    simp only [Code.any, Bool.or_eq_true]
    rcases transfer.raises id (inside.trans_le p.ext.locals.length_le) flagged with
      already | stored
    · exact (p.raises id inside already).imp_right fun stores => .inr (.inr stores)
    · exact .inr (.inr (.inl stored))

variable (wf : WellFormed s)
include wf

theorem postponed_reads {start : Bool → List Nat → Action} (starts : start = .place ∨ start = .timeout)
    (reads : readsOnly target.code = some ids) :
    Transfer track s (postponed start s target.code value.code) value.state false := by
  have started : Follows track s
      (.act (start true (localsAlways Action.mentions target.code s.locals.length)))
      target.state false := by
    refine Follows.act fun marks env _ holds met => ⟨?_, ?_, ?_, ?_⟩
    · rcases starts with rfl | rfl <;> cases track <;> trivial
    · rcases starts with rfl | rfl <;> exact holds.marks
    · have related := holds.scopes.mono p.ext.locals
      rw [← p.scopes] at related
      rcases starts with rfl | rfl <;> exact related
    · intro id mem affected
      rw [p.scopes] at mem
      rw [Track.bad_step (by rcases starts with rfl | rfl <;> rintro ⟨⟩)] at affected
      have inside := wf.bounded id mem
      rcases p.clears track id inside (holds.covered id mem affected) with stays | cleared
      · exact stays
      · obtain ⟨rfl, mentioned⟩ := readsOnly_clears reads cleared
        have clear : Track.results.Clear env
            (localsAlways Action.mentions target.code s.locals.length) := by
          rcases starts with rfl | rfl <;> exact met.2
        rw [clear id (mem_localsAlways.mpr ⟨inside, mentioned⟩)] at affected
        cases affected
  have rest := transfer.seq (Evaluates.toTransfer (accesses_sound transfer.wellFormed ids))
  have code : postponed start s target.code value.code
      = .seq (.act (start true (localsAlways Action.mentions target.code s.locals.length)))
        (.seq value.code (accesses ids)) := by
    simp only [postponed, reads, Option.isSome_some]
  rw [code]
  refine ⟨⟨transfer.wellFormed, p.ext.trans transfer.ext, ?_, ?_⟩, ?_, ?_, nofun⟩
  · exact fun body mem => (transfer.closures body mem).elim (p.closures body) .inr
  · exact (started.seq rest.follows p.ext rest.ext).weaken rfl prefix_rfl
      (fun _ _ _ flagged => flagged) nofun
  · intro track id inside flagged
    rw [Code.always, Bool.or_eq_true]
    rcases p.clears track id inside flagged with stays | cleared
    · exact (rest.clears track id (inside.trans_le p.ext.locals.length_le) stays).imp_right .inr
    · obtain ⟨rfl, mentioned⟩ := readsOnly_clears reads cleared
      rw [readsOnly_always reads fun _ => rfl] at mentioned
      refine .inr (.inr ?_)
      rw [Code.always, Track.clears, mentioned, Bool.or_true]
  · intro id inside flagged
    rw [Code.any, Bool.or_eq_true]
    rcases rest.raises id (inside.trans_le p.ext.locals.length_le) flagged with already | stored
    · refine (p.raises id inside already).imp_right fun stores => ?_
      rw [readsOnly_stores reads] at stores
      cases stores
    · exact .inr (.inr stored)

/-- A timeout that does more than read is not followed. -/
theorem startSelect_sound :
    Transfer track s (postponed .timeout s target.code value.code) value.state false := by
  cases reads : readsOnly target.code with
  | some => exact postponed_reads p transfer wf (.inr rfl) reads
  | none =>
    refine postponed_other p transfer reads fun ids marks _ => ?_
    refine Triple.seq (fun _ => False) (Triple.act fun _ _ met => ?_)
      fun _ _ _ _ unreachable => unreachable.elim
    cases track with
    | moves | drops => exact nomatch met
    | results => exact nomatch met.1

end

section

variable (p : Evaluates track s target.code target.state ends)
  (eval : Evaluates track target.state value.code value.state late)
include p eval

variable (wf : WellFormed s)
include wf

/-- Of a place that does more than read only the scopes are known. -/
theorem assignTo_follows (ids : List Nat) :
    Follows track s (.seq (.act (.place false ids)) (.seq value.code target.code))
      value.state false := by
  cases track with
  | moves =>
    exact fun marks _ => Triple.seq (fun _ => False) (Triple.act fun _ _ met => nomatch met)
      fun _ _ _ _ unreachable => unreachable.elim
  | results =>
    exact fun marks _ => Triple.seq (fun _ => False) (Triple.act fun _ _ met => nomatch met.1)
      fun _ _ _ _ unreachable => unreachable.elim
  | drops =>
    have begun : Follows .drops s (.act (.place false ids)) s false :=
      Follows.act fun _ _ _ holds _ => ⟨trivial, holds.marks, holds.scopes, fun _ _ => nofun⟩
    have valued : Follows .drops s value.code value.state late :=
      eval.follows.start ⟨p.scopes, p.ext.locals, fun _ _ => nofun⟩ p.ext.bases
    have scopes := eval.scopes.trans p.scopes
    have placed : Follows .drops value.state target.code value.state ends := by
      intro marks marked
      have earlier : Marked s marks := by
        refine ⟨?_, by rw [← scopes]; exact marked.inside⟩
        rw [← p.ext.bases, ← eval.ext.bases]
        exact marked.bases
      refine ((p.follows.weaken eval.scopes eval.ext.locals (fun _ _ _ => nofun)
        fun never => never) marks earlier).consequence (fun env holds => ?_) fun _ _ post => post
      refine ⟨holds.marks, ?_, fun _ _ => nofun⟩
      rw [← scopes]
      exact holds.scopes.restrict (p.ext.trans eval.ext).locals
        (by rw [scopes]; exact wf.bounded)
    have longer := p.ext.trans eval.ext
    exact (begun.seq (valued.seq placed longer (.refl _)) (.refl _) longer).weaken rfl
      prefix_rfl (fun _ _ _ => nofun) nofun

theorem assignTo_sound :
    Evaluates track s (postponed .place s target.code value.code) value.state false := by
  refine ⟨?_, eval.scopes.trans p.scopes⟩
  cases reads : readsOnly target.code with
  | some => exact postponed_reads p eval.toTransfer wf (.inl rfl) reads
  | none =>
    exact postponed_other p eval.toTransfer reads
      (assignTo_follows p eval wf)

end

end Places

theorem replaceStore_sound {name : String} (known : target.state.findLocal name = .ok id)
    (inspected : target.type = (target.state.localAt id).type.inspected)
    (handled : Track.results.flag target.state id = false) (wf : WellFormed target.state) :
    Evaluates track target.state (.act (.store id target.type.isResult))
      (if target.type.isResult then target.state.setOutstanding id true else target.state) false := by
  have mem := findLocal_mem known
  cases result : target.type.isResult with
  | false => exact store_sound .refl wf mem (fun _ _ _ => rfl) handled handled
  | true =>
    refine store_sound .setOutstanding wf mem
      (fun track y ne => setOutstanding_flag_of_ne ne.symm track) handled ?_
    rw [if_pos rfl, setOutstanding_flag wf mem, ← inspected, result]

theorem placeName_some {p : Expr} (named : placeName s p = some id) :
    ∃ name, p = .name name ∧ s.lookupLocal name = some id := by
  unfold placeName at named
  split at named
  · exact ⟨_, rfl, named⟩
  · cases named

theorem replaceTarget_sound {p : Expr} {w : Walked} {late : Bool}
    (eval : Evaluates track s value.code value.state ends)
    (mentioned : Evaluates track value.state target.code target.state late)
    (named : ∀ name, p = .name name → mention name .inspect value.state = .ok target)
    (ran : replaceTarget s p value target = .ok w) :
    Evaluates track s w.code w.state w.returns := by
  simp only [replaceTarget, bind_ok, require_ok, exists_const, pure_ok] at ran
  obtain ⟨-, rfl⟩ := ran
  refine Evaluates.value (eval.seq (mentioned.seq ((accesses_sound mentioned.wellFormed _).seq
    (?_ : Evaluates track target.state _ _ false))))
  cases found : placeName s p with
  | none => exact .skip mentioned.wellFormed
  | some id =>
    obtain ⟨name, rfl, root⟩ := placeName_some found
    obtain ⟨y, before', known, type, -, handled⟩ := mention_inspect (named name rfl)
    have same : y = id := by
      rw [Analyzer.findLocal, Analyzer.lookupLocal, eval.scopes, ← Analyzer.lookupLocal, root]
        at before'
      exact (Except.ok.inj before').symm
    subst same
    refine replaceStore_sound known ?_ handled mentioned.wellFormed
    rw [type, mentioned.ext.localAt
      (eval.wellFormed.bounded y (findLocal_mem before'))]

end Stores

end FoundationLang.Flow
