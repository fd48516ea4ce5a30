/-
**What a walk knows of the environment.**

A state of the walk stands for environments: those whose open locals are the ones of its scopes, and
in which whatever has happened to a local is flagged in the state. What is tracked differs from
property to property, so the relation is stated for a `Track`:

* `moves` — a consumed local is flagged as moved;
* `results` — an unhandled `Result` is flagged as outstanding;
* `drops` — only the scopes matter.

`Holds` relates a state to an environment, `Sound` relates the states before and after a walk to the
code the walk returns, and the rules below put walks together: in sequence, in a scope, in a loop.
-/

import FoundationLang.Flow.Analysis

namespace FoundationLang.Flow

open Library List

/-! ### Tracks -/

/-- What is followed along a path. -/
inductive Track
  | moves | results | drops
deriving DecidableEq, Repr

namespace Track

/-- The walk takes the local to be affected. -/
def flag : Track → Analyzer → Nat → Bool
  | .moves, state, id => state.moveState id != .available && (state.localAt id).type.type.requiresDrop
  | .results, state, id => state.outstanding id && (state.localAt id).type.inspected.isResult
  | .drops, _, _ => false

/-- The local is affected. -/
def bad : Track → Env → Nat → Bool
  | .moves, env, id => env.taken id
  | .results, env, id => env.pending id
  | .drops, _, _ => false

/-- The local was affected when the round of the loop began. -/
def marked : Track → Mark → Nat → Bool
  | .moves, mark, id => mark.taken id
  | .results, mark, id => mark.pending id
  | .drops, _, _ => false

/-- Nothing outside the innermost loop is affected that was not when its round began. -/
def Settled (track : Track) (env : Env) : Prop :=
  ∀ mark ∈ env.marks.head?, ∀ slot ∈ env.outerScopes.flatten,
    track.bad env slot.id = true → track.marked mark slot.id = true

/-- None of these locals is affected. -/
def Clear (track : Track) (env : Env) (ids : List Nat) : Prop :=
  ∀ id ∈ ids, track.bad env id = false

/-- What has to be assumed of a step. -/
def meets : Track → Action → Env → Prop
  | .moves, .access id, env => env.taken id = false
  | .moves, .leaveLoop _, env => moves.Settled env
  | .moves, .place simple _, _ | .moves, .timeout simple _, _ => simple = true
  | .results, .leaveLoop _, env => env.marks ≠ [] ∧ results.Settled env
  | .results, .loopEnd, env => results.Settled env
  | .results, .tested ids, env => results.Clear env ids
  | .results, .skipped ids, env => results.Clear env ids
  | .results, .guardFailed ids, env => results.Clear env ids
  | .results, .place simple ids, env | .results, .timeout simple ids, env =>
    simple = true ∧ results.Clear env ids
  | .drops, .leaveLoop _, env => env.marks ≠ []
  | .drops, .timeout simple _, _ => simple = true
  | _, _, _ => True

/-- What is to be shown of a step. -/
def safe : Track → Action → Env → Prop
  | .moves => MoveSafe
  | .results => ResultSafe
  | .drops => DropSafe

end Track

/-! ### States and environments -/

/-- The locals of some scopes, innermost and newest first. -/
def scopeIds (scopes : List (List (String × Nat))) : List Nat :=
  scopes.flatten.map Prod.snd

/-- The invariant of the walk's own state. -/
structure WellFormed (state : Analyzer) : Prop where
  outstanding : state.resultOutstanding.length = state.locals.length
  moves : state.moveStates.length = state.locals.length
  ordered : (scopeIds state.scopes).Pairwise (· > ·)
  bounded : ∀ id ∈ scopeIds state.scopes, id < state.locals.length

/-- An entry of a scope and the slot that stands for it. -/
def Matches (locals : List Local) (entry : String × Nat) (slot : Slot) : Prop :=
  slot.id = entry.2 ∧ ∃ declared, locals[entry.2]? = some declared
    ∧ slot.requiresDrop = declared.type.type.requiresDrop ∧ slot.capture = declared.capture

/-- The open locals of an environment are those of the scopes. -/
def Corresponds (locals : List Local) (scopes : List (List (String × Nat)))
    (slots : List (List Slot)) : Prop :=
  List.Forall₂ (List.Forall₂ (Matches locals)) scopes slots

/-- Whatever is affected among these locals is flagged. -/
def Covered (track : Track) (state : Analyzer) (ids : List Nat) (env : Env) : Prop :=
  ∀ id ∈ ids, track.bad env id = true → track.flag state id = true

/-- **The environments a state of the walk stands for**, inside the loops with these marks. -/
structure Holds (track : Track) (state : Analyzer) (marks : List Mark) (env : Env) : Prop where
  marks : env.marks = marks
  scopes : Corresponds state.locals state.scopes env.scopes
  covered : Covered track state (scopeIds state.scopes) env

/-- The loops around the walk are the loops of the environment. In a closure the walk may count more
of them, those around the closure. -/
structure Marked (state : Analyzer) (marks : List Mark) : Prop where
  bases : marks.map Mark.depth <+: state.loopScopeBases
  inside : ∀ mark ∈ marks, mark.depth < state.scopes.length

/-- The scopes around a loop that began at this depth. -/
def outer (scopes : List (List (String × Nat))) (depth : Nat) : List (List (String × Nat)) :=
  scopes.drop (scopes.length - depth)

/-- The environments in which a walk leaves the innermost loop. -/
def Left (track : Track) (state : Analyzer) : List Mark → Env → Prop
  | [], _ => True
  | mark :: rest, env => env.marks = rest
      ∧ Corresponds state.locals (outer state.scopes mark.depth) env.scopes
      ∧ ∀ id ∈ scopeIds (outer state.scopes mark.depth),
        track.bad env id = true → track.marked mark id = true

/-- What holds at the exits of a walk that ends in this state. -/
def Post (track : Track) (state : Analyzer) (marks : List Mark) (ends : Bool) : Exit → Env → Prop
  | .normal, env => ends = false ∧ Holds track state marks env
  | .brk, env | .cont, env => Left track state marks env
  | .ret, _ | .stop, _ => True

/-- How a later state of the walk extends an earlier one: the innermost scope and the locals grow. -/
structure Extends (before after : Analyzer) : Prop where
  tail : after.scopes.tail = before.scopes.tail
  nonempty : before.scopes ≠ [] → after.scopes ≠ []
  locals : before.locals <+: after.locals
  bases : after.loopScopeBases = before.loopScopeBases
  void : after.returnsVoid = before.returnsVoid

/-- Every path through a whole body is safe. -/
def BodySound (track : Track) (body : Code Action) : Prop :=
  Triple Env.step track.meets track.safe (· = {}) body fun _ _ => True

/-- The code of a walk does what the walk's states say. -/
def Follows (track : Track) (before : Analyzer) (code : Code Action) (after : Analyzer)
    (ends : Bool) : Prop :=
  ∀ marks, Marked before marks →
    Triple Env.step track.meets track.safe (Holds track before marks) code
      (Post track after marks ends)

/-- **A sound walk.** -/
structure Sound (track : Track) (before : Analyzer) (code : Code Action) (after : Analyzer)
    (ends : Bool) : Prop where
  wellFormed : WellFormed after
  ext : Extends before after
  closures : ∀ body ∈ after.closures, body ∈ before.closures ∨ BodySound track body
  follows : Follows track before code after ends

/-! ### Scopes -/

@[simp] theorem scopeIds_pushEntry (e : String × Nat) (scopes : List (List (String × Nat))) :
    scopeIds (pushEntry e scopes) = e.2 :: scopeIds scopes := by
  cases scopes with
  | nil => rfl
  | cons => simp [scopeIds, pushEntry]

theorem mem_scopeIds {scopes : List (List (String × Nat))} {id : Nat} :
    id ∈ scopeIds scopes ↔ ∃ scope ∈ scopes, ∃ entry ∈ scope, entry.2 = id := by
  simp only [scopeIds, mem_map, mem_flatten]
  constructor
  · rintro ⟨entry, ⟨scope, mem, inside⟩, same⟩
    exact ⟨scope, mem, entry, inside, same⟩
  · rintro ⟨scope, mem, entry, inside, same⟩
    exact ⟨entry, ⟨scope, mem, inside⟩, same⟩

theorem outer_self {scopes : List (List (String × Nat))} : outer scopes scopes.length = scopes := by
  rw [outer, Nat.sub_self, drop_zero]

/-- The scopes around a loop do not change with the innermost scope. -/
theorem outer_eq_of_tail {scopes others : List (List (String × Nat))} {depth : Nat}
    (tail : others.tail = scopes.tail) (length : others.length = scopes.length)
    (inside : depth < scopes.length) : outer others depth = outer scopes depth := by
  have split (list : List (List (String × Nat))) (below : depth < list.length) :
      outer list depth = list.tail.drop (list.length - depth - 1) := by
    rw [outer, drop_tail]
    congr 1
    omega
  rw [split others (length ▸ inside), split scopes inside, tail, length]

namespace Corresponds

variable {locals others : List Local} {scopes : List (List (String × Nat))}
  {slots : List (List Slot)}

theorem ids (corresponds : Corresponds locals scopes slots) :
    slots.flatten.map (·.id) = scopeIds scopes := by
  induction corresponds with
  | nil => rfl
  | cons scope _ ih =>
    rw [scopeIds, flatten_cons, flatten_cons, map_append, map_append,
      ih]
    congr 1
    induction scope with
    | nil => rfl
    | cons entry _ same => rw [map_cons, map_cons, same, entry.1]

theorem mono (corresponds : Corresponds locals scopes slots) (grown : locals <+: others) :
    Corresponds others scopes slots := by
  refine List.Forall₂.imp (fun _ _ => List.Forall₂.imp fun entry slot => ?_) corresponds
  rintro ⟨same, declared, present, facts⟩
  obtain ⟨_, rfl⟩ := grown
  refine ⟨same, declared, ?_, facts⟩
  rwa [List.getElem?_append_left (List.getElem?_eq_some_iff.mp present).1]

/-- A correspondence does not need locals that came later. -/
theorem restrict (corresponds : Corresponds others scopes slots) (grown : locals <+: others)
    (bounded : ∀ id ∈ scopeIds scopes, id < locals.length) : Corresponds locals scopes slots := by
  obtain ⟨_, rfl⟩ := grown
  have inside : ∀ scope ∈ scopes, ∀ entry ∈ scope, entry.2 < locals.length :=
    fun scope mem entry inside => bounded _ (mem_scopeIds.mpr ⟨scope, mem, entry, inside, rfl⟩)
  clear bounded
  induction corresponds with
  | nil => exact .nil
  | @cons scope slots _ _ related _ ih =>
    refine .cons ?_ (ih fun scope mem => inside scope (mem_cons_of_mem _ mem))
    have entries := inside scope mem_cons_self
    clear ih inside
    induction related with
    | nil => exact .nil
    | @cons entry slot _ _ related _ ih =>
      refine .cons ?_ (ih fun entry mem => entries entry (mem_cons_of_mem _ mem))
      obtain ⟨same, declared, present, facts⟩ := related
      rw [List.getElem?_append_left (entries entry mem_cons_self)] at present
      exact ⟨same, declared, present, facts⟩

section

variable (corresponds : Corresponds locals scopes slots)
include corresponds

theorem length : slots.length = scopes.length :=
  (List.Forall₂.length_eq corresponds).symm

theorem drop (n : Nat) :
    Corresponds locals (scopes.drop n) (slots.drop n) := by
  induction n generalizing scopes slots with
  | zero => exact corresponds
  | succ n ih =>
    cases corresponds with
    | nil => exact .nil
    | cons _ rest => exact ih rest

theorem take (n : Nat) :
    Corresponds locals (scopes.take n) (slots.take n) := by
  induction n generalizing scopes slots with
  | zero => exact .nil
  | succ n ih =>
    cases corresponds with
    | nil => exact .nil
    | cons related rest => exact .cons related (ih rest)

theorem forall_slot (property : Nat → Prop) :
    (∀ slot ∈ slots.flatten, property slot.id) ↔ ∀ id ∈ scopeIds scopes, property id := by
  rw [← corresponds.ids, forall_mem_map]

end

end Corresponds

/-! ### Extending a state -/

namespace Extends

variable {s m after : Analyzer}

theorem refl (state : Analyzer) : Extends state state :=
  ⟨rfl, id, prefix_rfl, rfl, rfl⟩

theorem trans (first : Extends s m) (second : Extends m after) :
    Extends s after where
  tail := second.tail.trans first.tail
  nonempty := fun present => second.nonempty (first.nonempty present)
  locals := first.locals.trans second.locals
  bases := second.bases.trans first.bases
  void := second.void.trans first.void

section

variable (ext : Extends s after)
include ext

theorem length (present : s.scopes ≠ []) :
    after.scopes.length = s.scopes.length := by
  have tails := congrArg List.length ext.tail
  rw [length_tail, length_tail] at tails
  have one := length_pos_iff.mpr present
  have other := length_pos_iff.mpr (ext.nonempty present)
  omega

theorem marked {marks : List Mark} (marked : Marked s marks) :
    Marked after marks := by
  refine ⟨by rw [ext.bases]; exact marked.bases, fun mark mem => ?_⟩
  have inside := marked.inside mark mem
  rwa [ext.length (length_pos_iff.mp (Nat.zero_lt_of_lt inside))]

theorem localAt {id : Nat} (inside : id < s.locals.length) :
    after.localAt id = s.localAt id := by
  obtain ⟨_, same⟩ := ext.locals
  rw [Analyzer.localAt, Analyzer.localAt, ← same, getD_append _ _ _ _ inside]

/-- What is left of a loop stays so while the walk goes on. -/
theorem left {track : Track} {marks : List Mark} {env : Env}
    (marked : Marked s marks) (left : Left track s marks env) :
    Left track after marks env := by
  cases marks with
  | nil => trivial
  | cons mark =>
    have inside := marked.inside mark mem_cons_self
    have same := outer_eq_of_tail ext.tail
      (ext.length (length_pos_iff.mp (Nat.zero_lt_of_lt inside))) inside
    obtain ⟨marks, scopes, _⟩ := left
    refine ⟨marks, ?_, ?_⟩
    · rw [same]
      exact scopes.mono ext.locals
    · rwa [same]

end

end Extends

/-! ### Weakening -/

section Rules

variable {track : Track} {s m after : Analyzer} {code first second : Code Action}
variable {drops : List Nat}
  {marks : List Mark} {env : Env} {ends early late : Bool}

/-- A state with the same scopes and more flags stands for more environments. -/
structure Weaker (track : Track) (before after : Analyzer) : Prop where
  scopes : after.scopes = before.scopes
  locals : before.locals <+: after.locals
  flags : ∀ id ∈ scopeIds before.scopes, track.flag before id = true → track.flag after id = true

theorem Holds.weaken (holds : Holds track s marks env) (weaker : Weaker track s after) :
    Holds track after marks env where
  marks := holds.marks
  scopes := by
    rw [weaker.scopes]
    exact holds.scopes.mono weaker.locals
  covered := by
    intro id mem affected
    rw [weaker.scopes] at mem
    exact weaker.flags id mem (holds.covered id mem affected)

theorem Left.weaken (left : Left track s marks env) (scopes : after.scopes = s.scopes)
    (locals : s.locals <+: after.locals) : Left track after marks env := by
  cases marks with
  | nil => trivial
  | cons =>
    obtain ⟨same, corresponds, _⟩ := left
    refine ⟨same, ?_, ?_⟩
    · rw [scopes]
      exact corresponds.mono locals
    · rwa [scopes]

/-- The walk may forget what it knows at the end, and all of it where the end is not reached. -/
theorem Follows.weaken (follows : Follows track s code m early)
    (scopes : after.scopes = m.scopes) (locals : m.locals <+: after.locals)
    (flags : early = false → ∀ id ∈ scopeIds m.scopes,
      track.flag m id = true → track.flag after id = true)
    (ends : late = true → early = true) : Follows track s code after late := by
  refine fun marks marked => (follows marks marked).consequence (fun _ => id)
    fun exit env post => ?_
  cases exit with
  | normal =>
    refine ⟨?_, post.2.weaken ⟨scopes, locals, flags post.1⟩⟩
    cases late with
    | false => rfl
    | true => exact absurd (ends rfl) (by rw [post.1]; decide)
  | brk | cont => exact Left.weaken post scopes locals
  | ret | stop => trivial

theorem Follows.start (follows : Follows track m code after ends)
    (weaker : Weaker track s m)
    (bases : m.loopScopeBases = s.loopScopeBases) :
    Follows track s code after ends := by
  intro marks marked
  have inside : Marked m marks :=
    ⟨by rw [bases]; exact marked.bases, by rw [weaker.scopes]; exact marked.inside⟩
  exact (follows marks inside).consequence (fun _ holds => holds.weaken weaker) fun _ _ => id

/-! ### Sequences -/

theorem Follows.skip : Follows track s .skip s false :=
  fun _ _ => Triple.skip fun _ holds => ⟨rfl, holds⟩

theorem Follows.seq (one : Follows track s first m early)
    (two : Follows track m second after late) (ext : Extends s m)
    (later : Extends m after) : Follows track s (.seq first second) after (early || late) := by
  intro marks marked
  have inside := ext.marked marked
  refine Triple.seq (fun env => early = false ∧ Holds track m marks env) ?_ ?_
  · refine (one marks marked).consequence (fun _ => id) fun exit env post => ?_
    cases exit with
    | normal => exact post
    | brk | cont => exact later.left inside post
    | ret | stop => trivial
  · refine Triple.of_state fun env ⟨running, holds⟩ => ?_
    refine (two marks inside).consequence (fun _ same => same ▸ holds) fun exit env post => ?_
    cases exit with
    | normal => exact ⟨by rw [running, post.1]; rfl, post.2⟩
    | brk | cont => exact post
    | ret | stop => trivial

theorem Follows.act {action : Action}
    (performs : ∀ marks env, Marked s marks → Holds track s marks env →
      track.meets action env → track.safe action env
        ∧ Holds track after marks (Env.step action env)) :
    Follows track s (.act action) after false :=
  fun marks marked => Triple.act fun env holds met =>
    let ⟨safe, holds⟩ := performs marks env marked holds met
    ⟨safe, rfl, holds⟩

theorem Follows.stop (follows : Follows track s code after early)
    (scopes : m.scopes = after.scopes) (locals : after.locals <+: m.locals) :
    Follows track s (.seq code (.jump .stop)) m true := by
  intro marks marked
  refine Triple.seq (fun _ => True) ?_ (Triple.jump fun _ _ => trivial)
  refine (follows marks marked).consequence (fun _ => id) fun exit env post => ?_
  cases exit with
  | normal => trivial
  | brk | cont => exact Left.weaken post scopes locals
  | ret | stop => trivial

theorem Sound.skip (wf : WellFormed s) : Sound track s .skip s false :=
  ⟨wf, .refl _, fun _ => .inl, Follows.skip⟩

theorem Sound.seq (one : Sound track s first m early)
    (two : Sound track m second after late) :
    Sound track s (.seq first second) after (early || late) where
  wellFormed := two.wellFormed
  ext := one.ext.trans two.ext
  closures := fun body mem => (two.closures body mem).elim (one.closures body) .inr
  follows := one.follows.seq two.follows one.ext two.ext

/-! ### Scopes of their own -/

/-- The marks may lie at the innermost scope, as long as nothing is declared in it. -/
structure Surrounds (state : Analyzer) (marks : List Mark) : Prop where
  bases : marks.map Mark.depth <+: state.loopScopeBases
  inside : ∀ mark ∈ marks, mark.depth ≤ state.scopes.length

theorem Marked.surrounds (marked : Marked s marks) : Surrounds s marks :=
  ⟨marked.bases, fun mark mem => (marked.inside mark mem).le⟩

theorem Surrounds.opened (surrounds : Surrounds s marks) : Marked (openScope s) marks :=
  ⟨surrounds.bases, fun mark mem => Nat.lt_succ_of_le (surrounds.inside mark mem)⟩

theorem Track.bad_congr {other : Env} (taken : env.taken = other.taken)
    (pending : env.pending = other.pending) : track.bad env = track.bad other := by
  cases track with
  | moves => exact taken
  | results => exact pending
  | drops => rfl

/-- An action affects only the local it is about. -/
theorem Track.bad_step {action : Action} {id : Nat} (y : action.target ≠ some id) :
    track.bad (Env.step action env) id = track.bad env id := by
  cases action with
  | declare slot =>
    have ne : id ≠ slot.id := fun same => y (congrArg some same.symm)
    cases track <;> simp [Track.bad, Env.step, Function.update_of_ne ne]
  | read target | take target | access target | store target _ =>
    have ne : id ≠ target := fun same => y (congrArg some same.symm)
    cases track <;> simp [Track.bad, Env.step, Function.update_of_ne ne]
  | _ => cases track <;> rfl

theorem Track.flag_congr (locals : s.locals = after.locals)
    (moves : s.moveStates = after.moveStates)
    (outstanding : s.resultOutstanding = after.resultOutstanding) :
    track.flag s = track.flag after := by
  funext id
  cases track with
  | moves => simp only [flag, Analyzer.moveState, Analyzer.localAt, locals, moves]
  | results => simp only [flag, Analyzer.outstanding, Analyzer.localAt, locals, outstanding]
  | drops => rfl

theorem Covered.congr {ids : List Nat} {other : Env} (covered : Covered track s ids env)
    (flags : track.flag s = track.flag after) (bad : track.bad env = track.bad other) :
    Covered track after ids other := by
  rw [Covered, ← flags, ← bad]
  exact covered

theorem Holds.enter (holds : Holds track s marks env) :
    Holds track (openScope s) marks (Env.step .enter env) where
  marks := holds.marks
  scopes := .cons .nil holds.scopes
  covered := holds.covered.congr (Track.flag_congr rfl rfl rfl) (Track.bad_congr rfl rfl)

/-- The state outside of the innermost scope. -/
def popScope (state : Analyzer) : Analyzer :=
  { state with scopes := state.scopes.tail }

theorem scopeIds_tail {scopes : List (List (String × Nat))} {id : Nat}
    (mem : id ∈ scopeIds scopes.tail) : id ∈ scopeIds scopes := by
  obtain ⟨scope, inside, rest⟩ := mem_scopeIds.mp mem
  exact mem_scopeIds.mpr ⟨scope, mem_of_mem_tail inside, rest⟩

theorem Holds.leave (holds : Holds track s marks env) :
    Holds track (popScope s) marks (Env.step (.leave drops) env) where
  marks := holds.marks
  scopes := by
    have dropped := holds.scopes.drop 1
    rwa [drop_one, drop_one] at dropped
  covered := by
    have popped : Covered track s (scopeIds s.scopes.tail) env :=
      fun id mem => holds.covered id (scopeIds_tail mem)
    exact popped.congr (Track.flag_congr rfl rfl rfl) (Track.bad_congr rfl rfl)

/-- A walk in a scope of its own, which is left with these drops. -/
def scopeCode (code : Code Action) (drops : List Nat) : Code Action :=
  .seq (.act .enter) (.seq code (.act (.leave drops)))

theorem Triple.scope (inner : Follows track (openScope s) code after ends)
    (ext : Extends (openScope s) after)
    (leaves : ∀ marks env, Holds track after marks env → track.safe (.leave drops) env)
    (surrounds : Surrounds s marks) :
    Triple Env.step track.meets track.safe (Holds track s marks) (scopeCode code drops)
      (Post track (popScope after) marks ends) := by
  have tail : after.scopes.tail = s.scopes := ext.tail
  have length : after.scopes.length = s.scopes.length + 1 := ext.length (cons_ne_nil _ _)
  refine Triple.seq (Holds track (openScope s) marks) ?_ ?_
  · refine Triple.act fun env holds _ => ⟨?_, holds.enter⟩
    cases track <;> trivial
  refine Triple.seq (fun env => ends = false ∧ Holds track after marks env) ?_ ?_
  · refine (inner marks surrounds.opened).consequence (fun _ => id) fun exit env post => ?_
    cases exit with
    | normal => exact post
    | ret | stop => trivial
    | brk | cont =>
      cases marks with
      | nil => trivial
      | cons mark =>
        have same : outer (popScope after).scopes mark.depth = outer after.scopes mark.depth := by
          have below := surrounds.inside mark mem_cons_self
          simp only [popScope, outer, drop_tail, length_tail]
          congr 1
          omega
        obtain ⟨marks, scopes, settled⟩ := post
        exact ⟨marks, same ▸ scopes, same ▸ settled⟩
  · exact Triple.act fun env ⟨running, holds⟩ _ => ⟨leaves marks env holds, running, holds.leave⟩

theorem Extends.scope (ext : Extends (openScope s) after) : Extends s (popScope after) where
  tail := by rw [popScope, ext.tail]; rfl
  nonempty := fun present => by rw [popScope, ext.tail]; exact present
  locals := ext.locals
  bases := ext.bases
  void := ext.void

theorem WellFormed.pop (wf : WellFormed s) : WellFormed (popScope s) where
  outstanding := wf.outstanding
  moves := wf.moves
  ordered := by
    refine wf.ordered.sublist ?_
    rw [scopeIds, scopeIds, popScope]
    refine List.Sublist.map _ ?_
    cases s.scopes with
    | nil => exact List.Sublist.refl _
    | cons scope rest => exact sublist_append_right scope rest.flatten
  bounded := fun id mem => wf.bounded id (scopeIds_tail mem)

theorem WellFormed.opened (wf : WellFormed s) : WellFormed (openScope s) :=
  ⟨wf.outstanding, wf.moves, wf.ordered, wf.bounded⟩

theorem Sound.scope (inner : Sound track (openScope s) code after ends)
    (leaves : ∀ marks env, Holds track after marks env → track.safe (.leave drops) env) :
    Sound track s (scopeCode code drops) (popScope after) ends where
  wellFormed := inner.wellFormed.pop
  ext := inner.ext.scope
  closures := inner.closures
  follows := fun _ marked => Triple.scope inner.follows inner.ext leaves marked.surrounds

/-! ### Choices and loops -/

theorem Follows.either (one : Follows track s first after early)
    (two : Follows track s second after late) :
    Follows track s (.either first second) after (early && late) := by
  intro marks marked
  refine Triple.either ?_ ?_
  · exact (one marks marked).consequence (fun _ => id) fun exit env post => by
      cases exit with
      | normal => exact ⟨by rw [post.1]; rfl, post.2⟩
      | brk | cont => exact post
      | ret | stop => trivial
  · exact (two marks marked).consequence (fun _ => id) fun exit env post => by
      cases exit with
      | normal => exact ⟨by rw [post.1, Bool.and_false], post.2⟩
      | brk | cont => exact post
      | ret | stop => trivial

/-- The mark of a round that begins here. -/
def Env.mark (env : Env) : Mark :=
  ⟨env.scopes.length, env.taken, env.pending⟩

theorem Track.marked_mark : track.marked env.mark = track.bad env := by
  cases track <;> rfl

/-- The walk over the body of a loop counts the loop. -/
def inLoop (state : Analyzer) : Analyzer :=
  { state with loopScopeBases := state.scopes.length :: state.loopScopeBases }

/-- The state after the test of a loop: what is affected was so before the loop. -/
def Tested (track : Track) (before tested : Analyzer) (marks : List Mark) (env : Env) : Prop :=
  Holds track tested marks env ∧ Covered track before (scopeIds before.scopes) env

theorem Holds.settled {mark : Mark} {rest : List Mark}
    (holds : Holds track s (mark :: rest) env) (settled : track.Settled env) :
    ∀ id ∈ scopeIds (outer s.scopes mark.depth),
      track.bad env id = true → track.marked mark id = true := by
  have outside : env.outerScopes = env.scopes.drop (s.scopes.length - mark.depth) := by
    rw [Env.outerScopes, holds.marks, holds.scopes.length]
  refine ((holds.scopes.drop _).forall_slot fun id =>
    track.bad env id = true → track.marked mark id = true).mp ?_
  rw [← outside]
  exact settled mark (by rw [holds.marks]; rfl)

/-- A round that is left for the state `after`, where whatever was affected at its start is flagged. -/
theorem Left.holds {mark : Mark} {rest : List Mark} (left : Left track m (mark :: rest) env)
    (depth : mark.depth = m.scopes.length) (scopes : after.scopes = m.scopes)
    (corresponds : ∀ slots, Corresponds m.locals m.scopes slots →
      Corresponds after.locals m.scopes slots)
    (flags : ∀ id ∈ scopeIds m.scopes, track.marked mark id = true →
      track.flag after id = true) : Holds track after rest env := by
  obtain ⟨marks, related, settled⟩ := left
  rw [depth, outer_self] at related settled
  exact ⟨marks, scopes ▸ corresponds _ related, fun id mem affected =>
    flags id (scopes ▸ mem) (settled id (scopes ▸ mem) affected)⟩

/-- **The rule of loops.** The states are those before the loop, after its test, after its body and
after the loop. -/
theorem Follows.loop {tested final : Analyzer} {guard body : Code Action}
    (test : ∀ marks, Marked s marks →
      Triple Env.step track.meets track.safe (Holds track s marks) guard
        (onNormal (Post track tested marks false) (Tested track s tested marks)))
    (round : ∀ marks, Surrounds (inLoop tested) marks →
      Triple Env.step track.meets track.safe (Holds track (inLoop tested) marks) body
        (Post track m marks ends))
    (wf : WellFormed s) (same : tested.scopes = s.scopes)
    (locals : s.locals <+: m.locals) (scopes : m.scopes = tested.scopes)
    (bases : tested.loopScopeBases = s.loopScopeBases)
    (settles : ends = false → ∀ id ∈ scopeIds s.scopes, track = .moves →
      track.flag m id = true → track.flag s id = true)
    (weaker : Weaker track tested final) (later : m.locals <+: final.locals) :
    Follows track s (loopCode guard body) final false := by
  intro marks marked
  refine Triple.loop (Holds track s marks) (Tested track s tested marks) ?_ ?_ ?_
  · refine (test marks marked).consequence (fun _ => id) fun exit env post => ?_
    cases exit with
    | normal => exact post
    | brk | cont => exact Left.weaken post weaker.scopes weaker.locals
    | ret | stop => trivial
  · exact fun env ⟨holds, _⟩ => ⟨rfl, holds.weaken weaker⟩
  refine Triple.of_state fun env ⟨holds, covered⟩ => ?_
  -- The round starts with a mark of this very environment.
  have length : env.mark.depth = tested.scopes.length := holds.scopes.length
  have surrounds : Surrounds (inLoop tested) (env.mark :: marks) := by
    refine ⟨?_, ?_⟩
    · rw [map_cons, length, inLoop, bases]
      exact cons_prefix_cons.mpr ⟨rfl, marked.bases⟩
    · rintro mark mem
      rcases mem_cons.mp mem with rfl | old
      · exact length.le
      · have inside := marked.inside mark old
        rw [← same] at inside
        exact inside.le
  have depth : env.mark.depth = m.scopes.length := by rw [scopes, length]
  have restrict : ∀ slots, Corresponds m.locals m.scopes slots →
      Corresponds s.locals m.scopes slots := fun slots related => by
    refine related.restrict locals fun id mem => wf.bounded id ?_
    rwa [scopes, same] at mem
  have start : Holds track (inLoop tested) (env.mark :: marks) (Env.step .loopStart env) :=
    ⟨congrArg (env.mark :: ·) holds.marks, holds.scopes,
      holds.covered.congr (Track.flag_congr rfl rfl rfl) (Track.bad_congr rfl rfl)⟩
  have original : ∀ id ∈ scopeIds m.scopes, track.marked env.mark id = true →
      track.flag s id = true := fun id mem affected => by
    rw [Track.marked_mark] at affected
    exact covered id (by rwa [scopes, same] at mem) affected
  refine Triple.seq (· = Env.step .loopStart env) ?_ ?_
  · refine Triple.act ?_
    rintro _ rfl _
    refine ⟨?_, rfl⟩
    cases track <;> trivial
  refine Triple.seq (fun env' => ends = false ∧ Holds track m (env.mark :: marks) env') ?_ ?_
  · refine (round _ surrounds).consequence (fun _ same => same ▸ start) fun exit env' post => ?_
    cases exit with
    | normal => exact post
    | cont => exact Left.holds post depth (by rw [scopes, same]) restrict original
    | brk =>
      refine ⟨rfl, Left.holds post depth (by rw [weaker.scopes, scopes])
        (fun slots related => related.mono later) fun id mem affected => ?_⟩
      rw [Track.marked_mark] at affected
      rw [scopes] at mem
      exact weaker.flags id mem (holds.covered id mem affected)
    | ret | stop => trivial
  · refine Triple.act fun env' ⟨running, ended⟩ met => ⟨?_, ?_, ?_, ?_⟩
    · cases track <;> trivial
    · simp only [Env.step, ended.marks, tail_cons]
    · have related := restrict _ ended.scopes
      rwa [scopes, same] at related
    · intro id mem affected
      have unchanged : track.bad (Env.step .loopEnd env') = track.bad env' :=
        Track.bad_congr rfl rfl
      rw [unchanged] at affected
      have inMiddle : id ∈ scopeIds m.scopes := by rwa [scopes, same]
      cases track with
      | moves => exact settles running id mem rfl (ended.covered id inMiddle affected)
      | results =>
        refine original id inMiddle (ended.settled met id ?_ affected)
        rwa [depth, outer_self]
      | drops => cases affected

end Rules

end FoundationLang.Flow
