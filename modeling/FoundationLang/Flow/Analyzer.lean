/-
**The flow analysis of the C++ compiler.**

The part of `Analyzer` in `sema.cpp` that tracks moves, unhandled results and scope exits, over the
syntax of `Flow.Syntax`. Names are the source's: `scopes_`, `resultOutstanding_`, `moveStates_`,
`loopScopeBases_` and `loopJumps_` are the fields of `Analyzer`, and each construct below is the
branch of `analyzeStatement` or `analyzeExpression` that handles it.

Two things are added to the walk and none is left out of it.

* The walk returns the code of what it has walked over, with the drop lists that the source stores in
  the model (`blockDrops`, `statementDrops`) on the exits they belong to. The exit of the hidden scope
  of a `for` has no list there: its one local is dropped through `ForTarget::ownsSequence`.
* The source reports every diagnostic and goes on; a body is accepted when there is none. Here the
  first diagnostic ends the walk, so that acceptance is `Except.ok`.
-/

import Mathlib.Data.List.GetD
import FoundationLang.Flow.Actions
import Mathlib.Data.List.Sort

namespace FoundationLang.Flow

open Library List

/-! ### Diagnostics -/

/-- A code and its text. -/
structure Diagnostic where
  code : String
  message : String
deriving DecidableEq, Repr, Inhabited

/-- The result of a walk that stops at the first diagnostic. -/
abbrev Checked (α : Type) := Except Diagnostic α

/-- `diagnostics_.error`, unless the condition holds. -/
def require (condition : Bool) (code message : String) : Checked Unit :=
  if condition then .ok () else .error ⟨code, message⟩

section Checked

variable {α β : Type} {result : α}

theorem bind_ok {x : Checked β} {next : β → Checked α} :
    (x >>= next) = .ok result ↔ ∃ value, x = .ok value ∧ next value = .ok result := by
  cases x with
  | error | ok => simp [bind, Except.bind]

theorem require_ok {condition : Bool} {code message : String} {unit : Unit} :
    require condition code message = .ok unit ↔ condition = true := by
  cases condition with
  | false | true => simp [require]

theorem pure_ok {value : α} : (pure value : Checked α) = .ok result ↔ value = result := by
  simp [pure, Except.pure]

end Checked

/-! ### The state of the walk -/

/-- Whether a local still has its value. -/
inductive MoveState
  | available | moved | maybeMoved
deriving DecidableEq, Repr, Inhabited

/-- What a local was declared as. -/
structure Local where
  name : String := ""
  type : LocalType := .value {}
  capture : Bool := false
deriving DecidableEq, Repr, Inhabited

/-- The state of the walk over one function. Scopes are listed innermost first, the entries of a
scope newest first. -/
structure Analyzer where
  scopes : List (List (String × Nat)) := []
  locals : List Local := []
  resultOutstanding : List Bool := []
  moveStates : List MoveState := []
  loopScopeBases : List Nat := []
  loopJumps : Nat := 0
  /-- The return type of the function is `void`. -/
  returnsVoid : Bool := true
  /-- The bodies of the closures walked over so far. -/
  closures : List (Code Action) := []

/-- What the walk over an expression or a statement gives. A statement `returns` when control never
reaches its end; an expression does when its type is `never` or it is a call of `panic`. The `late`
locals are those that the C expression for the value reads where it stands, after the code. -/
structure Walked where
  state : Analyzer
  type : FlowType := {}
  returns : Bool := false
  code : Code Action := .skip
  late : List Nat := []

namespace Analyzer

variable (state : Analyzer)

/-- The local with a number. -/
def localAt (id : Nat) : Local :=
  state.locals.getD id {}

/-- The local holds an unhandled `Result`. -/
def outstanding (id : Nat) : Bool :=
  state.resultOutstanding.getD id false

/-- Whether a local was moved. -/
def moveState (id : Nat) : MoveState :=
  state.moveStates.getD id .available

/-- One flag is changed. -/
def setOutstanding (id : Nat) (value : Bool) : Analyzer :=
  { state with resultOutstanding := state.resultOutstanding.set id value }

/-- One move state is changed. -/
def setMove (id : Nat) (value : MoveState) : Analyzer :=
  { state with moveStates := state.moveStates.set id value }

/-! ### Locals and scopes -/

/-- The innermost local of a name. -/
def lookupLocal (name : String) : Option Nat :=
  state.scopes.findSome? (·.lookup name)

/-- The innermost local of a name, or an error. -/
def findLocal (name : String) : Checked Nat :=
  match state.lookupLocal name with
  | some id => .ok id
  | none => .error ⟨"FDN2004", "unknown binding " ++ name⟩

/-- A new local in the innermost scope. -/
def push (name : String) (type : LocalType) (capture handled : Bool) : Analyzer :=
  { state with
    scopes := pushEntry (name, state.locals.length) state.scopes
    locals := state.locals ++ [⟨name, type, capture⟩]
    resultOutstanding := state.resultOutstanding ++ [type.type.isResult && !handled]
    moveStates := state.moveStates ++ [.available] }

/-- `scopeDrops`: what the locals of a scope leave to drop, later declarations first. -/
def scopeDrops (scope : List (String × Nat)) : List Nat :=
  let drops := scope.filterMap fun entry =>
    let declared := state.localAt entry.2
    if !declared.capture && declared.type.type.requiresDrop then some entry.2 else none
  drops.insertionSort (· ≥ ·)

/-- The drops of all scopes. -/
def activeDrops : List Nat :=
  state.scopes.flatMap state.scopeDrops

/-- The drops of the scopes inside a loop. -/
def activeDropsFrom (firstScope : Nat) : List Nat :=
  (state.scopes.take (state.scopes.length - firstScope)).flatMap state.scopeDrops

/-- No `Result` of the scope is unhandled. -/
def reportScope (scope : List (String × Nat)) : Checked Unit :=
  require (scope.all fun entry => !state.outstanding entry.2) "FDN2052"
    "Result binding is not handled"

/-- The same for the scopes inside a loop, which a jump leaves. -/
def reportScopesFrom (firstScope : Nat) : Checked Analyzer := do
  require ((state.scopes.take (state.scopes.length - firstScope)).all fun scope =>
    scope.all fun entry => !state.outstanding entry.2) "FDN2052" "Result binding is not handled"
  pure { state with loopJumps := state.loopJumps + 1 }

/-- The same for all locals. -/
def reportOutstanding : Checked Unit :=
  require (state.resultOutstanding.all (!·)) "FDN2052" "Result binding is not handled"

/-! ### Saved and merged states -/

/-- Saved entries, and the default for the locals that came later. -/
def restore {α : Type} (default : α) (saved current : List α) : List α :=
  saved ++ List.replicate (current.length - saved.length) default

/-- Saved flags are put back. -/
def restoreOutstanding (saved : List Bool) : Analyzer :=
  { state with resultOutstanding := restore false saved state.resultOutstanding }

/-- Saved move states are put back. -/
def restoreMoves (saved : List MoveState) : Analyzer :=
  { state with moveStates := restore .available saved state.moveStates }

/-- Both at once. -/
def restoreStates (outstanding : List Bool) (moves : List MoveState) : Analyzer :=
  (state.restoreOutstanding outstanding).restoreMoves moves

/-- `outstandingPrefix`: the states of the locals that another state has too. -/
def outstandingPrefix (before : Analyzer) : List Bool :=
  state.resultOutstanding.take before.resultOutstanding.length

/-- The move states of the locals that another state has too. -/
def movePrefix (before : Analyzer) : List MoveState :=
  state.moveStates.take before.moveStates.length

/-- A panic handles every `Result`. -/
def forgetOutstanding : Analyzer :=
  { state with resultOutstanding := state.resultOutstanding.map fun _ => false }

end Analyzer

/-- Two ways to reach a point. -/
def mergeMove (left right : MoveState) : MoveState :=
  if left = right then left else .maybeMoved

/-- The move states behind two branches. -/
def mergeMoves (before thenMoves elseMoves : List MoveState) (thenReturns elseReturns : Bool) :
    List MoveState :=
  if thenReturns && elseReturns then before
  else if thenReturns then elseMoves
  else if elseReturns then thenMoves
  else List.zipWith mergeMove thenMoves elseMoves

/-- The same for unhandled results, as the source writes it out at each branch. -/
def mergeOutstanding (thenState elseState : List Bool) (thenReturns elseReturns : Bool) :
    List Bool :=
  List.zipWith (fun left right =>
    if thenReturns && elseReturns then false
    else if thenReturns then right
    else if elseReturns then left
    else left || right) thenState elseState

/-- The end of one arm of a `match` or branch of a `select`. -/
structure ArmState where
  outstanding : List Bool
  moves : List MoveState
  terminates : Bool

/-- Several ways to reach a point; `none` when there is none. -/
def mergeAll {α : Type} (merge : α → α → α) : List (List α) → Option (List α)
  | [] => none
  | first :: rest => some (rest.foldl (List.zipWith merge) first)

/-- The arms that go on. -/
def continuing (arms : List ArmState) : List ArmState :=
  arms.filter (!·.terminates)

/-- The flags behind the arms. -/
def mergeArmOutstanding (arms : List ArmState) : Option (List Bool) :=
  mergeAll (· || ·) ((continuing arms).map (·.outstanding))

/-- The move states behind the arms. -/
def mergeArmMoves (arms : List ArmState) : Option (List MoveState) :=
  mergeAll mergeMove ((continuing arms).map (·.moves))

/-! ### Reading a changed state -/

section Reading

variable {α : Type} {default value : α} {entries : List α}

theorem restore_getD (saved s : List α) (id : Nat) :
    (Analyzer.restore default saved s).getD id default = saved.getD id default := by
  simp only [Analyzer.restore, getD_eq_getElem?_getD, List.getElem?_append,
    List.getElem?_replicate]
  split
  · rfl
  · rename_i beyond
    rw [List.getElem?_eq_none (Nat.le_of_not_lt beyond)]
    split <;> rfl

theorem restore_length {saved s : List α} (shorter : saved.length ≤ s.length) :
    (Analyzer.restore default saved s).length = s.length := by
  rw [Analyzer.restore, length_append, length_replicate]
  omega

theorem take_getD {n id : Nat} (inside : id < n) :
    (entries.take n).getD id default = entries.getD id default := by
  simp only [getD_eq_getElem?_getD, List.getElem?_take, if_pos inside]

theorem set_getD_self {id : Nat} (inside : id < entries.length) :
    (entries.set id value).getD id default = value := by
  simp [getD_eq_getElem?_getD, inside]

theorem set_getD_of_ne {id y : Nat} (ne : id ≠ y) :
    (entries.set id value).getD y default = entries.getD y default := by
  simp [getD_eq_getElem?_getD, ne]

theorem zipWith_getD {merge : α → α → α} {left right : List α} {id : Nat}
    (inLeft : id < left.length) (inRight : id < right.length) :
    (List.zipWith merge left right).getD id default
      = merge (left.getD id default) (right.getD id default) := by
  simp [getD_eq_getElem?_getD, inLeft, inRight]

end Reading

end FoundationLang.Flow
