/-
**What a function body does to its locals.**

A body is lowered to structured code over `Action`: the mentions, initialisations and scope exits of
its locals, in the order in which the generated code performs them. The drop list on a scope exit is
the one the analysis attached to it.

`Env` is what these actions act on. It knows nothing of an analysis: which locals are initialised in
which open scope, which of them were consumed since, which hold a `Result` nobody has mentioned yet,
and what the running rounds of the open loops began with.

The three properties of a step:
-/

import FoundationLang.Flow.Syntax
import FoundationLang.Library.Control

namespace FoundationLang.Flow

open Library Function

/-! ### Slots and actions -/

/-- A declared local of an open scope. It is not `initialised` when it is the storage of a `select`
operation, which is filled when the operation completes. -/
structure Slot where
  id : Nat
  requiresDrop : Bool
  mustUse : Bool := false
  capture : Bool := false
  initialised : Bool := true
deriving DecidableEq, Repr, Inhabited

/-- What the generated code does with locals and scopes. -/
inductive Action
  /-- A scope is opened. -/
  | enter
  /-- A local of the innermost scope is declared, with its value unless the slot says otherwise. -/
  | declare (slot : Slot)
  /-- A mention that leaves the value in place. -/
  | read (id : Nat)
  /-- A mention that consumes the value. -/
  | take (id : Nat)
  /-- A use that no name expression stands for: the callee of a function value, the source of a
  capture by reference, the place of an assignment after its value, an operand that is read again
  after later ones. -/
  | access (id : Nat)
  /-- The local gets a new value, a `Result` or not. -/
  | store (id : Nat) (mustUse : Bool)
  /-- The innermost scope ends. -/
  | leave (drops : List Nat)
  /-- `break` or `continue`: the scopes of the innermost loop are left. -/
  | leaveLoop (drops : List Nat)
  /-- `return`: all scopes are left. -/
  | leaveFunction (drops : List Nat)
  /-- A round of a loop begins, after its test. -/
  | loopStart
  /-- A round of a loop ends by itself. -/
  | loopEnd
  /-- A loop condition that may have stored into these locals was evaluated. -/
  | tested (ids : List Nat)
  /-- The right operand of `&&` or `||`, which mentions these locals, is not evaluated. -/
  | skipped (ids : List Nat)
  /-- A match guard that may have stored into these locals is false. -/
  | guardFailed (ids : List Nat)
  /-- A place assignment begins. Its target mentions these locals, and is `simple` when it only
  reads. -/
  | place (simple : Bool) (ids : List Nat)
  /-- A `select` begins. Its timeout mentions these locals, and is `simple` when it only reads. -/
  | timeout (simple : Bool) (ids : List Nat)
deriving DecidableEq, Repr, Inhabited

/-- The local an action is about. -/
def Action.target : Action → Option Nat
  | .declare slot => some slot.id
  | .read id | .take id | .access id | .store id _ => some id
  | _ => none

/-- The action reads or consumes the local. -/
def Action.uses (id : Nat) : Action → Bool
  | .read other | .take other | .access other => other == id
  | _ => false

/-- The action mentions the local. A skipped operand counts as one that was evaluated. -/
def Action.mentions (id : Nat) : Action → Bool
  | .read other | .take other | .access other => other == id
  | .skipped ids => ids.contains id
  | _ => false

/-- The action leaves a `Result` in the local. -/
def Action.storesResult (id : Nat) : Action → Bool
  | .store other mustUse => mustUse && other == id
  | _ => false

/-- The action gives the local a new value. -/
def Action.renews (id : Nat) : Action → Bool
  | .declare slot => slot.id == id
  | .store other _ => other == id
  | _ => false

/-- The locals below `count` for which some action of the code has the property. -/
def localsAny (property : Nat → Action → Bool) (code : Code Action) (count : Nat) : List Nat :=
  (List.range count).filter fun id => code.any (property id)

/-- The locals below `count` for which every way through the code has an action with the property. -/
def localsAlways (property : Nat → Action → Bool) (code : Code Action) (count : Nat) : List Nat :=
  (List.range count).filter fun id => code.always (property id)

/-- The locals a code reads when it does nothing else. -/
def readsOnly (code : Code Action) : Option (List Nat) := do
  let actions ← code.straight
  actions.mapM fun
    | .read id | .access id => some id
    | _ => none

/-- Operands that are read again. -/
def accesses (ids : List Nat) : Code Action :=
  Code.acts (ids.map .access)

/-! ### The environment -/

/-- The environment at the start of the running round of a loop. -/
structure Mark where
  depth : Nat
  taken : Nat → Bool
  pending : Nat → Bool

/-- The locals of a running body. Scopes and the slots of a scope are listed newest first. -/
structure Env where
  scopes : List (List Slot) := []
  taken : Nat → Bool := fun _ => false
  pending : Nat → Bool := fun _ => false
  marks : List Mark := []

/-- An entry in the innermost scope. -/
def pushEntry {α : Type} (entry : α) : List (List α) → List (List α)
  | [] => [[entry]]
  | scope :: rest => (entry :: scope) :: rest

/-- The scopes opened in the running round of the innermost loop; all of them outside a loop. -/
def Env.loopScopes (env : Env) : List (List Slot) :=
  match env.marks with
  | [] => env.scopes
  | mark :: _ => env.scopes.take (env.scopes.length - mark.depth)

/-- The scopes that the innermost loop is in. -/
def Env.outerScopes (env : Env) : List (List Slot) :=
  match env.marks with
  | [] => []
  | mark :: _ => env.scopes.drop (env.scopes.length - mark.depth)

/-- The effect of an action. -/
def Env.step : Action → Env → Env
  | .enter, env => { env with scopes := [] :: env.scopes }
  | .declare slot, env => { env with
      scopes := pushEntry slot env.scopes
      taken := update env.taken slot.id false
      pending := update env.pending slot.id slot.mustUse }
  | .read id, env => { env with pending := update env.pending id false }
  | .access id, env => { env with pending := update env.pending id false }
  | .take id, env => { env with
      taken := update env.taken id true
      pending := update env.pending id false }
  | .store id mustUse, env => { env with
      taken := update env.taken id false
      pending := update env.pending id mustUse }
  | .leave _, env => { env with scopes := env.scopes.tail }
  | .leaveLoop _, env => { env with scopes := env.outerScopes, marks := env.marks.tail }
  | .leaveFunction _, env => { env with scopes := [] }
  | .loopStart, env => { env with
      marks := ⟨env.scopes.length, env.taken, env.pending⟩ :: env.marks }
  | .loopEnd, env => { env with marks := env.marks.tail }
  | .tested _, env | .skipped _, env | .guardFailed _, env | .place _ _, env
  | .timeout _ _, env => env

/-! ### Properties of a step -/

/-- Nothing consumed is used. -/
def MoveSafe : Action → Env → Prop
  | .read id, env | .take id, env | .access id, env => env.taken id = false
  | _, _ => True

/-- No slot of these scopes holds an unhandled `Result`. -/
def Handled (env : Env) (scopes : List (List Slot)) : Prop :=
  ∀ scope ∈ scopes, ∀ slot ∈ scope, env.pending slot.id = false

instance (env : Env) (scopes : List (List Slot)) : Decidable (Handled env scopes) :=
  inferInstanceAs (Decidable (∀ scope ∈ scopes, ∀ slot ∈ scope, env.pending slot.id = false))

/-- No unhandled `Result` is left behind or overwritten. -/
def ResultSafe : Action → Env → Prop
  | .leave _, env => Handled env (env.scopes.take 1)
  | .leaveLoop _, env => Handled env env.loopScopes
  | .leaveFunction _, env => Handled env env.scopes
  | .store id _, env => env.pending id = false
  | _, _ => True

instance (env : Env) : DecidablePred (ResultSafe · env)
  | .leave _ => inferInstanceAs (Decidable (Handled env (env.scopes.take 1)))
  | .leaveLoop _ => inferInstanceAs (Decidable (Handled env env.loopScopes))
  | .leaveFunction _ => inferInstanceAs (Decidable (Handled env env.scopes))
  | .store id _ => inferInstanceAs (Decidable (env.pending id = false))
  | .enter | .declare _ | .read _ | .take _ | .access _ | .loopStart | .loopEnd | .tested _
  | .skipped _ | .guardFailed _ | .place _ _ | .timeout _ _ => .isTrue trivial

/-- What a scope exit has to drop: every slot whose type requires it and that is not a capture,
inner scopes first and later slots first. -/
def droppable (scopes : List (List Slot)) : List Nat :=
  (scopes.flatten.filter fun slot => slot.requiresDrop && !slot.capture).map (·.id)

/-- The drop list of an exit is what the scopes being left hold, each slot once. -/
def DropSafe : Action → Env → Prop
  | .leave drops, env => drops = droppable (env.scopes.take 1) ∧ drops.Nodup
  | .leaveLoop drops, env => drops = droppable env.loopScopes ∧ drops.Nodup
  | .leaveFunction drops, env => drops = droppable env.scopes ∧ drops.Nodup
  | _, _ => True

end FoundationLang.Flow
