/-
**The walk over a function body.**

`analyzeExpression` and `analyzeStatement` of `sema.cpp`, as one structural recursion over the syntax.
What several constructs do in the same way is a definition before it:
-/

import FoundationLang.Flow.Analyzer

namespace FoundationLang.Flow

open Library

/-! ### Declarations -/

/-- A local to be declared. One without a name has a name of the compiler's own (`$forIndex0`). -/
structure Declaration where
  name : Option String
  type : LocalType
  handled : Bool := false
  capture : Bool := false
  deferred : Bool := false

/-- The local of a binding. -/
def Binding.declaration (binding : Binding) : Declaration :=
  ⟨some binding.name, binding.type, false, false, false⟩

/-- The hidden local that keeps a value. -/
def Storage.declaration (deferred : Bool) (storage : Storage) : Declaration :=
  ⟨none, .value storage.type, storage.handled, false, deferred⟩

/-- The error of an `else` block; without a binding it counts as handled. -/
def ElseBinding.declaration (error : ElseBinding) : Declaration :=
  ⟨error.name, .value error.type, error.name.isNone, false, false⟩

/-- `addLocal`. -/
def introduce (declaration : Declaration) (state : Analyzer) : Checked Walked := do
  let name := declaration.name.getD "$"
  require (declaration.name.isNone || ((state.scopes.headD []).lookup name).isNone) "FDN2003"
    ("duplicate binding " ++ name)
  let type := declaration.type.type
  pure {
    state := state.push name declaration.type declaration.capture declaration.handled
    code := .act (.declare {
      id := state.locals.length
      requiresDrop := type.requiresDrop
      mustUse := type.isResult && !declaration.handled
      capture := declaration.capture
      initialised := !declaration.deferred }) }

/-- Several declarations in order. -/
def introduceAll : List Declaration → Analyzer → Checked Walked
  | [], state => pure { state }
  | declaration :: rest, state => do
    let first ← introduce declaration state
    let later ← introduceAll rest first.state
    pure { state := later.state, code := .seq first.code later.code }

/-! ### Names -/

/-- A value of this type. One of type `never` is not reached, nor is what follows a `panic`. -/
def Walked.value (state : Analyzer) (type : FlowType) (panics : Bool) (code : Code Action)
    (late : List Nat := []) : Walked where
  state
  type
  late
  returns := type.isNever || panics
  code := if type.isNever || panics then .seq code (.jump .stop) else code

/-- What a mention does to the states of the local: it moves it or not, and handles a `Result`. -/
def Analyzer.use (state : Analyzer) (id : Nat) (type : FlowType) (moves : Bool) : Analyzer :=
  let moved := if moves then state.setMove id .moved else state
  if type.isResult then moved.setOutstanding id false else moved

/-- The use of a name. -/
def mention (name : String) (use : ExpressionUse) (state : Analyzer) : Checked Walked := do
  let id ← state.findLocal name
  let declared := state.localAt id
  let consumes := use = .consume
  let type := if consumes then declared.type.type else declared.type.inspected
  let moves := type.requiresDrop && consumes
  require (!(moves && declared.capture)) "FDN2126" ("closure capture cannot be consumed " ++ name)
  require (!(type.requiresDrop && state.moveState id = .moved)) "FDN2065"
    ("use of moved binding " ++ name)
  require (!(type.requiresDrop && state.moveState id = .maybeMoved)) "FDN2066"
    ("binding may have moved " ++ name)
  -- A name that is not consumed is an lvalue, which is read when the value is used.
  pure (.value (state.use id type moves) type false (.act (if moves then .take id else .read id))
    (if moves then [] else [id]))

/-- `placeRootLocal`. -/
def placeRoot (state : Analyzer) : Expr → Option Nat
  | .name name => state.lookupLocal name
  | .field base _ | .index base _ _ => placeRoot state base
  | _ => none

/-- The local that a place names by itself. -/
def placeName (state : Analyzer) : Expr → Option Nat
  | .name name => state.lookupLocal name
  | _ => none

/-- The receiver of a method that owns it is consumed. -/
def receive (base : Expr) (owns : Bool) (state : Analyzer) : Checked Walked :=
  if owns then
    match base with
    | .name name => do
      let id ← state.findLocal name
      require (state.localAt id).type.type.requiresDrop "FDN2102"
        "own method requires an owned binding"
      pure { state := state.setMove id .moved, code := .act (.take id) }
    | _ => .error ⟨"FDN2102", "own method requires an owned binding"⟩
  else pure { state }

/-- One entry of a capture list: what it does to the captured local, and the closure's own local. -/
def capture (entry : Capture) (state : Analyzer) : Checked (Walked × Declaration) := do
  match state.lookupLocal entry.name with
  | none => .error ⟨"FDN2120", "unknown captured binding " ++ entry.name⟩
  | some id =>
    let type := (state.localAt id).type.type
    let inner : Declaration := ⟨some entry.name, .value type, false, true, false⟩
    let mode := if entry.mode = .copy && type.requiresDrop then .view else entry.mode
    match mode with
    | .copy => pure ({ state, code := .act (.read id) }, inner)
    | .own =>
      require (state.moveState id ≠ .moved) "FDN2065" ("use of moved binding " ++ entry.name)
      require (state.moveState id ≠ .maybeMoved) "FDN2066" ("binding may have moved " ++ entry.name)
      let action := if type.requiresDrop then Action.take id else .read id
      pure ({ state := state.use id type type.requiresDrop, code := .act action }, inner)
    | .view | .edit => pure ({ state, code := .act (.access id) }, inner)

/-- The entries of a capture list in order. -/
def captureAll : List Capture → Analyzer → Checked (Walked × List Declaration)
  | [], state => pure ({ state }, [])
  | entry :: rest, state => do
    require (rest.all (·.name ≠ entry.name)) "FDN2121" ("duplicate capture " ++ entry.name)
    let (first, inner) ← capture entry state
    let (later, others) ← captureAll rest first.state
    pure ({ state := later.state, code := .seq first.code later.code }, inner :: others)

/-! ### Scopes -/

/-- `beginScope`. -/
def openScope (state : Analyzer) : Analyzer :=
  { state with scopes := [] :: state.scopes }

/-- A scope is reported, and its locals are dropped. -/
def closeScope (walked : Walked) : Checked Walked := do
  let scope := walked.state.scopes.headD []
  walked.state.reportScope scope
  pure { walked with
    state := { walked.state with scopes := walked.state.scopes.tail }
    code := .seq (.act .enter)
      (.seq walked.code (.act (.leave (walked.state.scopeDrops scope)))) }

/-- A scope is opened, walked over, reported and closed with its drops. -/
def inScope (walk : Analyzer → Checked Walked) (state : Analyzer) : Checked Walked := do
  let walked ← walk (openScope state)
  closeScope walked

/-- A walk behind some declarations. -/
def introducing (declarations : List Declaration) (walk : Analyzer → Checked Walked)
    (state : Analyzer) : Checked Walked := do
  let declared ← introduceAll declarations state
  let walked ← walk declared.state
  pure { walked with code := .seq declared.code walked.code }

/-- The state in which a further branch starts: the later locals, with the states from before. -/
def rewind (before state : Analyzer) : Analyzer :=
  state.restoreStates before.resultOutstanding before.moveStates

/-- The `else` block of a `Result`: it must exit, and what follows it is the success path. -/
def orElse (error : ElseBinding) (walk : Analyzer → Checked Walked) (message : String)
    (state : Analyzer) : Checked Walked := do
  let walked ← inScope (introducing [error.declaration] walk) state
  require walked.returns "FDN2054" message
  pure {
    state := rewind state walked.state
    code := .either walked.code .skip }

/-! ### Branches -/

/-- The state behind two branches. -/
def joinBranches (before : Analyzer) (thenBranch elseBranch : Walked) : Analyzer :=
  let outstanding := mergeOutstanding (thenBranch.state.outstandingPrefix before)
    (elseBranch.state.outstandingPrefix before) thenBranch.returns elseBranch.returns
  let moves := mergeMoves before.moveStates (thenBranch.state.movePrefix before)
    (elseBranch.state.movePrefix before) thenBranch.returns elseBranch.returns
  elseBranch.state.restoreStates outstanding moves

/-- Both branches start from one state. -/
def twoBranches (thenWalk elseWalk : Analyzer → Checked Walked) (state : Analyzer) :
    Checked Walked := do
  let thenBranch ← thenWalk state
  let elseBranch ← elseWalk (rewind state thenBranch.state)
  pure {
    state := joinBranches state thenBranch elseBranch
    type := if thenBranch.type.isNever then elseBranch.type else thenBranch.type
    returns := thenBranch.returns && elseBranch.returns
    code := .either thenBranch.code elseBranch.code }

/-- What is known of the arms of a match, or the branches of a select, after walking over them. -/
structure Arms.Walked where
  state : Analyzer
  arms : List ArmState := []
  /-- The type of the first arm that has a value. -/
  type : Option FlowType := none
  code : Code Action := .jump .stop

/-- What the merge of the arms looks at. -/
def armState (before : Analyzer) (walked : Walked) : ArmState where
  outstanding := walked.state.outstandingPrefix before
  moves := walked.state.movePrefix before
  terminates := walked.returns

/-- One more arm before the others. `tests` are the guards of earlier arms that were tried. -/
def consArm (before : Analyzer) (tests : Code Action) (arm : Walked) (rest : Arms.Walked) :
    Arms.Walked where
  state := rest.state
  arms := armState before arm :: rest.arms
  type := some (if arm.type.isNever then rest.type.getD arm.type else arm.type)
  code := .either (.seq tests arm.code) rest.code

/-- The guard of an arm is false, or is not evaluated because the variant is another. -/
def guardFailure (guard : Code Action) (count : Nat) : Code Action :=
  let stored := localsAny Action.storesResult guard count
  .either .skip
    (.seq (.act .enter) (.seq (.seq guard (.act (.guardFailed stored))) (.act (.leave []))))

/-- The state after several arms, with these results. -/
def afterArms (before : Analyzer) (walked : Arms.Walked) (outstanding : List Bool) : Analyzer :=
  walked.state.restoreStates outstanding ((mergeArmMoves walked.arms).getD before.moveStates)

/-- The state after the arms of a match. -/
def joinArms (before : Analyzer) (walked : Arms.Walked) : Analyzer :=
  afterArms before walked (if walked.arms.isEmpty then before.resultOutstanding
    else (mergeArmOutstanding walked.arms).getD (before.resultOutstanding.map fun _ => false))

/-- The state after the branches of a select. -/
def joinSelect (before : Analyzer) (walked : Arms.Walked) : Analyzer :=
  afterArms before walked ((mergeArmOutstanding walked.arms).getD before.resultOutstanding)

/-! ### Loops -/

/-- One pass over the body of a loop. -/
def loopBody (walk : Analyzer → Checked Walked) (state : Analyzer) : Checked Walked := do
  let base := state.scopes.length
  let body ← inScope walk { state with loopScopeBases := base :: state.loopScopeBases }
  pure { body with state := { body.state with loopScopeBases := state.loopScopeBases } }

/-- The state after a loop whose test leads to `before`. -/
def mergeLoop (before : Analyzer) (body : Walked) : Checked Analyzer := do
  let jumps := body.state.loopJumps != before.loopJumps
  let moves := body.state.movePrefix before
  require (!((!body.returns || jumps) && moves != before.moveStates)) "FDN2079"
    "loop body cannot leave a binding moved"
  let loopMoves := List.zipWith (fun entry after =>
    if (body.returns && !jumps) || entry = after then entry else .maybeMoved) before.moveStates moves
  let outstanding := List.zipWith (· || ·) before.resultOutstanding
    (body.state.outstandingPrefix before)
  pure (body.state.restoreStates outstanding loopMoves)

/-- A loop whose rounds are marked. -/
def loopCode (test body : Code Action) : Code Action :=
  .loop test (.seq (.act .loopStart) (.seq body (.act .loopEnd)))

/-- `break` and `continue`. -/
def loopJump (keyword : String) (exit : Exit) (state : Analyzer) : Checked Walked :=
  match state.loopScopeBases with
  | [] => .error ⟨"FDN2200", keyword ++ " is only available inside a loop"⟩
  | base :: _ => do
    let reported ← state.reportScopesFrom base
    pure {
      state := reported
      returns := true
      code := .seq (.act (.leaveLoop (state.activeDropsFrom base))) (.jump exit) }

/-! ### The walk -/

/-- A value that a statement leaves behind: it may hold neither a `Result` nor something to drop. -/
def leaveBehind (value : Walked) : Checked Walked := do
  require (!value.type.isResult) "FDN2051" "Result value must be handled or discarded"
  require (!value.type.requiresDrop) "FDN2076" "owned value must be handled or discarded"
  pure { value with
    state := if value.returns then value.state.forgetOutstanding else value.state }

/-- `return` with a value, or none. -/
def leaveFunction (value : Walked) : Checked Walked := do
  value.state.reportOutstanding
  let drops := value.state.activeDrops
  pure { value with
    returns := true
    code := .seq value.code (.seq (.act (.leaveFunction drops)) (.jump .ret)) }

/-- The states of a local of this type that has got a new value. -/
def Analyzer.assigned (state : Analyzer) (id : Nat) (type : FlowType) : Analyzer :=
  let renewed := if type.requiresDrop then state.setMove id .available else state
  if type.isResult then renewed.setOutstanding id true else renewed

/-- An assignment to a local by its name. -/
def assign (name : String) (value : Walked) : Checked Walked := do
  let id ← value.state.findLocal name
  let declared := (value.state.localAt id).type
  require (!(declared.type.isResult && value.state.outstanding id)) "FDN2052"
    "assignment replaces an unhandled Result"
  -- An edit binding is assigned through: the local itself keeps its borrow.
  let action := match declared with
    | .value type => .act (.store id type.isResult)
    | .borrow _ => .skip
  pure { state := value.state.assigned id declared.type, code := .seq value.code action }

/-- The walk meets `early` first, while the generated code evaluates it after the other code: the
place of an assignment after the value, the timeout of a `select` after the operations. -/
def postponed (start : Bool → List Nat → Action) (before : Analyzer) (early other : Code Action) :
    Code Action :=
  let reads := readsOnly early
  let mentioned := localsAlways Action.mentions early before.locals.length
  let again := match reads with
    | some ids => accesses ids
    | none => early
  .seq (.act (start reads.isSome mentioned)) (.seq other again)

/-- `replace`. The result of the old value is handled by whoever gets it. -/
def replaceTarget (before : Analyzer) (place : Expr) (value target : Walked) : Checked Walked := do
  let root := placeRoot before place
  require (!(root.any fun id => before.moveState id = .available
    && value.state.moveState id ≠ .available)) "FDN2136" "replacement value consumes its destination"
  let named := placeName before place
  let stored := match named with
    | some id => if target.type.isResult then target.state.setOutstanding id true else target.state
    | none => target.state
  let store := match named with
    | some id => .act (.store id target.type.isResult)
    | none => .skip
  pure (.value stored target.type false
    (.seq value.code (.seq target.code (.seq (accesses value.late) store))))

/-- The right operand of `&&` or `||` may not be evaluated. -/
def joinLogical (left right : Walked) : Walked where
  state :=
    right.state.restoreMoves
      (List.zipWith mergeMove left.state.moveStates (right.state.movePrefix left.state))
  code :=
    let mentioned := localsAlways Action.mentions right.code left.state.locals.length
    .seq left.code (.either right.code (.act (.skipped mentioned)))

/-- The state in which a closure's body is walked over. The loops around the closure are still
there. -/
def enterClosure (state : Analyzer) (returnsVoid : Bool) : Analyzer where
  scopes := []
  loopScopeBases := state.loopScopeBases
  loopJumps := state.loopJumps
  returnsVoid
  closures := state.closures

/-- A body in the scope of its parameters. -/
def functionBody (parameters : List Declaration) (walk : Analyzer → Checked Walked)
    (state : Analyzer) : Checked Walked := do
  let body ← inScope (introducing parameters walk) state
  require (state.returnsVoid || body.returns) "FDN2008" "function does not return on every path"
  pure body

/-- The state behind a closure, whose body is kept. -/
def leaveClosure (state : Analyzer) (body : Walked) : Analyzer :=
  { state with
    loopJumps := body.state.loopJumps
    closures := body.code :: body.state.closures }

mutual

/-- The walk over an expression. -/
def analyzeExpression : Expr → ExpressionUse → Analyzer → Checked Walked
  | .literal type, _, state => pure (.value state type false .skip)
  | .name name, use, state => mention name use state
  | .field base type, _, state => do
    let base ← analyzeExpression base .inspect state
    pure (.value base.state type false base.code base.late)
  | .index base position type, _, state => do
    let base ← analyzeExpression base .inspect state
    let position ← analyzeExpression position .inspect base.state
    let reads := accesses (base.late ++ position.late)
    pure (.value position.state type false (.seq base.code (.seq position.code reads)) base.late)
  | .operands arguments type panics aliases, _, state => do
    let arguments ← analyzeArguments arguments state
    let reads := accesses (if aliases then [] else arguments.late)
    pure (.value arguments.state type panics (.seq arguments.code reads)
      (if aliases then arguments.late else []))
  | .callLocal callee arguments type, _, state => do
    let id ← state.findLocal callee
    let arguments ← analyzeArguments arguments state
    pure (.value arguments.state type false
      (.seq arguments.code (accesses (arguments.late ++ [id]))))
  | .method base owns arguments type, _, state => do
    let receiver ← analyzeExpression base .inspect state
    let received ← receive base owns receiver.state
    let arguments ← analyzeArguments arguments received.state
    let reads := accesses ((if owns then [] else receiver.late) ++ arguments.late)
    pure (.value arguments.state type false
      (.seq receiver.code (.seq received.code (.seq arguments.code reads))))
  | .logical left right, _, state => do
    let left ← analyzeExpression left .inspect state
    let right ← analyzeExpression right .inspect left.state
    pure (joinLogical left right)
  | .replace place value, _, state => do
    let value ← analyzeExpression value .consume state
    let target ← analyzeExpression place .inspect value.state
    replaceTarget state place value target
  | .closure captures parameters returnsVoid body type, _, state => do
    let (captured, inner) ← captureAll captures state
    let declarations := inner ++ parameters.map Binding.declaration
    let body ← functionBody declarations (analyzeStatements body)
      (enterClosure captured.state returnsVoid)
    pure (.value (leaveClosure captured.state body) type false captured.code)
  | .conditional condition thenBlock thenValue elseBlock elseValue, _, state => do
    let condition ← analyzeExpression condition .consume state
    let branches ← twoBranches
      (inScope fun state => do
        let block ← analyzeStatements thenBlock state
        let value ← analyzeExpression thenValue .consume block.state
        pure { value with returns := block.returns, code := .seq block.code value.code })
      (inScope fun state => do
        let block ← analyzeStatements elseBlock state
        let value ← analyzeExpression elseValue .consume block.state
        pure { value with returns := block.returns, code := .seq block.code value.code })
      condition.state
    pure (.value branches.state branches.type false (.seq condition.code branches.code))
  | .matchOn value arms, _, state => do
    let value ← analyzeExpression value .consume state
    let walked ← analyzeArms arms value.state .skip value.state
    pure (.value (joinArms value.state walked) (walked.type.getD {}) false
      (.seq value.code walked.code))

/-- Operands in order. -/
def analyzeArguments : Args → Analyzer → Checked Walked
  | .nil, state => pure { state }
  | .cons use argument rest, state => do
    let first ← analyzeExpression argument use state
    let later ← analyzeArguments rest first.state
    pure {
      state := later.state
      code := .seq first.code later.code
      late := first.late ++ later.late }

/-- A guard. It sees the payload in a scope of its own and may not move. -/
def analyzeGuard : OptExpr → Option Payload → Analyzer → Checked Walked
  | .none, _, state => pure { state }
  | .some guard, payload, state => do
    let walked ← match payload with
      | some payload => do
        let declaration : Declaration := ⟨some payload.name, payload.guardType, false, false, false⟩
        inScope (introducing [declaration] (analyzeExpression guard .inspect)) state
      | none => analyzeExpression guard .inspect state
    require (walked.state.movePrefix state == state.moveStates) "FDN2228"
      "match guard cannot move a binding"
    pure { state := walked.state.restoreMoves state.moveStates, code := walked.code }

/-- The value of an arm or the duration of a timeout, or nothing. -/
def analyzeTail : OptExpr → Analyzer → Checked Walked
  | .none, state => pure { state }
  | .some value, state => analyzeExpression value .consume state

/-- The walk over the arms of a match; the guards tried so far come along. -/
def analyzeArms : Arms → Analyzer → Code Action → Analyzer → Checked Arms.Walked
  | .nil, _, _, state => pure { state }
  | .cons guard payload block tail rest, before, tests, state => do
    let guarded ← analyzeGuard guard payload (openScope (rewind before state))
    let bound ← introduceAll (payload.toList.map fun payload =>
      ⟨some payload.name, payload.armType, false, false, false⟩) guarded.state
    let block ← analyzeStatements block bound.state
    let value ← analyzeTail tail block.state
    let terminates := block.returns || value.type.isNever
    let arm ← closeScope { value with
      type := if terminates then { isNever := true } else value.type
      returns := terminates
      code := .seq guarded.code (.seq bound.code (.seq block.code value.code)) }
    let failed := match guard with
      | .none => .skip
      | .some _ => guardFailure guarded.code state.locals.length
    let others ← analyzeArms rest before (.seq tests failed) arm.state
    pure (consArm before tests arm others)

/-- The operations of a `select`. -/
def analyzeOperations : Operations → Analyzer → Checked Walked
  | .nil, state => pure { state }
  | .cons operation storages rest, state => do
    let first ← analyzeExpression operation .consume state
    let stored ← introduceAll (storages.map (Storage.declaration true)) first.state
    let later ← analyzeOperations rest stored.state
    pure {
      state := later.state
      code := .seq first.code (.seq stored.code later.code)
      late := first.late ++ later.late }

/-- The branches of a `select`, each from the state before them. -/
def analyzeBranches : Branches → Analyzer → Analyzer → Checked Arms.Walked
  | .nil, _, state => pure { state }
  | .cons binding body rest, before, state => do
    let branch ← inScope (introducing (binding.toList.map Binding.declaration)
      (analyzeStatements body)) (rewind before state)
    let others ← analyzeBranches rest before branch.state
    pure (consArm before .skip branch others)

/-- The walk over a statement. -/
def analyzeStatement : Stmt → Analyzer → Checked Walked
  | .variableStatement binding initializer storages, state => do
    let value ← analyzeExpression initializer .consume state
    let stored ← introduceAll (storages.map (Storage.declaration false)) value.state
    let bound ← introduce binding.declaration stored.state
    pure { state := bound.state, code := .seq value.code (.seq stored.code bound.code) }
  | .constElse binding initializer error elseBlock, state => do
    let value ← analyzeExpression initializer .consume state
    require value.type.isResult "FDN2053" "const else requires a Result initializer"
    let handled ← orElse error (analyzeStatements elseBlock) "const else block must exit" value.state
    let bound ← introduce binding.declaration handled.state
    pure { state := bound.state, code := .seq value.code (.seq handled.code bound.code) }
  | .structDestructure initializer bindings, state => do
    let value ← analyzeExpression initializer .consume state
    let bound ← introduceAll (bindings.map Binding.declaration) value.state
    pure { state := bound.state, code := .seq value.code bound.code }
  | .assignName name value, state => do
    let value ← analyzeExpression value .consume state
    assign name value
  | .assignPlace target value, state => do
    let target ← analyzeExpression target .inspect state
    let value ← analyzeExpression value .consume target.state
    pure {
      state := value.state
      code := .seq (postponed .place state target.code value.code) (accesses value.late) }
  | .compoundAssign target value, state => do
    let target ← analyzeExpression target .inspect state
    let value ← analyzeExpression value .inspect target.state
    let reads := accesses (target.late ++ value.late)
    pure { state := value.state, code := .seq target.code (.seq value.code reads) }
  | .resultElse result storages error elseBlock, state => do
    let value ← analyzeExpression result .consume state
    require value.type.isResult "FDN2053" "expression else requires a Result value"
    let stored ← introduceAll (storages.map (Storage.declaration false)) value.state
    let handled ← orElse error (analyzeStatements elseBlock) "expression else block must exit"
      stored.state
    pure { state := handled.state, code := .seq value.code (.seq stored.code handled.code) }
  | .expression expression storages, state => do
    let value ← analyzeExpression expression .consume state
    let stored ← introduceAll (storages.map (Storage.declaration false)) value.state
    leaveBehind { value with state := stored.state, code := .seq value.code stored.code }
  | .returnStatement .none _, state => do
    require state.returnsVoid "FDN2014" "non-void function must return a value"
    leaveFunction { state }
  | .returnStatement (.some value) tail, state => do
    let walked ← analyzeExpression value .consume state
    if tail && state.returnsVoid then leaveBehind walked
    else if value.panics then
      pure { walked with state := walked.state.forgetOutstanding, returns := true }
    else
      require (!state.returnsVoid) "FDN2015" "void function must use a bare return"
      leaveFunction walked
  | .discard value storages, state => do
    let value ← analyzeExpression value .consume state
    let stored ← introduceAll (storages.map (Storage.declaration false)) value.state
    pure { state := stored.state, code := .seq value.code stored.code }
  | .unsafeStatement body, state => inScope (analyzeStatements body) state
  | .breakStatement, state => loopJump "break" .brk state
  | .continueStatement, state => loopJump "continue" .cont state
  | .ifStatement condition thenBlock elseBlock, state => do
    let condition ← analyzeExpression condition .consume state
    let branches ← twoBranches (inScope (analyzeStatements thenBlock)) (analyzeElse elseBlock)
      condition.state
    pure { branches with type := {}, code := .seq condition.code branches.code }
  | .forStatement sequence storage index value body, state => do
    let sequence ← analyzeExpression sequence .inspect state
    let loop ← inScope (introducing [⟨none, .value { requiresDrop := storage }, false, false, false⟩]
      fun state => do
        let body ← loopBody (introducing [⟨index, .value {}, false, false, false⟩,
          value.declaration] (analyzeStatements body)) state
        let merged ← mergeLoop state body
        pure { state := merged, code := loopCode .skip body.code }) sequence.state
    pure { state := loop.state, code := .seq sequence.code loop.code }
  | .select timeout operations branches, state => do
    let duration ← analyzeTail timeout state
    let started ← analyzeOperations operations duration.state
    let walked ← analyzeBranches branches started.state started.state
    let deadline ← introduce ⟨none, .value {}, false, false, false⟩ (joinSelect started.state walked)
    pure {
      state := deadline.state
      returns := walked.arms.all (·.terminates)
      code := .seq (.seq (postponed .timeout state duration.code started.code)
        (accesses started.late)) (.seq walked.code deadline.code) }
  | .whileStatement condition body, state => do
    let test ← analyzeExpression condition .consume state
    require (test.state.movePrefix state == state.moveStates) "FDN2079"
      "loop condition cannot move a binding"
    let body ← loopBody (analyzeStatements body) test.state
    let merged ← mergeLoop test.state body
    let stored := localsAny Action.storesResult test.code state.locals.length
    pure {
      state := merged
      code := loopCode (.seq test.code (.act (.tested stored))) body.code }

/-- The `else` block of an `if`. -/
def analyzeElse : OptStmts → Analyzer → Checked Walked
  | .none, state => pure { state }
  | .some block, state => inScope (analyzeStatements block) state

/-- The walk over a block. -/
def analyzeStatements : Stmts → Analyzer → Checked Walked
  | .nil, state => pure { state }
  | .cons first rest, state => do
    let first ← analyzeStatement first state
    let later ← analyzeStatements rest first.state
    pure {
      state := later.state
      returns := first.returns || later.returns
      code := .seq first.code later.code }

end

/-- A function: its parameters and its body. -/
structure Function where
  parameters : List Binding := []
  returnsVoid : Bool := true
  body : Stmts

/-- `analyzeFunction`: the code of the body, and of every closure in it. -/
def analyzeFunction (function : Function) : Checked (List (Code Action)) := do
  let body ← functionBody (function.parameters.map Binding.declaration)
    (analyzeStatements function.body) { returnsVoid := function.returnsVoid }
  pure (body.code :: body.state.closures)

end FoundationLang.Flow
