/-
**Function bodies as the flow analyses see them.**

Both compilers walk a function body once and track, for each local, whether it was moved and whether
a `Result` in it is still unhandled. The syntax here is the syntax tree of `ast.hpp` with what the
two walks ask of the type checker written on its nodes.

* A type is its `FlowType`: whether a value of it requires drop, is a `Result`, cannot exist.
* Whether a binding is a value or a borrow is its `LocalType`.
* A call, literal or operator is an `operands` node: its operands in order of evaluation, each with
  the use its position makes of it. Which use a position makes is decided by types (the mode of a
  parameter, the receiver of a method), so it stands on the node. The constructors of the source's
  own forms are definitions over it (`Expr.call`, `Expr.structLiteral`, ...).
* Names stay names: both analyses resolve them against their scopes.

Types, loans, inference and visibility are not here; their checks only reject further bodies.
-/

import Mathlib.Data.List.Basic

namespace FoundationLang.Flow

/-! ### Types and bindings -/

/-- What the walks ask of a type. -/
structure FlowType where
  requiresDrop : Bool := false
  isResult : Bool := false
  isNever : Bool := false
deriving DecidableEq, Repr, Inhabited

/-- What becomes of the value of an expression. -/
inductive ExpressionUse
  | consume | inspect
deriving DecidableEq, Repr, Inhabited

/-- The declared type of a local: a value, or a read or edit binding of what a borrow points to. -/
inductive LocalType
  | value (type : FlowType)
  | borrow (pointee : FlowType)
deriving DecidableEq, Repr, Inhabited

/-- The type a consuming mention has. A borrow owns nothing. -/
def LocalType.type : LocalType → FlowType
  | .value type => type
  | .borrow _ => {}

/-- The type of a local that is only looked at. -/
def LocalType.inspected : LocalType → FlowType
  | .value type => type
  | .borrow pointee => pointee

/-- A binding that a construct introduces. -/
structure Binding where
  name : String
  type : LocalType
deriving DecidableEq, Repr, Inhabited

/-- The error binding of an `else` block; without a name the error need not be handled. -/
structure ElseBinding where
  name : Option String
  type : FlowType
deriving DecidableEq, Repr, Inhabited

/-- The payload binding of a match arm. `copied` is `isCopyParameterType` of the payload, `borrowed`
says that the matched value is a borrow. -/
structure Payload where
  name : String
  type : FlowType
  copied : Bool := false
  borrowed : Bool := false
deriving DecidableEq, Repr, Inhabited

/-- The payload as the guard sees it; a copy needs no drop. -/
def Payload.guardType (payload : Payload) : LocalType :=
  if payload.copied then .value { payload.type with requiresDrop := false }
  else .borrow payload.type

/-- The type of the local that a pattern binds. -/
def Payload.armType (payload : Payload) : LocalType :=
  if payload.borrowed && !payload.copied then .borrow payload.type else .value payload.type

/-- How a closure takes a local. -/
inductive CaptureMode
  | copy | view | edit | own
deriving DecidableEq, Repr, Inhabited

/-- One entry of a capture list. -/
structure Capture where
  name : String
  mode : CaptureMode
deriving DecidableEq, Repr, Inhabited

/-- A hidden local that a task keeps for an operation across a suspension. A `handled` one is not
reported as an unhandled `Result`. -/
structure Storage where
  type : FlowType
  handled : Bool := false
deriving DecidableEq, Repr, Inhabited

/-! ### Expressions and statements -/

mutual

/-- Expressions. -/
inductive Expr
  /-- A literal or the name of a function. -/
  | literal (type : FlowType)
  | name (name : String)
  | field (base : Expr) (type : FlowType)
  | index (base position : Expr) (type : FlowType)
  /-- Operands in order of evaluation, each with its use. The value `aliases` them when it is an
  expression over the operands and not a temporary: a dereference, a borrow of a place, an operation
  of a `select`, which is started after all of them. -/
  | operands (arguments : Args) (type : FlowType) (panics aliases : Bool)
  /-- The call of a local function value. -/
  | callLocal (callee : String) (arguments : Args) (type : FlowType)
  /-- A method call; an owning method takes its receiver. -/
  | method (base : Expr) (owns : Bool) (arguments : Args) (type : FlowType)
  /-- `&&` and `||`. -/
  | logical (left right : Expr)
  | replace (target value : Expr)
  | closure (captures : List Capture) (parameters : List Binding) (returnsVoid : Bool)
    (body : Stmts) (type : FlowType)
  | conditional (condition : Expr) (thenBlock : Stmts) (thenValue : Expr) (elseBlock : Stmts)
    (elseValue : Expr)
  | matchOn (value : Expr) (arms : Arms)

/-- Operands with their uses. -/
inductive Args
  | nil
  | cons (use : ExpressionUse) (argument : Expr) (rest : Args)

/-- An expression that may be absent. -/
inductive OptExpr
  | none
  | some (expression : Expr)

/-- A statement. The `storages` are those of the task operation that the expression may be. -/
inductive Stmt
  | variableStatement (binding : Binding) (initializer : Expr) (storages : List Storage)
  | constElse (binding : Binding) (initializer : Expr) (error : ElseBinding) (elseBlock : Stmts)
  | structDestructure (initializer : Expr) (bindings : List Binding)
  | assignName (name : String) (value : Expr)
  | assignPlace (target value : Expr)
  | compoundAssign (target value : Expr)
  | resultElse (result : Expr) (storages : List Storage) (error : ElseBinding) (elseBlock : Stmts)
  | expression (expression : Expr) (storages : List Storage)
  | returnStatement (value : OptExpr) (tail : Bool)
  | discard (value : Expr) (storages : List Storage)
  | unsafeStatement (body : Stmts)
  | breakStatement
  | continueStatement
  | ifStatement (condition : Expr) (thenBlock : Stmts) (elseBlock : OptStmts)
  /-- `storage` says whether the loop owns the sequence and has to drop it. -/
  | forStatement (sequence : Expr) (storage : Bool) (index : Option String) (value : Binding)
    (body : Stmts)
  /-- The `timeout` is the duration of a dynamic timeout. -/
  | select (timeout : OptExpr) (operations : Operations) (branches : Branches)
  | whileStatement (condition : Expr) (body : Stmts)

/-- The statements of a block. -/
inductive Stmts
  | nil
  | cons (first : Stmt) (rest : Stmts)

/-- A block that may be absent. -/
inductive OptStmts
  | none
  | some (block : Stmts)

/-- The arms of a match. -/
inductive Arms
  | nil
  | cons (guard : OptExpr) (payload : Option Payload) (block : Stmts) (tail : OptExpr) (rest : Arms)

/-- The operations of a `select`. -/
inductive Operations
  | nil
  | cons (operation : Expr) (storages : List Storage) (rest : Operations)

/-- The branches of a `select`: its operations, its timeout and its error block. -/
inductive Branches
  | nil
  | cons (binding : Option Binding) (body : Stmts) (rest : Branches)

end

instance : Inhabited Expr := ⟨.literal {}⟩

/-! ### The source's forms -/

/-- Operands that are all used alike. -/
def Args.ofUse (use : ExpressionUse) : List Expr → Args
  | [] => .nil
  | argument :: rest => .cons use argument (Args.ofUse use rest)

/-- `UnaryExpression`, the empty test included: the operand is inspected. -/
def Expr.unary (operand : Expr) (type : FlowType) : Expr :=
  .operands (Args.ofUse .inspect [operand]) type false false

/-- `BinaryExpression` other than `&&` and `||`. -/
def Expr.binary (left right : Expr) (type : FlowType) : Expr :=
  .operands (Args.ofUse .inspect [left, right]) type false false

/-- `OwnershipOperator::Transfer`, `New` and `Own`, and `$task.wait()`. -/
def Expr.transfer (operand : Expr) (type : FlowType) : Expr :=
  .operands (Args.ofUse .consume [operand]) type false false

/-- `UnaryOperator::Dereference`, `OwnershipOperator::View` and `Edit`. -/
def Expr.borrow (operand : Expr) (type : FlowType) : Expr :=
  .operands (Args.ofUse .inspect [operand]) type false true

/-- `ArrayExpression`, `StructExpression` and an enum constructor: every part is consumed. -/
def Expr.structLiteral (parts : List Expr) (type : FlowType) : Expr :=
  .operands (Args.ofUse .consume parts) type false false

/-- The call of a function, with the use of each argument. -/
def Expr.call (arguments : Args) (type : FlowType) : Expr :=
  .operands arguments type false false

/-- A call of `panic`. -/
def Expr.panic (message : Expr) : Expr :=
  .operands (Args.ofUse .inspect [message]) { isNever := true } true false

/-- `CallTargetKind::Panic` of a call target. -/
def Expr.panics : Expr → Bool
  | .operands _ _ panics _ => panics
  | _ => false

/-- A block of statements. -/
def Stmts.ofList : List Stmt → Stmts
  | [] => .nil
  | first :: rest => .cons first (Stmts.ofList rest)

end FoundationLang.Flow
