/-
**Contracts and the flattening of their methods.**
-/

import FoundationLang.Contract.Types

namespace FoundationLang.Contract

/-- How a method takes its receiver. -/
inductive ReceiverKind
  | view | edit | own
  deriving DecidableEq, Repr

/-- How a parameter is passed. -/
inductive ParameterMode
  | typeEncoded | read | edit | transfer
  deriving DecidableEq, Repr

/-- `SemanticContractMethod`: a method of a contract with the contract it comes from. The default is the
number of a function. -/
structure ContractMethod where
  name : String
  receiver : ReceiverKind := .view
  returnType : SemanticType := .mk .void 0 []
  parameterTypes : List SemanticType := []
  parameterNames : List String := []
  parameterModes : List ParameterMode := []
  exported : Bool := false
  originContract : Nat := 0
  originArguments : List SemanticType := []
  defaultFunction : Option Nat := none
  deriving DecidableEq

/-- A contract after its names have been resolved: the number of its type parameters, its parents and
its own methods, whose origin is set when they are taken over. -/
structure ContractDeclaration where
  typeParameterCount : Nat := 0
  parents : List SemanticType := []
  methods : List ContractMethod := []

/-! ### What one declaration is checked for -/

/-- The checks on the list after `extends`. -/
def parentDiagnostics : List SemanticType → List String → List Diagnostic
  | [], _ => []
  | parent :: rest, seen =>
    if parent.kind ≠ .contract then
      ⟨"FDN2140", "extends requires a contract"⟩ :: parentDiagnostics rest seen
    else if semanticTypeKey parent ∈ seen then
      ⟨"FDN2141", "duplicate parent contract"⟩ :: parentDiagnostics rest seen
    else parentDiagnostics rest (semanticTypeKey parent :: seen)

/-- The checks on the names and defaults of the own methods. -/
def methodDiagnostics : List ContractMethod → List String → List Diagnostic
  | [], _ => []
  | method :: rest, seen =>
    (if method.name ∈ seen then
        [⟨"FDN2091", "duplicate contract method " ++ method.name⟩] else []) ++
      (if method.name = "drop" then
        [⟨"FDN2138", "drop is reserved for deterministic cleanup"⟩] else []) ++
      (if method.receiver = .own ∧ method.defaultFunction.isSome then
        [⟨"FDN2148", "own contract method cannot have a default"⟩] else []) ++
      methodDiagnostics rest (method.name :: seen)

/-- What is reported of a declaration by itself. -/
def declarationDiagnostics (declaration : ContractDeclaration) : List Diagnostic :=
  parentDiagnostics declaration.parents [] ++ methodDiagnostics declaration.methods []

/-! ### Merging -/

/-- The signatures that can be merged. -/
def sameContractSignature (left right : ContractMethod) : Bool :=
  left.receiver = right.receiver && left.returnType = right.returnType &&
    left.parameterTypes = right.parameterTypes && left.parameterModes = right.parameterModes

/-- A table that is being put together, with the names of `ambiguousDefaults`. -/
structure Merging where
  methods : List ContractMethod := []
  ambiguousDefaults : List String := []
  diagnostics : List Diagnostic := []

/-- The first method of a name. -/
def slot (methods : List ContractMethod) (name : String) : Option ContractMethod :=
  methods.find? fun current => current.name = name

/-- `*found = method`. -/
def assignSlot (method : ContractMethod) : List ContractMethod → List ContractMethod
  | [] => []
  | current :: rest =>
    if current.name = method.name then method :: rest else current :: assignSlot method rest

/-- One method enters a table: it takes a new slot, or the slot of its name. -/
def mergeContractMethod (overriding : Bool) (merging : Merging) (method : ContractMethod) : Merging :=
  match slot merging.methods method.name with
  | none => { merging with methods := merging.methods ++ [method] }
  | some found =>
    if !sameContractSignature found method then
      { merging with diagnostics := merging.diagnostics ++
          [⟨"FDN2143", "conflicting inherited method " ++ method.name⟩] }
    else if overriding then
      { merging with
        methods := assignSlot method merging.methods
        ambiguousDefaults := merging.ambiguousDefaults.filter fun name => name ≠ found.name }
    else if found.defaultFunction.isSome && method.defaultFunction.isSome &&
        found.defaultFunction ≠ method.defaultFunction then
      { merging with
        ambiguousDefaults := if method.name ∈ merging.ambiguousDefaults then
          merging.ambiguousDefaults else merging.ambiguousDefaults ++ [method.name] }
    else if found.defaultFunction.isNone && method.defaultFunction.isSome then
      { merging with methods := assignSlot method merging.methods }
    else merging

/-- The errors for the names left in `ambiguousDefaults`. -/
def ambiguityDiagnostics (names : List String) : List Diagnostic :=
  names.map fun name => ⟨"FDN2144", "ambiguous inherited default " ++ name⟩

/-! ### Flattening -/

/-- The states `0`, `1` and `2` of `flattenContract`. -/
inductive FlattenState
  | fresh | active | done
  deriving DecidableEq, Repr

/-- The states of the contracts, their `methods` and the errors so far. -/
structure Flattener where
  states : Nat → FlattenState
  methods : Nat → List ContractMethod
  diagnostics : List Diagnostic

namespace Flattener

/-- Where the flattening of a contract is. -/
def setState (flattener : Flattener) (index : Nat) (state : FlattenState) : Flattener :=
  { flattener with states := Function.update flattener.states index state }

/-- The methods of a flattened contract. -/
def setMethods (flattener : Flattener) (index : Nat) (methods : List ContractMethod) : Flattener :=
  { flattener with methods := Function.update flattener.methods index methods }

/-- Diagnostics behind the others. -/
def report (flattener : Flattener) (diagnostics : List Diagnostic) : Flattener :=
  { flattener with diagnostics := flattener.diagnostics ++ diagnostics }

/-- Methods enter the table of one contract. -/
def merge (flattener : Flattener) (index : Nat) (ambiguousDefaults : List String) (overriding : Bool)
    (methods : List ContractMethod) : Flattener × List String :=
  let merged := methods.foldl (mergeContractMethod overriding)
    ⟨flattener.methods index, ambiguousDefaults, flattener.diagnostics⟩
  ({ flattener.setMethods index merged.methods with diagnostics := merged.diagnostics },
    merged.ambiguousDefaults)

end Flattener

section Flattening

variable (copies : SemanticType → Bool) (contracts : List ContractDeclaration)

/-- A method of a parent at the arguments of the parent. -/
def specialize (actual : List SemanticType) (method : ContractMethod) : ContractMethod :=
  { method with
    returnType := substitute copies actual method.returnType
    parameterTypes := method.parameterTypes.map (substitute copies actual)
    originArguments := method.originArguments.map (substitute copies actual) }

/-- A parent whose methods are inherited; the other ones are passed over. -/
def Inherits (parent : SemanticType) : Prop :=
  parent.kind = .contract ∧ parent.declaration < contracts.length

instance : DecidablePred (Inherits contracts) := fun _ => inferInstanceAs (Decidable (_ ∧ _))

/-- One pass of the loop over the parents. -/
def inheritParent (flatten : Nat → Flattener → Option Flattener) (index : Nat)
    (progress : Flattener × List String) (parent : SemanticType) :
    Option (Flattener × List String) :=
  if Inherits contracts parent then
    (flatten parent.declaration progress.1).map fun flattened =>
      flattened.merge index progress.2 false
        ((flattened.methods parent.declaration).map (specialize copies parent.arguments))
  else some progress

/-- The tables of the parents first, depth first, then the own methods. It has fuel for its depth;
`Contract.Tables` shows that `resolveContracts` never runs out of it. -/
def flattenContract : Nat → Nat → Flattener → Option Flattener
  | 0, _, _ => none
  | fuel + 1, index, flattener =>
    match contracts[index]? with
    | none => some flattener
    | some declaration =>
      match flattener.states index with
      | .done => some flattener
      | .active => some (flattener.report [⟨"FDN2142", "contract inheritance cycle"⟩])
      | .fresh =>
        let directMethods := flattener.methods index
        let opened := (flattener.setState index .active).setMethods index []
        (declaration.parents.foldlM (inheritParent copies contracts (flattenContract fuel) index)
          (opened, [])).map fun inherited =>
          let merged := inherited.1.merge index inherited.2 true directMethods
          (merged.1.report (ambiguityDiagnostics merged.2)).setState index .done

/-- The own methods of a contract come from it, at its own parameters. -/
def directMethods (index : Nat) (declaration : ContractDeclaration) : List ContractMethod :=
  declaration.methods.map fun method =>
    { method with
      originContract := index
      originArguments :=
        (List.range declaration.typeParameterCount).map fun parameter => .mk .parameter parameter [] }

/-- The contracts as declared: nothing is flattened yet. -/
def declared : Flattener where
  states _ := .fresh
  methods index := (contracts[index]?.map (directMethods index)).getD []
  diagnostics := contracts.flatMap declarationDiagnostics

/-- `resolveContracts`, from the resolved names on. -/
def resolveContracts : Option Flattener :=
  (List.range contracts.length).foldlM
    (fun flattener index => flattenContract copies contracts (contracts.length + 1) index flattener)
    (declared contracts)

end Flattening

end FoundationLang.Contract
