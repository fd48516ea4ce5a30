/-
**The search for value types without a finite layout.**
-/

import FoundationLang.Contract.Types

namespace FoundationLang.Layout

open Contract

/-- What a layout depends on. -/
structure StructDeclaration where
  typeParameterCount : Nat := 0
  fieldTypes : List SemanticType := []

/-- An enum: its type parameters, the payloads of its variants, and whether it is the built-in `Result`. -/
structure EnumDeclaration where
  typeParameterCount : Nat := 0
  payloadTypes : List (Option SemanticType) := []
  result : Bool := false

/-- The declarations of a program. -/
structure Declarations where
  structs : List StructDeclaration := []
  enums : List EnumDeclaration := []

/-! ### Types inside types -/

mutual

/-- The candidate is a proper part of the type. -/
def containsProperType : (outer candidate : SemanticType) → Bool
  | .mk _ _ arguments, candidate => anyContains arguments candidate

/-- The candidate is one of the arguments, or a part of one. -/
def anyContains : (arguments : List SemanticType) → (candidate : SemanticType) → Bool
  | [], _ => false
  | argument :: rest, candidate =>
    argument == candidate || containsProperType argument candidate || anyContains rest candidate

end

/-- Two instances of one declaration on a path, and what the search takes them for. -/
def isInfiniteTypeRecurrence (active child : SemanticType) : Bool :=
  if active = child then true
  else if containsProperType active child then false
  else active.arguments.any fun argument => argument == child || containsProperType child argument

mutual

/-- What an array is an array of, in the end. -/
def elementType : SemanticType → SemanticType
  | .mk kind declaration arguments =>
    if kind = .array then elementOf (.mk kind declaration arguments) arguments
    else .mk kind declaration arguments

/-- The element of an array. -/
def elementOf (whole : SemanticType) : List SemanticType → SemanticType
  | [element] => elementType element
  | _ => whole

end

section Search

variable (copies : SemanticType → Bool) (declarations : Declarations)

/-- The types that a struct or an enum holds inline: its fields and payloads, through arrays.
`copies` stands for `isCopyParameterType`, as in `substitute`. -/
def layoutChildren (type : SemanticType) : List SemanticType :=
  match type.kind with
  | .struct =>
    match declarations.structs[type.declaration]? with
    | none => []
    | some declaration =>
      declaration.fieldTypes.map fun field => elementType (substitute copies type.arguments field)
  | .enum =>
    match declarations.enums[type.declaration]? with
    | none => []
    | some declaration =>
      declaration.payloadTypes.filterMap fun payload =>
        payload.bind fun payload =>
          let child := substitute copies type.arguments payload
          if child = .mk .void 0 [] ∧ declaration.result then none else some (elementType child)
  | _ => []

/-- The number under which the search keeps the instances of a declaration. -/
def typeNode (type : SemanticType) : Nat :=
  if type.kind = .struct then type.declaration else declarations.structs.length + type.declaration

/-- A child that the search enters: a struct or an enum with a number in range. -/
def Entered (type : SemanticType) : Prop :=
  (type.kind = .struct ∨ type.kind = .enum) ∧
    typeNode declarations type < declarations.structs.length + declarations.enums.length

instance : DecidablePred (Entered declarations) := fun _ => inferInstanceAs (Decidable (_ ∧ _))

/-- `Frame`, with the children that are still to come. -/
structure Frame where
  type : SemanticType
  node : Nat
  key : String
  children : List SemanticType

/-- The stack with its top first, the instances on it by declaration with the last one first, and the
keys of the types that are done. -/
structure Walk where
  stack : List Frame
  active : Nat → List SemanticType
  validated : List String

/-- A type on top of the stack. -/
def Walk.push (walk : Walk) (type : SemanticType) : Walk where
  stack := ⟨type, typeNode declarations type, semanticTypeKey type,
    layoutChildren copies declarations type⟩ :: walk.stack
  active := Function.update walk.active (typeNode declarations type)
    (type :: walk.active (typeNode declarations type))
  validated := walk.validated

/-- `isInfiniteTypeRecurrence(active[node].back(), child)`, when there is one. -/
def recurs (active : List SemanticType) (child : SemanticType) : Bool :=
  match active with
  | [] => false
  | back :: _ => isInfiniteTypeRecurrence back child

/-- One pass of the inner loop; `none` is the error. -/
def turn (walk : Walk) (frame : Frame) (rest : List Frame) : Option Walk :=
  match frame.children with
  | [] => some
    { stack := rest
      active := Function.update walk.active frame.node (walk.active frame.node).tail
      validated := if frame.key ∈ walk.validated then walk.validated else frame.key :: walk.validated }
  | child :: children =>
    let advanced : Walk := { walk with stack := { frame with children := children } :: rest }
    if Entered declarations child then
      if recurs (walk.active (typeNode declarations child)) child then none
      else if semanticTypeKey child ∈ walk.validated then some advanced
      else some (advanced.push copies declarations child)
    else some advanced

/-- The inner loop: `none` when the fuel is not enough, `some none` for the error. -/
def walk : Nat → Walk → Option (Option (List String))
  | 0, _ => none
  | fuel + 1, state =>
    match state.stack with
    | [] => some (some state.validated)
    | frame :: rest =>
      match turn copies declarations state frame rest with
      | none => some none
      | some next => walk fuel next

/-- The search from a root. -/
def rootWalk (root : SemanticType) (validated : List String) : Walk :=
  Walk.push copies declarations ⟨[], fun _ => [], validated⟩ root

/-- A declaration at its own parameters. -/
def ownApplication (kind : TypeKind) (declaration typeParameterCount : Nat) : SemanticType :=
  .mk kind declaration ((List.range typeParameterCount).map fun parameter => .mk .parameter parameter [])

/-- The declared types, applied to their own parameters. -/
def roots : List SemanticType :=
  declarations.structs.mapIdx (fun id declaration =>
      ownApplication .struct id declaration.typeParameterCount) ++
    declarations.enums.mapIdx fun id declaration =>
      ownApplication .enum id declaration.typeParameterCount

/-- The outer loop. -/
def rejectFrom (fuel : Nat) : List SemanticType → List String → Option (List Diagnostic)
  | [], _ => some []
  | root :: rest, validated =>
    if semanticTypeKey root ∈ validated then rejectFrom fuel rest validated
    else
      match walk copies declarations fuel (rootWalk copies declarations root validated) with
      | none => none
      | some none => some [⟨"FDN2023", "recursive value type is not allowed"⟩]
      | some (some validated) => rejectFrom fuel rest validated

/-- What is reported of all roots. -/
def rejectTypeCycles (fuel : Nat) : Option (List Diagnostic) :=
  rejectFrom copies declarations fuel (roots declarations) []

end Search

end FoundationLang.Layout
