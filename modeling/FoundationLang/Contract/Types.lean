/-
**The types of the analyzer, and what an application does to them.**
-/

import Mathlib.Data.List.Basic

namespace FoundationLang.Contract

/-- An error, without its place in the text. -/
structure Diagnostic where
  code : String
  message : String
  deriving DecidableEq

/-- The kinds of types. -/
inductive TypeKind
  | invalid | void | never
  | i8 | i16 | i32 | i64 | u8 | u16 | u32 | u64 | isize | usize | f32 | f64
  | bool | string | raw | rawConst | array | slice | own | view | edit
  | parameter | struct | enum | contract | function | task | channel | sender | receiver
  deriving DecidableEq, Repr

/-- `Type`. -/
inductive SemanticType
  | mk (kind : TypeKind) (declaration : Nat) (arguments : List SemanticType)

namespace SemanticType

mutual

/-- Types are compared member by member. -/
def decEq : (left right : SemanticType) → Decidable (left = right)
  | .mk kind declaration arguments, .mk kind' declaration' arguments' =>
    match decEqAll arguments arguments' with
    | .isTrue same =>
      decidable_of_iff (kind = kind' ∧ declaration = declaration') (by simp [same])
    | .isFalse different => .isFalse (by simp [different])

/-- `decEq` on arguments. -/
def decEqAll : (left right : List SemanticType) → Decidable (left = right)
  | [], [] => .isTrue rfl
  | [], _ :: _ => .isFalse (by simp)
  | _ :: _, [] => .isFalse (by simp)
  | type :: rest, type' :: rest' =>
    match decEq type type', decEqAll rest rest' with
    | .isTrue same, .isTrue also => .isTrue (by rw [same, also])
    | .isFalse different, _ => .isFalse (by simp [different])
    | _, .isFalse different => .isFalse (by simp [different])

end

instance : DecidableEq SemanticType := decEq

/-- The kind of a type. -/
def kind : SemanticType → TypeKind
  | .mk kind _ _ => kind

/-- The declaration, or the number of a type parameter. -/
def declaration : SemanticType → Nat
  | .mk _ declaration _ => declaration

/-- The type arguments. -/
def arguments : SemanticType → List SemanticType
  | .mk _ _ arguments => arguments

end SemanticType

/-- `Type{}`. -/
def invalidType : SemanticType :=
  .mk .invalid 0 []

mutual

/-- The text under which the analyzer remembers a type. -/
def semanticTypeKey : SemanticType → String
  | .mk kind declaration arguments =>
    let result := toString kind.ctorIdx ++ ":" ++ toString declaration
    if arguments.isEmpty then result else result ++ "<" ++ argumentKeys arguments ++ ">"

/-- The keys of type arguments. -/
def argumentKeys : List SemanticType → String
  | [] => ""
  | argument :: rest => semanticTypeKey argument ++ ";" ++ argumentKeys rest

end

section Substitution

variable (copies : SemanticType → Bool)

/-- `View` of a value that is copied is the value: the end of `substitute`. -/
def copiedView (result : SemanticType) : SemanticType :=
  match result with
  | .mk .view 1 [argument] => if copies argument then argument else result
  | _ => result

mutual

/-- A type with the arguments of an application put for its parameters. A borrow of a type that is
copied becomes that type; which types are copied is a question about structures and enums alone
(`isCopyParameterType`), so the answer is a parameter here. -/
def substitute (actual : List SemanticType) : SemanticType → SemanticType
  | .mk kind declaration arguments =>
    if kind = .parameter then actual.getD declaration invalidType
    else copiedView copies (.mk kind declaration (substituteAll actual arguments))

/-- `substitute` on arguments. -/
def substituteAll (actual : List SemanticType) : List SemanticType → List SemanticType
  | [] => []
  | argument :: rest => substitute actual argument :: substituteAll actual rest

end

end Substitution

example : substitute (fun type => type.kind == .i32) [.mk .i32 0 []]
    (.mk .struct 4 [.mk .parameter 0 [], .mk .view 1 [.mk .parameter 0 []]]) =
    .mk .struct 4 [.mk .i32 0 [], .mk .i32 0 []] := by
  decide

end FoundationLang.Contract
