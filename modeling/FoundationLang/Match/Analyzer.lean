/-
**The analysis of `match` and what a match does.**

Both compilers go through the arms and keep which variants are covered and which literals were seen: `sema.cpp`
in a set for each variant, `semantic_branch.fn` in one set of keys that begin with the variant. The rest of
what they do with an arm (its guard, its block, its result) adds diagnostics and is not here.
-/

import FoundationLang.Standard.Strings

namespace FoundationLang.Match

open Standard

/-! ### Types -/

/-- The integer types. -/
inductive IntegerKind
  | i8 | i16 | i32 | i64 | isize | u8 | u16 | u32 | u64 | usize
  deriving DecidableEq

namespace IntegerKind

/-- `isUnsignedInteger`. -/
def isUnsigned : IntegerKind → Bool
  | u8 | u16 | u32 | u64 | usize => true
  | _ => false

/-- The largest value, with pointers of 64 bits. -/
def maximum : IntegerKind → ℕ
  | i8 => 127
  | i16 => 32767
  | i32 => 2147483647
  | i64 | isize => 9223372036854775807
  | u8 => 255
  | u16 => 65535
  | u32 => 4294967295
  | u64 | usize => 18446744073709551615

/-- A pointer-sized type as one of fixed size. -/
def withPointerWidth (wide : Bool) : IntegerKind → IntegerKind
  | usize => if wide then u64 else u32
  | isize => if wide then i64 else i32
  | kind => kind

end IntegerKind

/-- The target of a compilation: a host has pointers of 64 bits. -/
inductive Target
  | hosted
  | freestanding (wide : Bool)

/-- Pointers have 64 bits. -/
def Target.wide : Target → Bool
  | hosted => true
  | freestanding wide => wide

/-- The types of payloads, as far as literals tell them apart. -/
inductive PayloadType
  | void
  | boolean
  | integer (kind : IntegerKind)
  | floating (single : Bool)
  | text
  | other (index : ℕ)
  deriving DecidableEq

/-! ### Arms -/

/-- The expression of a literal pattern. -/
inductive PatternExpression
  | integer (magnitude : UInt64) (negative : Bool)
  | boolean (value : Bool)
  | string (value : Str)
  | other (type : PayloadType)
  deriving DecidableEq

/-- What is between the parentheses: the parser makes a binding of a name, and a pattern of the rest. -/
inductive ArmPattern
  | absent
  | binding (name : Str)
  | literal (expression : PatternExpression)
  deriving DecidableEq

/-- `MatchArm`, as far as the coverage depends on it. -/
structure Arm where
  wildcard : Bool
  variant : Str
  pattern : ArmPattern
  guarded : Bool

/-- A variant with its payload type. -/
structure Variant where
  name : Str
  exported : Bool
  payload : Option PayloadType

/-- The declaration of the enum; `local'` if it is of the current package. -/
structure Enumeration where
  variants : List Variant
  isResult : Bool
  local' : Bool
  small : variants.length < 2 ^ 64

/-- The variant of a name. -/
def Enumeration.findVariant (enumeration : Enumeration) (name : Str) : Option ℕ :=
  enumeration.variants.findIdx? fun variant => variant.name = name

/-- The payload of a variant: `Result<void, E>.Ok` has none. -/
def Enumeration.payloadType (enumeration : Enumeration) (variant : ℕ) : Option PayloadType :=
  (enumeration.variants[variant]?.bind Variant.payload).filter
    fun type => !(decide (type = .void) && enumeration.isResult)

/-! ### Literals -/

/-- A code and its text. -/
structure Diagnostic where
  code : String
  message : Str

/-- The literal is a value of the type. -/
def integerLiteralFits (kind : IntegerKind) (magnitude : UInt64) (negative : Bool) : Bool :=
  if kind.isUnsigned then !negative && decide (magnitude.toNat ≤ kind.maximum)
  else decide (magnitude.toNat ≤ kind.maximum + if negative then 1 else 0)

/-- The key of a literal; other expressions have none. -/
def literalKey : PatternExpression → Option Str
  | .integer magnitude negative =>
    some (ascii "integer:" ++ ascii (if negative then "-" else "+") ++ formatU64 magnitude.toNat)
  | .boolean value => some (if value then ascii "bool:true" else ascii "bool:false")
  | .string value => some (ascii "string:" ++ value)
  | .other _ => none

/-- What `analyzeExpression` says of a pattern when the payload is expected, and its type. -/
def analyzePattern (target : Target) (expected : PayloadType) :
    PatternExpression → PayloadType × List Diagnostic
  | .integer magnitude negative =>
    match expected with
    | .integer kind =>
      (.integer kind,
        if integerLiteralFits kind magnitude negative = false then
          [⟨"FDN2005", ascii "integer literal does not fit"⟩]
        else match target with
        | .hosted => []
        | .freestanding _ =>
          if integerLiteralFits (kind.withPointerWidth false) magnitude negative = false then
            [⟨"FDN2005", ascii "integer literal does not fit the portable range"⟩]
          else [])
    | .floating single => (.floating single, [])
    | _ => (.integer .i32,
        if integerLiteralFits .i32 magnitude negative = false then
          [⟨"FDN2005", ascii "integer literal does not fit i32"⟩]
        else [])
  | .boolean _ => (.boolean, [])
  | .string _ => (.text, [])
  | .other type => (type, [])

/-! ### The analysis -/

/-- The set of literals that a compiler keeps, for that many variants, and whether it leaves out the
literals of a variant that is covered. -/
structure LiteralSet (S : Type) where
  skipsCovered : Bool
  empty : ℕ → S
  contains : S → ℕ → Str → Bool
  insert : S → ℕ → Str → S

/-- `literalPatterns` of `sema.cpp`: a set for each variant. -/
def variantSets : LiteralSet (List (List Str)) where
  skipsCovered := true
  empty count := List.replicate count []
  contains sets variant key := (sets.getD variant []).contains key
  insert sets variant key := sets.modify variant (key :: ·)

/-- The key of a literal of a variant. -/
def variantKey (variant : ℕ) (key : Str) : Str :=
  formatU64 variant ++ ascii ":" ++ key

/-- `literalPatterns` of `semantic_branch.fn`: one set. -/
def keySet : LiteralSet (List Str) where
  skipsCovered := false
  empty _ := []
  contains keys variant key := keys.contains (variantKey variant key)
  insert keys variant key := variantKey variant key :: keys

/-- What is kept from arm to arm. -/
structure State (S : Type) where
  covered : List Bool
  literals : S
  wildcardCovered : Bool
  diagnostics : List Diagnostic

section Analysis

variable {S : Type} (set : LiteralSet S) (target : Target) (enumeration : Enumeration)

/-- A diagnostic, if something failed. -/
def State.report (state : State S) (failed : Bool) (code : String) (message : Str) : State S :=
  if failed then { state with diagnostics := state.diagnostics ++ [⟨code, message⟩] } else state

/-- An arm without a guard covers its variant. -/
def State.cover (state : State S) (arm : Arm) (variant : ℕ) : State S :=
  if arm.guarded then state else { state with covered := state.covered.set variant true }

/-- A wildcard covers all variants, unless it has a guard. -/
def analyzeWildcard (state : State S) (arm : Arm) : State S :=
  let state := state.report (decide (arm.pattern ≠ .absent)) "FDN2041"
    (ascii "wildcard does not accept a payload")
  if arm.guarded then state
  else { state with wildcardCovered := true, covered := state.covered.map fun _ => true }

/-- The literal was seen in an arm without a guard. -/
def duplicateLiteral (state : State S) (variant : ℕ) (expression : PatternExpression) : Bool :=
  (literalKey expression).any (set.contains state.literals variant)

/-- What is said of a literal pattern. -/
def literalDiagnostics (state : State S) (arm : Arm) (variant : ℕ) (payload : PayloadType)
    (expression : PatternExpression) : List Diagnostic :=
  let (type, reported) := analyzePattern target payload expression
  (if (literalKey expression).isNone then
      [⟨"FDN2210", ascii "match payload pattern must be an integer, boolean, or string literal"⟩]
    else []) ++ reported ++
  (if payload ≠ type then [⟨"FDN2011", ascii "match payload pattern"⟩] else []) ++
  if state.covered.getD variant false ||
      (!arm.guarded && duplicateLiteral set state variant expression) then
    [⟨"FDN2039", ascii "duplicate match pattern " ++ arm.variant⟩]
  else []

/-- The literals behind an arm without a guard. -/
def keepLiteral (state : State S) (variant : ℕ) (expression : PatternExpression) : S :=
  let skipped := set.skipsCovered && state.covered.getD variant false
  match literalKey expression with
  | none => state.literals
  | some key =>
    if duplicateLiteral set state variant expression || skipped then state.literals
    else set.insert state.literals variant key

/-- A literal arm; both truth values cover their variant. -/
def analyzeLiteral (state : State S) (arm : Arm) (variant : ℕ) (payload : PayloadType)
    (expression : PatternExpression) : State S :=
  let reported := state.diagnostics ++ literalDiagnostics set target state arm variant payload expression
  if arm.guarded then { state with diagnostics := reported }
  else
    let literals := keepLiteral set state variant expression
    let both := decide (payload = .boolean) && set.contains literals variant (ascii "bool:true") &&
      set.contains literals variant (ascii "bool:false")
    { state with
      literals := literals
      covered := if both then state.covered.set variant true else state.covered
      diagnostics := reported }

/-- An arm that names a variant. -/
def analyzeVariant (state : State S) (arm : Arm) (variant : ℕ) : State S :=
  match enumeration.payloadType variant with
  | none =>
    let state := state.report (decide (arm.pattern ≠ .absent)) "FDN2041"
      (ascii "unit pattern does not accept a payload")
    let state := state.report (state.covered.getD variant false) "FDN2039"
      (ascii "duplicate match pattern " ++ arm.variant)
    state.cover arm variant
  | some payload =>
    match arm.pattern with
    | .binding _ =>
      let state := state.report (state.covered.getD variant false) "FDN2039"
        (ascii "duplicate match pattern " ++ arm.variant)
      state.cover arm variant
    | .literal expression => analyzeLiteral set target state arm variant payload expression
    | .absent =>
      let state := state.report true "FDN2041" (ascii "payload pattern requires a binding or literal")
      { state with covered := state.covered.set variant true }

/-- **One arm.** -/
def analyzeArm (state : State S) (arm : Arm) : State S :=
  let state := state.report state.wildcardCovered "FDN2039"
    (ascii "match arm is unreachable after wildcard")
  if arm.wildcard then analyzeWildcard state arm
  else match enumeration.findVariant arm.variant with
  | none => state.report true "FDN2035" (ascii "unknown variant " ++ arm.variant)
  | some variant =>
    let exported := (enumeration.variants[variant]?.map Variant.exported).getD false
    let state := state.report (!enumeration.local' && !exported) "FDN3008"
      (ascii "variant " ++ arm.variant ++ ascii " is not exported")
    analyzeVariant set target enumeration state arm variant

/-- The state before the arms. -/
def initialState : State S where
  covered := List.replicate enumeration.variants.length false
  literals := set.empty enumeration.variants.length
  wildcardCovered := false
  diagnostics := []

/-- All arms, and then the variants that are not covered. -/
def analyze (uncovered : Variant → Str) (arms : List Arm) : List Diagnostic :=
  let state := arms.foldl (analyzeArm set target enumeration) (initialState set enumeration)
  state.diagnostics ++
    ((enumeration.variants.zip state.covered).filter fun (_, covered) => !covered).map
      fun (variant, _) => ⟨"FDN2040", uncovered variant⟩

end Analysis

/-- **`analyzeMatch` of `sema.cpp`.** -/
def analyzeMatch (target : Target) (enumeration : Enumeration) (arms : List Arm) : List Diagnostic :=
  analyze variantSets target enumeration (fun variant => ascii "match does not cover " ++ variant.name)
    arms

/-- **`analyzeSemanticMatch` of `semantic_branch.fn`.** -/
def analyzeSemanticMatch (target : Target) (enumeration : Enumeration) (arms : List Arm) :
    List Diagnostic :=
  analyze keySet target enumeration (fun _ => ascii "match does not cover an enum variant") arms

/-! ### What a match does -/

section Values

variable {F O : Type}

/-- The payload of a value; floating-point numbers and the values of other types are not looked into. -/
inductive Payload (F O : Type)
  | unit
  | boolean (value : Bool)
  | integer (value : ℤ)
  | floating (value : F)
  | text (value : Str)
  | other (value : O)

/-- A value of an enum: the variant and the payload. -/
structure Value (F O : Type) where
  tag : ℕ
  payload : Payload F O

/-- The range of an integer type of the target. -/
def inRange (target : Target) (kind : IntegerKind) (value : ℤ) : Prop :=
  let kind := kind.withPointerWidth target.wide
  (if kind.isUnsigned then 0 else -(kind.maximum : ℤ) - 1) ≤ value ∧ value ≤ kind.maximum

/-- The payload is of a type; the types that are not looked into share their values. -/
def Payload.hasType (target : Target) : Payload F O → PayloadType → Prop
  | .unit, .void => True
  | .boolean _, .boolean => True
  | .integer value, .integer kind => inRange target kind value
  | .floating _, .floating _ => True
  | .text _, .text => True
  | .other _, .other _ => True
  | _, _ => False

/-- A value of the enum. -/
def Value.IsOf (target : Target) (enumeration : Enumeration) (value : Value F O) : Prop :=
  value.tag < enumeration.variants.length ∧
    match enumeration.payloadType value.tag with
    | none => value.payload = .unit
    | some type => value.payload.hasType target type

/-- The number of an integer literal. -/
def literalValue (magnitude : UInt64) (negative : Bool) : ℤ :=
  if negative then -(magnitude.toNat : ℤ) else magnitude.toNat

/-- The comparison of a payload with a literal; `same` is the one with a floating-point number. -/
def Payload.equals (same : F → ℤ → Bool) : Payload F O → PatternExpression → Bool
  | .integer value, .integer magnitude negative => decide (value = literalValue magnitude negative)
  | .floating value, .integer magnitude negative => same value (literalValue magnitude negative)
  | .boolean value, .boolean expected => decide (value = expected)
  | .text value, .string expected => decide (value = expected)
  | _, _ => false

/-- The pattern of an arm matches the value. -/
def matchesArm (same : F → ℤ → Bool) (enumeration : Enumeration) (value : Value F O) (arm : Arm) :
    Bool :=
  arm.wildcard || (decide (enumeration.findVariant arm.variant = some value.tag) &&
    match arm.pattern with
    | .literal expression => value.payload.equals same expression
    | _ => true)

/-- **The arm that runs**: the first whose pattern matches and whose guard, if it has one, is true. -/
def select (same : F → ℤ → Bool) (enumeration : Enumeration) (value : Value F O) (guards : ℕ → Bool) :
    ℕ → List Arm → Option ℕ
  | _, [] => none
  | index, arm :: arms =>
    if matchesArm same enumeration value arm && (!arm.guarded || guards index) then some index
    else select same enumeration value guards (index + 1) arms

end Values

end FoundationLang.Match
