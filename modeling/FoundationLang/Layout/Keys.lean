/-
**A key names one type.**
-/

import FoundationLang.Contract.Types

namespace FoundationLang.Layout

open Contract List

/-- A text that does not go on with a digit. -/
def NoDigit (text : List Char) : Prop :=
  ∀ character ∈ text.head?, character.isDigit = false

theorem toDigits_append_inj {x y : Nat} {rest rest' : List Char} (stops : NoDigit rest)
    (stops' : NoDigit rest') (same : Nat.toDigits 10 x ++ rest = Nat.toDigits 10 y ++ rest') :
    x = y ∧ rest = rest' := by
  have ds : ∀ value : Nat, ∀ digit ∈ Nat.toDigits 10 value, digit.isDigit = true :=
    fun value digit mem => Nat.isDigit_of_mem_toDigits (by decide) (by decide) mem
  have taken : ∀ (value : Nat) {text : List Char}, NoDigit text →
      (Nat.toDigits 10 value ++ text).takeWhile Char.isDigit = Nat.toDigits 10 value := by
    intro value text ends
    rw [takeWhile_append_of_pos (ds value)]
    cases text with
    | nil => simp
    | cons character =>
      have apart : character.isDigit = false := ends character (by simp)
      simp [apart]
  have numbers := taken x stops
  rw [same, taken y stops'] at numbers
  have equal := congrArg (fun ds => Nat.ofDigitChars 10 ds 0) numbers
  simp only [Nat.ofDigitChars_ten_toDigits] at equal
  subst equal
  exact ⟨rfl, append_cancel_left same⟩

/-- The text behind a key in a list of arguments or at the end. -/
def KeyEnds (text : List Char) : Prop :=
  NoDigit text ∧ text.head? ≠ some '<'

theorem keyEnds_semicolon (text : List Char) : KeyEnds (';' :: text) := by
  refine ⟨fun character mem => ?_, by simp⟩
  obtain rfl : ';' = character := by simpa using mem
  decide

theorem toList_semanticTypeKey (kind : TypeKind) (d : Nat) (args : List SemanticType) :
    (semanticTypeKey (.mk kind d args)).toList
      = Nat.toDigits 10 kind.ctorIdx ++ ':' :: (Nat.toDigits 10 d ++
        if args.isEmpty then [] else '<' :: ((argumentKeys args).toList ++ ['>'])) := by
  rw [semanticTypeKey]
  split <;> simp [String.toList_append]

theorem toList_argumentKeys (argument : SemanticType) (rest : List SemanticType) :
    (argumentKeys (argument :: rest)).toList
      = (semanticTypeKey argument).toList ++ ';' :: (argumentKeys rest).toList := by
  simp [argumentKeys, String.toList_append]

theorem ctorIdx_injective {kind kind' : TypeKind} (same : kind.ctorIdx = kind'.ctorIdx) :
    kind = kind' := by
  have numbers := congrArg TypeKind.ofNat same
  rwa [TypeKind.ofNat_ctorIdx, TypeKind.ofNat_ctorIdx] at numbers

theorem noDigit_cons {c : Char} {text : List Char} (apart : c.isDigit = false) :
    NoDigit (c :: text) := by
  intro x mem
  rwa [← (by simpa using mem : c = x)]

theorem argumentKeys_ne_close (argument : SemanticType) (args : List SemanticType)
    (rest rest' : List Char) :
    (argumentKeys (argument :: args)).toList ++ rest ≠ '>' :: rest' := by
  obtain ⟨kind, _, _⟩ := argument
  rw [toList_argumentKeys, toList_semanticTypeKey]
  have nonempty : Nat.toDigits 10 kind.ctorIdx ≠ [] := Nat.toDigits_ne_nil
  obtain ⟨digit, _, written⟩ := exists_cons_of_ne_nil nonempty
  have isDigit : digit.isDigit = true :=
    Nat.isDigit_of_mem_toDigits (b := 10) (n := kind.ctorIdx) (by decide) (by decide) (by simp [written])
  intro same
  rw [written] at same
  obtain rfl : digit = '>' := by simpa using congrArg List.head? same
  exact absurd isDigit (by decide)

mutual

theorem semanticTypeKey_append_inj : ∀ (type type' : SemanticType) {rest rest' : List Char},
    KeyEnds rest → KeyEnds rest' →
      (semanticTypeKey type).toList ++ rest = (semanticTypeKey type').toList ++ rest' →
        type = type' ∧ rest = rest'
  | .mk kind decl args, .mk kind' declaration' arguments', rest, rest', ends, ends', same => by
    rw [toList_semanticTypeKey, toList_semanticTypeKey, append_assoc, append_assoc,
      cons_append, cons_append] at same
    obtain ⟨kinds, behind⟩ := toDigits_append_inj (noDigit_cons (by decide)) (noDigit_cons (by decide)) same
    rw [List.cons.injEq, append_assoc, append_assoc] at behind
    obtain rfl := ctorIdx_injective kinds
    match args, arguments', behind.2 with
    | [], [], same =>
      obtain ⟨rfl, rfl⟩ := toDigits_append_inj ends.1 ends'.1 same
      exact ⟨rfl, rfl⟩
    | [], _ :: _, same =>
      obtain ⟨_, rfl⟩ := toDigits_append_inj ends.1 (noDigit_cons (by decide)) same
      exact absurd (by simp) ends.2
    | _ :: _, [], same =>
      obtain ⟨_, rfl⟩ := toDigits_append_inj (noDigit_cons (by decide)) ends'.1 same
      exact absurd (by simp) ends'.2
    | x :: others, x' :: others', same =>
      obtain ⟨rfl, listed⟩ :=
        toDigits_append_inj (noDigit_cons (by decide)) (noDigit_cons (by decide)) same
      have inside : (argumentKeys (x :: others)).toList ++ '>' :: rest
          = (argumentKeys (x' :: others')).toList ++ '>' :: rest' := by
        simpa using listed
      obtain ⟨args, rfl⟩ := argumentKeys_append_inj (x :: others) (x' :: others') inside
      rw [args]
      exact ⟨rfl, rfl⟩

theorem argumentKeys_append_inj : ∀ (args arguments' : List SemanticType) {rest rest' : List Char},
    (argumentKeys args).toList ++ '>' :: rest = (argumentKeys arguments').toList ++ '>' :: rest' →
      args = arguments' ∧ rest = rest'
  | [], [], _, _, same => ⟨rfl, by simpa using same⟩
  | [], x :: others, rest, rest', same =>
    absurd (by simpa [argumentKeys] using same.symm) (argumentKeys_ne_close x others _ rest)
  | x :: others, [], rest, rest', same =>
    absurd (by simpa [argumentKeys] using same) (argumentKeys_ne_close x others _ rest')
  | x :: others, x' :: others', rest, rest', same => by
    rw [toList_argumentKeys, toList_argumentKeys, append_assoc, append_assoc] at same
    obtain ⟨rfl, behind⟩ := semanticTypeKey_append_inj x x' (keyEnds_semicolon _)
      (keyEnds_semicolon _) same
    obtain ⟨rfl, rfl⟩ := argumentKeys_append_inj others others' (List.cons.inj behind).2
    exact ⟨rfl, rfl⟩

end

/-- **Different types have different keys.** -/
theorem semanticTypeKey_injective : Function.Injective semanticTypeKey := by
  intro type type' same
  have ends : KeyEnds [] := ⟨by simp [NoDigit], by simp⟩
  refine (semanticTypeKey_append_inj type type' ends ends ?_).1
  rw [same]

end FoundationLang.Layout
