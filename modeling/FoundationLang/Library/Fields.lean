/-
**Field lines of HTTP messages.**

The lines between the first line of a message and its empty line, and the length of the body that a
recipient takes from them.

* `Received` — the fields that a recipient may read the lines as. It rejects a name that is no token; a
  line that starts with a blank continues the field above it.
* `BodyLength` — the lengths that it may compute from the fields. A coded body has any length; of
  several lengths, all are the same.
* `Frames` — both together. For lines whose names are tokens the fields are determined
  (`received_lines`).
-/

import Mathlib.Data.List.Basic
import Mathlib.Data.List.DropRight

namespace FoundationLang.Library.Fields

open List

/-- A field: its name and its value. -/
abbrev Field : Type :=
  List UInt8 × List UInt8

/-! ### Names and values -/

/-- The visible characters that are in no token: `"(),/:;<=>?@[\]` and the braces. -/
def delimiters : List UInt8 :=
  [34, 40, 41, 44, 47, 58, 59, 60, 61, 62, 63, 64, 91, 92, 93, 123, 125]

/-- **A token.** -/
structure Token (name : List UInt8) : Prop where
  nonempty : name ≠ []
  visible : ∀ byte ∈ name, 33 ≤ byte.toNat ∧ byte.toNat ≤ 126
  plain : ∀ byte ∈ name, byte ∉ delimiters

/-- `Token` as a check. -/
def isToken (name : List UInt8) : Bool :=
  !name.isEmpty && name.all fun byte =>
    decide (33 ≤ byte.toNat) && decide (byte.toNat ≤ 126) && !delimiters.contains byte

theorem isToken_iff {name : List UInt8} : isToken name = true ↔ Token name := by
  unfold isToken
  simp only [Bool.and_eq_true, Bool.not_eq_true', isEmpty_eq_false_iff, all_eq_true,
    decide_eq_true_eq, contains_eq_mem, decide_eq_false_iff_not]
  constructor
  · rintro ⟨nonempty, bytes⟩
    exact ⟨nonempty, fun b mem => (bytes b mem).1, fun b mem =>
      (bytes b mem).2⟩
  · exact fun token => ⟨token.nonempty, fun b mem =>
      ⟨token.visible b mem, token.plain b mem⟩⟩

/-- A space or a tab. -/
def blank (byte : UInt8) : Bool :=
  byte == 32 || byte == 9

/-- A value without the blanks around it. -/
def trim (value : List UInt8) : List UInt8 :=
  (value.dropWhile blank).rdropWhile blank

/-- A letter as a small one. -/
def lower (byte : UInt8) : ℕ :=
  if 65 ≤ byte.toNat ∧ byte.toNat ≤ 90 then byte.toNat + 32 else byte.toNat

/-- The field has this name, in any case of its letters. -/
def Named (name : List UInt8) (field : Field) : Prop :=
  field.1.map lower = name.map lower

/-- `content-length`. -/
def contentLength : List UInt8 :=
  [99, 111, 110, 116, 101, 110, 116, 45, 108, 101, 110, 103, 116, 104]

/-- `transfer-encoding`. -/
def transferEncoding : List UInt8 :=
  [116, 114, 97, 110, 115, 102, 101, 114, 45, 101, 110, 99, 111, 100, 105, 110, 103]

/-! ### What a recipient reads -/

/-- A field as one line. -/
def line (field : Field) : List UInt8 :=
  field.1 ++ 58 :: field.2

/-- A line that continues the one above. -/
def Folded (line : List UInt8) : Prop :=
  ∃ byte ∈ line.head?, blank byte = true

/-- The fields of lines, the first of which is no continuation. -/
inductive Reads : List (List UInt8) → List Field → Prop
  | nil : Reads [] []
  | field {name value : List UInt8} {folds lines : List (List UInt8)} {fields : List Field}
      (token : Token name) (folded : ∀ fold ∈ folds, Folded fold) (rest : Reads lines fields) :
      Reads (line (name, value) :: (folds ++ lines))
        ((name, trim (value ++ folds.flatMap (32 :: ·))) :: fields)

/-- **What a recipient may read lines as.** It may skip continuations of nothing. -/
def Received (lines : List (List UInt8)) (fields : List Field) : Prop :=
  ∃ skipped rest, lines = skipped ++ rest ∧ (∀ line ∈ skipped, Folded line) ∧ Reads rest fields

/-- **A decimal number.** -/
structure Number (text : List UInt8) (value : ℕ) : Prop where
  nonempty : text ≠ []
  digits : ∀ byte ∈ text, 48 ≤ byte.toNat ∧ byte.toNat ≤ 57
  value_eq : value = text.foldl (fun result byte => result * 10 + (byte.toNat - 48)) 0

/-- The members of a list between commas. -/
def members (value : List UInt8) : List (List UInt8) :=
  ((value.splitOn 44).map trim).filter (· != [])

/-- **The lengths of the body that a recipient may compute.** -/
inductive BodyLength (fields : List Field) : ℕ → Prop
  | coded (length : ℕ) {field : Field} (member : field ∈ fields)
      (coding : Named transferEncoding field) : BodyLength fields length
  | declared {length : ℕ} {field : Field} (uncoded : ∀ field ∈ fields, ¬Named transferEncoding field)
      (member : field ∈ fields) (declares : Named contentLength field)
      (lengths : ∀ field ∈ fields, Named contentLength field →
        members field.2 ≠ [] ∧ ∀ text ∈ members field.2, Number text length) :
      BodyLength fields length
  | absent (uncoded : ∀ field ∈ fields, ¬Named transferEncoding field)
      (undeclared : ∀ field ∈ fields, ¬Named contentLength field) : BodyLength fields 0

/-- **The lengths that a recipient may compute from lines.** -/
def Frames (lines : List (List UInt8)) (length : ℕ) : Prop :=
  ∃ fields, Received lines fields ∧ BodyLength fields length

/-! ### Lines whose names are tokens -/

theorem colon_mem_delimiters : (58 : UInt8) ∈ delimiters := by
  decide

theorem Token.no_colon {name : List UInt8} (token : Token name) : (58 : UInt8) ∉ name :=
  fun mem => token.plain 58 mem colon_mem_delimiters

theorem blank_iff (b : UInt8) : blank b = true ↔ b = 32 ∨ b = 9 := by
  simp [blank]

theorem Token.not_folded {name v : List UInt8} (token : Token name) :
    ¬Folded (line (name, v)) := by
  obtain ⟨x, _, rfl⟩ := exists_cons_of_ne_nil token.nonempty
  rintro ⟨byte, mem, isBlank⟩
  obtain rfl : x = byte := Option.some.inj mem
  have visible := token.visible x mem_cons_self
  rcases (blank_iff _).mp isBlank with rfl | rfl <;> simp at visible

/-- The name ends in front of the first colon. -/
theorem line_inj {x second : Field} (plain : (58 : UInt8) ∉ x.1)
    (plain' : (58 : UInt8) ∉ second.1) (same : line x = line second) : x = second := by
  obtain ⟨name, _⟩ := x
  obtain ⟨name', _⟩ := second
  induction name generalizing name' with
  | nil =>
    cases name' with
    | nil => exact congrArg _ (List.cons.inj same).2
    | cons => exact absurd ((List.cons.inj same).1 ▸ mem_cons_self) plain'
  | cons b name ih =>
    cases name' with
    | nil => exact absurd ((List.cons.inj same).1 ▸ mem_cons_self) plain
    | cons b' name' =>
      obtain ⟨rfl, rest⟩ := List.cons.inj same
      have tails := ih (fun mem => plain (mem_cons_of_mem _ mem)) name'
        (fun mem => plain' (mem_cons_of_mem _ mem)) rest
      obtain ⟨rfl, rfl⟩ := Prod.mk.inj tails
      rfl

theorem reads_lines {given fields : List Field} (tokens : ∀ field ∈ given, Token field.1) :
    Reads (given.map line) fields ↔ fields = given.map fun field => (field.1, trim field.2) := by
  induction given generalizing fields with
  | nil =>
    constructor
    · rintro ⟨⟩
      rfl
    · rintro rfl
      exact .nil
  | cons field given ih =>
    have tokens' := fun y mem => tokens y (mem_cons_of_mem _ mem)
    have token := tokens field mem_cons_self
    constructor
    · intro reads
      rw [map_cons] at reads
      generalize same : line field :: given.map line = lines at reads
      cases reads with
      | nil => cases same
      | @field name v folds rest fields token' folded reads =>
        obtain ⟨x, tail⟩ := List.cons.inj same
        obtain rfl : field = (name, v) := line_inj token.no_colon token'.no_colon x
        -- The next line is no continuation, so that the value ends here.
        cases folds with
        | cons fold =>
          cases given with
          | nil => cases tail
          | cons next =>
            have continues := folded fold mem_cons_self
            rw [← (List.cons.inj tail).1] at continues
            exact absurd continues (tokens next (by simp)).not_folded
        | nil =>
          rw [nil_append] at tail
          subst tail
          rw [(ih tokens').mp reads]
          simp
    · rintro rfl
      have reads := @Reads.field field.1 field.2 [] _ _ token (by simp)
        ((ih tokens').mpr rfl)
      simpa using reads

/-- **Lines whose names are tokens are read in one way.** -/
theorem received_lines {given fields : List Field} (tokens : ∀ field ∈ given, Token field.1) :
    Received (given.map line) fields ↔ fields = given.map fun field => (field.1, trim field.2) := by
  rw [← reads_lines tokens]
  constructor
  · rintro ⟨skipped, _, same, folded, reads⟩
    cases skipped with
    | nil =>
      rw [nil_append] at same
      rwa [same]
    | cons fold =>
      cases given with
      | nil => cases same
      | cons field =>
        have continues := folded fold mem_cons_self
        rw [← (List.cons.inj same).1] at continues
        exact absurd continues (tokens field mem_cons_self).not_folded
  · exact fun reads => ⟨[], _, rfl, by simp, reads⟩

/-! ### Numbers -/

theorem Number.unique {text : List UInt8} {v value' : ℕ} (x : Number text v)
    (y : Number text value') : v = value' :=
  x.value_eq.trans y.value_eq.symm

theorem Number.not_blank {text : List UInt8} {v : ℕ} (n : Number text v) {b : UInt8}
    (mem : b ∈ text) : blank b = false := by
  have digit := n.digits b mem
  rw [Bool.eq_false_iff, ne_eq, blank_iff]
  rintro (rfl | rfl) <;> simp at digit

theorem trim_blanks {blanks text : List UInt8} {v : ℕ} (n : Number text v)
    (blanks' : ∀ b ∈ blanks, blank b = true) : trim (blanks ++ text) = text := by
  obtain ⟨_, _, same⟩ := exists_cons_of_ne_nil n.nonempty
  have front : (blanks ++ text).dropWhile blank = text := by
    rw [dropWhile_append_of_pos blanks', same, dropWhile_cons_of_neg]
    rw [n.not_blank (same ▸ mem_cons_self)]
    exact Bool.false_ne_true
  unfold trim
  rw [front, rdropWhile_eq_self_iff]
  intro nonempty
  rw [n.not_blank (getLast_mem nonempty)]
  exact Bool.false_ne_true

theorem members_number {text : List UInt8} {v : ℕ} (n : Number text v) :
    members text = [text] := by
  have comma : ∀ b ∈ text, (b == 44) = false := by
    intro b mem
    have digit := n.digits b mem
    rw [beq_eq_false_iff_ne]
    rintro rfl
    simp at digit
  have trimmed : trim text = text := nil_append text ▸ trim_blanks n (forall_mem_nil _)
  unfold members
  rw [splitOn_eq_splitOnP, splitOnP_eq_singleton comma, map_singleton, trimmed,
    filter_cons_of_pos]
  · rfl
  · simpa using n.nonempty

/-- **One length, if the declared ones agree.** -/
theorem bodyLength_iff {fields : List Field} {field : Field} {size length : ℕ}
    (uncoded : ∀ field ∈ fields, ¬Named transferEncoding field) (mem : field ∈ fields)
    (declares : Named contentLength field)
    (sizes : ∀ field ∈ fields, Named contentLength field →
      ∃ text, members field.2 = [text] ∧ Number text size) :
    BodyLength fields length ↔ length = size := by
  constructor
  · intro measures
    cases measures with
    | coded _ mem coding => exact absurd coding (uncoded _ mem)
    | declared _ _ _ lengths =>
      obtain ⟨text, single, number⟩ := sizes field mem declares
      have numbers := (lengths field mem declares).2
      rw [single] at numbers
      exact (numbers text mem_cons_self).unique number
    | absent _ undeclared => exact absurd declares (undeclared _ mem)
  · rintro rfl
    refine .declared uncoded mem declares fun field mem declares => ?_
    obtain ⟨text, single, number⟩ := sizes field mem declares
    simp [single, number]

end FoundationLang.Library.Fields
