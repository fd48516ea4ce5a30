/-
**JSON texts.**

The grammar of RFC 8259 over the bytes of a UTF-8 text. The bytes of a code point beyond ASCII are
only found inside strings, where every one of them is a plain byte.

* `Json σ` — values with strings of type `σ`; `Reading σ` says which strings are written how.
* `Layer` — one level of values around an inner one, and `Spells` — values with a number of levels.
  An object is an unordered collection, so the order of its members does not matter.
* `Document` — a text with white space around one value; `Awaits` — the beginning of a text behind
  which a value comes next.
* `Quoted` — what stands between the quotation marks of a string, where every escaped surrogate is
  half of a pair; `Pieces` — the same without this condition.
-/

import FoundationLang.Library.Utf8
import Mathlib.Algebra.Group.Nat.Defs
import Mathlib.Data.List.Perm.Basic
import Mathlib.Data.List.Forall2

namespace FoundationLang.Library

open List

/-- A JSON value. -/
inductive Json (σ : Type)
  | null
  | bool (state : Bool)
  | number (spelling : σ)
  | text (content : σ)
  | array (items : List (Json σ))
  | object (fields : List (σ × Json σ))

namespace Json

variable {σ α : Type}
variable {bytes seq : List UInt8} {part : List UInt8 → α → Prop} {point : ℕ}

/-! ### Tokens -/

/-- White space: blanks, tabs, line feeds and carriage returns. -/
def White (bytes : List UInt8) : Prop :=
  ∀ byte ∈ bytes, byte = 32 ∨ byte = 9 ∨ byte = 10 ∨ byte = 13

/-- A decimal digit. -/
def Digit (byte : UInt8) : Prop :=
  48 ≤ byte.toNat ∧ byte.toNat ≤ 57

instance : DecidablePred Digit := fun byte =>
  inferInstanceAs (Decidable (48 ≤ byte.toNat ∧ byte.toNat ≤ 57))

/-- At least one digit. -/
def Digits (bytes : List UInt8) : Prop :=
  bytes ≠ [] ∧ ∀ byte ∈ bytes, Digit byte

/-- The sign of a number. -/
inductive Sign : List UInt8 → Prop
  | none : Sign []
  | minus : Sign [45]

/-- The integer part, without leading zeros. -/
inductive Whole : List UInt8 → Prop
  | zero : Whole [48]
  | digits {first : UInt8} {rest : List UInt8} (lead : 49 ≤ first.toNat ∧ first.toNat ≤ 57)
      (more : ∀ byte ∈ rest, Digit byte) : Whole (first :: rest)

/-- The digits behind a point. -/
inductive Fraction : List UInt8 → Prop
  | none : Fraction []
  | digits {bytes : List UInt8} (digits : Digits bytes) : Fraction (46 :: bytes)

/-- The sign of an exponent. -/
inductive ExponentSign : List UInt8 → Prop
  | none : ExponentSign []
  | plus : ExponentSign [43]
  | minus : ExponentSign [45]

/-- The power of ten. -/
inductive Exponent : List UInt8 → Prop
  | none : Exponent []
  | digits {mark : UInt8} {sign bytes : List UInt8} (letter : mark = 101 ∨ mark = 69)
      (signed : ExponentSign sign) (digits : Digits bytes) : Exponent (mark :: (sign ++ bytes))

/-- A number. -/
inductive Number : List UInt8 → Prop
  | mk {sign whole fraction exponent : List UInt8} (signed : Sign sign) (integer : Whole whole)
      (decimals : Fraction fraction) (power : Exponent exponent) :
      Number (sign ++ (whole ++ (fraction ++ exponent)))

theorem Digits.cons (ds : Digits bytes) :
    ∃ x rest, bytes = x :: rest ∧ Digit x ∧ ∀ byte ∈ rest, Digit byte := by
  obtain ⟨filled, each⟩ := ds
  cases bytes with
  | nil => exact absurd rfl filled
  | cons x rest =>
    exact ⟨x, rest, rfl, each x mem_cons_self, fun byte member =>
      each byte (mem_cons_of_mem _ member)⟩

theorem Number.ascii (n : Number bytes) : ∀ b ∈ bytes, b.toNat ≤ 0x7f := by
  have ofDigit {b : UInt8} (digit : Digit b) : b.toNat ≤ 0x7f := by
    obtain ⟨_, most⟩ := digit
    omega
  obtain ⟨signed, integer, decimals, power⟩ := n
  intro b member
  simp only [mem_append] at member
  rcases member with member | member | member | member
  · cases signed with
    | none => cases member
    | minus => rw [mem_singleton.mp member]; decide
  · cases integer with
    | zero => rw [mem_singleton.mp member]; decide
    | digits lead more =>
      rcases mem_cons.mp member with rfl | member
      · omega
      · exact ofDigit (more b member)
  · cases decimals with
    | none => cases member
    | digits digits =>
      rcases mem_cons.mp member with rfl | member
      · decide
      · exact ofDigit (digits.2 b member)
  · cases power with
    | none => cases member
    | digits letter signed digits =>
      rcases mem_cons.mp member with rfl | member
      · rcases letter with rfl | rfl <;> decide
      rcases mem_append.mp member with member | member
      · cases signed with
        | none => cases member
        | plus | minus => rw [mem_singleton.mp member]; decide
      · exact ofDigit (digits.2 b member)

theorem Number.cons (n : Number bytes) :
    ∃ x rest, bytes = x :: rest ∧ (x = 45 ∨ Digit x) := by
  obtain ⟨signed, integer, _, _⟩ := n
  cases signed with
  | minus => exact ⟨45, _, rfl, .inl rfl⟩
  | none =>
    cases integer with
    | zero => exact ⟨48, _, rfl, .inr (by decide)⟩
    | @digits x rest lead => exact ⟨x, _, rfl, .inr ⟨by omega, lead.2⟩⟩

/-! ### Strings -/

/-- The value of a hexadecimal digit. -/
inductive Hex : UInt8 → ℕ → Prop
  | digit {byte : UInt8} (range : 48 ≤ byte.toNat ∧ byte.toNat ≤ 57) : Hex byte (byte.toNat - 48)
  | upper {byte : UInt8} (range : 65 ≤ byte.toNat ∧ byte.toNat ≤ 70) : Hex byte (byte.toNat - 55)
  | lower {byte : UInt8} (range : 97 ≤ byte.toNat ∧ byte.toNat ≤ 102) : Hex byte (byte.toNat - 87)

/-- Hexadecimal digits behind others, whose value is `high`. -/
inductive HexDigits : ℕ → List UInt8 → ℕ → Prop
  | nil {high : ℕ} : HexDigits high [] high
  | cons {high digit value : ℕ} {byte : UInt8} {bytes : List UInt8} (first : Hex byte digit)
      (rest : HexDigits (high * 16 + digit) bytes value) : HexDigits high (byte :: bytes) value

/-- Four hexadecimal digits. -/
def Unit16 (bytes : List UInt8) (unit : ℕ) : Prop :=
  bytes.length = 4 ∧ HexDigits 0 bytes unit

/-- The first unit of a pair. -/
def HighSurrogate (unit : ℕ) : Prop :=
  0xd800 ≤ unit ∧ unit ≤ 0xdbff

/-- The second unit of a pair. -/
def LowSurrogate (unit : ℕ) : Prop :=
  0xdc00 ≤ unit ∧ unit ≤ 0xdfff

instance : DecidablePred HighSurrogate := fun unit =>
  inferInstanceAs (Decidable (0xd800 ≤ unit ∧ unit ≤ 0xdbff))

instance : DecidablePred LowSurrogate := fun unit =>
  inferInstanceAs (Decidable (0xdc00 ≤ unit ∧ unit ≤ 0xdfff))

/-- The code point of a surrogate pair. -/
def pairPoint (high low : ℕ) : ℕ :=
  0x10000 + (high - 0xd800) * 0x400 + (low - 0xdc00)

/-- The letter of an escape sequence of two characters, and its code point. -/
inductive Short : UInt8 → ℕ → Prop
  | quote : Short 34 34
  | backslash : Short 92 92
  | slash : Short 47 47
  | backspace : Short 98 8
  | feed : Short 102 12
  | newline : Short 110 10
  | carriage : Short 114 13
  | tab : Short 116 9

/-- What stands behind the backslash of an escape sequence, and its code point. -/
inductive Escape : List UInt8 → ℕ → Prop
  | short {byte : UInt8} {point : ℕ} (letter : Short byte point) : Escape [byte] point
  | unicode {digits : List UInt8} {unit : ℕ} (four : Unit16 digits unit)
      (notHigh : ¬HighSurrogate unit) (notLow : ¬LowSurrogate unit) : Escape (117 :: digits) unit
  | pair {digits digits' : List UInt8} {high low : ℕ} (four : Unit16 digits high)
      (isHigh : HighSurrogate high) (four' : Unit16 digits' low) (isLow : LowSurrogate low) :
      Escape (117 :: (digits ++ 92 :: 117 :: digits')) (pairPoint high low)

theorem Hex.lt {b : UInt8} {digit : ℕ} (hex : Hex b digit) : digit < 16 := by
  cases hex <;> omega

theorem Hex.ascii {b : UInt8} {digit : ℕ} (hex : Hex b digit) : b.toNat ≤ 0x7f := by
  cases hex <;> omega

theorem HexDigits.lt {high v : ℕ} (ds : HexDigits high bytes v) :
    v < (high + 1) * 16 ^ bytes.length := by
  induction ds with
  | nil => simp
  | @cons high digit v b bytes x rest ih =>
    have small := x.lt
    rw [length_cons, Nat.pow_succ, Nat.mul_comm _ 16, ← Nat.mul_assoc]
    exact Nat.lt_of_lt_of_le ih (Nat.mul_le_mul_right _ (by omega))

theorem HexDigits.ascii {high v : ℕ} (ds : HexDigits high bytes v) :
    ∀ b ∈ bytes, b.toNat ≤ 0x7f := by
  induction ds with
  | nil => simp
  | cons x rest ih =>
    intro b member
    rcases mem_cons.mp member with rfl | member
    · exact x.ascii
    · exact ih b member

theorem Unit16.lt {unit : ℕ} (four : Unit16 bytes unit) : unit < 0x10000 := by
  have small := four.2.lt
  rw [four.1] at small
  simpa using small

/-- **An escape sequence means a code point that is encoded.** -/
theorem Escape.scalar (escape : Escape seq point) :
    point ≤ 0x10ffff ∧ ¬(0xd800 ≤ point ∧ point ≤ 0xdfff) := by
  cases escape with
  | short letter => cases letter <;> omega
  | unicode four notHigh notLow =>
    have small := four.lt
    unfold HighSurrogate at notHigh
    unfold LowSurrogate at notLow
    omega
  | pair four isHigh four' isLow =>
    unfold HighSurrogate at isHigh
    unfold LowSurrogate at isLow
    unfold pairPoint
    omega

theorem Escape.ascii (escape : Escape seq point) :
    ∀ b ∈ seq, b.toNat ≤ 0x7f := by
  intro b member
  cases escape with
  | short letter =>
    rw [mem_singleton.mp member]
    cases letter <;> decide
  | unicode four =>
    rcases mem_cons.mp member with rfl | member
    · decide
    · exact four.2.ascii b member
  | pair four _ four' =>
    simp only [mem_cons, mem_append] at member
    rcases member with rfl | member | rfl | rfl | member
    · decide
    · exact four.2.ascii b member
    · decide
    · decide
    · exact four'.2.ascii b member

theorem Escape.length_le (escape : Escape seq point) :
    (Utf8.encode point).length ≤ seq.length + 1 := by
  cases escape with
  | short letter => cases letter <;> decide
  | unicode four =>
    have short := Utf8.length_encode_le point
    rw [length_cons, four.1]
    omega
  | @pair ds digits' high low four =>
    have short := Utf8.length_encode_le (pairPoint high low)
    simp only [length_cons, length_append, four.1]
    omega

/-- A byte of a string that stands for itself. -/
def Plain (byte : UInt8) : Prop :=
  32 ≤ byte.toNat ∧ byte ≠ 34 ∧ byte ≠ 92

/-- **What stands between the quotation marks of a string**, and the UTF-8 text that it means. -/
inductive Quoted : List UInt8 → List UInt8 → Prop
  | nil : Quoted [] []
  | plain {byte : UInt8} {bytes decoded : List UInt8} (itself : Plain byte)
      (rest : Quoted bytes decoded) : Quoted (byte :: bytes) (byte :: decoded)
  | escape {sequence bytes decoded : List UInt8} {point : ℕ} (first : Escape sequence point)
      (rest : Quoted bytes decoded) :
      Quoted (92 :: (sequence ++ bytes)) (Utf8.encode point ++ decoded)

/-- A plain byte, or an escaped code unit of UTF-16. -/
inductive Piece
  | plain (byte : UInt8)
  | unit (unit : ℕ)
deriving DecidableEq

/-- What stands between quotation marks, when an escaped code unit may be any. -/
inductive Pieces : List UInt8 → List Piece → Prop
  | nil : Pieces [] []
  | plain {byte : UInt8} {bytes : List UInt8} {pieces : List Piece} (itself : Plain byte)
      (rest : Pieces bytes pieces) : Pieces (byte :: bytes) (.plain byte :: pieces)
  | short {byte : UInt8} {point : ℕ} {bytes : List UInt8} {pieces : List Piece}
      (letter : Short byte point) (rest : Pieces bytes pieces) :
      Pieces (92 :: byte :: bytes) (.unit point :: pieces)
  | unicode {digits bytes : List UInt8} {unit : ℕ} {pieces : List Piece}
      (four : Unit16 digits unit) (rest : Pieces bytes pieces) :
      Pieces (92 :: 117 :: (digits ++ bytes)) (.unit unit :: pieces)

/-- The characters of a string: code units are joined to UTF-8, and surrogates without the other half
of a pair stay. -/
def characters : List Piece → List Piece
  | [] => []
  | .plain byte :: pieces => .plain byte :: characters pieces
  | .unit high :: .unit low :: pieces =>
    if HighSurrogate high ∧ LowSurrogate low then
      (Utf8.encode (pairPoint high low)).map .plain ++ characters pieces
    else if HighSurrogate high ∨ LowSurrogate high then
      .unit high :: characters (.unit low :: pieces)
    else (Utf8.encode high).map .plain ++ characters (.unit low :: pieces)
  | .unit unit :: pieces =>
    if HighSurrogate unit ∨ LowSurrogate unit then .unit unit :: characters pieces
    else (Utf8.encode unit).map .plain ++ characters pieces

/-! ### Values -/

/-- How strings are written: the spelling of a number that is kept, and what is quoted. -/
structure Reading (σ : Type) where
  number : List UInt8 → σ → Prop
  text : List UInt8 → σ → Prop

/-- White space around a part. -/
def Padded (part : List UInt8 → α → Prop) (bytes : List UInt8) (value : α) : Prop :=
  ∃ before inner after, bytes = before ++ (inner ++ after) ∧ White before ∧ White after ∧
    part inner value

/-- Parts with a comma behind each of them. -/
inductive Leading (part : List UInt8 → α → Prop) : List UInt8 → List α → Prop
  | nil : Leading part [] []
  | cons {bytes rest : List UInt8} {value : α} {values : List α} (first : part bytes value)
      (others : Leading part rest values) : Leading part (bytes ++ 44 :: rest) (value :: values)

/-- Parts with a comma between them. -/
inductive Separated (part : List UInt8 → α → Prop) : List UInt8 → List α → Prop
  | mk {front bytes : List UInt8} {values : List α} {value : α} (before : Leading part front values)
      (last : part bytes value) : Separated part (front ++ bytes) (values ++ [value])

theorem Leading.snoc {front : List UInt8} {vs : List α} {v : α}
    (s : Leading part front vs) (last : part bytes v) :
    Leading part (front ++ (bytes ++ [44])) (vs ++ [v]) := by
  induction s with
  | nil => exact .cons last .nil
  | @cons bytes' rest v' vs x others ih =>
    rw [append_assoc, cons_append]
    exact .cons x ih

theorem Separated.cons {rest : List UInt8} {v : α} {vs : List α} (x : part bytes v)
    (others : Separated part rest vs) :
    Separated part (bytes ++ 44 :: rest) (v :: vs) := by
  obtain ⟨before, last⟩ := others
  rw [← cons_append, ← append_assoc]
  exact .mk (.cons x before) last

theorem Leading.length_le {parts : List UInt8} {ms : List α}
    (leading : Leading part parts ms) : ms.length ≤ parts.length := by
  induction leading with
  | nil => exact Nat.zero_le _
  | cons =>
    simp only [length_cons, length_append]
    omega

/-- A member of an object. -/
def Member (reading : Reading σ) (inner : List UInt8 → Json σ → Prop) (bytes : List UInt8)
    (field : σ × Json σ) : Prop :=
  ∃ key before after value, bytes = 34 :: (key ++ 34 :: (before ++ 58 :: (after ++ value))) ∧
    reading.text key field.1 ∧ White before ∧ White after ∧ inner value field.2

/-- **The grammar of values**, by what the values inside arrays and objects are. -/
inductive Layer (reading : Reading σ) (inner : List UInt8 → Json σ → Prop) :
    List UInt8 → Json σ → Prop
  | null : Layer reading inner [110, 117, 108, 108] .null
  | yes : Layer reading inner [116, 114, 117, 101] (.bool true)
  | no : Layer reading inner [102, 97, 108, 115, 101] (.bool false)
  | number {bytes : List UInt8} {spelling : σ} (form : Number bytes)
      (kept : reading.number bytes spelling) : Layer reading inner bytes (.number spelling)
  | text {bytes : List UInt8} {content : σ} (quoted : reading.text bytes content) :
      Layer reading inner (34 :: (bytes ++ [34])) (.text content)
  | emptyArray {bytes : List UInt8} (white : White bytes) :
      Layer reading inner (91 :: (bytes ++ [93])) (.array [])
  | array {bytes : List UInt8} {items : List (Json σ)}
      (parts : Separated (Padded inner) bytes items) :
      Layer reading inner (91 :: (bytes ++ [93])) (.array items)
  | emptyObject {bytes : List UInt8} (white : White bytes) :
      Layer reading inner (123 :: (bytes ++ [125])) (.object [])
  | object {bytes : List UInt8} {members fields : List (σ × Json σ)}
      (parts : Separated (Padded (Member reading inner)) bytes members)
      (unique : (members.map Prod.fst).Nodup) (order : members.Perm fields) :
      Layer reading inner (123 :: (bytes ++ [125])) (.object fields)

/-- **Values with so many levels**: every value is inside fewer arrays and objects than that. -/
def Spells (reading : Reading σ) : ℕ → List UInt8 → Json σ → Prop
  | 0 => fun _ _ => False
  | levels + 1 => Layer reading (Spells reading levels)

/-- **A JSON text** whose values are inside at most `limit` arrays and objects each. -/
def Document (reading : Reading σ) (limit : ℕ) : List UInt8 → Json σ → Prop :=
  Padded (Spells reading (limit + 1))

/-- **The beginning of a JSON text behind which a value of so many levels comes next.** -/
inductive Awaits (reading : Reading σ) (limit : ℕ) : ℕ → List UInt8 → Prop
  | root {white : List UInt8} (blank : White white) : Awaits reading limit (limit + 1) white
  | item {levels : ℕ} {front parts white : List UInt8} {items : List (Json σ)}
      (outer : Awaits reading limit (levels + 1) front)
      (before : Leading (Padded (Spells reading levels)) parts items) (blank : White white) :
      Awaits reading limit levels (front ++ 91 :: (parts ++ white))
  | member {levels : ℕ} {front parts white key white' white'' : List UInt8}
      {members : List (σ × Json σ)} {name : σ} (outer : Awaits reading limit (levels + 1) front)
      (before : Leading (Padded (Member reading (Spells reading levels))) parts members)
      (unique : (members.map Prod.fst).Nodup) (blank : White white)
      (quoted : reading.text key name) (fresh : name ∉ members.map Prod.fst)
      (blank' : White white') (blank'' : White white'') :
      Awaits reading limit levels
        (front ++ 123 :: (parts ++ (white ++ 34 :: (key ++ 34 :: (white' ++ 58 :: white'')))))

/-- **Equality up to the order of the members of objects.** -/
inductive Alike : Json σ → Json σ → Prop
  | same (value : Json σ) : Alike value value
  | array {items items' : List (Json σ)} (each : List.Forall₂ Alike items items') :
      Alike (.array items) (.array items')
  | object {fields middle fields' : List (σ × Json σ)} (order : fields.Perm middle)
      (names : middle.map Prod.fst = fields'.map Prod.fst)
      (each : List.Forall₂ Alike (middle.map Prod.snd) (fields'.map Prod.snd)) :
      Alike (.object fields) (.object fields')

end Json

end FoundationLang.Library
