/-
**Strings of the self-hosted compiler.**

A `String` of the language is valid UTF-8, and its package code works on the bytes: `utf8` turns a
text into its bytes, one character for each, so that both compilers read the same bytes. A slice must
start and end at a code point, and a slice that does not is a panic (`none`).

* `packageSlice`, `findPackageByte` — the accessors of `package_text.fn`.
-/

import FoundationLang.Package.VersionText
import Mathlib.Data.List.Chain

namespace FoundationLang.Selfhost

open Package List

/-- A result of code that may panic; `none` is a panic. -/
abbrev Checked (α : Type) := Option α

/-! ### Bytes -/

/-- The bytes of a text, one character for each. -/
def utf8 (text : String) : String :=
  String.ofList (text.toList.flatMap fun character =>
    (String.utf8EncodeChar character).map fun byte => Char.ofNat byte.toNat)

/-- A byte inside a code point. -/
def continuation (byte : Char) : Bool :=
  0x80 ≤ byte.toNat && byte.toNat < 0xC0

/-- `fdn_string_boundary`, for an index up to the length. -/
def boundary (bytes : List Char) (index : Nat) : Bool :=
  (bytes[index]?).all fun byte => !continuation byte

/-- The bytes from one index up to another. -/
def slice (bytes : List Char) (start stop : Nat) : List Char :=
  (bytes.take stop).drop start

/-- A slice between two code points. -/
def packageSlice (value : String) (start stop : Nat) : Checked String :=
  if start ≤ stop ∧ stop ≤ value.toList.length ∧ boundary value.toList start = true
      ∧ boundary value.toList stop = true then
    some (String.ofList (slice value.toList start stop))
  else none

/-- The loop of `findPackageByte` over the bytes from an offset on. -/
def findFrom (expected : Char) : Nat → List Char → Option Nat
  | _, [] => none
  | offset, byte :: rest =>
    if byte = expected then some offset else findFrom expected (offset + 1) rest

/-- The first such byte from a start on. -/
def findPackageByte (value : String) (expected : Char) (start : Nat) : Option Nat :=
  findFrom expected start (value.toList.drop start)

/-! ### Aligned texts -/

/-- No continuation byte comes first, or after an ASCII byte. -/
structure Aligned (bytes : List Char) : Prop where
  first : ∀ byte, bytes.head? = some byte → continuation byte = false
  next : bytes.IsChain fun left right => left.toNat < 0x80 → continuation right = false

theorem aligned_nil : Aligned [] where
  first := by simp
  next := .nil

theorem Aligned.append {left right : List Char} (one : Aligned left) (two : Aligned right) :
    Aligned (left ++ right) := by
  refine ⟨fun b found => ?_, ?_⟩
  · cases left with
    | nil => exact two.first b found
    | cons => exact one.first b found
  · rw [isChain_append]
    exact ⟨one.next, two.next, fun _ _ b found _ => two.first b found⟩

theorem le_or_right (left right : UInt8) : right.toNat ≤ (left ||| right).toNat := by
  rw [UInt8.toNat_or]
  exact Nat.right_le_or

/-- The bytes of one code point: an ASCII byte, or a first byte and continuation bytes. -/
theorem utf8EncodeChar_cases (c : Char) :
    (∃ b : UInt8, String.utf8EncodeChar c = [b] ∧ b.toNat < 0x80)
      ∨ ∃ x rest, String.utf8EncodeChar c = x :: rest
        ∧ 0xC0 ≤ x.toNat ∧ ∀ b ∈ rest, 0x80 ≤ b.toNat := by
  have above (start : UInt8) : 0x80 ≤ (start ||| 0x80).toNat := le_or_right start 0x80
  rcases Char.utf8Size_eq c with one | two | three | four
  · refine .inl ⟨_, String.utf8EncodeChar_eq_singleton one, ?_⟩
    have small : c.toNat ≤ 127 := by
      simpa [Char.utf8Size_eq_one_iff, UInt32.le_iff_toNat_le] using one
    show (c.val.toUInt8).toNat < 0x80
    rw [UInt32.toNat_toUInt8]
    have : c.val.toNat ≤ 127 := small
    omega
  · refine .inr ⟨_, _, String.utf8EncodeChar_eq_cons_cons two, le_or_right _ 0xC0, ?_⟩
    simp only [mem_singleton]
    rintro b rfl
    exact above _
  · refine .inr ⟨_, _, String.utf8EncodeChar_eq_cons_cons_cons three,
      le_trans (by decide) (le_or_right _ 0xE0), ?_⟩
    simp only [mem_cons, not_mem_nil, or_false]
    rintro b (rfl | rfl)
    · exact above _
    · exact above _
  · refine .inr ⟨_, _, String.utf8EncodeChar_eq_cons_cons_cons_cons four,
      le_trans (by decide) (le_or_right _ 0xF0), ?_⟩
    simp only [mem_cons, not_mem_nil, or_false]
    rintro _ (rfl | rfl | rfl)
    · exact above _
    · exact above _
    · exact above _

theorem toNat_byte (b : UInt8) : (Char.ofNat b.toNat).toNat = b.toNat := by
  have small : b.toNat < 256 := b.toNat_lt
  have valid : b.toNat.isValidChar := .inl (by omega)
  rw [Char.ofNat, dif_pos valid]
  rfl

theorem aligned_utf8EncodeChar (c : Char) :
    Aligned ((String.utf8EncodeChar c).map fun b => Char.ofNat b.toNat) := by
  rcases utf8EncodeChar_cases c with ⟨b, block, small⟩ | ⟨x, rest, block, high, wide⟩
  · rw [block]
    refine ⟨fun y found => ?_, .singleton _⟩
    cases found
    simp only [continuation, toNat_byte, Bool.and_eq_false_iff, decide_eq_false_iff_not]
    omega
  · rw [block]
    have beyond : ∀ b ∈ (x :: rest).map fun b => Char.ofNat b.toNat,
        0x80 ≤ b.toNat := by
      intro b mem
      obtain ⟨source, present, rfl⟩ := mem_map.mp mem
      rw [toNat_byte]
      rcases mem_cons.mp present with rfl | later
      · omega
      · exact wide source later
    refine ⟨fun y found => ?_, ?_⟩
    · cases found
      simp only [continuation, toNat_byte, Bool.and_eq_false_iff, decide_eq_false_iff_not]
      omega
    · refine List.Pairwise.isChain (List.Pairwise.imp_of_mem (fun one _ _ small => ?_)
        (pairwise_of_forall (fun _ _ => trivial)))
      exact absurd (beyond _ one) (by omega)

/-- **Valid UTF-8 is aligned.** -/
theorem aligned_utf8 (text : String) : Aligned (utf8 text).toList := by
  unfold utf8
  rw [String.toList_ofList]
  induction text.toList with
  | nil => exact aligned_nil
  | cons character rest ih =>
    rw [flatMap_cons]
    exact (aligned_utf8EncodeChar character).append ih

/-! ### Slices -/

section Slices

variable {bytes : List Char} {start stop : Nat}

theorem boundary_length : boundary bytes bytes.length = true := by
  simp [boundary]

theorem Aligned.boundary_zero (aligned : Aligned bytes) : boundary bytes 0 = true := by
  unfold boundary
  cases bytes with
  | nil => rfl
  | cons b => simp [aligned.first b rfl]

theorem boundary_of_ascii {b : Char} (found : bytes[start]? = some b)
    (ascii : b.toNat < 0x80) : boundary bytes start = true := by
  have outside : continuation b = false := by
    simp only [continuation, Bool.and_eq_false_iff, decide_eq_false_iff_not]
    omega
  simp [boundary, found, outside]

theorem Aligned.boundary_succ (aligned : Aligned bytes) {b : Char}
    (found : bytes[start]? = some b) (ascii : b.toNat < 0x80) :
    boundary bytes (start + 1) = true := by
  unfold boundary
  cases next : bytes[start + 1]? with
  | none => rfl
  | some =>
    obtain ⟨inside, rfl⟩ := List.getElem?_eq_some_iff.mp next
    obtain ⟨_, rfl⟩ := List.getElem?_eq_some_iff.mp found
    have apart := isChain_iff_getElem.mp aligned.next start inside ascii
    simp [apart]

theorem Aligned.slice (aligned : Aligned bytes) (here : boundary bytes start = true) :
    Aligned (slice bytes start stop) := by
  unfold Selfhost.slice
  refine ⟨fun b found => ?_, ?_⟩
  · rw [List.head?_drop, List.getElem?_take] at found
    split at found
    · simpa [boundary, found] using here
    · cases found
  · have prefixed := aligned.next.take stop
    exact prefixed.drop start

theorem packageSlice_eq {v : String} (ordered : start ≤ stop) (inside : stop ≤ v.toList.length)
    (one : boundary v.toList start = true) (two : boundary v.toList stop = true) :
    packageSlice v start stop = some (String.ofList (slice v.toList start stop)) :=
  if_pos ⟨ordered, inside, one, two⟩

end Slices

/-! ### Searches -/

theorem findFrom_cases (want : Char) (i : Nat) (rest : List Char) :
    (findFrom want i rest = none ∧ want ∉ rest)
      ∨ ∃ before after, findFrom want i rest = some (i + before.length)
        ∧ rest = before ++ want :: after ∧ want ∉ before := by
  induction rest generalizing i with
  | nil => exact .inl ⟨rfl, by simp⟩
  | cons b rest ih =>
    by_cases same : b = want
    · refine .inr ⟨[], rest, ?_, ?_, by simp⟩
      · rw [findFrom, if_pos same]
        rfl
      · rw [same]
        rfl
    · rw [findFrom, if_neg same]
      rcases ih (i + 1) with ⟨none, absent⟩ | ⟨before, after, found, parts, absent⟩
      · exact .inl ⟨none, by simp [absent, Ne.symm same]⟩
      · refine .inr ⟨b :: before, after, ?_, ?_, by simp [absent, Ne.symm same]⟩
        · rw [found, length_cons, Nat.add_assoc, Nat.add_comm 1]
        · rw [parts]
          rfl

/-- What a search for a separator finds, as parts of the text from an offset on. -/
theorem findPackageByte_cases (v : String) (want : Char) (start : Nat) :
    (findPackageByte v want start = none ∧ want ∉ v.toList.drop start)
      ∨ ∃ before after, findPackageByte v want start = some (start + before.length)
        ∧ v.toList.drop start = before ++ want :: after ∧ want ∉ before :=
  findFrom_cases want start (v.toList.drop start)

section Parts

variable {bytes before after : List Char} {separator : Char} {start : Nat}

section

variable (parts : bytes.drop start = before ++ separator :: after)
include parts

theorem slice_before :
    slice bytes start (start + before.length) = before := by
  unfold slice
  rw [drop_take, parts, Nat.add_sub_cancel_left, take_left]

theorem drop_after :
    bytes.drop (start + before.length + 1) = after := by
  rw [Nat.add_assoc, ← drop_drop, parts, ← drop_drop, drop_left]
  rfl

theorem getElem?_separator :
    bytes[start + before.length]? = some separator := by
  rw [← List.getElem?_drop, parts, List.getElem?_append_right (le_refl _), Nat.sub_self]
  rfl

theorem length_of_parts :
    start + before.length < bytes.length := by
  obtain ⟨inside, _⟩ := List.getElem?_eq_some_iff.mp (getElem?_separator parts)
  exact inside

theorem splitOn_of_parts
    (absent : separator ∉ before) :
    (bytes.drop start).splitOn separator = before :: after.splitOn separator := by
  rw [parts, splitOn_append_cons_self, splitOn_eq_singleton]
  · rfl
  · exact absent

end

end Parts

end FoundationLang.Selfhost
