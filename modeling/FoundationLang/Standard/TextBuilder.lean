/-
**The builder of the package `std.text`.**

A builder collects strings and code points, and is finished into a string. The handle of a builder
that is finished or closed is 0.
-/

import FoundationLang.Standard.Text

namespace FoundationLang.Standard

open Library Outcome

/-- The errors of a builder. -/
inductive BuilderError
  | closed
  | invalidCodePoint
deriving DecidableEq, Repr

/-- `Builder`; how much of its capacity is in use does not show. -/
structure TextBuilder where
  handle : Option (List UInt8)
deriving DecidableEq

/-- `NewBuilder`. -/
def newTextBuilder : TextBuilder :=
  ⟨some []⟩

/-- `foundation_runtime_string_builder_append`. No object in memory has `2 ^ 63` bytes; memory for
more is not found. -/
def appendBuilder (data more : List UInt8) : Outcome BuilderError (List UInt8) :=
  if (data ++ more).length < 2 ^ 63 then .ok (data ++ more)
  else panic (.message "string length overflow")

/-- The bytes of `foundation_runtime_string_builder_append_code_point`; `none` for `return false`. -/
def codePointBytes (value : ℕ) : Option (List UInt8) :=
  if value ≤ 0x7f then some [UInt8.ofNat value]
  else if value ≤ 0x7ff then
    some [UInt8.ofNat (0xc0 ||| value >>> 6), UInt8.ofNat (0x80 ||| (value &&& 0x3f))]
  else if value ≥ 0xd800 ∧ value ≤ 0xdfff then none
  else if value ≤ 0xffff then
    some [UInt8.ofNat (0xe0 ||| value >>> 12), UInt8.ofNat (0x80 ||| (value >>> 6 &&& 0x3f)),
      UInt8.ofNat (0x80 ||| (value &&& 0x3f))]
  else if value ≤ 0x10ffff then
    some [UInt8.ofNat (0xf0 ||| value >>> 18), UInt8.ofNat (0x80 ||| (value >>> 12 &&& 0x3f)),
      UInt8.ofNat (0x80 ||| (value >>> 6 &&& 0x3f)), UInt8.ofNat (0x80 ||| (value &&& 0x3f))]
  else none

namespace TextBuilder

/-- `Write`; it returns the builder behind it. -/
def write (self : TextBuilder) (value : Text) : Outcome BuilderError (Bool × TextBuilder) :=
  match self.handle with
  | none => err .closed
  | some data => do
    let data ← appendBuilder data value.bytes
    .ok (true, ⟨some data⟩)

/-- Writes one code point. -/
def writeCodePoint (self : TextBuilder) (value : ℕ) : Outcome BuilderError (Bool × TextBuilder) :=
  match self.handle with
  | none => err .closed
  | some data =>
    match codePointBytes value with
    | none => err .invalidCodePoint
    | some more => do
      let data ← appendBuilder data more
      .ok (true, ⟨some data⟩)

/-- `Finish`. The builder is closed by it, and nothing is done with it any more. -/
def finish (self : TextBuilder) : Outcome BuilderError Text :=
  match self.handle with
  | none => err .closed
  | some data =>
    if valid : utf8Valid data then
      if short : data.length < 2 ^ 63 then .ok ⟨data, valid, short⟩
      else panic (.message "string length overflow")
    else panic (.message "string builder produced invalid UTF-8")

end TextBuilder

/-! ### What the operations return -/

theorem appendBuilder_eq {data more : List UInt8} (room : data.length + more.length < 2 ^ 63) :
    appendBuilder data more = .ok (data ++ more) := by
  unfold appendBuilder
  rw [if_pos (by rwa [List.length_append])]

/-- A bit pattern above a number that has no bits there. -/
theorem or_eq_add {high low width : ℕ} (small : low < 2 ^ width) :
    high * 2 ^ width ||| low = high * 2 ^ width + low := by
  rw [← Nat.shiftLeft_eq, Nat.shiftLeft_add_eq_or_of_lt small]

theorem codePointBytes_eq {v : ℕ} (range : v ≤ 0x10ffff)
    (scalar : ¬(0xd800 ≤ v ∧ v ≤ 0xdfff)) :
    codePointBytes v = some (Utf8.encode v) := by
  have masked (rest : ℕ) : 0x80 ||| (rest &&& 0x3f) = 0x80 + rest % 64 := by
    have low : rest &&& 0x3f = rest % 2 ^ 6 := Nat.and_two_pow_sub_one_eq_mod rest 6
    have small : rest % 2 ^ 6 < 2 ^ 7 := by omega
    rw [low]
    exact @or_eq_add 1 _ 7 small
  have two (small : v ≤ 0x7ff) : 0xc0 ||| v >>> 6 = 0xc0 + v / 64 := by
    have fits : v / 2 ^ 6 < 2 ^ 6 := by omega
    rw [Nat.shiftRight_eq_div_pow]
    exact @or_eq_add 3 _ 6 fits
  have three (small : v ≤ 0xffff) : 0xe0 ||| v >>> 12 = 0xe0 + v / 4096 := by
    have fits : v / 2 ^ 12 < 2 ^ 5 := by omega
    rw [Nat.shiftRight_eq_div_pow]
    exact @or_eq_add 7 _ 5 fits
  have four : 0xf0 ||| v >>> 18 = 0xf0 + v / 262144 := by
    have fits : v / 2 ^ 18 < 2 ^ 4 := by omega
    rw [Nat.shiftRight_eq_div_pow]
    exact @or_eq_add 15 _ 4 fits
  have shifted : v >>> 6 = v / 64 := Nat.shiftRight_eq_div_pow v 6
  have shifted' : v >>> 12 = v / 4096 := Nat.shiftRight_eq_div_pow v 12
  unfold codePointBytes Utf8.encode
  by_cases one : v ≤ 0x7f
  · have below : v < 0x80 := by omega
    rw [if_pos one, if_pos below]
  have above : ¬v < 0x80 := by omega
  rw [if_neg one, if_neg above]
  by_cases small : v ≤ 0x7ff
  · have below : v < 0x800 := by omega
    rw [if_pos small, if_pos below, masked, two small]
  have above' : ¬v < 0x800 := by omega
  rw [if_neg small, if_neg above', if_neg scalar]
  by_cases plane : v ≤ 0xffff
  · have below : v < 0x10000 := by omega
    rw [if_pos plane, if_pos below, masked, masked, three plane, shifted]
  · have above'' : ¬v < 0x10000 := by omega
    rw [if_neg plane, if_neg above'', if_pos range, masked, masked, masked, four, shifted, shifted']

namespace TextBuilder

theorem write_eq {data : List UInt8} {v : Text}
    (room : data.length + v.bytes.length < 2 ^ 63) :
    (⟨some data⟩ : TextBuilder).write v = .ok (true, ⟨some (data ++ v.bytes)⟩) := by
  unfold write
  dsimp only
  rw [appendBuilder_eq room]
  rfl

theorem writeCodePoint_eq {data : List UInt8} {v : ℕ} (range : v ≤ 0x10ffff)
    (scalar : ¬(0xd800 ≤ v ∧ v ≤ 0xdfff))
    (room : data.length + (Utf8.encode v).length < 2 ^ 63) :
    (⟨some data⟩ : TextBuilder).writeCodePoint v =
      .ok (true, ⟨some (data ++ Utf8.encode v)⟩) := by
  unfold writeCodePoint
  rw [codePointBytes_eq range scalar]
  dsimp only
  rw [appendBuilder_eq room]
  rfl

theorem finish_eq (value : Text) : (⟨some value.bytes⟩ : TextBuilder).finish = .ok value := by
  unfold finish
  dsimp only
  rw [dif_pos value.valid, dif_pos value.short]

end TextBuilder

/-! ### Sequences of appends -/

/-- A `String` or a scalar value for a builder. -/
inductive Append
  | string (value : Text)
  | scalar (value : ℕ) (valid : Utf8.Scalar value)

/-- The bytes that an append writes. -/
def Append.bytes : Append → List UInt8
  | string value => value.bytes
  | scalar value _ => Utf8.encode value

/-- The builder behind an append. -/
def Append.run (builder : TextBuilder) : Append → Outcome BuilderError TextBuilder
  | string value => do
    let (_, builder) ← builder.write value
    .ok builder
  | scalar value _ => do
    let (_, builder) ← builder.writeCodePoint value
    .ok builder

theorem Append.run_eq (append : Append) (data : List UInt8) :
    append.run ⟨some data⟩ = (appendBuilder data append.bytes).map fun data => ⟨some data⟩ := by
  cases append with
  | string v =>
    show ((appendBuilder data v.bytes >>= _) >>= _) = (appendBuilder data v.bytes).map _
    cases appendBuilder data v.bytes <;> rfl
  | scalar v valid =>
    show (TextBuilder.writeCodePoint _ _ >>= _) = (appendBuilder data (Utf8.encode v)).map _
    unfold TextBuilder.writeCodePoint
    rw [codePointBytes_eq valid.1 valid.2]
    dsimp only
    cases appendBuilder data (Utf8.encode v) <;> rfl

theorem Append.utf8 (append : Append) : Utf8 append.bytes := by
  cases append with
  | string v => exact v.utf8
  | scalar v valid =>
    have encoded := Utf8.cons (Utf8.codePoint_encode valid.1 valid.2) .nil
    rwa [List.append_nil] at encoded

theorem appends_run (appends : List Append) : ∀ {data : List UInt8}, Utf8 data →
    data.length < 2 ^ 63 →
    2 ^ 63 ≤ (data ++ appends.flatMap Append.bytes).length ∧
        appends.foldlM Append.run ⟨some data⟩ = panic (.message "string length overflow") ∨
      ∃ text : Text, text.bytes = data ++ appends.flatMap Append.bytes ∧
        appends.foldlM Append.run ⟨some data⟩ = .ok ⟨some text.bytes⟩ := by
  induction appends with
  | nil =>
    intro data text short
    exact .inr ⟨⟨data, valid_of_utf8 text, short⟩, (List.append_nil data).symm, rfl⟩
  | cons append appends ih =>
    intro data text short
    rw [List.foldlM_cons, append.run_eq, List.flatMap_cons, ← List.append_assoc]
    unfold appendBuilder
    split
    · rename_i room
      exact ih (text.append append.utf8) room
    · rename_i full
      refine .inl ⟨?_, rfl⟩
      rw [List.length_append]
      omega

/-- **Strings and scalar values make a string.** `fdn_utf8_valid` accepts the encodings of scalar
values and nothing else; what a builder collects passes it when the builder is finished, and so does
every slice that is not refused. A builder stops the program only at `2 ^ 63` bytes. -/
theorem builder_utf8 :
    (∀ appends : List Append,
      2 ^ 63 ≤ (appends.flatMap Append.bytes).length ∧
          appends.foldlM Append.run newTextBuilder = panic (.message "string length overflow") ∨
        ∃ builder text, appends.foldlM Append.run newTextBuilder = .ok builder ∧
          builder.finish = .ok text ∧ text.bytes = appends.flatMap Append.bytes ∧
          utf8Valid text.bytes = true) ∧
    (∀ bytes, utf8Valid bytes = true ↔ ∃ values : List ℕ,
      (∀ value ∈ values, Utf8.Scalar value) ∧ bytes = values.flatMap Utf8.encode) ∧
    ∀ (value : Text) (start stop : ℕ) (part : Text), value.slice start stop = .ok part →
      part.bytes = (value.bytes.take stop).drop start ∧ utf8Valid part.bytes = true := by
  refine ⟨fun appends => ?_, fun bytes => ?_, fun value start stop part sliced => ?_⟩
  · rcases appends_run appends .nil (by decide) with full | ⟨text, bytes, built⟩
    · exact .inl full
    · exact .inr ⟨_, text, built, TextBuilder.finish_eq text, bytes, text.valid⟩
  · rw [← Utf8.iff_scalars]
    exact ⟨utf8_of_valid, valid_of_utf8⟩
  · refine ⟨?_, part.valid⟩
    unfold Text.slice at sliced
    split_ifs at sliced with inside cut
    · rw [← Except.ok.inj sliced]
    · cases sliced
    · cases sliced

end FoundationLang.Standard
