/-
**The text that `std.json` writes.**

`render` is the text of a value: no white space, objects in the order of their keys, and in strings
only quotation marks, backslashes and control characters escaped. The writer appends it to its
builder (`writeValue_writes`), and it is a text of the value by the grammar (`spells_render`).
-/

import FoundationLang.Standard.JsonComplete
import FoundationLang.Standard.JsonFields

namespace FoundationLang.Standard.JsonText

open Library Outcome Json List

/-! ### The text of a value -/

/-- A hexadecimal digit. -/
def hexLetter (digit : ℕ) : UInt8 :=
  UInt8.ofNat (if digit < 10 then digit + 48 else digit + 87)

/-- A byte inside a string. -/
def escapeByte (byte : UInt8) : List UInt8 :=
  if byte = 34 then [92, 34]
  else if byte = 92 then [92, 92]
  else if byte = 8 then [92, 98]
  else if byte = 9 then [92, 116]
  else if byte = 10 then [92, 110]
  else if byte = 12 then [92, 102]
  else if byte = 13 then [92, 114]
  else if byte.toNat < 32 then
    [92, 117, 48, 48, hexLetter (byte.toNat / 16), hexLetter (byte.toNat % 16)]
  else [byte]

/-- A string with its quotation marks. -/
def renderString (bytes : List UInt8) : List UInt8 :=
  34 :: (bytes.flatMap escapeByte ++ [34])

/-- Parts with commas between them. -/
def joined : Bool → List (List UInt8) → List UInt8
  | _, [] => []
  | first, part :: parts => (if first then [] else [44]) ++ (part ++ joined false parts)

/-- A key and the text of its value. -/
def renderField (field : Text × List UInt8) : List UInt8 :=
  renderString field.1.bytes ++ ([58] ++ field.2)

/-- **The text of a value.** -/
def render : ℕ → Value → List UInt8
  | 0, _ => []
  | _ + 1, .null => nullValue.bytes
  | _ + 1, .bool state => (if state then trueValue else falseValue).bytes
  | _ + 1, .number spelling => spelling.bytes
  | _ + 1, .text content => renderString content.bytes
  | levels + 1, .array items => [91] ++ (joined true (items.map (render levels)) ++ [93])
  | levels + 1, .object fields =>
    [123] ++ (joined true ((sort (fields.map (mapValues (render levels)))).map renderField) ++ [125])

/-- **Values with so many levels**: every value is inside fewer arrays and objects than that. The
numbers are numbers, and no key is there twice in an object. -/
def Valid : ℕ → Value → Prop
  | 0, _ => False
  | _ + 1, .number spelling => Number spelling.bytes
  | levels + 1, .array items => ∀ item ∈ items, Valid levels item
  | levels + 1, .object fields =>
    (fields.map Prod.fst).Nodup ∧ ∀ field ∈ fields, Valid levels field.2
  | _ + 1, _ => True

/-! ### Writing -/

/-- **These bytes are written.** -/
structure Writes (write : TextBuilder → Outcome WriteError TextBuilder) (bytes : List UInt8) :
    Prop where
  utf8 : Utf8 bytes
  appends : ∀ data : List UInt8, data.length + bytes.length < 2 ^ 63 →
    write ⟨some data⟩ = .ok ⟨some (data ++ bytes)⟩

variable {src : Text} {i : ℕ} {front back : List UInt8} {byte : UInt8} {α : Type}

theorem Writes.bind {x y : TextBuilder → Outcome WriteError TextBuilder}
    {bytes bytes' : List UInt8} (one : Writes x bytes) (two : Writes y bytes') :
    Writes (fun builder => x builder >>= y) (bytes ++ bytes') := by
  refine ⟨one.utf8.append two.utf8, fun data room => ?_⟩
  rw [length_append] at room
  rw [one.appends data (by omega), ok_bind, two.appends _ (by rw [length_append]; omega),
    append_assoc]

theorem Writes.nothing : Writes .ok [] :=
  ⟨.nil, fun data _ => by rw [append_nil]⟩

theorem writeRaw_writes (v : Text) : Writes (writeRaw v) v.bytes := by
  refine ⟨v.utf8, fun data room => ?_⟩
  unfold writeRaw
  rw [TextBuilder.write_eq room]
  rfl

theorem writeRange_writes {run : List UInt8} {stop : ℕ}
    (cut : Cut src.bytes i front (run ++ back)) (x : Boundary (run ++ back))
    (last : Boundary back) (same : stop = i + run.length) :
    Writes (writeRange src i stop) run := by
  subst same
  obtain ⟨v, rfl, text, sliced⟩ := @readSlice_eq _ _ _ _ WriteError _ cut x last
  refine ⟨text, fun data room => ?_⟩
  unfold writeRange
  by_cases empty : i = i + v.bytes.length
  · have none : v.bytes = [] := length_eq_zero_iff.mp (by omega)
    rw [if_pos empty, none, append_nil]
  · rw [if_neg empty, sliced, ok_bind]
    exact (writeRaw_writes v).appends data room

theorem hexLetter_toNat {digit : ℕ} (small : digit < 16) :
    (hexLetter digit).toNat = if digit < 10 then digit + 48 else digit + 87 := by
  unfold hexLetter
  split_ifs <;> exact Utf8.toNat_ofNat (by omega)

theorem writeHexDigit_writes {digit : ℕ} (small : digit < 16) :
    Writes (writeHexDigit digit) [hexLetter digit] := by
  have code := hexLetter_toNat small
  have ascii : (hexLetter digit).toNat ≤ 0x7f := by
    rw [code]
    split_ifs <;> omega
  have encoded : Utf8.encode (if digit < 10 then digit + 48 else digit + 87) = [hexLetter digit] := by
    unfold Utf8.encode
    rw [if_pos (by omega)]
    rfl
  refine ⟨Utf8.ascii_cons ascii .nil, fun data room => ?_⟩
  unfold writeHexDigit
  dsimp only
  rw [TextBuilder.writeCodePoint_eq (by omega) (by omega) (by rw [encoded]; exact room), encoded]
  rfl

/-! ### Strings -/

/-- A byte that is not written as it is. -/
def Escaped (byte : UInt8) : Prop :=
  byte.toNat = 34 ∨ byte.toNat = 92 ∨ byte.toNat < 32

theorem writeEscapedByte_writes (escaped : Escaped byte) :
    Writes (writeEscapedByte byte.toNat) (escapeByte byte) := by
  have code {other : UInt8} : byte.toNat = other.toNat ↔ byte = other := UInt8.toNat_inj
  unfold writeEscapedByte escapeByte
  by_cases quote : byte = 34
  · subst quote
    exact writeRaw_writes _
  by_cases backslash : byte = 92
  · subst backslash
    exact writeRaw_writes _
  by_cases b : byte = 8
  · subst b
    exact writeRaw_writes _
  by_cases t : byte = 9
  · subst t
    exact writeRaw_writes _
  by_cases n : byte = 10
  · subst n
    exact writeRaw_writes _
  by_cases f : byte = 12
  · subst f
    exact writeRaw_writes _
  by_cases r : byte = 13
  · subst r
    exact writeRaw_writes _
  have quote' : byte.toNat ≠ 34 := fun same => quote (code.mp same)
  have backslash' : byte.toNat ≠ 92 := fun same => backslash (code.mp same)
  have b' : byte.toNat ≠ 8 := fun same => b (code.mp same)
  have t' : byte.toNat ≠ 9 := fun same => t (code.mp same)
  have n' : byte.toNat ≠ 10 := fun same => n (code.mp same)
  have f' : byte.toNat ≠ 12 := fun same => f (code.mp same)
  have r' : byte.toNat ≠ 13 := fun same => r (code.mp same)
  have control : byte.toNat < 32 := by
    rcases escaped with same | same | small
    · exact absurd same quote'
    · exact absurd same backslash'
    · exact small
  simp only [if_neg quote, if_neg backslash, if_neg b, if_neg t, if_neg n, if_neg f, if_neg r,
    if_neg quote', if_neg backslash', if_neg b', if_neg t', if_neg n', if_neg f', if_neg r',
    if_pos control]
  exact (writeRaw_writes (.literal [92, 117, 48, 48])).bind
    ((writeHexDigit_writes (by omega)).bind (writeHexDigit_writes (by omega)))

theorem escapeByte_plain (plain : ¬Escaped byte) : escapeByte byte = [byte] := by
  have differs {other : UInt8} (same : other.toNat = 34 ∨ other.toNat = 92 ∨ other.toNat < 32) :
      byte ≠ other := by
    rintro rfl
    exact plain same
  have large : ¬byte.toNat < 32 := fun small => plain (.inr (.inr small))
  unfold escapeByte
  rw [if_neg (differs (by decide)), if_neg (differs (by decide)), if_neg (differs (by decide)),
    if_neg (differs (by decide)), if_neg (differs (by decide)), if_neg (differs (by decide)),
    if_neg (differs (by decide)), if_neg large]

theorem writeLoop_eq {k : ℕ} :
    ∀ {seg i : ℕ} {front run back data : List UInt8},
      Cut src.bytes seg front (run ++ back) → Boundary (run ++ back) →
      i = seg + run.length → back.length ≤ k →
      data.length + (run.length + (back.flatMap escapeByte).length) < 2 ^ 63 →
      ∃ segment' front' run' data', writeLoop src k seg i ⟨some data⟩ =
          .ok (segment', ⟨some data'⟩) ∧
        Cut src.bytes segment' front' run' ∧ Boundary run' ∧
        data' ++ run' = data ++ (run ++ back.flatMap escapeByte) := by
  induction k with
  | zero =>
    intro seg i front run back data cut x same enough room
    obtain rfl := length_eq_zero_iff.mp (Nat.le_zero.mp enough)
    rw [append_nil] at cut x
    exact ⟨seg, front, run, data, rfl, cut, x, by simp⟩
  | succ k ih =>
    intro seg i front run back data cut x same enough room
    have here := cut.move
    rw [← same] at here
    unfold writeLoop
    cases back with
    | nil =>
      rw [if_neg (at_end here)]
      rw [append_nil] at cut x
      exact ⟨seg, front, run, data, rfl, cut, x, by simp⟩
    | cons byte back =>
      rw [if_pos (inside here), readByte_bind here]
      rw [length_cons] at enough
      rw [flatMap_cons, length_append] at room
      by_cases escaped : Escaped byte
      · have ascii : byte.toNat ≤ 0x7f := by
          unfold Escaped at escaped
          omega
        have range := writeRange_writes cut x (boundary_ascii ascii) same
        have escape := writeEscapedByte_writes escaped
        have next : Cut src.bytes (i + 1) (front ++ run ++ [byte]) ([] ++ back) := here.next
        obtain ⟨segment', front', run', data', written, cut', last, whole⟩ :=
          @ih (i + 1) (i + 1) _ [] back (data ++ run ++ escapeByte byte) next
            (boundary_behind here ascii) rfl (by omega)
            (by simp only [length_append, length_nil]; omega)
        refine ⟨segment', front', run', data', ?_, cut', last, ?_⟩
        · have escaped' : byte.toNat = 34 ∨ byte.toNat = 92 ∨ byte.toNat < 32 := escaped
          rw [if_pos escaped', range.appends data (by omega), ok_bind,
            escape.appends _ (by rw [length_append]; omega), ok_bind,
            checked_next_bind here (by omega), checked_next_bind here (by omega), written]
        · rw [whole, flatMap_cons]
          simp only [nil_append, append_assoc]
      · have again : run ++ byte :: back = (run ++ [byte]) ++ back := by simp
        have one := escapeByte_plain escaped
        rw [again] at cut x
        rw [one] at room
        obtain ⟨segment', front', run', data', written, cut', last, whole⟩ :=
          @ih seg (i + 1) front (run ++ [byte]) back data cut x
            (by rw [length_append, same]; rfl) (by omega)
            (by simp only [length_append, length_singleton] at room ⊢; omega)
        refine ⟨segment', front', run', data', ?_, cut', last, ?_⟩
        · have escaped' : ¬(byte.toNat = 34 ∨ byte.toNat = 92 ∨ byte.toNat < 32) := escaped
          rw [if_neg escaped', checked_next_bind here (by omega), written]
        · rw [whole, flatMap_cons, one]
          simp only [append_assoc]

theorem escapeByte_ascii (small : byte.toNat ≤ 0x7f) :
    ∀ y ∈ escapeByte byte, y.toNat ≤ 0x7f := by
  intro y mem
  by_cases escaped : Escaped byte
  · unfold escapeByte at mem
    split_ifs at mem with _ _ _ _ _ _ _ control
    all_goals simp only [mem_cons, not_mem_nil, or_false] at mem
    all_goals rcases mem with rfl | rfl | rfl | rfl | rfl | rfl
    all_goals first
      | decide
      | exact small
      | (rw [hexLetter_toNat (by omega)]; split_ifs <;> omega)
  · rw [escapeByte_plain escaped, mem_singleton] at mem
    rw [mem]
    exact small

theorem utf8_escaped {bytes : List UInt8} (text : Utf8 bytes) : Utf8 (bytes.flatMap escapeByte) := by
  induction text with
  | nil => exact .nil
  | @cons point bytes encoded rest ih =>
    rw [flatMap_append]
    refine Utf8.append ?_ ih
    have outside {byte : UInt8} (large : 0x80 ≤ byte.toNat) : escapeByte byte = [byte] :=
      escapeByte_plain (by unfold Escaped; omega)
    cases encoded with
    | one x ascii =>
      rw [flatMap_singleton]
      exact Utf8.of_ascii (escapeByte_ascii ascii)
    | two x y lead continued =>
      have again := Utf8.cons (.two x y lead continued) .nil
      simpa [outside (show 0x80 ≤ x.toNat by omega), outside continued.1] using again
    | three x y third lead continued continued' shortest scalar =>
      have again := Utf8.cons (.three x y third lead continued continued' shortest scalar)
        .nil
      simpa [outside (show 0x80 ≤ x.toNat by omega), outside continued.1,
        outside continued'.1] using again
    | four x y third fourth lead continued continued' continued'' shortest range =>
      have again := Utf8.cons (.four x y third fourth lead continued continued' continued''
        shortest range) .nil
      simpa [outside (show 0x80 ≤ x.toNat by omega), outside continued.1,
        outside continued'.1, outside continued''.1] using again

theorem writeString_writes (v : Text) :
    Writes (writeString v) (renderString v.bytes) := by
  have quotes : Utf8 ([34] : List UInt8) := Utf8.ascii_cons (by decide) .nil
  refine ⟨Utf8.ascii_cons (by decide) ((utf8_escaped v.utf8).append quotes), fun data room => ?_⟩
  unfold renderString at room ⊢
  simp only [length_cons, length_append, length_nil] at room
  have start : Cut v.bytes 0 [] ([] ++ v.bytes) := Cut.start v.bytes
  obtain ⟨segment, front, run, data', written, cut, x, whole⟩ :=
    @writeLoop_eq v v.byteLen 0 0 [] [] v.bytes (data ++ [34]) start
      v.utf8.boundary rfl (Nat.le_refl _)
      (by simp only [length_append, length_cons, length_nil]; omega)
  have size := cut.size
  have lengths := congrArg List.length whole
  simp only [length_append, length_cons, length_nil] at lengths
  rw [← append_nil run] at cut x
  have range := writeRange_writes cut x boundary_nil
    (show v.byteLen = segment + run.length from size.symm)
  have quote := writeRaw_writes (.literal [34])
  unfold writeString
  rw [quote.appends data (by show data.length + 1 < 2 ^ 63; omega), ok_bind]
  show (writeLoop v v.byteLen 0 0 ⟨some (data ++ [34])⟩ >>= _) = _
  rw [written, ok_bind]
  dsimp only
  rw [range.appends data' (by omega), ok_bind, whole, quote.appends _ ?_]
  · simp [Text.literal]
  · simp only [length_append, length_cons, length_nil, Text.literal]
    omega

/-! ### Numbers, arrays and objects -/

theorem writeNumber_writes {v : Text} (n : Number v.bytes) :
    Writes (writeNumber v) v.bytes := by
  have document : Document textReading 128 v.bytes (.number v) :=
    ⟨[], v.bytes, [], by simp, white_nil, white_nil, .number n rfl⟩
  obtain ⟨_, alike, parsed⟩ := parse_of_document document
  cases alike
  refine ⟨v.utf8, fun data room => ?_⟩
  have equal : v.equal v = true := Text.equal_iff.mpr rfl
  unfold writeNumber
  rw [parsed, mapErr_ok, ok_bind]
  dsimp only
  rw [equal]
  exact (writeRaw_writes v).appends data room

theorem writeParts_writes {writePart : α → TextBuilder → Outcome WriteError TextBuilder}
    {bytes : α → List UInt8} {parts : List α}
    (each : ∀ part ∈ parts, Writes (writePart part) (bytes part)) (x : Bool) :
    Writes (writeParts writePart x parts) (joined x (parts.map bytes)) := by
  induction parts generalizing x with
  | nil => exact Writes.nothing
  | cons part parts ih =>
    have here := each part mem_cons_self
    have later := ih (fun part mem => each part (mem_cons_of_mem _ mem)) false
    cases x with
    | true => exact Writes.nothing.bind (here.bind later)
    | false => exact (writeRaw_writes (.literal [44])).bind (here.bind later)

/-- **The writer writes the text of the value.** -/
theorem writeValue_writes {ls : ℕ} :
    ∀ {v : Value}, Valid ls v →
      Writes (writeValue ls v) (render ls v) := by
  induction ls with
  | zero => exact fun invalid => invalid.elim
  | succ ls ih =>
    intro v valid
    cases v with
    | null => exact writeRaw_writes nullValue
    | bool => exact writeRaw_writes _
    | number => exact writeNumber_writes valid
    | text content => exact writeString_writes content
    | array =>
      exact (writeRaw_writes (.literal [91])).bind
        ((writeParts_writes (fun item mem => ih (valid item mem)) true).bind
          (writeRaw_writes (.literal [93])))
    | object fs =>
      have each : ∀ field ∈ sort fs, Writes (writeField (writeValue ls) field)
          (renderField (mapValues (render ls) field)) := by
        intro field mem
        exact (writeString_writes field.1).bind ((writeRaw_writes (.literal [58])).bind
          (ih (valid.2 field ((sort_perm fs).mem_iff.mp mem))))
      have parts := writeParts_writes each true
      have same : (sort fs).map (fun field => renderField (mapValues (render ls) field)) =
          (sort (fs.map (mapValues (render ls)))).map renderField := by
        rw [sort_map, map_map]
        rfl
      rw [same] at parts
      exact (writeRaw_writes (.literal [123])).bind (parts.bind (writeRaw_writes (.literal [125])))

/-! ### The grammar -/

theorem quoted_escapeByte {bytes decoded : List UInt8} (rest : Quoted bytes decoded) :
    Quoted (escapeByte byte ++ bytes) (byte :: decoded) := by
  by_cases escaped : Escaped byte
  · unfold escapeByte
    split_ifs with quote backslash b t n f r control
    · subst quote
      exact .escape (.short .quote) rest
    · subst backslash
      exact .escape (.short .backslash) rest
    · subst b
      exact .escape (.short .backspace) rest
    · subst t
      exact .escape (.short .tab) rest
    · subst n
      exact .escape (.short .newline) rest
    · subst f
      exact .escape (.short .feed) rest
    · subst r
      exact .escape (.short .carriage) rest
    · have hex {digit : ℕ} (small : digit < 16) : Hex (hexLetter digit) digit := by
        have code := hexLetter_toNat small
        refine hex_iff.mpr ⟨?_, small⟩
        unfold hexDigit
        rw [code]
        split_ifs <;> omega
      have zero : Hex 48 0 := .digit (by decide)
      have four : Unit16 [48, 48, hexLetter (byte.toNat / 16), hexLetter (byte.toNat % 16)]
          byte.toNat := by
        refine ⟨rfl, .cons zero (.cons zero (.cons (hex (by omega)) ?_))⟩
        have last := hex (show byte.toNat % 16 < 16 by omega)
        have value : (((0 * 16 + 0) * 16 + 0) * 16 + byte.toNat / 16) * 16 + byte.toNat % 16 =
            byte.toNat := by omega
        have ds := HexDigits.cons last
          (@HexDigits.nil ((((0 * 16 + 0) * 16 + 0) * 16 + byte.toNat / 16) * 16 + byte.toNat % 16))
        rwa [value] at ds
      have encoded : Utf8.encode byte.toNat = [byte] := by
        unfold Utf8.encode
        rw [if_pos (by omega), UInt8.ofNat_toNat]
      have seq := Quoted.escape (.unicode four (by unfold HighSurrogate; omega)
        (by unfold LowSurrogate; omega)) rest
      rw [encoded] at seq
      exact seq
    · unfold Escaped at escaped
      rcases escaped with same | same | small
      · exact absurd (UInt8.toNat_inj.mp same) quote
      · exact absurd (UInt8.toNat_inj.mp same) backslash
      · exact absurd small control
  · rw [escapeByte_plain escaped]
    unfold Escaped at escaped
    refine .plain ⟨by omega, ?_, ?_⟩ rest
    · rintro rfl
      exact escaped (by decide)
    · rintro rfl
      exact escaped (by decide)

theorem quoted_escaped (bytes : List UInt8) : Quoted (bytes.flatMap escapeByte) bytes := by
  induction bytes with
  | nil => exact .nil
  | cons byte bytes ih =>
    rw [flatMap_cons]
    exact quoted_escapeByte ih

theorem padded {part : List UInt8 → α → Prop} {bytes : List UInt8} {value : α}
    (here : part bytes value) : Padded part bytes value :=
  ⟨[], bytes, [], by simp, white_nil, white_nil, here⟩

theorem separated_joined {part : List UInt8 → α → Prop} {bytes : α → List UInt8}
    {v : α} {vs : List α} (each : ∀ v' ∈ v :: vs, part (bytes v') v') :
    Separated (Padded part) (joined true ((v :: vs).map bytes)) (v :: vs) := by
  induction vs generalizing v with
  | nil =>
    have only := Separated.mk .nil (padded (each v mem_cons_self))
    simpa [joined] using only
  | cons next vs ih =>
    have later := ih fun v' mem => each v' (mem_cons_of_mem _ mem)
    have all := later.cons (padded (each v mem_cons_self))
    simpa [joined] using all

/-- **The text of a value spells it.** -/
theorem spells_render {ls : ℕ} :
    ∀ {value : Value}, Valid ls value → Spells textReading ls (render ls value) value := by
  induction ls with
  | zero => exact fun invalid => invalid.elim
  | succ ls ih =>
    intro value valid
    cases value with
    | null => exact .null
    | bool state =>
      cases state with
      | false => exact .no
      | true => exact .yes
    | number => exact .number valid rfl
    | text content => exact .text (quoted_escaped content.bytes)
    | array xs =>
      cases xs with
      | nil => exact .emptyArray white_nil
      | cons =>
        exact .array (separated_joined fun item' mem => ih (valid item' mem))
    | object fs =>
      have sorted : (sort (fs.map (mapValues (render ls)))).map renderField =
          (sort fs).map fun field => renderField (mapValues (render ls) field) := by
        rw [sort_map, map_map]
        rfl
      have unique : ((sort fs).map Prod.fst).Nodup :=
        ((sort_perm fs).map Prod.fst).nodup_iff.mpr valid.1
      have each : ∀ field ∈ sort fs, Member textReading (Spells textReading ls)
          (renderField (mapValues (render ls) field)) field := by
        intro field mem
        refine ⟨field.1.bytes.flatMap escapeByte, [], [], render ls field.2, ?_,
          quoted_escaped _, white_nil, white_nil,
          ih (valid.2 field ((sort_perm fs).mem_iff.mp mem))⟩
        simp [renderField, renderString, mapValues]
      unfold render
      rw [sorted]
      have order := sort_perm fs
      cases all : sort fs with
      | nil =>
        rw [all] at order
        obtain rfl := order.symm.eq_nil
        exact .emptyObject white_nil
      | cons =>
        rw [all] at each unique order
        exact .object (separated_joined each) unique order

end FoundationLang.Standard.JsonText
