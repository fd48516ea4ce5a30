/-
**What the parser of `std.json` returns.**

The parser returns a value of the text: every value that it returns is spelled by the bytes that it
has read (`parseValue_ensures`), and a text that it accepts is a document (`document_of_parse`). It
panics in one place only, when a text in the place of a literal ends inside a code point where the
literal would end (`Stuck`).
-/

import FoundationLang.Standard.JsonParts

namespace FoundationLang.Standard.JsonText

open Library Outcome Json List

variable {src : Text} {offset levels : ℕ} {front back : List UInt8} {byte : UInt8}

/-- How the strings of the language are written in a JSON text. -/
def textReading : Reading Text where
  number := fun bytes spelling => spelling.bytes = bytes
  text := fun bytes content => Quoted bytes content.bytes

/-- A text that starts like a literal, and ends inside a code point where the literal would end. -/
def CutsLiteral (back : List UInt8) : Prop :=
  ∃ literal ∈ [nullValue, trueValue, falseValue], back.head? = literal.bytes.head? ∧
    ¬Boundary (back.drop literal.byteLen)

/-- **Where the parser panics**: a value comes next, and a literal is cut. -/
def Stuck (source : Text) : Prop :=
  ∃ levels front back, Awaits textReading 128 (levels + 1) front ∧ source.bytes = front ++ back ∧
    CutsLiteral back

/-! ### Keys -/

theorem fieldSearch_spec (want : Text) (current r : List (Text × Value)) (found : Bool) :
    fieldSearch want current r found =
      (found || current.any fun field => field.1.equal want, current.reverse ++ r) := by
  induction current generalizing r found with
  | nil => simp [fieldSearch]
  | cons field current ih =>
    unfold fieldSearch
    rw [ih]
    cases same : field.1.equal want <;> simp [any_cons, same]

theorem hasKey_spec (fs : List (Text × Value)) (key : Text) :
    ((hasKey fs key).1 = true ↔ key ∈ fs.map Prod.fst) ∧
      (hasKey fs key).2 = fs.reverse := by
  unfold hasKey
  rw [fieldSearch_spec]
  simp [any_eq_true]

theorem parseKey_ensures (cut : Cut src.bytes offset front back)
    (fs : List (Text × Value)) :
    Ensures (parseKey src fs offset) fun parsed => ∃ content rest,
      back = 34 :: (content ++ 34 :: rest) ∧ Quoted content parsed.1.1.bytes ∧
        parsed.1.1 ∉ fs.map Prod.fst ∧ parsed.1.2 = fs.reverse ∧
        parsed.2 = offset + content.length + 2 := by
  unfold parseKey
  cases back with
  | nil =>
    rw [if_pos (Nat.le_of_not_lt (at_end cut))]
    exact ensures_err _
  | cons byte =>
    rw [if_neg (Nat.not_le_of_lt (inside cut)), readByte_bind cut]
    refine ensures_ite (fun _ => ensures_err _) fun quote => ?_
    obtain rfl : byte = 34 := UInt8.toNat_inj.mp (Decidable.of_not_not quote)
    refine Ensures.bind (parseString_ensures cut) ?_
    rintro ⟨key, _⟩ ⟨content, rest, rfl, quoted, same⟩
    dsimp only at quoted same ⊢
    obtain ⟨found, turned⟩ := hasKey_spec fs key
    refine ensures_ite (fun _ => ensures_err _) fun fresh => ?_
    exact ensures_ok ⟨content, rest, rfl, quoted, fun member => fresh (found.mpr member), turned,
      same⟩

theorem parseColon_ensures (cut : Cut src.bytes offset front back) :
    Ensures (parseColon src offset) fun next => ∃ white white' rest,
      back = white ++ 58 :: (white' ++ rest) ∧ White white ∧ White white' ∧
        next = offset + white.length + 1 + white'.length := by
  obtain ⟨white, rest, rfl, blank, _, skipped⟩ := skipWhitespace_spec cut
  have there := cut.move
  unfold parseColon
  rw [skipped, ok_bind]
  cases rest with
  | nil =>
    rw [byteIs_nil there, ok_bind]
    exact ensures_err _
  | cons byte =>
    rw [byteIs_cons there, ok_bind]
    refine ensures_ite (fun _ => ensures_err _) fun colon => ?_
    rw [Bool.not_eq_true', Bool.not_eq_false, beq_iff_eq] at colon
    obtain rfl : byte = 58 := UInt8.toNat_inj.mp colon
    obtain ⟨white', rest', rfl, blank', _, skipped'⟩ := skipWhitespace_spec there.next
    rw [checked_next_bind there (by omega), skipped']
    exact ensures_ok ⟨white, white', rest', rfl, blank, blank', rfl⟩

/-! ### Values -/

/-- A value is read at an offset, behind white space. -/
def ValueParsed (levels offset : ℕ) (back : List UInt8) (parsed : Value × ℕ) : Prop :=
  ∃ white bytes rest, back = white ++ (bytes ++ rest) ∧ White white ∧
    Spells textReading levels bytes parsed.1 ∧ parsed.2 = offset + white.length + bytes.length

/-- Values of so many levels are read where one comes next. -/
def ValuesParse (source : Text) (levels : ℕ) : Prop :=
  ∀ {offset front back}, Cut source.bytes offset front back → Awaits textReading 128 levels front →
    EnsuresUnless (Stuck source) (parseValue source levels offset) (ValueParsed levels offset back)

/-- The last item comes first. -/
def ItemsKept (members result : List Value) : Prop :=
  result = members.reverse

theorem parseArray_ensures (vs : ValuesParse src levels)
    (cut : Cut src.bytes offset front (91 :: back))
    (outer : Awaits textReading 128 (levels + 1) front) :
    EnsuresUnless (Stuck src) (parseArray (parseValue src levels) src offset)
      fun parsed => ∃ body rest, back = body ++ 93 :: rest ∧
        parsed.2 = offset + body.length + 2 ∧
        Spells textReading (levels + 1) (91 :: (body ++ [93])) (.array parsed.1) := by
  have each : ∀ {parts ms white result offset back},
      Leading (Padded (Spells textReading levels)) parts ms → White white →
      ItemsKept ms result → Cut src.bytes offset (front ++ 91 :: (parts ++ white)) back →
      EnsuresUnless (Stuck src) (parseItem (parseValue src levels) result offset)
        (PartParsed (Spells textReading levels) ItemsKept ms offset back) := by
    rintro _ ms _ result _ _ leading blank rfl cut
    refine EnsuresUnless.bind (vs cut (.item outer leading blank)) ?_
    rintro ⟨_, next⟩ ⟨white', bytes, rest, whole, blank', spells, same⟩
    exact (ensures_ok ⟨white', bytes, rest, whole, blank', spells, by simp [ItemsKept],
      same⟩).unless
  refine (@parseParts_ensures _ _ _ _ _ _ _ _ ItemsKept _ 93 cut rfl each).mono ?_
  rintro ⟨_, _⟩ ⟨body, rest, whole, same, ⟨blank, empty⟩ | ⟨_, _, separated, keeps, turned⟩⟩
  · dsimp only at empty same ⊢
    rw [empty]
    exact ⟨body, rest, whole, same, .emptyArray blank⟩
  · dsimp only at turned same ⊢
    rw [turned, keeps, reverse_reverse]
    exact ⟨body, rest, whole, same, .array separated⟩

/-- The fields of an object are its members in some order. -/
def FieldsKept (members result : List (Text × Value)) : Prop :=
  result.Perm members ∧ (members.map Prod.fst).Nodup

theorem parseField_ensures (vs : ValuesParse src levels)
    (outer : Awaits textReading 128 (levels + 1) front) {parts white : List UInt8}
    {members r : List (Text × Value)}
    (leading : Leading (Padded (Member textReading (Spells textReading levels))) parts members)
    (blank : White white) (keeps : FieldsKept members r)
    (cut : Cut src.bytes offset (front ++ 123 :: (parts ++ white)) back) :
    EnsuresUnless (Stuck src) (parseField (parseValue src levels) src r offset)
      (PartParsed (Member textReading (Spells textReading levels)) FieldsKept members offset
        back) := by
  obtain ⟨order, unique⟩ := keeps
  unfold parseField
  refine EnsuresUnless.bind (parseKey_ensures cut r).unless ?_
  rintro ⟨⟨key, result'⟩, next⟩ ⟨content, rest, rfl, quoted, fresh, turned, rfl⟩
  dsimp only at quoted fresh turned ⊢
  have afterKey : Cut src.bytes (offset + content.length + 2)
      (front ++ 123 :: (parts ++ white) ++ (34 :: (content ++ [34]))) rest := by
    have split : 34 :: (content ++ 34 :: rest) = (34 :: (content ++ [34])) ++ rest := by simp
    have size : offset + content.length + 2 = offset + (34 :: (content ++ [34])).length := by
      simp only [length_cons, length_append, length_nil]
      omega
    rw [split] at cut
    rw [size]
    exact cut.move
  refine EnsuresUnless.bind (parseColon_ensures afterKey).unless ?_
  rintro _ ⟨white', white'', rest', rfl, blank', blank'', rfl⟩
  have afterColon := afterKey.move.next.move
  have fresh' : key ∉ members.map Prod.fst := fun member =>
    fresh ((order.map Prod.fst).mem_iff.mpr member)
  have awaits : Awaits textReading 128 levels (front ++ 123 :: (parts ++ (white ++
      34 :: (content ++ 34 :: (white' ++ 58 :: white''))))) :=
    .member outer leading unique blank quoted fresh' blank' blank''
  have again : front ++ 123 :: (parts ++ white) ++ (34 :: (content ++ [34])) ++ white' ++ [58] ++
      white'' = front ++ 123 :: (parts ++ (white ++
        34 :: (content ++ 34 :: (white' ++ 58 :: white'')))) := by
    simp only [append_assoc, cons_append, nil_append]
  rw [again] at afterColon
  refine EnsuresUnless.bind (vs afterColon awaits) ?_
  rintro ⟨v, last⟩ ⟨whiteAfter, bytes, rest, rfl, blankAfter, spells, rfl⟩
  dsimp only at spells
  have joined : result'.Perm members := by
    rw [turned]
    exact (reverse_perm r).trans order
  refine (ensures_ok ⟨[], 34 :: (content ++ 34 :: (white' ++ 58 :: (white'' ++ whiteAfter ++ bytes))),
    rest, by simp, white_nil, ⟨content, white', white'' ++ whiteAfter, bytes, rfl, quoted, blank',
      white_append blank'' blankAfter, spells⟩, ⟨?_, ?_⟩, ?_⟩).unless
  · exact (joined.cons _).trans (perm_append_singleton _ _).symm
  · rw [map_append, map_singleton]
    exact nodup_append.mpr ⟨unique, by simp, by
      rintro name member _ single rfl
      rw [mem_singleton.mp single] at member
      exact fresh' member⟩
  · simp only [length_cons, length_append, length_nil]
    omega

theorem parseObject_ensures (vs : ValuesParse src levels)
    (cut : Cut src.bytes offset front (123 :: back))
    (outer : Awaits textReading 128 (levels + 1) front) :
    EnsuresUnless (Stuck src) (parseObject (parseValue src levels) src offset)
      fun parsed => ∃ body rest, back = body ++ 125 :: rest ∧
        parsed.2 = offset + body.length + 2 ∧
        Spells textReading (levels + 1) (123 :: (body ++ [125])) (.object parsed.1) := by
  have empty : FieldsKept [] [] := ⟨.refl _, nodup_nil⟩
  refine (@parseParts_ensures _ _ _ _ _ _ _ _ _ _ 125 cut empty
    (parseField_ensures vs outer)).mono ?_
  rintro ⟨_, _⟩ ⟨body, rest, whole, same, ⟨blank, none⟩ | ⟨_, result, separated, keeps, turned⟩⟩
  · dsimp only at none same ⊢
    rw [none]
    exact ⟨body, rest, whole, same, .emptyObject blank⟩
  · dsimp only at turned same ⊢
    refine ⟨body, rest, whole, same, .object separated keeps.2 ?_⟩
    rw [turned]
    exact (keeps.1.symm.trans (reverse_perm result).symm)

theorem tryLiteral_ensures {literal : Text} (member : literal ∈ [nullValue, trueValue, falseValue])
    {x : UInt8} (starts : literal.bytes.head? = some x)
    (cut : Cut src.bytes offset front (byte :: back))
    (awaits : Awaits textReading 128 (levels + 1) front) (ascii : byte = x → byte.toNat ≤ 0x7f)
    (filled : 0 < literal.byteLen) :
    EnsuresUnless (Stuck src) (tryLiteral src literal (byte.toNat == x.toNat) offset)
      fun result => ∀ next ∈ result, ∃ rest, byte :: back = literal.bytes ++ rest ∧
        next = offset + literal.byteLen := by
  unfold tryLiteral
  by_cases same : byte = x
  · subst same
    rw [if_pos (beq_self_eq_true _)]
    have consumed := consume_ensures cut (ascii rfl) filled
    refine ⟨fun reason panics => ?_, consumed.2⟩
    exact ⟨levels, front, byte :: back, awaits, cut.1, literal, member, starts.symm,
      consumed.1 reason panics⟩
  · have differs : ¬(byte.toNat == x.toNat) = true := by
      simpa [UInt8.toNat_inj] using same
    rw [if_neg differs]
    exact (ensures_ok (by rintro _ ⟨⟩)).unless

/-- The literals are tried one after the other, and then a number. -/
theorem parseToken_ensures (cut : Cut src.bytes offset front (byte :: back))
    (awaits : Awaits textReading 128 (levels + 1) front) :
    EnsuresUnless (Stuck src) (parseToken src byte.toNat offset) fun parsed =>
      ∃ bytes rest, byte :: back = bytes ++ rest ∧ Spells textReading (levels + 1) bytes parsed.1 ∧
        parsed.2 = offset + bytes.length := by
  unfold parseToken
  refine EnsuresUnless.bind (@tryLiteral_ensures _ _ _ _ _ _ nullValue (by decide) 110 rfl cut
    awaits (by rintro rfl; decide) (by decide)) fun isNull null => ?_
  cases isNull with
  | some next =>
    obtain ⟨rest, whole, same⟩ := null next rfl
    exact (ensures_ok ⟨nullValue.bytes, rest, whole, .null, same⟩).unless
  | none =>
    refine EnsuresUnless.bind (@tryLiteral_ensures _ _ _ _ _ _ trueValue (by decide) 116 rfl cut
      awaits (by rintro rfl; decide) (by decide)) fun isTrue yes => ?_
    cases isTrue with
    | some next =>
      obtain ⟨rest, whole, same⟩ := yes next rfl
      exact (ensures_ok ⟨trueValue.bytes, rest, whole, .yes, same⟩).unless
    | none =>
      refine EnsuresUnless.bind (@tryLiteral_ensures _ _ _ _ _ _ falseValue (by decide) 102 rfl
        cut awaits (by rintro rfl; decide) (by decide)) fun isFalse no => ?_
      cases isFalse with
      | some next =>
        obtain ⟨rest, whole, same⟩ := no next rfl
        exact (ensures_ok ⟨falseValue.bytes, rest, whole, .no, same⟩).unless
      | none =>
        refine (ensures_ite (fun _ => ?_) fun _ => ensures_err _).unless
        refine (parseNumber_ensures cut).mono ?_
        rintro _ ⟨spelling, rest, _, whole, number, same, rfl⟩
        exact ⟨spelling, rest, whole, .number number same, rfl⟩

theorem Awaits.white {σ : Type} {reading : Reading σ} {limit levels : ℕ} {front white : List UInt8}
    (awaits : Awaits reading limit levels front) (blank : White white) :
    Awaits reading limit levels (front ++ white) := by
  cases awaits with
  | root blank' => exact .root (white_append blank' blank)
  | item outer before blank' =>
    rw [append_assoc, cons_append, append_assoc]
    exact .item outer before (white_append blank' blank)
  | member outer before unique blank' quoted fresh blank'' blankAfter =>
    have again := Awaits.member outer before unique blank' quoted fresh blank''
      (white_append blankAfter blank)
    simpa only [append_assoc, cons_append] using again

/-- **What is parsed where a value comes next is a value.** -/
theorem parseValue_ensures (src : Text) (levels : ℕ) : ValuesParse src levels := by
  induction levels with
  | zero =>
    intro offset front back _ _
    exact (ensures_err _).unless
  | succ levels ih =>
    intro offset front back cut awaits
    obtain ⟨white, rest, rfl, blank, _, skipped⟩ := skipWhitespace_spec cut
    have there := cut.move
    have awaits' := Awaits.white awaits blank
    unfold parseValue
    rw [skipped, ok_bind]
    cases rest with
    | nil =>
      rw [if_pos (Nat.le_of_not_lt (at_end there))]
      exact (ensures_err _).unless
    | cons byte =>
      rw [if_neg (Nat.not_le_of_lt (inside there)), readByte_bind there]
      by_cases quote : byte.toNat = 34
      · obtain rfl : byte = 34 := UInt8.toNat_inj.mp quote
        rw [if_pos quote]
        refine EnsuresUnless.bind (parseString_ensures there).unless ?_
        rintro ⟨v, next⟩ ⟨content, rest, rfl, quoted, same⟩
        refine (ensures_ok ⟨white, 34 :: (content ++ [34]), rest, by simp, blank, .text quoted,
          ?_⟩).unless
        dsimp only at same ⊢
        rw [same]
        simp only [length_cons, length_append, length_nil]
        omega
      rw [if_neg quote]
      by_cases bracket : byte.toNat = 91
      · obtain rfl : byte = 91 := UInt8.toNat_inj.mp bracket
        rw [if_pos bracket]
        refine EnsuresUnless.bind (parseArray_ensures ih there awaits') ?_
        rintro ⟨xs, next⟩ ⟨body, rest, rfl, same, spells⟩
        refine (ensures_ok ⟨white, 91 :: (body ++ [93]), rest, by simp, blank, spells, ?_⟩).unless
        dsimp only at same ⊢
        rw [same]
        simp only [length_cons, length_append, length_nil]
        omega
      rw [if_neg bracket]
      by_cases brace : byte.toNat = 123
      · obtain rfl : byte = 123 := UInt8.toNat_inj.mp brace
        rw [if_pos brace]
        refine EnsuresUnless.bind (parseObject_ensures ih there awaits') ?_
        rintro ⟨fs, next⟩ ⟨body, rest, rfl, same, spells⟩
        refine (ensures_ok ⟨white, 123 :: (body ++ [125]), rest, by simp, blank, spells, ?_⟩).unless
        dsimp only at same ⊢
        rw [same]
        simp only [length_cons, length_append, length_nil]
        omega
      rw [if_neg brace]
      refine (parseToken_ensures there awaits').mono ?_
      rintro ⟨_, _⟩ ⟨bytes, rest, whole, spells, same⟩
      exact ⟨white, bytes, rest, by rw [whole], blank, spells, same⟩

/-- **A text that is accepted is a document**, and there is a panic only where the parser is stuck. -/
theorem parse_ensures (src : Text) :
    EnsuresUnless (Stuck src) (parse src) (Document textReading 128 src.bytes) := by
  have start := Cut.start src.bytes
  unfold parse
  refine EnsuresUnless.bind (parseValue_ensures src 129 start (.root white_nil)) ?_
  rintro ⟨v, next⟩ ⟨white, bytes, rest, whole, blank, spells, same⟩
  dsimp only at spells same ⊢
  have there : Cut src.bytes 0 [] (white ++ (bytes ++ rest)) := ⟨whole, rfl⟩
  obtain ⟨white', rest', rfl, blank', _, skipped⟩ := skipWhitespace_spec there.move.move
  rw [same, skipped, ok_bind]
  refine (ensures_ite (fun _ => ensures_err _) fun atEnd => ?_).unless
  have size := there.size
  simp only [length_append] at size
  obtain rfl : rest' = [] := by
    have atEnd' := Decidable.of_not_not atEnd
    unfold Text.byteLen at atEnd'
    exact length_eq_zero_iff.mp (by omega)
  exact ensures_ok ⟨white, bytes, white', by rw [whole, append_nil], blank, blank', spells⟩

theorem document_of_parse {value : Value} (parsed : parse src = .ok value) :
    Document textReading 128 src.bytes value :=
  (parse_ensures src).2 value parsed

end FoundationLang.Standard.JsonText
