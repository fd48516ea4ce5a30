/-
**Strings of a JSON text.**

`parseString` copies runs of plain bytes and decodes escape sequences. It returns what is between the
quotation marks of the text (`parseString_ensures`), and it returns it for every string of the
grammar (`parseString_eq`). It never panics: runs start behind an ASCII byte and stop in front of
one, and what is collected is UTF-8 (`Collected`).
-/

import FoundationLang.Standard.JsonTokens

namespace FoundationLang.Standard.JsonText

open Library Outcome Json List

variable {src : Text} {offset : ℕ} {front back : List UInt8} {byte : UInt8}
variable {seq : List UInt8} {point : ℕ}

/-! ### Hexadecimal digits -/

theorem hex_iff {digit : ℕ} : Hex byte digit ↔ hexDigit byte.toNat = digit ∧ digit < 16 := by
  constructor
  · intro hex
    refine ⟨?_, hex.lt⟩
    unfold hexDigit
    cases hex with
    | digit range => rw [if_pos ⟨range.1, range.2⟩]
    | upper range => rw [if_neg (by omega), if_pos ⟨range.1, range.2⟩]
    | lower range => rw [if_neg (by omega), if_neg (by omega), if_pos ⟨range.1, range.2⟩]
  · rintro ⟨rfl, small⟩
    unfold hexDigit at small ⊢
    split_ifs at small ⊢ with digit upper lower
    · exact .digit digit
    · exact .upper upper
    · exact .lower lower
    · omega

theorem hex_room {high digit count : ℕ} (small : (high + 1) * 16 ^ (count + 1) ≤ 2 ^ 62)
    (below : digit < 16) :
    (high * 16 + digit + 1) * 16 ^ count ≤ 2 ^ 62 ∧ high * 16 + digit < 2 ^ 64 := by
  have room : high * 16 + digit + 1 ≤ (high + 1) * 16 := by omega
  have small' : (high * 16 + digit + 1) * 16 ^ count ≤ 2 ^ 62 := by
    refine Nat.le_trans (Nat.mul_le_mul_right _ room) ?_
    rwa [Nat.mul_assoc, ← Nat.pow_succ']
  have least : high * 16 + digit + 1 ≤ (high * 16 + digit + 1) * 16 ^ count :=
    Nat.le_mul_of_pos_right _ (Nat.pow_pos (by decide))
  exact ⟨small', by omega⟩

theorem hexDigits_ensures {count r : ℕ} (cut : Cut src.bytes offset front back)
    (small : (r + 1) * 16 ^ count ≤ 2 ^ 62) :
    Ensures (hexDigits src count r offset) fun parsed => ∃ ds rest,
      back = ds ++ rest ∧ ds.length = count ∧ HexDigits r ds parsed.1 ∧
        parsed.2 = offset + count := by
  induction count generalizing r offset front back with
  | zero => exact ensures_ok ⟨[], back, rfl, rfl, .nil, rfl⟩
  | succ count ih =>
    unfold hexDigits
    cases back with
    | nil =>
      rw [if_pos (Nat.le_of_not_lt (at_end cut))]
      exact ensures_err _
    | cons byte =>
      rw [if_neg (Nat.not_le_of_lt (inside cut)), readByte_bind cut]
      refine ensures_ite (fun _ => ensures_err _) fun least => ?_
      have hex : Hex byte (hexDigit byte.toNat) := hex_iff.mpr ⟨rfl, Nat.lt_of_not_le least⟩
      obtain ⟨small', fits⟩ := hex_room small hex.lt
      rw [checked_bind fits, checked_next_bind cut (by omega)]
      refine (ih cut.next small').mono ?_
      rintro parsed ⟨ds, rest, rfl, rfl, more, next⟩
      exact ⟨byte :: ds, rest, rfl, rfl, .cons hex more, by rw [next]; omega⟩

theorem hexDigits_eq {r v : ℕ} {ds : List UInt8}
    (cut : Cut src.bytes offset front (ds ++ back)) (hex : HexDigits r ds v)
    (small : (r + 1) * 16 ^ ds.length ≤ 2 ^ 62) :
    hexDigits src ds.length r offset = .ok (v, offset + ds.length) := by
  induction hex generalizing offset front with
  | nil => rfl
  | @cons high digit v byte bytes x rest ih =>
    obtain ⟨same, below⟩ := hex_iff.mp x
    obtain ⟨small', fits⟩ := hex_room small below
    rw [length_cons]
    unfold hexDigits
    rw [if_neg (Nat.not_le_of_lt (inside cut)), readByte_bind cut]
    rw [same, if_neg (Nat.not_le_of_lt below), checked_bind fits, checked_next_bind cut (by omega),
      ih cut.next small', Nat.add_assoc, Nat.add_comm 1]

theorem parseHex_ensures (cut : Cut src.bytes offset front back) :
    Ensures (parseHex src offset) fun parsed => ∃ ds rest,
      back = ds ++ rest ∧ Unit16 ds parsed.1 ∧ parsed.2 = offset + 4 := by
  refine (hexDigits_ensures cut (by decide)).mono ?_
  rintro _ ⟨ds, rest, whole, length, hex, next⟩
  exact ⟨ds, rest, whole, ⟨length, hex⟩, next⟩

theorem parseHex_eq {ds : List UInt8} {unit : ℕ}
    (cut : Cut src.bytes offset front (ds ++ back)) (four : Unit16 ds unit) :
    parseHex src offset = .ok (unit, offset + 4) := by
  have parsed := hexDigits_eq cut four.2 (by rw [four.1]; decide)
  rwa [four.1] at parsed

/-! ### Escape sequences -/

theorem unicodeFollows_ensures (cut : Cut src.bytes offset front back) :
    Ensures (unicodeFollows src offset) fun follows =>
      follows = true → ∃ rest, back = 92 :: 117 :: rest := by
  have size := cut.size
  unfold unicodeFollows
  rw [checked_next_bind cut (by omega)]
  refine ensures_ite (fun _ => ensures_ok (by rintro ⟨⟩)) fun enough => ?_
  unfold Text.byteLen at enough
  rcases back with _ | ⟨x, _ | ⟨y, rest⟩⟩
  · simp at size
    omega
  · simp at size
    omega
  · rw [readByte_bind cut]
    refine ensures_ite (fun _ => ensures_ok (by rintro ⟨⟩)) fun backslash => ?_
    rw [checked_next_bind cut (by omega), readByte_bind cut.next]
    refine ensures_ok fun letter => ⟨rest, ?_⟩
    obtain rfl : x = 92 := UInt8.toNat_inj.mp (Decidable.of_not_not backslash)
    obtain rfl : y = 117 := UInt8.toNat_inj.mp (beq_iff_eq.mp letter)
    rfl

theorem unicodeFollows_eq (cut : Cut src.bytes offset front (92 :: 117 :: back)) :
    unicodeFollows src offset = .ok true := by
  have after := inside cut.next
  unfold unicodeFollows
  rw [checked_next_bind cut (by omega), if_neg (by omega), readByte_bind cut,
    if_neg (show ¬UInt8.toNat 92 ≠ 92 by decide), checked_next_bind cut (by omega),
    readByte_bind cut.next]
  rfl

theorem parseUnicode_ensures (cut : Cut src.bytes offset front back) :
    Ensures (parseUnicode src offset) fun parsed => ∃ ds rest,
      back = ds ++ rest ∧ Escape (117 :: ds) parsed.1 ∧
        parsed.2 = offset + ds.length := by
  unfold parseUnicode
  refine Ensures.bind (parseHex_ensures cut) ?_
  rintro ⟨x, next⟩ ⟨ds, rest, rfl, four, same⟩
  dsimp only at four same ⊢
  have there := cut.move
  rw [four.1, ← same] at there
  refine ensures_ite (fun isHigh => ?_) fun notHigh => ensures_ite (fun _ => ?_) fun notLow => ?_
  · refine Ensures.bind (unicodeFollows_ensures there) fun follows follow => ?_
    refine ensures_ite (fun _ => ensures_err _) fun yes => ?_
    rw [Bool.not_eq_true', Bool.not_eq_false] at yes
    obtain ⟨rest, rfl⟩ := follow yes
    have second := there.next.next
    rw [checked_next_bind there (by omega)]
    refine Ensures.bind (parseHex_ensures second) ?_
    rintro ⟨low, after⟩ ⟨digits', rest, rfl, four', same'⟩
    dsimp only at four' same' ⊢
    refine ensures_ite (fun _ => ?_) fun isLow => ?_
    · rw [checkedSub_bind (by omega)]
      exact ensures_err _
    · refine ensures_ok ⟨ds ++ 92 :: 117 :: digits', rest, by simp,
        .pair four isHigh four' (by unfold LowSurrogate; omega), ?_⟩
      simp only [length_append, length_cons, four.1, four'.1]
      omega
  · rw [checkedSub_bind (by omega)]
    exact ensures_err _
  · exact ensures_ok ⟨ds, rest, rfl, .unicode four notHigh notLow, by rw [same, four.1]⟩

theorem short_iff :
    Short byte point ↔ simpleEscape byte.toNat = point ∧ point ≠ 0 := by
  constructor
  · intro letter
    cases letter <;> decide
  · rintro ⟨rfl, some⟩
    have letter {code : UInt8} (same : byte.toNat = code.toNat) : byte = code :=
      UInt8.toNat_inj.mp same
    unfold simpleEscape at some ⊢
    split_ifs at some ⊢ with itself b f n r t
    · rcases itself with quote | slash | backslash
      · obtain rfl : byte = 34 := letter quote
        exact .quote
      · obtain rfl : byte = 47 := letter slash
        exact .slash
      · obtain rfl : byte = 92 := letter backslash
        exact .backslash
    · obtain rfl : byte = 98 := letter b
      exact .backspace
    · obtain rfl : byte = 102 := letter f
      exact .feed
    · obtain rfl : byte = 110 := letter n
      exact .newline
    · obtain rfl : byte = 114 := letter r
      exact .carriage
    · obtain rfl : byte = 116 := letter t
      exact .tab
    · exact absurd rfl some

/-- **What is decoded is an escape sequence.** -/
theorem parseEscape_ensures (cut : Cut src.bytes offset front back) :
    Ensures (parseEscape src offset) fun parsed => ∃ seq rest,
      back = seq ++ rest ∧ Escape seq parsed.1 ∧
        parsed.2 = offset + seq.length := by
  unfold parseEscape
  cases back with
  | nil =>
    rw [if_pos (Nat.le_of_not_lt (at_end cut))]
    exact ensures_err _
  | cons byte back =>
    rw [if_neg (Nat.not_le_of_lt (inside cut)), readByte_bind cut, checked_next_bind cut (by omega)]
    refine ensures_ite (fun simple => ?_) fun _ => ensures_ite (fun _ => ?_) fun letter => ?_
    · exact ensures_ok ⟨[byte], back, rfl, .short (short_iff.mpr ⟨rfl, simple⟩), rfl⟩
    · rw [checkedSub_bind (by omega)]
      exact ensures_err _
    · obtain rfl : byte = 117 := UInt8.toNat_inj.mp (Decidable.of_not_not letter)
      refine (parseUnicode_ensures cut.next).mono ?_
      rintro parsed ⟨ds, rest, rfl, escape, next⟩
      exact ⟨117 :: ds, rest, rfl, escape, by rw [next, length_cons]; omega⟩

/-- **Every escape sequence is decoded.** -/
theorem parseEscape_eq
    (cut : Cut src.bytes offset front (seq ++ back)) (escape : Escape seq point) :
    parseEscape src offset = .ok (point, offset + seq.length) := by
  unfold parseEscape
  cases escape with
  | short letter =>
    obtain ⟨same, some⟩ := short_iff.mp letter
    rw [if_neg (Nat.not_le_of_lt (inside cut)), readByte_bind cut, checked_next_bind cut (by omega)]
    rw [same, if_pos some]
    rfl
  | @unicode ds unit four notHigh notLow =>
    rw [if_neg (Nat.not_le_of_lt (inside cut)), readByte_bind cut, checked_next_bind cut (by omega)]
    rw [if_neg (by decide), if_neg (by decide)]
    unfold parseUnicode
    have notHigh' : ¬(point ≥ 55296 ∧ point ≤ 56319) := notHigh
    have notLow' : ¬(point ≥ 56320 ∧ point ≤ 57343) := notLow
    rw [parseHex_eq cut.next four, ok_bind]
    dsimp only
    rw [if_neg notHigh', if_neg notLow', length_cons, four.1, Nat.add_right_comm]
  | @pair ds digits' high low four isHigh four' isLow =>
    have first : Cut src.bytes (offset + 1) (front ++ [117])
        (ds ++ (92 :: 117 :: (digits' ++ back))) := by
      have again := cut
      simp only [cons_append, append_assoc] at again
      exact again.next
    have between := first.move
    rw [four.1] at between
    have second := between.next.next
    have isHigh' : high ≥ 55296 ∧ high ≤ 56319 := isHigh
    have inRange : ¬(low < 56320 ∨ low > 57343) := by
      unfold LowSurrogate at isLow
      omega
    rw [if_neg (Nat.not_le_of_lt (inside cut)), readByte_bind cut, checked_next_bind cut (by omega)]
    rw [if_neg (by decide), if_neg (by decide)]
    unfold parseUnicode
    rw [parseHex_eq first four, ok_bind]
    dsimp only
    rw [if_pos isHigh', unicodeFollows_eq between, ok_bind, if_neg (by decide),
      checked_next_bind between (by omega), parseHex_eq second four', ok_bind]
    rw [if_neg inRange]
    simp only [length_cons, length_append, four.1, four'.1]
    rfl

/-! ### Runs of plain bytes -/

/-- **What the loop has collected**: texts in the builder, and a run of bytes that are not yet in it. -/
structure Collected (source : Text) (data : List UInt8) (segment offset : ℕ)
    (front run back : List UInt8) : Prop where
  cut : Cut source.bytes segment front (run ++ back)
  start : Boundary (run ++ back)
  text : Utf8 data
  short : data.length ≤ segment
  here : offset = segment + run.length

variable {data run : List UInt8} {seg : ℕ} {rounds : ℕ}

theorem Collected.next_cut (got : Collected src data seg offset front run back) :
    Cut src.bytes offset (front ++ run) back := by
  rw [got.here]
  exact got.cut.move

theorem Collected.append (got : Collected src data seg offset front run (byte :: back))
    (ascii : byte.toNat ≤ 0x7f) :
    appendRange ⟨some data⟩ src seg offset = .ok (true, ⟨some (data ++ run)⟩) ∧
      Utf8 (data ++ run) ∧ (data ++ run).length ≤ offset := by
  obtain ⟨cut, start, text, short, rfl⟩ := got
  obtain ⟨v, same, inner, sliced⟩ :=
    @readSlice_eq _ _ _ _ BuilderError _ cut start (boundary_ascii ascii)
  have size := cut.size
  have small := src.short
  rw [length_append] at size
  refine ⟨?_, text.append inner, by rw [length_append]; omega⟩
  unfold appendRange
  by_cases empty : seg = seg + run.length
  · rw [if_pos empty]
    obtain rfl : run = [] := length_eq_zero_iff.mp (by omega)
    rw [append_nil]
  · rw [if_neg empty, sliced, ok_bind, TextBuilder.write_eq (by rw [same]; omega), same]

theorem Collected.plain (got : Collected src data seg offset front run (byte :: back)) :
    Collected src data seg (offset + 1) front (run ++ [byte]) back := by
  obtain ⟨cut, start, text, short, rfl⟩ := got
  have again : run ++ byte :: back = run ++ [byte] ++ back := by simp
  rw [again] at cut start
  exact ⟨cut, start, text, short, by rw [length_append, Nat.add_assoc]; rfl⟩

theorem Collected.escape
    (got : Collected src data seg offset front run (92 :: (seq ++ back)))
    (decoded : Escape seq point) :
    Collected src (data ++ run ++ Utf8.encode point) (offset + 1 + seq.length)
      (offset + 1 + seq.length) (front ++ run ++ [92] ++ seq) [] back := by
  obtain ⟨_, joined, least⟩ := got.append (by decide)
  have cut := got.next_cut.next
  obtain ⟨range, scalar⟩ := decoded.scalar
  have point' : Utf8 (Utf8.encode point) := by
    simpa using Utf8.cons (Utf8.codePoint_encode range scalar) .nil
  have short := decoded.length_le
  refine ⟨cut.move, ?_, joined.append point', ?_, rfl⟩
  · have all : ∀ byte ∈ (92 :: seq : List UInt8), byte.toNat ≤ 0x7f := by
      intro byte mem
      rcases mem_cons.mp mem with rfl | mem
      · decide
      · exact decoded.ascii byte mem
    have whole := got.next_cut
    rw [← cons_append] at whole
    exact boundary_behind_run whole all (cons_ne_nil _ _)
  · rw [length_append]
    omega

/-! ### The loop -/

theorem stringLoop_end
    (got : Collected src data seg offset front run (34 :: back)) :
    ∃ v : Text, v.bytes = data ++ run ∧
      stringLoop src (rounds + 1) ⟨some data⟩ seg offset = .ok (v, offset + 1) := by
  have cut := got.next_cut
  obtain ⟨appended, text, least⟩ := got.append (by decide)
  have small := offset_lt cut
  refine ⟨⟨data ++ run, valid_of_utf8 text, by omega⟩, rfl, ?_⟩
  unfold stringLoop
  rw [if_pos (inside cut), readByte_bind cut, if_pos (show UInt8.toNat 34 = 34 from rfl),
    appended, mapErr_ok, ok_bind, checked_next cut (by omega)]
  dsimp only
  rw [ok_bind, TextBuilder.finish_eq ⟨data ++ run, valid_of_utf8 text, by omega⟩]
  rfl

theorem stringLoop_plain
    (got : Collected src data seg offset front run (byte :: back))
    (itself : Plain byte) :
    stringLoop src (rounds + 1) ⟨some data⟩ seg offset =
      stringLoop src rounds ⟨some data⟩ seg (offset + 1) := by
  obtain ⟨least, noQuote, noBackslash⟩ := itself
  have cut := got.next_cut
  have noQuote' : byte.toNat ≠ 34 := fun same => noQuote (UInt8.toNat_inj.mp same)
  have noBackslash' : byte.toNat ≠ 92 := fun same => noBackslash (UInt8.toNat_inj.mp same)
  conv_lhs => unfold stringLoop
  rw [if_pos (inside cut), readByte_bind cut, if_neg noQuote', if_neg (by omega),
    if_pos noBackslash', checked_next_bind cut (by omega)]

theorem stringLoop_backslash
    (got : Collected src data seg offset front run (92 :: back)) :
    stringLoop src (rounds + 1) ⟨some data⟩ seg offset = (do
      let (codePoint, offset) ← parseEscape src (offset + 1)
      let (_, builder) ← (TextBuilder.writeCodePoint ⟨some (data ++ run)⟩ codePoint).mapErr
        fun _ => ⟨.invalidEscape, offset⟩
      stringLoop src rounds builder offset offset) := by
  have cut := got.next_cut
  obtain ⟨appended, _, _⟩ := got.append (by decide)
  conv_lhs => unfold stringLoop
  rw [if_pos (inside cut), readByte_bind cut, if_neg (show ¬UInt8.toNat 92 = 34 by decide),
    if_neg (show ¬UInt8.toNat 92 < 32 by decide), if_neg (show ¬UInt8.toNat 92 ≠ 92 by decide),
    appended, mapErr_ok, ok_bind, checked_next cut (by omega)]
  rfl

theorem stringLoop_escape {rounds point : ℕ}
    (got : Collected src data seg offset front run (92 :: (seq ++ back)))
    (decoded : Escape seq point) :
    stringLoop src (rounds + 1) ⟨some data⟩ seg offset =
      stringLoop src rounds ⟨some (data ++ run ++ Utf8.encode point)⟩
        (offset + 1 + seq.length) (offset + 1 + seq.length) := by
  have cut := got.next_cut
  obtain ⟨_, _, least⟩ := got.append (by decide)
  obtain ⟨range, scalar⟩ := decoded.scalar
  have behind := offset_lt cut.next.move
  have short := decoded.length_le
  rw [stringLoop_backslash got, parseEscape_eq cut.next decoded, ok_bind]
  dsimp only
  rw [TextBuilder.writeCodePoint_eq range scalar (by omega), mapErr_ok, ok_bind]

theorem stringLoop_backslash_ensures {post : Text × ℕ → Prop}
    (got : Collected src data seg offset front run (92 :: back))
    (later : ∀ seq rest point, back = seq ++ rest → Escape seq point →
      Ensures (stringLoop src (rounds + 1) ⟨some data⟩ seg offset) post) :
    Ensures (stringLoop src (rounds + 1) ⟨some data⟩ seg offset) post := by
  have decoding := parseEscape_ensures got.next_cut.next
  cases decoded : parseEscape src (offset + 1) with
  | ok result =>
    obtain ⟨seq, rest, whole, escape, _⟩ := decoding.2 result decoded
    exact later seq rest result.1 whole escape
  | error stop =>
    rw [stringLoop_backslash got, decoded]
    cases stop with
    | err error => exact ensures_err error
    | panic reason => exact absurd decoded (decoding.1 reason)

theorem stringLoop_ensures
    (got : Collected src data seg offset front run back) :
    Ensures (stringLoop src rounds ⟨some data⟩ seg offset) fun parsed =>
      ∃ content decoded rest, back = content ++ 34 :: rest ∧ Quoted content decoded ∧
        parsed.1.bytes = data ++ (run ++ decoded) ∧ parsed.2 = offset + content.length + 1 := by
  induction rounds generalizing data seg offset front run back with
  | zero => exact ensures_err _
  | succ rounds ih =>
    have cut := got.next_cut
    cases back with
    | nil =>
      unfold stringLoop
      rw [if_neg (at_end cut)]
      exact ensures_err _
    | cons byte back =>
      by_cases quote : byte = 34
      · subst quote
        obtain ⟨v, same, returned⟩ := @stringLoop_end _ _ _ _ _ _ _ rounds got
        rw [returned]
        exact ensures_ok ⟨[], [], back, rfl, .nil, by rw [same, append_nil], rfl⟩
      by_cases backslash : byte = 92
      · subst backslash
        refine stringLoop_backslash_ensures got fun seq rest point whole escape => ?_
        subst whole
        rw [stringLoop_escape got escape]
        refine (ih (got.escape escape)).mono ?_
        rintro parsed ⟨content, decoded, rest, rfl, quoted, same, next⟩
        refine ⟨92 :: (seq ++ content), _, rest, by simp, .escape escape quoted, ?_, ?_⟩
        · rw [same, nil_append, append_assoc, append_assoc]
        · rw [next, length_cons, length_append]
          omega
      by_cases control : byte.toNat < 32
      · have noQuote : byte.toNat ≠ 34 := by omega
        unfold stringLoop
        rw [if_pos (inside cut), readByte_bind cut, if_neg noQuote, if_pos control]
        exact ensures_err _
      · have itself : Plain byte := ⟨Nat.le_of_not_lt control, quote, backslash⟩
        rw [stringLoop_plain got itself]
        refine (ih got.plain).mono ?_
        rintro parsed ⟨content, decoded, rest, rfl, quoted, same, next⟩
        refine ⟨byte :: content, _, rest, rfl, .plain itself quoted, ?_, ?_⟩
        · rw [same, append_assoc]
          rfl
        · rw [next, length_cons]
          omega

theorem stringLoop_eq {content decoded : List UInt8} (quoted : Quoted content decoded) :
    ∀ {rounds seg offset : ℕ} {data front run : List UInt8},
      Collected src data seg offset front run (content ++ 34 :: back) →
      content.length < rounds →
      ∃ v : Text, v.bytes = data ++ (run ++ decoded) ∧
        stringLoop src rounds ⟨some data⟩ seg offset =
          .ok (v, offset + content.length + 1) := by
  induction quoted with
  | nil =>
    intro rounds seg offset data front run got enough
    obtain ⟨rounds, rfl⟩ := Nat.exists_eq_add_of_lt enough
    obtain ⟨v, same, returned⟩ := stringLoop_end got
    exact ⟨v, by rw [same, append_nil], returned⟩
  | @plain byte bytes decoded itself rest ih =>
    intro rounds seg offset data front run got enough
    cases rounds with
    | zero => cases enough
    | succ =>
      obtain ⟨v, same, returned⟩ := ih got.plain (Nat.lt_of_succ_lt_succ enough)
      refine ⟨v, by rw [same, append_assoc]; rfl, ?_⟩
      rw [stringLoop_plain got itself, returned, length_cons]
      congr 2
      omega
  | @escape seq bytes decoded point x rest ih =>
    intro rounds seg offset data front run got enough
    rw [length_cons, length_append] at enough
    rw [cons_append, append_assoc] at got
    cases rounds with
    | zero => cases enough
    | succ rounds =>
      have enough' : bytes.length < rounds := by omega
      obtain ⟨v, same, returned⟩ := ih (got.escape x) enough'
      refine ⟨v, by rw [same, nil_append, append_assoc, append_assoc], ?_⟩
      rw [stringLoop_escape got x, returned, length_cons, length_append]
      congr 2
      omega

theorem collected_start (cut : Cut src.bytes offset front (34 :: back)) :
    Collected src [] (offset + 1) (offset + 1) (front ++ [34]) [] back :=
  ⟨cut.next, boundary_behind cut (by decide), .nil, Nat.zero_le _, rfl⟩

/-- **What is parsed as a string is one.** -/
theorem parseString_ensures (cut : Cut src.bytes offset front (34 :: back)) :
    Ensures (parseString src offset) fun parsed => ∃ content rest,
      back = content ++ 34 :: rest ∧ Quoted content parsed.1.bytes ∧
        parsed.2 = offset + content.length + 2 := by
  unfold parseString
  rw [checked_next_bind cut (by omega)]
  refine (stringLoop_ensures (collected_start cut)).mono ?_
  rintro parsed ⟨content, decoded, rest, whole, quoted, same, next⟩
  rw [nil_append, nil_append] at same
  exact ⟨content, rest, whole, same ▸ quoted, by rw [next]; omega⟩

/-- **Every string of the grammar is parsed.** -/
theorem parseString_eq {content decoded : List UInt8}
    (cut : Cut src.bytes offset front (34 :: (content ++ 34 :: back)))
    (quoted : Quoted content decoded) :
    ∃ v : Text, v.bytes = decoded ∧
      parseString src offset = .ok (v, offset + content.length + 2) := by
  have size := cut.size
  simp only [length_cons, length_append] at size
  obtain ⟨v, same, returned⟩ := stringLoop_eq quoted (collected_start cut)
    (show content.length < src.byteLen - (offset + 1) by unfold Text.byteLen; omega)
  refine ⟨v, by simpa using same, ?_⟩
  unfold parseString newTextBuilder
  rw [checked_next_bind cut (by omega), returned]
  congr 2
  omega

end FoundationLang.Standard.JsonText
