/-
**Bytes, white space, literals and numbers of a JSON text.**

What the scanning functions of the parser do at an offset, by what is in front of the offset and
behind it (`Cut`).
-/

import FoundationLang.Standard.JsonParser

namespace FoundationLang.Standard.JsonText

open Library Outcome Json List

variable {src : Text} {i : ℕ} {front back : List UInt8} {byte : UInt8} {accepts : ℕ → Bool}
variable {ε : Type} {expected : Text}

/-! ### Offsets and bytes -/

theorem offset_lt (cut : Cut src.bytes i front back) : i < 2 ^ 63 := by
  have := cut.size
  have := src.short
  omega

theorem inside (cut : Cut src.bytes i front (byte :: back)) : i < src.byteLen := by
  have size := cut.size
  rw [length_cons] at size
  unfold Text.byteLen
  omega

theorem at_end (cut : Cut src.bytes i front []) : ¬i < src.byteLen := by
  have size := cut.size
  unfold Text.byteLen
  simp at size
  omega

theorem readByte_bind {α : Type} (cut : Cut src.bytes i front (byte :: back))
    (next : ℕ → Outcome ε α) : (readByte src i >>= next) = next byte.toNat := by
  have found := cut.getElem?
  unfold readByte Text.byteAt
  rw [found]
  rfl

theorem checked_next (cut : Cut src.bytes i front back) {n : ℕ}
    (few : n ≤ 2 ^ 62) : (checked (i + n) : Outcome ε ℕ) = .ok (i + n) := by
  have := offset_lt cut
  exact checked_eq (by omega)

theorem checked_next_bind {α : Type} (cut : Cut src.bytes i front back) {n : ℕ}
    (few : n ≤ 2 ^ 62) (next : ℕ → Outcome ε α) :
    (checked (i + n) >>= next) = next (i + n) := by
  rw [checked_next cut few, ok_bind]

theorem byteIs_nil (cut : Cut src.bytes i front []) (accepts : ℕ → Bool) :
    byteIs src accepts i = .ok false := by
  unfold byteIs
  rw [if_neg (at_end cut)]

theorem byteIs_cons (cut : Cut src.bytes i front (byte :: back)) (accepts : ℕ → Bool) :
    byteIs src accepts i = .ok (accepts byte.toNat) := by
  unfold byteIs
  rw [if_pos (inside cut), readByte_bind cut]

/-- What follows does not start with such a byte. -/
def Stops (accepts : ℕ → Bool) (rest : List UInt8) : Prop :=
  ∀ byte ∈ rest.head?, accepts byte.toNat = false

theorem stops_nil (accepts : ℕ → Bool) : Stops accepts [] := by
  intro byte mem
  cases mem

theorem stops_cons : Stops accepts (byte :: back) ↔
    accepts byte.toNat = false := by
  simp [Stops]

theorem byteIs_false (cut : Cut src.bytes i front back)
    (stops : Stops accepts back) : byteIs src accepts i = .ok false := by
  cases back with
  | nil => exact byteIs_nil cut accepts
  | cons => rw [byteIs_cons cut, stops_cons.mp stops]

/-! ### Runs of bytes -/

/-- **A loop over bytes skips a run of them up to another byte.** -/
theorem skipWhile_eq {run rest : List UInt8}
    (each : ∀ byte ∈ run, accepts byte.toNat = true) (stops : Stops accepts rest) :
    ∀ {i k : ℕ} {front : List UInt8}, Cut src.bytes i front (run ++ rest) →
      run.length ≤ k →
      skipWhile src accepts i k = .ok (i + run.length) := by
  induction run with
  | nil =>
    intro i k front cut _
    cases k with
    | zero => rfl
    | succ =>
      unfold skipWhile
      cases rest with
      | nil => rw [if_neg (at_end cut)]; rfl
      | cons =>
        rw [if_pos (inside cut), readByte_bind cut, stops_cons.mp stops]
        rfl
  | cons byte run ih =>
    intro i k front cut enough
    cases k with
    | zero => simp at enough
    | succ =>
      have ran := each byte mem_cons_self
      have later := ih (fun y mem => each y (mem_cons_of_mem _ mem))
        cut.next (Nat.le_of_succ_le_succ enough)
      unfold skipWhile
      rw [if_pos (inside cut), readByte_bind cut, if_pos ran,
        checked_next_bind cut (by omega), later, length_cons, Nat.add_right_comm]
      rfl

theorem exists_run (accepts : ℕ → Bool) (back : List UInt8) :
    ∃ run rest, back = run ++ rest ∧ (∀ byte ∈ run, accepts byte.toNat = true) ∧
      Stops accepts rest := by
  refine ⟨back.takeWhile fun byte => accepts byte.toNat, back.dropWhile fun byte =>
    accepts byte.toNat, takeWhile_append_dropWhile.symm, ?_, ?_⟩
  · intro byte mem
    exact all_eq_true.mp all_takeWhile byte mem
  · intro byte mem
    have refused := List.head?_dropWhile_not (fun byte : UInt8 => accepts byte.toNat) back
    rw [Option.mem_def.mp mem] at refused
    simpa using refused

theorem isWhitespace_iff : isWhitespace byte.toNat = true ↔
    byte = 32 ∨ byte = 9 ∨ byte = 10 ∨ byte = 13 := by
  simp [isWhitespace, ← UInt8.toNat_inj, or_assoc]

theorem skipWhitespace_eq {white rest : List UInt8}
    (cut : Cut src.bytes i front (white ++ rest)) (blank : White white)
    (stops : Stops isWhitespace rest) :
    skipWhitespace src i = .ok (i + white.length) := by
  refine skipWhile_eq (fun byte mem => isWhitespace_iff.mpr (blank byte mem)) stops cut ?_
  have size := cut.size
  rw [length_append] at size
  unfold Text.byteLen
  omega

/-- **The white space that comes next is skipped.** -/
theorem skipWhitespace_spec (cut : Cut src.bytes i front back) :
    ∃ white rest, back = white ++ rest ∧ White white ∧ Stops isWhitespace rest ∧
      skipWhitespace src i = .ok (i + white.length) := by
  obtain ⟨white, rest, rfl, each, stops⟩ := exists_run isWhitespace back
  have blank : White white := fun byte mem => isWhitespace_iff.mp (each byte mem)
  exact ⟨white, rest, rfl, blank, stops, skipWhitespace_eq cut blank stops⟩

theorem isDigit_iff : isDigit byte.toNat = true ↔ Digit byte := by
  simp [isDigit, Digit]

theorem skipDigits_eq {run rest : List UInt8} (cut : Cut src.bytes i front (run ++ rest))
    (ds : ∀ byte ∈ run, Digit byte) (stops : Stops isDigit rest) :
    skipDigits src i = .ok (i + run.length) := by
  refine skipWhile_eq (fun byte mem => isDigit_iff.mpr (ds byte mem)) stops cut ?_
  have size := cut.size
  rw [length_append] at size
  unfold Text.byteLen
  omega

theorem skipDigits_spec (cut : Cut src.bytes i front back) :
    ∃ run rest, back = run ++ rest ∧ (∀ byte ∈ run, Digit byte) ∧ Stops isDigit rest ∧
      skipDigits src i = .ok (i + run.length) := by
  obtain ⟨run, rest, rfl, each, stops⟩ := exists_run isDigit back
  have ds : ∀ byte ∈ run, Digit byte := fun byte mem => isDigit_iff.mp (each byte mem)
  exact ⟨run, rest, rfl, ds, stops, skipDigits_eq cut ds stops⟩

/-! ### Slices -/

/-- **A slice between two boundaries is read.** -/
theorem readSlice_eq {vs : List UInt8}
    (cut : Cut src.bytes i front (vs ++ back)) (x : Boundary (vs ++ back))
    (last : Boundary back) :
    ∃ value : Text, value.bytes = vs ∧ Utf8 vs ∧
      (readSlice src i (i + vs.length) : Outcome ε Text) = .ok value := by
  obtain ⟨value, rfl, sliced⟩ := Text.slice_cut cut x last
  refine ⟨value, rfl, value.utf8, ?_⟩
  unfold readSlice
  rw [sliced]

/-- **There is a panic when a slice would cut a code point.** -/
theorem readSlice_panic {vs : List UInt8}
    (cut : Cut src.bytes i front (vs ++ back)) (last : ¬Boundary back) :
    (readSlice src i (i + vs.length) : Outcome ε Text) =
      panic (.message "JSON parser slice invariant failed") := by
  have size := cut.size
  rw [length_append] at size
  have inBounds : i ≤ i + vs.length ∧ i ≤ src.byteLen ∧
      i + vs.length ≤ src.byteLen := by
    unfold Text.byteLen
    omega
  have unbounded : ¬(boundary src.bytes i = true ∧
      boundary src.bytes (i + vs.length) = true) := by
    rintro ⟨_, bounded⟩
    exact last ((boundary_iff_cut cut.move).mp bounded)
  unfold readSlice Text.slice
  rw [dif_pos inBounds, dif_neg unbounded]
  rfl

/-! ### Literals -/

/-- A literal, and when the parser panics at it. -/
theorem consume_eq (cut : Cut src.bytes i front (expected.bytes ++ back))
    (x : Boundary (expected.bytes ++ back)) (last : Boundary back) :
    consume src expected i = .ok (some (i + expected.byteLen)) := by
  obtain ⟨v, same, _, sliced⟩ := @readSlice_eq _ _ _ _ Error _ cut x last
  have size := cut.size
  have short := offset_lt cut
  have small := expected.short
  rw [length_append] at size
  have fits : ¬i + expected.byteLen > src.byteLen := by
    unfold Text.byteLen
    omega
  have equal : v = expected := Text.ext same
  have room : i + expected.byteLen < 2 ^ 64 := by
    unfold Text.byteLen
    omega
  unfold consume
  rw [checked_bind room, if_neg fits]
  unfold Text.byteLen
  rw [sliced, ok_bind, if_pos (Text.equal_iff.mpr equal)]

/-- **A literal that does not come next**: the parser panics when it cuts a code point. -/
theorem consume_ensures {x : UInt8}
    (cut : Cut src.bytes i front (x :: back)) (ascii : x.toNat ≤ 0x7f)
    (filled : 0 < expected.byteLen) :
    EnsuresUnless (¬Boundary ((x :: back).drop expected.byteLen))
      (consume src expected i) fun result =>
        ∀ next ∈ result, ∃ rest, x :: back = expected.bytes ++ rest ∧
          next = i + expected.byteLen := by
  have size := cut.size
  have short := offset_lt cut
  have small := expected.short
  have room : i + expected.byteLen < 2 ^ 64 := by
    unfold Text.byteLen
    omega
  unfold consume
  rw [checked_bind room]
  by_cases fits : i + expected.byteLen > src.byteLen
  · rw [if_pos fits]
    refine (ensures_ok ?_).unless
    rintro next ⟨⟩
  rw [if_neg fits]
  -- The bytes that are compared with the literal, and what is behind them.
  obtain ⟨values, rest, whole, length⟩ : ∃ values rest, x :: back = values ++ rest ∧
      values.length = expected.byteLen := by
    refine ⟨(x :: back).take expected.byteLen, (x :: back).drop expected.byteLen,
      (take_append_drop _ _).symm, ?_⟩
    unfold Text.byteLen at fits
    rw [length_take, Nat.min_eq_left (by unfold Text.byteLen; omega)]
  rw [whole] at cut ⊢
  rw [← length, drop_left]
  by_cases last : Boundary rest
  · have start : Boundary (values ++ rest) := by
      rw [← whole]
      exact boundary_ascii ascii
    obtain ⟨v, same, _, sliced⟩ := @readSlice_eq _ _ _ _ Error _ cut start last
    rw [sliced, ok_bind]
    refine (ensures_ok ?_).unless
    intro next mem
    by_cases equal : v.equal expected = true
    · rw [if_pos equal] at mem
      obtain rfl := Text.equal_iff.mp equal
      exact ⟨rest, by rw [same], (Option.some.inj mem).symm⟩
    · rw [if_neg equal] at mem
      cases mem
  · rw [readSlice_panic cut last]
    exact ⟨fun _ _ => last, by rintro _ ⟨⟩⟩

theorem consume_panic
    (cut : Cut src.bytes i front back)
    (inner : ¬Boundary (back.drop expected.byteLen)) :
    consume src expected i = panic (.message "JSON parser slice invariant failed") := by
  have longer : expected.byteLen ≤ back.length := by
    by_contra less
    rw [drop_eq_nil_of_le (Nat.le_of_not_le less)] at inner
    exact inner boundary_nil
  have size := cut.size
  have short := offset_lt cut
  have small := expected.short
  have room : i + expected.byteLen < 2 ^ 64 := by
    unfold Text.byteLen
    omega
  have fits : ¬i + expected.byteLen > src.byteLen := by
    have : src.byteLen = src.bytes.length := rfl
    omega
  rw [← take_append_drop expected.byteLen back] at cut
  have sliced := @readSlice_panic _ _ _ _ Error _ cut inner
  rw [length_take, Nat.min_eq_left longer] at sliced
  unfold consume
  rw [checked_bind room, if_neg fits, sliced]
  rfl

/-! ### Numbers -/

theorem numberSign_ensures (cut : Cut src.bytes i front (byte :: back)) :
    Ensures (numberSign src i) fun next =>
      ∃ sign x rest, byte :: back = sign ++ x :: rest ∧ Sign sign ∧
        next = i + sign.length := by
  unfold numberSign
  rw [readByte_bind cut]
  refine ensures_ite (fun minus => ?_) fun _ => ensures_ok ⟨[], byte, back, rfl, .none, rfl⟩
  rw [checked_next_bind cut (by omega)]
  obtain rfl : byte = 45 := UInt8.toNat_inj.mp minus
  cases back with
  | nil =>
    rw [if_pos (Nat.le_of_not_lt (at_end cut.next))]
    exact ensures_err _
  | cons x rest =>
    rw [if_neg (Nat.not_le_of_lt (inside cut.next))]
    exact ensures_ok ⟨[45], x, rest, rfl, .minus, rfl⟩

theorem numberSign_eq {sign : List UInt8} {x : UInt8}
    (cut : Cut src.bytes i front (sign ++ x :: back)) (signed : Sign sign)
    (digit : Digit x) : numberSign src i = .ok (i + sign.length) := by
  unfold numberSign
  cases signed with
  | none =>
    have other : x.toNat ≠ 45 := by
      obtain ⟨least, _⟩ := digit
      omega
    rw [readByte_bind cut, if_neg other]
    rfl
  | minus =>
    rw [readByte_bind cut, if_pos (show UInt8.toNat 45 = 45 from rfl),
      checked_next_bind cut (by omega), if_neg (Nat.not_le_of_lt (inside cut.next))]
    rfl

theorem numberWhole_ensures (cut : Cut src.bytes i front (byte :: back)) :
    Ensures (numberWhole src i) fun next =>
      ∃ whole rest, byte :: back = whole ++ rest ∧ Whole whole ∧ next = i + whole.length := by
  unfold numberWhole
  rw [readByte_bind cut]
  refine ensures_ite (fun zero => ?_) fun _ => ensures_ite (fun lead => ?_) fun _ => ensures_err _
  · rw [checked_next_bind cut (by omega)]
    obtain rfl : byte = 48 := UInt8.toNat_inj.mp zero
    obtain ⟨digit, read⟩ : ∃ digit, byteIs src isDigit (i + 1) = .ok digit := by
      cases back with
      | nil => exact ⟨_, byteIs_nil cut.next _⟩
      | cons => exact ⟨_, byteIs_cons cut.next _⟩
    rw [read, ok_bind]
    exact ensures_ite (fun _ => ensures_err _) fun _ => ensures_ok ⟨[48], back, rfl, .zero, rfl⟩
  · rw [checked_next_bind cut (by omega)]
    obtain ⟨run, rest, rfl, ds, _, skipped⟩ := skipDigits_spec cut.next
    rw [skipped]
    refine ensures_ok ⟨byte :: run, rest, rfl, .digits lead ds, ?_⟩
    rw [length_cons, Nat.add_assoc, Nat.add_comm 1]

theorem numberWhole_eq {whole : List UInt8}
    (cut : Cut src.bytes i front (whole ++ back)) (integer : Whole whole)
    (stops : Stops isDigit back) :
    numberWhole src i = .ok (i + whole.length) := by
  unfold numberWhole
  cases integer with
  | zero =>
    rw [readByte_bind cut, if_pos (show UInt8.toNat 48 = 48 from rfl),
      checked_next_bind cut (by omega), byteIs_false cut.next stops, ok_bind]
    rfl
  | @digits x rest lead more =>
    have notZero : x.toNat ≠ 48 := by omega
    rw [readByte_bind cut, if_neg notZero, if_pos lead, checked_next_bind cut (by omega),
      skipDigits_eq cut.next more stops, length_cons, Nat.add_assoc, Nat.add_comm 1]

theorem numberDigits_ensures (cut : Cut src.bytes i front back) :
    Ensures (numberDigits src i) fun next =>
      ∃ run rest, back = run ++ rest ∧ Digits run ∧ next = i + run.length := by
  unfold numberDigits
  cases back with
  | nil =>
    rw [byteIs_nil cut, ok_bind]
    exact ensures_err _
  | cons =>
    rw [byteIs_cons cut, ok_bind]
    refine ensures_ite (fun _ => ensures_err _) fun digit => ?_
    rw [Bool.not_eq_true', Bool.not_eq_false] at digit
    obtain ⟨run, rest, whole, ds, stops, skipped⟩ := skipDigits_spec cut
    rw [skipped]
    refine ensures_ok ⟨run, rest, whole, ⟨?_, ds⟩, rfl⟩
    rintro rfl
    rw [nil_append] at whole
    rw [← whole, stops_cons, digit] at stops
    cases stops

theorem numberDigits_eq {run : List UInt8} (cut : Cut src.bytes i front (run ++ back))
    (ds : Digits run) (stops : Stops isDigit back) :
    numberDigits src i = .ok (i + run.length) := by
  have skipped := skipDigits_eq cut ds.2 stops
  obtain ⟨_, _, rfl, digit, _⟩ := ds.cons
  have read := byteIs_cons cut isDigit
  rw [isDigit_iff.mpr digit] at read
  unfold numberDigits
  rw [read, ok_bind]
  exact skipped

theorem numberFraction_ensures (cut : Cut src.bytes i front back) :
    Ensures (numberFraction src i) fun next =>
      ∃ fraction rest, back = fraction ++ rest ∧ Fraction fraction ∧
        next = i + fraction.length := by
  unfold numberFraction
  cases back with
  | nil =>
    rw [byteIs_nil cut, ok_bind]
    exact ensures_ok ⟨[], [], rfl, .none, rfl⟩
  | cons byte =>
    rw [byteIs_cons cut, ok_bind]
    refine ensures_ite (fun point => ?_) fun _ => ensures_ok ⟨[], _, rfl, .none, rfl⟩
    obtain rfl : byte = 46 := UInt8.toNat_inj.mp (beq_iff_eq.mp point)
    rw [checked_next_bind cut (by omega)]
    refine (numberDigits_ensures cut.next).mono ?_
    rintro _ ⟨run, rest, rfl, ds, rfl⟩
    refine ⟨46 :: run, rest, rfl, .digits ds, ?_⟩
    rw [length_cons, Nat.add_assoc, Nat.add_comm 1]

theorem numberFraction_eq {fraction : List UInt8}
    (cut : Cut src.bytes i front (fraction ++ back)) (decimals : Fraction fraction)
    (stops : Stops isDigit back) (noPoint : Stops (· == 46) back) :
    numberFraction src i = .ok (i + fraction.length) := by
  unfold numberFraction
  cases decimals with
  | none =>
    rw [byteIs_false cut noPoint, ok_bind]
    rfl
  | @digits run digits =>
    have read := byteIs_cons cut (· == 46)
    rw [show ((46 : UInt8).toNat == 46) = true from rfl] at read
    rw [read, ok_bind, if_pos rfl, checked_next_bind cut (by omega),
      numberDigits_eq cut.next digits stops, length_cons, Nat.add_assoc, Nat.add_comm 1]

theorem numberExponent_ensures (cut : Cut src.bytes i front back) :
    Ensures (numberExponent src i) fun next =>
      ∃ exponent rest, back = exponent ++ rest ∧ Exponent exponent ∧
        next = i + exponent.length := by
  unfold numberExponent
  cases back with
  | nil =>
    rw [byteIs_nil cut, ok_bind]
    exact ensures_ok ⟨[], [], rfl, .none, rfl⟩
  | cons mark back =>
    rw [byteIs_cons cut, ok_bind]
    refine ensures_ite (fun mark' => ?_) fun _ => ensures_ok ⟨[], _, rfl, .none, rfl⟩
    have letter : mark = 101 ∨ mark = 69 := by
      simpa [← UInt8.toNat_inj] using mark'
    rw [checked_next_bind cut (by omega)]
    -- The sign, and where the digits are.
    obtain ⟨sign, rest, digitsAt, whole, signed, read, moved⟩ : ∃ (sign rest : List UInt8)
        (answer : Bool), back = sign ++ rest ∧ ExponentSign sign ∧
          byteIs src (fun byte => byte == 43 || byte == 45) (i + 1) = .ok answer ∧
          (if answer then i + 1 + 1 else i + 1) = i + 1 + sign.length := by
      cases back with
      | nil => exact ⟨[], [], false, rfl, .none, byteIs_nil cut.next _, rfl⟩
      | cons y rest =>
        have seen := byteIs_cons cut.next fun byte => byte == 43 || byte == 45
        by_cases plus : y = 43
        · subst plus
          exact ⟨[43], rest, true, rfl, .plus, seen, rfl⟩
        by_cases minus : y = 45
        · subst minus
          exact ⟨[45], rest, true, rfl, .minus, seen, rfl⟩
        · have neither : (y.toNat == 43 || y.toNat == 45) = false := by
            simp only [← UInt8.toNat_inj] at plus minus
            simpa using ⟨plus, minus⟩
          rw [neither] at seen
          exact ⟨[], y :: rest, false, rfl, .none, seen, rfl⟩
    subst whole
    have length : sign.length ≤ 1 := by
      cases signed <;> simp
    have later := cut.next.move
    rw [read, ok_bind, moved, checked_next_bind cut.next (by omega)]
    refine (numberDigits_ensures later).mono ?_
    rintro next ⟨run, rest, rfl, ds, rfl⟩
    refine ⟨mark :: (sign ++ run), rest, by simp, .digits letter signed ds, ?_⟩
    simp only [length_cons, length_append]
    omega

theorem numberExponent_eq {exponent : List UInt8}
    (cut : Cut src.bytes i front (exponent ++ back)) (power : Exponent exponent)
    (stops : Stops isDigit back) (noLetter : Stops (fun byte => byte == 101 || byte == 69) back) :
    numberExponent src i = .ok (i + exponent.length) := by
  unfold numberExponent
  cases power with
  | none =>
    rw [byteIs_false cut noLetter, ok_bind]
    rfl
  | @digits mark sign run letter signed digits =>
    have read := byteIs_cons cut fun byte => byte == 101 || byte == 69
    have yes : (mark.toNat == 101 || mark.toNat == 69) = true := by
      simpa [← UInt8.toNat_inj] using letter
    have afterMark : Cut src.bytes (i + 1) (front ++ [mark]) (sign ++ (run ++ back)) := by
      rw [← append_assoc]
      exact cut.next
    obtain ⟨answer, read', moved⟩ : ∃ answer : Bool,
        byteIs src (fun byte => byte == 43 || byte == 45) (i + 1) = .ok answer ∧
          (if answer then i + 1 + 1 else i + 1) = i + 1 + sign.length := by
      cases signed with
      | none =>
        obtain ⟨x, rest, rfl, digit, _⟩ := digits.cons
        have seen := byteIs_cons afterMark fun byte => byte == 43 || byte == 45
        have neither : (x.toNat == 43 || x.toNat == 45) = false := by
          obtain ⟨least, _⟩ := digit
          simp
          omega
        rw [neither] at seen
        exact ⟨false, seen, rfl⟩
      | plus => exact ⟨true, byteIs_cons afterMark _, rfl⟩
      | minus => exact ⟨true, byteIs_cons afterMark _, rfl⟩
    have length : sign.length ≤ 1 := by
      cases signed <;> simp
    rw [read, ok_bind, if_pos yes, checked_next_bind cut (by omega), read', ok_bind, moved,
      checked_next_bind cut.next (by omega), numberDigits_eq afterMark.move digits stops]
    simp only [length_cons, length_append]
    congr 1
    omega

theorem boundary_behind_run {run : List UInt8} (cut : Cut src.bytes i front (run ++ back))
    (ascii : ∀ byte ∈ run, byte.toNat ≤ 0x7f) (filled : run ≠ []) : Boundary back := by
  obtain ⟨_, last, rfl⟩ := (eq_nil_or_concat run).resolve_left filled
  rw [concat_eq_append, append_assoc] at cut
  exact boundary_behind cut.move (ascii last (by simp))

theorem numberSlice_eq {spelling : List UInt8}
    (cut : Cut src.bytes i front (spelling ++ back)) (n : Number spelling) :
    ∃ value : Text, value.bytes = spelling ∧
      (readSlice src i (i + spelling.length) : Outcome ε Text) = .ok value := by
  obtain ⟨x, _, shape, _⟩ := n.cons
  have start : Boundary (spelling ++ back) := by
    rw [shape]
    exact boundary_ascii (n.ascii x (by rw [shape]; exact mem_cons_self))
  have stop : Boundary back := boundary_behind_run cut n.ascii (by rw [shape]; simp)
  obtain ⟨value, same, _, sliced⟩ := @readSlice_eq _ _ _ _ ε _ cut start stop
  exact ⟨value, same, sliced⟩

/-- **What is parsed as a number is one.** -/
theorem parseNumber_ensures (cut : Cut src.bytes i front (byte :: back)) :
    Ensures (parseNumber src i) fun result => ∃ (spelling rest : List UInt8) (v : Text),
      byte :: back = spelling ++ rest ∧ Number spelling ∧ v.bytes = spelling ∧
        result = (.number v, i + spelling.length) := by
  unfold parseNumber
  refine Ensures.bind (numberSign_ensures cut) ?_
  rintro _ ⟨sign, x, rest, whole, signed, rfl⟩
  rw [whole] at cut ⊢
  refine Ensures.bind (numberWhole_ensures cut.move) ?_
  rintro _ ⟨integer, rest', whole', integral, rfl⟩
  rw [whole'] at cut ⊢
  refine Ensures.bind (numberFraction_ensures cut.move.move) ?_
  rintro _ ⟨fraction, rest'', rfl, decimals, rfl⟩
  refine Ensures.bind (numberExponent_ensures cut.move.move.move) ?_
  rintro _ ⟨exponent, rest, rfl, power, rfl⟩
  have number := Number.mk signed integral decimals power
  have again : sign ++ (integer ++ (fraction ++ (exponent ++ rest))) =
      (sign ++ (integer ++ (fraction ++ exponent))) ++ rest := by
    simp only [append_assoc]
  have sizes : i + sign.length + integer.length + fraction.length + exponent.length =
      i + (sign ++ (integer ++ (fraction ++ exponent))).length := by
    simp only [length_append]
    omega
  rw [again] at cut ⊢
  obtain ⟨v, same, sliced⟩ := @numberSlice_eq _ _ _ _ Error _ cut number
  rw [sizes, sliced, ok_bind]
  exact ensures_ok ⟨_, rest, v, rfl, number, same, rfl⟩

/-- The bytes that a number goes on with. -/
def inNumber (byte : ℕ) : Bool :=
  isDigit byte || byte == 46 || (byte == 101 || byte == 69)

theorem Stops.mono {accepts accepts' : ℕ → Bool} (stops : Stops accepts back)
    (fewer : ∀ byte, accepts' byte = true → accepts byte = true) : Stops accepts' back := by
  intro byte mem
  have refused := stops byte mem
  by_contra ran
  rw [fewer _ (by simpa using ran)] at refused
  cases refused

/-- **A number that comes next is parsed**, when nothing follows with which it goes on. -/
theorem parseNumber_eq {spelling : List UInt8}
    (cut : Cut src.bytes i front (spelling ++ back)) (n : Number spelling)
    (stops : Stops inNumber back) :
    ∃ v : Text, v.bytes = spelling ∧
      parseNumber src i = .ok (.number v, i + spelling.length) := by
  obtain ⟨v, same, sliced⟩ := @numberSlice_eq _ _ _ _ Error _ cut n
  refine ⟨v, same, ?_⟩
  obtain @⟨sign, integer, fraction, exponent, signed, integral, decimals, power⟩ := n
  simp only [append_assoc] at cut
  have noDigit : Stops isDigit back := stops.mono fun byte ran => by simp [inNumber, ran]
  have noPoint : Stops (· == 46) back := stops.mono fun byte ran => by
    rw [inNumber, ran, Bool.or_true, Bool.true_or]
  have noLetter : Stops (fun byte => byte == 101 || byte == 69) back :=
    stops.mono fun byte ran => by rw [inNumber, ran, Bool.or_true]
  -- A part that is there starts with a byte that does not belong to the part before it.
  have pointless : Stops (· == 46) (exponent ++ back) := by
    cases power with
    | none => exact noPoint
    | digits letter =>
      rw [cons_append, stops_cons]
      rcases letter with rfl | rfl <;> rfl
  have digitless : Stops isDigit (exponent ++ back) := by
    cases power with
    | none => exact noDigit
    | digits letter =>
      rw [cons_append, stops_cons]
      rcases letter with rfl | rfl <;> rfl
  have digitless' : Stops isDigit (fraction ++ (exponent ++ back)) := by
    cases decimals with
    | none => exact digitless
    | digits =>
      rw [cons_append, stops_cons]
      rfl
  obtain ⟨first, rest, shape, digit⟩ : ∃ first rest, integer = first :: rest ∧ Digit first := by
    cases integral with
    | zero => exact ⟨48, [], rfl, by decide⟩
    | @digits first rest lead => exact ⟨first, rest, rfl, by omega, lead.2⟩
  have signCut := cut
  rw [shape] at signCut
  have sizes : i + sign.length + integer.length + fraction.length + exponent.length =
      i + (sign ++ (integer ++ (fraction ++ exponent))).length := by
    simp only [length_append]
    omega
  unfold parseNumber
  rw [numberSign_eq signCut signed digit, ok_bind, numberWhole_eq cut.move integral digitless',
    ok_bind, numberFraction_eq cut.move.move decimals digitless pointless, ok_bind,
    numberExponent_eq cut.move.move.move power noDigit noLetter, ok_bind, sizes, sliced]
  rfl

end FoundationLang.Standard.JsonText
