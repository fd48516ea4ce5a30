/-
**The parts of arrays and objects of a JSON text.**

Arrays and objects are parsed by one loop over parts with commas between them. What is shown of the
loop is shown for every kind of part, and for every relation `kept` between the parts of the text and
what the loop keeps of them.
-/

import FoundationLang.Standard.JsonStrings

namespace FoundationLang.Standard.JsonText

open Library Outcome Json List

variable {src : Text} {offset : ℕ} {front back : List UInt8} {byte : UInt8}
variable {white parts : List UInt8} {close : UInt8}

/-! ### White space -/

theorem white_unique {white' rest rest' : List UInt8} (same : white ++ rest = white' ++ rest')
    (blank : White white) (blank' : White white') (stops : Stops isWhitespace rest)
    (stops' : Stops isWhitespace rest') : white = white' ∧ rest = rest' := by
  induction white generalizing white' with
  | nil =>
    cases white' with
    | nil => exact ⟨rfl, same⟩
    | cons byte =>
      rw [nil_append] at same
      rw [same, cons_append, stops_cons, isWhitespace_iff.mpr (blank' byte mem_cons_self)] at stops
      cases stops
  | cons byte white ih =>
    cases white' with
    | nil =>
      rw [nil_append] at same
      rw [← same, cons_append, stops_cons,
        isWhitespace_iff.mpr (blank byte mem_cons_self)] at stops'
      cases stops'
    | cons =>
      obtain ⟨rfl, same'⟩ := cons_eq_cons.mp same
      obtain ⟨rfl, rfl⟩ := ih same'
        (fun byte member => blank byte (mem_cons_of_mem _ member))
        fun byte member => blank' byte (mem_cons_of_mem _ member)
      exact ⟨rfl, rfl⟩

theorem white_append {white' : List UInt8} (blank : White white) (blank' : White white') :
    White (white ++ white') := by
  intro byte member
  rcases mem_append.mp member with member | member
  · exact blank byte member
  · exact blank' byte member

theorem white_nil : White [] := by
  intro byte member
  cases member

/-! ### Behind a part -/

theorem delimiter_ensures (cut : Cut src.bytes offset front back) :
    Ensures (delimiter src close.toNat offset) fun parsed => ∃ white rest, White white ∧
      (parsed.1 = true ∧ back = white ++ close :: rest ∧ parsed.2 = offset + white.length + 1 ∨
        parsed.1 = false ∧ ∃ white', White white' ∧ back = white ++ 44 :: (white' ++ rest) ∧
          parsed.2 = offset + white.length + 1 + white'.length) := by
  obtain ⟨white, rest, rfl, blank, _, skipped⟩ := skipWhitespace_spec cut
  have there := cut.move
  unfold delimiter
  rw [skipped, ok_bind]
  cases rest with
  | nil =>
    rw [if_pos (Nat.le_of_not_lt (at_end there))]
    exact ensures_err _
  | cons byte rest =>
    rw [if_neg (Nat.not_le_of_lt (inside there)), readByte_bind there,
      checked_next_bind there (by omega)]
    refine ensures_ite (fun same => ?_) fun _ => ensures_ite (fun _ => ?_) fun comma => ?_
    · obtain rfl : byte = close := UInt8.toNat_inj.mp same
      exact ensures_ok ⟨white, rest, blank, .inl ⟨rfl, rfl, rfl⟩⟩
    · rw [checkedSub_bind (by omega)]
      exact ensures_err _
    · obtain rfl : byte = 44 := UInt8.toNat_inj.mp (Decidable.of_not_not comma)
      obtain ⟨white', rest', rfl, blank', _, skipped'⟩ := skipWhitespace_spec there.next
      rw [skipped', ok_bind]
      exact ensures_ok ⟨white, rest', blank, .inr ⟨rfl, white', blank', rfl, rfl⟩⟩

theorem delimiter_close
    (cut : Cut src.bytes offset front (white ++ close :: back)) (blank : White white)
    (solid : isWhitespace close.toNat = false) :
    delimiter src close.toNat offset = .ok (true, offset + white.length + 1) := by
  have there := cut.move
  unfold delimiter
  rw [skipWhitespace_eq cut blank (stops_cons.mpr solid), ok_bind,
    if_neg (Nat.not_le_of_lt (inside there)), readByte_bind there,
    checked_next_bind there (by omega), if_pos rfl]

theorem delimiter_comma {white' : List UInt8}
    (cut : Cut src.bytes offset front (white ++ 44 :: (white' ++ back))) (blank : White white)
    (blank' : White white') (stops : Stops isWhitespace back) (noComma : close ≠ 44) :
    delimiter src close.toNat offset =
      .ok (false, offset + white.length + 1 + white'.length) := by
  have there := cut.move
  have noClose : ¬UInt8.toNat 44 = close.toNat := fun same => noComma (UInt8.toNat_inj.mp same).symm
  unfold delimiter
  rw [skipWhitespace_eq cut blank (stops_cons.mpr rfl), ok_bind,
    if_neg (Nat.not_le_of_lt (inside there)), readByte_bind there,
    checked_next_bind there (by omega), if_neg noClose,
    if_neg (show ¬UInt8.toNat 44 ≠ 44 by decide), skipWhitespace_eq there.next blank' stops]
  rfl

/-! ### What is parsed -/

section Sound

variable {α : Type} {parsePart : List α → ℕ → Outcome Error ((α × List α) × ℕ)}
  {part : List UInt8 → α → Prop} {kept : List α → List α → Prop} {stuck : Prop} {close : UInt8}

/-- One part was parsed, and is kept. -/
def PartParsed (part : List UInt8 → α → Prop) (kept : List α → List α → Prop) (members : List α)
    (offset : ℕ) (back : List UInt8) (parsed : (α × List α) × ℕ) : Prop :=
  ∃ white bytes rest, back = white ++ (bytes ++ rest) ∧ White white ∧ part bytes parsed.1.1 ∧
    kept (members ++ [parsed.1.1]) (parsed.1.1 :: parsed.1.2) ∧
    parsed.2 = offset + white.length + bytes.length

theorem partLoop_ensures
    (each : ∀ {parts ms white r offset back}, Leading (Padded part) parts ms →
      White white → kept ms r →
      Cut src.bytes offset (front ++ (parts ++ white)) back →
      EnsuresUnless stuck (parsePart r offset) (PartParsed part kept ms offset back))
    {k : ℕ} :
    ∀ {parts white : List UInt8} {ms r : List α} {offset : ℕ} {back : List UInt8},
      Leading (Padded part) parts ms → White white → kept ms r →
      Cut src.bytes offset (front ++ (parts ++ white)) back →
      EnsuresUnless stuck (partLoop parsePart src close.toNat k r offset) fun parsed =>
        ∃ body rest ms r, parts ++ (white ++ back) = body ++ close :: rest ∧
          Separated (Padded part) body ms ∧ kept ms r ∧ parsed.1 = r.reverse ∧
          parsed.2 = front.length + body.length + 1 := by
  induction k with
  | zero =>
    intro parts white ms r offset back _ _ _ _
    exact (ensures_err _).unless
  | succ k ih =>
    intro parts white ms r offset back leading blank keeps cut
    have start := cut.2
    unfold partLoop
    refine EnsuresUnless.bind (each leading blank keeps cut) ?_
    rintro ⟨⟨value, result'⟩, next⟩ ⟨white', bytes, rest, rfl, blank', holds, keeps', rfl⟩
    dsimp only at holds keeps' ⊢
    have there := cut.move.move
    refine EnsuresUnless.bind (delimiter_ensures there).unless ?_
    rintro ⟨done, behind⟩ ⟨after, rest', blank'', ⟨rfl, rfl, same⟩ | ⟨rfl, white'', blank''', rfl, same⟩⟩
    · -- The closing bracket follows.
      have padded : Padded part (white ++ white' ++ (bytes ++ after)) value :=
        ⟨white ++ white', bytes, after, rfl, white_append blank blank', blank'', holds⟩
      rw [if_pos rfl]
      refine (ensures_ok ⟨_, rest', _, _, ?_, .mk leading padded, keeps', rfl, ?_⟩).unless
      · simp only [append_assoc]
      · dsimp only at same ⊢
        simp only [length_append] at start ⊢
        omega
    · -- A comma follows, and then another part.
      have padded : Padded part (white ++ white' ++ (bytes ++ after)) value :=
        ⟨white ++ white', bytes, after, rfl, white_append blank blank', blank'', holds⟩
      have moved := there.move.next.move
      rw [if_neg Bool.false_ne_true]
      dsimp only at same ⊢
      rw [same]
      have again : front ++ (parts ++ white) ++ white' ++ bytes ++ after ++ [44] ++ white'' =
          front ++ (parts ++ (white ++ white' ++ (bytes ++ after) ++ [44]) ++ white'') := by
        simp only [append_assoc]
      rw [again] at moved
      refine (ih (leading.snoc padded) blank''' keeps' moved).mono ?_
      rintro _ ⟨body, rest, ms, r, whole, others⟩
      refine ⟨body, rest, ms, r, ?_, others⟩
      rw [← whole]
      simp only [append_assoc, cons_append, nil_append]

/-- **What is parsed between brackets are parts.** -/
theorem parseParts_ensures (cut : Cut src.bytes offset front (byte :: back))
    (empty : kept [] [])
    (each : ∀ {parts ms white result offset back}, Leading (Padded part) parts ms →
      White white → kept ms result →
      Cut src.bytes offset (front ++ byte :: (parts ++ white)) back →
      EnsuresUnless stuck (parsePart result offset) (PartParsed part kept ms offset back)) :
    EnsuresUnless stuck (parseParts parsePart src close.toNat offset) fun parsed =>
      ∃ body rest, back = body ++ close :: rest ∧ parsed.2 = offset + body.length + 2 ∧
        (White body ∧ parsed.1 = [] ∨ ∃ ms result, Separated (Padded part) body ms ∧
          kept ms result ∧ parsed.1 = result.reverse) := by
  have start := cut.2
  obtain ⟨white, rest, rfl, blank, _, skipped⟩ := skipWhitespace_spec cut.next
  have there := cut.next.move
  unfold parseParts
  rw [checked_next_bind cut (by omega), skipped, ok_bind]
  have loop : EnsuresUnless stuck
      (partLoop parsePart src close.toNat (src.byteLen + 1) [] (offset + 1 + white.length))
      fun parsed => ∃ body rest', white ++ rest = body ++ close :: rest' ∧
        parsed.2 = offset + body.length + 2 ∧
        (White body ∧ parsed.1 = [] ∨ ∃ ms result, Separated (Padded part) body ms ∧
          kept ms result ∧ parsed.1 = result.reverse) := by
    have each' : ∀ {parts ms white result offset back}, Leading (Padded part) parts ms →
        White white → kept ms result →
        Cut src.bytes offset (front ++ [byte] ++ (parts ++ white)) back →
        EnsuresUnless stuck (parsePart result offset)
          (PartParsed part kept ms offset back) := by
      intro parts ms white result offset back leading blank keeps cut
      rw [append_assoc] at cut
      exact each leading blank keeps cut
    refine (partLoop_ensures each' .nil blank empty there).mono ?_
    rintro parsed ⟨body, rest', ms, result, whole, separated, keeps, same, next⟩
    refine ⟨body, rest', whole, ?_, .inr ⟨ms, result, separated, keeps, same⟩⟩
    rw [next, length_append, start, length_singleton]
    omega
  cases rest with
  | nil =>
    rw [byteIs_nil there, ok_bind, if_neg Bool.false_ne_true]
    exact loop
  | cons x rest =>
    rw [byteIs_cons there, ok_bind]
    by_cases same : x = close
    · subst same
      rw [if_pos (beq_self_eq_true _), checked_next_bind there (by omega)]
      exact (ensures_ok ⟨white, rest, rfl, by dsimp only; omega, .inl ⟨blank, rfl⟩⟩).unless
    · have differs : ¬(x.toNat == close.toNat) = true := by
        simpa [UInt8.toNat_inj] using same
      rw [if_neg differs]
      exact loop

end Sound

/-! ### Parts that come next -/

section Complete

variable {α : Type} {parsePart : List α → ℕ → Outcome Error ((α × List α) × ℕ)} {rest : List UInt8}
  {part : List UInt8 → α → Prop} {kept : List α → List α → Prop} {close : UInt8} {all : List α}

/-- The first byte of a part is no white space, no comma and no bracket. -/
def Solid (part : List UInt8 → α → Prop) (close : UInt8) : Prop :=
  ∀ {bytes value}, part bytes value → ∃ first rest, bytes = first :: rest ∧
    isWhitespace first.toNat = false ∧ first ≠ close

/-- **Parts that come next are parsed**, in their places among all of them. -/
def PartsParse (source : Text) (parsePart : List α → ℕ → Outcome Error ((α × List α) × ℕ))
    (part : List UInt8 → α → Prop) (kept : List α → List α → Prop) (all : List α) : Prop :=
  ∀ {earlier value later result offset front bytes rest}, all = earlier ++ value :: later →
    kept earlier result → part bytes value → Cut source.bytes offset front (bytes ++ rest) →
    Stops inNumber rest → ∃ value' result',
      parsePart result offset = .ok ((value', result'), offset + bytes.length) ∧
        kept (earlier ++ [value]) (value' :: result')

theorem stops_inNumber (blank : White white) {mark : UInt8}
    (notIn : inNumber mark.toNat = false) : Stops inNumber (white ++ mark :: rest) := by
  cases white with
  | nil => exact stops_cons.mpr notIn
  | cons byte =>
    rw [cons_append, stops_cons]
    rcases blank byte mem_cons_self with rfl | rfl | rfl | rfl <;> rfl

/-- **The loop goes through parts with a comma behind each.** -/
theorem partLoop_leading (each : PartsParse src parsePart part kept all)
    (solid : Solid part close) (noComma : close ≠ 44) {ms : List α}
    (leading : Leading (Padded part) parts ms) :
    ∀ {white skipped tail rest front : List UInt8} {offset k : ℕ} {earlier later r : List α},
      all = earlier ++ (ms ++ later) → kept earlier r → White white →
      Stops isWhitespace rest → parts ++ (white ++ rest) = skipped ++ tail → White skipped →
      Stops isWhitespace tail → Cut src.bytes offset front (parts ++ (white ++ rest)) →
      ms.length < k → ∃ result', kept (earlier ++ ms) result' ∧
        partLoop parsePart src close.toNat k r (offset + skipped.length) =
          partLoop parsePart src close.toNat (k - ms.length) result'
            (offset + parts.length + white.length) := by
  induction leading with
  | nil =>
    intro white skipped tail rest front offset k earlier later r _ keeps blank stops same
      blank' stops' _ _
    rw [nil_append] at same
    obtain ⟨rfl, _⟩ := white_unique same blank blank' stops stops'
    exact ⟨r, by rwa [append_nil], rfl⟩
  | @cons bytes others v values x leading ih =>
    intro white skipped tail rest front offset k earlier later r whole keeps blank stops
      same blank' stops' cut enough
    obtain ⟨before, inner, after, rfl, blankBefore, blankAfter, holds⟩ := x
    simp only [append_assoc, cons_append] at same cut
    -- What was skipped is the white space in front of the part.
    obtain ⟨lead, tail', shape, notWhite, _⟩ := solid holds
    have stopsInner : Stops isWhitespace (inner ++ (after ++ 44 :: (others ++ (white ++ rest)))) := by
      rw [shape, cons_append]
      exact stops_cons.mpr notWhite
    obtain ⟨rfl, rfl⟩ := white_unique same blankBefore blank' stopsInner stops'
    -- The part, the comma and the white space behind it.
    obtain ⟨v', result', parsed, keeps'⟩ := each whole keeps holds cut.move
      (stops_inNumber blankAfter (show inNumber (UInt8.toNat 44) = false from rfl))
    obtain ⟨skipped', tail, same', blankSkipped, stopsTail, _⟩ := skipWhitespace_spec
      cut.move.move.move.next
    have delimited := cut.move.move
    rw [same'] at delimited
    have whole' : all = (earlier ++ [v]) ++ (values ++ later) := by
      rw [whole]
      simp
    obtain ⟨k, rfl⟩ : ∃ more, k = more + 1 := ⟨k - 1, by omega⟩
    rw [length_cons] at enough
    obtain ⟨result'', keeps'', later'⟩ := ih whole' keeps' blank stops same' blankSkipped
      stopsTail cut.move.move.move.next (show values.length < k by omega)
    refine ⟨result'', by rwa [append_assoc] at keeps'', ?_⟩
    conv_lhs => unfold partLoop
    rw [parsed, ok_bind]
    dsimp only
    rw [delimiter_comma delimited blankAfter blankSkipped stopsTail noComma, ok_bind]
    rw [if_neg Bool.false_ne_true, later', length_cons, Nat.add_sub_add_right]
    congr 1
    simp only [length_append, length_cons]
    omega

theorem parseParts_start {tail : List UInt8}
    (cut : Cut src.bytes offset front (byte :: (white ++ tail))) (blank : White white)
    (stops : Stops isWhitespace tail) (notClose : ∀ x ∈ tail.head?, x ≠ close) :
    parseParts parsePart src close.toNat offset =
      partLoop parsePart src close.toNat (src.byteLen + 1) [] (offset + 1 + white.length) := by
  have refused : Stops (· == close.toNat) tail := by
    intro x member
    simpa [UInt8.toNat_inj] using notClose x member
  unfold parseParts
  rw [checked_next_bind cut (by omega), skipWhitespace_eq cut.next blank stops, ok_bind,
    byteIs_false cut.next.move refused, ok_bind, if_neg Bool.false_ne_true]

theorem parseParts_empty (cut : Cut src.bytes offset front (byte :: (white ++ close :: back)))
    (blank : White white) (solid : isWhitespace close.toNat = false) :
    parseParts parsePart src close.toNat offset = .ok ([], offset + white.length + 2) := by
  have there := cut.next.move
  unfold parseParts
  rw [checked_next_bind cut (by omega), skipWhitespace_eq cut.next blank (stops_cons.mpr solid),
    ok_bind, byteIs_cons there, ok_bind, if_pos (beq_self_eq_true _), checked_next_bind there (by omega)]
  congr 2
  omega

section

variable (each : PartsParse src parsePart part kept all)
include each

theorem parseParts_leading
    (solid : Solid part close) (noComma : close ≠ 44) (empty : kept [] []) {ms later : List α}
    (leading : Leading (Padded part) parts ms) (whole : all = ms ++ later)
    (blank : White white) (stops : Stops isWhitespace rest)
    (notClose : ∀ x ∈ rest.head?, x ≠ close)
    (cut : Cut src.bytes offset front (byte :: (parts ++ (white ++ rest)))) :
    ∃ rounds result, kept ms result ∧ parseParts parsePart src close.toNat offset =
      partLoop parsePart src close.toNat (rounds + 1) result
        (offset + 1 + parts.length + white.length) := by
  obtain ⟨skipped, tail, same, blank', stops', _⟩ := skipWhitespace_spec cut.next
  have notClose' : ∀ x ∈ tail.head?, x ≠ close := by
    cases leading with
    | nil =>
      rw [nil_append] at same
      obtain ⟨_, rfl⟩ := white_unique same blank blank' stops stops'
      exact notClose
    | cons x =>
      obtain ⟨before, inner, after, rfl, blankBefore, _, holds⟩ := x
      obtain ⟨lead, rest', shape, notWhite, differs⟩ := solid holds
      rw [shape] at same
      simp only [append_assoc, cons_append] at same
      obtain ⟨_, rfl⟩ := white_unique same blankBefore blank' (stops_cons.mpr notWhite) stops'
      intro x member
      obtain rfl := Option.some.inj member
      exact differs
  have size := cut.size
  simp only [length_cons, length_append] at size
  have few := leading.length_le
  have enough : ms.length < src.byteLen + 1 := by
    unfold Text.byteLen
    omega
  obtain ⟨result, keeps, loop⟩ := partLoop_leading each solid noComma leading whole empty blank stops
    same blank' stops' cut.next enough
  refine ⟨src.byteLen - ms.length, result, keeps, ?_⟩
  have started := cut
  rw [same] at started
  rw [parseParts_start started blank' stops' notClose', loop, Nat.sub_add_comm (by omega)]

/-- **Parts that come next are parsed.** -/
theorem parseParts_eq (solid : Solid part close)
    (noComma : close ≠ 44) (notWhite : isWhitespace close.toNat = false)
    (notIn : inNumber close.toNat = false) (empty : kept [] []) {body : List UInt8}
    (separated : Separated (Padded part) body all)
    (cut : Cut src.bytes offset front (byte :: (body ++ close :: back))) :
    ∃ result, kept all result ∧ parseParts parsePart src close.toNat offset =
      .ok (result.reverse, offset + body.length + 2) := by
  obtain ⟨leading, before, inner, after, rfl, blankBefore, blankAfter, holds⟩ := separated
  rename_i parts ms v
  simp only [append_assoc] at cut
  obtain ⟨lead, rest, shape, notWhite', differs⟩ := solid holds
  have stops : Stops isWhitespace (inner ++ (after ++ close :: back)) := by
    rw [shape]
    exact stops_cons.mpr notWhite'
  have notClose : ∀ x ∈ (inner ++ (after ++ close :: back)).head?, x ≠ close := by
    rw [shape]
    intro x member
    obtain rfl := Option.some.inj member
    exact differs
  obtain ⟨rounds, result, keeps, started⟩ := parseParts_leading each solid noComma empty leading rfl
    blankBefore stops notClose cut
  have there := cut.next.move.move
  obtain ⟨v', result', parsed, keeps'⟩ := each rfl keeps holds there
    (stops_inNumber blankAfter notIn)
  refine ⟨v' :: result', keeps', ?_⟩
  rw [started]
  unfold partLoop
  rw [parsed, ok_bind]
  dsimp only
  rw [delimiter_close there.move blankAfter notWhite, ok_bind]
  rw [if_pos rfl]
  congr 2
  simp only [length_append]
  omega

/-- **A panic behind parts.** -/
theorem parseParts_panic
    (solid : Solid part close) (noComma : close ≠ 44) (empty : kept [] []) {ms later : List α}
    (leading : Leading (Padded part) parts ms) (whole : all = ms ++ later)
    (blank : White white) (stops : Stops isWhitespace rest)
    (notClose : ∀ x ∈ rest.head?, x ≠ close)
    (cut : Cut src.bytes offset front (byte :: (parts ++ (white ++ rest))))
    (stuck : ∀ result, kept ms result → ∃ reason,
      parsePart result (offset + 1 + parts.length + white.length) = .error (.panic reason)) :
    ∃ reason, parseParts parsePart src close.toNat offset = .error (.panic reason) := by
  obtain ⟨_, result, keeps, started⟩ := parseParts_leading each solid noComma empty leading whole
    blank stops notClose cut
  obtain ⟨reason, panics⟩ := stuck result keeps
  refine ⟨reason, ?_⟩
  rw [started]
  unfold partLoop
  rw [panics]
  rfl

end

end Complete

end FoundationLang.Standard.JsonText
