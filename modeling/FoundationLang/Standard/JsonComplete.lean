/-
**What the parser of `std.json` accepts.**

Every document is parsed, into a value that is the same up to the order of members
(`parse_of_document`). Where the parser is stuck it panics (`parse_panics`): the parts in front of
such a place are parsed, as in a document.
-/

import FoundationLang.Standard.JsonSound

namespace FoundationLang.Standard.JsonText

open Library Outcome Json List

variable {src : Text} {offset levels : ℕ} {front back : List UInt8} {byte : UInt8}

/-! ### Tokens -/

theorem layer_first {inner : List UInt8 → Value → Prop} {bytes : List UInt8} {v : Value}
    (layer : Layer textReading inner bytes v) :
    ∃ x rest, bytes = x :: rest ∧ isWhitespace x.toNat = false ∧ x ≠ 93 := by
  cases layer with
  | null | yes | no | text _ | emptyArray _ | array _ | emptyObject _ | object _ _ _ =>
    exact ⟨_, _, rfl, rfl, by decide⟩
  | number form =>
    obtain ⟨x, rest, rfl, rfl | ⟨least, most⟩⟩ := form.cons
    · exact ⟨45, rest, rfl, rfl, by decide⟩
    · refine ⟨x, rest, rfl, ?_, ?_⟩
      · simp only [isWhitespace, Bool.or_eq_false_iff, beq_eq_false_iff_ne]
        omega
      · rintro rfl
        exact absurd most (by decide)

theorem solid_spells (levels : ℕ) : Solid (Spells textReading levels) 93 := by
  intro bytes v spells
  cases levels with
  | zero => exact spells.elim
  | succ => exact layer_first spells

theorem solid_member (inner : List UInt8 → Value → Prop) :
    Solid (Member textReading inner) 125 := by
  rintro _ _ ⟨_, _, _, _, rfl, _⟩
  exact ⟨34, _, rfl, rfl, by decide⟩

theorem tryLiteral_eq {literal : Text}
    (all : (literal.bytes.all fun byte => byte.toNat ≤ 0x7f) = true) {x : UInt8}
    {rest : List UInt8} (shape : literal.bytes = x :: rest)
    (cut : Cut src.bytes offset front (literal.bytes ++ back)) :
    tryLiteral src literal (x.toNat == x.toNat) offset =
      .ok (some (offset + literal.byteLen)) := by
  have ascii : ∀ byte ∈ literal.bytes, byte.toNat ≤ 0x7f := fun byte member =>
    of_decide_eq_true (all_eq_true.mp all byte member)
  have start : Boundary (literal.bytes ++ back) := by
    rw [shape]
    exact boundary_ascii (ascii x (by rw [shape]; exact mem_cons_self))
  have stop : Boundary back := boundary_behind_run cut ascii (by rw [shape]; simp)
  unfold tryLiteral
  rw [if_pos (beq_self_eq_true _), consume_eq cut start stop]

theorem parseKey_eq {content : List UInt8} {key : Text} {fs : List (Text × Value)}
    (cut : Cut src.bytes offset front (34 :: (content ++ 34 :: back)))
    (quoted : Quoted content key.bytes) (fresh : key ∉ fs.map Prod.fst) :
    parseKey src fs offset =
      .ok ((key, fs.reverse), offset + content.length + 2) := by
  obtain ⟨v, same, parsed⟩ := parseString_eq cut quoted
  obtain rfl := Text.ext same
  obtain ⟨found, turned⟩ := hasKey_spec fs v
  have missing : ¬(hasKey fs v).1 = true := fun yes => fresh (found.mp yes)
  unfold parseKey
  rw [if_neg (Nat.not_le_of_lt (inside cut)), readByte_bind cut,
    if_neg (show ¬UInt8.toNat 34 ≠ 34 by decide), parsed, ok_bind]
  dsimp only
  rw [if_neg missing, turned]

theorem parseColon_eq {white white' : List UInt8}
    (cut : Cut src.bytes offset front (white ++ 58 :: (white' ++ back))) (blank : White white)
    (blank' : White white') (stops : Stops isWhitespace back) :
    parseColon src offset = .ok (offset + white.length + 1 + white'.length) := by
  have there := cut.move
  unfold parseColon
  rw [skipWhitespace_eq cut blank (stops_cons.mpr rfl), ok_bind, byteIs_cons there, ok_bind,
    if_neg (by decide), checked_next_bind there (by omega),
    skipWhitespace_eq there.next blank' stops]

/-! ### Arrays and objects -/

/-- Every value of so many levels that comes next is parsed. -/
def ValuesAccepted (source : Text) (levels : ℕ) : Prop :=
  ∀ {offset front white bytes rest value}, Cut source.bytes offset front (white ++ (bytes ++ rest)) →
    White white → Spells textReading levels bytes value → Stops inNumber rest → ∃ value',
      Alike value' value ∧
        parseValue source levels offset = .ok (value', offset + white.length + bytes.length)

/-- Items that are the same up to the order of members; the last one comes first. -/
def ItemsAlike (members result : List Value) : Prop :=
  List.Forall₂ Alike result.reverse members

theorem items_parse (vs : ValuesAccepted src levels) (all : List Value) :
    PartsParse src (parseItem (parseValue src levels)) (Spells textReading levels) ItemsAlike
      all := by
  intro earlier v later result offset front bytes rest _ keeps spells cut stops
  obtain ⟨v', alike, parsed⟩ := @vs offset front [] bytes rest v cut white_nil spells stops
  refine ⟨v', result, ?_, ?_⟩
  · unfold parseItem
    rw [parsed]
    rfl
  · unfold ItemsAlike
    rw [reverse_cons]
    exact rel_append keeps (.cons alike .nil)

/-- Two fields with one key, and with values that are the same up to the order of members. -/
def FieldAlike (field field' : Text × Value) : Prop :=
  field.1 = field'.1 ∧ Alike field.2 field'.2

/-- Fields that are the same up to the order of members, in some order. -/
def FieldsAlike (members result : List (Text × Value)) : Prop :=
  ∃ middle, result.Perm middle ∧ List.Forall₂ FieldAlike middle members

theorem names_eq {fs fields' : List (Text × Value)}
    (pairs : List.Forall₂ FieldAlike fs fields') :
    fs.map Prod.fst = fields'.map Prod.fst := by
  induction pairs with
  | nil => rfl
  | cons x others ih => rw [map_cons, map_cons, x.1, ih]

theorem fresh_key {all earlier later r : List (Text × Value)} {field : Text × Value}
    (unique : (all.map Prod.fst).Nodup) (whole : all = earlier ++ field :: later)
    (keeps : FieldsAlike earlier r) : field.1 ∉ r.map Prod.fst := by
  obtain ⟨_, order, pairs⟩ := keeps
  intro member
  rw [(order.map Prod.fst).mem_iff, names_eq pairs] at member
  rw [whole, map_append, map_cons] at unique
  exact (nodup_append.mp unique).2.2 _ member _ mem_cons_self rfl

theorem fields_parse (vs : ValuesAccepted src levels) {all : List (Text × Value)}
    (unique : (all.map Prod.fst).Nodup) :
    PartsParse src (parseField (parseValue src levels) src)
      (Member textReading (Spells textReading levels)) FieldsAlike all := by
  intro earlier field later result offset front bytes rest whole keeps member cut stops
  have fresh := fresh_key unique whole keeps
  obtain ⟨content, before, after, inner, rfl, quoted, blank, blank', spells⟩ := member
  obtain ⟨m, order, pairs⟩ := keeps
  simp only [append_assoc, cons_append] at cut
  obtain ⟨x, rest', shape, notWhite, _⟩ := solid_spells levels spells
  have stops' : Stops isWhitespace (inner ++ rest) := by
    rw [shape]
    exact stops_cons.mpr notWhite
  have afterKey := cut.next.move.next
  have key := parseKey_eq cut quoted fresh
  have sizes : offset + 1 + content.length + 1 = offset + content.length + 2 := by omega
  rw [sizes] at afterKey
  have colon := parseColon_eq afterKey blank blank' stops'
  have there := afterKey.move.next.move
  obtain ⟨value', alike, parsed⟩ := @vs _ _ [] inner rest field.2 there white_nil spells stops
  refine ⟨(field.1, value'), result.reverse, ?_, m ++ [(field.1, value')], ?_, ?_⟩
  · unfold parseField
    rw [key, ok_bind]
    dsimp only
    rw [colon, ok_bind, parsed]
    dsimp only [ok_bind]
    congr 2
    simp only [length_cons, length_append, length_nil]
    omega
  · have turned := (reverse_perm result).trans order
    exact (turned.cons _).trans (perm_append_singleton _ _).symm
  · exact rel_append pairs (.cons ⟨rfl, alike⟩ .nil)

theorem alike_object {ms r fields : List (Text × Value)} (keeps : FieldsAlike ms r)
    (order : ms.Perm fields) : Alike (.object r.reverse) (.object fields) := by
  obtain ⟨m, order', pairs⟩ := keeps
  have both : Relation.Comp (List.Forall₂ FieldAlike) List.Perm m fields :=
    ⟨ms, pairs, order⟩
  rw [forall₂_comp_perm_eq_perm_comp_forall₂] at both
  obtain ⟨_, order'', pairs'⟩ := both
  refine .object ((reverse_perm r).trans (order'.trans order'')) (names_eq pairs') ?_
  exact forall₂_map_left_iff.mpr (forall₂_map_right_iff.mpr (pairs'.imp fun _ _ both => both.2))

/-! ### Values -/

theorem parseValue_dispatch {white rest : List UInt8}
    (cut : Cut src.bytes offset front (white ++ byte :: rest)) (blank : White white)
    (notWhite : isWhitespace byte.toNat = false) :
    parseValue src (levels + 1) offset =
      if byte.toNat = 34 then do
        let (v, offset) ← parseString src (offset + white.length)
        .ok (.text v, offset)
      else if byte.toNat = 91 then do
        let (v, offset) ← parseArray (parseValue src levels) src (offset + white.length)
        .ok (.array v, offset)
      else if byte.toNat = 123 then do
        let (v, offset) ← parseObject (parseValue src levels) src (offset + white.length)
        .ok (.object v, offset)
      else parseToken src byte.toNat (offset + white.length) := by
  have there := cut.move
  conv_lhs => unfold parseValue
  rw [skipWhitespace_eq cut blank (stops_cons.mpr notWhite), ok_bind,
    if_neg (Nat.not_le_of_lt (inside there)), readByte_bind there]

/-- **Every value of the grammar is parsed.** -/
theorem parseValue_eq (src : Text) (levels : ℕ) : ValuesAccepted src levels := by
  induction levels with
  | zero =>
    intro offset front white bytes rest v _ _ spells _
    exact spells.elim
  | succ levels ih =>
    intro offset front white bytes rest v cut blank spells stops
    obtain ⟨first, others, shape, notWhite, _⟩ := layer_first spells
    have there := cut.move
    rw [parseValue_dispatch (shape ▸ cut) blank notWhite]
    cases spells with
    | null =>
      obtain ⟨rfl, rfl⟩ := cons_eq_cons.mp shape
      refine ⟨.null, .same _, ?_⟩
      have found := @tryLiteral_eq _ _ _ _ nullValue (by decide) 110 _ rfl there
      rw [if_neg (by decide), if_neg (by decide), if_neg (by decide)]
      unfold parseToken
      rw [show (UInt8.toNat 110 == 110) = (UInt8.toNat 110 == UInt8.toNat 110) from rfl, found]
      rfl
    | yes =>
      obtain ⟨rfl, rfl⟩ := cons_eq_cons.mp shape
      refine ⟨.bool true, .same _, ?_⟩
      have found := @tryLiteral_eq _ _ _ _ trueValue (by decide) 116 _ rfl there
      rw [if_neg (by decide), if_neg (by decide), if_neg (by decide)]
      unfold parseToken
      rw [show tryLiteral src nullValue (UInt8.toNat 116 == 110) _ = .ok none from rfl, ok_bind]
      rw [show (UInt8.toNat 116 == 116) = (UInt8.toNat 116 == UInt8.toNat 116) from rfl, found]
      rfl
    | no =>
      obtain ⟨rfl, rfl⟩ := cons_eq_cons.mp shape
      refine ⟨.bool false, .same _, ?_⟩
      have found := @tryLiteral_eq _ _ _ _ falseValue (by decide) 102 _ rfl there
      rw [if_neg (by decide), if_neg (by decide), if_neg (by decide)]
      unfold parseToken
      rw [show tryLiteral src nullValue (UInt8.toNat 102 == 110) _ = .ok none from rfl, ok_bind]
      rw [show tryLiteral src trueValue (UInt8.toNat 102 == 116) _ = .ok none from rfl, ok_bind]
      rw [show (UInt8.toNat 102 == 102) = (UInt8.toNat 102 == UInt8.toNat 102) from rfl, found]
      rfl
    | @number _ spelling form kept =>
      obtain ⟨v', same, parsed⟩ := parseNumber_eq there form stops
      obtain rfl : v' = spelling := Text.ext (same.trans kept.symm)
      refine ⟨.number v', .same _, ?_⟩
      have lead : first = 45 ∨ Digit first := by
        obtain ⟨first', rest', shape', lead⟩ := form.cons
        obtain ⟨rfl, _⟩ := cons_eq_cons.mp (shape.symm.trans shape')
        exact lead
      have digit : first.toNat = 45 ∨ isDigit first.toNat = true :=
        lead.imp (fun minus => by rw [minus]; rfl) isDigit_iff.mpr
      have small : first.toNat ≤ 57 ∧ first.toNat ≠ 34 := by
        rcases lead with rfl | ⟨least, most⟩
        · decide
        · omega
      have skip {literal : Text} {code : ℕ} (large : 57 < code) :
          tryLiteral src literal (first.toNat == code) (offset + white.length) = .ok none := by
        unfold tryLiteral
        rw [if_neg (by simp; omega)]
      rw [if_neg small.2, if_neg (by omega), if_neg (by omega)]
      unfold parseToken
      rw [skip (by decide), ok_bind]
      rw [skip (by decide), ok_bind]
      rw [skip (by decide), ok_bind]
      rw [if_pos digit, parsed]
    | @text content string quoted =>
      obtain ⟨rfl, rfl⟩ := cons_eq_cons.mp shape
      simp only [cons_append, append_assoc] at there
      obtain ⟨v', same, parsed⟩ := parseString_eq there quoted
      obtain rfl := Text.ext same
      refine ⟨.text v', .same _, ?_⟩
      rw [if_pos (by decide), parsed, ok_bind]
      dsimp only
      congr 2
      simp only [length_cons, length_append, length_nil]
      omega
    | @emptyArray body blank' =>
      obtain ⟨rfl, rfl⟩ := cons_eq_cons.mp shape
      simp only [cons_append, append_assoc] at there
      refine ⟨.array [], .same _, ?_⟩
      rw [if_neg (by decide), if_pos (by decide)]
      unfold parseArray
      rw [show (93 : ℕ) = UInt8.toNat 93 from rfl, parseParts_empty there blank' rfl, ok_bind]
      dsimp only
      congr 2
      simp only [length_cons, length_append, length_nil]
      omega
    | @array body xs parts =>
      obtain ⟨rfl, rfl⟩ := cons_eq_cons.mp shape
      simp only [cons_append, append_assoc] at there
      obtain ⟨result, keeps, parsed⟩ := parseParts_eq (items_parse ih xs)
        (solid_spells levels) (by decide) rfl rfl (show ItemsAlike [] [] from .nil) parts there
      refine ⟨.array result.reverse, .array keeps, ?_⟩
      rw [if_neg (by decide), if_pos (by decide)]
      unfold parseArray
      rw [show (93 : ℕ) = UInt8.toNat 93 from rfl, parsed, ok_bind]
      dsimp only
      congr 2
      simp only [length_cons, length_append, length_nil]
      omega
    | @emptyObject body blank' =>
      obtain ⟨rfl, rfl⟩ := cons_eq_cons.mp shape
      simp only [cons_append, append_assoc] at there
      refine ⟨.object [], .same _, ?_⟩
      rw [if_neg (by decide), if_neg (by decide), if_pos (by decide)]
      unfold parseObject
      rw [show (125 : ℕ) = UInt8.toNat 125 from rfl, parseParts_empty there blank' rfl, ok_bind]
      dsimp only
      congr 2
      simp only [length_cons, length_append, length_nil]
      omega
    | @object body ms fs parts unique order =>
      obtain ⟨rfl, rfl⟩ := cons_eq_cons.mp shape
      simp only [cons_append, append_assoc] at there
      obtain ⟨result, keeps, parsed⟩ := parseParts_eq (fields_parse ih unique)
        (solid_member _) (by decide) rfl rfl (show FieldsAlike [] [] from ⟨[], .refl _, .nil⟩) parts
        there
      refine ⟨.object result.reverse, alike_object keeps order, ?_⟩
      rw [if_neg (by decide), if_neg (by decide), if_pos (by decide)]
      unfold parseObject
      rw [show (125 : ℕ) = UInt8.toNat 125 from rfl, parsed, ok_bind]
      dsimp only
      congr 2
      simp only [length_cons, length_append, length_nil]
      omega

theorem stops_white {white : List UInt8} (blank : White white) : Stops inNumber white := by
  cases white with
  | nil => exact stops_nil _
  | cons byte =>
    rw [stops_cons]
    rcases blank byte mem_cons_self with rfl | rfl | rfl | rfl <;> rfl

/-- **Every document is parsed.** -/
theorem parse_of_document {v : Value} (document : Document textReading 128 src.bytes v) :
    ∃ value', Alike value' v ∧ parse src = .ok value' := by
  obtain ⟨before, bytes, after, whole, blank, blank', spells⟩ := document
  have start : Cut src.bytes 0 [] (before ++ (bytes ++ after)) := ⟨whole, rfl⟩
  obtain ⟨value', alike, parsed⟩ := parseValue_eq src 129 start blank spells (stops_white blank')
  refine ⟨value', alike, ?_⟩
  have there := start.move.move
  rw [← append_nil after] at there
  have size := there.move.size
  simp only [length_nil, Nat.add_zero] at size
  unfold parse
  rw [parsed, ok_bind]
  dsimp only
  rw [skipWhitespace_eq there blank' (stops_nil _), ok_bind, size]
  exact if_neg fun differs => differs rfl

end FoundationLang.Standard.JsonText
