/-
**Which texts `std.json` accepts, and on which it panics.**
-/

import FoundationLang.Standard.JsonComplete

namespace FoundationLang.Standard.JsonText

open Library Outcome Json List

variable {source : Text} {i ls : ℕ} {front back : List UInt8} {byte : UInt8}

/-! ### Acceptance -/

/-- **The accepted texts are the documents** whose values are inside at most 128 arrays and objects
each. -/
theorem parse_accepts_iff (source : Text) :
    (∃ value, parse source = .ok value) ↔
      ∃ value, Document textReading 128 source.bytes value := by
  constructor
  · rintro ⟨value, parsed⟩
    exact ⟨value, document_of_parse parsed⟩
  · rintro ⟨_, document⟩
    obtain ⟨value', _, parsed⟩ := parse_of_document document
    exact ⟨value', parsed⟩

/-- How strings are written by the grammar of RFC 8259: any code unit may be escaped. -/
def rfcReading : Reading (List Piece) where
  number := fun bytes spelling => spelling = bytes.map .plain
  text := fun bytes content => ∃ pieces, Pieces bytes pieces ∧ content = characters pieces

/-- The text of a string with an escaped surrogate that has no other half. -/
def surrogateText : Text :=
  .literal [34, 92, 117, 100, 56, 48, 48, 34]

/-- A string of RFC 8259 that is not accepted. -/
theorem parse_refuses_surrogate :
    ¬∀ source : Text, (∃ value, parse source = .ok value) ↔
      ∃ value, Document rfcReading 128 source.bytes value := by
  intro claimed
  have four : Unit16 [100, 56, 48, 48] 0xd800 :=
    ⟨rfl, .cons (.lower (by decide)) (.cons (.digit (by decide)) (.cons (.digit (by decide))
      (.cons (.digit (by decide)) .nil)))⟩
  have document : Document rfcReading 128 surrogateText.bytes
      (.text (characters [.unit 0xd800])) :=
    ⟨[], surrogateText.bytes, [], rfl, white_nil, white_nil,
      @Layer.text _ rfcReading _ _ _ ⟨[.unit 0xd800], .unicode four .nil, rfl⟩⟩
  obtain ⟨_, parsed⟩ := (claimed surrogateText).mpr ⟨_, document⟩
  have refused : (parse surrogateText).isOk = false := by decide +kernel
  rw [parsed] at refused
  cases refused

/-! ### Panics -/

theorem levels_of_panics
    (panics : Panics (parseValue source ls i)) : ∃ fewer, ls = fewer + 1 := by
  cases ls with
  | zero =>
    obtain ⟨_, ⟨⟩⟩ := panics
  | succ fewer => exact ⟨fewer, rfl⟩

theorem parseValue_white {white : List UInt8} (cut : Cut source.bytes i front (white ++ back))
    (blank : White white) :
    parseValue source (ls + 1) i = parseValue source (ls + 1) (i + white.length) := by
  obtain ⟨_, _, rfl, blank', stops, skipped⟩ := skipWhitespace_spec cut.move
  rw [← append_assoc] at cut
  have first := skipWhitespace_eq cut (white_append blank blank') stops
  rw [length_append, ← Nat.add_assoc] at first
  unfold parseValue
  rw [first, skipped]

theorem not_panics_bracket (cut : Cut source.bytes i front (93 :: back)) :
    ¬Panics (parseValue source ls i) := by
  intro panics
  obtain ⟨_, rfl⟩ := levels_of_panics panics
  obtain ⟨_, same⟩ := panics
  rw [@parseValue_dispatch _ _ _ _ _ [] _ cut white_nil rfl, if_neg (by decide),
    if_neg (by decide), if_neg (by decide)] at same
  cases same

theorem panics_item {parts white : List UInt8} {xs : List Value}
    (leading : Leading (Padded (Spells textReading ls)) parts xs) (blank : White white)
    (cut : Cut source.bytes i front (91 :: (parts ++ (white ++ back))))
    (panics : Panics (parseValue source ls (i + 1 + parts.length + white.length))) :
    Panics (parseValue source (ls + 1) i) := by
  have there := cut.next.move.move
  obtain ⟨white', rest, rfl, blank', stops, _⟩ := skipWhitespace_spec there
  obtain ⟨fewer, rfl⟩ := levels_of_panics panics
  rw [parseValue_white there blank'] at panics
  have notClose : ∀ x ∈ rest.head?, x ≠ 93 := by
    rintro x member rfl
    obtain ⟨rest, rfl⟩ : ∃ tail, rest = 93 :: tail := by
      cases rest with
      | nil => cases member
      | cons x tail => exact ⟨tail, by rw [Option.some.inj member]⟩
    exact not_panics_bracket there.move panics
  have joined : Cut source.bytes i front (91 :: (parts ++ ((white ++ white') ++ rest))) := by
    rwa [append_assoc white]
  have array := parseParts_panic (items_parse (parseValue_eq source (fewer + 1)) xs)
    (solid_spells (fewer + 1)) (by decide) (show ItemsAlike [] [] from .nil) leading
    (append_nil xs).symm (white_append blank blank') stops notClose joined
    (fun result _ => by
      rw [length_append, ← Nat.add_assoc]
      exact Panics.bind panics _)
  rw [@parseValue_dispatch _ _ _ _ _ [] _ cut white_nil rfl, if_neg (by decide), if_pos (by decide)]
  exact Panics.bind array _

theorem panics_member {parts white key white' white'' : List UInt8}
    {ms : List (Text × Value)} {name : Text}
    (leading : Leading (Padded (Member textReading (Spells textReading ls))) parts ms)
    (unique : (ms.map Prod.fst).Nodup) (blank : White white)
    (quoted : Quoted key name.bytes) (fresh : name ∉ ms.map Prod.fst) (blank' : White white')
    (blank'' : White white'')
    (cut : Cut source.bytes i front (123 :: (parts ++ (white ++
      34 :: (key ++ 34 :: (white' ++ 58 :: (white'' ++ back)))))))
    (panics : Panics (parseValue source ls (i + 1 + parts.length + white.length + 1 +
      key.length + 1 + white'.length + 1 + white''.length))) :
    Panics (parseValue source (ls + 1) i) := by
  have atKey := cut.next.move.move
  have afterKey := atKey.next.move.next
  have there := afterKey.move.next.move
  obtain ⟨whiteAfter, rest, rfl, blankAfter, stops, _⟩ := skipWhitespace_spec there
  obtain ⟨fewer, rfl⟩ := levels_of_panics panics
  rw [parseValue_white there blankAfter] at panics
  have notClose : ∀ x ∈ (34 :: (key ++ 34 :: (white' ++ 58 :: (white'' ++ (whiteAfter ++ rest))))
      : List UInt8).head?, x ≠ 125 := by
    intro x member
    obtain rfl := Option.some.inj member
    decide
  have object := parseParts_panic (fields_parse (parseValue_eq source (fewer + 1)) unique)
    (solid_member _) (by decide) (show FieldsAlike [] [] from ⟨[], .refl _, .nil⟩) leading
    (append_nil ms).symm blank (stops_cons.mpr rfl) notClose cut
    (fun result keeps => by
      have fresh' : name ∉ result.map Prod.fst := by
        obtain ⟨m, order, pairs⟩ := keeps
        rwa [(order.map Prod.fst).mem_iff, names_eq pairs]
      have sizes : i + 1 + parts.length + white.length + key.length + 2 =
          i + 1 + parts.length + white.length + 1 + key.length + 1 := by omega
      have joined := afterKey
      rw [← append_assoc white''] at joined
      unfold parseField
      rw [parseKey_eq atKey quoted fresh', ok_bind]
      dsimp only
      rw [sizes, parseColon_eq joined blank' (white_append blank'' blankAfter) stops, ok_bind,
        length_append, ← Nat.add_assoc]
      exact Panics.bind panics _)
  rw [@parseValue_dispatch _ _ _ _ _ [] _ cut white_nil rfl, if_neg (by decide),
    if_neg (by decide), if_pos (by decide)]
  exact Panics.bind object _

/-- **A panic where a value comes next is a panic of the parser.** -/
theorem panics_of_awaits (awaits : Awaits textReading 128 ls front) :
    ∀ {back : List UInt8}, source.bytes = front ++ back →
      Panics (parseValue source ls front.length) → Panics (parse source) := by
  induction awaits with
  | @root white blank =>
    intro back whole panics
    have start : Cut source.bytes 0 [] (white ++ back) := ⟨whole, rfl⟩
    have skipped := @parseValue_white _ _ 128 _ _ _ start blank
    rw [Nat.zero_add] at skipped
    unfold parse
    rw [skipped]
    exact panics.bind _
  | @item ls front parts white xs outer before blank ih =>
    intro back whole panics
    simp only [append_assoc, cons_append] at whole
    refine ih whole (panics_item before blank ⟨whole, rfl⟩ ?_)
    have sizes : front.length + 1 + parts.length + white.length =
        (front ++ 91 :: (parts ++ white)).length := by
      simp only [length_append, length_cons]
      omega
    rwa [sizes]
  | @member ls front parts white key white' white'' ms name outer before unique blank quoted
      fresh blank' blank'' ih =>
    intro back whole panics
    simp only [append_assoc, cons_append] at whole
    refine ih whole (panics_member before unique blank quoted fresh blank' blank''
      ⟨whole, rfl⟩ ?_)
    have sizes : front.length + 1 + parts.length + white.length + 1 + key.length + 1 +
        white'.length + 1 + white''.length = (front ++ 123 :: (parts ++ (white ++
          34 :: (key ++ 34 :: (white' ++ 58 :: white''))))).length := by
      simp only [length_append, length_cons]
      omega
    rwa [sizes]

theorem panics_literal (cut : Cut source.bytes i front back) (cuts : CutsLiteral back) :
    Panics (parseValue source (ls + 1) i) := by
  obtain ⟨literal, member, starts, inner⟩ := cuts
  have slice := consume_panic cut inner
  have consumed : ∀ first, back.head? = some first →
      Panics (tryLiteral source literal (first.toNat == first.toNat) i) := by
    intro first _
    unfold tryLiteral
    rw [if_pos (beq_self_eq_true _), slice]
    exact ⟨_, rfl⟩
  simp only [mem_cons, not_mem_nil, or_false] at member
  obtain ⟨first, rest, rfl, code⟩ : ∃ first rest, back = first :: rest ∧
      literal.bytes.head? = some first := by
    cases back with
    | nil => rcases member with rfl | rfl | rfl <;> cases starts
    | cons first rest => exact ⟨first, rest, rfl, starts.symm⟩
  have panics := consumed first rfl
  rcases member with rfl | rfl | rfl
  all_goals
    obtain rfl := Option.some.inj code
    rw [@parseValue_dispatch _ _ _ _ _ [] _ cut white_nil rfl, if_neg (by decide),
      if_neg (by decide), if_neg (by decide)]
    unfold parseToken
  · exact Panics.bind panics _
  · rw [show tryLiteral source nullValue (UInt8.toNat 116 == 110) _ = .ok none from rfl, ok_bind]
    exact Panics.bind panics _
  · rw [show tryLiteral source nullValue (UInt8.toNat 102 == 110) _ = .ok none from rfl, ok_bind]
    rw [show tryLiteral source trueValue (UInt8.toNat 102 == 116) _ = .ok none from rfl, ok_bind]
    exact Panics.bind panics _

/-- **The parser panics exactly where it is stuck.** -/
theorem parse_panics_iff (source : Text) : Panics (parse source) ↔ Stuck source := by
  constructor
  · rintro ⟨reason, panics⟩
    exact (parse_ensures source).1 reason panics
  · rintro ⟨_, _, _, awaits, whole, cuts⟩
    exact panics_of_awaits awaits whole (panics_literal ⟨whole, rfl⟩ cuts)

/-- **The parser never panics on a text on which it is not stuck**: it returns a value or an error. -/
theorem parse_never_panics_iff (source : Text) :
    (∀ reason, parse source ≠ .error (.panic reason)) ↔ ¬Stuck source := by
  rw [← parse_panics_iff]
  exact ⟨fun never ⟨reason, panics⟩ => never reason panics,
    fun never reason panics => never ⟨reason, panics⟩⟩

/-- `nulé`. -/
def cutText : Text :=
  .literal [110, 117, 108, 195, 169]

/-- The parser panics on a text. -/
theorem parse_panics_cut : ¬∀ (source : Text) (reason : Panic), parse source ≠ .error (.panic reason) := by
  intro never
  have panics : Panics (parse cutText) := by decide +kernel
  obtain ⟨reason, same⟩ := panics
  exact never cutText reason same

end FoundationLang.Standard.JsonText
