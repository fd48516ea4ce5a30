/-
**The pattern language: what patterns there are, and what they match.**

A pattern is a sequence of atoms with quantifiers, between two anchors that may be absent. An atom
stands for one byte.
-/

import FoundationLang.Library.Prefixes
import FoundationLang.Standard.Pattern

namespace FoundationLang.Standard.Pattern

open Library Outcome Computability List

variable {pattern : Text} {body : List UInt8} {cursor close : ℕ} {byte : UInt8}
variable {ranges : List (UInt8 × UInt8)}

/-! ### Patterns -/

/-- What stands for one byte. -/
inductive Atom
  | any
  | literal (byte : UInt8)
  | oneOf (ranges : List (UInt8 × UInt8))
  | noneOf (ranges : List (UInt8 × UInt8))

/-- The ranges of a class. -/
def inRanges (ranges : List (UInt8 × UInt8)) (byte : UInt8) : Bool :=
  ranges.any fun range => byte.toNat ≥ range.1.toNat && byte.toNat ≤ range.2.toNat

/-- The bytes that an atom stands for. -/
def Atom.accepts : Atom → UInt8 → Bool
  | any, _ => true
  | literal expected, byte => expected == byte
  | oneOf ranges, byte => inRanges ranges byte
  | noneOf ranges, byte => !inRanges ranges byte

/-- How often an atom is repeated. -/
inductive Quantifier
  | once
  | star
  | plus
  | optional

/-- The words of a repeated atom. -/
def Quantifier.language (quantifier : Quantifier) (atom : Language UInt8) : Language UInt8 :=
  match quantifier with
  | once => atom
  | star => atom∗
  | plus => atom * atom∗
  | optional => 1 + atom

/-- An atom and its quantifier. -/
structure Piece where
  atom : Atom
  quantifier : Quantifier

/-- One byte that the atom accepts. -/
def Atom.language (atom : Atom) : Language UInt8 :=
  symbols fun byte => atom.accepts byte = true

/-- The words of pieces one after the other. -/
def language : List Piece → Language UInt8
  | [] => 1
  | piece :: pieces => piece.quantifier.language piece.atom.language * language pieces

/-- A pattern. -/
structure Regex where
  anchoredStart : Bool
  pieces : List Piece
  anchoredEnd : Bool

/-- **The text has a match**: a part of it is a word of the pattern, at the ends that are anchored. -/
def Regex.Found (regex : Regex) (text : List UInt8) : Prop :=
  ∃ before inside behind, text = before ++ inside ++ behind ∧ inside ∈ language regex.pieces ∧
    (regex.anchoredStart = true → before = []) ∧ (regex.anchoredEnd = true → behind = [])

/-! ### The text of a pattern -/

/-- A byte of a class, which may be escaped. -/
inductive SpellsByte : List UInt8 → UInt8 → Prop
  | plain (byte : UInt8) (notEscape : byte ≠ 92) (notClose : byte ≠ 93) : SpellsByte [byte] byte
  | escaped (byte : UInt8) : SpellsByte [92, byte] byte

/-- The bytes and ranges of a class. A byte with `-` and another byte behind it starts a range. -/
inductive SpellsRanges : List UInt8 → List (UInt8 × UInt8) → Prop
  | nil : SpellsRanges [] []
  | single {spelling rest : List UInt8} {byte : UInt8} {ranges : List (UInt8 × UInt8)}
      (first : SpellsByte spelling byte) (alone : ∀ next tail, rest ≠ 45 :: next :: tail)
      (others : SpellsRanges rest ranges) : SpellsRanges (spelling ++ rest) ((byte, byte) :: ranges)
  | range {spelling spelling' rest : List UInt8} {low high : UInt8} {ranges : List (UInt8 × UInt8)}
      (first : SpellsByte spelling low) (last : SpellsByte spelling' high)
      (others : SpellsRanges rest ranges) :
      SpellsRanges (spelling ++ 45 :: (spelling' ++ rest)) ((low, high) :: ranges)

/-- A class ends with a bracket, or with the pattern when its last byte is an escaped bracket. -/
inductive Closes : (body closing behind : List UInt8) → Prop
  | bracket {body behind : List UInt8} (some : body ≠ []) : Closes body [93] behind
  | escaped (body : List UInt8) : Closes (body ++ [92, 93]) [] []

/-- `unsupported`, and the bytes with a meaning of their own. -/
def special (byte : UInt8) : Bool :=
  unsupported byte.toNat || byte == 46 || byte == 91 || byte == 92

/-- An atom, in front of the rest of the pattern. -/
inductive SpellsAtom : (spelling behind : List UInt8) → Atom → Prop
  | any (behind : List UInt8) : SpellsAtom [46] behind .any
  | literal (byte : UInt8) (behind : List UInt8) (plain : special byte = false) :
      SpellsAtom [byte] behind (.literal byte)
  | escaped (byte : UInt8) (behind : List UInt8) : SpellsAtom [92, byte] behind (.literal byte)
  | oneOf {body closing behind : List UInt8} {ranges : List (UInt8 × UInt8)}
      (spells : SpellsRanges body ranges) (plain : body.head? ≠ some 94)
      (closes : Closes body closing behind) :
      SpellsAtom (91 :: (body ++ closing)) behind (.oneOf ranges)
  | noneOf {body closing behind : List UInt8} {ranges : List (UInt8 × UInt8)}
      (spells : SpellsRanges body ranges) (closes : Closes body closing behind) :
      SpellsAtom (91 :: 94 :: (body ++ closing)) behind (.noneOf ranges)

/-- The byte of a quantifier. -/
def Quantifier.spelling : Quantifier → List UInt8
  | once => []
  | star => [42]
  | plus => [43]
  | optional => [63]

/-- The text of a sequence of pieces. -/
inductive Spells : List UInt8 → List Piece → Prop
  | nil : Spells [] []
  | cons {spelling behind : List UInt8} {atom : Atom} {pieces : List Piece}
      (quantifier : Quantifier) (first : SpellsAtom spelling (quantifier.spelling ++ behind) atom)
      (others : Spells behind pieces) :
      Spells (spelling ++ (quantifier.spelling ++ behind)) (⟨atom, quantifier⟩ :: pieces)

/-- **The text of a pattern.** -/
def Spelled (bytes : List UInt8) (regex : Regex) : Prop :=
  ∃ body, Spells body regex.pieces ∧
    bytes = (if regex.anchoredStart then [94] else []) ++ body ++
      (if regex.anchoredEnd then [36] else [])

/-! ### Reading bytes -/

section

variable {i : ℕ} {bytes : List UInt8}

theorem byteAt_eq (there : At pattern.bytes i (byte :: bytes)) :
    byteAt pattern i = .ok byte.toNat := by
  unfold byteAt Text.byteAt
  rw [there.getElem?]

theorem byteAt_bind {α : Type} (there : At pattern.bytes i (byte :: bytes))
    (next : ℕ → Run α) : (byteAt pattern i >>= next) = next byte.toNat := by
  rw [byteAt_eq there]
  rfl

theorem position_lt (there : At pattern.bytes i bytes) :
    i + bytes.length < 2 ^ 63 :=
  Nat.lt_of_le_of_lt there.le pattern.short

theorem toNat_eq_iff {v : UInt8} {code : ℕ} (small : code < 256) :
    v.toNat = code ↔ v = UInt8.ofNat code := by
  rw [← UInt8.toNat_inj, UInt8.toNat_ofNat']
  omega

end

/-! ### Classes -/

/-- Bytes of a class one after the other. -/
inductive Units : List UInt8 → Prop
  | nil : Units []
  | cons {spelling rest : List UInt8} {byte : UInt8} (first : SpellsByte spelling byte)
      (others : Units rest) : Units (spelling ++ rest)

theorem SpellsRanges.units (spells : SpellsRanges body ranges) : Units body := by
  induction spells with
  | nil => exact .nil
  | single x _ _ ih => exact .cons x ih
  | range x last _ ih =>
    have dash : Units (45 :: _) := .cons (.plain 45 (by decide) (by decide)) (.cons last ih)
    exact .cons x dash

theorem classEnd_unit {stop rounds : ℕ} {spelling rest : List UInt8}
    (spells : SpellsByte spelling byte) (there : At pattern.bytes cursor (spelling ++ rest))
    (inside : cursor + spelling.length ≤ stop) :
    classEnd pattern stop cursor (rounds + 1) =
      classEnd pattern stop (cursor + spelling.length) rounds := by
  have small := position_lt there
  rw [length_append] at small
  have before : cursor < stop := by
    cases spells with
    | plain => exact inside
    | escaped => exact Nat.lt_of_succ_lt inside
  conv_lhs => unfold classEnd
  rw [if_pos before]
  cases spells with
  | plain byte notEscape notClose =>
    rw [length_singleton] at small
    have first : byte.toNat ≠ 92 := fun same => notEscape ((toNat_eq_iff (by decide)).mp same)
    have second : byte.toNat ≠ 93 := fun same => notClose ((toNat_eq_iff (by decide)).mp same)
    rw [byteAt_bind there, if_neg first, if_neg second, checked_bind (by omega)]
    rfl
  | escaped byte =>
    have size : ([92, byte] : List UInt8).length = 2 := rfl
    rw [size] at small
    rw [byteAt_bind there, if_pos (by decide), checked_bind (by omega)]
    rfl

theorem classEnd_units {stop : ℕ} (units : Units body) :
    ∀ {cursor k : ℕ} {rest : List UInt8}, At pattern.bytes cursor (body ++ rest) →
      cursor + body.length ≤ stop → body.length ≤ k →
      ∃ rounds', k ≤ rounds' + body.length ∧ classEnd pattern stop cursor k =
        classEnd pattern stop (cursor + body.length) rounds' := by
  induction units with
  | nil =>
    intro cursor k rest _ _ _
    exact ⟨k, Nat.le_refl _, rfl⟩
  | @cons spelling others byte x units ih =>
    intro cursor k rest there inside enough
    rw [length_append] at inside enough
    have pos : 1 ≤ spelling.length := by cases x <;> simp
    obtain ⟨k, rfl⟩ := Nat.exists_eq_add_of_le' (Nat.le_trans pos (by omega : _ ≤ k))
    rw [append_assoc] at there
    obtain ⟨rounds', enough', same⟩ := ih there.right (by omega) (by omega : _ ≤ k)
    refine ⟨rounds', by rw [length_append]; omega, ?_⟩
    rw [classEnd_unit x there (by omega), same, length_append, Nat.add_assoc]

theorem classEnd_bracket {stop k : ℕ} {rest : List UInt8} (units : Units body)
    (there : At pattern.bytes cursor (body ++ 93 :: rest)) (inside : cursor + body.length < stop)
    (enough : body.length < k) :
    classEnd pattern stop cursor k = .ok (cursor + body.length + 1) := by
  have small := position_lt there
  rw [length_append, length_cons] at small
  obtain ⟨rounds', enough', same⟩ := classEnd_units units there (Nat.le_of_lt inside)
    (Nat.le_of_lt enough)
  obtain ⟨rounds', rfl⟩ : ∃ previous, rounds' = previous + 1 := ⟨rounds' - 1, by omega⟩
  rw [same]
  unfold classEnd
  rw [if_pos inside, byteAt_bind there.right, if_neg (by decide), if_pos (by decide),
    checked_eq (by omega)]

theorem classEnd_stop (pattern : Text) (stop k : ℕ) :
    classEnd pattern stop stop k = .ok stop := by
  cases k with
  | zero => rfl
  | succ =>
    unfold classEnd
    rw [if_neg (Nat.lt_irrefl stop)]

theorem classEnd_open {stop k : ℕ} {rest : List UInt8} (units : Units body)
    (there : At pattern.bytes cursor (body ++ rest)) (inside : cursor + body.length = stop)
    (enough : body.length ≤ k) : classEnd pattern stop cursor k = .ok stop := by
  obtain ⟨rounds', _, same⟩ := classEnd_units units there (Nat.le_of_eq inside) enough
  rw [same, inside]
  exact classEnd_stop pattern stop rounds'

theorem classEnd_closes {closing behind : List UInt8} (units : Units body)
    (closes : Closes body closing behind)
    (there : At pattern.bytes cursor (body ++ closing ++ behind)) {stop k : ℕ}
    (whole : stop = cursor + (body ++ closing ++ behind).length) (enough : stop ≤ cursor + k) :
    classEnd pattern stop cursor k = .ok (cursor + (body ++ closing).length) := by
  simp only [length_append] at whole
  rw [append_assoc] at there
  cases closes with
  | bracket =>
    rw [length_singleton] at whole
    rw [classEnd_bracket units there (by omega) (by omega), length_append]
    rfl
  | escaped =>
    simp only [length_append, length_nil] at whole
    rw [classEnd_open units there (by rw [length_append]; omega)
      (by rw [length_append]; omega), whole, append_nil, length_append]
    rfl

/-! ### Atoms -/

theorem not_special (plain : special byte = false) :
    unsupported byte.toNat = false ∧ byte.toNat ≠ 46 ∧ byte.toNat ≠ 91 ∧ byte.toNat ≠ 92 := by
  simp only [special, Bool.or_eq_false_iff, beq_eq_false_iff_ne] at plain
  obtain ⟨⟨⟨x, y⟩, third⟩, fourth⟩ := plain
  refine ⟨x, fun same => y ?_, fun same => third ?_, fun same => fourth ?_⟩
  · exact (toNat_eq_iff (by decide)).mp same
  · exact (toNat_eq_iff (by decide)).mp same
  · exact (toNat_eq_iff (by decide)).mp same

section

variable {i stop : ℕ} {spelling behind : List UInt8} {atom : Atom}

/-- **An atom ends where its spelling ends.** -/
theorem atomEnd_eq (spells : SpellsAtom spelling behind atom)
    (there : At pattern.bytes i (spelling ++ behind))
    (whole : stop = i + (spelling ++ behind).length) :
    atomEnd pattern i stop = .ok (i + spelling.length) := by
  have small := position_lt there
  rw [← whole] at small
  rw [length_append] at whole
  cases spells with
  | any =>
    rw [length_singleton] at whole
    unfold atomEnd
    rw [byteAt_bind there, checked_bind (by omega), if_neg (by decide), if_pos (by decide)]
    rfl
  | literal byte behind plain =>
    obtain ⟨_, _, notClass, notEscape⟩ := not_special plain
    rw [length_singleton] at whole
    unfold atomEnd
    rw [byteAt_bind there, checked_bind (by omega), if_neg notEscape, if_pos notClass]
    rfl
  | escaped byte =>
    have size : ([92, byte] : List UInt8).length = 2 := rfl
    rw [size] at whole
    unfold atomEnd
    rw [byteAt_bind there, checked_bind (by omega), if_pos (by decide),
      if_pos (by omega), checked_eq (by omega)]
    rfl
  | @oneOf body closing behind ranges spells plain closes =>
    rw [length_cons] at whole
    have inside : At pattern.bytes (i + 1) (body ++ closing ++ behind) := there.tail
    have enough : stop = i + 1 + (body ++ closing ++ behind).length := by
      rw [length_append]
      omega
    unfold atomEnd
    rw [byteAt_bind there, checked_bind (by omega), if_neg (by decide),
      if_neg (by decide), classEnd_closes spells.units closes inside enough (by omega),
      length_cons, Nat.add_assoc i, Nat.add_comm 1]
  | @noneOf body closing behind ranges spells closes =>
    rw [length_cons, length_cons] at whole
    have inside : At pattern.bytes (i + 1) ([94] ++ (body ++ closing ++ behind)) := there.tail
    have enough : stop = i + 1 + 1 + (body ++ closing ++ behind).length := by
      rw [length_append]
      omega
    have behindSign : At pattern.bytes (i + 1 + 1) (body ++ closing ++ behind) := inside.right
    have sign : SpellsByte [94] 94 := .plain 94 (by decide) (by decide)
    obtain ⟨rounds, same⟩ : ∃ rounds, stop - (i + 1) = rounds + 1 :=
      ⟨stop - (i + 1) - 1, by omega⟩
    unfold atomEnd
    rw [byteAt_bind there, checked_bind (by omega), if_neg (by decide),
      if_neg (by decide), same, classEnd_unit sign inside (by rw [length_singleton]; omega),
      length_singleton, classEnd_closes spells.units closes behindSign enough (by omega),
      length_cons, length_cons, Nat.add_assoc (i + 1), Nat.add_assoc i]
    congr 2
    omega

end

/-! ### What a class contains -/

theorem classByte_eq {spelling rest : List UInt8} (spells : SpellsByte spelling byte)
    (there : At pattern.bytes cursor (spelling ++ rest)) :
    classByte pattern cursor = .ok (byte.toNat, cursor + spelling.length) := by
  have small := position_lt there
  rw [length_append] at small
  cases spells with
  | plain byte notEscape =>
    have first : byte.toNat ≠ 92 := fun same => notEscape ((toNat_eq_iff (by decide)).mp same)
    rw [length_singleton] at small
    unfold classByte
    rw [byteAt_bind there, if_neg first, checked_bind (by omega)]
    rfl
  | escaped byte =>
    have size : ([92, byte] : List UInt8).length = 2 := rfl
    rw [size] at small
    unfold classByte
    rw [byteAt_bind there, if_pos (by decide), checked_bind (by omega),
      byteAt_bind there.tail, checked_bind (by omega)]
    rfl

theorem Units.ends_escaped (units : Units body) (last : body.getLast? = some 93) :
    ∃ front, body = front ++ [92, 93] := by
  induction units with
  | nil => cases last
  | @cons spelling rest byte x units ih =>
    by_cases empty : rest = []
    · subst empty
      rw [append_nil] at last ⊢
      cases x with
      | plain byte notEscape notClose =>
        obtain rfl := Option.some.inj last
        exact absurd rfl notClose
      | escaped =>
        obtain rfl := Option.some.inj last
        exact ⟨[], rfl⟩
    · rw [List.getLast?_append_of_ne_nil _ empty] at last
      obtain ⟨front, rfl⟩ := ih last
      exact ⟨spelling ++ front, (append_assoc _ _ _).symm⟩

/-- The position `close` is behind the body of a class, or at its last byte when that is a bracket
byte. -/
def EndsAt (close cursor : ℕ) (body : List UInt8) : Prop :=
  close = cursor + body.length ∨
    close + 1 = cursor + body.length ∧ ∀ last ∈ body.getLast?, last = 93

theorem EndsAt.rest {front rest : List UInt8} (ends : EndsAt close cursor (front ++ rest)) :
    EndsAt close (cursor + front.length) rest := by
  unfold EndsAt at ends ⊢
  rw [length_append, ← Nat.add_assoc] at ends
  rcases ends with same | ⟨same, bracket⟩
  · exact .inl same
  · refine .inr ⟨same, fun last mem => bracket last ?_⟩
    have some : rest ≠ [] := by
      rintro rfl
      cases mem
    rwa [List.getLast?_append_of_ne_nil _ some]

/-- Behind the body of a class there is nothing to look at. -/
theorem EndsAt.finished (ends : EndsAt close cursor []) : ¬cursor < close := by
  rcases ends with same | ⟨same, _⟩
  · rw [same]
    exact Nat.lt_irrefl _
  · rw [length_nil] at same
    omega

/-- In front of a byte of the class there is something to look at. -/
theorem EndsAt.going {spelling rest : List UInt8} (ends : EndsAt close cursor (spelling ++ rest))
    (x : SpellsByte spelling byte) (units : Units rest) : cursor < close := by
  have whole : Units (spelling ++ rest) := .cons x units
  have pos : 1 ≤ (spelling ++ rest).length := by cases x <;> simp
  rcases ends with same | ⟨same, bracket⟩
  · omega
  · have last : (spelling ++ rest).getLast? = some 93 := by
      have isLast := List.getLast?_eq_some_getLast (length_pos_iff.mp pos)
      rw [isLast, bracket _ isLast]
    obtain ⟨front, shape⟩ := whole.ends_escaped last
    rw [shape, length_append] at same
    have size : ([92, 93] : List UInt8).length = 2 := rfl
    omega

theorem rangeBehind_alone {rest behind : List UInt8} (ends : EndsAt close cursor rest)
    (alone : ∀ next tail, rest ≠ 45 :: next :: tail)
    (there : At pattern.bytes cursor (rest ++ behind)) :
    rangeBehind pattern cursor close = .ok false := by
  have small := position_lt there
  unfold rangeBehind
  rw [checked_bind (by omega)]
  by_cases more : cursor + 1 < close
  · have long : 2 ≤ rest.length := by
      rcases ends with same | ⟨same, _⟩ <;> omega
    rw [if_pos more]
    cases rest with
    | nil => simp at long
    | cons x rest =>
      cases rest with
      | nil => simp at long
      | cons next tail =>
        have ne : x.toNat ≠ 45 := fun same =>
          alone next tail (by rw [(toNat_eq_iff (by decide)).mp same]; rfl)
        rw [byteAt_bind there, beq_eq_false_iff_ne.mpr ne]
  · rw [if_neg more]

theorem rangeBehind_range {spelling rest behind : List UInt8}
    (ends : EndsAt close cursor (45 :: (spelling ++ rest))) (x : SpellsByte spelling byte)
    (units : Units rest) (there : At pattern.bytes cursor (45 :: (spelling ++ rest) ++ behind)) :
    rangeBehind pattern cursor close = .ok true := by
  have small := position_lt there
  have dash : EndsAt close cursor ([45] ++ (spelling ++ rest)) := ends
  have more : cursor + 1 < close := dash.rest.going x units
  unfold rangeBehind
  rw [checked_bind (by omega), if_pos more, byteAt_bind there]
  rfl

theorem inRanges_cons (range : UInt8 × UInt8) (ranges : List (UInt8 × UInt8)) (byte : UInt8) :
    inRanges (range :: ranges) byte =
      (byte.toNat ≥ range.1.toNat && byte.toNat ≤ range.2.toNat || inRanges ranges byte) :=
  rfl

/-- **A class contains the bytes of its ranges.** -/
theorem classContains_eq (spells : SpellsRanges body ranges) (v : UInt8) :
    ∀ {cursor k : ℕ} {behind : List UInt8} {matched : Bool},
      At pattern.bytes cursor (body ++ behind) → EndsAt close cursor body → close ≤ cursor + k →
      classContains pattern close v.toNat cursor matched k =
        .ok (matched || inRanges ranges v) := by
  induction spells with
  | nil =>
    intro cursor k behind matched _ ends _
    have nothing : inRanges [] v = false := rfl
    rw [nothing, Bool.or_false]
    cases k with
    | zero => rfl
    | succ =>
      unfold classContains
      rw [if_neg ends.finished]
  | @single spelling rest byte ranges x alone others ih =>
    intro cursor k behind matched there ends enough
    have pos : 1 ≤ spelling.length := by cases x <;> simp
    have more := ends.going x others.units
    obtain ⟨k, rfl⟩ : ∃ previous, k = previous + 1 := ⟨k - 1, by omega⟩
    rw [append_assoc] at there
    unfold classContains
    rw [if_pos more, classByte_eq x there, ok_bind]
    dsimp only
    rw [rangeBehind_alone ends.rest alone there.right, ok_bind, if_neg (by decide),
      ih there.right ends.rest (by omega), inRanges_cons, ← Bool.or_assoc]
    have same : (v.toNat == byte.toNat) =
        (decide (v.toNat ≥ byte.toNat) && decide (v.toNat ≤ byte.toNat)) := by
      rw [Bool.eq_iff_iff]
      simp only [beq_iff_eq, Bool.and_eq_true, decide_eq_true_eq]
      omega
    rw [same]
  | @range spelling spelling' rest low high ranges x last others ih =>
    intro cursor k behind matched there ends enough
    have dashUnits : Units (45 :: (spelling' ++ rest)) :=
      .cons (.plain 45 (by decide) (by decide)) (.cons last others.units)
    have more := ends.going x dashUnits
    obtain ⟨k, rfl⟩ : ∃ previous, k = previous + 1 := ⟨k - 1, by omega⟩
    rw [append_assoc] at there
    have dashAt := there.right
    have dashEnds := ends.rest
    have lastAt : At pattern.bytes (cursor + spelling.length + 1) (spelling' ++ (rest ++ behind)) := by
      simpa using dashAt.tail
    have lastEnds : EndsAt close (cursor + spelling.length + 1) (spelling' ++ rest) := by
      have again : EndsAt close (cursor + spelling.length) ([45] ++ (spelling' ++ rest)) := dashEnds
      exact again.rest
    have small := position_lt lastAt
    unfold classContains
    rw [if_pos more, classByte_eq x there, ok_bind]
    dsimp only
    rw [rangeBehind_range dashEnds last others.units dashAt, ok_bind, if_pos rfl,
      checked_bind (by omega), classByte_eq last lastAt, ok_bind]
    rw [ih lastAt.right lastEnds.rest (by omega), inRanges_cons, ← Bool.or_assoc]

theorem negatedClass_plain {behind : List UInt8} (ends : EndsAt close cursor body)
    (plain : body.head? ≠ some 94) (there : At pattern.bytes cursor (body ++ behind)) :
    negatedClass pattern cursor close = .ok false := by
  unfold negatedClass
  by_cases more : cursor < close
  · rw [if_pos more]
    cases body with
    | nil => exact absurd more ends.finished
    | cons x =>
      have ne : x.toNat ≠ 94 := fun same =>
        plain (by rw [(toNat_eq_iff (by decide)).mp same]; rfl)
      rw [byteAt_bind there, beq_eq_false_iff_ne.mpr ne]
  · rw [if_neg more]

theorem negatedClass_sign {bytes : List UInt8} (more : cursor < close)
    (there : At pattern.bytes cursor (94 :: bytes)) :
    negatedClass pattern cursor close = .ok true := by
  unfold negatedClass
  rw [if_pos more, byteAt_bind there]
  rfl

theorem Closes.endsAt {closing behind : List UInt8} (closes : Closes body closing behind)
    (i : ℕ) : EndsAt (i + (body ++ closing).length - 1) i body := by
  unfold EndsAt
  cases closes with
  | bracket =>
    left
    rw [length_append, length_singleton]
    omega
  | escaped =>
    right
    have size : ([92, 93] : List UInt8).length = 2 := rfl
    rw [append_nil, length_append, size]
    refine ⟨by omega, fun last mem => ?_⟩
    rw [List.getLast?_append_of_ne_nil _ (by decide)] at mem
    exact (Option.some.inj mem).symm

section

variable {i stop : ℕ} {spelling behind : List UInt8} {atom : Atom}

theorem classMatches_oneOf {body closing : List UInt8} (spells : SpellsRanges body ranges)
    (plain : body.head? ≠ some 94) (closes : Closes body closing behind)
    (there : At pattern.bytes i (91 :: (body ++ closing) ++ behind))
    (whole : stop = i + (91 :: (body ++ closing) ++ behind).length) (v : UInt8) :
    classMatches pattern i stop v.toNat = .ok (inRanges ranges v) := by
  have small := position_lt there
  rw [length_append, length_cons] at small
  have inside : At pattern.bytes (i + 1) (body ++ (closing ++ behind)) := by
    simpa using there.tail
  have close : i + (91 :: (body ++ closing)).length - 1 =
      i + 1 + (body ++ closing).length - 1 := by
    rw [length_cons]
    omega
  have ends := closes.endsAt (i + 1)
  unfold classMatches
  rw [atomEnd_eq (.oneOf spells plain closes) there whole, ok_bind,
    checkedSub_bind (by rw [length_cons]; omega), checked_bind (by omega), close,
    negatedClass_plain ends plain inside, ok_bind, if_neg (by decide),
    classContains_eq spells v inside ends (by omega), Bool.false_or]

theorem classMatches_noneOf {body closing : List UInt8} (spells : SpellsRanges body ranges)
    (closes : Closes body closing behind)
    (there : At pattern.bytes i (91 :: 94 :: (body ++ closing) ++ behind))
    (whole : stop = i + (91 :: 94 :: (body ++ closing) ++ behind).length) (v : UInt8) :
    classMatches pattern i stop v.toNat = .ok (!inRanges ranges v) := by
  have small := position_lt there
  rw [length_append, length_cons, length_cons] at small
  have signAt : At pattern.bytes (i + 1) (94 :: (body ++ (closing ++ behind))) := by
    simpa using there.tail
  have inside := signAt.tail
  have close : i + (91 :: 94 :: (body ++ closing)).length - 1 =
      i + 1 + 1 + (body ++ closing).length - 1 := by
    rw [length_cons, length_cons]
    omega
  have some : 1 ≤ (body ++ closing).length := by
    cases closes with
    | bracket =>
      rw [length_append, length_singleton]
      omega
    | escaped => simp
  have ends := closes.endsAt (i + 1 + 1)
  unfold classMatches
  rw [atomEnd_eq (.noneOf spells closes) there whole, ok_bind,
    checkedSub_bind (by rw [length_cons]; omega), checked_bind (by omega), close,
    negatedClass_sign (by omega) signAt, ok_bind, if_pos rfl, checked_bind (by omega),
    classContains_eq spells v inside ends (by omega), ok_bind, Bool.false_or]

/-- **An atom matches the bytes that it accepts.** -/
theorem atomMatches_eq (spells : SpellsAtom spelling behind atom)
    (there : At pattern.bytes i (spelling ++ behind))
    (whole : stop = i + (spelling ++ behind).length) (v : UInt8) :
    atomMatches pattern i stop v.toNat = .ok (atom.accepts v) := by
  have small := position_lt there
  rw [← whole] at small
  cases spells with
  | any =>
    unfold atomMatches
    rw [byteAt_bind there, if_pos (by decide)]
    rfl
  | literal byte behind plain =>
    obtain ⟨_, notAny, notClass, notEscape⟩ := not_special plain
    unfold atomMatches
    rw [byteAt_bind there, if_neg notAny, if_neg notEscape, if_neg notClass]
    congr 1
    rw [Bool.eq_iff_iff]
    simp [Atom.accepts, UInt8.toNat_inj]
  | escaped =>
    rw [length_append, length_cons, length_singleton] at whole
    unfold atomMatches
    rw [byteAt_bind there, if_neg (by decide), if_pos (by decide), checked_bind (by omega), if_pos (by omega),
      byteAt_bind there.tail]
    congr 1
    rw [Bool.eq_iff_iff]
    simp [Atom.accepts, UInt8.toNat_inj]
  | oneOf spells plain closes =>
    unfold atomMatches
    rw [byteAt_bind there, if_neg (by decide), if_neg (by decide), if_pos (by decide)]
    exact classMatches_oneOf spells plain closes there whole v
  | noneOf spells closes =>
    unfold atomMatches
    rw [byteAt_bind there, if_neg (by decide), if_neg (by decide), if_pos (by decide)]
    exact classMatches_noneOf spells closes there whole v

end

end FoundationLang.Standard.Pattern
