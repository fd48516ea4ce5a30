/-
**The patterns that `IsValid` accepts are the texts of patterns.**
-/

import FoundationLang.Standard.PatternSyntax
import Mathlib.Data.List.TakeWhile

namespace FoundationLang.Standard.Pattern

open Library Outcome List

variable {body : List UInt8} {pieces : List Piece} {spelling behind : List UInt8} {atom : Atom}
variable {rest : List UInt8}

/-! ### Classes -/

theorem class_cases (size : ℕ) : ∀ bytes : List UInt8, bytes.length ≤ size →
    (∃ body rest, Units body ∧ bytes = body ++ 93 :: rest) ∨ Units bytes ∨
      ∃ body, Units body ∧ bytes = body ++ [92] := by
  induction size with
  | zero =>
    intro bytes small
    rw [eq_nil_of_length_eq_zero (Nat.le_zero.mp small)]
    exact .inr (.inl .nil)
  | succ size ih =>
    intro bytes small
    -- What is said of the bytes behind one byte of the class is said of all of them.
    have behind : ∀ {spelling rest : List UInt8} {b : UInt8}, SpellsByte spelling b →
        rest.length ≤ size → (∃ body tail, Units body ∧ spelling ++ rest = body ++ 93 :: tail) ∨
          Units (spelling ++ rest) ∨ ∃ body, Units body ∧ spelling ++ rest = body ++ [92] := by
      intro spelling rest b x small
      rcases ih rest small with ⟨body, tail, units, rfl⟩ | units | ⟨body, units, rfl⟩
      · exact .inl ⟨spelling ++ body, tail, .cons x units, (append_assoc _ _ _).symm⟩
      · exact .inr (.inl (.cons x units))
      · exact .inr (.inr ⟨spelling ++ body, .cons x units, (append_assoc _ _ _).symm⟩)
    cases bytes with
    | nil => exact .inr (.inl .nil)
    | cons b bytes =>
      rw [length_cons] at small
      by_cases close : b = 93
      · exact .inl ⟨[], bytes, .nil, by rw [close]; rfl⟩
      · by_cases escape : b = 92
        · subst escape
          cases bytes with
          | nil => exact .inr (.inr ⟨[], .nil, rfl⟩)
          | cons next =>
            rw [length_cons] at small
            exact behind (.escaped next) (by omega)
        · exact behind (.plain b escape close) (by omega)

theorem Units.tail {b : UInt8} (units : Units (b :: rest))
    (notEscape : b ≠ 92) : Units rest := by
  generalize whole : b :: rest = bytes at units
  cases units with
  | nil => cases whole
  | cons x others =>
    cases x with
    | plain =>
      obtain ⟨rfl, rfl⟩ := cons_eq_cons.mp whole
      exact others
    | escaped =>
      obtain ⟨rfl, _⟩ := cons_eq_cons.mp whole
      exact absurd rfl notEscape

theorem Units.ranges (size : ℕ) : ∀ {body : List UInt8}, body.length ≤ size → Units body →
    ∃ ranges, SpellsRanges body ranges := by
  induction size with
  | zero =>
    intro body small units
    rw [eq_nil_of_length_eq_zero (Nat.le_zero.mp small)]
    exact ⟨[], .nil⟩
  | succ size ih =>
    intro body small units
    cases units with
    | nil => exact ⟨[], .nil⟩
    | @cons spelling rest b x others =>
      have pos : 1 ≤ spelling.length := by cases x <;> simp
      rw [length_append] at small
      by_cases alone : ∀ next tail, rest ≠ 45 :: next :: tail
      · obtain ⟨ranges, spells⟩ := ih (by omega) others
        exact ⟨_, .single x alone spells⟩
      · simp only [not_forall, not_not] at alone
        obtain ⟨next, tail, rfl⟩ := alone
        have later := others.tail (by decide)
        generalize behindDash : next :: tail = bytes at later
        cases later with
        | nil => cases behindDash
        | @cons spelling' rest' b' last others =>
          rw [length_cons, behindDash, length_append] at small
          obtain ⟨ranges, spells⟩ := ih (by omega) others
          exact ⟨_, .range x last spells⟩

theorem classEnd_beyond (pattern : Text) {stop cursor : ℕ} (k : ℕ) (behind : stop ≤ cursor) :
    classEnd pattern stop cursor k = .ok stop := by
  cases k with
  | zero => rfl
  | succ =>
    unfold classEnd
    rw [if_neg (Nat.not_lt.mpr behind)]

section

variable {pattern : Text} {cursor stop : ℕ}
variable {region : List UInt8}

theorem classEnd_backslash {k : ℕ} {body rest : List UInt8} (units : Units body)
    (there : At pattern.bytes cursor (body ++ 92 :: rest)) (inside : cursor + body.length + 1 = stop)
    (enough : body.length < k) : classEnd pattern stop cursor k = .ok stop := by
  have small := position_lt there
  rw [length_append, length_cons] at small
  have before : cursor + body.length ≤ stop := by omega
  obtain ⟨rounds', enough', same⟩ := classEnd_units units there before (Nat.le_of_lt enough)
  obtain ⟨rounds', rfl⟩ : ∃ previous, rounds' = previous + 1 := ⟨rounds' - 1, by omega⟩
  rw [same]
  unfold classEnd
  rw [if_pos (by omega), byteAt_bind there.right, if_pos (by decide), checked_bind (by omega)]
  apply classEnd_beyond
  omega

/-- The result of a check of an atom, when there is one: the atom in front of the rest. -/
def AtomRead (cursor : ℕ) (region : List UInt8) (result : Option ℕ) : Prop :=
  ∀ next ∈ result, ∃ spelling behind atom, region = spelling ++ behind ∧
    SpellsAtom spelling behind atom ∧ next = cursor + spelling.length

theorem atomRead_none : AtomRead cursor region none := by
  intro next mem
  cases mem

theorem atomRead_some
    (spells : SpellsAtom spelling behind atom) :
    AtomRead cursor (spelling ++ behind) (some (cursor + spelling.length)) := by
  intro next mem
  obtain rfl := Option.some.inj mem
  exact ⟨spelling, behind, atom, rfl, spells, rfl⟩

theorem validClass_eq {inside rest : List UInt8} (units : Units inside) (some : inside ≠ [])
    (more : inside ≠ [94]) (there : At pattern.bytes cursor (91 :: (inside ++ rest))) {close : ℕ}
    (closed : unclosedClass pattern close stop = .ok false)
    (ends : EndsAt (close - 1) (cursor + 1) inside) :
    validClass pattern cursor close stop = .ok (Option.some close) := by
  have small := position_lt there
  rw [length_cons, length_append] at small
  have going : ∀ {i : ℕ} {part : List UInt8}, Units part → part ≠ [] →
      EndsAt (close - 1) i part → i < close - 1 := by
    intro i part units some ends
    cases units with
    | nil => exact absurd rfl some
    | cons x others => exact ends.going x others
  have before := going units some ends
  unfold validClass
  rw [closed, ok_bind, if_neg (by decide), checkedSub_bind (by omega), checked_bind (by omega)]
  by_cases negated : inside.head? = Option.some 94
  · obtain ⟨rest', rfl⟩ := List.head?_eq_some_iff.mp negated
    have signEnds : EndsAt (close - 1) (cursor + 1) ([94] ++ rest') := ends
    have behind : cursor + 1 + 1 < close - 1 :=
      going (units.tail (by decide)) (fun empty => more (by rw [empty])) signEnds.rest
    rw [negatedClass_sign before there.tail, ok_bind, if_pos rfl, checked_bind (by omega),
      if_neg (Nat.not_le.mpr behind)]
  · rw [negatedClass_plain ends negated there.tail, ok_bind, if_neg (by decide),
      checked_bind (by omega), if_neg (Nat.not_le.mpr before)]

theorem byteAt_last {last : UInt8} (there : At pattern.bytes cursor (region ++ [last]))
    (whole : stop = cursor + (region ++ [last]).length) :
    byteAt pattern (stop - 1) = .ok last.toNat := by
  have same : stop - 1 = cursor + region.length := by
    rw [whole, length_append, length_singleton]
    omega
  rw [same]
  exact byteAt_eq there.right

theorem unclosed_bracket (last : spelling.getLast? = some 93)
    (there : At pattern.bytes cursor (spelling ++ behind))
    (whole : stop = cursor + (spelling ++ behind).length) :
    unclosedClass pattern (cursor + spelling.length) stop = .ok false := by
  unfold unclosedClass
  by_cases final : cursor + spelling.length = stop
  · rw [whole, length_append] at final
    obtain rfl : behind = [] := eq_nil_of_length_eq_zero (by omega)
    obtain ⟨_, rfl⟩ := List.getLast?_eq_some_iff.mp last
    rw [append_nil] at there whole
    rw [if_pos whole.symm, byteAt_last there whole]
    rfl
  · rw [if_neg final]

/-- A class ends with a bracket byte. -/
theorem Closes.getLast? {closing behind : List UInt8} (closes : Closes body closing behind)
    (front : List UInt8) : (front ++ (body ++ closing)).getLast? = some 93 := by
  cases closes with
  | bracket => rw [← append_assoc, List.getLast?_concat]
  | escaped =>
    rw [append_nil, ← append_assoc, List.getLast?_append_of_ne_nil _ (by decide)]
    rfl

theorem Closes.some {closing behind : List UInt8} (closes : Closes body closing behind) :
    body ≠ [] := by
  cases closes with
  | bracket some => exact some
  | escaped => simp

theorem validAtom_class {inside closing behind : List UInt8}
    (spells : SpellsAtom (91 :: (inside ++ closing)) behind atom) (units : Units inside)
    (some : inside ≠ []) (more : inside ≠ [94])
    (last : (91 :: (inside ++ closing)).getLast? = Option.some 93)
    (ends : EndsAt (cursor + (91 :: (inside ++ closing)).length - 1) (cursor + 1) inside)
    (there : At pattern.bytes cursor (91 :: (inside ++ closing) ++ behind))
    (whole : stop = cursor + (91 :: (inside ++ closing) ++ behind).length) :
    validAtom pattern cursor stop =
      .ok (Option.some (cursor + (91 :: (inside ++ closing)).length)) := by
  unfold validAtom
  rw [byteAt_bind there, if_neg (by decide), if_neg (by decide), if_pos (by decide),
    atomEnd_eq spells there whole, ok_bind]
  exact validClass_eq units some more (by simpa using there) (unclosed_bracket last there whole) ends

/-- **A spelled atom passes its check.** -/
theorem validAtom_eq
    (spells : SpellsAtom spelling behind atom)
    (there : At pattern.bytes cursor (spelling ++ behind))
    (whole : stop = cursor + (spelling ++ behind).length) :
    validAtom pattern cursor stop = .ok (some (cursor + spelling.length)) := by
  have small := position_lt there
  rw [length_append] at small whole
  cases spells with
  | any =>
    rw [length_singleton] at small
    unfold validAtom
    rw [byteAt_bind there, if_neg (by decide), if_neg (by decide), if_neg (by decide),
      checked_eq (by omega)]
    rfl
  | literal b behind plain =>
    obtain ⟨supported, _, notClass, notEscape⟩ := not_special plain
    rw [length_singleton] at small
    unfold validAtom
    rw [byteAt_bind there, if_neg (by simp [supported]), if_neg notEscape, if_neg notClass,
      checked_eq (by omega)]
    rfl
  | escaped b =>
    have size : ([92, b] : List UInt8).length = 2 := rfl
    rw [size] at small whole
    unfold validAtom
    rw [byteAt_bind there, if_neg (by decide), if_pos (by decide), checked_bind (by omega), if_neg (by omega)]
    rfl
  | @oneOf body closing behind ranges ranged plain closes =>
    have ends := closes.endsAt (cursor + 1)
    refine validAtom_class (.oneOf ranged plain closes) ranged.units closes.some ?_
      (closes.getLast? [91]) ?_ there (by rw [length_append]; exact whole)
    · rintro rfl
      exact plain rfl
    · rwa [length_cons, Nat.add_comm _ 1, ← Nat.add_assoc]
  | @noneOf body closing behind ranges ranged closes =>
    have sign : SpellsByte [94] 94 := .plain 94 (by decide) (by decide)
    have ends : EndsAt (cursor + (91 :: (94 :: body ++ closing)).length - 1) (cursor + 1)
        (94 :: body) := by
      have inner := closes.endsAt (cursor + 1 + 1)
      rcases inner with same | ⟨same, bracket⟩
      · left
        simp only [length_cons, length_append] at same ⊢
        omega
      · refine .inr ⟨?_, fun last mem => bracket last ?_⟩
        · simp only [length_cons, length_append] at same ⊢
          omega
        · rwa [← singleton_append, List.getLast?_append_of_ne_nil _ closes.some] at mem
    have spells : SpellsAtom (91 :: (94 :: body ++ closing)) behind (.noneOf ranges) :=
      .noneOf ranged closes
    exact validAtom_class spells (.cons sign ranged.units) (cons_ne_nil _ _)
      (by simpa using closes.some) (closes.getLast? [91, 94]) ends there
      (by rw [length_append]; exact whole)

/-- Bytes of a class that end with a bracket leave the class open. -/
theorem closes_open {inside : List UInt8} (units : Units inside)
    (last : inside.getLast? = some 93) : Closes inside [] [] := by
  obtain ⟨front, rfl⟩ := units.ends_escaped last
  exact .escaped front

theorem spells_class {inside closing behind : List UInt8} (units : Units inside)
    (some : inside ≠ []) (more : inside ≠ [94])
    (closes : ∀ part, Units part → part <:+ inside → part ≠ [] → Closes part closing behind) :
    ∃ atom, SpellsAtom (91 :: (inside ++ closing)) behind atom := by
  by_cases negated : inside.head? = Option.some 94
  · obtain ⟨rest, rfl⟩ := List.head?_eq_some_iff.mp negated
    have others := units.tail (by decide)
    obtain ⟨ranges, spells⟩ := others.ranges _ (Nat.le_refl _)
    exact ⟨_, .noneOf spells (closes rest others (suffix_cons _ _) fun none => more (by rw [none]))⟩
  · obtain ⟨_, spells⟩ := units.ranges _ (Nat.le_refl _)
    exact ⟨_, .oneOf spells negated (closes inside units (suffix_refl _) some)⟩

theorem spells_open {inside : List UInt8} (units : Units inside)
    (last : inside.getLast? = some 93) : ∃ atom, SpellsAtom (91 :: inside) [] atom := by
  have spelled := @spells_class inside [] [] units
    (by rintro rfl; cases last) (by rintro rfl; exact absurd last (by decide)) ?_
  · rwa [append_nil] at spelled
  · rintro _ others ⟨_, rfl⟩ some
    rw [List.getLast?_append_of_ne_nil _ some] at last
    exact closes_open others last

theorem validAtom_start (there : At pattern.bytes cursor (91 :: rest)) :
    validAtom pattern cursor stop =
      classEnd pattern stop (cursor + 1) (stop - (cursor + 1)) >>=
        fun close => validClass pattern cursor close stop := by
  have small := position_lt there
  rw [length_cons] at small
  unfold validAtom atomEnd
  rw [byteAt_bind there, if_neg (by decide), if_neg (by decide), if_pos (by decide),
    byteAt_bind there, checked_bind (by omega), if_neg (by decide), if_neg (by decide)]

/-- A class without a byte, with or without `^`, does not pass. -/
theorem validAtom_empty {inside behind : List UInt8} (empty : inside = [] ∨ inside = [94])
    (there : At pattern.bytes cursor (91 :: (inside ++ [93]) ++ behind))
    (whole : stop = cursor + (91 :: (inside ++ [93]) ++ behind).length) :
    validAtom pattern cursor stop = .ok none := by
  have small := position_lt there
  have bracket : (91 :: (inside ++ [93])).getLast? = some 93 := by
    rw [← cons_append, List.getLast?_concat]
  have closed := unclosed_bracket bracket there whole
  have inner : At pattern.bytes (cursor + 1) (inside ++ 93 :: behind) := by simpa using there.tail
  simp only [length_append, length_cons, length_nil] at small whole
  have sign : SpellsByte [94] 94 := .plain 94 (by decide) (by decide)
  have close : cursor + 1 + inside.length + 1 = cursor + (91 :: (inside ++ [93])).length := by
    rw [length_cons, length_append, length_singleton]
    omega
  have units : Units inside := by
    rcases empty with rfl | rfl
    · exact .nil
    · exact .cons sign .nil
  rw [validAtom_start there, classEnd_bracket units inner (by omega) (by omega), ok_bind, close]
  unfold validClass
  rw [closed, ok_bind, if_neg (by decide), ← close, checkedSub_bind (by omega),
    checked_bind (by omega), Nat.add_sub_cancel]
  rcases empty with rfl | rfl
  · have ends : EndsAt (cursor + 1) (cursor + 1) [] := .inl rfl
    rw [length_nil, Nat.add_zero, negatedClass_plain ends (by simp) inner, ok_bind,
      if_neg (by decide), checked_bind (by omega), if_pos (Nat.le_refl _)]
  · rw [length_singleton, negatedClass_sign (Nat.lt_succ_self _) inner, ok_bind, if_pos rfl,
      checked_bind (by omega), if_pos (Nat.le_refl _)]

/-- A class that ends with the pattern, and with another byte than a bracket, does not pass. -/
theorem validAtom_unclosed {rest front : List UInt8} {last : UInt8}
    (there : At pattern.bytes cursor (91 :: rest)) (whole : stop = cursor + (91 :: rest).length)
    (ends : classEnd pattern stop (cursor + 1) (stop - (cursor + 1)) = .ok stop)
    (shape : 91 :: rest = front ++ [last]) (y : last ≠ 93) :
    validAtom pattern cursor stop = .ok none := by
  have ne : last.toNat ≠ 93 := fun same => y ((toNat_eq_iff (by decide)).mp same)
  have unclosed : unclosedClass pattern stop stop = .ok true := by
    unfold unclosedClass
    rw [if_pos rfl, byteAt_last (shape ▸ there) (shape ▸ whole), ok_bind, bne_iff_ne.mpr ne]
  rw [validAtom_start there, ends, ok_bind]
  unfold validClass
  rw [unclosed, ok_bind, if_pos rfl]

theorem validAtom_class_ok (there : At pattern.bytes cursor (91 :: rest))
    (whole : stop = cursor + (91 :: rest).length) :
    ∃ result, validAtom pattern cursor stop = .ok result ∧ AtomRead cursor (91 :: rest) result := by
  have passes : ∀ {spelling behind : List UInt8} {atom : Atom}, SpellsAtom spelling behind atom →
      91 :: rest = spelling ++ behind → ∃ result, validAtom pattern cursor stop = .ok result ∧
        AtomRead cursor (91 :: rest) result := by
    intro spelling behind atom spells same
    rw [same] at there whole ⊢
    exact ⟨_, validAtom_eq spells there whole, atomRead_some spells⟩
  have size := whole
  rw [length_cons] at size
  rcases class_cases _ rest (Nat.le_refl _) with ⟨body, behind, units, rfl⟩ | units | ⟨body, units, rfl⟩
  · have shape : 91 :: (body ++ 93 :: behind) = 91 :: (body ++ [93]) ++ behind := by simp
    by_cases empty : body = [] ∨ body = [94]
    · rw [shape] at there whole
      exact ⟨none, validAtom_empty empty there whole, atomRead_none⟩
    · obtain ⟨some, more⟩ := not_or.mp empty
      obtain ⟨atom, spells⟩ := spells_class units some more
        (fun part _ _ some => (.bracket some : Closes part [93] behind))
      exact passes spells shape
  · obtain ⟨front, last, shape⟩ : ∃ front last, 91 :: rest = front ++ [last] :=
      ⟨_, _, (dropLast_append_getLast (cons_ne_nil 91 rest)).symm⟩
    by_cases bracket : last = 93
    · have some : rest ≠ [] := by
        rintro rfl
        rw [bracket] at shape
        cases front with
        | nil => cases shape
        | cons => simp at shape
      have final : rest.getLast? = Option.some 93 := by
        have whole := congrArg List.getLast? shape
        rwa [← singleton_append, List.getLast?_append_of_ne_nil _ some, List.getLast?_concat,
          bracket] at whole
      obtain ⟨atom, spells⟩ := spells_open units final
      exact passes spells (append_nil _).symm
    · have inside : At pattern.bytes (cursor + 1) (rest ++ []) := by simpa using there.tail
      have ends := classEnd_open units inside (by omega : cursor + 1 + rest.length = stop)
        (by omega : rest.length ≤ stop - (cursor + 1))
      exact ⟨none, validAtom_unclosed there whole ends shape bracket, atomRead_none⟩
  · rw [length_append, length_singleton] at size
    have ends := classEnd_backslash units there.tail
      (by omega : cursor + 1 + body.length + 1 = stop)
      (by omega : body.length < stop - (cursor + 1))
    exact ⟨none, validAtom_unclosed there whole ends (cons_append).symm (by decide), atomRead_none⟩

/-- **The check of an atom.** It does not panic, and what passes is an atom. -/
theorem validAtom_ok (some : region ≠ []) (there : At pattern.bytes cursor region)
    (whole : stop = cursor + region.length) :
    ∃ result, validAtom pattern cursor stop = .ok result ∧ AtomRead cursor region result := by
  have small := position_lt there
  obtain ⟨b, rest, rfl⟩ := exists_cons_of_ne_nil some
  rw [length_cons] at small whole
  by_cases opening : b = 91
  · subst opening
    exact validAtom_class_ok there (by rw [length_cons]; exact whole)
  unfold validAtom
  rw [byteAt_bind there]
  by_cases bad : unsupported b.toNat = true
  · rw [if_pos bad]
    exact ⟨_, rfl, atomRead_none⟩
  rw [if_neg bad]
  by_cases escape : b.toNat = 92
  · obtain rfl : b = 92 := (toNat_eq_iff (by decide)).mp escape
    rw [if_pos escape, checked_bind (by omega)]
    refine ⟨_, rfl, ?_⟩
    cases rest with
    | nil =>
      rw [length_nil] at whole
      rw [if_pos (by omega)]
      exact atomRead_none
    | cons next behind =>
      rw [length_cons] at whole
      rw [if_neg (by omega)]
      exact atomRead_some (.escaped next behind)
  rw [if_neg escape, if_neg fun same => opening ((toNat_eq_iff (by decide)).mp same),
    checked_bind (by omega)]
  refine ⟨_, rfl, ?_⟩
  by_cases any : b = 46
  · subst any
    exact atomRead_some (.any rest)
  · have plain : special b = false := by
      simp only [special, Bool.or_eq_false_iff, beq_eq_false_iff_ne]
      refine ⟨⟨⟨by simpa using bad, any⟩, opening⟩, fun same => escape ?_⟩
      rw [same]
      rfl
    exact atomRead_some (.literal b rest plain)

theorem quantifier_iff (v : ℕ) : quantifier v = true ↔ v = 42 ∨ v = 43 ∨ v = 63 := by
  simp [quantifier, or_assoc]

theorem skipQuantifier_ok (there : At pattern.bytes cursor region)
    (whole : stop = cursor + region.length) :
    ∃ result, skipQuantifier pattern cursor stop = .ok result ∧ ∀ next ∈ result,
      ∃ (sign : Quantifier) (behind : List UInt8), region = sign.spelling ++ behind ∧
        next = cursor + sign.spelling.length := by
  have small := position_lt there
  unfold skipQuantifier
  have none' : ∀ next ∈ some cursor, ∃ (sign : Quantifier) (behind : List UInt8),
      region = sign.spelling ++ behind ∧ next = cursor + sign.spelling.length := by
    rintro _ ⟨⟩
    exact ⟨.once, region, rfl, rfl⟩
  cases region with
  | nil =>
    rw [length_nil] at whole
    rw [if_neg (by omega)]
    exact ⟨_, rfl, none'⟩
  | cons b behind =>
    rw [length_cons] at whole small
    rw [if_pos (by omega), byteAt_bind there]
    by_cases sign : quantifier b.toNat = true
    · have spelled : ∀ next ∈ some (cursor + 1), ∃ (sign : Quantifier) (rest : List UInt8),
          b :: behind = sign.spelling ++ rest ∧ next = cursor + sign.spelling.length := by
        rintro _ ⟨⟩
        rcases (quantifier_iff _).mp sign with star | plus | optional
        · exact ⟨.star, behind, by rw [(toNat_eq_iff (by decide)).mp star]; rfl, rfl⟩
        · exact ⟨.plus, behind, by rw [(toNat_eq_iff (by decide)).mp plus]; rfl, rfl⟩
        · exact ⟨.optional, behind, by rw [(toNat_eq_iff (by decide)).mp optional]; rfl, rfl⟩
      rw [if_pos sign, checked_bind (by omega)]
      cases behind with
      | nil =>
        rw [length_nil] at whole
        rw [if_neg (by omega)]
        exact ⟨_, rfl, spelled⟩
      | cons =>
        rw [length_cons] at whole
        rw [if_pos (by omega), byteAt_bind there.tail]
        refine ⟨_, rfl, ?_⟩
        split
        · rintro _ ⟨⟩
        · exact spelled
    · rw [if_neg sign]
      exact ⟨_, rfl, none'⟩

/-- **The check of a pattern between its anchors.** -/
theorem validPattern_ok (k : ℕ) : ∀ {cursor : ℕ} {region : List UInt8},
    At pattern.bytes cursor region → stop = cursor + region.length → region.length ≤ k →
    ∃ valid, validPattern pattern stop cursor k = .ok valid ∧
      (valid = true → ∃ pieces, Spells region pieces) := by
  induction k with
  | zero =>
    intro cursor region there whole enough
    obtain rfl := eq_nil_of_length_eq_zero (Nat.le_zero.mp enough)
    exact ⟨true, rfl, fun _ => ⟨[], .nil⟩⟩
  | succ k ih =>
    intro cursor region there whole enough
    unfold validPattern
    by_cases empty : region = []
    · subst empty
      rw [length_nil] at whole
      rw [if_neg (by omega)]
      exact ⟨true, rfl, fun _ => ⟨[], .nil⟩⟩
    · have pos := length_pos_iff.mpr empty
      obtain ⟨result, checked, read⟩ := validAtom_ok empty there whole
      rw [if_pos (by omega), checked, ok_bind]
      cases result with
      | none => exact ⟨false, rfl, by rintro ⟨⟩⟩
      | some next =>
        obtain ⟨spelling, behind, atom, rfl, spells, rfl⟩ := read next rfl
        have some : 1 ≤ spelling.length := by cases spells <;> simp
        rw [length_append] at whole enough
        have whole' : stop = cursor + spelling.length + behind.length := by omega
        obtain ⟨result, skipped, read⟩ := skipQuantifier_ok there.right whole'
        dsimp only
        rw [skipped, ok_bind]
        cases result with
        | none => exact ⟨false, rfl, by rintro ⟨⟩⟩
        | some next =>
          obtain ⟨sign, rest, rfl, rfl⟩ := read next rfl
          rw [length_append] at whole enough
          obtain ⟨valid, same, pieces⟩ := ih there.right.right (by omega) (by omega)
          refine ⟨valid, same, fun ran => ?_⟩
          obtain ⟨pieces, others⟩ := pieces ran
          exact ⟨_, .cons sign spells others⟩

end

/-! ### Anchors -/

/-- The number of backslashes at the end. -/
def escapesAtEnd (bytes : List UInt8) : ℕ :=
  (bytes.reverse.takeWhile (· == 92)).length

theorem escapesAtEnd_concat (bytes : List UInt8) (b : UInt8) :
    escapesAtEnd (bytes ++ [b]) = if b = 92 then escapesAtEnd bytes + 1 else 0 := by
  unfold escapesAtEnd
  rw [reverse_append, reverse_singleton, singleton_append, takeWhile_cons]
  by_cases escape : b = 92
  · simp [escape]
  · simp [escape]

/-- Bytes where a backslash always has another byte behind it. -/
inductive Tokens : List UInt8 → Prop
  | nil : Tokens []
  | plain {bytes : List UInt8} (byte : UInt8) (notEscape : byte ≠ 92) (others : Tokens bytes) :
      Tokens (byte :: bytes)
  | escaped {bytes : List UInt8} (byte : UInt8) (others : Tokens bytes) :
      Tokens (92 :: byte :: bytes)

theorem Tokens.append {front back : List UInt8} (x : Tokens front) (y : Tokens back) :
    Tokens (front ++ back) := by
  induction x with
  | nil => exact y
  | plain b notEscape _ ih => exact .plain b notEscape ih
  | escaped b _ ih => exact .escaped b ih

/-- Is the last byte a backslash that escapes the next byte? -/
def pending (bytes : List UInt8) : Bool :=
  bytes.foldl (fun before byte => !before && byte == 92) false

theorem pending_eq (bytes : List UInt8) : pending bytes = decide (escapesAtEnd bytes % 2 = 1) := by
  induction bytes using List.reverseRecOn with
  | nil => rfl
  | append_singleton bytes b ih =>
    unfold pending at ih ⊢
    rw [foldl_append, ih, escapesAtEnd_concat]
    by_cases escape : b = 92
    · rw [if_pos escape, escape, Bool.eq_iff_iff]
      simp
      omega
    · simp [escape]

theorem Tokens.pending_eq {bytes : List UInt8} (tokens : Tokens bytes) : pending bytes = false := by
  induction tokens with
  | nil => rfl
  | @plain bytes b notEscape others ih =>
    have step : pending (b :: bytes) = pending bytes := by
      unfold pending
      rw [foldl_cons, beq_eq_false_iff_ne.mpr notEscape]
      rfl
    rw [step, ih]
  | @escaped bytes b others ih =>
    have step : pending (92 :: b :: bytes) = pending bytes := by
      simp [pending]
    rw [step, ih]

/-- The backslashes at the end come in pairs. -/
theorem Tokens.even {bytes : List UInt8} (tokens : Tokens bytes) : escapesAtEnd bytes % 2 = 0 := by
  have none := tokens.pending_eq
  rw [Pattern.pending_eq, decide_eq_false_iff_not] at none
  omega

theorem SpellsByte.tokens {spelling : List UInt8} {b : UInt8} (spells : SpellsByte spelling b) :
    Tokens spelling := by
  cases spells with
  | plain b notEscape => exact .plain b notEscape .nil
  | escaped b => exact .escaped b .nil

theorem Units.tokens (units : Units body) : Tokens body := by
  induction units with
  | nil => exact .nil
  | cons x _ ih => exact x.tokens.append ih

theorem SpellsAtom.tokens
    (spells : SpellsAtom spelling behind atom) : Tokens spelling := by
  have closing : ∀ {body closing behind : List UInt8}, Closes body closing behind → Tokens closing := by
    intro body closing behind closes
    cases closes with
    | bracket => exact .plain 93 (by decide) .nil
    | escaped => exact .nil
  cases spells with
  | any => exact .plain 46 (by decide) .nil
  | literal b behind plain =>
    obtain ⟨_, _, _, notEscape⟩ := not_special plain
    exact .plain b (fun same => notEscape (by rw [same]; rfl)) .nil
  | escaped b => exact .escaped b .nil
  | oneOf spells plain closes =>
    exact .plain 91 (by decide) (spells.units.tokens.append (closing closes))
  | noneOf spells closes =>
    exact .plain 91 (by decide) (.plain 94 (by decide) (spells.units.tokens.append (closing closes)))

theorem Quantifier.tokens (quantifier : Quantifier) : Tokens quantifier.spelling := by
  cases quantifier with
  | once => exact .nil
  | star => exact .plain 42 (by decide) .nil
  | plus => exact .plain 43 (by decide) .nil
  | optional => exact .plain 63 (by decide) .nil

theorem Spells.tokens (spells : Spells body pieces) : Tokens body := by
  induction spells with
  | nil => exact .nil
  | cons quantifier x _ ih =>
    exact x.tokens.append (quantifier.tokens.append ih)

theorem SpellsAtom.dollar {spelling behind front : List UInt8}
    (spells : SpellsAtom spelling behind atom) (whole : spelling = front ++ [36]) : front = [92] := by
  have last : spelling.getLast? = some 36 := by rw [whole, List.getLast?_concat]
  cases spells with
  | any => simp at last
  | literal b behind plain =>
    obtain rfl := Option.some.inj last
    exact absurd plain (by decide)
  | escaped b =>
    have same : ([92] ++ [b] : List UInt8) = front ++ [36] := whole
    exact (append_inj' same rfl).1.symm
  | oneOf spells plain closes =>
    have bracket := closes.getLast? [91]
    rw [singleton_append, last] at bracket
    exact absurd bracket (by decide)
  | noneOf spells closes =>
    have bracket := closes.getLast? [91, 94]
    rw [cons_append, singleton_append, last] at bracket
    exact absurd bracket (by decide)

theorem Spells.dollar (spells : Spells body pieces) :
    ∀ {front : List UInt8}, body = front ++ [36] →
      ∃ before, front = before ++ [92] ∧ Tokens before := by
  induction spells with
  | nil =>
    intro front whole
    simp at whole
  | @cons spelling behind atom pieces quantifier x others ih =>
    intro front whole
    by_cases empty : behind = []
    · subst empty
      have last := congrArg List.getLast? whole
      rw [List.getLast?_concat, append_nil] at last
      cases quantifier with
      | once =>
        obtain rfl := x.dollar (by simpa [Quantifier.spelling] using whole)
        exact ⟨[], rfl, .nil⟩
      | star | plus | optional =>
        rw [Quantifier.spelling, List.getLast?_concat] at last
        exact absurd last (by decide)
    · obtain ⟨rest, last, rfl⟩ : ∃ rest last, behind = rest ++ [last] :=
        ⟨_, _, (dropLast_append_getLast empty).symm⟩
      rw [← append_assoc, ← append_assoc] at whole
      obtain ⟨rfl, same⟩ := append_inj' whole rfl
      obtain rfl := singleton_inj.mp same
      obtain ⟨before, rfl, tokens⟩ := ih rfl
      exact ⟨spelling ++ quantifier.spelling ++ before, by simp,
        (x.tokens.append quantifier.tokens).append tokens⟩

theorem escapesAtEnd_le (bytes : List UInt8) : escapesAtEnd bytes ≤ bytes.length := by
  have least := (takeWhile_sublist (· == 92) (l := bytes.reverse)).length_le
  rwa [length_reverse] at least

section

variable {pattern : Text} {start stop : ℕ}

theorem escapesBefore_eq (front : List UInt8) : ∀ {cursor : ℕ}, At pattern.bytes start front →
    cursor = start + front.length → escapesBefore pattern start cursor = .ok (escapesAtEnd front) := by
  induction front using List.reverseRecOn with
  | nil =>
    intro cursor _ same
    rw [same, length_nil, Nat.add_zero]
    cases start with
    | zero => rfl
    | succ start =>
      show escapesBefore pattern (start + 1) (start + 1) = .ok 0
      unfold escapesBefore
      rw [if_neg (Nat.lt_irrefl _)]
  | append_singleton front b ih =>
    rintro cursor there rfl
    have small := position_lt there
    have bound := escapesAtEnd_le front
    rw [length_append, length_singleton] at small
    rw [length_append, length_singleton, ← Nat.add_assoc, escapesAtEnd_concat]
    unfold escapesBefore
    rw [if_pos (by omega), byteAt_bind there.right]
    by_cases escape : b = 92
    · rw [if_pos (by rw [escape]; rfl), if_pos escape, ih there.left rfl, ok_bind,
        checked_eq (by omega)]
    · rw [if_neg fun same => escape ((toNat_eq_iff (by decide)).mp same), if_neg escape]

/-- Does this part of a pattern end with an anchor? -/
def endsAnchored (region : List UInt8) : Bool :=
  region.getLast? == some 36 && escapesAtEnd region.dropLast % 2 == 0

theorem finalAnchor_eq {region : List UInt8} (there : At pattern.bytes start region)
    (whole : stop = start + region.length) :
    finalAnchor pattern start stop = .ok (endsAnchored region) := by
  unfold finalAnchor endsAnchored
  rcases eq_nil_or_concat region with rfl | ⟨front, last, rfl⟩
  · rw [length_nil] at whole
    rw [if_pos (by omega)]
    rfl
  · rw [concat_eq_append] at there whole ⊢
    have final := byteAt_last there whole
    have size : stop - 1 = start + front.length := by
      rw [whole, length_append, length_singleton]
      omega
    rw [if_neg (by rw [whole, length_append, length_singleton]; omega), final, ok_bind,
      List.getLast?_concat, dropLast_concat]
    by_cases dollar : last = 36
    · rw [if_neg (by rw [dollar]; decide), escapesBefore_eq front there.left size, ok_bind, dollar]
      rfl
    · rw [if_pos fun same => dollar ((toNat_eq_iff (by decide)).mp same)]
      have ne : (some last == some (36 : UInt8)) = false := by simpa using dollar
      rw [ne, Bool.false_and]

end

/-- The `^` of an anchored pattern. -/
def startBytes (anchored : Bool) : List UInt8 :=
  if anchored then [94] else []

/-- The `$` of an anchored pattern. -/
def endBytes (anchored : Bool) : List UInt8 :=
  if anchored then [36] else []

/-- What was found of the anchors is what the pattern has. -/
structure AnchorsRead (expression : Text) (found : Anchors) (body : List UInt8) : Prop where
  bytes : expression.bytes = startBytes found.anchoredStart ++ body ++ endBytes found.anchoredEnd
  start : found.patternStart = (startBytes found.anchoredStart).length
  stop : found.patternEnd = found.patternStart + body.length
  first : found.anchoredStart = (expression.bytes.head? == some 94)
  last : found.anchoredEnd = endsAnchored (body ++ endBytes found.anchoredEnd)

theorem startAnchor_eq (e : Text) :
    startAnchor e = .ok (e.bytes.head? == some 94) := by
  unfold startAnchor Text.byteLen
  cases same : e.bytes with
  | nil => rfl
  | cons b bytes =>
    have there : At e.bytes 0 (b :: bytes) := by
      rw [same]
      exact At.self _
    rw [if_pos (by simp), byteAt_bind there]
    congr 1
    rw [Bool.eq_iff_iff, List.head?_cons]
    simp [toNat_eq_iff]

/-- **The anchors of any text are read, and what is between them.** -/
theorem anchors_ok (e : Text) :
    ∃ found body, anchors e = .ok found ∧ AnchorsRead e found body := by
  obtain ⟨region, whole⟩ : ∃ region, e.bytes =
      startBytes (e.bytes.head? == some 94) ++ region := by
    cases same : e.bytes with
    | nil => exact ⟨[], rfl⟩
    | cons b bytes =>
      by_cases anchored : b = 94
      · exact ⟨bytes, by simp [anchored, startBytes]⟩
      · exact ⟨b :: bytes, by simp [anchored, startBytes]⟩
  obtain ⟨body, shape⟩ : ∃ body, region = body ++ endBytes (endsAnchored region) := by
    cases anchored : endsAnchored region with
    | false => exact ⟨region, by simp [endBytes]⟩
    | true =>
      unfold endsAnchored at anchored
      rw [Bool.and_eq_true, beq_iff_eq, List.getLast?_eq_some_iff] at anchored
      obtain ⟨⟨front, rfl⟩, _⟩ := anchored
      exact ⟨front, rfl⟩
  generalize x : (e.bytes.head? == some 94) = anchoredStart at whole
  generalize last : endsAnchored region = anchoredEnd at shape
  have there : At e.bytes (startBytes anchoredStart).length region :=
    ⟨startBytes anchoredStart, [], by rw [append_nil]; exact whole, rfl⟩
  have size : e.byteLen = (startBytes anchoredStart).length + region.length := by
    rw [Text.byteLen, whole, length_append]
  have startSize : (if anchoredStart = true then 1 else 0) = (startBytes anchoredStart).length := by
    cases anchoredStart <;> rfl
  have stopSize : (if anchoredEnd = true then e.byteLen - 1 else e.byteLen) =
      (startBytes anchoredStart).length + body.length := by
    rw [size, shape, length_append]
    cases anchoredEnd with
    | false => rfl
    | true =>
      show (startBytes anchoredStart).length + (body.length + 1) - 1 = _
      omega
  refine ⟨⟨anchoredStart, (startBytes anchoredStart).length, anchoredEnd,
    (startBytes anchoredStart).length + body.length⟩, body, ?_, ⟨?_, rfl, rfl, x.symm, ?_⟩⟩
  · unfold anchors
    rw [startAnchor_eq, x, ok_bind]
    dsimp only
    rw [startSize, finalAnchor_eq there size, last, ok_bind, stopSize]
  · rw [whole, shape, append_assoc]
  · rw [← shape, last]

theorem Spells.head (spells : Spells body pieces) : body.head? ≠ some 94 := by
  cases spells with
  | nil => simp
  | cons quantifier x =>
    cases x with
    | any | escaped | oneOf | noneOf => simp
    | literal b behind plain =>
      intro same
      obtain rfl := Option.some.inj same
      exact absurd plain (by decide)

theorem Spells.endsAnchored_eq (spells : Spells body pieces) (anchored : Bool) :
    endsAnchored (body ++ endBytes anchored) = anchored := by
  unfold endsAnchored
  cases anchored with
  | true =>
    show ((body ++ [36]).getLast? == some 36 && escapesAtEnd (body ++ [36]).dropLast % 2 == 0) = true
    rw [List.getLast?_concat, dropLast_concat, spells.tokens.even]
    rfl
  | false =>
    show ((body ++ []).getLast? == some 36 && escapesAtEnd (body ++ []).dropLast % 2 == 0) = false
    rw [append_nil, Bool.and_eq_false_iff]
    by_cases dollar : body.getLast? = some 36
    · obtain ⟨front, rfl⟩ := List.getLast?_eq_some_iff.mp dollar
      obtain ⟨before, rfl, tokens⟩ := spells.dollar rfl
      have even := tokens.even
      rw [dropLast_concat, escapesAtEnd_concat, if_pos rfl]
      exact .inr (beq_eq_false_iff_ne.mpr (by omega))
    · exact .inl (beq_eq_false_iff_ne.mpr dollar)

/-- **A spelled pattern is read as it is spelled.** -/
theorem anchors_eq {e : Text} {regex : Regex} (spelled : Spelled e.bytes regex) :
    ∃ body found, Spells body regex.pieces ∧ anchors e = .ok found ∧
      At e.bytes found.patternStart body ∧
      found.patternEnd = found.patternStart + body.length ∧
      found.anchoredStart = regex.anchoredStart ∧ found.anchoredEnd = regex.anchoredEnd := by
  obtain ⟨body, spells, whole⟩ := spelled
  obtain ⟨found, body', read, anchored⟩ := anchors_ok e
  have start : found.anchoredStart = regex.anchoredStart := by
    rw [anchored.first, whole]
    cases regex.anchoredStart with
    | true => rfl
    | false =>
      have head := spells.head
      cases body with
      | nil =>
        cases regex.anchoredEnd <;> rfl
      | cons b =>
        have ne : (some b == some (94 : UInt8)) = false := beq_eq_false_iff_ne.mpr head
        exact ne
  have region : body' ++ endBytes found.anchoredEnd = body ++ endBytes regex.anchoredEnd := by
    have both := anchored.bytes.symm.trans whole
    rw [start, append_assoc, append_assoc] at both
    exact append_cancel_left both
  have stop : found.anchoredEnd = regex.anchoredEnd := by
    rw [anchored.last, region]
    exact spells.endsAnchored_eq regex.anchoredEnd
  rw [stop] at region
  obtain rfl := append_cancel_right region
  refine ⟨body', found, spells, read, ?_, anchored.stop, start, stop⟩
  exact ⟨startBytes found.anchoredStart, endBytes found.anchoredEnd, anchored.bytes,
    anchored.start.symm⟩

/-- **`IsValid` does not panic, and accepts texts of patterns only.** -/
theorem isValid_ok (e : Text) : ∃ valid, isValid e = .ok valid ∧
    (valid = true → ∃ regex, Spelled e.bytes regex) := by
  unfold isValid
  split
  · exact ⟨false, rfl, by rintro ⟨⟩⟩
  · obtain ⟨found, body, read, anchored⟩ := anchors_ok e
    have there : At e.bytes found.patternStart body :=
      ⟨startBytes found.anchoredStart, endBytes found.anchoredEnd, anchored.bytes,
        anchored.start.symm⟩
    obtain ⟨valid, same, spelled⟩ := validPattern_ok (found.patternEnd - found.patternStart) there
      anchored.stop (by rw [anchored.stop]; omega)
    rw [read, ok_bind]
    refine ⟨valid, same, fun ran => ?_⟩
    obtain ⟨pieces, spells⟩ := spelled ran
    exact ⟨⟨found.anchoredStart, pieces, found.anchoredEnd⟩, body, spells, anchored.bytes⟩

end FoundationLang.Standard.Pattern
