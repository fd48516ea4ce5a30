/-
**`IsValid` against the documented grammar of patterns.**
-/

import FoundationLang.Standard.PatternMatch

namespace FoundationLang.Standard.Pattern

open Library Outcome List

variable {body region : List UInt8} {pieces : List Piece} {pattern : Text} {cursor stop : ℕ}

/-! ### The grammar -/

/-- An atom. A class has a byte at least, and its closing bracket is not escaped. -/
inductive ClosedAtom : List UInt8 → Prop
  | any : ClosedAtom [46]
  | literal (byte : UInt8) (plain : special byte = false) : ClosedAtom [byte]
  | escaped (byte : UInt8) : ClosedAtom [92, byte]
  | oneOf {body : List UInt8} (units : Units body) (plain : body.head? ≠ some 94)
      (some : body ≠ []) : ClosedAtom (91 :: (body ++ [93]))
  | noneOf {body : List UInt8} (units : Units body) (some : body ≠ []) :
      ClosedAtom (91 :: 94 :: (body ++ [93]))

/-- Closed atoms with quantifiers. -/
inductive Atoms : List UInt8 → Prop
  | nil : Atoms []
  | cons {spelling behind : List UInt8} (quantifier : Quantifier) (first : ClosedAtom spelling)
      (others : Atoms behind) : Atoms (spelling ++ (quantifier.spelling ++ behind))

/-- Anchors around these bytes make a pattern that is not too long. -/
def Anchored (expression body : List UInt8) : Prop :=
  expression.length ≤ 1024 ∧ ∃ anchoredStart anchoredEnd,
    expression = startBytes anchoredStart ++ body ++ endBytes anchoredEnd

/-- **The documented grammar of patterns.** -/
def Documented (expression : List UInt8) : Prop :=
  ∃ body, Anchored expression body ∧ Atoms body

/-- **A pattern that ends in a class**, with an escaped bracket as the last byte of it. -/
def LeftOpen (expression : List UInt8) : Prop :=
  ∃ front inside, Anchored expression (front ++ 91 :: inside) ∧ Atoms front ∧ Units inside ∧
    inside.getLast? = some 93

/-! ### What is spelled is accepted -/

theorem skipQuantifier_eq (sign : Quantifier) (spells : Spells body pieces)
    (there : At pattern.bytes cursor (sign.spelling ++ body))
    (whole : stop = cursor + (sign.spelling ++ body).length) :
    skipQuantifier pattern cursor stop = .ok (some (cursor + sign.spelling.length)) := by
  have small := position_lt there
  rw [length_append] at whole small
  have next : ∀ {b : UInt8} {rest : List UInt8}, body = b :: rest →
      quantifier b.toNat = false := fun head => spells.not_quantifier head
  unfold skipQuantifier
  cases sign with
  | once =>
    cases body with
    | nil =>
      rw [if_neg (by rw [whole]; exact Nat.lt_irrefl _)]
      rfl
    | cons =>
      rw [length_cons] at whole
      rw [if_pos (by omega), byteAt_bind there, next rfl]
      rfl
  | star | plus | optional =>
    rw [Quantifier.spelling, length_singleton] at whole small
    rw [if_pos (by omega), byteAt_bind there, if_pos (by decide), checked_bind (by omega)]
    cases body with
    | nil =>
      rw [length_nil] at whole
      rw [if_neg (by omega)]
      rfl
    | cons b rest =>
      have behind : At pattern.bytes (cursor + 1) (b :: rest) := there.right
      rw [length_cons] at whole
      rw [if_pos (by omega), byteAt_bind behind, next rfl]
      rfl

/-- **A spelled pattern passes the check.** -/
theorem validPattern_eq (spells : Spells body pieces) : ∀ {cursor k : ℕ},
    At pattern.bytes cursor body → stop = cursor + body.length → body.length ≤ k →
    validPattern pattern stop cursor k = .ok true := by
  induction spells with
  | nil =>
    intro cursor k _ whole _
    cases k with
    | zero => rfl
    | succ =>
      unfold validPattern
      rw [if_neg (by rw [whole]; exact Nat.lt_irrefl _)]
  | @cons spelling behind atom pieces sign x others ih =>
    intro cursor k there whole enough
    have some : 1 ≤ spelling.length := by cases x <;> simp
    have read := validAtom_eq x there whole
    rw [length_append] at whole enough
    obtain ⟨k, rfl⟩ := Nat.exists_eq_add_of_le' (Nat.le_trans some (by omega : _ ≤ k))
    have skipped := skipQuantifier_eq sign others there.right (by omega : stop = _)
    rw [length_append] at whole enough
    unfold validPattern
    rw [if_pos (by omega), read, ok_bind]
    dsimp only
    rw [skipped, ok_bind]
    exact ih there.right.right (by omega) (by omega)

/-- **`IsValid` accepts exactly the spelled patterns** up to its length. -/
theorem isValid_spelled (e : Text) : ∃ valid, isValid e = .ok valid ∧
    (valid = true ↔ e.bytes.length ≤ 1024 ∧ ∃ regex, Spelled e.bytes regex) := by
  obtain ⟨valid, read, spelled⟩ := isValid_ok e
  refine ⟨valid, read, fun ran => ⟨?_, spelled ran⟩, ?_⟩
  · by_contra long
    have above : e.byteLen > 1024 := Nat.not_le.mp long
    unfold isValid at read
    rw [if_pos above] at read
    cases ran
    cases read
  · rintro ⟨short, regex, spells⟩
    obtain ⟨body, found, spells, anchored, there, whole, _⟩ := anchors_eq spells
    have below : ¬e.byteLen > 1024 := Nat.not_lt.mpr short
    unfold isValid at read
    rw [if_neg below, anchored, ok_bind, validPattern_eq spells there whole (by omega)] at read
    exact (Except.ok.inj read).symm

/-! ### The two ways to close a class -/

theorem ClosedAtom.spells {spelling : List UInt8} (closed : ClosedAtom spelling)
    (behind : List UInt8) : ∃ atom, SpellsAtom spelling behind atom := by
  cases closed with
  | any => exact ⟨_, .any behind⟩
  | literal b plain => exact ⟨_, .literal b behind plain⟩
  | escaped b => exact ⟨_, .escaped b behind⟩
  | oneOf units plain some =>
    obtain ⟨ranges, spells⟩ := units.ranges _ (Nat.le_refl _)
    exact ⟨_, .oneOf spells plain (.bracket some)⟩
  | noneOf units some =>
    obtain ⟨_, spells⟩ := units.ranges _ (Nat.le_refl _)
    exact ⟨_, .noneOf spells (.bracket some)⟩

theorem Atoms.spells {front : List UInt8} (atoms : Atoms front) (spells : Spells body pieces) :
    ∃ pieces, Spells (front ++ body) pieces := by
  induction atoms with
  | nil => exact ⟨pieces, spells⟩
  | cons sign x _ ih =>
    obtain ⟨_, others⟩ := ih
    obtain ⟨_, spelling⟩ := x.spells _
    have spelled := Spells.cons sign spelling others
    exact ⟨_, by simpa using spelled⟩

theorem SpellsAtom.closed {spelling behind : List UInt8} {atom : Atom}
    (spells : SpellsAtom spelling behind atom) : ClosedAtom spelling ∨
      behind = [] ∧ ∃ inside, spelling = 91 :: inside ∧ Units inside ∧
        inside.getLast? = some 93 := by
  cases spells with
  | any => exact .inl .any
  | literal b behind plain => exact .inl (.literal b plain)
  | escaped b => exact .inl (.escaped b)
  | oneOf ranged plain closes =>
    have last := closes.getLast? []
    cases closes with
    | bracket some => exact .inl (.oneOf ranged.units plain some)
    | escaped => exact .inr ⟨rfl, _, rfl, by simpa using ranged.units, last⟩
  | noneOf ranged closes =>
    have last := closes.getLast? [94]
    cases closes with
    | bracket some => exact .inl (.noneOf ranged.units some)
    | escaped =>
      have units : Units ([94] ++ _) := .cons (.plain 94 (by decide) (by decide)) ranged.units
      exact .inr ⟨rfl, _, rfl, by simpa using units, last⟩

theorem Spells.atoms (spells : Spells body pieces) : Atoms body ∨ ∃ front inside,
    body = front ++ 91 :: inside ∧ Atoms front ∧ Units inside ∧ inside.getLast? = some 93 := by
  induction spells with
  | nil => exact .inl .nil
  | @cons spelling behind atom pieces sign x others ih =>
    rcases x.closed with closed | ⟨empty, inside, rfl, units, last⟩
    · rcases ih with atoms | ⟨front, inside, rfl, atoms, units, last⟩
      · exact .inl (.cons sign closed atoms)
      · exact .inr ⟨spelling ++ (sign.spelling ++ front), inside, by simp,
          .cons sign closed atoms, units, last⟩
    · rw [empty, append_nil]
      exact .inr ⟨[], inside, rfl, .nil, units, last⟩

/-- One byte for a reader that knows whether it is in a class, and behind a backslash. -/
def scan (state : Bool × Bool) (byte : UInt8) : Bool × Bool :=
  if state.2 then (state.1, false)
  else if byte = 92 then (state.1, true)
  else if byte = 91 then (true, false)
  else if byte = 93 then (false, false)
  else state

theorem scan_units (units : Units body) : body.foldl scan (true, false) = (true, false) := by
  induction units with
  | nil => rfl
  | cons x _ ih =>
    rw [foldl_append]
    cases x with
    | plain b notEscape notClose => simpa [scan, notEscape, notClose] using ih
    | escaped => simpa [scan] using ih

theorem scan_atoms (atoms : Atoms body) : body.foldl scan (false, false) = (false, false) := by
  induction atoms with
  | nil => rfl
  | @cons spelling behind sign x others ih =>
    have atom : spelling.foldl scan (false, false) = (false, false) := by
      cases x with
      | any => rfl
      | literal b plain =>
        simp only [special, Bool.or_eq_false_iff, beq_eq_false_iff_ne] at plain
        simp [scan, plain]
      | escaped => rfl
      | oneOf units | noneOf units => simp [scan, scan_units units]
    have quantifier : sign.spelling.foldl scan (false, false) = (false, false) := by
      cases sign <;> rfl
    rw [foldl_append, foldl_append, atom, quantifier, ih]

theorem Anchored.scan {e : List UInt8} {inside : Bool} (anchored : Anchored e body)
    (within : body.foldl scan (false, false) = (inside, false)) :
    e.foldl Pattern.scan (false, false) = (inside, false) := by
  obtain ⟨_, anchoredStart, anchoredEnd, rfl⟩ := anchored
  have first : (startBytes anchoredStart).foldl Pattern.scan (false, false) = (false, false) := by
    cases anchoredStart <;> rfl
  have last : (endBytes anchoredEnd).foldl Pattern.scan (inside, false) = (inside, false) := by
    cases anchoredEnd <;> cases inside <;> rfl
  rw [foldl_append, foldl_append, first, within, last]

theorem Documented.not_open {expression : List UInt8} (documented : Documented expression) :
    ¬LeftOpen expression := by
  rintro ⟨_, _, around, atoms, units, _⟩
  obtain ⟨_, anchored, closed⟩ := documented
  have outside := anchored.scan (scan_atoms closed)
  have open' : expression.foldl scan (false, false) = (true, false) := by
    apply around.scan
    rw [foldl_append, scan_atoms atoms]
    exact scan_units units
  rw [outside] at open'
  cases open'

theorem spelled_iff {bytes : List UInt8} :
    (bytes.length ≤ 1024 ∧ ∃ regex, Spelled bytes regex) ↔ Documented bytes ∨ LeftOpen bytes := by
  constructor
  · rintro ⟨short, _, body, spells, whole⟩
    have anchored : Anchored bytes body := ⟨short, _, _, whole⟩
    rcases spells.atoms with atoms | ⟨front, inside, rfl, atoms, units, last⟩
    · exact .inl ⟨body, anchored, atoms⟩
    · exact .inr ⟨front, inside, anchored, atoms, units, last⟩
  · rintro (⟨body, anchored, atoms⟩ | ⟨_, _, anchored, atoms, units, last⟩)
    · obtain ⟨short, anchoredStart, anchoredEnd, whole⟩ := anchored
      obtain ⟨pieces, spells⟩ := atoms.spells .nil
      rw [append_nil] at spells
      exact ⟨short, ⟨anchoredStart, pieces, anchoredEnd⟩, body, spells, whole⟩
    · obtain ⟨short, anchoredStart, anchoredEnd, whole⟩ := anchored
      obtain ⟨_, open'⟩ := spells_open units last
      obtain ⟨pieces, spells⟩ := atoms.spells (Spells.cons .once open' .nil)
      rw [Quantifier.spelling, nil_append, append_nil] at spells
      exact ⟨short, ⟨anchoredStart, pieces, anchoredEnd⟩, _, spells, whole⟩

/-- **`IsValid` agrees with the documented grammar exactly at the patterns that do not end in an open
class.** -/
theorem isValid_documented (expression : Text) : ∃ valid, isValid expression = .ok valid ∧
    ((valid = true ↔ Documented expression.bytes) ↔ ¬LeftOpen expression.bytes) := by
  obtain ⟨valid, read, accepted⟩ := isValid_spelled expression
  rw [spelled_iff] at accepted
  refine ⟨valid, read, fun agrees leftOpen => ?_, fun closed => ?_⟩
  · exact (agrees.mp (accepted.mpr (.inr leftOpen))).not_open leftOpen
  · rw [accepted, or_iff_left closed]

/-- `[a\]` is accepted, and not of the grammar. -/
theorem isValid_leftOpen : ¬∀ expression : Text, ∃ valid, isValid expression = .ok valid ∧
    (valid = true ↔ Documented expression.bytes) := by
  intro agrees
  obtain ⟨valid, read, same⟩ := agrees ⟨[91, 97, 92, 93], by decide, by decide⟩
  have accepted : valid = true := by
    have value : isValid ⟨[91, 97, 92, 93], by decide, by decide⟩ = .ok true := by decide
    exact Except.ok.inj (read.symm.trans value)
  refine (same.mp accepted).not_open ⟨[], [97, 92, 93], ⟨by decide, false, false, rfl⟩, .nil, ?_, rfl⟩
  exact .cons (.plain 97 (by decide) (by decide)) (.cons (.escaped 93) .nil)

end FoundationLang.Standard.Pattern
