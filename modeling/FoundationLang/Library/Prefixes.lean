/-
**Words that begin with a word of a language.**

A backtracking matcher tries one part of a pattern after the other: it looks for a beginning of the
word that is in the language of the first part, and goes on with the rest of the word. `Begins
language later word` says that this succeeds for some beginning, `later` being what is asked of the
rest.

* `begins_one`, `begins_mul`, `begins_add` — the parts of a pattern one after the other.
* `begins_symbols`, `begins_kstar_symbols` — one symbol of a kind, and any number of them: a
  beginning of such a word is given by its length.
-/

import Mathlib.Computability.Language

namespace FoundationLang.Library

open Computability List

variable {α : Type}
variable {accepts : α → Prop}

/-- The words of one symbol that is accepted. -/
def symbols (accepts : α → Prop) : Language α :=
  {word | ∃ symbol, accepts symbol ∧ word = [symbol]}

theorem mem_kstar_symbols {word : List α} :
    word ∈ (symbols accepts)∗ ↔ ∀ symbol ∈ word, accepts symbol := by
  rw [Language.mem_kstar]
  constructor
  · rintro ⟨parts, rfl, each⟩ symbol mem
    obtain ⟨part, partMember, mem⟩ := mem_flatten.mp mem
    obtain ⟨_, ran, rfl⟩ := each part partMember
    obtain rfl := mem_singleton.mp mem
    exact ran
  · intro each
    have parts : ∀ word : List α, word = (word.map fun symbol => [symbol]).flatten := by
      intro word
      induction word with
      | nil => rfl
      | cons symbol word ih =>
        rw [map_cons, flatten_cons, ← ih]
        rfl
    refine ⟨word.map fun symbol => [symbol], parts word, fun part mem => ?_⟩
    obtain ⟨symbol, inside, rfl⟩ := mem_map.mp mem
    exact ⟨symbol, each symbol inside, rfl⟩

/-- **The word begins with a word of the language, and `later` holds of the rest.** -/
def Begins (language : Language α) (later : List α → Prop) (word : List α) : Prop :=
  ∃ front back, word = front ++ back ∧ front ∈ language ∧ later back

variable {later : List α → Prop} {word : List α}

theorem begins_one : Begins 1 later word ↔ later word := by
  constructor
  · rintro ⟨front, _, rfl, mem, holds⟩
    obtain rfl := (Language.mem_one front).mp mem
    exact holds
  · exact fun holds => ⟨[], word, rfl, (Language.mem_one []).mpr rfl, holds⟩

theorem begins_mul {x y : Language α} :
    Begins (x * y) later word ↔ Begins x (Begins y later) word := by
  constructor
  · rintro ⟨_, back, rfl, mem, holds⟩
    obtain ⟨left, leftMember, right, rightMember, rfl⟩ := Language.mem_mul.mp mem
    exact ⟨left, right ++ back, append_assoc _ _ _, leftMember, right, back, rfl, rightMember,
      holds⟩
  · rintro ⟨left, _, rfl, leftMember, right, back, rfl, rightMember, holds⟩
    exact ⟨left ++ right, back, (append_assoc _ _ _).symm,
      Language.mem_mul.mpr ⟨left, leftMember, right, rightMember, rfl⟩, holds⟩

theorem begins_add {x y : Language α} :
    Begins (x + y) later word ↔ Begins x later word ∨ Begins y later word := by
  constructor
  · rintro ⟨front, back, rfl, mem, holds⟩
    rcases (Language.mem_add _ _ _).mp mem with mem | mem
    · exact .inl ⟨front, back, rfl, mem, holds⟩
    · exact .inr ⟨front, back, rfl, mem, holds⟩
  · rintro (⟨front, back, rfl, mem, holds⟩ | ⟨front, back, rfl, mem, holds⟩)
    · exact ⟨front, back, rfl, (Language.mem_add _ _ _).mpr (.inl mem), holds⟩
    · exact ⟨front, back, rfl, (Language.mem_add _ _ _).mpr (.inr mem), holds⟩

theorem begins_symbols :
    Begins (symbols accepts) later word ↔
      ∃ symbol rest, word = symbol :: rest ∧ accepts symbol ∧ later rest := by
  constructor
  · rintro ⟨_, back, rfl, ⟨symbol, ran, rfl⟩, holds⟩
    exact ⟨symbol, back, rfl, ran, holds⟩
  · rintro ⟨symbol, rest, rfl, ran, holds⟩
    exact ⟨[symbol], rest, rfl, ⟨symbol, ran, rfl⟩, holds⟩

/-- The first `count` symbols are there and are accepted, and `later` holds behind them. -/
def Takes (accepts : α → Prop) (later : List α → Prop) (word : List α) (count : ℕ) : Prop :=
  count ≤ word.length ∧ (∀ symbol ∈ word.take count, accepts symbol) ∧ later (word.drop count)

theorem takes_zero : Takes accepts later word 0 ↔ later word := by
  simp [Takes]

theorem takes_succ_cons {symbol : α} {count : ℕ} :
    Takes accepts later (symbol :: word) (count + 1) ↔
      accepts symbol ∧ Takes accepts later word count := by
  simp only [Takes, length_cons, Nat.add_le_add_iff_right, take_succ_cons,
    mem_cons, forall_eq_or_imp, drop_succ_cons]
  tauto

theorem begins_kstar_symbols :
    Begins (symbols accepts)∗ later word ↔ ∃ count, Takes accepts later word count := by
  constructor
  · rintro ⟨front, _, rfl, mem, holds⟩
    refine ⟨front.length, ?_, ?_, ?_⟩
    · simp
    · rw [take_left]
      exact mem_kstar_symbols.mp mem
    · rwa [drop_left]
  · rintro ⟨count, _, ran, holds⟩
    exact ⟨word.take count, word.drop count, (take_append_drop _ _).symm,
      mem_kstar_symbols.mpr ran, holds⟩

theorem begins_symbols_iff_takes :
    Begins (symbols accepts) later word ↔ Takes accepts later word 1 := by
  rw [begins_symbols]
  cases word with
  | nil => simp [Takes]
  | cons => rw [takes_succ_cons, takes_zero]; simp

theorem begins_mul_kstar_symbols :
    Begins (symbols accepts * (symbols accepts)∗) later word ↔
      ∃ count, 1 ≤ count ∧ Takes accepts later word count := by
  rw [begins_mul, begins_symbols]
  constructor
  · rintro ⟨symbol, rest, rfl, ran, begins⟩
    obtain ⟨count, takes⟩ := begins_kstar_symbols.mp begins
    exact ⟨count + 1, Nat.succ_pos _, takes_succ_cons.mpr ⟨ran, takes⟩⟩
  · rintro ⟨count, pos, takes⟩
    obtain ⟨count, rfl⟩ := Nat.exists_eq_add_of_le' pos
    cases word with
    | nil => simp [Takes] at takes
    | cons symbol rest =>
      obtain ⟨ran, takes⟩ := takes_succ_cons.mp takes
      exact ⟨symbol, rest, rfl, ran, begins_kstar_symbols.mpr ⟨count, takes⟩⟩

theorem begins_one_add_symbols :
    Begins (1 + symbols accepts) later word ↔ ∃ count, count ≤ 1 ∧ Takes accepts later word count := by
  rw [begins_add, begins_one, begins_symbols_iff_takes]
  constructor
  · rintro (holds | takes)
    · exact ⟨0, Nat.zero_le _, takes_zero.mpr holds⟩
    · exact ⟨1, Nat.le_refl _, takes⟩
  · rintro ⟨_, small, takes⟩
    rcases Nat.le_one_iff_eq_zero_or_eq_one.mp small with rfl | rfl
    · exact .inl (takes_zero.mp takes)
    · exact .inr takes

end FoundationLang.Library
