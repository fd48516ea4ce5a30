/-
**What is at a position of a sequence.**

A reader of a format goes through a sequence by positions; what it reads is said by the values from
a position on.

* `At data position values` — these values are there.
* `Cut data position front back` — the sequence is cut in two at the position.
-/

import Mathlib.Data.List.Basic

namespace FoundationLang.Library

open List

variable {α : Type}

/-- These values are at this position. -/
def At (data : List α) (position : ℕ) (values : List α) : Prop :=
  ∃ front back, data = front ++ values ++ back ∧ front.length = position

namespace At

variable {data values values' : List α} {value : α} {i : ℕ}

theorem start (values back : List α) : At (values ++ back) 0 values :=
  ⟨[], back, rfl, rfl⟩

theorem self (values : List α) : At values 0 values :=
  ⟨[], [], by simp, rfl⟩

theorem left (there : At data i (values ++ values')) : At data i values := by
  obtain ⟨front, back, rfl, same⟩ := there
  exact ⟨front, values' ++ back, by simp, same⟩

theorem right (there : At data i (values ++ values')) :
    At data (i + values.length) values' := by
  obtain ⟨front, back, rfl, rfl⟩ := there
  exact ⟨front ++ values, back, by simp, by simp⟩

theorem le (there : At data i values) : i + values.length ≤ data.length := by
  obtain ⟨front, back, rfl, rfl⟩ := there
  simp only [length_append]
  omega

theorem getElem? (there : At data i (value :: values)) : data[i]? = some value := by
  obtain ⟨_, _, rfl, rfl⟩ := there
  simp

theorem tail (there : At data i (value :: values)) : At data (i + 1) values := by
  have again : At data i ([value] ++ values) := there
  exact again.right

theorem slice (there : At data i values) :
    (data.take (i + values.length)).drop i = values := by
  obtain ⟨_, _, rfl, rfl⟩ := there
  rw [← length_append, take_left, drop_left]

end At

/-- The sequence is cut at this position. -/
def Cut (data : List α) (position : ℕ) (front back : List α) : Prop :=
  data = front ++ back ∧ front.length = position

namespace Cut

variable {data front back values : List α} {value : α} {i : ℕ}

theorem start (data : List α) : Cut data 0 [] data :=
  ⟨rfl, rfl⟩

theorem size (cut : Cut data i front back) : i + back.length = data.length := by
  obtain ⟨rfl, rfl⟩ := cut
  rw [length_append]

/-- The cut moves behind what comes next. -/
theorem move (cut : Cut data i front (values ++ back)) :
    Cut data (i + values.length) (front ++ values) back := by
  obtain ⟨rfl, rfl⟩ := cut
  exact ⟨by rw [append_assoc], by rw [length_append]⟩

theorem next (cut : Cut data i front (value :: back)) :
    Cut data (i + 1) (front ++ [value]) back := by
  have again : Cut data i front ([value] ++ back) := cut
  exact again.move

theorem getElem? (cut : Cut data i front back) : data[i]? = back.head? := by
  obtain ⟨rfl, rfl⟩ := cut
  cases back <;> simp

theorem take (cut : Cut data i front back) : data.take i = front := by
  obtain ⟨rfl, rfl⟩ := cut
  exact take_left

theorem drop (cut : Cut data i front back) : data.drop i = back := by
  obtain ⟨rfl, rfl⟩ := cut
  exact drop_left

end Cut

/-- What a part between separators holds. -/
theorem mem_splitOn [BEq α] [LawfulBEq α] {separator : α} {whole part : List α}
    (mem : part ∈ whole.splitOn separator) :
    (∀ value ∈ part, value ∈ whole) ∧ separator ∉ part := by
  induction whole generalizing part with
  | nil =>
    obtain rfl := mem_singleton.mp mem
    simp
  | cons x rest ih =>
    obtain ⟨head, _, parts⟩ := exists_cons_of_ne_nil (splitOn_ne_nil separator rest)
    rw [splitOn_cons_eq_if_modifyHead, parts] at mem
    rw [parts] at ih
    split_ifs at mem with same
    · rcases mem_cons.mp mem with rfl | later
      · simp
      · exact ⟨fun value inside => mem_cons_of_mem _ ((ih later).1 value inside), (ih later).2⟩
    · rw [modifyHead_cons] at mem
      rcases mem_cons.mp mem with rfl | later
      · obtain ⟨values, free⟩ := ih mem_cons_self
        refine ⟨fun value inside => ?_, ?_⟩
        · exact (mem_cons.mp inside).elim (· ▸ mem_cons_self)
            fun inside => mem_cons_of_mem _ (values value inside)
        · exact not_or.mpr ⟨fun equal => same (beq_iff_eq.mpr equal.symm), free⟩ ∘ mem_cons.mp
      · obtain ⟨values, free⟩ := ih (mem_cons_of_mem head later)
        exact ⟨fun value inside => mem_cons_of_mem _ (values value inside), free⟩

end FoundationLang.Library
