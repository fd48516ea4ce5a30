/-
**The order of the fields that `std.json` writes.**

`sort` returns the same fields in the order of their keys (`sort_perm`, `sort_sorted`). With unique
keys the order of the fields before does not matter (`sort_congr`), and the values do not matter for
it in any case (`sort_map`).
-/

import FoundationLang.Standard.JsonWriter
import Mathlib.Data.List.Nodup

namespace FoundationLang.Standard

open Library List

/-! ### The order of strings -/

theorem Text.compareBytes_swap (left right : List UInt8) :
    compareBytes left right = (compareBytes right left).swap := by
  induction left generalizing right with
  | nil => cases right <;> rfl
  | cons b bytes ih =>
    cases right with
    | nil => rfl
    | cons b' bytes' =>
      unfold compareBytes
      split_ifs with less greater
      · omega
      · rfl
      · rfl
      · exact ih bytes'

theorem Text.compareBytes_trans {one two three : List UInt8} (first : compareBytes one two ≠ .gt)
    (y : compareBytes two three ≠ .gt) : compareBytes one three ≠ .gt := by
  induction one generalizing two three with
  | nil => cases three <;> simp [compareBytes]
  | cons b bytes ih =>
    cases two with
    | nil => exact absurd rfl first
    | cons =>
      cases three with
      | nil => exact absurd rfl y
      | cons =>
        unfold compareBytes at first y ⊢
        split_ifs at first y ⊢
        all_goals first
          | exact ih first y
          | exact absurd rfl first
          | exact absurd rfl y
          | omega

namespace JsonText

variable {β γ : Type} {one two : Text × β}

/-- The key of a field is not above the one of another field. -/
def KeyLe (field field' : Text × β) : Prop :=
  field.1.compare field'.1 ≠ .gt

theorem KeyLe.trans {one two three : Text × β} (x : KeyLe one two) (y : KeyLe two three) :
    KeyLe one three :=
  Text.compareBytes_trans x y

theorem keyLe_of_lt (less : one.1.compare two.1 = .lt) : KeyLe one two := by
  unfold KeyLe
  rw [less]
  simp

theorem keyLe_of_not_lt (notLess : one.1.compare two.1 ≠ .lt) :
    KeyLe two one := by
  unfold KeyLe Text.compare at *
  rw [Text.compareBytes_swap]
  intro greater
  rw [Ordering.swap_eq_gt] at greater
  exact notLess greater

theorem keyLe_antisymm (x : KeyLe one two) (y : KeyLe two one) :
    one.1 = two.1 := by
  unfold KeyLe Text.compare at x y
  refine Text.ext (Text.compareBytes_eq_iff.mp ?_)
  rw [Text.compareBytes_swap, Ne, Ordering.swap_eq_gt] at y
  cases compared : Text.compareBytes one.1.bytes two.1.bytes with
  | eq => rfl
  | lt => exact absurd compared y
  | gt => exact absurd compared x

/-! ### Choosing and sorting -/

theorem fieldChoice_perm (best : Text × β) (candidates left : List (Text × β)) :
    ((fieldChoice best candidates left).1 :: (fieldChoice best candidates left).2).Perm
      (best :: (candidates ++ left)) := by
  induction candidates generalizing best left with
  | nil => exact .refl _
  | cons field candidates ih =>
    unfold fieldChoice
    split_ifs
    · refine (ih field (best :: left)).trans ?_
      refine (perm_middle.cons field).trans ?_
      exact List.Perm.swap _ _ _
    · refine (ih best (field :: left)).trans ?_
      exact perm_middle.cons best

theorem fieldChoice_least (best : Text × β) (candidates left : List (Text × β))
    (least : ∀ field ∈ left, KeyLe best field) :
    ∀ field ∈ (fieldChoice best candidates left).2,
      KeyLe (fieldChoice best candidates left).1 field := by
  induction candidates generalizing best left with
  | nil => exact least
  | cons field candidates ih =>
    unfold fieldChoice
    split_ifs with less
    · refine ih field (best :: left) fun y mem => ?_
      rcases mem_cons.mp mem with rfl | mem
      · exact keyLe_of_lt less
      · exact (keyLe_of_lt less).trans (least y mem)
    · refine ih best (field :: left) fun y mem => ?_
      rcases mem_cons.mp mem with rfl | mem
      · exact keyLe_of_not_lt less
      · exact least y mem

theorem fieldSort_perm {k : ℕ} {pending sorted : List (Text × β)}
    (enough : pending.length ≤ k) :
    (fieldSort k pending sorted).Perm (pending ++ sorted) := by
  induction k generalizing pending sorted with
  | zero =>
    obtain rfl := length_eq_zero_iff.mp (Nat.le_zero.mp enough)
    exact .refl _
  | succ k ih =>
    cases pending with
    | nil => exact .refl _
    | cons field pending =>
      have chosen := fieldChoice_perm field pending []
      rw [append_nil] at chosen
      have size := chosen.length_eq
      simp only [length_cons] at size enough
      unfold fieldSort
      refine (ih (by omega)).trans ?_
      exact perm_middle.trans (chosen.append_right sorted)

theorem fieldSort_sorted {k : ℕ} {pending sorted : List (Text × β)}
    (enough : pending.length ≤ k) (ordered : sorted.Pairwise fun one two => KeyLe two one)
    (below : ∀ one ∈ sorted, ∀ two ∈ pending, KeyLe one two) :
    (fieldSort k pending sorted).Pairwise fun one two => KeyLe two one := by
  induction k generalizing pending sorted with
  | zero => exact ordered
  | succ k ih =>
    cases pending with
    | nil => exact ordered
    | cons field pending =>
      have chosen := fieldChoice_perm field pending []
      have least := fieldChoice_least field pending [] (by simp)
      rw [append_nil] at chosen
      have size := chosen.length_eq
      simp only [length_cons] at size enough
      unfold fieldSort
      refine ih (by omega) (pairwise_cons.mpr ⟨fun one mem => ?_, ordered⟩) ?_
      · exact below one mem _ (chosen.mem_iff.mp mem_cons_self)
      · intro one mem two mem'
        rcases mem_cons.mp mem with rfl | mem
        · exact least two mem'
        · exact below one mem two (chosen.mem_iff.mp (mem_cons_of_mem _ mem'))

/-- **No field is lost, and none is added.** -/
theorem sort_perm (fields : List (Text × β)) : (sort fields).Perm fields := by
  unfold sort
  refine (reverse_perm _).trans ?_
  simpa using @fieldSort_perm β fields.length fields [] (Nat.le_refl _)

/-- **The keys are in order.** -/
theorem sort_sorted (fs : List (Text × β)) : (sort fs).Pairwise KeyLe := by
  unfold sort
  rw [pairwise_reverse]
  exact fieldSort_sorted (Nat.le_refl _) .nil (by simp)

/-- **With unique keys, the order before does not matter.** -/
theorem sort_congr {fs fields' : List (Text × β)} (order : fs.Perm fields')
    (unique : (fs.map Prod.fst).Nodup) : sort fs = sort fields' := by
  have same := ((sort_perm fs).trans order).trans (sort_perm fields').symm
  refine List.Perm.eq_of_pairwise (fun one two mem mem' x y => ?_)
    (sort_sorted fs) (sort_sorted fields') same
  have inside := (sort_perm fs).mem_iff.mp mem
  have inside' := (sort_perm fs).mem_iff.mp (same.mem_iff.mpr mem')
  exact inj_on_of_nodup_map unique inside inside' (keyLe_antisymm x y)

/-- Other values under the keys. -/
def mapValues (change : β → γ) (field : Text × β) : Text × γ :=
  (field.1, change field.2)

theorem fieldChoice_map (change : β → γ) (best : Text × β) (candidates left : List (Text × β)) :
    fieldChoice (mapValues change best) (candidates.map (mapValues change))
        (left.map (mapValues change)) =
      (mapValues change (fieldChoice best candidates left).1,
        (fieldChoice best candidates left).2.map (mapValues change)) := by
  induction candidates generalizing best left with
  | nil => rfl
  | cons field candidates ih =>
    rw [map_cons]
    unfold fieldChoice
    by_cases less : field.1.compare best.1 = .lt
    · have less' : (mapValues change field).1.compare (mapValues change best).1 = .lt := less
      rw [if_pos less, if_pos less', ← map_cons, ih]
    · have less' : ¬(mapValues change field).1.compare (mapValues change best).1 = .lt := less
      rw [if_neg less, if_neg less', ← map_cons, ih]

theorem fieldSort_map (change : β → γ) (k : ℕ) (pending sorted : List (Text × β)) :
    fieldSort k (pending.map (mapValues change)) (sorted.map (mapValues change)) =
      (fieldSort k pending sorted).map (mapValues change) := by
  induction k generalizing pending sorted with
  | zero => rfl
  | succ k ih =>
    cases pending with
    | nil => rfl
    | cons field pending =>
      have chosen := fieldChoice_map change field pending []
      rw [map_nil] at chosen
      rw [map_cons]
      unfold fieldSort
      rw [chosen]
      dsimp only
      rw [← map_cons, ih]

/-- **The values do not matter for the order.** -/
theorem sort_map (change : β → γ) (fs : List (Text × β)) :
    sort (fs.map (mapValues change)) = (sort fs).map (mapValues change) := by
  unfold sort
  have sorted := fieldSort_map change fs.length fs []
  rw [map_nil] at sorted
  rw [length_map, sorted, map_reverse]

end JsonText

end FoundationLang.Standard
