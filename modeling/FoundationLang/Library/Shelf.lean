/-
**Shelves.**

A shelf keeps items by their keys, at most one for each, the oldest first. It may have a limit: an
item that finds it full takes the place of the oldest one.

* `Shelf` — the shelf; its keys are distinct and its limit is kept, by its fields.
* `keep`, `remove`, `makeRoom`, `put` — what happens to a shelf.
* `find` — the item under a key, with what each operation does to it (`find_keep`, `find_put`).
-/

import Mathlib.Data.List.Nodup

namespace FoundationLang.Library

open List

/-- **A shelf**, the oldest item first; with the limit 0 it has none. -/
structure Shelf {κ α : Type} (key : α → κ) (limit : ℕ) where
  items : List α
  distinct : (items.map key).Nodup
  bound : 0 < limit → items.length ≤ limit

namespace Shelf

variable {κ α : Type} {key : α → κ} {limit : ℕ}

/-- No items. -/
def empty : Shelf key limit :=
  ⟨[], nodup_nil, fun _ => Nat.zero_le _⟩

/-- No item has room any more. -/
def Full (shelf : Shelf key limit) : Prop :=
  0 < limit ∧ limit ≤ shelf.items.length

instance (shelf : Shelf key limit) : Decidable shelf.Full :=
  inferInstanceAs (Decidable (_ ∧ _))

/-- Only some items stay. -/
def keep (shelf : Shelf key limit) (stays : α → Bool) : Shelf key limit where
  items := shelf.items.filter stays
  distinct := shelf.distinct.sublist (filter_sublist.map key)
  bound := fun positive => Nat.le_trans (length_filter_le _ _) (shelf.bound positive)

/-- The oldest item goes, if the shelf is full. -/
def makeRoom (shelf : Shelf key limit) : Shelf key limit where
  items := if shelf.Full then shelf.items.tail else shelf.items
  distinct := by
    split
    · exact shelf.distinct.sublist ((tail_sublist _).map key)
    · exact shelf.distinct
  bound := fun positive => by
    have := shelf.bound positive
    split
    · rw [length_tail]
      omega
    · exact this

variable [DecidableEq κ]

/-- The item under a key. -/
def find (shelf : Shelf key limit) (wanted : κ) : Option α :=
  shelf.items.find? fun item => key item = wanted

/-- The item under a key goes. -/
def remove (shelf : Shelf key limit) (gone : κ) : Shelf key limit :=
  shelf.keep fun item => !(key item = gone)

theorem not_mem_remove (shelf : Shelf key limit) (gone : κ) :
    gone ∉ (shelf.remove gone).items.map key := by
  intro mem
  obtain ⟨_, mem, same⟩ := mem_map.mp mem
  have stays := (mem_filter.mp mem).2
  simp [same] at stays

/-- An item comes in: instead of the one under its key, or instead of the oldest one if the shelf is
full without it. -/
def put (shelf : Shelf key limit) (item : α) : Shelf key limit where
  items := (shelf.remove (key item)).makeRoom.items ++ [item]
  distinct := by
    rw [map_append, map_singleton, nodup_append]
    refine ⟨(shelf.remove (key item)).makeRoom.distinct, nodup_singleton _, ?_⟩
    intro first member second same
    rw [mem_singleton.mp same]
    rintro rfl
    refine shelf.not_mem_remove (key item) ?_
    change key item ∈ List.map key (if (shelf.remove (key item)).Full then _ else _) at member
    split at member
    · exact ((tail_sublist _).map key).subset member
    · exact member
  bound := fun positive => by
    have bound := (shelf.remove (key item)).bound positive
    rw [length_append, length_singleton]
    change List.length (if (shelf.remove (key item)).Full then _ else _) + 1 ≤ limit
    split
    · rename_i full
      have := full.2
      rw [length_tail]
      omega
    · rename_i room
      unfold Full at room
      omega

/-! ### What is found -/

theorem find?_eq_of_nodup {xs : List α} (distinct : (xs.map key).Nodup) {item : α}
    (mem : item ∈ xs) : xs.find? (fun y => key y = key item) = some item := by
  induction xs with
  | nil => cases mem
  | cons x rest ih =>
    rw [map_cons, nodup_cons] at distinct
    rcases mem_cons.mp mem with rfl | mem
    · rw [List.find?_cons_of_pos (by simp)]
    · rw [List.find?_cons_of_neg, ih distinct.2 mem]
      intro same
      exact distinct.1 (mem_map.mpr ⟨item, mem, (of_decide_eq_true same).symm⟩)

section

variable (shelf : Shelf key limit)

theorem find_eq_some {wanted : κ} {item : α} :
    shelf.find wanted = some item ↔ item ∈ shelf.items ∧ key item = wanted := by
  constructor
  · intro found
    have same := List.find?_some (p := fun item => decide (key item = wanted)) found
    exact ⟨mem_of_find?_eq_some found, of_decide_eq_true same⟩
  · rintro ⟨mem, rfl⟩
    exact find?_eq_of_nodup shelf.distinct mem

theorem find_eq_none {wanted : κ} :
    shelf.find wanted = none ↔ ∀ item ∈ shelf.items, key item ≠ wanted := by
  simp [find, List.find?_eq_none]

theorem find_keep (stays : α → Bool) (wanted : κ) :
    (shelf.keep stays).find wanted = (shelf.find wanted).filter stays := by
  rcases found : shelf.find wanted with _ | item
  · rw [Option.filter_none, find_eq_none]
    intro item mem
    exact (shelf.find_eq_none.mp found) item (mem_filter.mp mem).1
  · obtain ⟨mem, same⟩ := shelf.find_eq_some.mp found
    rw [Option.filter_some]
    cases stayed : stays item with
    | true => exact (find_eq_some _).mpr ⟨mem_filter.mpr ⟨mem, stayed⟩, same⟩
    | false =>
      refine (find_eq_none _).mpr fun item' mem' same' => ?_
      obtain ⟨mem', stayed'⟩ := mem_filter.mp mem'
      have other := shelf.find_eq_some.mpr ⟨mem', same'⟩
      rw [found] at other
      obtain rfl := Option.some.inj other
      rw [stayed] at stayed'
      cases stayed'

theorem find_remove (gone wanted : κ) :
    (shelf.remove gone).find wanted = if wanted = gone then none else shelf.find wanted := by
  rw [remove, find_keep]
  split
  · rename_i same
    rcases found : shelf.find wanted with _ | item
    · rfl
    · obtain ⟨_, same'⟩ := shelf.find_eq_some.mp found
      simp [Option.filter_some, same', same]
  · rename_i ne
    rcases found : shelf.find wanted with _ | _
    · rfl
    · obtain ⟨_, same'⟩ := shelf.find_eq_some.mp found
      simp [Option.filter_some, same', ne]

/-- The key of the item that goes when room is made. -/
def evicted (shelf : Shelf key limit) : Option κ :=
  if shelf.Full then shelf.items.head?.map key else none

theorem find_makeRoom (wanted : κ) :
    shelf.makeRoom.find wanted =
      if shelf.evicted = some wanted then none else shelf.find wanted := by
  unfold makeRoom evicted
  by_cases full : shelf.Full
  · simp only [if_pos full]
    obtain ⟨xs, distinct, bound⟩ := shelf
    cases xs with
    | nil =>
      have := full.1
      have := full.2
      change limit ≤ 0 at this
      omega
    | cons x rest =>
      rw [map_cons, nodup_cons] at distinct
      change rest.find? _ = if some (key x) = some wanted then none else
        (x :: rest).find? _
      split
      · rename_i same
        obtain rfl := Option.some.inj same
        rw [List.find?_eq_none]
        intro item mem same
        exact distinct.1 (mem_map.mpr ⟨item, mem, of_decide_eq_true same⟩)
      · rename_i ne
        rw [List.find?_cons_of_neg]
        intro same
        exact ne (congrArg some (of_decide_eq_true same))
  · simp only [if_neg full]
    rfl

/-- **What an item that comes in changes**: its own key, and the key of the item that it drives
out. -/
theorem find_put (item : α) (wanted : κ) :
    (shelf.put item).find wanted =
      if wanted = key item then some item
      else if (shelf.remove (key item)).evicted = some wanted then none
      else shelf.find wanted := by
  split
  · rename_i same
    exact (find_eq_some _).mpr ⟨mem_append_right _ (mem_singleton_self _), same.symm⟩
  · rename_i ne
    have other := (shelf.remove (key item)).find_makeRoom wanted
    rw [find_remove, if_neg ne] at other
    rw [← other]
    change ((shelf.remove (key item)).makeRoom.items ++ [item]).find? _ = _
    have unlike : ¬decide (key item = wanted) = true := fun same =>
      ne (of_decide_eq_true same).symm
    rw [List.find?_append, List.find?_singleton, if_neg unlike, Option.or_none]
    rfl

end

end Shelf

end FoundationLang.Library
