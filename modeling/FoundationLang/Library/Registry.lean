/-
**Registries.**

A registry admits items one after the other and is asked for the best of those that suit a question.
Neither the admission nor the answer depends on the order, under the conditions stated here.

* `Admits` — a step admits an item that is valid and clashes with none of the items so far.
  `admitted_iff` says which lists are admitted, `admitted_perm` that their order makes no difference.
* `best` — the first of the items that no other one is better than. It is the greatest item when there
  is one (`best_of_greatest`).
-/

import FoundationLang.Library.Outcome
import Mathlib.Data.List.Pairwise

namespace FoundationLang.Library.Registry

open List

/-! ### Admission -/

section Admission

variable {S α ε : Type} {xs : S → List α} {add : S → α → Outcome ε S} {valid : α → Prop}
variable {order : List α}
  {clash : α → α → Prop} {limit : ℕ}

/-- **What a step of a registry does.** -/
structure Admits (items : S → List α) (add : S → α → Outcome ε S) (valid : α → Prop)
    (clash : α → α → Prop) (limit : ℕ) : Prop where
  sound {registry after : S} {item : α} : add registry item = .ok after →
    valid item ∧ (∀ other ∈ items registry, ¬clash other item) ∧
      (items registry).length + 1 < limit ∧ items after = item :: items registry
  complete {registry : S} {item : α} : valid item → (∀ other ∈ items registry, ¬clash other item) →
    (items registry).length + 1 < limit →
    ∃ after, add registry item = .ok after ∧ items after = item :: items registry

/-- **A list that is admitted as a whole.** -/
structure Admissible (valid : α → Prop) (clash : α → α → Prop) (limit : ℕ) (order : List α) :
    Prop where
  valid : ∀ item ∈ order, valid item
  apart : order.Pairwise fun first second => ¬clash first second
  short : order.length < limit

section

variable (admits : Admits xs add valid clash limit)
include admits

theorem admitted_sound
    {registry t : S} (admitted : order.foldlM add registry = .ok t) :
    (∀ item ∈ order, valid item) ∧ order.Pairwise (fun x y => ¬clash x y) ∧
      (∀ item ∈ order, ∀ z ∈ xs registry, ¬clash z item) ∧
      xs t = order.reverse ++ xs registry ∧
      (order ≠ [] → (xs t).length < limit) := by
  induction order generalizing registry with
  | nil =>
    cases admitted
    exact ⟨by simp, .nil, by simp, rfl, fun same => absurd rfl same⟩
  | cons item order ih =>
    rw [foldlM_cons] at admitted
    obtain ⟨_, added, admitted⟩ := Outcome.bind_eq_ok.mp admitted
    obtain ⟨validItem, apart, short, grown⟩ := admits.sound added
    obtain ⟨validRest, apartRest, others, final, bounded⟩ := ih admitted
    refine ⟨?_, ?_, ?_, ?_, ?_⟩
    · intro z mem
      rcases mem_cons.mp mem with rfl | mem
      · exact validItem
      · exact validRest z mem
    · refine pairwise_cons.mpr ⟨fun z mem => ?_, apartRest⟩
      exact others z mem item (by rw [grown]; exact mem_cons_self)
    · intro z mem present inside
      rcases mem_cons.mp mem with rfl | mem
      · exact apart present inside
      · exact others z mem present (by rw [grown]; exact mem_cons_of_mem _ inside)
    · rw [final, grown, reverse_cons, append_assoc, singleton_append]
    · intro _
      cases order with
      | nil =>
        rw [final, grown]
        exact short
      | cons _ _ => exact bounded (cons_ne_nil _ _)

theorem admitted_complete
    {registry : S} (validAll : ∀ item ∈ order, valid item)
    (apart : order.Pairwise fun x y => ¬clash x y)
    (others : ∀ item ∈ order, ∀ other ∈ xs registry, ¬clash other item)
    (short : (xs registry).length + order.length < limit) :
    ∃ after, order.foldlM add registry = .ok after := by
  induction order generalizing registry with
  | nil => exact ⟨registry, rfl⟩
  | cons item order ih =>
    obtain ⟨apartItem, apartRest⟩ := pairwise_cons.mp apart
    rw [length_cons] at short
    obtain ⟨next, added, grown⟩ := admits.complete (validAll item mem_cons_self)
      (others item mem_cons_self) (by omega)
    have others' : ∀ other ∈ order, ∀ present ∈ xs next, ¬clash present other := by
      intro other mem present inside
      rw [grown] at inside
      rcases mem_cons.mp inside with rfl | inside
      · exact apartItem other mem
      · exact others other (mem_cons_of_mem _ mem) present inside
    obtain ⟨after, admitted⟩ := ih
      (fun other mem => validAll other (mem_cons_of_mem _ mem)) apartRest others'
      (by rw [grown, length_cons]; omega)
    refine ⟨after, ?_⟩
    rw [foldlM_cons, added]
    exact admitted

/-- **Which lists an empty registry admits.** -/
theorem admitted_iff {empty : S}
    (fresh : xs empty = []) (pos : 0 < limit) :
    (∃ after, order.foldlM add empty = .ok after) ↔ Admissible valid clash limit order := by
  constructor
  · rintro ⟨_, admitted⟩
    obtain ⟨validAll, apart, _, final, bounded⟩ := admitted_sound admits admitted
    refine ⟨validAll, apart, ?_⟩
    rw [fresh, append_nil] at final
    rw [final, length_reverse] at bounded
    cases order with
    | nil => exact pos
    | cons _ _ => exact bounded (cons_ne_nil _ _)
  · intro admissible
    exact admitted_complete admits admissible.valid admissible.apart (by simp [fresh])
      (by rw [fresh, length_nil, Nat.zero_add]; exact admissible.short)

theorem admitted_items {empty t : S}
    (fresh : xs empty = []) (admitted : order.foldlM add empty = .ok t) :
    xs t = order.reverse := by
  obtain ⟨_, _, _, final, _⟩ := admitted_sound admits admitted
  rw [final, fresh, append_nil]

end

/-- **The order of admission makes no difference**, when clashes are mutual. -/
theorem Admissible.perm {x y : List α} (symmetric : ∀ {left right}, clash left right →
    clash right left) (same : x.Perm y) (admissible : Admissible valid clash limit x) :
    Admissible valid clash limit y where
  valid := fun item mem => admissible.valid item (same.mem_iff.mpr mem)
  apart := (same.pairwise_iff fun apart clashes => apart (symmetric clashes)).mp admissible.apart
  short := same.length_eq ▸ admissible.short

theorem Admissible.apart_of_mem (admissible : Admissible valid clash limit order)
    (symmetric : ∀ {left right}, clash left right → clash right left) {x second : α}
    (mem : x ∈ order) (mem' : second ∈ order) (ne : x ≠ second) :
    ¬clash x second := by
  have symm : Std.Symm fun x second => ¬clash x second :=
    ⟨fun _ _ apart clashes => apart (symmetric clashes)⟩
  exact admissible.apart.forall mem mem' ne

end Admission

/-! ### The best item -/

section Best

variable {α : Type} {better : α → α → Bool}

/-- **A comparison by rank.** Items of the same rank are not better than each other. -/
structure Ranks (better : α → α → Bool) : Prop where
  asymm {first second : α} : better first second = true → better second first = false
  cotrans {first second third : α} : better first third = true →
    better first second = true ∨ better second third = true

/-- One item more. -/
def keepBest (better : α → α → Bool) (held : Option α) (item : α) : Option α :=
  match held with
  | none => some item
  | some current => if better item current then some item else some current

/-- **The first of the items that no other one is better than.** -/
def best (better : α → α → Bool) (items : List α) : Option α :=
  items.foldl (keepBest better) none

section

variable (ranks : Ranks better) {xs : List α}
include ranks

theorem Ranks.irrefl (item : α) : better item item = false := by
  cases same : better item item with
  | false => rfl
  | true => exact same ▸ ranks.asymm same

theorem keepBest_some (xs : List α) (current : α) :
    ∃ final ∈ current :: xs, xs.foldl (keepBest better) (some current) = some final ∧
      ∀ item ∈ current :: xs, better item final = false := by
  induction xs generalizing current with
  | nil =>
    refine ⟨current, mem_cons_self, rfl, fun item mem => ?_⟩
    obtain rfl := mem_singleton.mp mem
    exact ranks.irrefl item
  | cons item xs ih =>
    rw [foldl_cons, keepBest]
    cases above : better item current with
    | true =>
      obtain ⟨final, mem, same, greatest⟩ := ih item
      refine ⟨final, mem_cons_of_mem _ mem, same, fun y inside => ?_⟩
      rcases mem_cons.mp inside with rfl | inside
      · -- The old one is below the new one, which is not above the final one.
        rcases @Ranks.cotrans _ _ ranks _ final _ above with higher | higher
        · rw [greatest item mem_cons_self] at higher
          cases higher
        · exact ranks.asymm higher
      · exact greatest y inside
    | false =>
      obtain ⟨final, mem, same, greatest⟩ := ih current
      refine ⟨final, ?_, same, fun y inside => ?_⟩
      · rcases mem_cons.mp mem with rfl | mem
        · exact mem_cons_self
        · exact mem_cons_of_mem _ (mem_cons_of_mem _ mem)
      · rcases mem_cons.mp inside with rfl | inside
        · exact greatest y mem_cons_self
        · rcases mem_cons.mp inside with rfl | inside
          · cases higher : better y final with
            | false => rfl
            | true =>
              rcases @Ranks.cotrans _ _ ranks _ current _ higher with up | up
              · rw [above] at up
                cases up
              · rw [greatest current mem_cons_self] at up
                cases up
          · exact greatest y (mem_cons_of_mem _ inside)

/-- **No item is better than the best one.** -/
theorem best_some {final : α}
    (found : best better xs = some final) :
    final ∈ xs ∧ ∀ item ∈ xs, better item final = false := by
  cases xs with
  | nil => cases found
  | cons item xs =>
    obtain ⟨final', mem, same, greatest⟩ := keepBest_some ranks xs item
    obtain rfl : final' = final := Option.some.inj (same.symm.trans found)
    exact ⟨mem, greatest⟩

theorem best_isSome :
    (best better xs).isSome = true ↔ xs ≠ [] := by
  cases xs with
  | nil => exact ⟨by rintro ⟨⟩, fun same => absurd rfl same⟩
  | cons item xs =>
    obtain ⟨final, _, same, _⟩ := keepBest_some ranks xs item
    exact ⟨fun _ => cons_ne_nil _ _, fun _ => Option.isSome_iff_exists.mpr ⟨final, same⟩⟩

/-- **An item that is better than all others is the best one**, in any order. -/
theorem best_of_greatest {greatest : α}
    (mem : greatest ∈ xs)
    (above : ∀ item ∈ xs, item = greatest ∨ better greatest item = true) :
    best better xs = some greatest := by
  obtain ⟨final, found⟩ := Option.isSome_iff_exists.mp
    ((best_isSome ranks).mpr (ne_nil_of_mem mem))
  obtain ⟨inside, none⟩ := best_some ranks found
  rcases above final inside with rfl | higher
  · exact found
  · rw [none greatest mem] at higher
    cases higher

end

theorem best_map {β : Type} {better' : β → β → Bool} {convert : α → β}
    (same : ∀ x y, better' (convert x) (convert y) = better x y)
    (xs : List α) : best better' (xs.map convert) = (best better xs).map convert := by
  suffices converted : ∀ held : Option α, (xs.map convert).foldl (keepBest better')
      (held.map convert) = (xs.foldl (keepBest better) held).map convert from converted none
  induction xs with
  | nil => exact fun _ => rfl
  | cons item xs ih =>
    intro held
    rw [map_cons, foldl_cons, foldl_cons, ← ih]
    congr 1
    cases held with
    | none => rfl
    | some current =>
      show (if better' (convert item) (convert current) then _ else _) = _
      rw [same, keepBest]
      cases better item current <;> rfl

end Best

end FoundationLang.Library.Registry
