/-
**Items that fade, and lists of items by key.**

* `lookup` — the item under a key, where keys are compared by an equivalence (`Equates`). If no two
  items have the same key, the order of the list does not matter (`lookup_perm`), and there are as
  many keys with an item as there are items (`ncard_found`).
* `AgreeFrom` — from some time on, two findings cannot be told apart, as what has faded by then does
  not count. Items that have faded may be thrown away (`AgreeFrom.purge`).
-/

import Mathlib.Data.List.Perm.Basic
import Mathlib.Data.Set.Card
import Mathlib.Order.Defs.PartialOrder

namespace FoundationLang.Library

open List

/-! ### Keys -/

/-- **The comparison is an equivalence.** -/
structure Equates {κ : Type} (equal : κ → κ → Bool) : Prop where
  refl : ∀ key, equal key key = true
  symm : ∀ first second, equal first second = true → equal second first = true
  trans : ∀ first second third, equal first second = true → equal second third = true →
    equal first third = true

section Lookup

variable {κ α : Type} {equal : κ → κ → Bool} {key : α → κ} {xs : List α}

/-- The first item under a key. -/
def lookup (equal : κ → κ → Bool) (key : α → κ) (items : List α) (wanted : κ) : Option α :=
  items.find? fun item => equal wanted (key item)

/-- No two items have the same key. -/
def DistinctKeys (equal : κ → κ → Bool) (key : α → κ) (items : List α) : Prop :=
  items.Pairwise fun first second => equal (key first) (key second) = false

theorem lookup_eq_none {wanted : κ} :
    lookup equal key xs wanted = none ↔ ∀ item ∈ xs, equal wanted (key item) = false := by
  simp [lookup, List.find?_eq_none]

theorem lookup_cons (x : α) (rest : List α) (wanted : κ) :
    lookup equal key (x :: rest) wanted =
      if equal wanted (key x) then some x else lookup equal key rest wanted := by
  unfold lookup
  rw [List.find?_cons]
  cases equal wanted (key x) <;> rfl

namespace Equates

variable (equates : Equates equal)

include equates

theorem comm (first y : κ) : equal first y = equal y first := by
  rcases same : equal first y with _ | _
  · rcases same' : equal y first with _ | _
    · rfl
    · rw [equates.symm _ _ same'] at same
      cases same
  · exact (equates.symm _ _ same).symm

theorem congr {x y : κ} (same : equal x y = true) (third : κ) :
    equal x third = equal y third := by
  rcases same' : equal y third with _ | _
  · rcases same'' : equal x third with _ | _
    · rfl
    · rw [equates.trans _ _ _ (equates.symm _ _ same) same''] at same'
      cases same'
  · exact equates.trans _ _ _ same same'

theorem distinct_perm {xs items' : List α} (perm : xs.Perm items')
    (distinct : DistinctKeys equal key xs) : DistinctKeys equal key items' :=
  (perm.pairwise_iff fun {x y} apart => by rwa [equates.comm]).mp distinct

theorem lookup_eq_some (distinct : DistinctKeys equal key xs) {wanted : κ}
    {item : α} :
    lookup equal key xs wanted = some item ↔ item ∈ xs ∧ equal wanted (key item) = true := by
  constructor
  · intro found
    exact ⟨mem_of_find?_eq_some found,
      List.find?_some (p := fun item => equal wanted (key item)) found⟩
  · rintro ⟨mem, same⟩
    induction xs with
    | nil => cases mem
    | cons x rest ih =>
      rw [DistinctKeys, pairwise_cons] at distinct
      rcases mem_cons.mp mem with rfl | mem
      · exact List.find?_cons_of_pos same
      · rw [lookup, List.find?_cons_of_neg]
        · exact ih distinct.2 mem
        · intro same'
          have apart := distinct.1 item mem
          rw [equates.trans _ _ _ (equates.symm _ _ same') same] at apart
          cases apart

theorem lookup_perm {xs items' : List α} (perm : xs.Perm items')
    (distinct : DistinctKeys equal key xs) (wanted : κ) :
    lookup equal key xs wanted = lookup equal key items' wanted := by
  rcases found : lookup equal key items' wanted with _ | item
  · rw [lookup_eq_none] at found ⊢
    exact fun item mem => found item (perm.mem_iff.mp mem)
  · obtain ⟨mem, same⟩ := (equates.lookup_eq_some (equates.distinct_perm perm distinct)).mp found
    exact (equates.lookup_eq_some distinct).mpr ⟨perm.mem_iff.mpr mem, same⟩

/-- Fewer items: what is found is found if it stays. -/
theorem lookup_filter (distinct : DistinctKeys equal key xs) (stays : α → Bool)
    (wanted : κ) :
    lookup equal key (xs.filter stays) wanted =
      (lookup equal key xs wanted).filter stays := by
  rcases found : lookup equal key xs wanted with _ | item
  · rw [Option.filter_none, lookup_eq_none]
    exact fun item mem => (lookup_eq_none.mp found) item (mem_filter.mp mem).1
  · obtain ⟨mem, same⟩ := (equates.lookup_eq_some distinct).mp found
    rw [Option.filter_some]
    cases stayed : stays item with
    | true =>
      exact (equates.lookup_eq_some (List.Pairwise.filter stays distinct)).mpr
        ⟨mem_filter.mpr ⟨mem, stayed⟩, same⟩
    | false =>
      refine lookup_eq_none.mpr fun item' mem' => ?_
      obtain ⟨mem', stayed'⟩ := mem_filter.mp mem'
      rcases same' : equal wanted (key item') with _ | _
      · rfl
      · have found' := (equates.lookup_eq_some distinct).mpr ⟨mem', same'⟩
        rw [found] at found'
        obtain rfl := Option.some.inj found'
        rw [stayed] at stayed'
        cases stayed'

/-! ### Keys as they are compared -/

/-- Keys that are the same are one. -/
def setoid : Setoid κ where
  r first second := equal first second = true
  iseqv := ⟨equates.refl, fun same => equates.symm _ _ same, fun same same' =>
    equates.trans _ _ _ same same'⟩

theorem mk_eq {x y : κ} :
    Quotient.mk equates.setoid x = Quotient.mk equates.setoid y ↔
      equal x y = true :=
  Quotient.eq

/-- **As many keys have an item as there are items.** -/
theorem ncard_found (distinct : DistinctKeys equal key xs) :
    Set.ncard {named | ∃ wanted, Quotient.mk equates.setoid wanted = named ∧
      (lookup equal key xs wanted).isSome = true} = xs.length := by
  classical
  have nodup : (xs.map fun item => Quotient.mk equates.setoid (key item)).Nodup := by
    rw [List.Nodup, pairwise_map]
    refine List.Pairwise.imp ?_ distinct
    intro x y apart same
    rw [equates.mk_eq.mp same] at apart
    cases apart
  have found : {named | ∃ wanted, Quotient.mk equates.setoid wanted = named ∧
      (lookup equal key xs wanted).isSome = true} =
        ((xs.map fun item => Quotient.mk equates.setoid (key item)).toFinset : Set _) := by
    ext named
    rw [coe_toFinset, Set.mem_ofPred_eq, Set.mem_ofPred_eq, mem_map]
    constructor
    · rintro ⟨_, rfl, some⟩
      obtain ⟨item, same⟩ := Option.isSome_iff_exists.mp some
      obtain ⟨mem, same⟩ := (equates.lookup_eq_some distinct).mp same
      exact ⟨item, mem, equates.mk_eq.mpr (equates.symm _ _ same)⟩
    · rintro ⟨item, mem, rfl⟩
      refine ⟨key item, rfl, ?_⟩
      rw [(equates.lookup_eq_some distinct).mpr ⟨mem, equates.refl _⟩]
      rfl
  rw [found, Set.ncard_coe_finset, toFinset_card_of_nodup nodup, length_map]

end Equates

end Lookup

/-! ### Items that fade -/

section Fading

variable {α τ : Type} [Preorder τ]

/-- What has faded stays so. -/
def Fades (alive : τ → α → Bool) : Prop :=
  ∀ early late item, early ≤ late → alive late item = true → alive early item = true

/-- From a time on, two findings cannot be told apart. -/
def AgreeFrom (alive : τ → α → Bool) (clock : τ) (found noted : Option α) : Prop :=
  ∀ later, clock ≤ later → found.filter (alive later) = noted.filter (alive later)

variable {alive : τ → α → Bool} {clock now : τ} {found noted : Option α}

theorem AgreeFrom.refl (found : Option α) : AgreeFrom alive clock found found :=
  fun _ _ => rfl

theorem AgreeFrom.mono (agree : AgreeFrom alive clock found noted) (ordered : clock ≤ now) :
    AgreeFrom alive now found noted :=
  fun later ordered' => agree later (le_trans ordered ordered')

theorem Fades.filter (fades : Fades alive) (found : Option α) {later : τ} (ordered : now ≤ later) :
    (found.filter (alive now)).filter (alive later) = found.filter (alive later) := by
  rcases found with _ | item
  · rfl
  · rw [Option.filter_some]
    split
    · rfl
    · rename_i gone
      rw [Option.filter_some, if_neg fun alive' => gone (fades now later item ordered alive')]
      rfl

/-- **What has faded may be thrown away.** -/
theorem AgreeFrom.purge (agree : AgreeFrom alive clock found noted) (fades : Fades alive)
    (ordered : clock ≤ now) : AgreeFrom alive now (found.filter (alive now)) noted := by
  intro later ordered'
  rw [fades.filter found ordered']
  exact agree later (le_trans ordered ordered')

end Fading

end FoundationLang.Library
