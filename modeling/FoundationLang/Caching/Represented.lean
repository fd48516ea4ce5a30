/-
**The cache is a shelf.**

The list of entries, in whatever order it is, against a shelf that has the oldest entry in front.

* `purgeExpired_represents`, `removeKey_represents`, `makeRoom_represents`, `storeValue_represents` —
  what each function does to the shelf.
-/

import FoundationLang.Caching.Store
import FoundationLang.Library.Shelf

namespace FoundationLang.Caching

open Library Outcome Standard List

variable {T : Type}

/-- A shelf of entries by their keys. -/
abbrev Entries (T : Type) (limit : ℕ) : Type :=
  Shelf (Entry.key : Entry T → Text) limit

/-- **The shelf of a cache.** -/
structure Represents {limit : ℕ} (current : State T) (shelf : Entries T limit) : Prop where
  items : current.entries.items.Perm shelf.items
  aged : shelf.items.Pairwise fun older younger => older.sequence < younger.sequence
  fresh : ∀ item ∈ shelf.items, item.sequence < current.nextSequence
  limited : current.maxEntries.toNat = limit

variable {limit : ℕ} {s : State T} {shelf : Entries T limit}

theorem new_represents (cloneValue : T → Outcome Empty T) (defaultTTL maxEntries : ℤ) :
    Represents (newCache cloneValue defaultTTL maxEntries)
      (Shelf.empty : Entries T maxEntries.toNat) where
  items := List.Perm.refl _
  aged := List.Pairwise.nil
  fresh := by intro _ mem; cases mem
  limited := rfl

namespace Represents

theorem distinct_keys (rep : Represents s shelf) :
    (s.entries.items.map Entry.key).Nodup :=
  (rep.items.map _).nodup_iff.mpr shelf.distinct

theorem distinct_sequences (rep : Represents s shelf) :
    (s.entries.items.map Entry.sequence).Nodup := by
  rw [(rep.items.map _).nodup_iff, List.Nodup, pairwise_map]
  exact rep.aged.imp fun smaller => Nat.ne_of_lt smaller

theorem keep (rep : Represents s shelf) (stays : Entry T → Bool)
    {entries : LinkedList (Entry T)}
    (items : entries.items = (s.entries.items.filter stays).reverse) :
    Represents { s with entries } (shelf.keep stays) where
  items := by
    rw [items]
    exact (reverse_perm _).trans (rep.items.filter stays)
  aged := rep.aged.filter stays
  fresh := fun item mem => rep.fresh item (mem_filter.mp mem).1
  limited := rep.limited

end Represents

section

variable (rep : Represents s shelf)
include rep

theorem purgeExpired_represents (now : MonotonicInstant) :
    ∃ after, purgeExpired s now = .ok after ∧
      after.nextSequence = s.nextSequence ∧ Represents after (shelf.keep (!isExpired · now)) := by
  obtain ⟨_, purged, xs⟩ := purgeExpired_ok s now
  exact ⟨_, purged, rfl, rep.keep _ xs⟩

theorem removeKey_represents (key : Text) :
    ∃ after, removeKey s key = .ok after ∧
      after.nextSequence = s.nextSequence ∧ Represents after (shelf.remove key) := by
  obtain ⟨_, removed, xs⟩ := removeKey_ok s key
  exact ⟨_, removed, rfl, rep.keep _ xs⟩

theorem full_iff :
    (s.maxEntries > 0 ∧ (s.entries.len : ℤ) ≥ s.maxEntries) ↔ shelf.Full := by
  have same := rep.items.length_eq
  have limited := rep.limited
  unfold Shelf.Full LinkedList.len
  rw [same]
  omega

/-- The oldest entry goes from a full shelf. -/
theorem makeRoom_represents :
    ∃ after, makeRoom s = .ok after ∧
      after.nextSequence = s.nextSequence ∧ Represents after shelf.makeRoom := by
  unfold makeRoom
  by_cases full : shelf.Full
  · rw [if_pos ((full_iff rep).mpr full)]
    have some : s.entries.items ≠ [] := by
      intro none
      have same := rep.items.length_eq
      rw [none, length_nil] at same
      have := full.1
      have := full.2
      omega
    obtain ⟨entries, oldest, mem, evicted, least, xs⟩ :=
      evictOldest_ok s some rep.distinct_sequences
    obtain ⟨x, rest, same⟩ := exists_cons_of_ne_nil
      (l := shelf.items) fun none => some (perm_nil.mp (none ▸ rep.items))
    have aged := rep.aged
    rw [same, pairwise_cons] at aged
    -- the least number is the one in front
    have front : oldest.sequence = x.sequence := by
      have below := least x
        (rep.items.mem_iff.mpr (by rw [same]; exact mem_cons_self))
      have mem' := rep.items.mem_iff.mp mem
      rw [same] at mem'
      rcases mem_cons.mp mem' with rfl | mem'
      · rfl
      · have := aged.1 oldest mem'
        omega
    have others : shelf.items.filter (fun item => !decide (item.sequence = oldest.sequence)) =
        rest := by
      rw [same, filter_cons_of_neg (by simp [front]), filter_eq_self]
      intro item mem
      have := aged.1 item mem
      simp only [Bool.not_eq_true', decide_eq_false_iff_not, front]
      omega
    have room : shelf.makeRoom.items = rest := by
      change (if shelf.Full then shelf.items.tail else shelf.items) = rest
      rw [if_pos full, same, tail_cons]
    refine ⟨_, evicted, rfl, ⟨?_, ?_, ?_, rep.limited⟩⟩
    · rw [room, ← others, xs]
      exact rep.items.filter _
    · rw [room]
      exact aged.2
    · rw [room]
      intro item mem
      exact rep.fresh item (by rw [same]; exact mem_cons_of_mem _ mem)
  · rw [if_neg fun holds => full ((full_iff rep).mp holds)]
    have room : shelf.makeRoom.items = shelf.items := by
      change (if shelf.Full then shelf.items.tail else shelf.items) = shelf.items
      rw [if_neg full]
    exact ⟨s, rfl, rfl, by rw [room]; exact rep.items, by rw [room]; exact rep.aged,
      by rw [room]; exact rep.fresh, rep.limited⟩

/-- An entry comes onto the shelf, if its number and the count of the list fit their types. -/
theorem storeValue_represents (key : Text) (v : T)
    (ttl : ℤ) (out : MonotonicInstant) :
    (∀ after, storeValue s key v ttl out = .ok after →
      after.nextSequence = s.nextSequence + 1 ∧
      Represents after (shelf.put ⟨key, v, out, ttl, s.nextSequence⟩)) ∧
    (s.nextSequence + 1 < 2 ^ 64 → s.entries.len + 1 < 2 ^ 31 →
      ∃ after, storeValue s key v ttl out = .ok after) := by
  obtain ⟨removed, removes, same, rep'⟩ := removeKey_represents rep key
  obtain ⟨m, makes, same', rep'⟩ := makeRoom_represents rep'
  unfold storeValue
  rw [removes, ok_bind, makes, ok_bind]
  refine ⟨?_, ?_⟩
  · intro after stored
    obtain ⟨nextSequence, next, stored⟩ := bind_eq_ok.mp stored
    obtain ⟨entries, pushed, stored⟩ := bind_eq_ok.mp stored
    obtain ⟨_, rfl⟩ := checked_eq_ok.mp next
    have xs := LinkedList.pushFront_eq_ok pushed
    cases stored
    rw [same'.trans same] at xs ⊢
    refine ⟨rfl, ?_, ?_, ?_, rep'.limited⟩
    · change entries.items.Perm ((shelf.remove key).makeRoom.items ++ [_])
      rw [xs]
      exact (rep'.items.cons _).trans (perm_append_singleton _ _).symm
    · change List.Pairwise _ ((shelf.remove key).makeRoom.items ++ [_])
      rw [pairwise_append]
      refine ⟨rep'.aged, pairwise_singleton _ _, ?_⟩
      intro older mem younger same''
      rw [mem_singleton.mp same'', ← same'.trans same]
      exact rep'.fresh older mem
    · change ∀ item ∈ (shelf.remove key).makeRoom.items ++ [_], item.sequence < _ + 1
      intro item mem
      rcases mem_append.mp mem with mem | mem
      · have := rep'.fresh item mem
        rw [same'.trans same] at this
        omega
      · rw [mem_singleton.mp mem]
        exact Nat.lt_succ_self _
  · intro small short
    have fewer : m.entries.items.length ≤ s.entries.items.length := by
      rw [rep'.items.length_eq, rep.items.length_eq]
      change (if (shelf.remove key).Full then (shelf.remove key).items.tail
        else (shelf.remove key).items).length ≤ _
      have := length_filter_le (fun item => !decide (item.key = key)) shelf.items
      change (shelf.remove key).items.length ≤ _ at this
      split
      · rw [length_tail]
        omega
      · exact this
    unfold LinkedList.len at short
    rw [same'.trans same, checked_bind small]
    obtain ⟨entries, pushed, _⟩ := m.entries.pushFront_ok (ε := Empty)
      ⟨key, v, out, ttl, s.nextSequence⟩ (by omega)
    rw [pushed]
    exact ⟨_, rfl⟩

/-- What a reader finds in the list is what is on the shelf. -/
theorem find_represents (key : Text) :
    (s.entries.items.find? fun item => item.key = key) = shelf.find key := by
  rcases found : shelf.find key with _ | item
  · rw [List.find?_eq_none]
    intro item mem same
    exact shelf.find_eq_none.mp found item (rep.items.mem_iff.mp mem)
      (of_decide_eq_true same)
  · obtain ⟨mem, rfl⟩ := shelf.find_eq_some.mp found
    exact Shelf.find?_eq_of_nodup rep.distinct_keys (rep.items.mem_iff.mpr mem)

theorem getValue_represents (key : Text) :
    ∃ after, Represents after shelf ∧ after.nextSequence = s.nextSequence ∧
      getValue s key =
        match shelf.find key with
        | none => .ok (none, after)
        | some item => (s.cloneValue item.value).map fun v => (some v, after) := by
  obtain ⟨entries, xs, same⟩ := getValue_eq s key rep.distinct_keys
  rw [find_represents rep] at same
  refine ⟨{ s with entries }, ⟨?_, rep.aged, rep.fresh, rep.limited⟩, rfl,
    same⟩
  rw [xs]
  exact (reverse_perm _).trans rep.items

end

end FoundationLang.Caching
