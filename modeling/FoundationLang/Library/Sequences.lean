/-
**Sequences gathered by a loop, and sequences kept apart by their lengths.**

* `Gathers` — a list put together from the lists that its elements give. A loop that takes one
  element after the other and may stop (`List.foldlM`) gathers what its steps gather
  (`foldlM_ok_iff`), and its elements in another order give the same in another order
  (`Gathers.perm`).
-/

import Mathlib.Data.List.Perm.Basic
import Mathlib.Data.List.Forall2
import Mathlib.Data.Set.Function

namespace FoundationLang.Library

open List

/-! ### Gathering -/

section Gather

variable {α β σ ε : Type} {gives : α → List β → Prop}
variable {gathered : List β} {sources : List α}

/-- The elements of `sources`, in their order, give `gathered`. -/
inductive Gathers (gives : α → List β → Prop) : List α → List β → Prop
  | nil : Gathers gives [] []
  | cons {source : α} {sources : List α} {part rest : List β} (first : gives source part)
      (others : Gathers gives sources rest) : Gathers gives (source :: sources) (part ++ rest)

section

variable (gathers : Gathers gives sources gathered)
include gathers

theorem Gathers.mem_iff {holds : α → β → Prop}
    (each : ∀ source ∈ sources, ∀ part, gives source part → ∀ value, value ∈ part ↔ holds source value)
    (value : β) : value ∈ gathered ↔ ∃ source ∈ sources, holds source value := by
  induction gathers with
  | nil => simp
  | @cons source sources part rest x others ih =>
    have here := each source mem_cons_self part x value
    have later := ih fun source mem => each source (mem_cons_of_mem _ mem)
    rw [mem_append, here, later]
    simp

/-- Every source is replaced by one that gives the same values, perhaps in another order. -/
theorem Gathers.forall₂ {gives' : α → List β → Prop} {related : α → α → Prop} {others : List α}
    (pairs : List.Forall₂ related sources others)
    (each : ∀ source y part, related source y → gives source part →
      ∃ part', gives' y part' ∧ part.Perm part') :
    ∃ gathered', Gathers gives' others gathered' ∧ gathered.Perm gathered' := by
  induction gathers generalizing others with
  | nil =>
    cases pairs
    exact ⟨[], .nil, .refl _⟩
  | cons x rest ih =>
    cases pairs with
    | cons head tail =>
      obtain ⟨part, given, same⟩ := each _ _ _ head x
      obtain ⟨gathered, gathers, alike⟩ := ih tail
      exact ⟨part ++ gathered, .cons given gathers, same.append alike⟩

/-- The sources stay, and each gives the same values as before, perhaps in another order. -/
theorem Gathers.imp {gives' : α → List β → Prop}
    (each : ∀ source part, gives source part → ∃ part', gives' source part' ∧ part.Perm part') :
    ∃ gathered', Gathers gives' sources gathered' ∧ gathered.Perm gathered' := by
  refine gathers.forall₂ (forall₂_same.mpr fun _ _ => rfl) ?_
  rintro source _ part rfl
  exact each source part

/-- **The sources in another order** give the same values in another order. -/
theorem Gathers.perm {others : List α}
    (order : sources.Perm others) :
    ∃ gathered', Gathers gives others gathered' ∧ gathered.Perm gathered' := by
  induction order generalizing gathered with
  | nil => exact ⟨gathered, gathers, .refl _⟩
  | cons source order ih =>
    cases gathers with
    | cons x rest =>
      obtain ⟨_, gathers, alike⟩ := ih rest
      exact ⟨_, .cons x gathers, alike.append_left _⟩
  | swap =>
    cases gathers with
    | cons x rest =>
      cases rest with
      | cons y rest =>
        refine ⟨_, .cons y (.cons x rest), ?_⟩
        rw [← append_assoc, ← append_assoc]
        exact perm_append_comm.append_right _
  | trans _ _ one two =>
    obtain ⟨_, gathers, alike⟩ := one gathers
    obtain ⟨last, gathers, same⟩ := two gathers
    exact ⟨last, gathers, alike.trans same⟩

end

theorem gathers_singleton {value : α → β} :
    Gathers (fun source part => part = [value source]) sources gathered
      ↔ gathered = sources.map value := by
  induction sources generalizing gathered with
  | nil =>
    constructor
    · rintro ⟨⟩
      rfl
    · rintro rfl
      exact .nil
  | cons source sources ih =>
    constructor
    · rintro (_ | ⟨rfl, others⟩)
      rw [ih.mp others]
      rfl
    · rintro rfl
      exact @Gathers.cons _ _ _ source sources [value source] _ rfl (ih.mpr rfl)

variable {step : σ → α → Except ε σ} {fits : σ → List β → Prop} {push : σ → List β → σ}

/-- **What a loop gathers.** `push` adds values to the state and `fits` says when they may be added. -/
theorem foldlM_ok_iff (fitsNil : ∀ state, fits state []) (pushNil : ∀ state, push state [] = state)
    (fitsAppend : ∀ state one two, fits state (one ++ two) ↔ fits state one ∧ fits (push state one) two)
    (pushAppend : ∀ state one two, push state (one ++ two) = push (push state one) two)
    (sources : List α)
    (each : ∀ source ∈ sources, ∀ state after, step state source = .ok after
      ↔ ∃ part, gives source part ∧ fits state part ∧ after = push state part)
    (state after : σ) :
    sources.foldlM step state = .ok after
      ↔ ∃ gathered, Gathers gives sources gathered ∧ fits state gathered ∧ after = push state gathered := by
  induction sources generalizing state with
  | nil =>
    constructor
    · intro done
      cases done
      exact ⟨[], .nil, fitsNil _, (pushNil _).symm⟩
    · rintro ⟨_, gathers, _, rfl⟩
      cases gathers
      rw [pushNil]
      rfl
  | cons source sources ih =>
    have later := ih fun source mem => each source (mem_cons_of_mem _ mem)
    have here := each source mem_cons_self state
    rw [foldlM_cons]
    constructor
    · intro done
      cases first : step state source with
      | error =>
        rw [first] at done
        cases done
      | ok m =>
        rw [first] at done
        obtain ⟨part, given, fit, rfl⟩ := (here m).mp first
        obtain ⟨rest, gathers, fits, rfl⟩ := (later _).mp done
        exact ⟨part ++ rest, .cons given gathers, (fitsAppend _ _ _).mpr ⟨fit, fits⟩,
          (pushAppend _ _ _).symm⟩
    · rintro ⟨_, gathers, fit, rfl⟩
      cases gathers with
      | cons given gathers =>
        obtain ⟨one, two⟩ := (fitsAppend _ _ _).mp fit
        rw [(here _).mpr ⟨_, given, one, rfl⟩]
        exact (later _).mpr ⟨_, gathers, two, pushAppend _ _ _⟩

theorem foldlM_ne_error {stop : ε}
    (each : ∀ source ∈ sources, ∀ state, step state source ≠ .error stop) (state : σ) :
    sources.foldlM step state ≠ .error stop := by
  induction sources generalizing state with
  | nil => exact fun equal => nomatch equal
  | cons source sources ih =>
    rw [foldlM_cons]
    cases first : step state source with
    | error =>
      have here := each source mem_cons_self state
      rw [first] at here
      exact here
    | ok => exact ih (fun source mem => each source (mem_cons_of_mem _ mem)) _

end Gather

/-! ### Frames -/

section Frames

variable {α : Type} (word : Nat → List α)

/-- A text behind a word for its length. -/
def frame (text : List α) : List α :=
  word text.length ++ text

/-- Texts one after the other, each behind a word for its length. The texts can be read back
(`frames_injective`): nothing moves from one text into the next one. -/
def frames (texts : List (List α)) : List α :=
  texts.flatMap (frame word)

variable {word}

/-- **Framed texts can be read back**, as long as the words tell their lengths apart. -/
theorem frames_injective {width bound : Nat} (wide : 0 < width) (same : ∀ size, (word size).length = width)
    (apart : Set.InjOn word {size | size < bound}) {texts others : List (List α)}
    (short : ∀ text ∈ texts, text.length < bound) (brief : ∀ text ∈ others, text.length < bound)
    (equal : frames word texts = frames word others) : texts = others := by
  have filled (text : List α) : frame word text ≠ [] := by
    intro empty
    have sizes := congrArg List.length empty
    rw [frame, length_append, same] at sizes
    simp at sizes
    omega
  induction texts generalizing others with
  | nil =>
    cases others with
    | nil => rfl
    | cons text =>
      exact absurd (append_eq_nil_iff.mp equal.symm).1 (filled text)
  | cons text texts ih =>
    cases others with
    | nil => exact absurd (append_eq_nil_iff.mp equal).1 (filled text)
    | cons y others =>
      have joined : word text.length ++ (text ++ frames word texts)
          = word y.length ++ (y ++ frames word others) := by
        simpa [frames, frame] using equal
      obtain ⟨ws, rest⟩ := append_inj joined (by rw [same, same])
      have sizes : text.length = y.length :=
        apart (short text mem_cons_self) (brief y mem_cons_self) ws
      obtain ⟨heads, tails⟩ := append_inj rest sizes
      rw [heads, ih (fun text mem => short text (mem_cons_of_mem _ mem))
        (fun text mem => brief text (mem_cons_of_mem _ mem)) tails]

end Frames

end FoundationLang.Library
