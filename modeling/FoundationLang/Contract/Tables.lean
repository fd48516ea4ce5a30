/-
**The tables that `resolveContracts` leaves.**
-/

import Mathlib.Data.Finset.Card
import Mathlib.Data.Finset.Range
import FoundationLang.Contract.Merge
import FoundationLang.Library.Acyclic

namespace FoundationLang.Contract

open Library Relation List Function

section Tables

variable (copies : SemanticType → Bool) (contracts : List ContractDeclaration)
  (tables : Nat → List ContractMethod)

/-- The methods that come from one parent. -/
def inheritedFrom (parent : SemanticType) : List ContractMethod :=
  if Inherits contracts parent then
    (tables parent.declaration).map (specialize copies parent.arguments)
  else []

/-- The methods that come from a list of parents. -/
def inheritedMethods (parents : List SemanticType) : List ContractMethod :=
  parents.flatMap (inheritedFrom copies contracts tables)

/-- Every table is the merge of the tables of the parents with the direct methods. -/
def Solves : Prop :=
  ∀ index declaration, contracts[index]? = some declaration →
    tables index = (mergeAll (inheritedMethods copies contracts tables declaration.parents)
      (directMethods index declaration)).methods

/-- The merge for a contract reports nothing. -/
def Silent (index : Nat) : Prop :=
  ∀ declaration, contracts[index]? = some declaration →
    mergeDiagnostics (inheritedMethods copies contracts tables declaration.parents)
      (directMethods index declaration) = []

/-- One contract extends another. -/
def Extends (child parent : Nat) : Prop :=
  ∃ declaration, contracts[child]? = some declaration ∧
    ∃ application ∈ declaration.parents,
      Inherits contracts application ∧ application.declaration = parent

end Tables

variable {copies : SemanticType → Bool} {contracts : List ContractDeclaration}
  {tables tables' : Nat → List ContractMethod} {before after last : Flattener} {index : Nat}

theorem inheritedMethods_congr {parents : List SemanticType}
    (same : ∀ parent ∈ parents, Inherits contracts parent →
      tables parent.declaration = tables' parent.declaration) :
    inheritedMethods copies contracts tables parents
      = inheritedMethods copies contracts tables' parents := by
  unfold inheritedMethods
  refine flatMap_congr fun parent mem => ?_
  unfold inheritedFrom
  split
  case isTrue inherits => rw [same parent mem inherits]
  case isFalse => rfl

/-! ### Merging with errors in front -/

theorem mergeContractMethod_diagnostics (overriding : Bool) (merging : Merging)
    (method : ContractMethod) (earlier : List Diagnostic) :
    mergeContractMethod overriding { merging with diagnostics := earlier ++ merging.diagnostics } method
      = { mergeContractMethod overriding merging method with
          diagnostics := earlier ++ (mergeContractMethod overriding merging method).diagnostics } := by
  unfold mergeContractMethod
  dsimp only
  split
  · rfl
  · split_ifs <;> simp

theorem foldl_merge_diagnostics (overriding : Bool) (methods : List ContractMethod)
    (merging : Merging) (earlier : List Diagnostic) :
    methods.foldl (mergeContractMethod overriding)
        { merging with diagnostics := earlier ++ merging.diagnostics }
      = { methods.foldl (mergeContractMethod overriding) merging with
          diagnostics := earlier ++
            (methods.foldl (mergeContractMethod overriding) merging).diagnostics } := by
  induction methods generalizing merging with
  | nil => rfl
  | cons method rest ih =>
    rw [foldl_cons, mergeContractMethod_diagnostics, ih, foldl_cons]

theorem Flattener.merge_spec {f : Flattener} {merging : Merging} {names : List String}
    (overriding : Bool) (methods : List ContractMethod)
    (table : f.methods index = merging.methods) (ambiguous : names = merging.ambiguousDefaults) :
    (f.merge index names overriding methods).1.states = f.states ∧
      (f.merge index names overriding methods).1.methods = update f.methods
        index (methods.foldl (mergeContractMethod overriding) merging).methods ∧
      (f.merge index names overriding methods).2
        = (methods.foldl (mergeContractMethod overriding) merging).ambiguousDefaults ∧
      ∃ reported : List Diagnostic,
        (f.merge index names overriding methods).1.diagnostics
            = f.diagnostics ++ reported ∧
          (methods.foldl (mergeContractMethod overriding) merging).diagnostics
            = merging.diagnostics ++ reported := by
  obtain ⟨held, shared, errors⟩ := merging
  dsimp only at table ambiguous
  subst ambiguous
  have front := foldl_merge_diagnostics overriding methods ⟨held, names, []⟩ f.diagnostics
  have beside := foldl_merge_diagnostics overriding methods ⟨held, names, []⟩ errors
  simp only [append_nil] at front beside
  simp only [Flattener.merge, Flattener.setMethods, table, front, beside]
  exact ⟨trivial, trivial, trivial, _, rfl, rfl⟩

/-! ### What a call does -/

/-- A contract whose parents are done and whose table is merged from theirs. -/
def Settled (copies : SemanticType → Bool) (contracts : List ContractDeclaration)
    (flattener : Flattener) (index : Nat) : Prop :=
  ∃ declaration, contracts[index]? = some declaration ∧
    (∀ parent ∈ declaration.parents, Inherits contracts parent →
      flattener.states parent.declaration = .done) ∧
    flattener.methods index
      = (mergeAll (inheritedMethods copies contracts flattener.methods declaration.parents)
          (directMethods index declaration)).methods

/-- Contracts that are done stay as they are. -/
def Keeps (before after : Flattener) : Prop :=
  ∀ index, before.states index = .done →
    after.states index = .done ∧ after.methods index = before.methods index

/-- The merges of the contracts that have become done report nothing. -/
def NewlySilent (copies : SemanticType → Bool) (contracts : List ContractDeclaration)
    (before after : Flattener) : Prop :=
  ∀ index, before.states index = .fresh → after.states index = .done →
    Silent copies contracts after.methods index

/-- What the contracts have that are flattened in between. -/
def Settles (copies : SemanticType → Bool) (contracts : List ContractDeclaration)
    (before after : Flattener) : Prop :=
  ∀ index, before.states index = .fresh →
    after.states index = .fresh ∧ after.methods index = before.methods index
      ∨ after.states index = .done ∧ Settled copies contracts after index

/-- What one call does. -/
structure Advances (copies : SemanticType → Bool) (contracts : List ContractDeclaration)
    (before after : Flattener) : Prop where
  frame : ∀ index, before.states index ≠ .fresh →
    after.states index = before.states index ∧ after.methods index = before.methods index
  settles : Settles copies contracts before after
  reports : after.diagnostics = []
    ↔ before.diagnostics = [] ∧ NewlySilent copies contracts before after

theorem Settled.mono (settled : Settled copies contracts before index)
    (keeps : Keeps before after) (same : after.methods index = before.methods index) :
    Settled copies contracts after index := by
  obtain ⟨decl, declared, parents, table⟩ := settled
  refine ⟨decl, declared, fun parent mem inherits => ?_, ?_⟩
  · exact (keeps _ (parents parent mem inherits)).1
  · rw [same, table, inheritedMethods_congr fun parent mem inherits =>
      (keeps _ (parents parent mem inherits)).2]

theorem Settled.silent_iff (settled : Settled copies contracts before index)
    (keeps : Keeps before after) :
    Silent copies contracts after.methods index ↔ Silent copies contracts before.methods index := by
  obtain ⟨decl, declared, parents, _⟩ := settled
  have same : inheritedMethods copies contracts after.methods decl.parents
      = inheritedMethods copies contracts before.methods decl.parents :=
    inheritedMethods_congr fun parent mem inherits =>
      (keeps _ (parents parent mem inherits)).2
  simp [Silent, declared, same]

theorem newlySilent_refl (flattener : Flattener) :
    NewlySilent copies contracts flattener flattener := by
  intro index fresh done
  rw [fresh] at done
  contradiction

theorem Settles.trans (x : Settles copies contracts before after)
    (y : Settles copies contracts after last) (keeps : Keeps after last) :
    Settles copies contracts before last := by
  intro index fresh
  rcases x index fresh with ⟨still, same⟩ | ⟨done, settled⟩
  · exact (y index still).imp_left fun kept => ⟨kept.1, kept.2.trans same⟩
  · have kept := keeps index done
    exact .inr ⟨kept.1, settled.mono keeps kept.2⟩

theorem newlySilent_trans (settles : Settles copies contracts before after)
    (busy : ∀ index, before.states index ≠ .fresh → after.states index ≠ .fresh)
    (keeps : Keeps after last) :
    NewlySilent copies contracts before last ↔
      NewlySilent copies contracts before after ∧ NewlySilent copies contracts after last := by
  constructor
  · intro every
    refine ⟨fun index fresh done => ?_, fun index fresh done => every index ?_ done⟩
    · rcases settles index fresh with ⟨still, _⟩ | ⟨_, settled⟩
      · rw [still] at done
        contradiction
      · exact (settled.silent_iff keeps).mp (every index fresh (keeps index done).1)
    · exact not_not.mp fun waiting => busy index waiting fresh
  · rintro ⟨one, two⟩ index fresh done
    rcases settles index fresh with ⟨still, _⟩ | ⟨early, settled⟩
    · exact two index still done
    · exact (settled.silent_iff keeps).mpr (one index fresh early)

theorem Advances.refl (f : Flattener) : Advances copies contracts f f where
  frame _ _ := ⟨rfl, rfl⟩
  settles _ fresh := .inl ⟨fresh, rfl⟩
  reports := (and_iff_left (newlySilent_refl f)).symm

theorem Advances.keeps (advances : Advances copies contracts before after) : Keeps before after := by
  intro index done
  have same := advances.frame index (by rw [done]; decide)
  exact ⟨same.1.trans done, same.2⟩

theorem Advances.trans (x : Advances copies contracts before after)
    (y : Advances copies contracts after last) : Advances copies contracts before last where
  frame index busy := by
    have one := x.frame index busy
    have two := y.frame index (one.1 ▸ busy)
    exact ⟨two.1.trans one.1, two.2.trans one.2⟩
  settles := x.settles.trans y.settles y.keeps
  reports := by
    rw [y.reports, x.reports, and_assoc, newlySilent_trans x.settles
      (fun index busy => (x.frame index busy).1 ▸ busy) y.keeps]

/-! ### The loop over the parents -/

/-- Where the loop of a contract stands after some of its parents. -/
structure Inheriting (copies : SemanticType → Bool) (contracts : List ContractDeclaration)
    (opened : Flattener) (index : Nat) (parents : List SemanticType)
    (progress : Flattener × List String) : Prop where
  active : progress.1.states index = .active
  frame : ∀ other, other ≠ index → opened.states other ≠ .fresh →
    progress.1.states other = opened.states other ∧ progress.1.methods other = opened.methods other
  settles : Settles copies contracts opened progress.1
  visited : ∀ parent ∈ parents, Inherits contracts parent →
    progress.1.states parent.declaration = .done
  table : progress.1.methods index
    = (inheritAll (inheritedMethods copies contracts progress.1.methods parents)).methods
  ambiguous : progress.2
    = (inheritAll (inheritedMethods copies contracts progress.1.methods parents)).ambiguousDefaults
  reports : progress.1.diagnostics = [] ↔ opened.diagnostics = [] ∧
    NewlySilent copies contracts opened progress.1 ∧
    (inheritAll (inheritedMethods copies contracts progress.1.methods parents)).diagnostics = []

variable {opened flattened : Flattener} {parents : List SemanticType} {parent : SemanticType}
  {progress : Flattener × List String}

theorem Inheriting.start (active : opened.states index = .active) (empty : opened.methods index = []) :
    Inheriting copies contracts opened index [] (opened, []) where
  active := active
  frame _ _ _ := ⟨rfl, rfl⟩
  settles _ fresh := .inl ⟨fresh, rfl⟩
  visited := by simp
  table := empty
  ambiguous := rfl
  reports := (and_iff_left ⟨newlySilent_refl opened, rfl⟩).symm

theorem Inheriting.busy (inh : Inheriting copies contracts opened index parents progress)
    (y : Nat) (waiting : opened.states y ≠ .fresh) : progress.1.states y ≠ .fresh := by
  by_cases here : y = index
  · rw [here, inh.active]
    decide
  · rwa [(inh.frame y here waiting).1]

theorem inheritedMethods_concat (tables : Nat → List ContractMethod) (parents : List SemanticType)
    (parent : SemanticType) : inheritedMethods copies contracts tables (parents ++ [parent])
      = inheritedMethods copies contracts tables parents
        ++ inheritedFrom copies contracts tables parent := by
  simp [inheritedMethods]

section

variable (inh : Inheriting copies contracts opened index parents progress)
include inh

theorem Inheriting.skip
    (passed : ¬Inherits contracts parent) :
    Inheriting copies contracts opened index (parents ++ [parent]) progress := by
  have same : inheritedMethods copies contracts progress.1.methods (parents ++ [parent])
      = inheritedMethods copies contracts progress.1.methods parents := by
    rw [inheritedMethods_concat, inheritedFrom, if_neg passed, append_nil]
  refine ⟨inh.active, inh.frame, inh.settles, fun y mem inherits => ?_, ?_,
    ?_, ?_⟩
  · rcases mem_append.mp mem with earlier | final
    · exact inh.visited y earlier inherits
    · exact absurd (mem_singleton.mp final ▸ inherits) passed
  · rw [same, inh.table]
  · rw [same, inh.ambiguous]
  · rw [same, inh.reports]

/-- The table of a parent is settled while the loop waits. -/
theorem Inheriting.advance
    (advances : Advances copies contracts progress.1 flattened) :
    Inheriting copies contracts opened index parents (flattened, progress.2) := by
  have busy : progress.1.states index ≠ .fresh := by rw [inh.active]; decide
  have own := advances.frame index busy
  have same : inheritedMethods copies contracts flattened.methods parents
      = inheritedMethods copies contracts progress.1.methods parents :=
    inheritedMethods_congr fun one mem inherits =>
      (advances.keeps _ (inh.visited one mem inherits)).2
  refine ⟨own.1.trans inh.active, fun y apart waiting => ?_,
    inh.settles.trans advances.settles advances.keeps, fun one mem inherits => ?_, ?_, ?_, ?_⟩
  · have one := inh.frame y apart waiting
    have two := advances.frame y (one.1 ▸ waiting)
    exact ⟨two.1.trans one.1, two.2.trans one.2⟩
  · exact (advances.keeps _ (inh.visited one mem inherits)).1
  · rw [own.2, inh.table, same]
  · rw [same, inh.ambiguous]
  · rw [same, advances.reports, inh.reports,
      newlySilent_trans inh.settles inh.busy advances.keeps]
    tauto

theorem Inheriting.merge
    (inherits : Inherits contracts parent)
    (done : progress.1.states parent.declaration = .done) :
    Inheriting copies contracts opened index (parents ++ [parent])
      (progress.1.merge index progress.2 false
        ((progress.1.methods parent.declaration).map (specialize copies parent.arguments))) := by
  set entered := progress.1.merge index progress.2 false
    ((progress.1.methods parent.declaration).map (specialize copies parent.arguments)) with defined
  obtain ⟨states, tables, names, reported, errors, also⟩ := Flattener.merge_spec false
    ((progress.1.methods parent.declaration).map (specialize copies parent.arguments))
    inh.table inh.ambiguous
  rw [← defined] at states tables names errors
  have kept : ∀ other, other ≠ index → entered.1.methods other = progress.1.methods other :=
    fun other apart => by rw [tables, update_of_ne apart]
  have keeps : Keeps progress.1 entered.1 := by
    intro other finished
    refine ⟨by rw [states, finished], kept other ?_⟩
    rintro rfl
    rw [inh.active] at finished
    contradiction
  have visited : ∀ one ∈ parents ++ [parent], Inherits contracts one →
      progress.1.states one.declaration = .done := by
    intro one mem enters
    rcases mem_append.mp mem with earlier | final
    · exact inh.visited one earlier enters
    · rwa [mem_singleton.mp final]
  have folded : inheritAll (inheritedMethods copies contracts entered.1.methods (parents ++ [parent]))
      = ((progress.1.methods parent.declaration).map (specialize copies parent.arguments)).foldl
          (mergeContractMethod false)
          (inheritAll (inheritedMethods copies contracts progress.1.methods parents)) := by
    rw [inheritedMethods_congr fun one mem enters => (keeps _ (visited one mem enters)).2,
      inheritedMethods_concat, inheritedFrom, if_pos inherits, inheritAll, foldl_append]
    rfl
  have settles : Settles copies contracts progress.1 entered.1 := by
    refine fun other fresh => .inl ⟨by rw [states, fresh], kept other ?_⟩
    rintro rfl
    rw [inh.active] at fresh
    contradiction
  have silent : NewlySilent copies contracts progress.1 entered.1 := by
    intro other fresh done
    rw [states, fresh] at done
    contradiction
  refine ⟨by rw [states, inh.active], fun other apart waiting => ?_,
    inh.settles.trans settles keeps, fun one mem enters => ?_, ?_, ?_, ?_⟩
  · rw [states, kept other apart]
    exact inh.frame other apart waiting
  · rw [states]
    exact visited one mem enters
  · rw [folded, tables, update_self]
  · rw [folded, names]
  · rw [folded, errors, also, append_eq_nil_iff, append_eq_nil_iff, inh.reports,
      newlySilent_trans inh.settles inh.busy keeps]
    tauto

end

/-! ### One call -/

/-- The number of contracts that are still fresh. -/
def freshCount (contracts : List ContractDeclaration) (flattener : Flattener) : Nat :=
  ((Finset.range contracts.length).filter fun index => flattener.states index = .fresh).card

theorem freshCount_lt (still : ∀ index, after.states index = .fresh → before.states index = .fresh)
    (bounded : index < contracts.length) (fresh : before.states index = .fresh)
    (busy : after.states index ≠ .fresh) :
    freshCount contracts after < freshCount contracts before := by
  refine Finset.card_lt_card (Finset.ssubset_iff_of_subset (Finset.monotone_filter_right _
    fun index _ => still index) |>.mpr ⟨index, ?_, ?_⟩)
  · simp [bounded, fresh]
  · simp [busy]

/-- When a contract may be flattened: the fresh contracts have their direct methods, and those on the
stack extend this one. -/
structure Ready (contracts : List ContractDeclaration) (flattener : Flattener) (index : Nat) : Prop where
  pristine : ∀ other declaration, flattener.states other = .fresh →
    contracts[other]? = some declaration → flattener.methods other = directMethods other declaration
  stack : ∀ other, flattener.states other = .active → TransGen (Extends contracts) other index

/-- What a call comes back with. -/
def Flattens (copies : SemanticType → Bool) (contracts : List ContractDeclaration) (index : Nat)
    (flattener : Flattener) (outcome : Option Flattener) : Prop :=
  ∃ result, outcome = some result ∧ Advances copies contracts flattener result ∧
    (index < contracts.length → result.states index = .done)

theorem Inheriting.ready {d : ContractDeclaration}
    (inh : Inheriting copies contracts opened index parents progress)
    (ready : Ready contracts before index) (declared : contracts[index]? = some d)
    (states : opened.states = update before.states index .active)
    (methods : opened.methods = update before.methods index [])
    (mem : parent ∈ d.parents) (inherits : Inherits contracts parent) :
    Ready contracts progress.1 parent.declaration := by
  have step : Extends contracts index parent.declaration :=
    ⟨d, declared, parent, mem, inherits, rfl⟩
  constructor
  · intro y otherDeclaration fresh otherDeclared
    have apart : y ≠ index := by
      rintro rfl
      rw [inh.active] at fresh
      contradiction
    have waited : opened.states y = .fresh :=
      not_not.mp fun waiting => inh.busy y waiting fresh
    rcases inh.settles y waited with ⟨_, same⟩ | ⟨done, _⟩
    · rw [states, update_of_ne apart] at waited
      rw [same, methods, update_of_ne apart]
      exact ready.pristine y otherDeclaration waited otherDeclared
    · rw [fresh] at done
      contradiction
  · intro y active
    by_cases here : y = index
    · exact here ▸ .single step
    · have busy : opened.states y ≠ .fresh := by
        intro fresh
        rcases inh.settles y fresh with ⟨still, _⟩ | ⟨done, _⟩
        · rw [active] at still
          contradiction
        · rw [active] at done
          contradiction
      have same := (inh.frame y here busy).1
      rw [active, states, update_of_ne here] at same
      exact (ready.stack y same.symm).tail step

theorem foldlM_inheritParent {flatten : Nat → Flattener → Option Flattener}
    {every : List SemanticType}
    (calls : ∀ parents progress, Inheriting copies contracts opened index parents progress →
      ∀ parent ∈ every, Inherits contracts parent →
        Flattens copies contracts parent.declaration progress.1
          (flatten parent.declaration progress.1))
    (rest : List SemanticType) (included : ∀ parent ∈ rest, parent ∈ every)
    (inh : Inheriting copies contracts opened index parents progress) :
    ∃ result, rest.foldlM (inheritParent copies contracts flatten index) progress = some result ∧
      Inheriting copies contracts opened index (parents ++ rest) result := by
  induction rest generalizing parents progress with
  | nil => exact ⟨progress, rfl, by rwa [append_nil]⟩
  | cons parent rest ih =>
    have later : ∀ one ∈ rest, one ∈ every := fun one mem => included one (mem_cons_of_mem _ mem)
    rw [foldlM_cons, inheritParent, append_cons]
    by_cases inherits : Inherits contracts parent
    · obtain ⟨_, called, advances, done⟩ :=
        calls parents progress inh parent (included parent (by simp)) inherits
      rw [if_pos inherits, called]
      exact ih later ((inh.advance advances).merge inherits (done inherits.2))
    · rw [if_neg inherits]
      exact ih later (inh.skip inherits)

theorem Inheriting.close {d : ContractDeclaration} {inherited : Flattener × List String}
    (inh : Inheriting copies contracts opened index d.parents inherited)
    (fresh : before.states index = .fresh) (declared : contracts[index]? = some d)
    (states : opened.states = update before.states index .active)
    (methods : opened.methods = update before.methods index [])
    (diagnostics : opened.diagnostics = before.diagnostics)
    (own : before.methods index = directMethods index d) :
    let merged := inherited.1.merge index inherited.2 true (before.methods index)
    Advances copies contracts before
      ((merged.1.report (ambiguityDiagnostics merged.2)).setState index .done) := by
  intro merged
  obtain ⟨kept, tables, names, reported, errors, also⟩ := Flattener.merge_spec true
    (before.methods index) inh.table inh.ambiguous
  set closed := (merged.1.report (ambiguityDiagnostics merged.2)).setState index .done with closedDef
  have closedStates : closed.states = update inherited.1.states index .done := by
    rw [closedDef]
    simp only [Flattener.setState, Flattener.report, kept, merged]
  have closedMethods : closed.methods = update inherited.1.methods index
      (mergeAll (inheritedMethods copies contracts inherited.1.methods d.parents)
        (directMethods index d)).methods := by
    refine Eq.trans tables ?_
    rw [own]
    rfl
  have closedDiagnostics : closed.diagnostics = [] ↔ inherited.1.diagnostics = [] ∧ reported = [] ∧
      ambiguityDiagnostics merged.2 = [] := by
    rw [closedDef]
    simp only [Flattener.setState, Flattener.report, merged, errors, append_eq_nil_iff, and_assoc]
  have openedAt : ∀ other, other ≠ index → opened.states other = before.states other ∧
      opened.methods other = before.methods other := by
    intro other apart
    rw [states, methods, update_of_ne apart, update_of_ne apart]
    exact ⟨rfl, rfl⟩
  have closedAt : ∀ other, other ≠ index → closed.states other = inherited.1.states other ∧
      closed.methods other = inherited.1.methods other := by
    intro other apart
    rw [closedStates, closedMethods, update_of_ne apart, update_of_ne apart]
    exact ⟨rfl, rfl⟩
  have keeps : Keeps inherited.1 closed := by
    intro other done
    have apart : other ≠ index := by
      rintro rfl
      rw [inh.active] at done
      contradiction
    exact ⟨(closedAt other apart).1.trans done, (closedAt other apart).2⟩
  have inheritedSame : inheritedMethods copies contracts closed.methods d.parents
      = inheritedMethods copies contracts inherited.1.methods d.parents :=
    inheritedMethods_congr fun parent mem inherits =>
      (keeps _ (inh.visited parent mem inherits)).2
  have silentHere : Silent copies contracts closed.methods index ↔
      (inheritAll (inheritedMethods copies contracts inherited.1.methods
        d.parents)).diagnostics = [] ∧ reported = [] ∧
        ambiguityDiagnostics merged.2 = [] := by
    have unfolded : Silent copies contracts closed.methods index ↔
        mergeDiagnostics (inheritedMethods copies contracts closed.methods d.parents)
          (directMethods index d) = [] := by
      simp [Silent, declared]
    rw [unfolded, inheritedSame, mergeDiagnostics, mergeAll, ← own, also, names,
      append_eq_nil_iff, append_eq_nil_iff, and_assoc]
  refine ⟨fun other busy => ?_, fun other waited => ?_, ?_⟩
  · have apart : other ≠ index := by
      rintro rfl
      exact busy fresh
    have frame := inh.frame other apart (by rwa [(openedAt other apart).1])
    rw [(closedAt other apart).1, (closedAt other apart).2, frame.1, frame.2]
    exact openedAt other apart
  · by_cases here : other = index
    · subst here
      refine .inr ⟨by rw [closedStates, update_self], d, declared,
        fun parent mem inherits => ?_, ?_⟩
      · exact (keeps _ (inh.visited parent mem inherits)).1
      · rw [closedMethods, update_self, ← closedMethods, inheritedSame]
    · have stays := inh.settles other ((openedAt other here).1.trans waited)
      rw [(openedAt other here).2] at stays
      rw [(closedAt other here).1, (closedAt other here).2]
      exact stays.imp_right fun done => ⟨done.1, done.2.mono keeps (closedAt other here).2⟩
  · rw [closedDiagnostics, inh.reports, diagnostics, and_assoc, and_assoc,
      and_congr_right_iff]
    intro _
    have unchanged : NewlySilent copies contracts inherited.1 closed := by
      intro other waited done
      have apart : other ≠ index := by
        rintro rfl
        rw [inh.active] at waited
        contradiction
      rw [(closedAt other apart).1, waited] at done
      contradiction
    have earlier : NewlySilent copies contracts opened inherited.1 ↔
        NewlySilent copies contracts opened closed := by
      rw [newlySilent_trans inh.settles inh.busy keeps]
      exact (and_iff_left unchanged).symm
    rw [← silentHere, earlier]
    constructor
    · rintro ⟨others, here⟩ other waited done
      by_cases own : other = index
      · exact own ▸ here
      · exact others other ((openedAt other own).1.trans waited) done
    · intro every
      refine ⟨fun other waited done => every other ?_ done,
        every index fresh (by rw [closedStates, update_self])⟩
      have apart : other ≠ index := by
        rintro rfl
        rw [states, update_self] at waited
        contradiction
      exact (openedAt other apart).1.symm.trans waited

/-- **One call**: `flattenContract` with more fuel than there are fresh contracts. -/
theorem flattenContract_spec (copies : SemanticType → Bool)
    (acyclic : Acyclic (Extends contracts)) (fuel : Nat)
    (flattener : Flattener) (ready : Ready contracts flattener index)
    (enough : freshCount contracts flattener < fuel) :
    Flattens copies contracts index flattener
      (flattenContract copies contracts fuel index flattener) := by
  induction fuel generalizing index flattener with
  | zero => exact absurd enough (Nat.not_lt_zero _)
  | succ fuel ih =>
    rw [flattenContract]
    rcases declared : contracts[index]? with _ | declaration
    · refine ⟨flattener, rfl, .refl flattener, fun bounded => ?_⟩
      rw [List.getElem?_eq_getElem bounded] at declared
      contradiction
    have bounded : index < contracts.length := (List.getElem?_eq_some_iff.mp declared).1
    rcases state : flattener.states index
    case done => exact ⟨flattener, rfl, .refl flattener, fun _ => state⟩
    case active => exact absurd (ready.stack index state) (acyclic index)
    case fresh =>
      set opened := (flattener.setState index .active).setMethods index [] with openedDef
      have active : opened.states index = .active := by
        rw [openedDef]
        exact update_self ..
      have empty : opened.methods index = [] := by
        rw [openedDef]
        exact update_self ..
      have calls : ∀ parents progress, Inheriting copies contracts opened index parents progress →
          ∀ parent ∈ declaration.parents, Inherits contracts parent →
            Flattens copies contracts parent.declaration progress.1
              (flattenContract copies contracts fuel parent.declaration progress.1) := by
        intro parents progress inh parent mem inherits
        refine ih progress.1
          (inh.ready ready declared rfl rfl mem inherits) ?_
        have fewer : freshCount contracts progress.1 < freshCount contracts flattener := by
          refine freshCount_lt (fun y fresh => ?_) bounded state (by rw [inh.active]; decide)
          have waited : opened.states y = .fresh :=
            not_not.mp fun waiting => inh.busy y waiting fresh
          have apart : y ≠ index := by
            rintro rfl
            rw [active] at waited
            contradiction
          exact (update_of_ne apart _ _).symm.trans waited
        omega
      obtain ⟨_, looped, inh⟩ := foldlM_inheritParent calls declaration.parents
        (fun _ mem => mem) (.start active empty)
      refine ⟨_, by dsimp only; rw [looped]; rfl, ?_, fun _ => update_self ..⟩
      exact inh.close state declared rfl rfl rfl (ready.pristine index declaration state declared)

/-! ### The whole run -/

theorem foldlM_flattenContract (copies : SemanticType → Bool)
    (acyclic : Acyclic (Extends contracts)) (indices : List Nat)
    (f : Flattener)
    (pristine : ∀ y decl, f.states y = .fresh →
      contracts[y]? = some decl → f.methods y = directMethods y decl)
    (idle : ∀ y, f.states y ≠ .active) :
    ∃ result, indices.foldlM (fun f index =>
        flattenContract copies contracts (contracts.length + 1) index f) f = some result ∧
      Advances copies contracts f result ∧
      ∀ index ∈ indices, index < contracts.length → result.states index = .done := by
  induction indices generalizing f with
  | nil => exact ⟨f, rfl, .refl f, by simp⟩
  | cons index rest ih =>
    have ready : Ready contracts f index := ⟨pristine, fun y active => absurd active (idle y)⟩
    have enough : freshCount contracts f < contracts.length + 1 := by
      refine Nat.lt_succ_of_le ((Finset.card_filter_le _ _).trans ?_)
      rw [Finset.card_range]
    obtain ⟨next, called, advances, done⟩ :=
      flattenContract_spec copies acyclic _ f ready enough
    have still : ∀ y, next.states y = .fresh → f.states y = .fresh := by
      intro y fresh
      by_contra busy
      rw [(advances.frame y busy).1] at fresh
      exact busy fresh
    obtain ⟨result, ran, later, rested⟩ := ih next
      (fun y decl fresh declared => by
        rcases advances.settles y (still y fresh) with ⟨_, same⟩ | ⟨finished, _⟩
        · rw [same, pristine y decl (still y fresh) declared]
        · rw [fresh] at finished
          contradiction)
      (fun y active => by
        by_cases fresh : f.states y = .fresh
        · rcases advances.settles y fresh with ⟨stays, _⟩ | ⟨finished, _⟩
          · rw [active] at stays
            contradiction
          · rw [active] at finished
            contradiction
        · rw [(advances.frame y fresh).1] at active
          exact idle y active)
    refine ⟨result, by rw [foldlM_cons, called]; exact ran, advances.trans later, ?_⟩
    intro one mem bounded
    rcases mem_cons.mp mem with rfl | further
    · exact (later.keeps one (done bounded)).1
    · exact rested one further bounded

/-- **Resolving an acyclic hierarchy** solves it, and reports nothing exactly when the declarations and
the merges have no error. -/
theorem resolveContracts_spec (copies : SemanticType → Bool) (acyclic : Acyclic (Extends contracts)) :
    ∃ resolved, resolveContracts copies contracts = some resolved ∧
      Solves copies contracts resolved.methods ∧
      (resolved.diagnostics = [] ↔ contracts.flatMap declarationDiagnostics = [] ∧
        ∀ index, Silent copies contracts resolved.methods index) := by
  obtain ⟨resolved, ran, advances, done⟩ := foldlM_flattenContract copies acyclic
    (List.range contracts.length) (declared contracts)
    (fun y decl _ found => by simp [declared, found]) (fun y => by simp [declared])
  have finished : ∀ index, index < contracts.length → resolved.states index = .done :=
    fun index bounded => done index (mem_range.mpr bounded) bounded
  refine ⟨resolved, ran, fun index decl found => ?_, ?_⟩
  · have bounded := (List.getElem?_eq_some_iff.mp found).1
    rcases advances.settles index rfl with ⟨fresh, _⟩ | ⟨_, declaration', found', _, table⟩
    · rw [finished index bounded] at fresh
      contradiction
    · obtain rfl : decl = declaration' := Option.some.inj (found.symm.trans found')
      exact table
  · rw [advances.reports]
    refine and_congr_right fun _ => ⟨fun silent index decl found => ?_,
      fun silent index _ _ => silent index⟩
    have bounded := (List.getElem?_eq_some_iff.mp found).1
    exact silent index rfl (finished index bounded) decl found

end FoundationLang.Contract
