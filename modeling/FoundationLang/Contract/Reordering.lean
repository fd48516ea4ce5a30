/-
**The order of parents.**

* `ContractMethod.core`, `ContractMethod.traced` — what a slot says of its method: name, signature and
  default, and that together with the origin.
-/

import Mathlib.Data.List.Perm.Basic
import Mathlib.Data.List.Forall2
import Mathlib.Data.Set.Finite.Basic
import FoundationLang.Contract.Tables

namespace FoundationLang.Contract

open Library Relation List

/-- The same contracts, each with its parents in another order. -/
def Reordered (contracts contracts' : List ContractDeclaration) : Prop :=
  List.Forall₂ (fun declaration declaration' =>
    declaration'.typeParameterCount = declaration.typeParameterCount ∧
      declaration'.methods = declaration.methods ∧
      declaration'.parents.Perm declaration.parents) contracts contracts'

/-- Name, signature and default function. -/
structure MethodCore where
  name : String
  signature : ReceiverKind × SemanticType × List SemanticType × List ParameterMode
  defaultFunction : Option Nat
  deriving DecidableEq

/-- The name, the signature and the default. -/
def ContractMethod.core (method : ContractMethod) : MethodCore :=
  ⟨method.name, method.signature, method.defaultFunction⟩

/-- The core and the origin. -/
def ContractMethod.traced (method : ContractMethod) : MethodCore × Nat × List SemanticType :=
  (method.core, method.originContract, method.originArguments)

/-- A view of methods that shows the core and commutes with applications. -/
structure View {β : Type} (copies : SemanticType → Bool) (view : ContractMethod → β) : Prop where
  core : ∀ one other, view one = view other → one.core = other.core
  specialize : ∀ actual one other, view one = view other →
    view (specialize copies actual one) = view (specialize copies actual other)

/-- The same views occur in two lists. -/
def SameViews {β : Type} (view : ContractMethod → β) (methods methods' : List ContractMethod) : Prop :=
  ∀ seen, seen ∈ methods.map view ↔ seen ∈ methods'.map view

section Views

variable {β : Type} {copies : SemanticType → Bool} {view : ContractMethod → β}
  {inherited inherited' direct : List ContractMethod}

theorem SameViews.symm (same : SameViews view inherited inherited') :
    SameViews view inherited' inherited :=
  fun seen => (same seen).symm

theorem SameViews.exists_mem (same : SameViews view inherited inherited') {method : ContractMethod}
    (mem : method ∈ inherited) : ∃ y ∈ inherited', view y = view method :=
  mem_map.mp ((same _).mp (mem_map.mpr ⟨method, mem, rfl⟩))

theorem core_eq_iff {one y : ContractMethod} : one.core = y.core ↔
    one.name = y.name ∧ one.signature = y.signature ∧
      one.defaultFunction = y.defaultFunction := by
  simp [ContractMethod.core]

section

variable (same : SameViews view inherited inherited')
include same

theorem SameViews.mergeable (shows : View copies view)
    (mergeable : Mergeable inherited direct) : Mergeable inherited' direct := by
  have back : ∀ method ∈ inherited', ∃ y ∈ inherited, y.name = method.name ∧
      y.signature = method.signature ∧ y.defaultFunction = method.defaultFunction := by
    intro method mem
    obtain ⟨y, present, equal⟩ := same.symm.exists_mem mem
    exact ⟨y, present, core_eq_iff.mp (shows.core _ _ equal)⟩
  constructor
  · intro one here y there named
    obtain ⟨one', here', name, signature, _⟩ := back one here
    obtain ⟨y', there', also, too, _⟩ := back y there
    rw [← signature, ← too]
    exact mergeable.compatible one' here' y' there' (name.trans (named.trans also.symm))
  · intro method mem y there named
    obtain ⟨y', there', name, signature, _⟩ := back y there
    rw [← signature]
    exact mergeable.overrides method mem y' there' (name.trans named)
  · rintro name undeclared ⟨one, here, y, there, named, also, _, _, _⟩
    obtain ⟨one', here', name', _, default⟩ := back one here
    obtain ⟨y', there', also', _, default'⟩ := back y there
    refine mergeable.decided name undeclared ⟨one', here', y', there', name'.trans named,
      also'.trans also, ?_, ?_, ?_⟩
    · rwa [default]
    · rwa [default']
    · rwa [default, default']

theorem SameViews.exists_supplies
    (shows : View copies view) {name : String} {method : ContractMethod}
    (supplied : Supplies inherited name method) :
    ∃ y, Supplies inherited' name y ∧ view y = view method := by
  obtain ⟨y, mem, equal⟩ := same.exists_mem supplied.member
  obtain ⟨named, _, default⟩ := core_eq_iff.mp (shows.core _ _ equal)
  refine ⟨y, ⟨mem, named.trans supplied.named, fun bare one there called => ?_⟩, equal⟩
  obtain ⟨before, present, also⟩ := same.symm.exists_mem there
  obtain ⟨named', _, default'⟩ := core_eq_iff.mp (shows.core _ _ also)
  rw [← default']
  exact supplied.preferred (default.symm.trans bare) before present (named'.trans called)

/-- **A slot looks the same** when all that may fill it do. -/
theorem SameViews.slot_mergeAll
    (shows : View copies view) (single : (direct.map ContractMethod.name).Nodup)
    (mergeable : Mergeable inherited direct)
    (agree : ∀ name, slot direct name = none → ∀ one y, Supplies inherited name one →
      Supplies inherited name y → view one = view y) (name : String) :
    (slot (mergeAll inherited' direct).methods name).map view
      = (slot (mergeAll inherited direct).methods name).map view := by
  rcases Contract.slot_mergeAll single mergeable name with
    ⟨declared, taken⟩ | ⟨undeclared, ⟨empty, absent⟩ | ⟨found, taken, supplied⟩⟩ <;>
  rcases Contract.slot_mergeAll single (same.mergeable shows mergeable) name with
    ⟨declared', taken'⟩ | ⟨undeclared', ⟨empty', absent'⟩ | ⟨found', taken', supplied'⟩⟩
  · rw [taken, taken']
  · simp [undeclared'] at declared
  · simp [undeclared'] at declared
  · simp [undeclared] at declared'
  · rw [empty, empty']
  · obtain ⟨y, also, _⟩ := same.symm.exists_supplies shows supplied'
    exact absurd also.named (absent y also.member)
  · simp [undeclared] at declared'
  · obtain ⟨y, also, _⟩ := same.exists_supplies shows supplied
    exact absurd also.named (absent' y also.member)
  · obtain ⟨y, also, equal⟩ := same.symm.exists_supplies shows supplied'
    rw [taken, taken', Option.map_some, Option.map_some, ← equal,
      agree name undeclared y found also supplied]

end

theorem nodup_map_view (shows : View copies view) {methods : List ContractMethod}
    (single : (methods.map ContractMethod.name).Nodup) : (methods.map view).Nodup := by
  rw [List.Nodup, pairwise_map] at single ⊢
  refine single.imp ?_
  intro one y apart equal
  exact apart (core_eq_iff.mp (shows.core _ _ equal)).1

theorem perm_of_slots (shows : View copies view) {methods methods' : List ContractMethod}
    (single : (methods.map ContractMethod.name).Nodup)
    (single' : (methods'.map ContractMethod.name).Nodup)
    (slots : ∀ name, (slot methods' name).map view = (slot methods name).map view) :
    (methods'.map view).Perm (methods.map view) := by
  have occurs : ∀ {here there : List ContractMethod}, (here.map ContractMethod.name).Nodup →
      (∀ name, (slot here name).map view = (slot there name).map view) →
        ∀ seen ∈ here.map view, seen ∈ there.map view := by
    intro here there unique equal seen mem
    obtain ⟨method, present, rfl⟩ := mem_map.mp mem
    have taken := equal method.name
    rw [(mem_iff_slot unique).mp present, Option.map_some] at taken
    obtain ⟨y, found, looks⟩ := Option.map_eq_some_iff.mp taken.symm
    exact mem_map.mpr ⟨y, (slot_eq_some found).1, looks⟩
  rw [perm_ext_iff_of_nodup (nodup_map_view shows single') (nodup_map_view shows single)]
  exact fun seen => ⟨occurs single' slots seen, occurs single (fun name => (slots name).symm) seen⟩

end Views

/-! ### Hierarchies -/

section Hierarchies

variable {copies : SemanticType → Bool} {contracts contracts' : List ContractDeclaration}
  {tables tables' : Nat → List ContractMethod} {index : Nat}

section

variable (reordered : Reordered contracts contracts')
include reordered

theorem Reordered.length_eq :
    contracts'.length = contracts.length :=
  (List.Forall₂.length_eq reordered).symm

theorem Reordered.symm :
    Reordered contracts' contracts := by
  refine List.Forall₂.flip (List.Forall₂.imp (fun one y same => ?_) reordered)
  exact ⟨same.1.symm, same.2.1.symm, same.2.2.symm⟩

theorem Reordered.getElem?
    {d : ContractDeclaration} (found : contracts[index]? = some d) :
    ∃ declaration', contracts'[index]? = some declaration' ∧
      directMethods index declaration' = directMethods index d ∧
      declaration'.parents.Perm d.parents := by
  obtain ⟨bounded, rfl⟩ := List.getElem?_eq_some_iff.mp found
  have bounded' : index < contracts'.length := reordered.length_eq.symm ▸ bounded
  obtain ⟨count, methods, parents⟩ := List.Forall₂.get reordered bounded bounded'
  refine ⟨_, List.getElem?_eq_getElem bounded', ?_, parents⟩
  rw [get_eq_getElem, get_eq_getElem] at count methods
  rw [directMethods, directMethods, count, methods]

theorem Reordered.inherits_iff (parent : SemanticType) :
    Inherits contracts' parent ↔ Inherits contracts parent := by
  rw [Inherits, Inherits, reordered.length_eq]

theorem Reordered.extends_of {child parent : Nat}
    (step : Extends contracts' child parent) : Extends contracts child parent := by
  obtain ⟨_, found', application, mem, inherits, rfl⟩ := step
  obtain ⟨decl, found, _, parents⟩ := reordered.symm.getElem? found'
  exact ⟨decl, found, application, parents.mem_iff.mpr mem,
    (reordered.inherits_iff application).mp inherits, rfl⟩

theorem Reordered.acyclic
    (acyclic : Acyclic (Extends contracts)) : Acyclic (Extends contracts') :=
  acyclic.mono fun _ _ => reordered.extends_of

end

theorem induction_of_acyclic (acyclic : Acyclic (Extends contracts)) {property : Nat → Prop}
    (step : ∀ index < contracts.length,
      (∀ parent, Extends contracts index parent → property parent) → property index) :
    ∀ index < contracts.length, property index := by
  intro index bounded
  by_contra fails
  have upward : Acyclic fun parent child => Extends contracts child parent := by
    intro node cycle
    exact acyclic node (transGen_swap.mp cycle)
  have finite : {node | node < contracts.length ∧ ¬property node}.Finite :=
    (Set.finite_lt_nat contracts.length).subset fun node mem => mem.1
  obtain ⟨least, ⟨inside, refuted⟩, minimal⟩ := upward.exists_source finite ⟨index, bounded, fails⟩
  refine refuted (step least inside fun parent extended => ?_)
  by_contra also
  obtain ⟨_, _, application, _, inherits, rfl⟩ := id extended
  exact minimal application.declaration ⟨inherits.2, also⟩ extended

section Generic

variable {β : Type} {view : ContractMethod → β}

/-- What a parent passes on looks the same. -/
theorem Reordered.sameViews (reordered : Reordered contracts contracts') (shows : View copies view)
    {parents parents' : List SemanticType} (permuted : parents'.Perm parents)
    (tables_eq : ∀ parent ∈ parents, Inherits contracts parent →
      ∀ seen, seen ∈ (tables' parent.declaration).map view ↔ seen ∈ (tables parent.declaration).map view) :
    SameViews view (inheritedMethods copies contracts tables parents)
      (inheritedMethods copies contracts' tables' parents') := by
  have passes : ∀ {here there : List ContractMethod} (parent : SemanticType),
      (Inherits contracts parent → ∀ seen, seen ∈ here.map view → seen ∈ there.map view) →
      ∀ method ∈ if Inherits contracts parent then
          here.map (specialize copies parent.arguments) else [],
        ∃ y ∈ if Inherits contracts parent then
          there.map (specialize copies parent.arguments) else [], view y = view method := by
    intro here there parent included method present
    split at present
    case isFalse => simp at present
    case isTrue inherits =>
      obtain ⟨source, origin, rfl⟩ := mem_map.mp present
      obtain ⟨y, found, equal⟩ :=
        mem_map.mp (included inherits _ (mem_map.mpr ⟨source, origin, rfl⟩))
      refine ⟨_, ?_, shows.specialize _ y source equal⟩
      rw [if_pos inherits]
      exact mem_map.mpr ⟨y, found, rfl⟩
  intro seen
  simp only [inheritedMethods, mem_map, mem_flatMap, inheritedFrom,
    reordered.inherits_iff, permuted.mem_iff]
  refine ⟨?_, ?_⟩
  · rintro ⟨method, ⟨parent, mem, present⟩, rfl⟩
    obtain ⟨y, found, equal⟩ := passes parent
      (fun inherits seen => (tables_eq parent mem inherits seen).mpr) method present
    exact ⟨y, ⟨parent, mem, found⟩, equal⟩
  · rintro ⟨method, ⟨parent, mem, present⟩, rfl⟩
    obtain ⟨y, found, equal⟩ := passes parent
      (fun inherits seen => (tables_eq parent mem inherits seen).mp) method present
    exact ⟨y, ⟨parent, mem, found⟩, equal⟩

/-- All methods that may fill a slot without a direct method look the same. -/
def SuppliersAgree (copies : SemanticType → Bool) (contracts : List ContractDeclaration)
    (tables : Nat → List ContractMethod) (view : ContractMethod → β) : Prop :=
  ∀ index declaration, contracts[index]? = some declaration →
    ∀ name, slot (directMethods index declaration) name = none → ∀ one other,
      Supplies (inheritedMethods copies contracts tables declaration.parents) name one →
      Supplies (inheritedMethods copies contracts tables declaration.parents) name other →
      view one = view other

/-- **Two solutions of reordered hierarchies.** -/
theorem perm_of_reordered (acyclic : Acyclic (Extends contracts))
    (reordered : Reordered contracts contracts') (shows : View copies view)
    (single : ∀ index decl, contracts[index]? = some decl →
      ((directMethods index decl).map ContractMethod.name).Nodup)
    (solves : Solves copies contracts tables) (solves' : Solves copies contracts' tables')
    (silent : ∀ index, Silent copies contracts tables index)
    (agree : SuppliersAgree copies contracts tables view) :
    ∀ index < contracts.length, Silent copies contracts' tables' index ∧
      ((tables' index).map view).Perm ((tables index).map view) := by
  refine induction_of_acyclic acyclic fun index bounded ih => ?_
  have found := List.getElem?_eq_getElem bounded
  obtain ⟨_, found', methods, permuted⟩ := reordered.getElem? found
  have same := reordered.sameViews shows permuted fun parent mem inherits =>
    fun seen => (ih parent.declaration
      ⟨_, found, parent, mem, inherits, rfl⟩).2.mem_iff (a := seen)
  have unique := single index _ found
  have mergeable := (mergeDiagnostics_eq_nil_iff unique).mp (silent index _ found)
  constructor
  · intro y also
    obtain rfl := Option.some.inj (found'.symm.trans also)
    rw [methods]
    exact (mergeDiagnostics_eq_nil_iff unique).mpr (same.mergeable shows mergeable)
  · rw [solves index _ found, solves' index _ found', methods]
    exact perm_of_slots shows (nodup_mergeAll _ _) (nodup_mergeAll _ _)
      (same.slot_mergeAll shows unique mergeable (agree index _ found))

end Generic

/-! ### Declarations -/

theorem parentDiagnostics_eq_nil_iff (parents : List SemanticType) (seen : List String) :
    parentDiagnostics parents seen = [] ↔ (∀ parent ∈ parents, parent.kind = .contract) ∧
      (parents.map semanticTypeKey).Nodup ∧ ∀ parent ∈ parents, semanticTypeKey parent ∉ seen := by
  induction parents generalizing seen with
  | nil => simp [parentDiagnostics]
  | cons parent rest ih =>
    rw [parentDiagnostics]
    split_ifs with y repeated
    · simp [y]
    · simp [repeated]
    · rw [ih]
      simp only [mem_cons, forall_eq_or_imp, map_cons, nodup_cons, mem_map,
        not_exists, not_and, not_or]
      rw [not_not] at y
      constructor
      · rintro ⟨kinds, unique, apart⟩
        exact ⟨⟨y, kinds⟩, ⟨fun one mem same => (apart one mem).1 same, unique⟩, repeated,
          fun one mem => (apart one mem).2⟩
      · rintro ⟨⟨_, kinds⟩, ⟨x, unique⟩, _, apart⟩
        exact ⟨kinds, unique, fun one mem => ⟨x one mem, apart one mem⟩⟩

theorem parentDiagnostics_perm {parents parents' : List SemanticType} (permuted : parents'.Perm parents)
    (silent : parentDiagnostics parents [] = []) : parentDiagnostics parents' [] = [] := by
  rw [parentDiagnostics_eq_nil_iff] at silent ⊢
  obtain ⟨kinds, unique, _⟩ := silent
  refine ⟨fun parent mem => kinds parent (permuted.mem_iff.mp mem), ?_, by simp⟩
  exact (permuted.map semanticTypeKey).nodup_iff.mpr unique

theorem nodup_of_methodDiagnostics {methods : List ContractMethod} {seen : List String}
    (silent : methodDiagnostics methods seen = []) :
    (methods.map ContractMethod.name).Nodup ∧ ∀ method ∈ methods, method.name ∉ seen := by
  induction methods generalizing seen with
  | nil => simp
  | cons method rest ih =>
    rw [methodDiagnostics, append_eq_nil_iff, append_eq_nil_iff, append_eq_nil_iff]
      at silent
    obtain ⟨⟨⟨x, _⟩, _⟩, rest⟩ := silent
    obtain ⟨unique, apart⟩ := ih rest
    have unseen : method.name ∉ seen := by
      intro mem
      simp [mem] at x
    simp only [mem_cons, not_or] at apart
    simp only [map_cons, nodup_cons, mem_map, mem_cons, forall_eq_or_imp]
    exact ⟨⟨fun ⟨one, mem, same⟩ => (apart one mem).1 same, unique⟩, unseen,
      fun one mem => (apart one mem).2⟩

theorem map_name_directMethods (index : Nat) (d : ContractDeclaration) :
    (directMethods index d).map ContractMethod.name
      = d.methods.map ContractMethod.name := by
  simp [directMethods]

theorem Reordered.declarationDiagnostics (reordered : Reordered contracts contracts')
    (silent : contracts.flatMap declarationDiagnostics = []) :
    contracts'.flatMap Contract.declarationDiagnostics = [] := by
  rw [flatMap_eq_nil_iff] at silent ⊢
  intro declaration' mem
  obtain ⟨index, bounded', rfl⟩ := getElem_of_mem mem
  have bounded : index < contracts.length := reordered.length_eq ▸ bounded'
  obtain ⟨_, methods, parents⟩ := List.Forall₂.get reordered bounded bounded'
  have quiet := silent _ (getElem_mem bounded)
  rw [Contract.declarationDiagnostics, append_eq_nil_iff] at quiet ⊢
  rw [get_eq_getElem, get_eq_getElem] at methods parents
  exact ⟨parentDiagnostics_perm parents quiet.1, by rw [methods]; exact quiet.2⟩

theorem view_core (copies : SemanticType → Bool) : View copies ContractMethod.core where
  core _ _ same := same
  specialize actual one y same := by
    obtain ⟨name, signature, default⟩ := core_eq_iff.mp same
    simp only [ContractMethod.signature, Prod.mk.injEq] at signature
    obtain ⟨receiver, returned, parameters, modes⟩ := signature
    simp [ContractMethod.core, ContractMethod.signature, Contract.specialize, name, default, receiver,
      returned, parameters, modes]

theorem view_traced (copies : SemanticType → Bool) : View copies ContractMethod.traced where
  core one y same := (Prod.mk.inj same).1
  specialize actual one y same := by
    simp only [ContractMethod.traced, Prod.mk.injEq] at same ⊢
    obtain ⟨core, contract, args⟩ := same
    exact ⟨(view_core copies).specialize actual one y core, contract,
      by simp [Contract.specialize, args]⟩

theorem suppliersAgree_core
    (single : ∀ index decl, contracts[index]? = some decl →
      ((directMethods index decl).map ContractMethod.name).Nodup)
    (silent : ∀ index, Silent copies contracts tables index) :
    SuppliersAgree copies contracts tables ContractMethod.core := by
  intro index decl found name undeclared one y supplies supplies'
  have mergeable := (mergeDiagnostics_eq_nil_iff (single index decl found)).mp
    (silent index decl found)
  refine core_eq_iff.mpr ⟨supplies.named.trans supplies'.named.symm, ?_, ?_⟩
  · exact mergeable.compatible one supplies.member y supplies'.member
      (supplies.named.trans supplies'.named.symm)
  · by_cases bare : one.defaultFunction = none
    · rw [bare, supplies.preferred bare y supplies'.member supplies'.named]
    · have too : y.defaultFunction ≠ none :=
        fun none => bare (supplies'.preferred none one supplies.member supplies.named)
      by_contra differ
      exact mergeable.decided name undeclared ⟨one, supplies.member, y, supplies'.member,
        supplies.named, supplies'.named, bare, too, differ⟩

/-- **Permuted lists of parents** in an acyclic hierarchy without errors: the reordered one has no errors
either, the same names, signatures and defaults, and the same origins where suppliers agree on them. -/
theorem resolveContracts_reordered (copies : SemanticType → Bool)
    (contracts contracts' : List ContractDeclaration) (reordered : Reordered contracts contracts')
    (acyclic : Acyclic (Extends contracts)) :
    ∃ resolved resolved', resolveContracts copies contracts = some resolved ∧
      resolveContracts copies contracts' = some resolved' ∧
      (resolved.diagnostics = [] → resolved'.diagnostics = [] ∧
        (∀ index < contracts.length, ((resolved'.methods index).map ContractMethod.core).Perm
          ((resolved.methods index).map ContractMethod.core)) ∧
        (SuppliersAgree copies contracts resolved.methods ContractMethod.traced →
          ∀ index < contracts.length, ((resolved'.methods index).map ContractMethod.traced).Perm
            ((resolved.methods index).map ContractMethod.traced))) := by
  obtain ⟨resolved, ran, solves, silent⟩ := resolveContracts_spec copies acyclic
  obtain ⟨resolved', ran', solves', silent'⟩ :=
    resolveContracts_spec copies (reordered.acyclic acyclic)
  refine ⟨resolved, resolved', ran, ran', fun quiet => ?_⟩
  obtain ⟨declarations, merges⟩ := silent.mp quiet
  have single : ∀ index declaration, contracts[index]? = some declaration →
      ((directMethods index declaration).map ContractMethod.name).Nodup := by
    intro index declaration found
    have checked := flatMap_eq_nil_iff.mp declarations declaration (mem_of_getElem? found)
    rw [Contract.declarationDiagnostics, append_eq_nil_iff] at checked
    rw [map_name_directMethods]
    exact (nodup_of_methodDiagnostics checked.2).1
  have cores := perm_of_reordered acyclic reordered (view_core copies) single solves solves' merges
    (suppliersAgree_core single merges)
  refine ⟨silent'.mpr ⟨reordered.declarationDiagnostics declarations, fun index => ?_⟩,
    fun index bounded => (cores index bounded).2, fun agree index bounded => ?_⟩
  · intro declaration' found'
    have bounded := (List.getElem?_eq_some_iff.mp found').1
    rw [reordered.length_eq] at bounded
    exact (cores index bounded).1 declaration' found'
  · exact (perm_of_reordered acyclic reordered (view_traced copies) single solves solves' merges
      agree index bounded).2

end Hierarchies

theorem acyclic_of_descending (contracts : List ContractDeclaration)
    (descends : ∀ index < contracts.length, ∀ parent ∈ (contracts.getD index {}).parents,
      parent.declaration < index) : Acyclic (Extends contracts) := by
  have one : ∀ child parent, Extends contracts child parent → parent < child := by
    rintro child parent ⟨_, found, application, _, _, rfl⟩
    have bounded := (List.getElem?_eq_some_iff.mp found).1
    exact descends child bounded application (by rwa [getD_eq_getElem?_getD, found])
  have below : ∀ child parent, TransGen (Extends contracts) child parent → parent < child := by
    intro child parent path
    induction path with
    | single step => exact one _ _ step
    | tail _ step ih => exact (one _ _ step).trans ih
  exact fun node cycle => absurd (below node node cycle) (lt_irrefl node)

/-- The application of contract `index`. -/
def contractType (index : Nat) (arguments : List SemanticType) : SemanticType :=
  .mk .contract index arguments

/-- A hierarchy with a diamond: a default and a requirement for one slot. -/
def diamond (parents : List SemanticType) : List ContractDeclaration :=
  [{ methods := [{ name := "read" }] },
    { parents := [contractType 0 []], methods := [{ name := "read", defaultFunction := some 7 }] },
    { parents := [contractType 0 []], methods := [{ name := "close", receiver := .edit }] },
    { parents := parents }]

theorem resolveContracts_diamond :
    ∃ resolved resolved',
      resolveContracts (fun _ => false) (diamond [contractType 1 [], contractType 2 []]) = some resolved ∧
      resolveContracts (fun _ => false) (diamond [contractType 2 [], contractType 1 []]) = some resolved' ∧
      ((resolved'.methods 3).map ContractMethod.core).Perm
        ((resolved.methods 3).map ContractMethod.core) := by
  have reordered : Reordered (diamond [contractType 1 [], contractType 2 []])
      (diamond [contractType 2 [], contractType 1 []]) :=
    .cons ⟨rfl, rfl, .refl _⟩ (.cons ⟨rfl, rfl, .refl _⟩ (.cons ⟨rfl, rfl, .refl _⟩
      (.cons ⟨rfl, rfl, .swap _ _ _⟩ .nil)))
  obtain ⟨resolved, resolved', ran, ran', permuted⟩ := resolveContracts_reordered (fun _ => false) _ _
    reordered (acyclic_of_descending _ (by decide))
  have quiet : (resolveContracts (fun _ => false)
      (diamond [contractType 1 [], contractType 2 []])).map Flattener.diagnostics = some [] := by
    decide +kernel
  rw [ran, Option.map_some] at quiet
  exact ⟨resolved, resolved', ran, ran', (permuted (Option.some.inj quiet)).2.1 3 (by decide)⟩

/-! ### An origin that depends on the order -/

/-- A contract, a generic contract with the same method, and one that extends both. -/
def twoOrigins (parents : List SemanticType) : List ContractDeclaration :=
  [{ methods := [{ name := "read" }] },
    { typeParameterCount := 1, methods := [{ name := "read" }] },
    { parents := parents }]

/-- What is compared of a resolved hierarchy. -/
def originsOf (index : Nat) (resolved : Flattener) :
    List Diagnostic × List (MethodCore × List SemanticType) :=
  (resolved.diagnostics, (resolved.methods index).map fun method => (method.core, method.originArguments))

/-- **The first parent decides** where a slot without a default comes from. -/
theorem origin_depends_on_order :
    ¬∀ (copies : SemanticType → Bool) (contracts contracts' : List ContractDeclaration),
      Reordered contracts contracts' → Acyclic (Extends contracts) → ∀ resolved resolved',
        resolveContracts copies contracts = some resolved →
        resolveContracts copies contracts' = some resolved' → resolved.diagnostics = [] →
          ∀ index < contracts.length, (originsOf index resolved').2.Perm (originsOf index resolved).2 := by
  intro claim
  have plain : (resolveContracts (fun _ => false)
      (twoOrigins [contractType 0 [], contractType 1 [.mk .i32 0 []]])).map (originsOf 2)
        = some ([], [(⟨"read", (.view, .mk .void 0 [], [], []), none⟩, [])]) := by
    decide +kernel
  have swapped : (resolveContracts (fun _ => false)
      (twoOrigins [contractType 1 [.mk .i32 0 []], contractType 0 []])).map (originsOf 2)
        = some ([], [(⟨"read", (.view, .mk .void 0 [], [], []), none⟩, [.mk .i32 0 []])]) := by
    decide +kernel
  obtain ⟨resolved, ran, shown⟩ := Option.map_eq_some_iff.mp plain
  obtain ⟨resolved', ran', shown'⟩ := Option.map_eq_some_iff.mp swapped
  have reordered : Reordered (twoOrigins [contractType 0 [], contractType 1 [.mk .i32 0 []]])
      (twoOrigins [contractType 1 [.mk .i32 0 []], contractType 0 []]) :=
    .cons ⟨rfl, rfl, .refl _⟩ (.cons ⟨rfl, rfl, .refl _⟩ (.cons ⟨rfl, rfl, .swap _ _ _⟩ .nil))
  have acyclic := acyclic_of_descending
    (twoOrigins [contractType 0 [], contractType 1 [.mk .i32 0 []]]) (by decide)
  have same := claim _ _ _ reordered acyclic resolved resolved' ran ran' (congrArg Prod.fst shown) 2
    (by decide)
  rw [shown, shown'] at same
  have equal := singleton_perm_singleton.mp same
  exact absurd (congrArg Prod.snd equal) (by decide)

end FoundationLang.Contract
