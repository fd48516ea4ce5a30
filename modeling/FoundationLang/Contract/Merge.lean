/-
**What a merged table holds.**

A table is merged from the inherited methods, in the order of the parents, and the direct ones.

* `mergeAll_silent_iff` — the merge reports nothing exactly then.
-/

import Mathlib.Data.List.Induction
import Mathlib.Data.List.Nodup
import FoundationLang.Contract.Flatten

namespace FoundationLang.Contract

open List

variable {inherited direct methods : List ContractMethod} {merging : Merging} {overriding : Bool}
  {method found : ContractMethod} {name : String}

/-! ### Slots -/

theorem slot_eq_some (taken : slot methods name = some method) :
    method ∈ methods ∧ method.name = name :=
  ⟨mem_of_find?_eq_some taken, by simpa using List.find?_some taken⟩

theorem slot_eq_none : slot methods name = none ↔ ∀ method ∈ methods, method.name ≠ name := by
  simp [slot]

theorem slot_isSome_of_mem (mem : method ∈ methods) : ∃ found, slot methods method.name = some found := by
  rw [← Option.isSome_iff_exists, Option.isSome_iff_ne_none]
  exact fun empty => slot_eq_none.mp empty method mem rfl

theorem slot_concat (empty : slot methods method.name = none) :
    slot (methods ++ [method]) name = if name = method.name then some method else slot methods name := by
  simp only [slot, List.find?_append] at empty ⊢
  split
  case isTrue same => simp [same, empty]
  case isFalse ne => simp [Ne.symm ne]

theorem slot_assignSlot (taken : slot methods method.name = some found) :
    slot (assignSlot method methods) name
      = if name = method.name then some method else slot methods name := by
  induction methods with
  | nil => simp [slot] at taken
  | cons current rest ih =>
    simp only [slot, List.find?_cons, assignSlot] at taken ih ⊢
    by_cases here : current.name = method.name
    · by_cases same : name = method.name
      · simp [here, same]
      · simp [here, same, Ne.symm same]
    · simp only [here, decide_false, ↓reduceIte] at taken ⊢
      rw [List.find?_cons, ih taken]
      by_cases same : name = method.name
      · have apart : ¬current.name = name := fun equal => here (equal.trans same)
        simp [same, here]
      · simp [same]

theorem map_name_assignSlot (method : ContractMethod) (methods : List ContractMethod) :
    (assignSlot method methods).map ContractMethod.name = methods.map ContractMethod.name := by
  induction methods with
  | nil => rfl
  | cons current rest ih =>
    rw [assignSlot]
    split
    case isTrue same => simp [same]
    case isFalse => simp [ih]

theorem mem_iff_slot (single : (methods.map ContractMethod.name).Nodup) :
    method ∈ methods ↔ slot methods method.name = some method := by
  constructor
  · intro mem
    obtain ⟨_, taken⟩ := slot_isSome_of_mem mem
    obtain ⟨present, same⟩ := slot_eq_some taken
    rw [taken, inj_on_of_nodup_map single present mem same]
  · exact fun taken => (slot_eq_some taken).1

/-! ### Signatures and suppliers -/

/-- What `sameContractSignature` compares. -/
def ContractMethod.signature (method : ContractMethod) :
    ReceiverKind × SemanticType × List SemanticType × List ParameterMode :=
  (method.receiver, method.returnType, method.parameterTypes, method.parameterModes)

theorem sameContractSignature_iff {left right : ContractMethod} :
    sameContractSignature left right = true ↔ left.signature = right.signature := by
  simp [sameContractSignature, ContractMethod.signature, and_assoc]

/-- An inherited method that may fill the slot of a name. -/
structure Supplies (inherited : List ContractMethod) (name : String) (method : ContractMethod) : Prop where
  member : method ∈ inherited
  named : method.name = name
  preferred : method.defaultFunction = none →
    ∀ other ∈ inherited, other.name = name → other.defaultFunction = none

/-- Two defaults of one name that differ. -/
def Ambiguous (inherited : List ContractMethod) (name : String) : Prop :=
  ∃ one ∈ inherited, ∃ other ∈ inherited, one.name = name ∧ other.name = name ∧
    one.defaultFunction ≠ none ∧ other.defaultFunction ≠ none ∧
    one.defaultFunction ≠ other.defaultFunction

/-- Methods of a name have one signature. -/
def Compatible (methods : List ContractMethod) : Prop :=
  ∀ one ∈ methods, ∀ other ∈ methods, one.name = other.name → one.signature = other.signature

/-- A merge without an error. -/
structure Mergeable (inherited direct : List ContractMethod) : Prop where
  compatible : Compatible inherited
  overrides : ∀ method ∈ direct, ∀ other ∈ inherited,
    other.name = method.name → other.signature = method.signature
  decided : ∀ name, slot direct name = none → ¬Ambiguous inherited name

/-! ### One step -/

theorem mergeContractMethod_eq (overriding : Bool) (merging : Merging) (method : ContractMethod) :
    slot merging.methods method.name = none ∧ mergeContractMethod overriding merging method
        = { merging with methods := merging.methods ++ [method] }
      ∨ ∃ found, slot merging.methods method.name = some found ∧
        (found.signature ≠ method.signature ∧
            mergeContractMethod overriding merging method
              = { merging with diagnostics := merging.diagnostics ++
                  [⟨"FDN2143", "conflicting inherited method " ++ method.name⟩] }
          ∨ found.signature = method.signature ∧
            mergeContractMethod overriding merging method
              = (if overriding then
                  { merging with
                    methods := assignSlot method merging.methods
                    ambiguousDefaults :=
                      merging.ambiguousDefaults.filter fun name => name ≠ method.name }
                else if found.defaultFunction ≠ none ∧ method.defaultFunction ≠ none ∧
                    found.defaultFunction ≠ method.defaultFunction then
                  { merging with
                    ambiguousDefaults := if method.name ∈ merging.ambiguousDefaults then
                      merging.ambiguousDefaults else merging.ambiguousDefaults ++ [method.name] }
                else if found.defaultFunction = none ∧ method.defaultFunction ≠ none then
                  { merging with methods := assignSlot method merging.methods }
                else merging)) := by
  rcases taken : slot merging.methods method.name with _ | found
  · exact .inl ⟨rfl, by rw [mergeContractMethod, taken]⟩
  · refine .inr ⟨found, rfl, ?_⟩
    by_cases same : found.signature = method.signature
    · refine .inr ⟨same, ?_⟩
      rw [mergeContractMethod, taken]
      simp only [sameContractSignature_iff.mpr same, (slot_eq_some taken).2]
      simp [Option.isSome_iff_ne_none, Option.isNone_iff_eq_none, and_assoc]
    · refine .inl ⟨same, ?_⟩
      have differ : sameContractSignature found method = false := by
        rw [← Bool.not_eq_true, sameContractSignature_iff]
        exact same
      rw [mergeContractMethod, taken]
      simp [differ]

theorem nodup_mergeContractMethod
    (single : (merging.methods.map ContractMethod.name).Nodup) :
    ((mergeContractMethod overriding merging method).methods.map ContractMethod.name).Nodup := by
  rcases mergeContractMethod_eq overriding merging method with
    ⟨empty, entered⟩ | ⟨found, taken, ⟨_, entered⟩ | ⟨_, entered⟩⟩
  · rw [entered, map_append, map_singleton, nodup_append]
    refine ⟨single, nodup_singleton _, ?_⟩
    intro name mem y last same
    obtain ⟨current, present, rfl⟩ := mem_map.mp mem
    exact slot_eq_none.mp empty current present (same.trans (mem_singleton.mp last))
  · rwa [entered]
  · rw [entered]
    split_ifs <;> simpa only [map_name_assignSlot] using single

/-! ### The inherited methods -/

/-- The table of the inherited methods. -/
def inheritAll (inherited : List ContractMethod) : Merging :=
  inherited.foldl (mergeContractMethod false) {}

theorem inheritAll_concat (inherited : List ContractMethod) (method : ContractMethod) :
    inheritAll (inherited ++ [method])
      = mergeContractMethod false (inheritAll inherited) method := by
  simp [inheritAll]

/-- What the table of compatible inherited methods holds. -/
structure Collected (inherited : List ContractMethod) (merging : Merging) : Prop where
  silent : merging.diagnostics = []
  filled : ∀ method ∈ inherited, slot merging.methods method.name ≠ none
  supplies : ∀ name method, slot merging.methods name = some method → Supplies inherited name method
  ambiguous : ∀ name, name ∈ merging.ambiguousDefaults ↔ Ambiguous inherited name

theorem Supplies.concat_of_ne (supplied : Supplies inherited name found) (apart : method.name ≠ name) :
    Supplies (inherited ++ [method]) name found := by
  refine ⟨mem_append_left _ supplied.member, supplied.named, fun bare y mem same => ?_⟩
  rcases mem_append.mp mem with before | last
  · exact supplied.preferred bare y before same
  · exact absurd (mem_singleton.mp last ▸ same) apart

theorem ambiguous_concat :
    Ambiguous (inherited ++ [method]) name ↔
      Ambiguous inherited name ∨ name = method.name ∧ method.defaultFunction ≠ none ∧
        ∃ y ∈ inherited, y.name = name ∧ y.defaultFunction ≠ none ∧
          y.defaultFunction ≠ method.defaultFunction := by
  constructor
  · rintro ⟨one, here, y, there, named, also, defaulted, too, differ⟩
    rcases mem_append.mp here with before | last
    · rcases mem_append.mp there with earlier | final
      · exact .inl ⟨one, before, y, earlier, named, also, defaulted, too, differ⟩
      · obtain rfl := mem_singleton.mp final
        exact .inr ⟨also.symm, too, one, before, named, defaulted, differ⟩
    · obtain rfl := mem_singleton.mp last
      rcases mem_append.mp there with earlier | final
      · exact .inr ⟨named.symm, defaulted, y, earlier, also, too, differ.symm⟩
      · obtain rfl := mem_singleton.mp final
        exact absurd rfl differ
  · rintro (⟨one, here, y, there, rest⟩ | ⟨rfl, defaulted, y, there, named, too, differ⟩)
    · exact ⟨one, mem_append_left _ here, y, mem_append_left _ there, rest⟩
    · exact ⟨y, mem_append_left _ there, method, by simp, named, rfl, too, defaulted, differ⟩

theorem Collected.concat_first (got : Collected inherited merging)
    (empty : slot merging.methods method.name = none) :
    Collected (inherited ++ [method]) { merging with methods := merging.methods ++ [method] } := by
  have first : ∀ y ∈ inherited, y.name ≠ method.name :=
    fun y mem equal => got.filled y mem (equal ▸ empty)
  refine ⟨got.silent, fun y mem => ?_, fun name y => ?_, fun name => ?_⟩
  · simp only [slot_concat empty]
    split
    case isTrue => exact Option.some_ne_none _
    case isFalse apart =>
      rcases mem_append.mp mem with before | last
      · exact got.filled y before
      · exact absurd (congrArg ContractMethod.name (mem_singleton.mp last)) apart
  · simp only [slot_concat empty]
    split
    case isTrue equal =>
      intro final
      obtain rfl := Option.some.inj final
      refine ⟨by simp, equal.symm, fun bare y mem named => ?_⟩
      rcases mem_append.mp mem with before | last
      · exact absurd (named.trans equal) (first y before)
      · rwa [mem_singleton.mp last]
    case isFalse apart =>
      exact fun kept => (got.supplies name y kept).concat_of_ne (Ne.symm apart)
  · rw [ambiguous_concat, got.ambiguous]
    refine (or_iff_left ?_).symm
    rintro ⟨rfl, _, y, mem, named, _⟩
    exact first y mem named

section Taken

variable (got : Collected inherited merging)
  (taken : slot merging.methods method.name = some found)

include got taken

theorem Collected.filled_concat :
    ∀ y ∈ inherited ++ [method], slot merging.methods y.name ≠ none := by
  intro y mem
  rcases mem_append.mp mem with before | last
  · exact got.filled y before
  · rw [mem_singleton.mp last, taken]
    exact Option.some_ne_none _

theorem Collected.supplies_concat
    (preferred : method.defaultFunction = none ∨ found.defaultFunction ≠ none) :
    ∀ name other, slot merging.methods name = some other →
      Supplies (inherited ++ [method]) name other := by
  intro name other held
  by_cases equal : method.name = name
  · subst equal
    obtain rfl : found = other := Option.some.inj (taken.symm.trans held)
    have supplied := got.supplies _ _ taken
    refine ⟨mem_append_left _ supplied.member, supplied.named, fun bare one mem named => ?_⟩
    rcases mem_append.mp mem with before | last
    · exact supplied.preferred bare one before named
    · rw [mem_singleton.mp last]
      exact preferred.resolve_right (not_not.mpr bare)
  · exact (got.supplies name other held).concat_of_ne equal

theorem Collected.concat_ambiguous (foundDefault : found.defaultFunction ≠ none)
    (defaulted : method.defaultFunction ≠ none)
    (differ : found.defaultFunction ≠ method.defaultFunction) :
    Collected (inherited ++ [method])
      { merging with
        ambiguousDefaults := if method.name ∈ merging.ambiguousDefaults then
          merging.ambiguousDefaults else merging.ambiguousDefaults ++ [method.name] } := by
  refine ⟨got.silent, got.filled_concat taken,
    got.supplies_concat taken (.inr foundDefault), fun name => ?_⟩
  have mem : name ∈ (if method.name ∈ merging.ambiguousDefaults then merging.ambiguousDefaults
      else merging.ambiguousDefaults ++ [method.name])
      ↔ name ∈ merging.ambiguousDefaults ∨ name = method.name := by
    split <;> simp_all
  have supplied := got.supplies _ _ taken
  rw [mem, got.ambiguous, ambiguous_concat]
  refine or_congr_right (and_iff_left_of_imp fun equal => ?_).symm
  exact ⟨defaulted, found, supplied.member, supplied.named.trans equal.symm, foundDefault, differ⟩

theorem Collected.ambiguous_concat_of_agree
    (agree : found.defaultFunction ≠ none → method.defaultFunction ≠ none →
      found.defaultFunction = method.defaultFunction) (name : String) :
    name ∈ merging.ambiguousDefaults ↔ Ambiguous (inherited ++ [method]) name := by
  have supplied := got.supplies _ _ taken
  rw [got.ambiguous, ambiguous_concat]
  refine (or_iff_left_of_imp ?_).symm
  rintro ⟨rfl, defaulted, y, mem, named, too, differ⟩
  have foundDefault : found.defaultFunction ≠ none :=
    fun bare => too (supplied.preferred bare y mem named)
  exact ⟨found, supplied.member, y, mem, supplied.named, named, foundDefault, too,
    fun equal => differ (equal.symm.trans (agree foundDefault defaulted))⟩

theorem Collected.concat_default (bare : found.defaultFunction = none)
    (defaulted : method.defaultFunction ≠ none) :
    Collected (inherited ++ [method])
      { merging with methods := assignSlot method merging.methods } := by
  refine ⟨got.silent, fun y mem => ?_, fun name y => ?_,
    got.ambiguous_concat_of_agree taken fun default => absurd bare default⟩
  · simp only [slot_assignSlot taken]
    split
    · exact Option.some_ne_none _
    · exact got.filled_concat taken y mem
  · simp only [slot_assignSlot taken]
    split
    case isTrue equal =>
      intro final
      obtain rfl := Option.some.inj final
      exact ⟨by simp, equal.symm, fun none => absurd none defaulted⟩
    case isFalse apart =>
      exact fun held => (got.supplies name y held).concat_of_ne (Ne.symm apart)

end Taken

theorem Collected.step (got : Collected inherited merging)
    (agrees : ∀ y ∈ inherited, y.name = method.name → y.signature = method.signature) :
    Collected (inherited ++ [method]) (mergeContractMethod false merging method) := by
  rcases mergeContractMethod_eq false merging method with
    ⟨empty, entered⟩ | ⟨found, taken, ⟨differ, _⟩ | ⟨_, entered⟩⟩
  · rw [entered]
    exact got.concat_first empty
  · have supplied := got.supplies _ _ taken
    exact absurd (agrees found supplied.member supplied.named) differ
  · rw [entered, if_neg Bool.false_ne_true]
    split
    case isTrue both => exact got.concat_ambiguous taken both.1 both.2.1 both.2.2
    case isFalse agree =>
      split
      case isTrue replaced => exact got.concat_default taken replaced.1 replaced.2
      case isFalse kept =>
        exact ⟨got.silent, got.filled_concat taken,
          got.supplies_concat taken (by tauto),
          got.ambiguous_concat_of_agree taken (by tauto)⟩

theorem Collected.exists_slot (got : Collected inherited merging)
    (compatible : Compatible inherited) {y : ContractMethod} (mem : y ∈ inherited) :
    ∃ found, slot merging.methods y.name = some found ∧ found.signature = y.signature := by
  obtain ⟨found, taken⟩ := Option.ne_none_iff_exists'.mp (got.filled y mem)
  have supplied := got.supplies _ _ taken
  exact ⟨found, taken, compatible found supplied.member y mem supplied.named⟩

theorem report_of_ne (taken : slot merging.methods method.name = some found)
    (differ : found.signature ≠ method.signature) :
    (mergeContractMethod overriding merging method).diagnostics ≠ [] := by
  rcases mergeContractMethod_eq overriding merging method with
    ⟨empty, _⟩ | ⟨other, also, ⟨_, entered⟩ | ⟨same, _⟩⟩
  · rw [taken] at empty
    contradiction
  · simp [entered]
  · obtain rfl : found = other := Option.some.inj (taken.symm.trans also)
    exact absurd same differ

/-- Errors stay. -/
theorem diagnostics_mergeContractMethod
    (silent : (mergeContractMethod overriding merging method).diagnostics = []) :
    merging.diagnostics = [] := by
  rcases mergeContractMethod_eq overriding merging method with
    ⟨_, entered⟩ | ⟨_, _, ⟨_, entered⟩ | ⟨_, entered⟩⟩
  · rwa [entered] at silent
  · rw [entered] at silent
    exact (append_eq_nil_iff.mp silent).1
  · rw [entered] at silent
    split_ifs at silent <;> exact silent

theorem compatible_concat :
    Compatible (inherited ++ [method]) ↔ Compatible inherited ∧
      ∀ y ∈ inherited, y.name = method.name → y.signature = method.signature := by
  constructor
  · intro compatible
    exact ⟨fun one here y there => compatible one (mem_append_left _ here) y
      (mem_append_left _ there),
      fun y mem => compatible y (mem_append_left _ mem) method (by simp)⟩
  · rintro ⟨compatible, agrees⟩ one here y there same
    rcases mem_append.mp here with before | last <;>
      rcases mem_append.mp there with earlier | final
    · exact compatible one before y earlier same
    · obtain rfl := mem_singleton.mp final
      exact agrees one before same
    · obtain rfl := mem_singleton.mp last
      exact (agrees y earlier same.symm).symm
    · rw [mem_singleton.mp last, mem_singleton.mp final]

/-- **The inherited methods merge** into a table of suppliers exactly when they are compatible. -/
theorem inheritAll_spec (inherited : List ContractMethod) :
    ((inheritAll inherited).diagnostics = [] ↔ Compatible inherited) ∧
      (Compatible inherited → Collected inherited (inheritAll inherited)) := by
  induction inherited using List.reverseRecOn with
  | nil =>
    refine ⟨iff_of_true rfl (by simp [Compatible]), fun _ => ⟨rfl, by simp, ?_, ?_⟩⟩
    · simp [inheritAll, slot]
    · simp [inheritAll, Ambiguous]
  | append_singleton inherited method ih =>
    obtain ⟨silent, collects⟩ := ih
    rw [inheritAll_concat, compatible_concat]
    refine ⟨⟨fun quiet => ?_, fun both => ((collects both.1).step both.2).silent⟩,
      fun both => (collects both.1).step both.2⟩
    have compatible := silent.mp (diagnostics_mergeContractMethod quiet)
    refine ⟨compatible, fun y mem named => by_contra fun differ => ?_⟩
    obtain ⟨_, taken, same⟩ := (collects compatible).exists_slot compatible mem
    exact report_of_ne (named ▸ taken) (same ▸ differ) quiet

theorem nodup_foldl_merge (methods : List ContractMethod)
    (single : (merging.methods.map ContractMethod.name).Nodup) :
    ((methods.foldl (mergeContractMethod overriding) merging).methods.map
      ContractMethod.name).Nodup := by
  induction methods generalizing merging with
  | nil => exact single
  | cons method rest ih => exact ih (nodup_mergeContractMethod single)

/-! ### The direct methods -/

/-- The whole merge of one contract. -/
def mergeAll (inherited direct : List ContractMethod) : Merging :=
  direct.foldl (mergeContractMethod true) (inheritAll inherited)

/-- The errors of one contract. -/
def mergeDiagnostics (inherited direct : List ContractMethod) : List Diagnostic :=
  (mergeAll inherited direct).diagnostics ++
    ambiguityDiagnostics (mergeAll inherited direct).ambiguousDefaults

theorem mergeAll_concat (inherited direct : List ContractMethod) (method : ContractMethod) :
    mergeAll inherited (direct ++ [method])
      = mergeContractMethod true (mergeAll inherited direct) method := by
  simp [mergeAll]

/-- The table after direct methods have entered. -/
structure Overridden (inherited direct : List ContractMethod) (merging : Merging) : Prop where
  silent : merging.diagnostics = []
  slots : ∀ name, slot merging.methods name
    = (slot direct name).or (slot (inheritAll inherited).methods name)
  ambiguous : ∀ name, name ∈ merging.ambiguousDefaults ↔
    Ambiguous inherited name ∧ slot direct name = none

theorem slot_concat_direct (fresh : method.name ∉ direct.map ContractMethod.name) :
    slot (direct ++ [method]) name
      = if name = method.name then some method else slot direct name :=
  slot_concat (slot_eq_none.mpr fun y mem same => fresh (mem_map.mpr ⟨y, mem, same⟩))

theorem Overridden.step (overridden : Overridden inherited direct merging)
    (compatible : Compatible inherited) (fresh : method.name ∉ direct.map ContractMethod.name)
    (agrees : ∀ y ∈ inherited, y.name = method.name → y.signature = method.signature) :
    Overridden inherited (direct ++ [method]) (mergeContractMethod true merging method) := by
  have got := (inheritAll_spec inherited).2 compatible
  have undeclared : slot direct method.name = none :=
    slot_eq_none.mpr fun y mem same => fresh (mem_map.mpr ⟨y, mem, same⟩)
  have before := overridden.slots method.name
  rw [undeclared, Option.none_or] at before
  rcases mergeContractMethod_eq true merging method with
    ⟨empty, entered⟩ | ⟨found, taken, ⟨differ, _⟩ | ⟨_, entered⟩⟩
  · have first : ¬Ambiguous inherited method.name := by
      rintro ⟨one, here, _, _, named, _⟩
      exact got.filled one here (named ▸ before ▸ empty)
    rw [entered]
    refine ⟨overridden.silent, fun name => ?_, fun name => ?_⟩
    · simp only [slot_concat empty, slot_concat_direct fresh, overridden.slots]
      split <;> simp
    · simp only [overridden.ambiguous, slot_concat_direct fresh]
      split
      case isTrue same => simp [same, first]
      case isFalse => rfl
  · have supplied := got.supplies _ _ (before.symm.trans taken)
    exact absurd (agrees found supplied.member supplied.named) differ
  · rw [entered, if_pos rfl]
    refine ⟨overridden.silent, fun name => ?_, fun name => ?_⟩
    · simp only [slot_assignSlot taken, slot_concat_direct fresh, overridden.slots]
      split <;> simp
    · simp only [mem_filter, overridden.ambiguous, slot_concat_direct fresh, decide_eq_true_eq]
      split
      case isTrue same => simp [same]
      case isFalse apart => simp [apart]

/-- **The direct methods merge** exactly when each agrees with the inherited ones of its name. -/
theorem mergeAll_spec (compatible : Compatible inherited) (direct : List ContractMethod)
    (single : (direct.map ContractMethod.name).Nodup) :
    ((mergeAll inherited direct).diagnostics = [] ↔ ∀ method ∈ direct, ∀ y ∈ inherited,
        y.name = method.name → y.signature = method.signature) ∧
      ((mergeAll inherited direct).diagnostics = [] →
        Overridden inherited direct (mergeAll inherited direct)) := by
  have got := (inheritAll_spec inherited).2 compatible
  induction direct using List.reverseRecOn with
  | nil =>
    refine ⟨iff_of_true got.silent (by simp), fun _ => ⟨got.silent, ?_, ?_⟩⟩
    · simp [mergeAll, slot]
    · simp [mergeAll, slot, got.ambiguous]
  | append_singleton direct method ih =>
    rw [map_append, map_singleton, nodup_append] at single
    obtain ⟨unique, _, apart⟩ := single
    have fresh : method.name ∉ direct.map ContractMethod.name :=
      fun mem => apart _ mem _ (mem_singleton.mpr rfl) rfl
    obtain ⟨silent, overrides⟩ := ih unique
    rw [mergeAll_concat]
    have agrees_of_quiet :
        (mergeContractMethod true (mergeAll inherited direct) method).diagnostics = [] →
          (mergeAll inherited direct).diagnostics = [] ∧ ∀ y ∈ inherited,
            y.name = method.name → y.signature = method.signature := by
      intro quiet
      have before := diagnostics_mergeContractMethod quiet
      refine ⟨before, fun y mem named => by_contra fun differ => ?_⟩
      obtain ⟨_, taken, same⟩ := got.exists_slot compatible mem
      have undeclared : slot direct method.name = none :=
        slot_eq_none.mpr fun one there equal => fresh (mem_map.mpr ⟨one, there, equal⟩)
      refine report_of_ne  ?_ (same ▸ differ) quiet
      rw [(overrides before).slots, undeclared, Option.none_or, ← named, taken]
    refine ⟨⟨fun quiet => ?_, fun agrees => ?_⟩, fun quiet => ?_⟩
    · obtain ⟨before, agrees⟩ := agrees_of_quiet quiet
      simpa [or_imp, forall_and] using ⟨silent.mp before, agrees⟩
    · have before := silent.mpr fun one there => agrees one (mem_append_left _ there)
      exact ((overrides before).step compatible fresh (agrees method (by simp))).silent
    · obtain ⟨before, agrees⟩ := agrees_of_quiet quiet
      exact (overrides before).step compatible fresh agrees

/-- **A merge reports nothing** exactly when its methods are mergeable. -/
theorem mergeDiagnostics_eq_nil_iff (single : (direct.map ContractMethod.name).Nodup) :
    mergeDiagnostics inherited direct = [] ↔ Mergeable inherited direct := by
  have inheritedSilent : (mergeAll inherited direct).diagnostics = [] → Compatible inherited := by
    intro quiet
    refine (inheritAll_spec inherited).1.mp ?_
    clear single
    induction direct using List.reverseRecOn with
    | nil => exact quiet
    | append_singleton direct method ih =>
      rw [mergeAll_concat] at quiet
      exact ih (diagnostics_mergeContractMethod quiet)
  rw [mergeDiagnostics, ambiguityDiagnostics, append_eq_nil_iff, map_eq_nil_iff,
    eq_nil_iff_forall_not_mem (l := (mergeAll inherited direct).ambiguousDefaults)]
  constructor
  · rintro ⟨quiet, unambiguous⟩
    have compatible := inheritedSilent quiet
    obtain ⟨agrees, overrides⟩ := mergeAll_spec compatible direct single
    refine ⟨compatible, agrees.mp quiet, fun name undeclared ambiguous => ?_⟩
    exact unambiguous name (((overrides quiet).ambiguous name).mpr ⟨ambiguous, undeclared⟩)
  · intro mergeable
    obtain ⟨agrees, overrides⟩ := mergeAll_spec mergeable.compatible direct single
    have quiet := agrees.mpr mergeable.overrides
    refine ⟨quiet, fun name mem => ?_⟩
    obtain ⟨ambiguous, undeclared⟩ := ((overrides quiet).ambiguous name).mp mem
    exact mergeable.decided name undeclared ambiguous

/-- **The slots of a merge**: the direct methods, and suppliers of the other names. -/
theorem slot_mergeAll (single : (direct.map ContractMethod.name).Nodup)
    (mergeable : Mergeable inherited direct) (name : String) :
    (slot direct name).isSome ∧ slot (mergeAll inherited direct).methods name = slot direct name
      ∨ slot direct name = none ∧
        (slot (mergeAll inherited direct).methods name = none ∧ (∀ y ∈ inherited, y.name ≠ name)
          ∨ ∃ found, slot (mergeAll inherited direct).methods name = some found ∧
            Supplies inherited name found) := by
  have got := (inheritAll_spec inherited).2 mergeable.compatible
  obtain ⟨agrees, overrides⟩ := mergeAll_spec mergeable.compatible direct single
  have slots := (overrides (agrees.mpr mergeable.overrides)).slots name
  rcases declared : slot direct name with _ | _
  · rw [declared, Option.none_or] at slots
    refine .inr ⟨rfl, ?_⟩
    rcases taken : slot (inheritAll inherited).methods name with _ | found
    · refine .inl ⟨slots.trans taken, ?_⟩
      rintro y mem rfl
      exact got.filled y mem taken
    · exact .inr ⟨found, slots.trans taken, got.supplies name found taken⟩
  · exact .inl ⟨rfl, by rw [slots, declared, Option.some_or]⟩

theorem nodup_mergeAll (inherited direct : List ContractMethod) :
    ((mergeAll inherited direct).methods.map ContractMethod.name).Nodup :=
  nodup_foldl_merge direct (nodup_foldl_merge inherited nodup_nil)

end FoundationLang.Contract
