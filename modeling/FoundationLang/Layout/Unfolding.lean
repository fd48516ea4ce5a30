/-
**What the search finds in the unfolding of the declared types.**
-/

import FoundationLang.Layout.Visits
import FoundationLang.Layout.Keys
import Mathlib.Logic.Relation

namespace FoundationLang.Layout

open Contract List

section Ways

variable (copies : SemanticType → Bool) (declarations : Declarations)

/-- A type holds another struct or enum inline. -/
def Inline (outer inner : SemanticType) : Prop :=
  inner ∈ layoutChildren copies declarations outer ∧ Entered declarations inner

/-- The unfolding of a type ends. -/
def FiniteLayout (type : SemanticType) : Prop :=
  Acc (fun inner outer => Inline copies declarations outer inner) type

/-- Every declared type has a finite layout. -/
def AllFinite : Prop :=
  ∀ root ∈ roots declarations, FiniteLayout copies declarations root

/-- A type is another one or in its unfolding. -/
def Reaches : SemanticType → SemanticType → Prop :=
  Relation.ReflTransGen (Inline copies declarations)

/-- The children that the loop goes into. -/
def enteredOf (children : List SemanticType) : List SemanticType :=
  children.filter fun child => Entered declarations child

/-- **The ways that are walked**, the last type first, each with the types that are settled before it:
the earlier roots and, for every type of the way, its children before the next one. A way goes into no
type in the unfolding of a settled one and into none that is flagged. -/
inductive Walked : List SemanticType → List SemanticType → Prop
  | start {earlier later : List SemanticType} {root : SemanticType}
    (declared : roots declarations = earlier ++ root :: later)
    (fresh : ∀ type ∈ earlier, ¬Reaches copies declarations type root) : Walked [root] earlier
  | step {outer inner : SemanticType} {trail settled earlier later : List SemanticType}
    (walked : Walked (outer :: trail) settled)
    (children : layoutChildren copies declarations outer = earlier ++ inner :: later)
    (entered : Entered declarations inner) (plain : ¬Flagged declarations (outer :: trail) inner)
    (fresh : ∀ type ∈ settled ++ enteredOf declarations earlier,
      ¬Reaches copies declarations type inner) :
    Walked (inner :: outer :: trail) (settled ++ enteredOf declarations earlier)

/-- A child of the last type of a walked way is flagged, and what is settled before it has finite
layouts. -/
def RecurrenceMet : Prop :=
  ∃ outer trail settled earlier inner later, Walked copies declarations (outer :: trail) settled ∧
    layoutChildren copies declarations outer = earlier ++ inner :: later ∧
    Entered declarations inner ∧ Flagged declarations (outer :: trail) inner ∧
    ∀ type ∈ settled ++ enteredOf declarations earlier, FiniteLayout copies declarations type

/-- The types that are done are those in the unfoldings of the settled ones. -/
def Settles (validated : List String) (settled : List SemanticType) : Prop :=
  ∀ type, semanticTypeKey type ∈ validated ↔ ∃ other ∈ settled, Reaches copies declarations other type

end Ways

variable {copies : SemanticType → Bool} {declarations : Declarations}
  {validated inner : List String} {settled earlier children trail : List SemanticType}
  {child root : SemanticType}

/-! ### Settled types -/

theorem FiniteLayout.of_reaches {outer type : SemanticType}
    (finite : FiniteLayout copies declarations outer) (reaches : Reaches copies declarations outer type) :
    FiniteLayout copies declarations type := by
  induction reaches with
  | refl => exact finite
  | tail _ inline ih => exact ih.inv inline

theorem enteredOf_of_entered (entered : Entered declarations child) :
    enteredOf declarations (child :: children) = child :: enteredOf declarations children :=
  filter_cons_of_pos (decide_eq_true entered)

theorem enteredOf_of_not (other : ¬Entered declarations child) :
    enteredOf declarations (child :: children) = enteredOf declarations children :=
  filter_cons_of_neg (by simpa using other)

@[simp] theorem enteredOf_nil : enteredOf declarations [] = [] := rfl

theorem enteredOf_append (others : List SemanticType) : enteredOf declarations (children ++ others)
    = enteredOf declarations children ++ enteredOf declarations others :=
  filter_append ..

/-- A type with settled children is settled. -/
theorem Settles.addKey
    (settles : Settles copies declarations inner
      (settled ++ enteredOf declarations (layoutChildren copies declarations child))) :
    Settles copies declarations (addKey (semanticTypeKey child) inner) (settled ++ [child]) := by
  intro type
  have keys : semanticTypeKey type ∈ Layout.addKey (semanticTypeKey child) inner
      ↔ type = child ∨ semanticTypeKey type ∈ inner := by
    rw [Layout.addKey, ← semanticTypeKey_injective.eq_iff]
    split
    case isTrue known => exact ⟨.inr, fun either => either.elim (fun same => same ▸ known) id⟩
    case isFalse => exact mem_cons
  rw [keys, settles type]
  constructor
  · rintro (rfl | ⟨y, mem, reaches⟩)
    · exact ⟨type, by simp, .refl⟩
    rcases mem_append.mp mem with before | inside
    · exact ⟨y, mem_append_left _ before, reaches⟩
    · obtain ⟨held, entered⟩ := mem_filter.mp inside
      exact ⟨child, by simp, .head ⟨held, of_decide_eq_true entered⟩ reaches⟩
  · rintro ⟨y, mem, reaches⟩
    rcases mem_append.mp mem with before | same
    · exact .inr ⟨y, mem_append_left _ before, reaches⟩
    obtain rfl := mem_singleton.mp same
    rcases Relation.ReflTransGen.cases_head reaches with rfl | ⟨next, inline, reaches⟩
    · exact .inl rfl
    · refine .inr ⟨next, mem_append_right _ (mem_filter.mpr ⟨inline.1, ?_⟩), reaches⟩
      exact decide_eq_true inline.2

/-- A type that is done is settled. -/
theorem Settles.known (settles : Settles copies declarations validated settled)
    (known : semanticTypeKey child ∈ validated) :
    Settles copies declarations validated (settled ++ [child]) := by
  intro type
  rw [settles type]
  refine ⟨fun ⟨y, mem, reaches⟩ => ⟨y, mem_append_left _ mem, reaches⟩, ?_⟩
  rintro ⟨y, mem, reaches⟩
  rcases mem_append.mp mem with before | same
  · exact ⟨y, before, reaches⟩
  · obtain rfl := mem_singleton.mp same
    obtain ⟨x, before, there⟩ := (settles y).mp known
    exact ⟨x, before, there.trans reaches⟩

theorem Settles.finite (settles : Settles copies declarations validated settled)
    (finite : ∀ type ∈ settled, FiniteLayout copies declarations type)
    (known : semanticTypeKey child ∈ validated) : FiniteLayout copies declarations child := by
  obtain ⟨x, before, there⟩ := (settles child).mp known
  exact (finite x before).of_reaches there

theorem finite_of_children
    (finite : ∀ type ∈ enteredOf declarations (layoutChildren copies declarations child),
      FiniteLayout copies declarations type) : FiniteLayout copies declarations child :=
  Acc.intro _ fun type inline => finite type (mem_filter.mpr ⟨inline.1, decide_eq_true inline.2⟩)

/-- **What a visit leaves settled**: its children, and with finite layouts when those before had. -/
theorem Visits.settles {outcome : Option (List String)}
    (visits : Visits copies declarations trail validated children outcome) :
    ∀ after, outcome = some after → ∀ settled, Settles copies declarations validated settled →
      Settles copies declarations after (settled ++ enteredOf declarations children) ∧
        ((∀ type ∈ settled, FiniteLayout copies declarations type) →
          ∀ type ∈ enteredOf declarations children, FiniteLayout copies declarations type) := by
  induction visits with
  | done =>
    rintro _ ⟨⟩ settled settles
    rw [enteredOf_nil, append_nil]
    exact ⟨settles, nofun⟩
  | flagged | inside => exact nofun
  | @passed _ _ child _ _ passed later ih =>
    intro after ended settled settles
    by_cases entered : Entered declarations child
    · obtain ⟨whole, finite⟩ := ih after ended _ (settles.known (passed entered).2)
      rw [enteredOf_of_entered entered]
      rw [append_assoc, singleton_append] at whole
      refine ⟨whole, fun before => ?_⟩
      have here := settles.finite before (passed entered).2
      exact forall_mem_cons.mpr ⟨here, finite (forall_mem_append.mpr ⟨before, by simpa using here⟩)⟩
    · rw [enteredOf_of_not entered]
      exact ih after ended settled settles
  | enter enters here later ihHere ihLater =>
    intro after ended settled settles
    obtain ⟨inside, finite⟩ := ihHere _ rfl settled settles
    obtain ⟨whole, finite'⟩ := ihLater after ended _ inside.addKey
    rw [enteredOf_of_entered enters.entered]
    rw [append_assoc, singleton_append] at whole
    refine ⟨whole, fun before => ?_⟩
    have here := finite_of_children (finite before)
    exact forall_mem_cons.mpr ⟨here, finite' (forall_mem_append.mpr ⟨before, by simpa using here⟩)⟩

/-- **A visit that reports has met a recurrence.** -/
theorem Visits.met {outcome : Option (List String)}
    (visits : Visits copies declarations trail validated children outcome) (reported : outcome = none) :
    ∀ outer above settled earlier, trail = outer :: above →
      Walked copies declarations trail settled →
      layoutChildren copies declarations outer = earlier ++ children →
      Settles copies declarations validated (settled ++ enteredOf declarations earlier) →
      (∀ type ∈ settled ++ enteredOf declarations earlier, FiniteLayout copies declarations type) →
        RecurrenceMet copies declarations := by
  induction visits with
  | done => cases reported
  | flagged entered flagged =>
    rintro outer above settled earlier rfl w split settles finite
    exact ⟨outer, above, settled, earlier, _, _, w, split, entered, flagged, finite⟩
  | @passed _ _ child _ _ passed later ih =>
    rintro outer above settled earlier rfl w split settles finite
    refine ih reported outer above settled (earlier ++ [child]) rfl w (by simp [split]) ?_ ?_ <;>
      rw [enteredOf_append, ← append_assoc] <;> by_cases entered : Entered declarations child
    · rw [enteredOf_of_entered entered]
      exact settles.known (passed entered).2
    · rwa [enteredOf_of_not entered, enteredOf_nil, append_nil]
    · rw [enteredOf_of_entered entered]
      have here := settles.finite finite (passed entered).2
      exact forall_mem_append.mpr ⟨finite, by simpa using here⟩
    · rwa [enteredOf_of_not entered, enteredOf_nil, append_nil]
  | inside enters here ih =>
    rintro outer above settled earlier rfl w split settles finite
    refine ih rfl _ _ _ [] rfl (.step w split enters.entered enters.plain ?_) rfl ?_ ?_
    · exact fun type mem reaches => enters.fresh ((settles _).mpr ⟨type, mem, reaches⟩)
    · rwa [enteredOf_nil, append_nil]
    · rwa [enteredOf_nil, append_nil]
  | @enter _ _ _ child _ _ enters here later _ ih =>
    rintro outer above settled earlier rfl w split settles finite
    obtain ⟨inside, finite'⟩ := here.settles _ rfl _ settles
    have one : enteredOf declarations [child] = [child] := enteredOf_of_entered enters.entered
    refine ih reported outer above settled (earlier ++ [child]) rfl w (by simp [split]) ?_ ?_ <;>
      rw [enteredOf_append, ← append_assoc, one]
    · exact inside.addKey
    · exact forall_mem_append.mpr ⟨finite, by simpa using finite_of_children (finite' finite)⟩

/-! ### Visits of finite layouts -/

/-- **The visit of a finite layout ends.** -/
theorem exists_visits {outer : SemanticType} (finite : FiniteLayout copies declarations outer) :
    ∀ trail validated children, children ⊆ layoutChildren copies declarations outer →
      ∃ outcome, Visits copies declarations trail validated children outcome := by
  induction finite with
  | intro outer _ ih =>
    intro trail validated children held
    induction children generalizing validated with
    | nil => exact ⟨_, .done⟩
    | cons child rest later =>
      rw [cons_subset] at held
      by_cases entered : Entered declarations child
      case neg =>
        obtain ⟨outcome, visits⟩ := later validated held.2
        exact ⟨outcome, .passed (fun enters => absurd enters entered) visits⟩
      by_cases flagged : Flagged declarations trail child
      case pos => exact ⟨none, .flagged entered flagged⟩
      by_cases known : semanticTypeKey child ∈ validated
      case pos =>
        obtain ⟨outcome, visits⟩ := later validated held.2
        exact ⟨outcome, .passed (fun _ => ⟨flagged, known⟩) visits⟩
      obtain ⟨_ | inner, visits⟩ := ih child ⟨held.1, entered⟩ (child :: trail) validated _ (Subset.refl _)
      · exact ⟨none, .inside ⟨entered, flagged, known⟩ visits⟩
      · obtain ⟨outcome, more⟩ := later (addKey (semanticTypeKey child) inner) held.2
        exact ⟨outcome, .enter ⟨entered, flagged, known⟩ visits more⟩

/-- The visit gets past children with finite layouts, or reports there. -/
theorem visits_append {tail : List SemanticType}
    (finite : ∀ type ∈ enteredOf declarations earlier, FiniteLayout copies declarations type)
    (settles : Settles copies declarations validated settled)
    (reports : ∀ after, Settles copies declarations after (settled ++ enteredOf declarations earlier) →
      Visits copies declarations trail after tail none) :
    Visits copies declarations trail validated (earlier ++ tail) none := by
  induction earlier generalizing validated settled with
  | nil =>
    rw [enteredOf_nil, append_nil] at reports
    exact reports validated settles
  | cons child rest ih =>
    by_cases entered : Entered declarations child
    case neg =>
      rw [enteredOf_of_not entered] at finite reports
      exact .passed (fun enters => absurd enters entered) (ih finite settles reports)
    rw [enteredOf_of_entered entered] at finite reports
    rw [forall_mem_cons] at finite
    rw [append_cons] at reports
    by_cases flagged : Flagged declarations trail child
    case pos => exact .flagged entered flagged
    by_cases known : semanticTypeKey child ∈ validated
    case pos => exact .passed (fun _ => ⟨flagged, known⟩) (ih finite.2 (settles.known known) reports)
    obtain ⟨_ | inner, visits⟩ := exists_visits finite.1 (child :: trail) validated _ (Subset.refl _)
    · exact .inside ⟨entered, flagged, known⟩ visits
    · exact .enter ⟨entered, flagged, known⟩ visits
        (ih finite.2 (visits.settles _ rfl _ settles).1.addKey reports)

/-! ### One root after the other -/

theorem rootWalk_eq : rootWalk copies declarations root validated
    = standing declarations (frameOf declarations root) [] [root] validated
      (layoutChildren copies declarations root) := by
  rw [standing, instances_cons]
  rfl

theorem walk_rootDone {fuel : Nat} {r : Option (List String)}
    (ended : walk copies declarations fuel
      (standing declarations (frameOf declarations root) [] [root] validated []) = some r) :
    r = some (addKey (semanticTypeKey root) validated) := by
  cases fuel with
  | zero => simp [walk] at ended
  | succ fuel =>
    rw [walk_turn rfl, turn_done, Option.elim_some] at ended
    cases fuel with
    | zero => simp [walk] at ended
    | succ => exact (Option.some.inj ended).symm

/-- The search over these roots ends with these errors. -/
def Ends (copies : SemanticType → Bool) (declarations : Declarations) (waiting : List SemanticType)
    (validated : List String) (errors : List Diagnostic) : Prop :=
  ∃ fuel, rejectFrom copies declarations fuel waiting validated = some errors

/-- The report of a cycle. -/
def recursionError : Diagnostic :=
  ⟨"FDN2023", "recursive value type is not allowed"⟩

theorem rejectFrom_mono {fuel more : Nat} {waiting : List SemanticType} {errors : List Diagnostic}
    (ended : rejectFrom copies declarations fuel waiting validated = some errors)
    (enough : fuel ≤ more) :
    rejectFrom copies declarations more waiting validated = some errors := by
  induction waiting generalizing validated with
  | nil => exact ended
  | cons root rest ih =>
    rw [rejectFrom] at ended ⊢
    split at ended
    case isTrue known => rw [if_pos known, ih ended]
    case isFalse unknown =>
      rw [if_neg unknown]
      split at ended
      case h_1 => simp at ended
      case h_2 ran =>
        rw [walk_mono ran enough]
        exact ended
      case h_3 ran =>
        rw [walk_mono ran enough]
        exact ih ended

theorem Ends.unique {waiting : List SemanticType} {errors others : List Diagnostic}
    (ends : Ends copies declarations waiting validated errors)
    (ends' : Ends copies declarations waiting validated others) : errors = others := by
  obtain ⟨fuel, ended⟩ := ends
  obtain ⟨more, ended'⟩ := ends'
  have same := rejectFrom_mono ended (Nat.le_max_left fuel more)
  rw [rejectFrom_mono ended' (Nat.le_max_right fuel more)] at same
  exact (Option.some.inj same).symm

theorem ends_of_reported {rest : List SemanticType} (fresh : semanticTypeKey root ∉ validated)
    (visits : Visits copies declarations [root] validated (layoutChildren copies declarations root) none) :
    Ends copies declarations (root :: rest) validated [recursionError] := by
  obtain ⟨fuel, ended⟩ := runs_of_visits visits (frameOf declarations root) []
  refine ⟨fuel, ?_⟩
  rw [rejectFrom, if_neg fresh, rootWalk_eq, ended]
  rfl

theorem ends_of_visited {rest : List SemanticType} {errors : List Diagnostic}
    (fresh : semanticTypeKey root ∉ validated)
    (visits : Visits copies declarations [root] validated (layoutChildren copies declarations root)
      (some inner))
    (later : Ends copies declarations rest (addKey (semanticTypeKey root) inner) errors) :
    Ends copies declarations (root :: rest) validated errors := by
  have popped : Runs copies declarations
      (standing declarations (frameOf declarations root) [] [root] inner [])
      (some (addKey (semanticTypeKey root) inner)) :=
    .of_turn rfl (turn_done root) ⟨1, rfl⟩
  obtain ⟨fuel, ended⟩ := runs_of_visits visits (frameOf declarations root) [] _ popped
  obtain ⟨more, last⟩ := later
  refine ⟨max fuel more, ?_⟩
  rw [rejectFrom, if_neg fresh, rootWalk_eq, walk_mono ended (Nat.le_max_left ..)]
  exact rejectFrom_mono last (Nat.le_max_right ..)

/-- The search gets past roots with finite layouts, or reports there. -/
theorem ends_append {tail : List SemanticType} {property : List Diagnostic → Prop}
    (reported : property [recursionError])
    (finite : ∀ type ∈ earlier, FiniteLayout copies declarations type)
    (settles : Settles copies declarations validated settled)
    (ends : ∀ after, Settles copies declarations after (settled ++ earlier) →
      ∃ errors, property errors ∧ Ends copies declarations tail after errors) :
    ∃ errors, property errors ∧ Ends copies declarations (earlier ++ tail) validated errors := by
  induction earlier generalizing validated settled with
  | nil =>
    rw [append_nil] at ends
    exact ends validated settles
  | cons root rest ih =>
    rw [forall_mem_cons] at finite
    rw [append_cons] at ends
    by_cases known : semanticTypeKey root ∈ validated
    · obtain ⟨errors, holds, fuel, ended⟩ := ih finite.2 (settles.known known) ends
      exact ⟨errors, holds, fuel, by rw [cons_append, rejectFrom, if_pos known, ended]⟩
    obtain ⟨_ | inner, visits⟩ := exists_visits finite.1 [root] validated _ (Subset.refl _)
    · exact ⟨_, reported, ends_of_reported known visits⟩
    · obtain ⟨errors, holds, more⟩ :=
        ih finite.2 (visits.settles _ rfl _ settles).1.addKey ends
      exact ⟨errors, holds, ends_of_visited known visits more⟩

theorem settles_nil : Settles copies declarations [] [] := by
  simp [Settles]

/-- **The search gets to every walked way**, unless it has reported before. -/
theorem reports_of_walked (w : Walked copies declarations trail settled) :
    ∀ outer above, trail = outer :: above →
      (∀ type ∈ settled, FiniteLayout copies declarations type) →
      (∀ validated, Settles copies declarations validated settled →
        Visits copies declarations trail validated (layoutChildren copies declarations outer) none) →
      ∃ errors, errors ≠ [] ∧ Ends copies declarations (roots declarations) [] errors := by
  induction w with
  | @start earlier later root declared fresh =>
    rintro _ _ ⟨⟩ finite reports
    rw [declared]
    refine ends_append (by simp) finite settles_nil fun after settles => ?_
    rw [nil_append] at settles
    refine ⟨_, by simp, ends_of_reported (fun known => ?_) (reports after settles)⟩
    obtain ⟨type, mem, reaches⟩ := (settles root).mp known
    exact fresh type mem reaches
  | @step outer inner trail settled earlier later w split entered plain fresh ih =>
    rintro _ _ ⟨⟩ finite reports
    rw [forall_mem_append] at finite
    refine ih outer trail rfl finite.1 fun validated settles => ?_
    rw [split]
    refine visits_append finite.2 settles fun after settled => ?_
    refine .inside ⟨entered, plain, fun known => ?_⟩ (reports after settled)
    obtain ⟨type, mem, reaches⟩ := (settled inner).mp known
    exact fresh type mem reaches

theorem reports_of_met (met : RecurrenceMet copies declarations) :
    ∃ errors, errors ≠ [] ∧ Ends copies declarations (roots declarations) [] errors := by
  obtain ⟨outer, trail, settled, earlier, inner, later, w, split, entered, flagged, finite⟩ := met
  rw [forall_mem_append] at finite
  refine reports_of_walked w outer trail rfl finite.1 fun validated settles => ?_
  rw [split]
  exact visits_append finite.2 settles fun _ _ => .flagged entered flagged

/-- **What a result says.** -/
theorem rejectFrom_spec {fuel : Nat} {waiting : List SemanticType} {errors : List Diagnostic}
    (ended : rejectFrom copies declarations fuel waiting validated = some errors) :
    ∀ earlier, roots declarations = earlier ++ waiting →
      Settles copies declarations validated earlier →
      (∀ type ∈ earlier, FiniteLayout copies declarations type) →
        (errors = [] ∧ AllFinite copies declarations) ∨
          (errors ≠ [] ∧ RecurrenceMet copies declarations) := by
  induction waiting generalizing validated with
  | nil =>
    intro earlier declared _ finite
    rw [append_nil] at declared
    exact .inl ⟨(Option.some.inj ended).symm, by rwa [AllFinite, declared]⟩
  | cons root rest ih =>
    intro earlier declared settles finite
    have listed : roots declarations = (earlier ++ [root]) ++ rest := by simp [declared]
    rw [rejectFrom] at ended
    split at ended
    case isTrue known =>
      refine ih ended _ listed (settles.known known) (forall_mem_append.mpr ⟨finite, ?_⟩)
      simpa using settles.finite finite known
    case isFalse fresh =>
      rw [rootWalk_eq] at ended
      split at ended
      case h_1 => cases ended
      case h_2 ran =>
        obtain rfl := Option.some.inj ended
        rcases visits_of_walk ran with ⟨visits, _⟩ | ⟨_, _, _, _, last⟩
        · refine .inr ⟨by simp, visits.met rfl root [] earlier [] rfl (.start declared ?_) rfl ?_ ?_⟩
          · exact fun type mem reaches => fresh ((settles root).mpr ⟨type, mem, reaches⟩)
          · rwa [enteredOf_nil, append_nil]
          · rwa [enteredOf_nil, append_nil]
        · cases walk_rootDone last
      case h_3 ran =>
        rcases visits_of_walk ran with ⟨_, impossible⟩ | ⟨_, _, _, visits, last⟩
        · cases impossible
        obtain ⟨inside, finite'⟩ := visits.settles _ rfl _ settles
        obtain rfl := Option.some.inj (walk_rootDone last)
        refine ih ended _ listed inside.addKey (forall_mem_append.mpr ⟨finite, ?_⟩)
        simpa using finite_of_children (finite' finite)

theorem ends_spec {errors : List Diagnostic}
    (ends : Ends copies declarations (roots declarations) [] errors) :
    (errors = [] ∧ AllFinite copies declarations) ∨
      (errors ≠ [] ∧ RecurrenceMet copies declarations) := by
  obtain ⟨_, ended⟩ := ends
  exact rejectFrom_spec ended [] rfl settles_nil nofun

theorem ends_of_allFinite (finite : AllFinite copies declarations) :
    ∃ errors, Ends copies declarations (roots declarations) [] errors := by
  have ended : ∃ errors, True ∧ Ends copies declarations (roots declarations ++ []) [] errors :=
    ends_append trivial finite settles_nil fun _ _ => ⟨[], trivial, 0, rfl⟩
  rw [append_nil] at ended
  exact ended.imp fun _ => And.right

/-- **When the search ends with the right answer**: exactly when a walked way meets a recurrence for an
infinite layout, and none does when all layouts are finite. Whatever it accepts is finite. -/
theorem rejectTypeCycles_recognises (copies : SemanticType → Bool) (declarations : Declarations) :
    ((∃ errors fuel, rejectTypeCycles copies declarations fuel = some errors ∧
        (errors ≠ [] ↔ ¬AllFinite copies declarations)) ↔
      (RecurrenceMet copies declarations ↔ ¬AllFinite copies declarations)) ∧
    ∀ fuel, rejectTypeCycles copies declarations fuel = some [] → AllFinite copies declarations := by
  refine ⟨⟨?_, fun exact => ?_⟩, fun fuel accepted => ?_⟩
  · rintro ⟨errors, fuel, ended, answer⟩
    have ends : Ends copies declarations (roots declarations) [] errors := ⟨fuel, ended⟩
    refine ⟨fun met => ?_, fun infinite => ?_⟩
    · obtain ⟨others, reported, ends'⟩ := reports_of_met met
      exact answer.mp (ends.unique ends' ▸ reported)
    · exact ((ends_spec ends).resolve_left fun accepted => infinite accepted.2).2
  · by_cases finite : AllFinite copies declarations
    · obtain ⟨errors, fuel, ended⟩ := ends_of_allFinite finite
      refine ⟨errors, fuel, ended, fun reported => ?_, fun infinite => absurd finite infinite⟩
      exact exact.mp ((ends_spec ⟨fuel, ended⟩).resolve_left fun accepted => reported accepted.1).2
    · obtain ⟨errors, reported, fuel, ended⟩ := reports_of_met (exact.mpr finite)
      exact ⟨errors, fuel, ended, fun _ => finite, fun _ => reported⟩
  · exact ((ends_spec ⟨fuel, accepted⟩).resolve_right fun reported => reported.1 rfl).2

/-! ### A finite layout that is rejected -/

/-- `struct Root { y Box<A> }`, `struct A { x Box<C<A>> }`, `struct C<T> { p own T }` and
`struct Box<T> { v T }`: the box of an owner of `A` is inside `A`, and `A` is in a box. -/
def boxedTwice : Declarations where
  structs :=
    [{ fieldTypes := [.mk .struct 3 [.mk .struct 1 []]] },
      { fieldTypes := [.mk .struct 3 [.mk .struct 2 [.mk .struct 1 []]]] },
      { typeParameterCount := 1, fieldTypes := [.mk .own 0 [.mk .parameter 0 []]] },
      { typeParameterCount := 1, fieldTypes := [.mk .parameter 0 []] }]

theorem boxedTwice_finite : AllFinite (fun _ => false) boxedTwice := by
  have ends (type : SemanticType) (children : List SemanticType)
      (held : enteredOf boxedTwice (layoutChildren (fun _ => false) boxedTwice type) = children)
      (finite : ∀ child ∈ children, FiniteLayout (fun _ => false) boxedTwice child) :
      FiniteLayout (fun _ => false) boxedTwice type :=
    finite_of_children (held ▸ finite)
  have owner := ends (.mk .struct 2 [.mk .struct 1 []]) [] (by decide +kernel) nofun
  have box := ends (.mk .struct 3 [.mk .struct 2 [.mk .struct 1 []]]) _ (by decide +kernel)
    (forall_mem_singleton.mpr owner)
  have declared := ends (.mk .struct 1 []) _ (by decide +kernel) (forall_mem_singleton.mpr box)
  have outer := ends (.mk .struct 3 [.mk .struct 1 []]) _ (by decide +kernel)
    (forall_mem_singleton.mpr declared)
  have root := ends (.mk .struct 0 []) _ (by decide +kernel) (forall_mem_singleton.mpr outer)
  have generic := ends (.mk .struct 2 [.mk .parameter 0 []]) [] (by decide +kernel) nofun
  have generic' := ends (.mk .struct 3 [.mk .parameter 0 []]) [] (by decide +kernel) nofun
  intro type mem
  have listed : roots boxedTwice = [.mk .struct 0 [], .mk .struct 1 [],
      .mk .struct 2 [.mk .parameter 0 []], .mk .struct 3 [.mk .parameter 0 []]] := by
    decide +kernel
  rw [listed] at mem
  simp only [mem_cons, not_mem_nil, or_false] at mem
  rcases mem with rfl | rfl | rfl | rfl
  · exact root
  · exact declared
  · exact generic
  · exact generic'

/-- **A program without an infinite layout is rejected**: the second box on the way is taken for a
recurrence of the first. -/
theorem boxedTwice_rejected :
    ¬∀ (copies : SemanticType → Bool) (declarations : Declarations),
      ∃ errors fuel, rejectTypeCycles copies declarations fuel = some errors ∧
        (errors ≠ [] ↔ ¬AllFinite copies declarations) := by
  intro claim
  obtain ⟨_, fuel, ended, answer⟩ := claim (fun _ => false) boxedTwice
  have rejected : rejectTypeCycles (fun _ => false) boxedTwice 100
      = some [⟨"FDN2023", "recursive value type is not allowed"⟩] := by
    decide +kernel
  have more := rejectFrom_mono ended (Nat.le_max_left fuel 100)
  rw [rejectFrom_mono rejected (Nat.le_max_right fuel 100)] at more
  obtain rfl := Option.some.inj more
  exact answer.mp (by simp) boxedTwice_finite

-- With the last declarations first the search accepts them.
example : rejectFrom (fun _ => false) boxedTwice 100 (roots boxedTwice).reverse [] = some [] := by
  decide +kernel

end FoundationLang.Layout
