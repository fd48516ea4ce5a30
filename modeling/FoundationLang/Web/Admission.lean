/-
**Which routes can be registered.**

A registration fails on its path, on a route it clashes with, or on a full list, and on nothing else.
So a list of routes is registered as a whole in every order or in none.
-/

import FoundationLang.Library.Registry
import FoundationLang.Web.Router
import FoundationLang.Web.Shapes

namespace FoundationLang.Web

open Library Library.Registry Outcome Standard

variable {H : Type}

/-! ### Clashes -/

/-- The two routes have the same segments and the same method, or are ambiguous. -/
def Route.Clashes (first second : Route H) : Prop :=
  (patternsEquivalent first.path second.path = true ∧ first.method = second.method) ∨
    patternsAmbiguous first.path second.path = true

theorem segmentsEquivalent_iff {lefts rights : List Str} :
    segmentsEquivalent lefts rights = true ↔ lefts = rights := by
  induction lefts generalizing rights with
  | nil => cases rights <;> simp [segmentsEquivalent]
  | cons left lefts ih =>
    cases rights with
    | nil => simp [segmentsEquivalent]
    | cons right =>
      rw [segmentsEquivalent, List.cons.injEq]
      by_cases same : left = right
      · rw [if_neg (not_not.mpr same), ih]
        exact ⟨fun rest => ⟨same, rest⟩, And.right⟩
      · rw [if_pos same]
        exact ⟨fun impossible => absurd impossible Bool.false_ne_true, fun both => absurd both.1 same⟩

theorem patternsEquivalent_iff {left right : Str} :
    patternsEquivalent left right = true ↔
      (newPathCursor left).segments = (newPathCursor right).segments :=
  segmentsEquivalent_iff

theorem Route.Clashes.symm {first y : Route H} (clashes : first.Clashes y) :
    y.Clashes first := by
  obtain ⟨same, method⟩ | ambiguous := clashes
  · exact .inl ⟨patternsEquivalent_iff.mpr (patternsEquivalent_iff.mp same).symm, method.symm⟩
  · right
    rw [patternsAmbiguous_shape] at ambiguous ⊢
    rw [shapesAmbiguous_comm]
    exact ambiguous

/-- A round of a loop that looks for clashes, and so the loop. -/
theorem foldl_eq_none {α ε : Type} {round : Option ε → α → Option ε} {clash : α → Prop}
    (finds : ∀ r item, round r item = none ↔ r = none ∧ ¬clash item)
    (xs : List α) (r : Option ε) :
    xs.foldl round r = none ↔ r = none ∧ ∀ item ∈ xs, ¬clash item := by
  induction xs generalizing r with
  | nil => simp
  | cons item xs ih =>
    rw [List.foldl_cons, ih, finds, List.forall_mem_cons, and_assoc]

theorem routeConflict_eq_none (route : Route H) (r : Option RegistrationError)
    (s : Route H) :
    routeConflict route.method route.path r s = none ↔
      r = none ∧ ¬s.Clashes route := by
  unfold routeConflict Route.Clashes
  rw [← methodEqual_iff, ← Bool.and_eq_true]
  split_ifs with equivalent ambiguous
  · simp [equivalent]
  · simp [ambiguous]
  · simp [equivalent, ambiguous]

/-- A pattern as a route to its id. -/
def RoutePattern.route (pattern : RoutePattern) : Route ℕ :=
  ⟨pattern.method, pattern.path, pattern.id⟩

theorem tableConflict_eq_none (pattern : RoutePattern) (r : Option RegistrationError)
    (s : RoutePattern) :
    tableConflict pattern.id pattern.method pattern.path r s = none ↔
      r = none ∧ ¬(s.id = pattern.id ∨ s.route.Clashes pattern.route) := by
  unfold tableConflict
  by_cases same : s.id = pattern.id
  · rw [if_pos same]
    simp [same]
  · rw [if_neg same, or_iff_right same]
    exact routeConflict_eq_none pattern.route r s.route

/-! ### One registration -/

theorem register_eq_ok {α β : Type} {path : Str} {search : Option RegistrationError}
    {xs : LinkedList α} {item : α} {wrap : LinkedList α → β} {after : β} :
    (do
      require (checkPath path)
      (match search with
        | none => .ok ()
        | some error => err error : Outcome RegistrationError Unit)
      return wrap (← xs.pushFront item)) = (.ok after : Outcome RegistrationError β) ↔
      checkPath path = .ok () ∧ search = none ∧
        ∃ pushed, (xs.pushFront item : Outcome RegistrationError _) = .ok pushed ∧
          wrap pushed = after := by
  cases checkPath path with
  | error =>
    exact ⟨fun impossible => (nomatch impossible), fun all => (nomatch all.1)⟩
  | ok _ =>
    cases search with
    | some =>
      exact ⟨fun impossible => (nomatch impossible), fun all => (nomatch all.2.1)⟩
    | none =>
      cases (xs.pushFront item : Outcome RegistrationError _) with
      | error =>
        rw [require, ok_bind, ok_bind]
        exact ⟨fun impossible => (nomatch impossible), fun ⟨_, _, _, failed, _⟩ => (nomatch failed)⟩
      | ok list =>
        rw [require, ok_bind, ok_bind, ok_bind]
        constructor
        · intro same
          exact ⟨rfl, rfl, list, rfl, Except.ok.inj same⟩
        · rintro ⟨-, -, _, same, wrapped⟩
          cases same
          exact congrArg Except.ok wrapped

theorem pushFront_short {α : Type} {self t : LinkedList α} {v : α}
    (pushed : (self.pushFront v : Outcome RegistrationError _) = .ok t) :
    self.items.length + 1 < 2 ^ 31 ∧ t.items = v :: self.items := by
  have grown := LinkedList.pushFront_eq_ok pushed
  have bounded := t.bounded
  rw [grown, List.length_cons] at bounded
  exact ⟨bounded, grown⟩

theorem map_eq_ok {self after : Router H} {route : Route H} :
    self.map route = .ok after ↔ checkPath route.path = .ok () ∧
      (∀ y ∈ self.routes.items, ¬y.Clashes route) ∧
        ∃ pushed, (self.routes.pushFront route : Outcome RegistrationError _) = .ok pushed ∧
          (⟨pushed⟩ : Router H) = after := by
  have search := foldl_eq_none (routeConflict_eq_none route) self.routes.items none
  rw [eq_self, true_and] at search
  rw [← search, ← register_eq_ok, Router.map, registrationConflict, visitRoutes_keeps]
  rfl

theorem add_eq_ok {self after : RouteTable} {pattern : RoutePattern} :
    self.add pattern = .ok after ↔ checkPath pattern.path = .ok () ∧
      (∀ y ∈ self.routes.items,
        ¬(y.id = pattern.id ∨ y.route.Clashes pattern.route)) ∧
        ∃ pushed, (self.routes.pushFront pattern : Outcome RegistrationError _) = .ok pushed ∧
          (⟨pushed⟩ : RouteTable) = after := by
  have search := foldl_eq_none (tableConflict_eq_none pattern) self.routes.items none
  rw [eq_self, true_and] at search
  rw [← search, ← register_eq_ok, RouteTable.add, tableRegistrationConflict, visitRoutes_keeps]
  rfl

/-- **A router is a registry of routes.** -/
theorem map_admits :
    Admits (fun router : Router H => router.routes.items) Router.map
      (fun route => checkPath route.path = .ok ()) Route.Clashes (2 ^ 31) where
  sound := by
    intro router after route mapped
    obtain ⟨checked, apart, pushed, done, rfl⟩ := map_eq_ok.mp mapped
    obtain ⟨short, grown⟩ := pushFront_short done
    exact ⟨checked, apart, short, grown⟩
  complete := by
    intro router route checked apart short
    obtain ⟨pushed, done, grown⟩ := LinkedList.pushFront_ok router.routes route short
    exact ⟨⟨pushed⟩, map_eq_ok.mpr ⟨checked, apart, pushed, done, rfl⟩, grown⟩

/-- **A table is a registry of patterns.** -/
theorem add_admits :
    Admits (fun table : RouteTable => table.routes.items) RouteTable.add
      (fun pattern => checkPath pattern.path = .ok ())
      (fun x y => x.id = y.id ∨ x.route.Clashes y.route) (2 ^ 31) where
  sound := by
    intro table after pattern added
    obtain ⟨checked, apart, pushed, done, rfl⟩ := add_eq_ok.mp added
    obtain ⟨short, grown⟩ := pushFront_short done
    exact ⟨checked, apart, short, grown⟩
  complete := by
    intro table pattern checked apart short
    obtain ⟨pushed, done, grown⟩ := LinkedList.pushFront_ok table.routes pattern short
    exact ⟨⟨pushed⟩, add_eq_ok.mpr ⟨checked, apart, pushed, done, rfl⟩, grown⟩

/-! ### Lists of routes -/

/-- Routes that are registered together. -/
abbrev Registrable (routes : List (Route H)) : Prop :=
  Admissible (fun route => checkPath route.path = .ok ()) Route.Clashes (2 ^ 31) routes

theorem registerAll_iff {routes : List (Route H)} :
    (∃ router, registerAll routes = .ok router) ↔ Registrable routes :=
  admitted_iff map_admits rfl (by decide)

/-- **A list is registered in every order, if it is in one.** -/
theorem registerAll_perm {routes order : List (Route H)} (registrable : Registrable routes)
    (same : order.Perm routes) : ∃ router, registerAll order = .ok router :=
  registerAll_iff.mpr (registrable.perm Route.Clashes.symm same.symm)

/-- A route as a pattern of a table. -/
def Route.pattern (id : Route H → ℕ) (route : Route H) : RoutePattern :=
  ⟨id route, route.method, route.path⟩

/-- **A table takes what a router takes**, under different ids. -/
theorem addAll_of_registerAll {routes order : List (Route H)} (registrable : Registrable routes)
    {id : Route H → ℕ} (ne : (routes.map id).Nodup) (same : order.Perm routes) :
    ∃ table, addAll (order.map (Route.pattern id)) = .ok table := by
  obtain ⟨valid, apart, short⟩ := registrable.perm Route.Clashes.symm same.symm
  have ids : order.Pairwise fun x second => id x ≠ id second :=
    List.pairwise_map.mp ((same.map id).nodup_iff.mpr ne)
  apply (admitted_iff add_admits rfl (by decide)).mpr
  refine ⟨?_, ?_, by rw [List.length_map]; exact short⟩
  · intro pattern mem
    obtain ⟨route, inside, rfl⟩ := List.mem_map.mp mem
    exact valid route inside
  · refine List.pairwise_map.mpr ((ids.and apart).imp ?_)
    intro x second both clashes
    obtain sameId | clash := clashes
    · exact both.1 sameId
    · exact both.2 clash

end FoundationLang.Web
