/-
**Routing does not depend on the order of registration**, up to patterns that only look different.

`findRoute` keeps the best of the routes that match. Two of them with the same rank have the same
shape, as they would be ambiguous otherwise. The routes `{id}` and `{id:}` do have the same shape and
are not duplicates, and with them the order matters.
-/

import FoundationLang.Standard.JsonFields
import FoundationLang.Web.Admission

namespace FoundationLang.Web

open List

open Library Library.Registry Outcome Standard

variable {H K : Type}
variable {routes : List (Route H)} {method : Method} {path : Str}

/-! ### Ranks -/

/-- A match with a greater rank. -/
def better (first second : Route H × PathMatch) : Bool :=
  Text.compareBytes first.2.rank second.2.rank == .gt

theorem better_iff {x y : Route H × PathMatch} :
    better x y = true ↔ Text.compareBytes x.2.rank y.2.rank = .gt :=
  beq_iff_eq

theorem better_ranks : Ranks (better : Route H × PathMatch → Route H × PathMatch → Bool) where
  asymm := by
    intro x y above
    rw [better_iff, Text.compareBytes_swap] at above
    rw [← Bool.not_eq_true, better_iff]
    intro below
    rw [below] at above
    cases above
  cotrans := by
    intro x y third above
    by_contra neither
    rw [not_or, better_iff, better_iff] at neither
    exact Text.compareBytes_trans neither.1 neither.2 (better_iff.mp above)

theorem rank_eq_of_not_better (x y : Route H × PathMatch)
    (below : better x y = false) (above : better y x = false) :
    x.2.rank = y.2.rank := by
  rw [← Bool.not_eq_true, better_iff] at below above
  rw [Text.compareBytes_swap] at above
  rw [← Text.compareBytes_eq_iff]
  cases same : Text.compareBytes x.2.rank y.2.rank with
  | eq => rfl
  | gt => exact absurd same below
  | lt =>
    rw [same] at above
    exact absurd rfl above

/-! ### What a search selects -/

/-- The match of a route that is asked for. -/
def candidate (method : Method) (path : Str) (route : Route H) : Option (Route H × PathMatch) :=
  if methodEqual route.method method then
    (matchRoutePattern route.path path).map fun matched => (route, matched)
  else none

/-- **The selected route**, with its match. -/
def selection (method : Method) (path : Str) (routes : List (Route H)) :
    Option (Route H × PathMatch) :=
  best better (routes.filterMap (candidate method path))

/-- The path is one of the route's. -/
def Route.Matches (route : Route H) (path : Str) : Prop :=
  (matchRoutePattern route.path path).isSome = true

/-- Some route matches the path. -/
def anyMatches (path : Str) (routes : List (Route H)) : Bool :=
  routes.any fun route => (matchRoutePattern route.path path).isSome

/-- What is selected, with one route more. -/
def keepCandidate (method : Method) (path : Str) (held : Option (Route H × PathMatch))
    (route : Route H) : Option (Route H × PathMatch) :=
  match candidate method path route with
  | none => held
  | some matched => keepBest better held matched

theorem selection_eq_foldl (method : Method) (path : Str) (routes : List (Route H)) :
    selection method path routes = routes.foldl (keepCandidate method path) none := by
  unfold selection best
  rw [foldl_filterMap]
  apply congrArg fun round => routes.foldl round none
  funext held route
  unfold keepCandidate
  cases candidate method path route <;> rfl

/-- The result of a search, from the selected route. -/
def searchOf (seen : Bool) : Option (Route H × PathMatch) → RouteSearch
  | none => ⟨false, seen, [], [], []⟩
  | some (route, matched) => ⟨true, seen, route.path, matched.params, matched.rank⟩

/-- The search that ends with this selection. -/
def tableSearchOf (seen : Bool) : Option (Route ℕ × PathMatch) → RouteTableSearch
  | none => ⟨false, seen, 0, [], []⟩
  | some (route, matched) => ⟨true, seen, route.handler, matched.params, matched.rank⟩

theorem inspectRoute_searchOf (method : Method) (path : Str) (seen : Bool)
    (held : Option (Route H × PathMatch)) (route : Route H) :
    inspectRoute method path (searchOf seen held) route =
      searchOf (seen || (matchRoutePattern route.path path).isSome)
        (keepCandidate method path held route) := by
  unfold inspectRoute keepCandidate candidate acceptPathMatch
  cases matchRoutePattern route.path path with
  | none =>
    rw [Option.map_none, ite_self, Option.isSome_none, Bool.or_false]
  | some matched =>
    cases methodEqual route.method method with
    | false => cases held <;> simp [searchOf]
    | true =>
      cases held with
      | none => simp [searchOf, keepBest]
      | some held =>
        cases above : Text.compareBytes matched.rank held.2.rank <;>
          simp [searchOf, keepBest, better, above]

theorem inspectPattern_searchOf (method : Method) (path : Str) (seen : Bool)
    (held : Option (Route ℕ × PathMatch)) (pattern : RoutePattern) :
    inspectPattern method path (tableSearchOf seen held) pattern =
      tableSearchOf (seen || (matchRoutePattern pattern.route.path path).isSome)
        (keepCandidate method path held pattern.route) := by
  unfold inspectPattern keepCandidate candidate acceptTablePathMatch RoutePattern.route
  cases matchRoutePattern pattern.path path with
  | none =>
    rw [Option.map_none, ite_self, Option.isSome_none, Bool.or_false]
  | some matched =>
    cases methodEqual pattern.method method with
    | false => cases held <;> simp [tableSearchOf]
    | true =>
      cases held with
      | none => simp [tableSearchOf, keepBest]
      | some held =>
        cases above : Text.compareBytes matched.rank held.2.rank <;>
          simp [tableSearchOf, keepBest, better, above]

/-- The loop, by what it has seen and what it holds. -/
theorem foldl_searchOf {α ρ : Type} {round : ρ → α → ρ} (route : α → Route H)
    {view : Bool → Option (Route H × PathMatch) → ρ}
    (inspects : ∀ seen held item, round (view seen held) item =
      view (seen || (matchRoutePattern (route item).path path).isSome)
        (keepCandidate method path held (route item))) (xs : List α) (seen : Bool)
    (held : Option (Route H × PathMatch)) :
    xs.foldl round (view seen held) =
      view (seen || anyMatches path (xs.map route))
        ((xs.map route).foldl (keepCandidate method path) held) := by
  induction xs generalizing seen held with
  | nil => rw [map_nil, anyMatches, any_nil, Bool.or_false]; rfl
  | cons item xs ih =>
    rw [foldl_cons, inspects, ih, map_cons, Bool.or_assoc]
    rfl

theorem findRoute_eq {ε : Type} (router : Router H) (method : Method) (path : Str) :
    (findRoute router method path : Outcome ε _) =
      .ok (searchOf (anyMatches path router.routes.items)
        (selection method path router.routes.items)) := by
  have looked := foldl_searchOf (fun route : Route H => route)
    (inspectRoute_searchOf method path) router.routes.items false none
  rw [map_id', Bool.false_or, ← selection_eq_foldl] at looked
  rw [findRoute, visitRoutes_keeps, ok_bind, ← looked]
  rfl

theorem findTableRoute_eq {ε : Type} (table : RouteTable) (method : Method) (path : Str) :
    (findTableRoute table method path : Outcome ε _) =
      .ok (tableSearchOf (anyMatches path (table.routes.items.map RoutePattern.route))
        (selection method path (table.routes.items.map RoutePattern.route))) := by
  have looked := foldl_searchOf RoutePattern.route (inspectPattern_searchOf method path)
    table.routes.items false none
  rw [Bool.false_or, ← selection_eq_foldl] at looked
  rw [findTableRoute, visitRoutes_keeps, ok_bind, ← looked]
  rfl

/-! ### The winner -/

/-- **The route with the strictly greatest rank** of those that match, with its match. -/
structure Wins (routes : List (Route H)) (method : Method) (path : Str) (route : Route H)
    (matched : PathMatch) : Prop where
  member : route ∈ routes
  asked : route.method = method
  here : matchRoutePattern route.path path = some matched
  greatest : ∀ other ∈ routes, other.method = method →
    ∀ matched', matchRoutePattern other.path path = some matched' →
      other = route ∨ Text.compareBytes matched.rank matched'.rank = .gt

theorem Wins.unique {x second : Route H} {matched matched' : PathMatch}
    (wins : Wins routes method path x matched) (wins' : Wins routes method path second matched') :
    x = second := by
  obtain same | above := wins.greatest second wins'.member wins'.asked matched' wins'.here
  · exact same.symm
  · obtain same | below := wins'.greatest x wins.member wins.asked matched wins.here
    · exact same
    · rw [Text.compareBytes_swap, above] at below
      cases below

theorem mem_candidates {route : Route H} {matched : PathMatch} :
    (route, matched) ∈ routes.filterMap (candidate method path) ↔
      route ∈ routes ∧ route.method = method ∧
        matchRoutePattern route.path path = some matched := by
  rw [mem_filterMap]
  unfold candidate
  constructor
  · rintro ⟨_, mem, found⟩
    split_ifs at found with asked
    obtain ⟨_, here, same⟩ := Option.map_eq_some_iff.mp found
    cases same
    exact ⟨mem, methodEqual_iff.mp asked, here⟩
  · rintro ⟨mem, asked, here⟩
    refine ⟨route, mem, ?_⟩
    rw [if_pos (methodEqual_iff.mpr asked), here]
    rfl

/-- The first pattern has the greater rank, wherever both match. -/
def MoreSpecific (first second : Route H) : Prop :=
  Text.compareBytes (rankOf (shape first.path)) (rankOf (shape second.path)) = .gt

/-- **No match of two routes of one shape is the best one.** Two routes of the same method whose
patterns have the same parsed segments match a path only together with a more specific route. -/
def Separate (routes : List (Route H)) : Prop :=
  ∀ path, ∀ first ∈ routes, ∀ second ∈ routes, first.method = second.method →
    shape first.path = shape second.path → first.Matches path →
    second = first ∨
      ∃ other ∈ routes, other.method = first.method ∧ other.Matches path ∧ MoreSpecific other first

section Search

variable {order : List (Route H)} (registrable : Registrable routes) (separate : Separate routes)
  (method : Method) (path : Str)

theorem closed_of_checkPath {path : Str} (checked : checkPath path = .ok ()) :
    Closed (shape path) := by
  unfold checkPath at checked
  split_ifs at checked
  exact validateRoutePath_closed checked

include registrable separate

/-- **The selected route wins.** A match of the same rank has the same shape, and then there would be
a better one. -/
theorem wins_of_selection {route : Route H} {matched : PathMatch}
    (selected : selection method path routes = some (route, matched)) :
    Wins routes method path route matched := by
  obtain ⟨inside, best⟩ := best_some better_ranks selected
  obtain ⟨mem, asked, here⟩ := mem_candidates.mp inside
  refine ⟨mem, asked, here, fun y mem' asked' matched' here' => ?_⟩
  by_contra neither
  rw [not_or] at neither
  obtain ⟨ne, notAbove⟩ := neither
  have inside' := mem_candidates.mpr ⟨mem', asked', here'⟩
  have ranks : matched.rank = matched'.rank :=
    rank_eq_of_not_better (route, matched) (y, matched')
      (Bool.not_eq_true _ ▸ mt better_iff.mp notAbove) (best _ inside')
  have apart := registrable.apart_of_mem Route.Clashes.symm mem mem' (Ne.symm ne)
  have same : shape route.path = shape y.path :=
    shape_eq_of_rank (closed_of_checkPath (registrable.valid _ mem))
      (closed_of_checkPath (registrable.valid _ mem')) here here' ranks
      (Bool.not_eq_true _ ▸ fun ambiguous => apart (.inr ambiguous))
  obtain equal | ⟨_, member'', asked'', matches'', above⟩ :=
    separate path route mem y mem' (asked.trans asked'.symm) same
      (Option.isSome_iff_exists.mpr ⟨matched, here⟩)
  · exact ne equal
  · obtain ⟨_, here''⟩ := Option.isSome_iff_exists.mp matches''
    have below := best _ (mem_candidates.mpr ⟨member'', asked''.trans asked, here''⟩)
    rw [MoreSpecific, ← matchRoutePattern_rank here'', ← matchRoutePattern_rank here] at above
    rw [better_iff.mpr above] at below
    cases below

/-- **The order makes no difference for what is selected.** -/
theorem selection_perm (same : order.Perm routes) :
    selection method path order = selection method path routes := by
  cases selected : selection method path routes with
  | none =>
    have empty : routes.filterMap (candidate method path) = [] := by
      by_contra filled
      have found := (best_isSome better_ranks).mpr filled
      rw [← selection, selected] at found
      cases found
    have empty' := same.filterMap (candidate method path)
    rw [empty] at empty'
    rw [selection, empty'.eq_nil]
    rfl
  | some held =>
    obtain ⟨_, _⟩ := held
    have wins := wins_of_selection registrable separate method path selected
    refine best_of_greatest better_ranks
      (mem_candidates.mpr ⟨same.mem_iff.mpr wins.member, wins.asked, wins.here⟩) ?_
    rintro ⟨y, matched'⟩ inside
    obtain ⟨mem, asked, here⟩ := mem_candidates.mp inside
    obtain rfl | above := wins.greatest y (same.mem_iff.mp mem) asked matched' here
    · left
      rw [Option.some.inj (here.symm.trans wins.here)]
    · exact .inr (better_iff.mpr above)

end Search

/-! ### Every order -/

/-- **What a search of the routes should find**: its flags, and the winner, which it shows. -/
structure Finds (routes : List (Route H)) (method : Method) (path : Str) (found pathSeen : Bool)
    (shows : Route H → PathMatch → Prop) : Prop where
  found_iff : found = true ↔ ∃ route ∈ routes, route.method = method ∧ route.Matches path
  pathSeen_iff : pathSeen = true ↔ ∃ route ∈ routes, route.Matches path
  winner : found = true →
    ∃ route matched, Wins routes method path route matched ∧ shows route matched

/-- **The order of the routes does not matter.** -/
structure Independent (routes : List (Route H)) : Prop where
  accepted : ∀ order : List (Route H), order.Perm routes → ∃ router, registerAll order = .ok router
  same : ∀ order order' router router', order.Perm routes → order'.Perm routes →
    registerAll order = .ok router → registerAll order' = .ok router' → ∀ method path,
      (findRoute router method path : Outcome MatchError _) = findRoute router' method path
  finds : ∀ order router, order.Perm routes → registerAll order = .ok router → ∀ method path,
    ∃ search, (findRoute router method path : Outcome MatchError _) = .ok search ∧
      Finds routes method path search.found search.pathSeen fun route matched =>
        search.pattern = route.path ∧ search.params = matched.params
  refuses : ∀ order router, order.Perm routes → registerAll order = .ok router → ∀ method path,
    matchedRoute router method path = err .methodNotAllowed ↔
      (∃ route ∈ routes, route.Matches path) ∧
        ∀ route ∈ routes, route.Matches path → route.method ≠ method
  table : ∀ (id : Route H → ℕ) (order : List (Route H)), (routes.map id).Nodup → order.Perm routes →
    ∃ table, addAll (order.map (Route.pattern id)) = .ok table ∧ ∀ method path,
      ∃ search, (findTableRoute table method path : Outcome MatchError _) = .ok search ∧
        Finds routes method path search.found search.pathSeen fun route matched =>
          search.id = id route ∧ search.params = matched.params

theorem anyMatches_iff : anyMatches path routes = true ↔ ∃ route ∈ routes, route.Matches path :=
  any_eq_true

theorem Finds.mono {found pathSeen : Bool} {shows shows' : Route H → PathMatch → Prop}
    (finds : Finds routes method path found pathSeen shows)
    (implies : ∀ route matched, shows route matched → shows' route matched) :
    Finds routes method path found pathSeen shows' where
  found_iff := finds.found_iff
  pathSeen_iff := finds.pathSeen_iff
  winner := by
    intro selected
    obtain ⟨route, matched, wins, shown⟩ := finds.winner selected
    exact ⟨route, matched, wins, implies route matched shown⟩

section Search

variable {order : List (Route H)} (registrable : Registrable routes) (separate : Separate routes)
  (method : Method) (path : Str)

include registrable separate

theorem finds_selection (same : order.Perm routes) :
    Finds routes method path (selection method path order).isSome (anyMatches path order)
      fun route matched => selection method path order = some (route, matched) where
  found_iff := by
    rw [selection, best_isSome better_ranks]
    constructor
    · intro filled
      obtain ⟨⟨route, matched⟩, inside⟩ := exists_mem_of_ne_nil _ filled
      obtain ⟨mem, asked, here⟩ := mem_candidates.mp inside
      exact ⟨route, same.mem_iff.mp mem, asked, Option.isSome_iff_exists.mpr ⟨matched, here⟩⟩
    · rintro ⟨route, mem, asked, found⟩
      obtain ⟨matched, here⟩ := Option.isSome_iff_exists.mp found
      exact ne_nil_of_mem (mem_candidates.mpr ⟨same.mem_iff.mpr mem, asked, here⟩)
  pathSeen_iff := by
    rw [anyMatches, same.any_eq]
    exact anyMatches_iff
  winner := by
    intro found
    obtain ⟨⟨route, matched⟩, selected⟩ := Option.isSome_iff_exists.mp found
    refine ⟨route, matched, wins_of_selection registrable separate method path ?_, selected⟩
    rw [← selection_perm registrable separate method path same]
    exact selected

end Search

theorem found_searchOf (seen : Bool) (held : Option (Route H × PathMatch)) :
    (searchOf seen held).found = held.isSome ∧ (searchOf seen held).pathSeen = seen := by
  cases held <;> exact ⟨rfl, rfl⟩

theorem found_tableSearchOf (seen : Bool) (held : Option (Route ℕ × PathMatch)) :
    (tableSearchOf seen held).found = held.isSome ∧ (tableSearchOf seen held).pathSeen = seen := by
  cases held <;> exact ⟨rfl, rfl⟩

/-- The routes of a table are those of a router with their ids as handlers. -/
theorem selection_pattern (id : Route H → ℕ) (method : Method) (path : Str)
    (routes : List (Route H)) :
    selection method path ((routes.map (Route.pattern id)).map RoutePattern.route) =
      (selection method path routes).map fun selected => ((selected.1.pattern id).route, selected.2) := by
  have candidates : ((routes.map (Route.pattern id)).map RoutePattern.route).filterMap
      (candidate method path) = (routes.filterMap (candidate method path)).map
        fun selected => ((selected.1.pattern id).route, selected.2) := by
    rw [map_filterMap, map_map, filterMap_map]
    apply congrArg fun convert => routes.filterMap convert
    funext route
    show candidate method path (route.pattern id).route = _
    unfold candidate
    show (if methodEqual route.method method then _ else none) = _
    cases methodEqual route.method method with
    | false => rfl
    | true =>
      rw [if_pos rfl, if_pos rfl, Option.map_map]
      rfl
  rw [selection, candidates]
  exact best_map (fun _ _ => rfl) _

theorem anyMatches_pattern (id : Route H → ℕ) (path : Str) (routes : List (Route H)) :
    anyMatches path ((routes.map (Route.pattern id)).map RoutePattern.route) =
      anyMatches path routes := by
  unfold anyMatches
  rw [map_map, any_map]
  rfl

/-- **When the method is not allowed.** -/
theorem matchedRoute_refuses {router : Router H} {shows : Route H → PathMatch → Prop}
    (finds : Finds routes method path (selection method path router.routes.items).isSome
      (anyMatches path router.routes.items) shows) :
    matchedRoute router method path = err .methodNotAllowed ↔
      (∃ route ∈ routes, route.Matches path) ∧
        ∀ route ∈ routes, route.Matches path → route.method ≠ method := by
  have none_iff : (∀ route ∈ routes, route.Matches path → route.method ≠ method) ↔
      (selection method path router.routes.items).isSome ≠ true := by
    rw [ne_eq, finds.found_iff]
    constructor
    · rintro others ⟨route, mem, asked, found⟩
      exact others route mem found asked
    · intro none route mem found asked
      exact none ⟨route, mem, asked, found⟩
  rw [none_iff, ← finds.pathSeen_iff, matchedRoute, findRoute_eq, ok_bind,
    (found_searchOf _ _).1, (found_searchOf _ _).2]
  cases (selection method path router.routes.items).isSome with
  | true => exact ⟨nofun, fun both => absurd rfl both.2⟩
  | false =>
    cases anyMatches path router.routes.items with
    | true => exact ⟨fun _ => ⟨rfl, Bool.false_ne_true⟩, fun _ => rfl⟩
    | false => exact ⟨nofun, fun both => absurd both.1 Bool.false_ne_true⟩

theorem perm_of_registerAll {order : List (Route H)} {router : Router H} (same : order.Perm routes)
    (reg : registerAll order = .ok router) : router.routes.items.Perm routes := by
  rw [admitted_items map_admits rfl reg]
  exact (reverse_perm order).trans same

/-- Where no order matters, no two routes of one shape are the best match: one would win, with the
rank of the other. -/
theorem Independent.separate (independent : Independent routes) : Separate routes := by
  intro path x mem y mem' asked same matches'
  obtain ⟨router, reg⟩ := independent.accepted routes (List.Perm.refl _)
  obtain ⟨_, _, finds⟩ :=
    independent.finds routes router (List.Perm.refl _) reg x.method path
  obtain ⟨winner, matched, wins, _⟩ :=
    finds.winner (finds.found_iff.mpr ⟨x, mem, rfl, matches'⟩)
  obtain ⟨matched', here⟩ := Option.isSome_iff_exists.mp matches'
  have here' : matchRoutePattern y.path path = some matched' := by
    rw [matchRoutePattern_shape, ← same, ← matchRoutePattern_shape]
    exact here
  obtain rfl | above := wins.greatest x mem rfl matched' here
  · obtain equal | above := wins.greatest y mem' asked.symm matched' here'
    · exact .inl equal
    · rw [Option.some.inj (wins.here.symm.trans here), Text.compareBytes_eq_iff.mpr rfl] at above
      cases above
  · refine .inr ⟨winner, wins.member, wins.asked,
      Option.isSome_iff_exists.mpr ⟨matched, wins.here⟩, ?_⟩
    rw [MoreSpecific, ← matchRoutePattern_rank wins.here, ← matchRoutePattern_rank here]
    exact above

/-- **When the order of registration does not matter.** A list of routes that is registered in some
order is registered in every order, with the same answers, if and only if no two of its routes have
the same method and the same parsed segments and the best match of some path. -/
theorem routing_independent_iff {routes : List (Route H)}
    (accepted : ∃ router, registerAll routes = .ok router) :
    Independent routes ↔ Separate routes := by
  have registrable := registerAll_iff.mp accepted
  refine ⟨Independent.separate, fun separate => ⟨fun order same => registerAll_perm registrable same,
    ?_, ?_, ?_, ?_⟩⟩
  · intro order order' router router' same same' registered registered' method path
    have perm := perm_of_registerAll same registered
    have perm' := perm_of_registerAll same' registered'
    rw [findRoute_eq, findRoute_eq, anyMatches, perm.any_eq, ← perm'.any_eq,
      selection_perm registrable separate method path perm,
      selection_perm registrable separate method path perm', anyMatches]
  · intro order router same registered method path
    have finds := finds_selection registrable separate method path
      (perm_of_registerAll same registered)
    refine ⟨_, findRoute_eq router method path, ?_⟩
    rw [(found_searchOf _ _).1, (found_searchOf _ _).2]
    apply finds.mono
    intro route matched selected
    rw [selected]
    exact ⟨rfl, rfl⟩
  · intro order router same registered method path
    exact matchedRoute_refuses (finds_selection registrable separate method path
      (perm_of_registerAll same registered))
  · intro id order ne same
    obtain ⟨table, added⟩ := addAll_of_registerAll registrable ne same
    refine ⟨table, added, fun method path => ⟨_, findTableRoute_eq table method path, ?_⟩⟩
    have finds := finds_selection registrable separate method path
      ((reverse_perm order).trans same)
    rw [(found_tableSearchOf _ _).1, (found_tableSearchOf _ _).2,
      admitted_items add_admits rfl added, ← map_reverse, selection_pattern,
      anyMatches_pattern, Option.isSome_map]
    apply finds.mono
    intro route matched selected
    rw [selected]
    exact ⟨rfl, rfl⟩

/-- Two routes that can be told apart. -/
theorem routing_independent_users :
    Independent [(⟨.get, ascii "/users/\x7bid:int\x7d", 1⟩ : Route ℕ), ⟨.get, ascii "/users/me", 2⟩] ↔
      Separate [(⟨.get, ascii "/users/\x7bid:int\x7d", 1⟩ : Route ℕ), ⟨.get, ascii "/users/me", 2⟩] :=
  routing_independent_iff ⟨_, rfl⟩

/-- **`{id}` and `{id:}` are the same parameter**, and both are registered: the one that is registered
last answers. -/
theorem routing_depends_on_order :
    ¬∀ routes : List (Route Unit), (∃ router, registerAll routes = .ok router) →
      Independent routes := by
  intro always
  have independent := always [⟨.get, ascii "/\x7bid\x7d", ()⟩, ⟨.get, ascii "/\x7bid:\x7d", ()⟩]
    ⟨_, rfl⟩
  have same := independent.same _ [⟨.get, ascii "/\x7bid:\x7d", ()⟩, ⟨.get, ascii "/\x7bid\x7d", ()⟩]
    _ _ (List.Perm.refl _) (List.Perm.swap _ _ _) rfl rfl .get (ascii "/a")
  have answers := congrArg (fun result => result.toOption.map RouteSearch.pattern) same
  revert answers
  decide +kernel

/-! ### Routers and tables -/

/-- **They match alike**: both turn a request away, with the same error, or both take the same of the
routes that match it. -/
def MatchAlike (routes : List (Route H)) (id : Route H → ℕ) (router : Router H) (table : RouteTable) :
    Prop :=
  ∀ method path,
    (∃ error, matchedRoute router method path = err error ∧
      table.matchRoute method path = err error) ∨
    ∃ route ∈ routes, ∃ matched, route.method = method ∧
      matchRoutePattern route.path path = some matched ∧
      matchedRoute router method path = .ok (route.path, matched.params) ∧
      table.matchRoute method path = .ok ⟨id route, matched.params⟩

/-- **A router and a table of the same routes match alike.** -/
theorem matchRoute_agrees {router : Router H} (registered : registerAll routes = .ok router)
    {id : Route H → ℕ} (ne : (routes.map id).Nodup) :
    ∃ table, addAll (routes.map (Route.pattern id)) = .ok table ∧
      MatchAlike routes id router table := by
  obtain ⟨table, added⟩ :=
    addAll_of_registerAll (registerAll_iff.mp ⟨router, registered⟩) ne (List.Perm.refl _)
  refine ⟨table, added, fun method path => ?_⟩
  unfold matchedRoute RouteTable.matchRoute
  rw [findRoute_eq, findTableRoute_eq, admitted_items map_admits rfl registered,
    admitted_items add_admits rfl added, ← map_reverse, selection_pattern, anyMatches_pattern]
  cases selected : selection method path routes.reverse with
  | none => cases anyMatches path routes.reverse <;> exact .inl ⟨_, rfl, rfl⟩
  | some winner =>
    obtain ⟨mem, asked, here⟩ := mem_candidates.mp (best_some better_ranks selected).1
    exact .inr ⟨winner.1, mem_reverse.mp mem, winner.2, asked, here, rfl, rfl⟩

theorem matchRoute_agrees_ambiguous : ∃ router table,
    MatchAlike [⟨.get, ascii "/\x7bid\x7d", 1⟩, ⟨.get, ascii "/\x7bid:\x7d", 2⟩] Route.handler router
      table :=
  have ⟨table, _, alike⟩ := @matchRoute_agrees _
    [(⟨.get, ascii "/\x7bid\x7d", 1⟩ : Route ℕ), ⟨.get, ascii "/\x7bid:\x7d", 2⟩] _ rfl
    Route.handler (by decide)
  ⟨_, table, alike⟩

end FoundationLang.Web
