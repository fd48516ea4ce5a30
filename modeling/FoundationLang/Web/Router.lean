/-
**Routers and route tables of `foundation.web`.**
-/

import FoundationLang.Web.Patterns

namespace FoundationLang.Web

open Library Outcome Standard

/-! ### Lists of routes -/

section Visit

variable {σ α ε : Type}

/-- A loop over a list of routes. -/
def visitRoutes (visit : σ → α → σ) (routes : LinkedList α) (memory : σ) :
    Outcome ε (σ × LinkedList α) := do
  let (memory, reversed) ← sweep (fun memory route => .ok (visit memory route, true)) routes.items
    memory .newList
  return (memory, ← Queue.moved reversed.items .newList)

theorem remembered_foldl (visit : σ → α → σ) (routes : List α) (memory : σ) :
    remembered (fun memory route => (visit memory route, true)) routes memory =
      routes.foldl visit memory := by
  induction routes generalizing memory with
  | nil => rfl
  | cons route routes ih => exact ih (visit memory route)

/-- **The list is the same afterwards.** -/
theorem visitRoutes_keeps (visit : σ → α → σ) (routes : LinkedList α) (memory : σ) :
    (visitRoutes visit routes memory : Outcome ε _) =
      .ok (routes.items.foldl visit memory, routes) := by
  obtain ⟨reversed, swept, xs⟩ := @sweep_reverse _ _ ε
    (fun memory route => (visit memory route, true)) (fun _ _ => rfl) routes memory
  obtain ⟨_, moved, items'⟩ := Queue.moved_ok (ε := ε) reversed.items .newList
    (by simpa using reversed.bounded)
  rw [xs, List.reverse_reverse, LinkedList.newList_items, List.append_nil] at items'
  unfold visitRoutes
  rw [swept, ok_bind, remembered_foldl]
  dsimp only
  rw [moved, ok_bind, LinkedList.eq_of_items items']
  rfl

end Visit

/-! ### Registration -/

/-- The code of a method. -/
def methodCode : Method → ℤ
  | .get => 1
  | .post => 2
  | .put => 3
  | .patch => 4
  | .delete => 5
  | .head => 6
  | .options => 7

/-- Two methods with one code. -/
def methodEqual (left right : Method) : Bool :=
  methodCode left == methodCode right

theorem methodEqual_iff {left right : Method} : methodEqual left right = true ↔ left = right := by
  cases left <;> cases right <;> decide

/-- A registered route. -/
structure Route (H : Type) where
  method : Method
  path : Str
  handler : H

/-- `Router`, without its middleware. -/
structure Router (H : Type) where
  routes : LinkedList (Route H)

/-- A router without routes. -/
def newRouter {H : Type} : Router H :=
  ⟨.newList⟩

/-- A route of a table, by its id. -/
structure RoutePattern where
  id : ℕ
  method : Method
  path : Str
deriving DecidableEq, Repr

/-- The registered patterns, the last one in front. -/
structure RouteTable where
  routes : LinkedList RoutePattern

/-- A table without patterns. -/
def newRouteTable : RouteTable :=
  ⟨.newList⟩

/-- A path that may be registered. -/
def checkPath (path : Str) : Except RegistrationError Unit :=
  if path = [] then .error .emptyPath
  else if !Str.startsWith path (ascii "/") then .error .invalidPath
  else validateRoutePath path

/-- A check of another function, for a method that returns its error. -/
def require {ε : Type} (checked : Except ε Unit) : Outcome ε Unit :=
  match checked with
  | .error error => err error
  | .ok () => .ok ()

section Registration

variable {H : Type}

/-- One round of `registrationConflict`. -/
def routeConflict (method : Method) (path : Str) (result : Option RegistrationError)
    (current : Route H) : Option RegistrationError :=
  if patternsEquivalent current.path path && methodEqual current.method method then
    some .duplicateRoute
  else if patternsAmbiguous current.path path then some .ambiguousRoute
  else result

/-- The error of the first route that conflicts. -/
def registrationConflict (router : Router H) (method : Method) (path : Str) :
    Outcome RegistrationError Unit := do
  let (result, _) ← visitRoutes (routeConflict method path) router.routes none
  match result with
  | none => .ok ()
  | some error => err error

/-- **`Router.Map`.** -/
def Router.map (self : Router H) (route : Route H) : Outcome RegistrationError (Router H) := do
  require (checkPath route.path)
  registrationConflict self route.method route.path
  return ⟨← self.routes.pushFront route⟩

/-- One round of `tableRegistrationConflict`. -/
def tableConflict (id : ℕ) (method : Method) (path : Str) (result : Option RegistrationError)
    (current : RoutePattern) : Option RegistrationError :=
  if current.id = id then some .duplicateId
  else if patternsEquivalent current.path path && methodEqual current.method method then
    some .duplicateRoute
  else if patternsAmbiguous current.path path then some .ambiguousRoute
  else result

/-- The error of the first pattern that conflicts. -/
def tableRegistrationConflict (table : RouteTable) (id : ℕ) (method : Method) (path : Str) :
    Outcome RegistrationError Unit := do
  let (result, _) ← visitRoutes (tableConflict id method path) table.routes none
  match result with
  | none => .ok ()
  | some error => err error

/-- **`RouteTable.Add`.** -/
def RouteTable.add (self : RouteTable) (pattern : RoutePattern) :
    Outcome RegistrationError RouteTable := do
  require (checkPath pattern.path)
  tableRegistrationConflict self pattern.id pattern.method pattern.path
  return ⟨← self.routes.pushFront pattern⟩

/-- The router of routes that are registered in order. -/
def registerAll (routes : List (Route H)) : Outcome RegistrationError (Router H) :=
  routes.foldlM Router.map newRouter

/-- The table of patterns that are added in order. -/
def addAll (patterns : List RoutePattern) : Outcome RegistrationError RouteTable :=
  patterns.foldlM RouteTable.add newRouteTable

end Registration

/-! ### Lookup -/

/-- Why no route is found. -/
inductive MatchError
  | notFound
  | methodNotAllowed
deriving DecidableEq, Repr

/-- The best route so far. -/
structure RouteSearch where
  found : Bool
  pathSeen : Bool
  pattern : Str
  params : List Parameter
  rank : Str
deriving DecidableEq, Repr

/-- The best pattern so far. -/
structure RouteTableSearch where
  found : Bool
  pathSeen : Bool
  id : ℕ
  params : List Parameter
  rank : Str
deriving DecidableEq, Repr

/-- The pattern that a request is for. -/
structure RouteMatch where
  id : ℕ
  params : List Parameter
deriving DecidableEq, Repr

/-- A route whose path matches is the new best, or not. -/
def acceptPathMatch (result : RouteSearch) (currentMethod requestedMethod : Method)
    (currentPath : Str) (matched : PathMatch) : RouteSearch :=
  let result := { result with pathSeen := true }
  if methodEqual currentMethod requestedMethod &&
      (!result.found || Text.compareBytes matched.rank result.rank == .gt) then
    { result with
      params := matched.params, found := true, pattern := currentPath, rank := matched.rank }
  else result

/-- A pattern whose path matches is the new best, or not. -/
def acceptTablePathMatch (result : RouteTableSearch) (currentId : ℕ)
    (currentMethod requestedMethod : Method) (matched : PathMatch) : RouteTableSearch :=
  let result := { result with pathSeen := true }
  if methodEqual currentMethod requestedMethod &&
      (!result.found || Text.compareBytes matched.rank result.rank == .gt) then
    { result with params := matched.params, found := true, id := currentId, rank := matched.rank }
  else result

section Lookup

variable {H ε : Type}

/-- One round of `findRoute`. -/
def inspectRoute (method : Method) (path : Str) (result : RouteSearch) (current : Route H) :
    RouteSearch :=
  match matchRoutePattern current.path path with
  | none => result
  | some matched => acceptPathMatch result current.method method current.path matched

/-- **`findRoute`.** -/
def findRoute (router : Router H) (method : Method) (path : Str) : Outcome ε RouteSearch := do
  let (result, _) ← visitRoutes (inspectRoute method path) router.routes ⟨false, false, [], [], []⟩
  return result

/-- One round of `findTableRoute`. -/
def inspectPattern (method : Method) (path : Str) (result : RouteTableSearch)
    (current : RoutePattern) : RouteTableSearch :=
  match matchRoutePattern current.path path with
  | none => result
  | some matched => acceptTablePathMatch result current.id current.method method matched

/-- **`findTableRoute`.** -/
def findTableRoute (table : RouteTable) (method : Method) (path : Str) :
    Outcome ε RouteTableSearch := do
  let (result, _) ← visitRoutes (inspectPattern method path) table.routes ⟨false, false, 0, [], []⟩
  return result

/-- `dispatchMatchedRoute`, up to the middleware. -/
def matchedRoute (router : Router H) (method : Method) (path : Str) :
    Outcome MatchError (Str × List Parameter) := do
  let selected ← findRoute router method path
  if !selected.found then if selected.pathSeen then err .methodNotAllowed else err .notFound
  else return (selected.pattern, selected.params)

/-- `RouteTable.Match`. -/
def RouteTable.matchRoute (self : RouteTable) (method : Method) (path : Str) :
    Outcome MatchError RouteMatch := do
  let selected ← findTableRoute self method path
  if !selected.found then if selected.pathSeen then err .methodNotAllowed else err .notFound
  else return ⟨selected.id, selected.params⟩

end Lookup

end FoundationLang.Web
