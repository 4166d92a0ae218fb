import Neemata.Lib.OrdMap
import Mathlib.Data.List.Sort

/-!
# Routers and the names of their routes

`createRouter` and `createRootRouter` of `application/src/api/router.ts` over `RouterContract` of
`contract/src/schemas/router.ts`, and `registerApi` of `application/src/runtime.ts`. The names of
the routes are kept in contracts. A contract is a value that is made anew for each router, a routes
object is shared by all routers that are made of it, and `assignRouteContracts` writes the contracts
into the routes objects. Routes objects are numbered in the order in which they come up. The empty
string stands for a name that is `undefined`: the code only asks whether a name is truthy.
-/

namespace Neemata.Application

/-- The routes of a router's contract. -/
inductive RouteContracts where
  | nil
  | callable (key name : String) (rest : RouteContracts)
  /-- `prototype`: the routes of the nested contract have got a prototype. -/
  | router (key name : String) (prototype : Bool) (routes rest : RouteContracts)
deriving DecidableEq

structure RouterContract where
  name : String := ""
  prototype : Bool
  routes : RouteContracts
deriving DecidableEq

structure Router where
  /-- The guards, middlewares and meta of the call that made the router. -/
  config : Nat
  /-- The routes object. -/
  routes : Nat
  contract : RouterContract
deriving DecidableEq

inductive Route where
  /-- `name` is that of the contract. -/
  | procedure (procedure : Nat) (name : String)
  | router (router : Router)
deriving DecidableEq

namespace Route

def name : Route → String
  | .procedure _ name => name
  | .router nested => nested.contract.name

/-- The routes object of a nested router. -/
def child? : Route → Option Nat
  | .procedure _ _ => none
  | .router nested => some nested.routes

/-- `{ ...route, contract }` for the contract of a procedure. -/
def withName (name : String) : Route → Route
  | .procedure id _ => .procedure id name
  | .router nested => .router nested

/-- `{ ...route, contract }` for the contract of a router. -/
def withContract (contract : RouterContract) : Route → Route
  | .procedure id name => .procedure id name
  | .router nested => .router { nested with contract }

end Route

/-! ## Properties of objects -/

def arrayIndex (key : String) : Nat :=
  key.toList.foldl (fun n c => 10 * n + (c.toNat - '0'.toNat)) 0

def isArrayIndex (key : String) : Bool :=
  key ≠ "" && key.toList.all Char.isDigit && (key = "0" || key.toList.head? ≠ some '0') &&
    arrayIndex key < 4294967295

/-- The order of the properties of an object: the array indices first, in ascending order. -/
def ownOrder {β : Type} (entries : List (String × β)) : List (String × β) :=
  (entries.filter fun entry => isArrayIndex entry.1).insertionSort
      (fun a b => arrayIndex a.1 ≤ arrayIndex b.1) ++
    entries.filter fun entry => !isArrayIndex entry.1

/-- `Object.entries` -/
def ownEntries {β : Type} (routes : OrdMap String β) : List (String × β) :=
  ownOrder routes.entries

def concatFullName (parent name : String) : String :=
  if parent = "" then name else parent ++ "/" ++ name

/-! ## Contracts -/

/-- The routes with their names, and whether the object has got a prototype: an assignment to
`__proto__` is no assignment to a property. A prototype that a nested object has got is met by the
`for in` after the properties of its own, and the contract on it has entries that are no contracts,
for which `in` throws. -/
def processNestedRoutes (parentName : String) : RouteContracts → Option (Bool × RouteContracts)
  | .nil => some (false, .nil)
  | .callable key _ rest =>
    match processNestedRoutes parentName rest with
    | none => none
    | some (prototype, routes) =>
      if key = "__proto__" then some (true, routes)
      else some (prototype, .callable key (concatFullName parentName key) routes)
  | .router key _ nestedPrototype nested rest =>
    match processNestedRoutes (concatFullName parentName key) nested,
      processNestedRoutes parentName rest with
    | some (inner, nestedRoutes), some (prototype, routes) =>
      if nestedPrototype then none
      else if key = "__proto__" then some (true, routes)
      else some (prototype,
        .router key (concatFullName parentName key) inner nestedRoutes routes)
    | _, _ => none

/-- `routesContracts` of `createRouter`. -/
def routesContracts : List (String × Route) → RouteContracts
  | [] => .nil
  | (key, .procedure _ name) :: routes => .callable key name (routesContracts routes)
  | (key, .router router) :: routes =>
    .router key router.contract.name router.contract.prototype router.contract.routes
      (routesContracts routes)

/-! ## Routers -/

/-- What the calls have made. -/
structure Routers where
  objects : List (OrdMap String Route) := []
  /-- The routers in the order in which they were made. -/
  routers : List Router := []
  /-- The root routers with their sources. -/
  roots : List (Router × List Router) := []
  /-- The routes objects to which `assignRouteContracts` came, the last one first, with the name of
  the contract it brought. -/
  visits : List (Nat × String) := []

namespace Routers

variable (h : Routers)

def object? (object : Nat) : Option (OrdMap String Route) := h.objects[object]?

def route? (object : Nat) (key : String) : Option Route := (h.object? object).bind (·.get? key)

def visit (object : Nat) (name : String) : Routers :=
  { h with visits := (object, name) :: h.visits }

/-- `routes[key] = { ...routes[key], contract }` -/
def rewrite (object : Nat) (key : String) (f : Route → Route) : Routers :=
  match h.route? object key with
  | some route =>
    { h with objects := h.objects.modify object fun routes => routes.set key (f route) }
  | none => h

/-- The loop of `assignRouteContracts` over the routes of the contract. -/
def assignRoutes (object : Nat) : RouteContracts → Routers → Routers
  | .nil, h => h
  | .callable key name rest, h => assignRoutes object rest (h.rewrite object key (.withName name))
  | .router key name prototype routes rest, h =>
    let h := h.rewrite object key (.withContract { name, prototype, routes })
    match (h.route? object key).bind Route.child? with
    | some child => assignRoutes object rest (assignRoutes child routes (h.visit child name))
    | none => assignRoutes object rest h

def assignRouteContracts (object : Nat) (contract : RouterContract) : Routers :=
  assignRoutes object contract.routes (h.visit object contract.name)

/-- `createRouter`; a duplicate meta binding is found when the contracts have been assigned. -/
def create (object : Nat) (routes : OrdMap String Route) (duplicateMeta : Bool) :
    Option (Routers × Option Router) :=
  match processNestedRoutes "" (routesContracts (ownEntries routes)) with
  | none => none
  | some (prototype, contracts) =>
    let contract : RouterContract := { prototype, routes := contracts }
    let router : Router := { config := h.routers.length, routes := object, contract }
    let h := h.assignRouteContracts object contract
    if duplicateMeta then some (h, none)
    else some ({ h with routers := h.routers ++ [router] }, some router)

/-- A value that an application can put into a routes object. -/
inductive RouteSource where
  | procedure (procedure : Nat)
  /-- The router that a call has made. -/
  | router (router : Nat)
  /-- The route that is read from a routes object. -/
  | entry (object : Nat) (key : String)

def resolve : RouteSource → Option Route
  | .procedure procedure => some (.procedure procedure "")
  | .router router => (h.routers[router]?).map .router
  | .entry object key => h.route? object key

def resolveRouter (source : RouteSource) : Option Router :=
  match h.resolve source with
  | some (.router router) => some router
  | _ => none

/-- An object literal. -/
def literal (sources : List (String × RouteSource)) : Option (OrdMap String Route) :=
  sources.foldlM (fun routes (key, source) => (h.resolve source).map (routes.set key)) .empty

inductive RouterCall where
  /-- `createRouter` with an object literal. -/
  | createRouter (routes : List (String × RouteSource)) (duplicateMeta : Bool)
  /-- `createRouter` with a routes object that is there. -/
  | createRouterOf (object : Nat) (duplicateMeta : Bool)
  | createRootRouter (routers : List RouteSource)

def allocate (routes : OrdMap String Route) : Routers := { h with objects := h.objects ++ [routes] }

/-- The loops of `createRootRouter`, which throws when a name is there. -/
def mergeRoutes (routes : OrdMap String Route) :
    List (String × Route) → Option (OrdMap String Route)
  | [] => some routes
  | (name, route) :: rest =>
    if (routes.get? name).isSome then none else mergeRoutes (routes.set name route) rest

def onCreateRootRouter (sources : List Router) : Routers :=
  let entries := sources.flatMap fun source => ownEntries ((h.object? source.routes).getD .empty)
  match mergeRoutes .empty entries with
  | none => h
  | some routes =>
    match (h.allocate routes).create h.objects.length routes false with
    | some (after, some router) => { after with roots := after.roots ++ [(router, sources)] }
    | _ => h

def step (h : Routers) : RouterCall → Routers
  | .createRouter sources duplicateMeta =>
    match h.literal sources with
    | some routes =>
      (((h.allocate routes).create h.objects.length routes duplicateMeta).map Prod.fst).getD h
    | none => h
  | .createRouterOf object duplicateMeta =>
    match h.object? object with
    | some routes => ((h.create object routes duplicateMeta).map Prod.fst).getD h
    | none => h
  | .createRootRouter sources =>
    match sources.mapM h.resolveRouter with
    | some routers => h.onCreateRootRouter routers
    | none => h

end Routers

/-! ## Registration -/

/-- `ROUTE_KEY_PATTERN` -/
def isRouteKey (key : String) : Bool :=
  key ≠ "" && key.toList.all fun c => c.isAlphanum || c = '-'

structure Registered where
  procedure : Nat
  path : List Router
deriving DecidableEq

/-- The tables of the application: the names of the routers, and the procedures. -/
structure ApiTables where
  routers : List String := []
  procedures : OrdMap String Registered := .empty

namespace Routers

variable (h : Routers)

/-- The body of the loop of `registerRouter`; `none` where it throws. -/
def registerRoute (registerRouter : Router → List Router → ApiTables → Option ApiTables)
    (router : Router) (path : List Router) (tables : ApiTables) :
    String × Route → Option ApiTables
  | (key, .router nested) =>
    if isRouteKey key = false ∨ nested.contract.name = "" ∨
        nested.contract.name ∈ tables.routers then
      none
    else
      registerRouter nested (path ++ [router])
        { tables with routers := tables.routers ++ [nested.contract.name] }
  | (key, .procedure procedure name) =>
    if isRouteKey key = false ∨ name = "" ∨ (tables.procedures.get? name).isSome then none
    else
      some { tables with
        procedures := tables.procedures.set name { procedure, path := path ++ [router] } }

/-- `registerRouter`. The routes object of a nested router is older than the one it is in, so that
the number of the object bounds the depth. -/
def registerRouter : Nat → Router → List Router → ApiTables → Option ApiTables
  | 0, _, _, _ => none
  | fuel + 1, router, path, tables =>
    (ownEntries ((h.object? router.routes).getD .empty)).foldlM
      (registerRoute (registerRouter fuel) router path) tables

/-- `registerApi` of an application with the root router. -/
def registerApi (root : Router) (sources : List Router) : Option ApiTables :=
  sources.foldlM (fun tables source =>
    h.registerRouter (source.routes + 1) source [root]
      { tables with routers := tables.routers ++ [source.contract.name] })
    { routers := [root.contract.name] }

end Routers

end Neemata.Application
