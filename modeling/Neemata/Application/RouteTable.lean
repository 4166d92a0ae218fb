import Neemata.Application.Routes
import Neemata.Lib.Entries
import Neemata.Lib.Join
import Neemata.Lib.Trace

/-!
# The table of routes

The name of a route is that of the contract which came last to its routes object (`Named`), and the
contract of a router mirrors the routes objects under it (`Mirrors`), so that `assignRouteContracts`
leaves no route out. Registration takes the names as they are (`registerRouter_iff`); the table is
right if and only if each routes object was last come to by the way on which it is registered.
-/

namespace Neemata.Application

/-- A procedure in the tree of routes: the keys of the routes object it is in, its own key, and the
routers around it. -/
structure Occurrence where
  way : List String
  key : String
  object : Nat
  procedure : Nat
  name : String
  path : List Router

inductive Occurs (h : Routers) : Router → List Router → List String → Occurrence → Prop
  | procedure {router : Router} {path : List Router} {way : List String} {key name : String}
      {procedure : Nat} : h.route? router.routes key = some (.procedure procedure name) →
      Occurs h router path way
        { way, key, object := router.routes, procedure, name, path := path ++ [router] }
  | nested {router nested : Router} {path : List Router} {way : List String} {key : String}
      {o : Occurrence} : h.route? router.routes key = some (.router nested) →
      Occurs h nested (path ++ [router]) (way ++ [key]) o → Occurs h router path way o

def joinKeys (way : List String) : String := "/".intercalate way

namespace Routers

/-- The name of the contract that `assignRouteContracts` last brought to the routes object. -/
def lastName? (h : Routers) (object : Nat) : Option String :=
  (h.visits.find? (·.1 = object)).map Prod.snd

end Routers

/-- Each procedure in the tree of routes is registered under its joined keys with the routers
around it, and no other name is registered. -/
def RoutesRight (h : Routers) (root : Router) (sources : List Router) (tables : ApiTables) : Prop :=
  ∀ name registered, tables.procedures.get? name = some registered ↔
    ∃ source ∈ sources, ∃ o, Occurs h source [root] [] o ∧ name = joinKeys (o.way ++ [o.key]) ∧
      registered = { procedure := o.procedure, path := o.path }

/-- Each routes object with a procedure in the tree was last reached under the keys that lead to it
there. -/
def LastReached (h : Routers) (root : Router) (sources : List Router) : Prop :=
  ∀ source ∈ sources, ∀ o, Occurs h source [root] [] o →
    h.lastName? o.object = some (joinKeys o.way)

/-! ## Shapes -/

theorem mem_ownOrder {β : Type} {entries : List (String × β)} {entry : String × β} :
    entry ∈ ownOrder entries ↔ entry ∈ entries := by
  unfold ownOrder
  rw [List.mem_append, List.mem_insertionSort, List.mem_filter, List.mem_filter]
  cases isArrayIndex entry.1 <;> simp

/-- The order looks at the keys only. -/
theorem ownOrder_map {β γ : Type} (f : β → γ) (entries : List (String × β)) :
    ownOrder (entries.map fun entry => (entry.1, f entry.2)) =
      (ownOrder entries).map fun entry => (entry.1, f entry.2) := by
  have hsort (l : List (String × β)) :
      (l.insertionSort fun a b => arrayIndex a.1 ≤ arrayIndex b.1).map
          (fun entry => (entry.1, f entry.2)) =
        (l.map fun entry => (entry.1, f entry.2)).insertionSort
          fun a b => arrayIndex a.1 ≤ arrayIndex b.1 :=
    List.map_insertionSort _ _ _ l fun _ _ _ _ => Iff.rfl
  unfold ownOrder
  rw [List.map_append, hsort, List.filter_map, List.filter_map]
  rfl

theorem mem_ownEntries {β : Type} {routes : OrdMap String β} {key : String} {value : β} :
    (key, value) ∈ ownEntries routes ↔ routes.get? key = some value :=
  mem_ownOrder.trans OrdMap.get?_eq_some_iff.symm

/-- The keys of a routes object with the routes objects they lead to. -/
def shape (routes : OrdMap String Route) : List (String × Option Nat) :=
  ownOrder (routes.entries.map fun entry => (entry.1, entry.2.child?))

/-- The contract has every key of the routes object, but for `__proto__`. -/
inductive Mirrors (shapes : List (List (String × Option Nat))) :
    List (String × Option Nat) → RouteContracts → Prop
  | nil : Mirrors shapes [] .nil
  | prototype {child : Option Nat} {entries : List (String × Option Nat)}
      {contracts : RouteContracts} : Mirrors shapes entries contracts →
      Mirrors shapes (("__proto__", child) :: entries) contracts
  | callable {key name : String} {entries : List (String × Option Nat)}
      {contracts : RouteContracts} : Mirrors shapes entries contracts →
      Mirrors shapes ((key, none) :: entries) (.callable key name contracts)
  | router {key name : String} {prototype : Bool} {child : Nat}
      {inner entries : List (String × Option Nat)} {routes contracts : RouteContracts} :
      shapes[child]? = some inner → Mirrors shapes inner routes → Mirrors shapes entries contracts →
      Mirrors shapes ((key, some child) :: entries) (.router key name prototype routes contracts)

/-- The contracts are those that `processNestedRoutes` makes under the name. -/
def Processed : String → RouteContracts → Prop
  | _, .nil => True
  | parentName, .callable key name rest =>
    key ≠ "__proto__" ∧ name = concatFullName parentName key ∧ Processed parentName rest
  | parentName, .router key name _ routes rest =>
    key ≠ "__proto__" ∧ name = concatFullName parentName key ∧ Processed name routes ∧
      Processed parentName rest

def RouteContracts.keys : RouteContracts → List String
  | .nil => []
  | .callable key _ rest => key :: rest.keys
  | .router key _ _ _ rest => key :: rest.keys

theorem Mirrors.mem_keys {shapes : List (List (String × Option Nat))}
    {entries : List (String × Option Nat)} {contracts : RouteContracts}
    (h : Mirrors shapes entries contracts) {key : String} {child : Option Nat}
    (hmem : (key, child) ∈ entries) (hkey : key ≠ "__proto__") : key ∈ contracts.keys := by
  induction h with
  | nil => cases hmem
  | prototype _ ih =>
    rcases List.mem_cons.mp hmem with heq | hmem
    · cases heq
      exact absurd rfl hkey
    · exact ih hmem
  | callable _ ih =>
    rcases List.mem_cons.mp hmem with heq | hmem
    · cases heq
      exact List.mem_cons_self
    · exact List.mem_cons_of_mem _ (ih hmem)
  | router _ _ _ _ ih =>
    rcases List.mem_cons.mp hmem with heq | hmem
    · cases heq
      exact List.mem_cons_self
    · exact List.mem_cons_of_mem _ (ih hmem)

theorem Mirrors.append {shapes : List (List (String × Option Nat))}
    {entries : List (String × Option Nat)} {contracts : RouteContracts}
    (h : Mirrors shapes entries contracts) (new : List (String × Option Nat)) :
    Mirrors (shapes ++ [new]) entries contracts := by
  induction h with
  | nil => exact .nil
  | prototype _ ih => exact .prototype ih
  | callable _ ih => exact .callable ih
  | router hchild _ _ ihinner ih =>
    refine .router ?_ ihinner ih
    rw [List.getElem?_append_left (List.getElem?_eq_some_iff.mp hchild).1]
    exact hchild

/-- Processing keeps the keys and makes the names. -/
theorem Mirrors.process {shapes : List (List (String × Option Nat))}
    {entries : List (String × Option Nat)} {contracts : RouteContracts}
    (h : Mirrors shapes entries contracts) {parentName : String} {prototype : Bool}
    {processed : RouteContracts}
    (hprocess : processNestedRoutes parentName contracts = some (prototype, processed)) :
    Mirrors shapes entries processed ∧ Processed parentName processed := by
  induction h generalizing parentName prototype processed with
  | nil =>
    cases hprocess
    exact ⟨.nil, trivial⟩
  | prototype _ ih =>
    obtain ⟨hmirrors, hprocessed⟩ := ih hprocess
    exact ⟨.prototype hmirrors, hprocessed⟩
  | @callable key name entries contracts _ ih =>
    rw [processNestedRoutes] at hprocess
    split at hprocess
    · cases hprocess
    · rename_i hrest
      obtain ⟨hmirrors, hprocessed⟩ := ih hrest
      split at hprocess
      · rename_i hkey
        cases hprocess
        subst hkey
        exact ⟨.prototype hmirrors, hprocessed⟩
      · rename_i hkey
        cases hprocess
        exact ⟨.callable hmirrors, hkey, rfl, hprocessed⟩
  | @router key name nestedPrototype child inner entries routes contracts hchild _ _ ihinner ih =>
    rw [processNestedRoutes] at hprocess
    split at hprocess
    · rename_i hinner hrest
      obtain ⟨hmirrorsInner, hprocessedInner⟩ := ihinner hinner
      obtain ⟨hmirrors, hprocessed⟩ := ih hrest
      split at hprocess
      · cases hprocess
      · split at hprocess
        · rename_i hkey
          cases hprocess
          subst hkey
          exact ⟨.prototype hmirrors, hprocessed⟩
        · rename_i hkey
          cases hprocess
          exact ⟨.router hchild hmirrorsInner hmirrors, hkey, rfl, hprocessedInner, hprocessed⟩
    · cases hprocess

/-! ## Rewriting a routes object -/

@[simp] theorem Route.child?_withName (name : String) (route : Route) :
    (route.withName name).child? = route.child? := by cases route <;> rfl

@[simp] theorem Route.child?_withContract (contract : RouterContract) (route : Route) :
    (route.withContract contract).child? = route.child? := by cases route <;> rfl

theorem mem_shape {routes : OrdMap String Route} {key : String} {child : Option Nat} :
    (key, child) ∈ shape routes ↔ ∃ route, routes.get? key = some route ∧ route.child? = child := by
  unfold shape
  rw [mem_ownOrder, List.mem_map]
  constructor
  · rintro ⟨⟨_, route⟩, hmem, heq⟩
    cases heq
    exact ⟨route, OrdMap.get?_eq_some_iff.mpr hmem, rfl⟩
  · rintro ⟨route, hget, rfl⟩
    exact ⟨(key, route), OrdMap.get?_eq_some_iff.mp hget, rfl⟩

/-- A route is replaced in place by one with the same child. -/
theorem shape_set {routes : OrdMap String Route} {key : String} {route after : Route}
    (hget : routes.get? key = some route) (hchild : after.child? = route.child?) :
    shape (routes.set key after) = shape routes := by
  have hmem := OrdMap.get?_eq_some_iff.mp hget
  have hkey : key ∈ routes.keys := List.mem_map.mpr ⟨(key, route), hmem, rfl⟩
  unfold shape OrdMap.set
  rw [dif_pos hkey, List.map_map]
  refine congrArg ownOrder (List.map_congr_left fun entry hentry => ?_)
  rw [Function.comp_apply]
  split
  · rename_i heq
    have hroute := OrdMap.get?_eq_some_iff.mpr (heq ▸ hentry : (key, entry.2) ∈ routes.entries)
    rw [hget] at hroute
    rw [hchild, Option.some.inj hroute, heq]
  · rfl

namespace Routers

variable {h : Routers}

def shapes (h : Routers) : List (List (String × Option Nat)) := h.objects.map shape

theorem route?_eq_some {object : Nat} {key : String} {route : Route} :
    h.route? object key = some route ↔
      ∃ routes, h.object? object = some routes ∧ routes.get? key = some route :=
  Option.bind_eq_some_iff

theorem getElem?_shapes (object : Nat) : h.shapes[object]? = (h.object? object).map shape :=
  List.getElem?_map

theorem route?_of_mem_shapes {object : Nat} {entries : List (String × Option Nat)} {key : String}
    {child : Option Nat} (hentries : h.shapes[object]? = some entries)
    (hmem : (key, child) ∈ entries) :
    ∃ route, h.route? object key = some route ∧ route.child? = child := by
  rw [getElem?_shapes, Option.map_eq_some_iff] at hentries
  obtain ⟨routes, hobject, rfl⟩ := hentries
  obtain ⟨route, hget, hchild⟩ := mem_shape.mp hmem
  exact ⟨route, route?_eq_some.mpr ⟨routes, hobject, hget⟩, hchild⟩

theorem mem_shapes_of_route? {object : Nat} {key : String} {route : Route}
    (hroute : h.route? object key = some route) :
    ∃ entries, h.shapes[object]? = some entries ∧ (key, route.child?) ∈ entries := by
  obtain ⟨routes, hobject, hget⟩ := route?_eq_some.mp hroute
  refine ⟨shape routes, ?_, mem_shape.mpr ⟨route, hget, rfl⟩⟩
  rw [getElem?_shapes, hobject]
  rfl

section

variable {object : Nat} {key : String} {f : Route → Route}

theorem object?_rewrite {other : Nat} (hne : other ≠ object) :
    (h.rewrite object key f).object? other = h.object? other := by
  unfold rewrite
  split
  · exact List.getElem?_modify_ne _ _ (Ne.symm hne)
  · rfl

theorem route?_rewrite_of_ne {x : Nat} {other : String} (hne : x = object → other ≠ key) :
    (h.rewrite object key f).route? x other = h.route? x other := by
  by_cases hx : x = object
  · subst hx
    unfold rewrite
    split
    · unfold route? object?
      rw [List.getElem?_modify_eq]
      cases h.objects[x]? with
      | none => rfl
      | some routes => exact OrdMap.get?_set_of_ne (hne rfl)
    · rfl
  · unfold route?
    rw [object?_rewrite hx]

theorem route?_rewrite_self :
    (h.rewrite object key f).route? object key = (h.route? object key).map f := by
  unfold rewrite
  split
  · rename_i route hroute
    obtain ⟨routes, hobject, hget⟩ := route?_eq_some.mp hroute
    unfold route? object?
    rw [List.getElem?_modify_eq, ← object?, hobject]
    exact (OrdMap.get?_set_self ..).trans (congrArg (Option.map f) hget).symm
  · rename_i hroute
    rw [hroute]
    rfl

theorem shapes_rewrite (hf : ∀ route, (f route).child? = route.child?) :
    (h.rewrite object key f).shapes = h.shapes := by
  refine List.ext_getElem? fun x => ?_
  rw [getElem?_shapes, getElem?_shapes]
  by_cases hx : x = object
  · subst hx
    unfold rewrite
    split
    · rename_i route hroute
      obtain ⟨routes, hobject, hget⟩ := route?_eq_some.mp hroute
      unfold object? at hobject ⊢
      rw [List.getElem?_modify_eq, hobject]
      exact congrArg some (shape_set hget (hf route))
    · rfl
  · rw [object?_rewrite hx]

theorem visits_rewrite : (h.rewrite object key f).visits = h.visits := by
  unfold rewrite
  split <;> rfl

end

/-! ## Assigning contracts -/

/-- Routes objects hold routers with older routes objects. -/
def Ranked (shapes : List (List (String × Option Nat))) : Prop :=
  ∀ (object : Nat) entries, shapes[object]? = some entries →
    ∀ key child, (key, some child) ∈ entries → child < object

/-- The routes of the object are named after the contract that was last brought to it. -/
def Named (h : Routers) (object : Nat) : Prop :=
  ∀ key route, h.route? object key = some route → key ≠ "__proto__" →
    ∃ name, h.lastName? object = some name ∧ route.name = concatFullName name key

/-- The contract of the router mirrors its routes object. -/
def Held (h : Routers) (router : Router) : Prop :=
  ∃ entries, h.shapes[router.routes]? = some entries ∧
    Mirrors h.shapes entries router.contract.routes

def Holds (h : Routers) : Prop :=
  ∀ object key router, h.route? object key = some (.router router) → h.Held router

theorem Held.congr {h' : Routers} {router : Router} (H : h.Held router)
    (hshapes : h'.shapes = h.shapes) : h'.Held router := by
  unfold Held
  rw [hshapes]
  exact H

theorem Named.congr {h' : Routers} {object : Nat} (H : h.Named object)
    (hobject : h'.object? object = h.object? object)
    (hname : h'.lastName? object = h.lastName? object) : h'.Named object := by
  unfold Named route?
  rw [hobject, hname]
  exact H

theorem lastName?_visit_self (object : Nat) (name : String) :
    (h.visit object name).lastName? object = some name := by
  simp [lastName?, visit]

theorem lastName?_visit_of_ne {object other : Nat} (name : String) (hne : other ≠ object) :
    (h.visit object name).lastName? other = h.lastName? other := by
  simp [lastName?, visit, Ne.symm hne]

/-- What the loop of `assignRouteContracts` over `contracts` does to the routes object and to those
under it. -/
structure Assigned (h h' : Routers) (object : Nat) (parentName : String)
    (contracts : RouteContracts) : Prop where
  shapes : h'.shapes = h.shapes
  above : ∀ other, object < other → h'.object? other = h.object? other
  lastName : ∀ other, object ≤ other → h'.lastName? other = h.lastName? other
  named : ∀ key route, h'.route? object key = some route →
    (key ∈ contracts.keys ∧ route.name = concatFullName parentName key) ∨
      (key ∉ contracts.keys ∧ h.route? object key = some route)
  others : ∀ other, other ≠ object → h.Named other → h'.Named other
  holds : h.Holds → h'.Holds

theorem Assigned.refl (h : Routers) (object : Nat) (parentName : String) :
    Assigned h h object parentName .nil where
  shapes := rfl
  above _ _ := rfl
  lastName _ _ := rfl
  named _ _ hroute := .inr ⟨List.not_mem_nil, hroute⟩
  others _ _ H := H
  holds H := H

/-- One route is rewritten. -/
structure Rewritten (h h' : Routers) (object : Nat) (key name : String) : Prop where
  shapes : h'.shapes = h.shapes
  visits : h'.visits = h.visits
  object? : ∀ other, other ≠ object → h'.object? other = h.object? other
  route? : ∀ other, other ≠ key → h'.route? object other = h.route? object other
  name : ∀ route, h'.route? object key = some route → route.name = name
  holds : h.Holds → h'.Holds

theorem Rewritten.lastName? {h' : Routers} {object : Nat} {key name : String}
    (H : Rewritten h h' object key name) (other : Nat) :
    h'.lastName? other = h.lastName? other := by
  unfold Routers.lastName?
  rw [H.visits]

/-- The rewrite of one route, then the rest of the loop. -/
theorem Rewritten.assigned {h₁ h₂ : Routers} {object : Nat} {key parentName : String}
    {contracts rest : RouteContracts} (hkeys : contracts.keys = key :: rest.keys)
    (H : Rewritten h h₁ object key (concatFullName parentName key))
    (A : Assigned h₁ h₂ object parentName rest) : Assigned h h₂ object parentName contracts where
  shapes := A.shapes.trans H.shapes
  above other hlt := (A.above other hlt).trans (H.object? other (Nat.ne_of_gt hlt))
  lastName other hle := (A.lastName other hle).trans (H.lastName? other)
  named other route hroute := by
    rw [hkeys, List.mem_cons]
    rcases A.named other route hroute with ⟨hmem, hname⟩ | ⟨hmem, hold⟩
    · exact .inl ⟨.inr hmem, hname⟩
    · by_cases hkey : other = key
      · subst hkey
        exact .inl ⟨.inl rfl, H.name route hold⟩
      · rw [H.route? other hkey] at hold
        exact .inr ⟨fun h => h.elim hkey hmem, hold⟩
  others other hne hnamed :=
    A.others other hne (hnamed.congr (H.object? other hne) (H.lastName? other))
  holds := A.holds ∘ H.holds

/-- The routes object of a nested router, all of it, then the rest of the loop. -/
theorem Assigned.nested {h₁ h₂ : Routers} {object child : Nat} {name parentName : String}
    {entries : List (String × Option Nat)} {routes rest : RouteContracts}
    (hlt : child < object) (hentries : h.shapes[child]? = some entries)
    (hmirrors : Mirrors h.shapes entries routes)
    (N : Assigned (h.visit child name) h₁ child name routes)
    (A : Assigned h₁ h₂ object parentName rest) : Assigned h h₂ object parentName rest where
  shapes := A.shapes.trans N.shapes
  above other hother := (A.above other hother).trans (N.above other (Nat.lt_trans hlt hother))
  lastName other hle := by
    rw [A.lastName other hle, N.lastName other (Nat.le_of_lt (Nat.lt_of_lt_of_le hlt hle))]
    exact lastName?_visit_of_ne name (Nat.ne_of_gt (Nat.lt_of_lt_of_le hlt hle))
  named key route hroute := by
    refine (A.named key route hroute).imp_right fun ⟨hmem, hold⟩ => ⟨hmem, ?_⟩
    unfold route? at hold ⊢
    rwa [N.above object hlt] at hold
  others other hne hnamed := by
    refine A.others other hne ?_
    by_cases hother : other = child
    · subst hother
      intro key route hroute hkey
      have hlast := (N.lastName other (Nat.le_refl other)).trans (lastName?_visit_self other name)
      refine ⟨name, hlast, ?_⟩
      obtain ⟨routes', hroutes, hmem⟩ := mem_shapes_of_route? hroute
      rw [N.shapes] at hroutes
      change h.shapes[other]? = _ at hroutes
      rw [hentries] at hroutes
      cases hroutes
      rcases N.named key route hroute with ⟨-, hname⟩ | ⟨hnot, -⟩
      · exact hname
      · exact absurd (hmirrors.mem_keys hmem hkey) hnot
    · exact N.others other hother (hnamed.congr rfl (lastName?_visit_of_ne name hother))
  holds := A.holds ∘ N.holds

theorem rewritten {object : Nat} {key name : String} {f : Route → Route}
    (hchild : ∀ route, (f route).child? = route.child?)
    (hname : ∀ route, h.route? object key = some route → (f route).name = name)
    (hheld : ∀ route router, h.route? object key = some route → f route = .router router →
      h.Holds → h.Held router) : Rewritten h (h.rewrite object key f) object key name where
  shapes := shapes_rewrite hchild
  visits := visits_rewrite
  object? _ hne := object?_rewrite hne
  route? other hne := route?_rewrite_of_ne fun _ => hne
  name route hroute := by
    rw [route?_rewrite_self, Option.map_eq_some_iff] at hroute
    obtain ⟨old, hold, rfl⟩ := hroute
    exact hname old hold
  holds H x other router hroute := by
    refine Held.congr ?_ (shapes_rewrite hchild)
    by_cases hkey : x = object ∧ other = key
    · obtain ⟨rfl, rfl⟩ := hkey
      rw [route?_rewrite_self, Option.map_eq_some_iff] at hroute
      obtain ⟨old, hold, heq⟩ := hroute
      exact hheld old router hold heq H
    · rw [route?_rewrite_of_ne fun hx hk => hkey ⟨hx, hk⟩] at hroute
      exact H x other router hroute

/-- The loop of `assignRouteContracts` over contracts that mirror routes of the object. -/
theorem assigned {shapes entries : _} {contracts : RouteContracts}
    (hmirrors : Mirrors shapes entries contracts) (hranked : Ranked shapes) {h : Routers}
    {object : Nat} {parentName : String} {all : List (String × Option Nat)}
    (hshapes : h.shapes = shapes) (hall : shapes[object]? = some all) (hsub : entries ⊆ all)
    (hprocessed : Processed parentName contracts) :
    Assigned h (assignRoutes object contracts h) object parentName contracts := by
  induction hmirrors generalizing h object parentName all with
  | nil => exact Assigned.refl _ _ _
  | prototype _ ih =>
    exact ih hshapes hall (List.subset_of_cons_subset hsub) hprocessed
  | @callable key name entries rest _ ih =>
    obtain ⟨-, rfl, hrest⟩ := hprocessed
    obtain ⟨route, hroute, hchild⟩ :=
      route?_of_mem_shapes (hshapes ▸ hall) (hsub List.mem_cons_self)
    have hfirst : Rewritten h (h.rewrite object key (.withName (concatFullName parentName key)))
        object key (concatFullName parentName key) := by
      refine rewritten (Route.child?_withName _) (fun old hold => ?_)
        fun old router hold heq H => ?_
      · cases hroute.symm.trans hold
        cases route with
        | procedure _ _ => rfl
        | router _ => cases hchild
      · cases hroute.symm.trans hold
        cases route with
        | procedure _ _ => cases heq
        | router _ => cases hchild
    exact hfirst.assigned rfl
      (ih (hfirst.shapes.trans hshapes) hall (List.subset_of_cons_subset hsub) hrest)
  | @router key name prototype child inner entries routes rest hinner hmirrors _ ihinner ih =>
    obtain ⟨-, rfl, hnested, hrest⟩ := hprocessed
    obtain ⟨route, hroute, hchild⟩ :=
      route?_of_mem_shapes (hshapes ▸ hall) (hsub List.mem_cons_self)
    have hlt : child < object := hranked object all hall key child (hsub List.mem_cons_self)
    have hfirst : Rewritten h (h.rewrite object key (.withContract
        { name := concatFullName parentName key, prototype, routes })) object key
        (concatFullName parentName key) := by
      refine rewritten (Route.child?_withContract _) (fun old hold => ?_)
        fun old router hold heq H => ?_
      · cases hroute.symm.trans hold
        cases route with
        | procedure _ _ => cases hchild
        | router _ => rfl
      · cases hroute.symm.trans hold
        cases route with
        | procedure _ _ => cases heq
        | router old =>
          cases heq
          cases hchild
          exact ⟨inner, hshapes ▸ hinner, hshapes ▸ hmirrors⟩
    have hfound : ((h.rewrite object key (.withContract
        { name := concatFullName parentName key, prototype, routes })).route? object key).bind
        Route.child? = some child := by
      rw [route?_rewrite_self, hroute]
      exact (Route.child?_withContract _ route).trans hchild
    have hfirstShapes := hfirst.shapes.trans hshapes
    have N := ihinner (h := (h.rewrite object key (.withContract
        { name := concatFullName parentName key, prototype, routes })).visit child
        (concatFullName parentName key)) hfirstShapes hinner (List.Subset.refl _) hnested
    have A := ih (N.shapes.trans hfirstShapes) hall (List.subset_of_cons_subset hsub) hrest
    rw [assignRoutes, hfound]
    exact hfirst.assigned rfl (Assigned.nested hlt (hfirstShapes ▸ hinner)
      (hfirstShapes ▸ hmirrors) N A)

/-! ## The calls -/

/-- Every router among the routes is held. -/
def AllHeld (h : Routers) (routes : OrdMap String Route) : Prop :=
  routes.All fun _ route => ∀ router, route = .router router → h.Held router

theorem mirrors_routesContracts {entries : List (String × Route)}
    (H : ∀ key router, (key, Route.router router) ∈ entries → h.Held router) :
    Mirrors h.shapes (entries.map fun entry => (entry.1, entry.2.child?))
      (routesContracts entries) := by
  induction entries with
  | nil => exact .nil
  | cons entry entries ih =>
    obtain ⟨key, route⟩ := entry
    have hrest := ih fun key router hmem => H key router (List.mem_cons_of_mem _ hmem)
    cases route with
    | procedure procedure name => exact .callable hrest
    | router router =>
      obtain ⟨inner, hinner, hmirrors⟩ := H key router List.mem_cons_self
      exact .router hinner hmirrors hrest

structure Sound (h : Routers) : Prop where
  ranked : Ranked h.shapes
  holds : h.Holds
  named : ∀ object, h.Named object
  routers : ∀ router ∈ h.routers, h.Held router
  sources : ∀ root ∈ h.roots, ∀ source ∈ root.2, h.Held source

/-- A routes object that has been allocated, but not named. -/
structure Pending (h : Routers) (object : Nat) (routes : OrdMap String Route) : Prop where
  ranked : Ranked h.shapes
  holds : h.Holds
  named : ∀ other, other ≠ object → h.Named other
  routers : ∀ router ∈ h.routers, h.Held router
  sources : ∀ root ∈ h.roots, ∀ source ∈ root.2, h.Held source
  object? : h.object? object = some routes

theorem assignRoutes_frame (contracts : RouteContracts) (object : Nat) (h : Routers) :
    (assignRoutes object contracts h).routers = h.routers ∧
      (assignRoutes object contracts h).roots = h.roots := by
  have hrewrite (h : Routers) (object : Nat) (key : String) (f : Route → Route) :
      (h.rewrite object key f).routers = h.routers ∧
        (h.rewrite object key f).roots = h.roots := by
    unfold rewrite
    split <;> exact ⟨rfl, rfl⟩
  induction contracts generalizing object h with
  | nil => exact ⟨rfl, rfl⟩
  | callable key name rest ih =>
    obtain ⟨hrouters, hroots⟩ := ih object (h.rewrite object key (.withName name))
    exact ⟨hrouters.trans (hrewrite ..).1, hroots.trans (hrewrite ..).2⟩
  | router key name prototype routes rest ihroutes ih =>
    rw [assignRoutes]
    split
    · rename_i child _
      obtain ⟨hrouters, hroots⟩ := ih object (assignRoutes child routes ((h.rewrite object key
        (.withContract { name, prototype, routes })).visit child name))
      obtain ⟨hnested, hnestedRoots⟩ := ihroutes child ((h.rewrite object key
        (.withContract { name, prototype, routes })).visit child name)
      exact ⟨hrouters.trans (hnested.trans (hrewrite ..).1),
        hroots.trans (hnestedRoots.trans (hrewrite ..).2)⟩
    · obtain ⟨hrouters, hroots⟩ := ih object (h.rewrite object key
        (.withContract { name, prototype, routes }))
      exact ⟨hrouters.trans (hrewrite ..).1, hroots.trans (hrewrite ..).2⟩

/-- `assignRouteContracts` of `createRouter` names the routes object. -/
theorem Pending.assign {object : Nat} {routes : OrdMap String Route} {prototype : Bool}
    {contracts : RouteContracts} (H : h.Pending object routes)
    (hprocess : processNestedRoutes "" (routesContracts (ownEntries routes)) =
      some (prototype, contracts)) :
    (h.assignRouteContracts object { prototype, routes := contracts }).Sound ∧
      (h.assignRouteContracts object { prototype, routes := contracts }).shapes = h.shapes ∧
      Mirrors h.shapes (shape routes) contracts := by
  have hshape : h.shapes[object]? = some (shape routes) := by
    rw [getElem?_shapes, H.object?]
    rfl
  have hmirrors : Mirrors h.shapes (shape routes) (routesContracts (ownEntries routes)) := by
    rw [shape, ownOrder_map]
    exact mirrors_routesContracts fun key router hmem => H.holds object key router
      (route?_eq_some.mpr ⟨routes, H.object?, mem_ownEntries.mp hmem⟩)
  obtain ⟨hprocessed, hnames⟩ := hmirrors.process hprocess
  have A : Assigned (h.visit object "")
      (h.assignRouteContracts object { prototype, routes := contracts }) object "" contracts :=
    assigned hprocessed H.ranked rfl hshape (List.Subset.refl _) hnames
  have hshapes : (h.assignRouteContracts object { prototype, routes := contracts }).shapes =
    h.shapes := A.shapes
  refine ⟨⟨hshapes ▸ H.ranked, A.holds H.holds, fun other => ?_, fun router hmem => ?_,
    fun root hmem source hsource => ?_⟩, hshapes, hprocessed⟩
  · by_cases hother : other = object
    · subst hother
      intro key route hroute hkey
      refine ⟨"", (A.lastName other (Nat.le_refl other)).trans (lastName?_visit_self other ""), ?_⟩
      obtain ⟨entries, hentries, hmem⟩ := mem_shapes_of_route? hroute
      rw [hshapes] at hentries
      cases hshape.symm.trans hentries
      rcases A.named key route hroute with ⟨-, hname⟩ | ⟨hnot, -⟩
      · exact hname
      · exact absurd (hprocessed.mem_keys hmem hkey) hnot
    · refine A.others other hother ?_
      exact (H.named other hother).congr rfl (lastName?_visit_of_ne "" hother)
  · refine (H.routers router ?_).congr hshapes
    rwa [assignRouteContracts, (assignRoutes_frame ..).1] at hmem
  · refine (H.sources root ?_ source hsource).congr hshapes
    rwa [assignRouteContracts, (assignRoutes_frame ..).2] at hmem

theorem Sound.push (H : h.Sound) {router : Router} (hrouter : h.Held router) :
    Sound { h with routers := h.routers ++ [router] } := { H with
  routers other hmem := by
    rcases List.mem_append.mp hmem with hmem | hmem
    · exact H.routers other hmem
    · cases List.mem_singleton.mp hmem
      exact hrouter }

theorem Pending.create {object : Nat} {routes : OrdMap String Route} (H : h.Pending object routes)
    {duplicateMeta : Bool} {after : Routers} {router? : Option Router}
    (hcreate : h.create object routes duplicateMeta = some (after, router?)) :
    after.Sound ∧ after.shapes = h.shapes ∧ after.roots = h.roots := by
  unfold Routers.create at hcreate
  split at hcreate
  · cases hcreate
  · rename_i prototype contracts hprocess
    obtain ⟨hsound, hshapes, hmirrors⟩ := H.assign hprocess
    have hroots : (h.assignRouteContracts object { prototype, routes := contracts }).roots =
      h.roots := (assignRoutes_frame ..).2
    dsimp only at hcreate
    split at hcreate
    · cases hcreate
      exact ⟨hsound, hshapes, hroots⟩
    · cases hcreate
      refine ⟨hsound.push ⟨shape routes, ?_, hshapes.symm ▸ hmirrors⟩, hshapes, hroots⟩
      rw [hshapes, getElem?_shapes, H.object?]
      rfl

/-! ### Routes objects that come up -/

theorem shapes_allocate (routes : OrdMap String Route) :
    (h.allocate routes).shapes = h.shapes ++ [shape routes] := List.map_append ..

theorem Held.allocate {router : Router} (H : h.Held router) (routes : OrdMap String Route) :
    (h.allocate routes).Held router := by
  obtain ⟨entries, hentries, hmirrors⟩ := H
  refine ⟨entries, ?_, ?_⟩
  · rw [shapes_allocate, List.getElem?_append_left (List.getElem?_eq_some_iff.mp hentries).1]
    exact hentries
  · rw [shapes_allocate]
    exact hmirrors.append _

theorem Held.lt {router : Router} (H : h.Held router) : router.routes < h.objects.length := by
  obtain ⟨entries, hentries, -⟩ := H
  have hlt := (List.getElem?_eq_some_iff.mp hentries).1
  rwa [shapes, List.length_map] at hlt

theorem route?_allocate {routes : OrdMap String Route} {object : Nat} {key : String} {route : Route}
    (hroute : (h.allocate routes).route? object key = some route) :
    h.route? object key = some route ∨
      (object = h.objects.length ∧ routes.get? key = some route) := by
  obtain ⟨found, hobject, hget⟩ := route?_eq_some.mp hroute
  rcases getElem?_concat_iff.mp hobject with hold | ⟨rfl, rfl⟩
  · exact .inl (route?_eq_some.mpr ⟨found, hold, hget⟩)
  · exact .inr ⟨rfl, hget⟩

theorem Sound.allocate (H : h.Sound) {routes : OrdMap String Route} (hroutes : h.AllHeld routes) :
    (h.allocate routes).Pending h.objects.length routes where
  ranked := by
    rw [shapes_allocate]
    intro object entries hentries key child hmem
    rcases Nat.lt_or_ge object h.shapes.length with hlt | hge
    · rw [List.getElem?_append_left hlt] at hentries
      exact H.ranked object entries hentries key child hmem
    · rw [List.getElem?_append_right hge, List.getElem?_singleton] at hentries
      split at hentries
      · cases hentries
        obtain ⟨route, hget, hchild⟩ := mem_shape.mp hmem
        cases route with
        | procedure _ _ => cases hchild
        | router router =>
          cases hchild
          have hlt := (hroutes key _ hget router rfl).lt
          rw [shapes, List.length_map] at hge
          exact Nat.lt_of_lt_of_le hlt hge
      · cases hentries
  holds object key router hroute := by
    rcases route?_allocate hroute with hold | ⟨-, hget⟩
    · exact (H.holds object key router hold).allocate routes
    · exact (hroutes key _ hget router rfl).allocate routes
  named other hne key route hroute hkey := by
    rcases route?_allocate hroute with hold | ⟨heq, -⟩
    · exact H.named other key route hold hkey
    · exact absurd heq hne
  routers router hmem := (H.routers router hmem).allocate routes
  sources root hmem source hsource := (H.sources root hmem source hsource).allocate routes
  object? := List.getElem?_concat_length ..

theorem Sound.resolve (H : h.Sound) {source : RouteSource} {router : Router}
    (hresolve : h.resolve source = some (.router router)) : h.Held router := by
  cases source with
  | procedure procedure => cases hresolve
  | router made =>
    obtain ⟨_, hmade, heq⟩ := Option.map_eq_some_iff.mp hresolve
    cases heq
    exact H.routers router (List.mem_of_getElem? hmade)
  | entry object key => exact H.holds object key router hresolve

theorem Sound.resolveRouter (H : h.Sound) {source : RouteSource} {router : Router}
    (hresolve : h.resolveRouter source = some router) : h.Held router := by
  unfold Routers.resolveRouter at hresolve
  split at hresolve
  · rename_i hroute
    cases hresolve
    exact H.resolve hroute
  · cases hresolve

theorem Sound.literal (H : h.Sound) {sources : List (String × RouteSource)}
    {routes : OrdMap String Route} (hliteral : h.literal sources = some routes) :
    h.AllHeld routes := by
  refine Trace.foldlM_option_inv (I := h.AllHeld)
    (fun routes source routes' hroutes heq => ?_) .empty hliteral
  obtain ⟨route, hresolve, rfl⟩ := Option.map_eq_some_iff.mp heq
  refine hroutes.set fun router hrouter => ?_
  subst hrouter
  exact H.resolve hresolve

theorem allHeld_mergeRoutes {entries : List (String × Route)} {routes merged : OrdMap String Route}
    (hroutes : h.AllHeld routes)
    (hentries : ∀ key router, (key, Route.router router) ∈ entries → h.Held router)
    (hmerge : mergeRoutes routes entries = some merged) : h.AllHeld merged := by
  induction entries generalizing routes with
  | nil =>
    cases hmerge
    exact hroutes
  | cons entry entries ih =>
    obtain ⟨name, route⟩ := entry
    rw [mergeRoutes] at hmerge
    split at hmerge
    · cases hmerge
    · refine ih (hroutes.set fun router hrouter => ?_)
        (fun key router hmem => hentries key router (List.mem_cons_of_mem _ hmem)) hmerge
      subst hrouter
      exact hentries name router List.mem_cons_self

theorem Sound.onCreateRootRouter (H : h.Sound) {sources : List Router}
    (hsources : ∀ source ∈ sources, h.Held source) : (h.onCreateRootRouter sources).Sound := by
  unfold Routers.onCreateRootRouter
  dsimp only
  split
  · exact H
  · rename_i routes hmerge
    have hroutes : h.AllHeld routes := by
      refine allHeld_mergeRoutes .empty (fun key router hmem => ?_) hmerge
      obtain ⟨source, hsource, hentry⟩ := List.mem_flatMap.mp hmem
      cases hobject : h.object? source.routes with
      | none =>
        rw [hobject] at hentry
        cases hentry
      | some found =>
        rw [hobject] at hentry
        exact H.holds source.routes key router
          (route?_eq_some.mpr ⟨found, hobject, mem_ownEntries.mp hentry⟩)
    split
    · rename_i after router hcreate
      obtain ⟨hsound, hshapes, -⟩ := (H.allocate hroutes).create hcreate
      refine { hsound with sources := fun root hmem source hsource => ?_ }
      rcases List.mem_append.mp hmem with hmem | hmem
      · exact hsound.sources root hmem source hsource
      · cases List.mem_singleton.mp hmem
        exact ((hsources source hsource).allocate routes).congr hshapes
    · exact H

theorem Sound.step (H : h.Sound) (call : RouterCall) : (h.step call).Sound := by
  cases call with
  | createRouter sources duplicateMeta =>
    cases hliteral : h.literal sources with
    | none => rwa [Routers.step, hliteral]
    | some routes =>
      rw [Routers.step, hliteral]
      dsimp only
      cases hcreate : (h.allocate routes).create h.objects.length routes duplicateMeta with
      | none => exact H
      | some made => exact ((H.allocate (H.literal hliteral)).create hcreate).1
  | createRouterOf object duplicateMeta =>
    cases hobject : h.object? object with
    | none => rwa [Routers.step, hobject]
    | some routes =>
      have hpending : h.Pending object routes := { H with
        named := fun other _ => H.named other
        object? := hobject }
      rw [Routers.step, hobject]
      dsimp only
      cases hcreate : h.create object routes duplicateMeta with
      | none => exact H
      | some made => exact (hpending.create hcreate).1
  | createRootRouter sources =>
    cases hrouters : sources.mapM h.resolveRouter with
    | none => rwa [Routers.step, hrouters]
    | some routers =>
      rw [Routers.step, hrouters]
      exact H.onCreateRootRouter
        (Trace.forall_mem_of_mapM (fun _ _ hresolve => H.resolveRouter hresolve) hrouters)

theorem sound_new : Sound {} where
  ranked _ _ h := by cases h
  holds _ _ _ h := by cases h
  named _ _ _ h := by cases h
  routers _ h := by cases h
  sources _ h := by cases h

theorem sound_run (calls : List RouterCall) : (Trace.run step {} calls).Sound :=
  Trace.run_inv step (P := fun _ => True) (fun _ call _ H => H.step call) (fun _ _ => trivial)
    sound_new

/-! ## Registration -/

/-- The procedures of one route. -/
def OccursAt (h : Routers) (router : Router) (path : List Router) (way : List String) :
    String × Route → Occurrence → Prop
  | (key, .procedure procedure name), o =>
    o = { way, key, object := router.routes, procedure, name, path := path ++ [router] }
  | (key, .router nested), o => Occurs h nested (path ++ [router]) (way ++ [key]) o

theorem mem_entries_iff {object : Nat} {key : String} {route : Route} :
    (key, route) ∈ ownEntries ((h.object? object).getD .empty) ↔
      h.route? object key = some route := by
  unfold route?
  cases h.object? object with
  | none => exact iff_of_false List.not_mem_nil (by simp)
  | some routes => exact mem_ownEntries

theorem occurs_iff {router : Router} {path : List Router} {way : List String} {o : Occurrence} :
    Occurs h router path way o ↔
      ∃ entry ∈ ownEntries ((h.object? router.routes).getD .empty),
        h.OccursAt router path way entry o := by
  constructor
  · intro H
    cases H with
    | procedure hroute => exact ⟨_, mem_entries_iff.mpr hroute, rfl⟩
    | nested hroute H => exact ⟨_, mem_entries_iff.mpr hroute, H⟩
  · rintro ⟨⟨key, route⟩, hmem, H⟩
    cases route with
    | procedure procedure name =>
      cases H
      exact .procedure (mem_entries_iff.mp hmem)
    | router nested => exact .nested (mem_entries_iff.mp hmem) H

/-- The table gets the procedures of `P` under their names. -/
def Registers (tables after : ApiTables) (P : Occurrence → Prop) : Prop :=
  ∀ name registered, after.procedures.get? name = some registered ↔
    tables.procedures.get? name = some registered ∨
      ∃ o, P o ∧ o.name = name ∧ registered = { procedure := o.procedure, path := o.path }

/-- Every key on the way to the procedures of `P` is a route key. -/
def Keyed (P : Occurrence → Prop) : Prop :=
  ∀ o, P o → isRouteKey o.key = true ∧ ∀ key ∈ o.way, isRouteKey key = true

theorem registers_set {tables : ApiTables} {name : String} {registered : Registered}
    {o : Occurrence} (hnew : tables.procedures.get? name = none) (hname : o.name = name)
    (hregistered : registered = { procedure := o.procedure, path := o.path }) :
    Registers tables { tables with procedures := tables.procedures.set name registered }
      (· = o) := by
  intro other found
  rw [OrdMap.get?_set]
  split
  · rename_i heq
    subst heq
    rw [hnew]
    constructor
    · rintro ⟨⟩
      exact .inr ⟨o, rfl, hname, hregistered⟩
    · rintro (h | ⟨_, rfl, -, rfl⟩)
      · cases h
      · rw [hregistered]
  · rename_i hne
    refine (or_iff_left ?_).symm
    rintro ⟨_, rfl, heq, -⟩
    exact hne (heq.symm.trans hname)

theorem registerRouter_spec (fuel : Nat) {router : Router} {path : List Router}
    {way : List String} {tables after : ApiTables}
    (hway : ∀ key ∈ way, isRouteKey key = true)
    (hok : h.registerRouter fuel router path tables = some after) :
    Registers tables after (Occurs h router path way) ∧ Keyed (Occurs h router path way) := by
  induction fuel generalizing router path way tables after with
  | zero => cases hok
  | succ fuel ih =>
    have hroute : ∀ tables entry after,
        registerRoute (h.registerRouter fuel) router path tables entry = some after →
        Registers tables after (h.OccursAt router path way entry) ∧
          Keyed (h.OccursAt router path way entry) := by
      intro tables entry after hentry
      obtain ⟨key, route⟩ := entry
      cases route with
      | procedure procedure name =>
        rw [registerRoute] at hentry
        split at hentry
        · cases hentry
        · rename_i hguard
          rw [not_or, not_or, Bool.not_eq_false, Option.not_isSome_iff_eq_none] at hguard
          cases hentry
          refine ⟨registers_set hguard.2.2 rfl rfl, ?_⟩
          rintro o rfl
          exact ⟨hguard.1, hway⟩
      | router nested =>
        rw [registerRoute] at hentry
        split at hentry
        · cases hentry
        · rename_i hguard
          rw [not_or, Bool.not_eq_false] at hguard
          have hkeys : ∀ other ∈ way ++ [key], isRouteKey other = true := by
            intro other hmem
            rcases List.mem_append.mp hmem with hmem | hmem
            · exact hway other hmem
            · exact List.mem_singleton.mp hmem ▸ hguard.1
          have hspec := ih hkeys hentry
          exact hspec
    constructor
    · intro name registered
      have hadds := Trace.foldlM_option_adds
        (Q := fun tables : ApiTables => tables.procedures.get? name = some registered)
        (fun tables entry after hentry => (hroute tables entry after hentry).1 name registered) hok
      refine hadds.trans (or_congr_right ?_)
      constructor
      · rintro ⟨entry, hmem, o, ho, hname⟩
        exact ⟨o, occurs_iff.mpr ⟨entry, hmem, ho⟩, hname⟩
      · rintro ⟨o, ho, hname⟩
        obtain ⟨entry, hmem, ho⟩ := occurs_iff.mp ho
        exact ⟨entry, hmem, o, ho, hname⟩
    · intro o ho
      obtain ⟨entry, hmem, ho⟩ := occurs_iff.mp ho
      exact Trace.foldlM_option_forall (fun tables entry after hentry =>
        (hroute tables entry after hentry).2) hok entry hmem o ho

theorem registerApi_spec {root : Router} {sources : List Router} {tables : ApiTables}
    (hok : h.registerApi root sources = some tables) :
    Registers {} tables (fun o => ∃ source ∈ sources, Occurs h source [root] [] o) ∧
      Keyed (fun o => ∃ source ∈ sources, Occurs h source [root] [] o) := by
  have hsource : ∀ tables source after, h.registerRouter (source.routes + 1) source [root]
      { tables with routers := tables.routers ++ [source.contract.name] } = some after →
      Registers tables after (Occurs h source [root] []) ∧ Keyed (Occurs h source [root] []) := by
    intro tables source after hentry
    have hway : ∀ key ∈ ([] : List String), isRouteKey key = true := fun _ h => by cases h
    have hspec := registerRouter_spec _ hway hentry
    exact hspec
  constructor
  · intro name registered
    have hadds := Trace.foldlM_option_adds
      (Q := fun tables : ApiTables => tables.procedures.get? name = some registered)
      (fun tables source after hentry => (hsource tables source after hentry).1 name registered) hok
    refine hadds.trans (or_congr_right ?_)
    constructor
    · rintro ⟨source, hmem, o, ho, hname⟩
      exact ⟨o, ⟨source, hmem, ho⟩, hname⟩
    · rintro ⟨o, ⟨source, hmem, ho⟩, hname⟩
      exact ⟨source, hmem, o, ho, hname⟩
  · rintro o ⟨source, hmem, ho⟩
    exact Trace.foldlM_option_forall (fun tables source after hentry =>
      (hsource tables source after hentry).2) hok source hmem o ho

/-! ## Names and keys -/

theorem isRouteKey_ne {key : String} (h : isRouteKey key = true) : key ≠ "" :=
  of_decide_eq_true (Bool.and_eq_true_iff.mp h).1

theorem isRouteKey_separate {key : String} (h : isRouteKey key = true) : Separate '/' key := by
  intro hmem
  have hall := List.all_eq_true.mp (Bool.and_eq_true_iff.mp h).2 '/' hmem
  revert hall
  decide

theorem joinKeys_concat {way : List String} {key : String}
    (hway : ∀ key ∈ way, isRouteKey key = true) :
    joinKeys (way ++ [key]) = concatFullName (joinKeys way) key := by
  unfold joinKeys concatFullName
  rcases List.eq_nil_or_concat way with rfl | ⟨rest, last, rfl⟩
  · rw [List.nil_append, String.intercalate_singleton, String.intercalate_nil, if_pos rfl]
  · rw [List.concat_eq_append] at hway ⊢
    have hlast := isRouteKey_ne (hway last (List.mem_append_right _ List.mem_cons_self))
    have hne : "/".intercalate (rest ++ [last]) ≠ "" := by
      by_cases hrest : rest = []
      · subst hrest
        rwa [List.nil_append, String.intercalate_singleton]
      · rw [String.intercalate_append_of_ne_nil hrest (List.cons_ne_nil _ _)]
        simp
    rw [if_neg hne, String.intercalate_append_of_ne_nil (by simp) (List.cons_ne_nil _ _),
      String.intercalate_singleton]

/-- The name of a route gives the name it was made under. -/
theorem concatFullName_inj {name name' key key' : String} (hkey : isRouteKey key = true)
    (hkey' : isRouteKey key' = true) (h : concatFullName name key = concatFullName name' key') :
    name = name' := by
  have hjoin (name key : String) : name ++ "/" ++ key = name ++ String.singleton '/' ++ key := rfl
  have hslash (name key : String) : ¬Separate '/' (name ++ "/" ++ key) := by
    intro h
    exact h (by simp)
  unfold concatFullName at h
  split at h <;> split at h
  · rename_i h₁ h₂
    rw [h₁, h₂]
  · exact absurd (h ▸ isRouteKey_separate hkey) (hslash _ _)
  · exact absurd (h ▸ isRouteKey_separate hkey') (hslash _ _)
  · rw [hjoin, hjoin] at h
    exact (join_inj_right (isRouteKey_separate hkey) (isRouteKey_separate hkey') h).1

theorem route?_of_occurs {router : Router} {path : List Router} {way : List String}
    {o : Occurrence} (H : Occurs h router path way o) :
    h.route? o.object o.key = some (.procedure o.procedure o.name) := by
  induction H with
  | procedure hroute => exact hroute
  | nested _ _ ih => exact ih

/-- The last router of the path is the one whose routes object holds the procedure. -/
theorem path_of_occurs {router : Router} {path : List Router} {way : List String}
    {o : Occurrence} (H : Occurs h router path way o) :
    o.path.getLast?.map (·.routes) = some o.object := by
  induction H with
  | procedure _ =>
    rw [List.getLast?_concat]
    rfl
  | nested _ _ ih => exact ih

theorem Sound.name_of_occurs (H : h.Sound) {router : Router} {path : List Router}
    {way : List String} {o : Occurrence} (ho : Occurs h router path way o)
    (hkey : isRouteKey o.key = true) :
    ∃ name, h.lastName? o.object = some name ∧ o.name = concatFullName name o.key := by
  refine H.named o.object o.key _ (route?_of_occurs ho) ?_
  rintro heq
  rw [heq] at hkey
  exact absurd hkey (by decide)

/-- When the application accepts the routes, its table is right if and only if each routes object
with a procedure was last reached by the calls under the keys that lead to it. -/
theorem registered_right_iff (calls : List RouterCall) {root : Router} {sources : List Router}
    {tables : ApiTables}
    (hok : (Trace.run step {} calls).registerApi root sources = some tables) :
    RoutesRight (Trace.run step {} calls) root sources tables ↔
      LastReached (Trace.run step {} calls) root sources := by
  have H := sound_run calls
  obtain ⟨hregisters, hkeyed⟩ := registerApi_spec hok
  constructor
  · intro hright source hsource o ho
    obtain ⟨hkey, hway⟩ := hkeyed o ⟨source, hsource, ho⟩
    obtain ⟨name, hlast, -⟩ := H.name_of_occurs ho hkey
    have hjoined := (hright _ _).mpr ⟨source, hsource, o, ho, rfl, rfl⟩
    rcases (hregisters _ _).mp hjoined with hnone | ⟨other, hother, hname, hregistered⟩
    · cases hnone
    · obtain ⟨source', hsource', ho'⟩ := hother
      obtain ⟨hkey', -⟩ := hkeyed other ⟨source', hsource', ho'⟩
      obtain ⟨name', hlast', hname'⟩ := H.name_of_occurs ho' hkey'
      have hobject : other.object = o.object := by
        have hpath : other.path = o.path := (Registered.mk.inj hregistered).2.symm
        have hlast := path_of_occurs ho'
        rw [hpath, path_of_occurs ho] at hlast
        exact (Option.some.inj hlast).symm
      rw [hobject] at hlast'
      cases hlast.symm.trans hlast'
      rw [hname, joinKeys_concat hway] at hname'
      rw [hlast, ← concatFullName_inj hkey hkey' hname']
  · intro hlast name registered
    have hname : ∀ source ∈ sources, ∀ o, Occurs (Trace.run step {} calls) source [root] [] o →
        o.name = joinKeys (o.way ++ [o.key]) := by
      intro source hsource o ho
      obtain ⟨hkey, hway⟩ := hkeyed o ⟨source, hsource, ho⟩
      obtain ⟨name, hfound, heq⟩ := H.name_of_occurs ho hkey
      cases (hlast source hsource o ho).symm.trans hfound
      rw [heq, joinKeys_concat hway]
    refine (hregisters name registered).trans ((or_iff_right (fun h => by cases h)).trans ?_)
    constructor
    · rintro ⟨o, ⟨source, hsource, ho⟩, rfl, hregistered⟩
      exact ⟨source, hsource, o, ho, hname source hsource o ho, hregistered⟩
    · rintro ⟨source, hsource, o, ho, rfl, hregistered⟩
      exact ⟨o, ⟨source, hsource, ho⟩, hname source hsource o ho, hregistered⟩

/-! ## A router under two parents -/

/-- A router with one procedure under a parent in a root router. -/
def nestedCalls : List RouterCall :=
  [.createRouter [("p", .procedure 0)] false, .createRouter [("x", .router 0)] false,
    .createRootRouter [.router 1]]

/-- The router is put under a second parent afterwards. -/
def sharedCalls : List RouterCall := nestedCalls ++ [.createRouter [("y", .router 0)] false]

theorem occurs_nested {source : Router} {path : List Router} {o : Occurrence}
    (hsource : ∀ entry ∈ ownEntries ((h.object? source.routes).getD .empty),
      entry.1 = "x" ∧ entry.2.child? = some 0)
    (hnested : ∀ entry ∈ ownEntries ((h.object? 0).getD .empty),
      entry.1 = "p" ∧ entry.2.child? = none)
    (ho : Occurs h source path [] o) : o.way = ["x"] ∧ o.key = "p" ∧ o.object = 0 := by
  obtain ⟨⟨key, route⟩, hmem, ho⟩ := occurs_iff.mp ho
  obtain ⟨rfl, hchild⟩ := hsource _ hmem
  cases route with
  | procedure procedure name => cases hchild
  | router nested =>
    have hroutes : nested.routes = 0 := Option.some.inj hchild
    obtain ⟨⟨key, route⟩, hmem, ho⟩ := occurs_iff.mp ho
    rw [hroutes] at hmem
    obtain ⟨rfl, hchild⟩ := hnested _ hmem
    cases route with
    | procedure procedure name =>
      cases ho
      exact ⟨rfl, rfl, hroutes⟩
    | router nested => cases hchild

theorem registered_right_nested : ∃ root ∈ (Trace.run step {} nestedCalls).roots, ∃ tables,
    (Trace.run step {} nestedCalls).registerApi root.1 root.2 = some tables ∧
      RoutesRight (Trace.run step {} nestedCalls) root.1 root.2 tables := by
  have haccepted : ∃ root ∈ (Trace.run step {} nestedCalls).roots,
      ((Trace.run step {} nestedCalls).registerApi root.1 root.2).isSome := by decide +kernel
  have hsources : ∀ root ∈ (Trace.run step {} nestedCalls).roots, ∀ source ∈ root.2,
      ∀ entry ∈ ownEntries (((Trace.run step {} nestedCalls).object? source.routes).getD .empty),
        entry.1 = "x" ∧ entry.2.child? = some 0 := by decide +kernel
  have hnested : ∀ entry ∈ ownEntries (((Trace.run step {} nestedCalls).object? 0).getD .empty),
      entry.1 = "p" ∧ entry.2.child? = none := by decide +kernel
  have hlast : (Trace.run step {} nestedCalls).lastName? 0 = some (joinKeys ["x"]) := by
    decide +kernel
  obtain ⟨root, hroot, hsome⟩ := haccepted
  obtain ⟨tables, hok⟩ := Option.isSome_iff_exists.mp hsome
  refine ⟨root, hroot, tables, hok, (registered_right_iff nestedCalls hok).mpr ?_⟩
  intro source hsource o ho
  obtain ⟨hway, -, hobject⟩ := occurs_nested (hsources root hroot source hsource) hnested ho
  rw [hway, hobject, hlast]

/-- The second parent renames the routes of the first: the application of the root router registers
`y/p`. -/
theorem renamed_by_second_parent : ∃ root ∈ (Trace.run step {} sharedCalls).roots, ∃ tables,
    (Trace.run step {} sharedCalls).registerApi root.1 root.2 = some tables ∧
      ¬RoutesRight (Trace.run step {} sharedCalls) root.1 root.2 tables := by
  have haccepted : ∃ root ∈ (Trace.run step {} sharedCalls).roots,
      (((Trace.run step {} sharedCalls).registerApi root.1 root.2).bind
        (·.procedures.get? "y/p")).isSome := by decide +kernel
  have hsources : ∀ root ∈ (Trace.run step {} sharedCalls).roots, ∀ source ∈ root.2,
      ∀ entry ∈ ownEntries (((Trace.run step {} sharedCalls).object? source.routes).getD .empty),
        entry.1 = "x" ∧ entry.2.child? = some 0 := by decide +kernel
  have hnested : ∀ entry ∈ ownEntries (((Trace.run step {} sharedCalls).object? 0).getD .empty),
      entry.1 = "p" ∧ entry.2.child? = none := by decide +kernel
  obtain ⟨root, hroot, hsome⟩ := haccepted
  obtain ⟨registered, hbind⟩ := Option.isSome_iff_exists.mp hsome
  obtain ⟨tables, hok, hget⟩ := Option.bind_eq_some_iff.mp hbind
  refine ⟨root, hroot, tables, hok, fun hright => ?_⟩
  obtain ⟨source, hsource, o, ho, hname, -⟩ := (hright _ _).mp hget
  obtain ⟨hway, hkey, -⟩ := occurs_nested (hsources root hroot source hsource) hnested ho
  rw [hway, hkey] at hname
  exact absurd hname (by decide +kernel)

end Routers

end Neemata.Application
