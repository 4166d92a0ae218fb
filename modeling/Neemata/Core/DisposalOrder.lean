import Neemata.Core.Edges
import Neemata.Core.DisposalInvariant

/-!
# The order of the dispose hooks

`Container.dispose` goes through the injectables of the container, dependants first. The walk that
finds the order follows the recorded dependants as far as they have instances: it loses what lies
behind a transient without a dispose hook, which is not entered, and it cannot be right where the
recorded dependants have a cycle. In every other case the hook of an instance is called after the
hooks of all the instances that depend on it have finished (`dependants_first`).
-/

namespace Neemata.Core

/-! ## The order -/

namespace Container

variable {ι : Type} [DecidableEq ι] {container : Container ι}

/-- `y` is a recorded dependant of `x`, and both have instances. -/
def Before (container : Container ι) (x y : ι) : Prop :=
  container.has x ∧ container.has y ∧ SetIndex.Tracks container.dependants x y

/-- No injectable is its own dependant, directly or through others. -/
def Acyclic (container : Container ι) : Prop := ∀ x, ¬ Relation.TransGen container.Before x x

theorem Acyclic.of_rank (rank : ι → Nat)
    (h : ∀ x y, SetIndex.Tracks container.dependants x y → rank x < rank y) :
    container.Acyclic := by
  have hrank : ∀ {x y : ι}, Relation.TransGen container.Before x y → rank x < rank y := by
    intro x y hxy
    induction hxy with
    | single hxy => exact h _ _ hxy.2.2
    | tail _ hyz ih => exact Nat.lt_trans ih (h _ _ hyz.2.2)
  exact fun x hx => Nat.lt_irrefl _ (hrank hx)

theorem has_of_mem {x : ι} {k : Nat} (h : k ∈ container.handlesOf x) : container.has x := by
  obtain ⟨handles, hget, -⟩ := (mem_handlesOf x).mp h
  rw [has, hget]
  rfl

theorem closed_getDisposalOrder (h : container.Acyclic) {before after : List ι} {x y : ι}
    (horder : container.getDisposalOrder = before ++ x :: after) (hxy : container.Before x y) :
    y ∈ before := by
  have hnext : ∀ x y, y ∈ (container.dependants.get? x).getD [] ↔
      SetIndex.Tracks container.dependants x y := by
    intro x y
    unfold SetIndex.Tracks
    cases container.dependants.get? x with
    | none => simp
    | some set => simp
  have hclosed : Walk.Closed (fun x => (container.dependants.get? x).getD []) container.has
      container.getDisposalOrder := by
    refine Walk.closed_postOrder_of_acyclic (fun x hx => ?_) fun x => ?_
    · refine h x (Relation.TransGen.mono (fun x y hxy => ?_) x x hx)
      exact ⟨hxy.1, hxy.2.1, (hnext x y).mp hxy.2.2⟩
    · rw [has, Option.isSome_iff_ne_none, ne_eq, OrdMap.get?_eq_none_iff, not_not]
  exact hclosed before x after horder y ((hnext x y).mpr hxy.2.2) hxy.2.1

/-- Dependants come first, also through others. -/
theorem before_getDisposalOrder (h : container.Acyclic) {x y : ι}
    (hxy : Relation.TransGen container.Before x y) {before after : List ι}
    (horder : container.getDisposalOrder = before ++ x :: after) : y ∈ before := by
  induction hxy with
  | single hxy => exact closed_getDisposalOrder h horder hxy
  | tail _ hyz ih =>
    obtain ⟨first, rest, rfl⟩ := List.append_of_mem ih
    rw [List.append_assoc, List.cons_append] at horder
    exact List.mem_append_left _ (closed_getDisposalOrder h horder hyz)

end Container

/-! ## The run of `Container.dispose` -/

namespace DisposalState

variable {ι : Type} [DecidableEq ι] {injectables : Injectables ι} {s : DisposalState ι}
  {container : Container ι} {done rest : List ι}

instance (s : DisposalState ι) (handle : Nat) : Decidable (s.Began handle) :=
  inferInstanceAs (Decidable (.disposal handle ∈ s.history))

/-- The hook of the instance has been called, and nothing waits for it. -/
def Finished (s : DisposalState ι) (x : ι) (handle : Nat) : Prop :=
  s.Began handle ∧ ∀ disposal ∈ s.disposals, disposal.engaged ≠ some x

/-- `Container.dispose` has gone through `done`. -/
structure Passed (container : Container ι) (done rest : List ι) (s : DisposalState ι) : Prop where
  instances : ∀ x ∈ rest, s.container.instances.get? x = container.instances.get? x
  began : ∀ handle, s.Began handle ↔ ∃ x ∈ done, handle ∈ container.handlesOf x

/-- Where `Container.dispose` waits. -/
inductive Waits : List ι → List ι → Disposal ι → Prop
  | order (done rest : List ι) (x : ι) : Waits (done ++ [x]) rest (.order (some x) rest)
  | skip (done rest : List ι) : Waits done rest (.order none rest)
  | settled (done : List ι) : Waits done [] .settled

omit [DecidableEq ι] in
theorem Waits.getLast? {disposal : Disposal ι} (h : Waits done rest disposal) {x : ι}
    (hx : disposal.engaged = some x) : done.getLast? = some x := by
  cases h with
  | order done rest y => rw [List.getLast?_concat, ← hx]; rfl
  | skip | settled => cases hx

/-- `Container.dispose`, on its way through the order. -/
def Sweeps (container : Container ι) (order : List ι) (s : DisposalState ι) : Prop :=
  ∃ done rest disposal, order = done ++ rest ∧ Passed container done rest s ∧
    s.disposals = [disposal] ∧ Waits done rest disposal

theorem Passed.sweep (h : Passed container done rest s) {disposal : Disposal ι}
    (hdisposals : s.disposals = [disposal]) : Sweeps container (done ++ rest) (s.sweep 0 rest) := by
  unfold DisposalState.sweep
  cases rest with
  | nil =>
    refine ⟨done, [], .settled, rfl, ⟨fun _ hx => (by cases hx), fun k => ?_⟩, ?_, .settled done⟩
    · rw [← h.began]
      simp [Began]
    · simp [setDisposal, hdisposals]
  | cons x rest =>
    have hget := h.instances x List.mem_cons_self
    dsimp only
    cases hhandles : s.container.instances.get? x with
    | none =>
      refine ⟨done ++ [x], rest, .order none rest, by simp, ⟨?_, fun k => ?_⟩, ?_, .skip _ _⟩
      · exact fun y hy => h.instances y (List.mem_cons_of_mem x hy)
      · have hnone : container.handlesOf x = [] := by
          rw [Container.handlesOf, ← hget, hhandles]
          rfl
        refine (h.began k).trans ?_
        simp [or_and_right, exists_or, hnone]
      · simp [setDisposal, hdisposals]
    | some handles =>
      refine ⟨done ++ [x], rest, .order (some x) rest, by simp, ⟨?_, fun k => ?_⟩, ?_, .order _ _ _⟩
      · exact fun y hy => h.instances y (List.mem_cons_of_mem x hy)
      · have hx : container.handlesOf x = handles :=
          Container.handlesOf_of_get? (hget.symm.trans hhandles)
        have hbegan : ((s.disposeHandles handles).setDisposal 0 (.order (some x) rest)).Began k ↔
            s.Began k ∨ k ∈ handles := by
          simp [Began, disposeHandles, setDisposal]
        rw [hbegan, h.began]
        simp [or_and_right, exists_or, hx]
      · simp [setDisposal, disposeHandles, hdisposals]

theorem Sweeps.resume {order : List ι} (h : Sweeps container order s) (hnodup : order.Nodup)
    (fails : Bool) : Sweeps container order (s.resume 0 fails) := by
  obtain ⟨done, rest, disposal, rfl, hpassed, hdisposals, hwaits⟩ := h
  have hget : s.disposals[0]? = some disposal := by rw [hdisposals]; rfl
  unfold DisposalState.resume
  rw [hget]
  cases hwaits with
  | order done rest x =>
    have hnew : x ∉ rest := by
      intro hmem
      have hdisjoint := List.disjoint_of_nodup_append hnodup
      exact hdisjoint (List.mem_append_right _ List.mem_cons_self) hmem
    have hremoved : Passed container (done ++ [x]) rest (s.removeInstances x) := by
      refine ⟨fun y hy => ?_, hpassed.began⟩
      dsimp only [removeInstances]
      rw [OrdMap.get?_erase, if_neg (ne_of_mem_of_not_mem hy hnew)]
      exact hpassed.instances y hy
    exact hremoved.sweep hdisposals
  | skip done rest => exact hpassed.sweep hdisposals
  | settled done => exact ⟨done, [], .settled, rfl, hpassed, hdisposals, .settled done⟩

/-- The run of `Container.dispose`: each event is the end of the hooks it waits for. -/
theorem sweeps_run {s : DisposalState ι} (hdisposals : s.disposals = []) (hhistory : s.history = [])
    (hpending : s.container.pending = []) (fails : List Bool) :
    Sweeps s.container s.container.getDisposalOrder
      (Trace.run (step injectables) s (.disposeContainer :: fails.map (.resume 0 ·))) := by
  have hstart : Sweeps s.container s.container.getDisposalOrder s.disposeContainer := by
    unfold disposeContainer settlePending
    rw [hdisposals]
    dsimp only
    rw [if_pos hpending]
    have hpassed : Passed s.container [] s.container.getDisposalOrder
        { s with
          disposals := [.settled]
          container := { s.container with disposing := true } } :=
      ⟨fun _ _ => rfl, fun k => by simp [Began, hhistory]⟩
    exact hpassed.sweep rfl
  have hnodup : s.container.getDisposalOrder.Nodup := Walk.nodup_postOrder _
  rw [Trace.run_cons]
  refine Trace.run_inv (P := fun event => ∃ fails, event = .resume 0 fails) (step injectables)
    ?_ (fun event hevent => ?_) hstart
  · rintro s _ ⟨fails, rfl⟩ h
    exact h.resume hnodup fails
  · obtain ⟨fails, -, rfl⟩ := List.mem_map.mp hevent
    exact ⟨fails, rfl⟩

/-- What stands before an injectable whose hooks have been called has finished. -/
theorem Sweeps.finished (h : Sweeps container container.getDisposalOrder s) {x y : ι} {i j : Nat}
    (hbefore : ∀ before after, container.getDisposalOrder = before ++ x :: after → y ∈ before)
    (hi : ∀ z, i ∈ container.handlesOf z → z = x) (hj : j ∈ container.handlesOf y)
    (hbegan : s.Began i) : s.Finished y j := by
  obtain ⟨done, rest, disposal, horder, hpassed, hdisposals, hwaits⟩ := h
  obtain ⟨z, hz, hiz⟩ := (hpassed.began i).mp hbegan
  obtain rfl := hi z hiz
  obtain ⟨first, later, rfl⟩ := List.append_of_mem hz
  have hy : y ∈ first := by
    refine hbefore first (later ++ rest) ?_
    rw [horder, List.append_assoc, List.cons_append]
  refine ⟨(hpassed.began j).mpr ⟨y, List.mem_append_left _ hy, hj⟩, ?_⟩
  rw [hdisposals]
  intro waiting hmem hengaged
  rw [List.mem_singleton.mp hmem] at hengaged
  have hlast := hwaits.getLast? hengaged
  rw [List.getLast?_append_of_ne_nil _ (List.cons_ne_nil z later)] at hlast
  have hnodup : container.getDisposalOrder.Nodup := Walk.nodup_postOrder _
  rw [horder] at hnodup
  have hdisjoint := List.disjoint_of_nodup_append (List.nodup_append.mp hnodup).1
  exact hdisjoint hy (List.mem_of_getLast? hlast)

end DisposalState

/-! ## Dependants in a tree -/

namespace Tree

variable {ι : Type} [DecidableEq ι] {injectables : Injectables ι} {family : Family ι} {t : Tree ι}

/-- The first instance was created from the second one. -/
def DependsOn (t : Tree ι) (j i : Nat) : Prop :=
  ∃ e, t.handles[j]? = some e ∧ .instance i ∈ e.context

/-- An instance of `x` with a dispose hook that the container owns. -/
def Hooked (injectables : Injectables ι) (t : Tree ι) (c : Nat) (x : ι) (i : Nat) : Prop :=
  injectables.hasDispose x ∧ ∃ context, t.handles[i]? = some ⟨c, x, context⟩

/-- The instance is not one of a transient without a dispose hook. -/
def Tracked (injectables : Injectables ι) (t : Tree ι) (i : Nat) : Prop :=
  ∃ e, t.handles[i]? = some e ∧ Container.tracks injectables e.injectable

/-- What depends on an instance of the container through others does so through instances that are
entered. -/
def Unbroken (injectables : Injectables ι) (t : Tree ι) (c : Nat) : Prop :=
  ∀ x y i j, t.Hooked injectables c x i → t.Hooked injectables c y j →
    Relation.TransGen t.DependsOn j i → Relation.TransGen
      (fun j i => t.DependsOn j i ∧ t.Tracked injectables j ∧ t.Tracked injectables i) j i

/-- The container when `dispose` is called. -/
def disposal (t : Tree ι) (c : Nat) : DisposalState ι where
  container := t.containers c
  handles := t.handles.zipIdx.map fun (e, handle) =>
    { injectable := e.injectable, publicInstance := some handle }

/-- A hook has been called only after the hooks of all instances of the container that depend on its
instance have finished. -/
def DependantsFirst (injectables : Injectables ι) (t : Tree ι) (c : Nat) (s : DisposalState ι) :
    Prop :=
  ∀ x y i j, t.Hooked injectables c x i → t.Hooked injectables c y j →
    Relation.TransGen t.DependsOn j i → s.Began i → s.Finished y j

omit [DecidableEq ι] in
theorem Above.le {c o : Nat} (h : Above family c o) : o ≤ c := by
  induction h with
  | refl => exact Nat.le_refl c
  | tail _ hparent ih => exact Nat.le_of_lt (Nat.lt_of_lt_of_le (family.rooted _ _ hparent) ih)

theorem Traced.dependsOn (h : Traced family t) {i j : Nat} (hji : t.DependsOn j i)
    {e : TreeHandle ι} (he : t.handles[j]? = some e) :
    ∃ e', t.handles[i]? = some e' ∧ Above family e.container e'.container ∧
      t.Edge e'.container e'.injectable e.injectable := by
  obtain ⟨e₀, he₀, hmem⟩ := hji
  obtain rfl : e = e₀ := Option.some.inj (he.symm.trans he₀)
  obtain ⟨o, x, ⟨context, hi⟩, habove, hedge⟩ :=
    h.handles e (List.mem_of_getElem? he) _ hmem trivial
  exact ⟨⟨o, x, context⟩, hi, habove, hedge⟩

/-- An instance is owned by the container of its dependant or by an ancestor. -/
theorem Traced.above (h : Traced family t) {i j : Nat} (hji : Relation.TransGen t.DependsOn j i)
    {e e' : TreeHandle ι} (he : t.handles[j]? = some e) (he' : t.handles[i]? = some e') :
    Above family e.container e'.container := by
  induction hji generalizing e' with
  | single hji =>
    obtain ⟨e₁, he₁, habove, -⟩ := h.dependsOn hji he
    obtain rfl : e' = e₁ := Option.some.inj (he'.symm.trans he₁)
    exact habove
  | tail _ hki ih =>
    obtain ⟨ek, hk, -⟩ := id hki
    obtain ⟨e₁, he₁, habove, -⟩ := h.dependsOn hki hk
    obtain rfl : e' = e₁ := Option.some.inj (he'.symm.trans he₁)
    exact (ih hk).trans habove

theorem Entered.has (h : Entered injectables t) {i : Nat} {e : TreeHandle ι}
    (he : t.handles[i]? = some e) (htracked : t.Tracked injectables i) :
    (t.containers e.container).has e.injectable := by
  obtain ⟨e₀, he₀, htracks⟩ := htracked
  obtain rfl : e = e₀ := Option.some.inj (he.symm.trans he₀)
  exact Container.has_of_mem (h i e he htracks)

/-- A chain of entered instances in one container is a chain of recorded dependants. -/
theorem Traced.before (h : Traced family t) (hentered : Entered injectables t) {c : Nat}
    {i j : Nat} {x y : ι} {context context' : List Value}
    (hji : Relation.TransGen
      (fun j i => t.DependsOn j i ∧ t.Tracked injectables j ∧ t.Tracked injectables i) j i)
    (hj : t.handles[j]? = some ⟨c, y, context⟩) (hi : t.handles[i]? = some ⟨c, x, context'⟩) :
    Relation.TransGen (t.containers c).Before x y := by
  have hbefore : ∀ {i j : Nat} {x y : ι} {context context' : List Value},
      t.DependsOn j i → t.Tracked injectables j → t.Tracked injectables i →
      t.handles[j]? = some ⟨c, y, context⟩ → t.handles[i]? = some ⟨c, x, context'⟩ →
      (t.containers c).Before x y := by
    intro i j x y context context' hji hjt hit hj hi
    obtain ⟨e, he, -, hedge⟩ := h.dependsOn hji hj
    obtain rfl : (⟨c, x, context'⟩ : TreeHandle ι) = e := Option.some.inj (hi.symm.trans he)
    exact ⟨hentered.has hi hit, hentered.has hj hjt, hedge⟩
  induction hji generalizing x context' with
  | single hji => exact .single (hbefore hji.1 hji.2.1 hji.2.2 hj hi)
  | @tail k i hjk hki ih =>
    obtain ⟨⟨ck, z, contextk⟩, hk, -⟩ := id hki.1
    have hchain : Relation.TransGen t.DependsOn j k :=
      Relation.TransGen.mono (fun _ _ hlink => hlink.1) j k hjk
    have hle : ck ≤ c := (h.above hchain hj hk).le
    have hge : c ≤ ck := (h.above (.single hki.1) hk hi).le
    obtain rfl : ck = c := Nat.le_antisymm hle hge
    exact .head (hbefore hki.1 hki.2.1 hki.2.2 hk hi) (ih hk)

/-- Without transients without a dispose hook every chain is unbroken. -/
theorem Traced.unbroken (h : Traced family t)
    (htracks : ∀ e ∈ t.handles, Container.tracks injectables e.injectable) (c : Nat) :
    t.Unbroken injectables c := by
  have htracked : ∀ {i : Nat} {e : TreeHandle ι}, t.handles[i]? = some e →
      t.Tracked injectables i :=
    fun he => ⟨_, he, htracks _ (List.mem_of_getElem? he)⟩
  refine fun x y i j _ _ hchain => Relation.TransGen.mono (fun j i hji => ?_) j i hchain
  obtain ⟨e, he, -⟩ := id hji
  obtain ⟨e', he', -⟩ := h.dependsOn hji he
  exact ⟨hji, htracked he, htracked he'⟩

/-- In every tree, once the resolutions of a container have settled, its `dispose` runs the hooks of
its instances dependants first, if the chains between them are unbroken and the recorded dependants
have no cycle. -/
theorem dependants_first (events : List (TreeEvent ι)) (c : Nat) (fails : List Bool)
    (hsettled :
      ((Trace.run (step injectables) family.tree events).containers c).pending = [])
    (hunbroken : (Trace.run (step injectables) family.tree events).Unbroken injectables c)
    (hacyclic : ((Trace.run (step injectables) family.tree events).containers c).Acyclic) :
    (Trace.run (step injectables) family.tree events).DependantsFirst injectables c
      (Trace.run (DisposalState.step injectables)
        ((Trace.run (step injectables) family.tree events).disposal c)
        (.disposeContainer :: fails.map (.resume 0 ·))) := by
  have htraced : Traced family (Trace.run (step injectables) family.tree events) :=
    traced_run events
  have hentered : Entered injectables (Trace.run (step injectables) family.tree events) :=
    entered_run events
  generalize Trace.run (step injectables) family.tree events = t at *
  rintro x y i j ⟨hx, context, hi⟩ ⟨hy, context', hj⟩ hchain hbegan
  have hsweeps : DisposalState.Sweeps (t.containers c) (t.containers c).getDisposalOrder
      (Trace.run (DisposalState.step injectables) (t.disposal c)
        (.disposeContainer :: fails.map (.resume 0 ·))) :=
    DisposalState.sweeps_run (s := t.disposal c) rfl rfl hsettled fails
  have hxy := htraced.before hentered (hunbroken x y i j ⟨hx, context, hi⟩ ⟨hy, context', hj⟩ hchain)
    hj hi
  refine hsweeps.finished (x := x) (fun before after => ?_) (fun z hz => ?_) ?_ hbegan
  · exact Container.before_getDisposalOrder hacyclic hxy
  · obtain ⟨_, hz⟩ := htraced.placed.instances c z i hz
    cases hi.symm.trans hz
    rfl
  · exact hentered j _ hj fun _ => hy

/-! ## Orders that are wrong -/

inductive Sample where
  | pool
  /-- A transient without a dispose hook, from the pool. -/
  | query
  | store
  | config
  | client
  /-- A transient with a dispose hook. -/
  | socket
  | transport
  | owner
deriving DecidableEq

def sample : Injectables Sample where
  definition
    | .pool | .config => { scope := .position .global, kind := .factory true }
    | .query =>
      { scope := .transient, kind := .factory false, dependencies := [{ injectable := .pool }] }
    | .store =>
      { scope := .position .global, kind := .factory true
        dependencies := [{ injectable := .query }] }
    | .client =>
      { scope := .position .global, kind := .factory true
        dependencies := [{ injectable := .config }, { injectable := .transport }] }
    | .socket =>
      { scope := .transient, kind := .factory true, dependencies := [{ injectable := .owner }] }
    | .transport | .owner => { scope := .position .global, kind := .lazy }
  rank
    | .pool | .config | .transport | .owner => 0
    | .query | .client | .socket => 1
    | .store => 2
  frozen x := by cases x <;> decide

/-- A container in which sockets are the transport, and a fork in which clients own the sockets. -/
def forked : Family Sample where
  scope _ := .global
  parent c := if c = 1 then some 0 else none
  provisions c :=
    if c = 1 then OrdMap.empty.set .owner (.aliasOf .client)
    else (OrdMap.empty.set .owner (.value 0)).set .transport (.aliasOf .socket)
  rooted c p h := by
    split at h
    · cases h
      omega
    · cases h

/-- The end of a resolution. -/
def settle (r : Nat) : List (TreeEvent Sample) := [.context r, .create r true, .clear r]

def resolvesStore : List (TreeEvent Sample) :=
  .resolve 0 .store :: List.replicate 8 .tick ++ settle 0 ++ settle 1 ++ settle 2

def resolvesClient : List (TreeEvent Sample) :=
  .resolve 0 .client :: List.replicate 11 .tick ++ settle 0 ++ settle 1 ++ settle 2

def resolvesSocket : List (TreeEvent Sample) :=
  resolvesClient ++ .resolve 1 .socket :: List.replicate 6 .tick ++ settle 3

/-- A client is disposed before the configuration and the socket it depends on. -/
theorem dependants_first_of_client :
    let t := Trace.run (step sample) forked.tree resolvesClient
    t.DependantsFirst sample 0 (Trace.run (DisposalState.step sample) (t.disposal 0)
      [.disposeContainer, .resume 0 false, .resume 0 true, .resume 0 false]) := by
  refine dependants_first resolvesClient 0 [false, true, false] (by decide) ?_ ?_
  · refine (traced_run resolvesClient).unbroken (fun e he => ?_) 0
    have hhandles : ∀ e ∈ (Trace.run (step sample) forked.tree resolvesClient).handles,
        sample.isTransient e.injectable → sample.hasDispose e.injectable := by decide
    exact hhandles e he
  · refine Container.Acyclic.of_rank (fun x => if x = .client then 1 else 0) ?_
    rintro x y ⟨set, hget, hmem⟩
    cases x <;> cases hget <;> revert y <;> decide

/-- The store depends on the pool through a query, which is not entered: the hook of the pool is
called before the hook of the store. A client depends on a socket; that another socket depends on the
client makes a cycle: the hook of the first socket is called before the hook of the client. -/
theorem dependants_later :
    let run := Trace.run (step sample) forked.tree
    let dispose t := DisposalState.step sample (t.disposal 0) .disposeContainer
    ¬ (run resolvesStore).DependantsFirst sample 0 (dispose (run resolvesStore)) ∧
    ¬ (run resolvesSocket).DependantsFirst sample 0 (dispose (run resolvesSocket)) := by
  dsimp only
  refine ⟨fun h => ?_, fun h => ?_⟩
  · have hchain : Relation.TransGen
        (Trace.run (step sample) forked.tree resolvesStore).DependsOn 2 0 :=
      .tail (.single ⟨_, rfl, List.mem_singleton.mpr rfl⟩) ⟨_, rfl, List.mem_singleton.mpr rfl⟩
    have hbegan := (h .pool .store 0 2 ⟨rfl, _, rfl⟩ ⟨rfl, _, rfl⟩ hchain (by decide)).1
    exact absurd hbegan (by decide)
  · have hchain : Relation.TransGen
        (Trace.run (step sample) forked.tree resolvesSocket).DependsOn 2 1 :=
      .single ⟨_, rfl, by decide⟩
    have hbegan := (h .socket .client 1 2 ⟨rfl, _, rfl⟩ ⟨rfl, _, rfl⟩ hchain (by decide)).1
    exact absurd hbegan (by decide)

end Tree

end Neemata.Core
