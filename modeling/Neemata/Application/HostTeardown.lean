import Neemata.Application.Host
import Mathlib.Data.List.Perm.Basic
import Mathlib.Data.List.Nodup

/-!
# What the application host leaves behind

`Owes` accounts for every application that was constructed, every gateway that was started and every
teardown that a Start hook has returned: it is done with, or it is left to the teardowns that have
still to run. Between two calls the host is `Down` and owes nothing, or it is `Up` and owes what its
stack releases; `start`, `stop` and `reloadApplication` go from one to the other.
-/

namespace Neemata.Application

open Fallible
open Common (unwind ensures_unwind)

/-- The teardown of a Start hook. -/
def Service.id? : Service → Option Nat
  | .stopHooks => none
  | .teardown id => some id

namespace ApplicationHost

/-- Every application has been disposed, every gateway stopped and every teardown of a Start hook
run exactly once. -/
structure LeavesNothing (host : ApplicationHost) : Prop where
  applications : ∀ application < host.constructed, host.disposed.count application = 1
  gateways : ∀ gateway ∈ host.started, host.stopped.count gateway = 1
  teardowns : ∀ id < host.returned, host.ran.count id = 1

/-- The condition on a call: no application is lost by an `initialize` that throws, and a reload is
asked of a running host and comes as far as to replace the application. -/
def Fits (host : ApplicationHost) : ApplicationHostEvent → Prop
  | .start _ throws =>
    host.state = .idle → throws .construct = true ∨ throws .initialization = false
  | .reload throws =>
    host.application = none ∨
      (host.state = .running ∧ throws .dispose = false ∧ throws .construct = false ∧
        throws .initialization = false)
  | .stop _ => True

instance (host : ApplicationHost) : (event : ApplicationHostEvent) → Decidable (host.Fits event)
  | .start _ throws => inferInstanceAs (Decidable (_ → throws .construct = true ∨ _))
  | .reload throws => inferInstanceAs (Decidable (_ ∨ _ ∧ throws .dispose = false ∧ _ ∧ _))
  | .stop _ => isTrue trivial

/-- What is left to release by some teardowns, when some services are left of `appServices`. -/
structure Owes (host : ApplicationHost) (teardowns : List HostTeardown) (services : List Service) :
    Prop where
  applications : (host.disposed ++
    if .application ∈ teardowns then host.application.toList else []).Perm
      (List.range host.constructed)
  gateways : (host.stopped ++
    if .gateway ∈ teardowns then host.gateway.toList else []).Perm host.started
  hooks : (host.ran ++ services.filterMap Service.id?).Perm (List.range host.returned)
  application : .application ∈ teardowns → host.application.isSome = true
  gateway : .gateway ∈ teardowns → host.gateway.isSome = true
  nodup : host.started.Nodup
  lt : ∀ gateway ∈ host.started, gateway < host.gateways

/-- The host owes what its stack releases. -/
structure Holding (host : ApplicationHost) (stack : List HostTeardown) : Prop where
  nodup : stack.Nodup
  owes : host.Owes stack (if .services ∈ stack then host.services else [])

structure Down (host : ApplicationHost) : Prop where
  state : host.state = .idle
  stack : host.stack = []
  holding : host.Holding []

structure Up (host : ApplicationHost) : Prop where
  state : host.state = .running
  stack : host.stack = [.application, .services, .gateway]
  holding : host.Holding [.application, .services, .gateway]

variable {host : ApplicationHost} {throws : HostStep → Bool}

theorem Owes.leavesNothing (H : host.Owes [] []) : host.LeavesNothing := by
  obtain ⟨happlications, hgateways, hhooks, -, -, hnodup, -⟩ := H
  rw [if_neg List.not_mem_nil, List.append_nil] at happlications hgateways
  rw [List.filterMap_nil, List.append_nil] at hhooks
  refine ⟨fun application hlt => ?_, fun gateway hmem => ?_, fun id hlt => ?_⟩
  · rw [happlications.count_eq]
    exact List.count_eq_one_of_mem List.nodup_range (List.mem_range.mpr hlt)
  · rw [hgateways.count_eq]
    exact List.count_eq_one_of_mem hnodup hmem
  · rw [hhooks.count_eq]
    exact List.count_eq_one_of_mem List.nodup_range (List.mem_range.mpr hlt)

/-! ## Programs that only throw -/

section Frame

variable {P : ApplicationHost → Prop}

theorem ensures_perform (step : HostStep) (h : P host) :
    Ensures (perform throws step) host (fun _ => P) (fun _ => P) := by
  unfold perform
  split
  · exact h
  · exact h

theorem ensures_createTransports (h : P host) :
    Ensures (createTransports throws) host (fun _ => P) (fun _ => P) := by
  have hkeys (keys : List String) : ∀ host, P host →
      Ensures (keys.forM fun key => do
        perform throws (.transportOptions key)
        perform throws (.transportFactory key)) host (fun _ => P) (fun _ => P) := by
    induction keys with
    | nil =>
      intro host h
      exact ensures_pure.mpr h
    | cons key keys ih =>
      intro host h
      have hkey : Ensures (do
          perform throws (.transportOptions key)
          perform throws (.transportFactory key)) host (fun _ => P) (fun _ => P) :=
        (ensures_perform _ h).bind fun _ host h => ensures_perform _ h
      exact hkey.bind fun _ host h => ih host h
  exact hkeys host.transports host h

end Frame

/-! ## Teardowns -/

/-- A teardown leaves the stack of the lifecycle as it is. -/
theorem ensures_runTeardown_stack {stack : List HostTeardown} (h : host.stack = stack)
    (teardown : HostTeardown) :
    Ensures (runTeardown throws teardown) host (fun _ host => host.stack = stack)
      (fun _ host => host.stack = stack) := by
  have hservice (service : Service) (host : ApplicationHost) (h : host.stack = stack) :
      Ensures (runService throws service) host (fun _ host => host.stack = stack)
        (fun _ host => host.stack = stack) := by
    cases service with
    | stopHooks =>
      change Ensures (if throws .stopHooks = true then _ else _) host _ _
      split <;> exact h
    | teardown id =>
      refine ensures_bind.mpr (ensures_modify.mpr ?_)
      split <;> exact h
  cases teardown with
  | application =>
    refine ensures_bind.mpr (ensures_get.mpr ?_)
    cases host.application with
    | none => exact h
    | some application =>
      exact ensures_bind.mpr (ensures_modify.mpr (ensures_perform (P := (·.stack = stack)) _ h))
  | services =>
    have hunwind : Ensures (unwind (runService throws) host.services : Program HostError _) host
        (fun _ host => host.stack = stack) (fun _ host => host.stack = stack) :=
      ensures_unwind (P := fun _ host => host.stack = stack)
        (fun service _ host => hservice service host) h
    refine ensures_bind.mpr (ensures_get.mpr (hunwind.bind fun errors host h => ?_))
    cases errors with
    | nil => exact h
    | cons error errors => exact h
  | gateway =>
    refine ensures_bind.mpr (ensures_get.mpr ?_)
    cases host.gateway with
    | none => exact h
    | some gateway =>
      exact ensures_bind.mpr (ensures_modify.mpr (ensures_perform (P := (·.stack = stack)) _ h))

theorem perm_done {a : Nat} {l r : List Nat} (h : (l ++ [a]).Perm r) : (a :: l ++ []).Perm r := by
  rw [List.append_nil]
  exact (List.perm_append_comm : ([a] ++ l).Perm (l ++ [a])).trans h

theorem Owes.of_perm {teardowns teardowns' : List HostTeardown} {services services' : List Service}
    (H : host.Owes teardowns services) (hteardowns : teardowns'.Perm teardowns)
    (hservices : (services'.filterMap Service.id?).Perm (services.filterMap Service.id?)) :
    host.Owes teardowns' services' := by
  refine ⟨?_, ?_, (hservices.append_left host.ran).trans H.hooks, ?_, ?_, H.nodup, H.lt⟩
  · simpa only [hteardowns.mem_iff] using H.applications
  · simpa only [hteardowns.mem_iff] using H.gateways
  · simpa only [hteardowns.mem_iff] using H.application
  · simpa only [hteardowns.mem_iff] using H.gateway

/-- A service that runs is no longer owed, whether it throws or not. -/
theorem ensures_runService {teardowns : List HostTeardown} {services : List Service}
    {service : Service} (H : host.Owes teardowns (service :: services)) :
    Ensures (runService throws service) host (fun _ host => host.Owes teardowns services)
      (fun _ host => host.Owes teardowns services) := by
  cases service with
  | stopHooks =>
    have hrest : host.Owes teardowns services := H.of_perm (.refl _) (.refl _)
    change Ensures (if throws .stopHooks = true then _ else _) host _ _
    split
    · exact hrest
    · exact hrest
  | teardown id =>
    have hhooks : (id :: host.ran ++ services.filterMap Service.id?).Perm
        (List.range host.returned) := List.perm_middle.symm.trans H.hooks
    have hrest : { host with ran := id :: host.ran }.Owes teardowns services :=
      ⟨H.applications, H.gateways, hhooks, H.application, H.gateway, H.nodup, H.lt⟩
    refine ensures_bind.mpr (ensures_modify.mpr ?_)
    split
    · exact hrest
    · exact hrest

theorem ensures_unwindServices {teardowns : List HostTeardown}
    (H : host.Owes teardowns host.services) :
    Ensures (unwindServices throws) host (fun _ host => host.Owes teardowns [])
      (fun _ host => host.Owes teardowns []) := by
  have hunwind : Ensures (unwind (runService throws) host.services : Program HostError _) host
      (fun _ host => host.Owes teardowns []) (fun _ host => host.Owes teardowns []) :=
    ensures_unwind (P := fun services host => Owes host teardowns services)
      (fun _ _ _ H => ensures_runService H)
      (H.of_perm (.refl _) ((List.reverse_perm _).filterMap _))
  refine ensures_bind.mpr (ensures_get.mpr (hunwind.bind fun errors host H => ?_))
  cases errors with
  | nil => exact H
  | cons error errors => exact H

/-- A teardown that runs releases what it is for, whether it throws or not. -/
theorem ensures_runTeardown {teardown : HostTeardown} {teardowns : List HostTeardown}
    (H : host.Holding (teardown :: teardowns)) :
    Ensures (runTeardown throws teardown) host (fun _ host => host.Holding teardowns)
      (fun _ host => host.Holding teardowns) := by
  obtain ⟨hnodup, howes⟩ := H
  obtain ⟨hnot, hrestNodup⟩ := List.nodup_cons.mp hnodup
  cases teardown with
  | application =>
    obtain ⟨application, happlication⟩ :=
      Option.isSome_iff_exists.mp (howes.application List.mem_cons_self)
    have happlications := howes.applications
    rw [if_pos List.mem_cons_self, happlication] at happlications
    have hrest : { host with disposed := application :: host.disposed }.Holding teardowns := by
      refine ⟨hrestNodup, ?_, ?_, ?_, fun h => absurd h hnot, ?_, howes.nodup, howes.lt⟩
      · rw [if_neg hnot]
        exact perm_done happlications
      · simpa using howes.gateways
      · simpa using howes.hooks
      · simpa using howes.gateway
    refine ensures_bind.mpr (ensures_get.mpr ?_)
    rw [happlication]
    exact ensures_bind.mpr (ensures_modify.mpr (ensures_perform _ hrest))
  | services =>
    rw [if_pos List.mem_cons_self] at howes
    have hrest (host : ApplicationHost) (H : host.Owes (.services :: teardowns) []) :
        host.Holding teardowns := by
      refine ⟨hrestNodup, ?_, ?_, ?_, ?_, ?_, H.nodup, H.lt⟩
      · simpa using H.applications
      · simpa using H.gateways
      · simpa [hnot] using H.hooks
      · simpa using H.application
      · simpa using H.gateway
    exact (ensures_unwindServices howes).mono (fun _ => hrest) (fun _ => hrest)
  | gateway =>
    obtain ⟨gateway, hgateway⟩ :=
      Option.isSome_iff_exists.mp (howes.gateway List.mem_cons_self)
    have hgateways := howes.gateways
    rw [if_pos List.mem_cons_self, hgateway] at hgateways
    have hrest : { host with stopped := gateway :: host.stopped }.Holding teardowns := by
      refine ⟨hrestNodup, ?_, ?_, ?_, ?_, fun h => absurd h hnot, howes.nodup, howes.lt⟩
      · simpa using howes.applications
      · rw [if_neg hnot]
        exact perm_done hgateways
      · simpa using howes.hooks
      · simpa using howes.application
    refine ensures_bind.mpr (ensures_get.mpr ?_)
    rw [hgateway]
    exact ensures_bind.mpr (ensures_modify.mpr (ensures_perform _ hrest))

theorem Holding.of_perm {stack stack' : List HostTeardown} (H : host.Holding stack)
    (hperm : stack'.Perm stack) : host.Holding stack' := by
  refine ⟨hperm.nodup_iff.mpr H.nodup, ?_⟩
  simp only [hperm.mem_iff]
  exact H.owes.of_perm hperm (.refl _)

/-- The state and the stack of the lifecycle do not count. -/
theorem Holding.frame {stack : List HostTeardown} (H : host.Holding stack)
    (state : Common.LifecycleState) (deferred : List HostTeardown) :
    { host with state, stack := deferred }.Holding stack :=
  ⟨H.nodup, H.owes.applications, H.owes.gateways, H.owes.hooks, H.owes.application, H.owes.gateway,
    H.owes.nodup, H.owes.lt⟩

theorem ensures_unwindStack (H : host.Holding host.stack) :
    Ensures (unwindStack throws) host (fun _ => Down) (fun _ => Down) := by
  have hholding : { host with stack := [] }.Holding host.stack.reverse :=
    (H.of_perm (List.reverse_perm _)).frame host.state []
  refine ensures_bind.mpr (ensures_get.mpr (ensures_bind.mpr (ensures_modify.mpr ?_)))
  refine (ensures_unwind (P := fun teardowns host => Holding host teardowns ∧ host.stack = [])
    (fun teardown _ _ H => ?_) ⟨hholding, rfl⟩).bind fun errors host H => ?_
  · exact (ensures_runTeardown H.1).and (ensures_runTeardown_stack H.2 teardown)
  · exact ⟨rfl, H.2, H.1.frame .idle host.stack⟩

/-! ## Bringing the application up -/

/-- The application that is created is owed by nobody yet. -/
theorem ensures_createApplication
    (hthrows : throws .construct = true ∨ throws .initialization = false) :
    Ensures (createApplication throws) host
      (fun application after => application = host.constructed ∧
        after = { host with constructed := host.constructed + 1 })
      (fun _ after => after = host ∧ throws .construct = true) := by
  unfold createApplication perform
  cases hconstruct : throws .construct with
  | true => exact ⟨rfl, rfl⟩
  | false =>
    have hinit := hthrows.resolve_left (by rw [hconstruct]; exact Bool.false_ne_true)
    rw [hinit]
    exact ⟨rfl, rfl⟩

theorem ensures_runStartHooks {hooks : List Bool} {stack : List HostTeardown} (index : Nat)
    (hservices : .services ∈ stack) (H : host.Holding stack) (hstack : host.stack = stack) :
    Ensures (runStartHooks throws hooks index) host
      (fun _ host => host.Holding stack ∧ host.stack = stack)
      (fun _ host => host.Holding stack ∧ host.stack = stack) := by
  induction hooks generalizing host index with
  | nil => exact ⟨H, hstack⟩
  | cons returnsTeardown hooks ih =>
    refine (ensures_perform (P := fun host => Holding host stack ∧ host.stack = stack) _
      ⟨H, hstack⟩).bind fun _ host ⟨H, hstack⟩ => ?_
    cases returnsTeardown with
    | false => exact ih (index + 1) H hstack
    | true =>
      have howes := H.owes
      rw [if_pos hservices] at howes
      refine ih (index + 1) ⟨H.nodup, ?_⟩ hstack
      rw [if_pos hservices]
      refine ⟨howes.applications, howes.gateways, ?_, howes.application, howes.gateway, howes.nodup,
        howes.lt⟩
      rw [List.filterMap_append, ← List.append_assoc, List.range_succ]
      exact howes.hooks.append_right [host.returned]

/-- The host when the transports are created. -/
structure Prepared (host : ApplicationHost) : Prop where
  holding : host.Holding [.application, .services]
  stack : host.stack = [.application, .services]
  services : host.services = []

/-- The host when the gateway is created. -/
structure Connecting (host : ApplicationHost) : Prop where
  prepared : host.Prepared
  gateway : ∃ gateway < host.gateways, host.gateway = some gateway ∧ gateway ∉ host.started

theorem Prepared.stackHolding (H : host.Prepared) : host.Holding host.stack := by
  rw [H.stack]
  exact H.holding

theorem prepared_of_created (H : host.Holding []) (hstack : host.stack = []) :
    { host with
      constructed := host.constructed + 1
      application := some host.constructed
      stack := host.stack ++ [HostTeardown.application] ++ [HostTeardown.services]
      services := [] }.Prepared := by
  have howes := H.owes
  refine ⟨⟨by decide, ?_, ?_, ?_, fun _ => rfl, fun h => by simp at h, howes.nodup, howes.lt⟩,
    ?_, rfl⟩
  · have happlications := howes.applications
    simp only [List.not_mem_nil, if_false, List.append_nil] at happlications
    rw [List.range_succ]
    simpa using happlications.append_right [host.constructed]
  · simpa using howes.gateways
  · simpa using howes.hooks
  · change host.stack ++ _ ++ _ = _
    rw [hstack]
    rfl

theorem Prepared.createGateway (H : host.Prepared) :
    { host with gateway := some host.gateways, gateways := host.gateways + 1 }.Connecting := by
  have howes := H.holding.owes
  refine ⟨⟨⟨by decide, howes.applications, ?_, howes.hooks, howes.application,
    fun h => by simp at h, howes.nodup, fun gateway hmem => ?_⟩, H.stack, H.services⟩,
    host.gateways, Nat.lt_succ_self _, rfl, fun hmem => ?_⟩
  · simpa using howes.gateways
  · exact Nat.lt_succ_of_lt (howes.lt gateway hmem)
  · exact absurd (howes.lt _ hmem) (Nat.lt_irrefl _)

/-- The gateway that has started is deferred. -/
theorem Connecting.started (H : host.Connecting) :
    { host with
      started := host.gateway.toList ++ host.started
      stack := host.stack ++ [HostTeardown.gateway]
      services := host.services ++ [Service.stopHooks] }.Holding
        [.application, .services, .gateway] := by
  obtain ⟨gateway, hlt, hgateway, hfresh⟩ := H.gateway
  have howes := H.prepared.holding.owes
  refine ⟨by decide, ?_, ?_, ?_, ?_, fun _ => by rw [hgateway]; rfl, ?_, ?_⟩
  · simpa using howes.applications
  · have hgateways := howes.gateways
    simp only [hgateway, Option.toList_some]
    simp only [List.mem_cons, reduceCtorEq, List.not_mem_nil, or_self, if_false,
      List.append_nil] at hgateways
    exact List.perm_append_comm.trans (hgateways.append_left [gateway])
  · have hhooks : host.ran.Perm (List.range host.returned) := by
      simpa [H.prepared.services] using howes.hooks
    simp only [H.prepared.services]
    change (host.ran ++ []).Perm _
    rwa [List.append_nil]
  · simpa using howes.application
  · rw [hgateway]
    exact List.nodup_cons.mpr ⟨hfresh, howes.nodup⟩
  · rw [hgateway]
    exact List.forall_mem_cons.mpr ⟨hlt, howes.lt⟩

/-- Wherever `start` fails, what was deferred is what is owed. -/
theorem ensures_bringUp {hooks : List Bool} (H : host.Holding []) (hstack : host.stack = [])
    (hthrows : throws .construct = true ∨ throws .initialization = false) :
    Ensures (bringUp throws hooks) host
      (fun _ host => host.Holding [.application, .services, .gateway] ∧
        host.stack = [.application, .services, .gateway])
      (fun _ host => host.Holding host.stack) := by
  have hhooks (host : ApplicationHost) (H : host.Holding [.application, .services, .gateway])
      (hstack : host.stack = [.application, .services, .gateway]) :
      Ensures (runStartHooks throws hooks 0) host
        (fun _ host => host.Holding [.application, .services, .gateway] ∧
          host.stack = [.application, .services, .gateway])
        (fun _ host => host.Holding host.stack) :=
    (ensures_runStartHooks 0 (by decide) H hstack).mono (fun _ _ h => h) fun _ host h => by
      rw [h.2]
      exact h.1
  refine Ensures.bind ((ensures_createApplication hthrows).mono (fun _ _ h => h) ?_) ?_
  · rintro _ _ ⟨rfl, -⟩
    rw [hstack]
    exact H
  · rintro _ _ ⟨rfl, rfl⟩
    simp only [ensures_bind, ensures_modify, defer]
    refine ((ensures_createTransports (prepared_of_created H hstack)).mono ?_ ?_)
    · intro _ host H
      simp only [createGateway, ensures_modify, startGateway, ensures_bind]
      refine (ensures_perform .gatewayStart H.createGateway).mono ?_ ?_
      · intro _ host H
        refine hhooks _ H.started ?_
        exact congrArg (· ++ [HostTeardown.gateway]) H.prepared.stack
      · exact fun _ _ H => H.prepared.stackHolding
    · exact fun _ _ H => H.stackHolding

/-! ## Calls -/

theorem Down.start {hooks : List Bool} (H : host.Down)
    (hthrows : throws .construct = true ∨ throws .initialization = false) :
    Ensures (start throws hooks) host (fun _ => Up) (fun _ => Down) := by
  have hholding : { host with state := .starting }.Holding [] :=
    H.holding.frame .starting host.stack
  refine ensures_bind.mpr (ensures_get.mpr ?_)
  rw [if_neg (not_not_intro H.state)]
  refine ensures_bind.mpr (ensures_modify.mpr (ensures_bind.mpr (ensures_outcome.mpr ?_)))
  refine (ensures_bringUp hholding H.stack hthrows).mono ?_ ?_
  · exact fun _ host ⟨H, hstack⟩ => ⟨rfl, hstack, H.frame .running host.stack⟩
  · exact fun error host H => (ensures_unwindStack H).bind fun _ _ H => H

theorem Up.start {hooks : List Bool} (H : host.Up) :
    Ensures (start throws hooks) host (fun _ => Up) (fun _ => Up) := by
  refine ensures_bind.mpr (ensures_get.mpr ?_)
  rw [if_pos (by rw [H.state]; decide)]
  exact H

theorem Down.stop (H : host.Down) : Ensures (stop throws) host (fun _ => Down) (fun _ => Down) := by
  refine ensures_bind.mpr (ensures_get.mpr ?_)
  rw [if_pos (by rw [H.state]; decide)]
  exact H

theorem Up.stop (H : host.Up) : Ensures (stop throws) host (fun _ => Down) (fun _ => Down) := by
  have hholding : { host with state := .stopping }.Holding host.stack := by
    rw [H.stack]
    exact H.holding.frame .stopping _
  refine ensures_bind.mpr (ensures_get.mpr ?_)
  rw [if_neg (not_not_intro H.state)]
  refine ensures_bind.mpr (ensures_modify.mpr ((ensures_unwindStack hholding).bind ?_))
  intro errors host H
  cases errors with
  | nil => exact H
  | cons error errors => exact H

/-- A reload replaces the application that the stack disposes. -/
theorem Up.replaced (H : host.Up) {application : Nat}
    (happlication : host.application = some application) :
    { host with
      disposed := application :: host.disposed
      constructed := host.constructed + 1
      application := some host.constructed }.Up := by
  have howes := H.holding.owes
  refine ⟨H.state, H.stack, H.holding.nodup, ?_, howes.gateways, howes.hooks, fun _ => rfl,
    howes.gateway, howes.nodup, howes.lt⟩
  have happlications := howes.applications
  rw [if_pos List.mem_cons_self, happlication] at happlications
  rw [if_pos List.mem_cons_self, List.range_succ]
  have hdone := (perm_done happlications).append_right [host.constructed]
  rwa [List.append_nil] at hdone

theorem Up.reload (H : host.Up) (hdispose : throws .dispose = false)
    (hconstruct : throws .construct = false) (hinit : throws .initialization = false) :
    Ensures (reloadApplication throws) host (fun _ => Up) (fun _ => Up) := by
  obtain ⟨application, happlication⟩ :=
    Option.isSome_iff_exists.mp (H.holding.owes.application List.mem_cons_self)
  have hdisposed : Ensures (disposeApplication throws) host
      (fun _ after => after = { host with disposed := application :: host.disposed })
      (fun _ => Up) := by
    refine ensures_bind.mpr (ensures_get.mpr ?_)
    split
    · next hnone => cases happlication.symm.trans hnone
    · next application' hsome =>
      cases happlication.symm.trans hsome
      refine ensures_bind.mpr (ensures_modify.mpr ?_)
      simp only [perform, hdispose, Bool.false_eq_true, if_false]
      exact rfl
  refine hdisposed.bind ?_
  rintro _ _ rfl
  refine Ensures.bind ((ensures_createApplication (.inr hinit)).mono (fun _ _ h => h) ?_) ?_
  · rintro _ _ ⟨-, hthrows⟩
    cases hconstruct.symm.trans hthrows
  · rintro _ _ ⟨rfl, rfl⟩
    refine ensures_bind.mpr (ensures_modify.mpr (ensures_bind.mpr (ensures_get.mpr ?_)))
    split
    · exact H.replaced happlication
    · exact ensures_perform .gatewayReload (H.replaced happlication)

/-- Before the first application there is nothing to reload. -/
theorem reload_none {P : ApplicationHost → Prop} (H : P host)
    (happlication : host.application = none) :
    Ensures (reloadApplication throws) host (fun _ => P) (fun _ => P) := by
  have hdispose : Ensures (disposeApplication throws) host (fun _ _ => False) (fun _ => P) := by
    refine ensures_bind.mpr (ensures_get.mpr ?_)
    rw [happlication]
    exact H
  exact hdispose.bind fun _ _ h => h.elim

/-- Between two calls the host is down or up. -/
def Resting (host : ApplicationHost) : Prop := host.Down ∨ host.Up

theorem Resting.step (event : ApplicationHostEvent) (hfits : host.Fits event) (H : host.Resting) :
    (host.step event).Resting := by
  obtain H | H := H
  · cases event with
    | start hooks throws =>
      exact ((H.start (hfits H.state)).mono (fun _ _ => .inr) (fun _ _ => .inl)).after
    | reload throws =>
      obtain happlication | ⟨hstate, -⟩ := hfits
      · exact .inl (reload_none H happlication).after
      · cases hstate.symm.trans H.state
    | stop throws => exact .inl H.stop.after
  · cases event with
    | start hooks throws => exact .inr H.start.after
    | reload throws =>
      obtain happlication | ⟨-, hdispose, hconstruct, hinit⟩ := hfits
      · exact .inr (reload_none H happlication).after
      · exact .inr (H.reload hdispose hconstruct hinit).after
    | stop throws => exact .inl H.stop.after

/-- An idle host has left nothing behind; a stop leaves the host idle however it settles, and so does
a start of an idle host that fails. -/
theorem leaves_nothing (transports : List String) (events : List ApplicationHostEvent)
    (hfits : Trace.Admits step Fits { transports } events) :
    let host := Trace.run step { transports } events
    (host.state = .idle → host.LeavesNothing) ∧
      (∀ throws, (host.step (.stop throws)).state = .idle) ∧
      ∀ hooks throws, host.Fits (.start hooks throws) → host.state = .idle →
        Ensures (start throws hooks) host (fun _ after => after.state = .running)
          (fun _ after => after.state = .idle) := by
  intro host
  have hdown : ({ transports } : ApplicationHost).Down :=
    ⟨rfl, rfl, .nil, .refl _, .refl _, .refl _, (by cases ·), (by cases ·), .nil,
      fun _ => (by cases ·)⟩
  have H : host.Resting :=
    Trace.run_inv_of_admits step (fun _ event hfits H => H.step event hfits) hfits (.inl hdown)
  refine ⟨fun hidle => ?_, fun throws => ?_, fun hooks throws hstart hidle => ?_⟩
  · obtain H | H := H
    · exact H.holding.owes.leavesNothing
    · cases hidle.symm.trans H.state
  · obtain H | H := H
    · exact Down.state H.stop.after
    · exact Down.state H.stop.after
  · obtain H | H := H
    · exact (H.start (hstart hidle)).mono (fun _ _ => Up.state) (fun _ _ => Down.state)
    · cases hidle.symm.trans H.state

/-- A host with a Start hook that returns a teardown is reloaded, and stopped while its application
throws on `dispose`. -/
theorem leaves_nothing_reloaded : (Trace.run step { transports := ["ws"] }
    [.start [true, false] (fun _ => false), .reload (fun _ => false),
      .stop (fun step => step = .dispose)]).LeavesNothing :=
  (leaves_nothing ["ws"] _ (by decide)).1 (by decide)

/-- The application whose `initialize` throws is not disposed. -/
theorem leaves_application : ¬ ∀ transports events,
    let host := Trace.run step { transports } events
    host.state = .idle → host.LeavesNothing := by
  intro h
  have hleft := h [] [.start [] (fun step => step = .initialization)] rfl
  exact absurd (hleft.applications 0 (by decide)) (by decide)

end ApplicationHost

end Neemata.Application
