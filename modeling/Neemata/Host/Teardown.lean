import Neemata.Host.Controller

/-!
# What the host controller leaves running

A subsystem that was started is released or the controller still has it (`Accounted`), unless a
step drops the one while it goes astray: `stopSubsystems` when the stop of the proxy or of the
probe throws, and `start` when it records a subsystem over another one. In a run without such steps
(`Fits`) a stop releases everything that was ever started.
-/

namespace Neemata.Host

/-- Neither the stop of the proxy nor that of the probe throws. -/
def StopThrows.Mild (throws : StopThrows) : Prop := throws.proxy = false ∧ throws.health = false

instance (throws : StopThrows) : Decidable throws.Mild := inferInstanceAs (Decidable (_ ∧ _))

namespace HostController

open Fallible

/-- The controller has a subsystem. -/
def Has (s : HostController) : Subsystem → Prop
  | .plugins id => s.plugins = some id
  | .healthProbe id => ∃ config, s.healthProbe = some (id, config)
  | .runtime id => id ∈ s.runtimes.values
  | .proxy id => s.proxy = some id

/-- What was started is released, or the controller has it. -/
def Accounted (s : HostController) : Prop :=
  ∀ subsystem ∈ s.started, subsystem ∈ s.released ∨ s.Has subsystem

/-- A call of `syncHealthProbe` throws. -/
def probeThrows (s : HostController) (throws : BringUpThrows) : Bool :=
  !s.keepsProbe && (s.healthProbe.isSome && throws.healthStop ||
    s.snapshot.health.isSome && throws.healthStart)

/-- A start comes to the point where it records plugins, runtimes or a proxy over others. -/
def Overwrites (s : HostController) (throws : BringUpThrows) : Prop :=
  throws.plugins = false ∧ (s.plugins ≠ none ∨
    s.probeThrows throws = false ∧ throws.startHook = false ∧ throws.runtimes = false ∧
      (s.runtimes.values ≠ [] ∨ s.proxy ≠ none ∧ s.snapshot.proxy = true ∧ throws.proxy = false))

def Fits (s : HostController) : HostEvent → Prop
  | .start throws =>
    throws.cleanup.Mild ∧ (s.state ≠ .running → ¬ s.Overwrites throws)
  | .reload _ throws => throws.prepare.Mild ∧ throws.cleanup.Mild
  | .stop _ throws => throws.Mild
  | .reloadRuntime _ _ _ | .runtimeFailed => True

instance (s : HostController) (throws : BringUpThrows) : Decidable (s.Overwrites throws) :=
  inferInstanceAs (Decidable (_ ∧ _))

instance (s : HostController) : (event : HostEvent) → Decidable (Fits s event)
  | .start throws => inferInstanceAs (Decidable (throws.cleanup.Mild ∧ _))
  | .reload _ throws => inferInstanceAs (Decidable (throws.prepare.Mild ∧ throws.cleanup.Mild))
  | .stop _ throws => inferInstanceAs (Decidable throws.Mild)
  | .reloadRuntime _ _ _ | .runtimeFailed => isTrue trivial

variable {s : HostController}

/-! ## Steps -/

theorem ensures_call {throws : Bool} {ok : Unit → HostController → Prop}
    {error : Unit → HostController → Prop} (hok : throws = false → ok () s)
    (herror : throws = true → error () s) : Ensures (call throws) s ok error := by
  cases throws with
  | false => exact hok rfl
  | true => exact herror rfl

/-- Everything that the controller has is released. -/
def torn (s : HostController) : HostController :=
  { s with
    proxy := none
    runtimes := .empty
    plugins := none
    healthProbe := none
    released := (s.plugins.map .plugins).toList ++
      ((s.healthProbe.map fun probe => .healthProbe probe.1).toList ++
        (s.runtimes.values.map .runtime ++ ((s.proxy.map .proxy).toList ++ s.released))) }

theorem ensures_stopSubsystems {throws : StopThrows} (mild : throws.Mild) :
    Ensures (stopSubsystems throws) s (fun _ after => after = s.torn)
      (fun _ after => after = s.torn) := by
  obtain ⟨hproxy, hhealth⟩ := mild
  obtain ⟨failOnWorkerError, state, snapshot, runtimes, proxy, healthProbe, plugins, created,
    started, released⟩ := s
  cases proxy <;> cases healthProbe <;> cases plugins <;>
    simp [stopSubsystems, stopProxy, stopHealthProbe, disposePlugins, release, torn, call, hproxy,
      hhealth]
  all_goals split <;> simp

theorem not_has_torn (subsystem : Subsystem) : ¬ s.torn.Has subsystem := by
  cases subsystem <;> simp [Has, torn, OrdMap.values, OrdMap.empty]

theorem Accounted.torn (h : Accounted s) : Accounted s.torn := by
  intro subsystem hstarted
  refine .inl ?_
  simp only [HostController.torn, List.mem_append]
  rcases h subsystem hstarted with hreleased | hhas
  · exact .inr (.inr (.inr (.inr hreleased)))
  · cases subsystem with
    | plugins id => exact .inl (by simp [show s.plugins = some id from hhas])
    | healthProbe id =>
      obtain ⟨config, hprobe⟩ := hhas
      exact .inr (.inl (by simp [hprobe]))
    | runtime id => exact .inr (.inr (.inl (List.mem_map.mpr ⟨id, hhas, rfl⟩)))
    | proxy id => exact .inr (.inr (.inr (.inl (by simp [show s.proxy = some id from hhas]))))

/-- Nothing that was started or that the controller has goes astray. -/
theorem Accounted.of_has (h : Accounted s) {after : HostController}
    (hstarted : ∀ subsystem ∈ after.started, subsystem ∈ s.started ∨ after.Has subsystem ∨
      subsystem ∈ after.released)
    (hreleased : s.released ⊆ after.released)
    (hhas : ∀ subsystem, s.Has subsystem → after.Has subsystem ∨ subsystem ∈ after.released) :
    Accounted after := by
  intro subsystem hmem
  rcases hstarted subsystem hmem with hbefore | hafter | hafter
  · rcases h subsystem hbefore with hrelease | hbefore
    · exact .inl (hreleased hrelease)
    · exact (hhas subsystem hbefore).symm
  · exact .inr hafter
  · exact .inl hafter

theorem Accounted.markState (h : Accounted s) (state : ServerState) :
    Accounted { s with state } :=
  h.of_has (fun _ h => .inl h) (fun _ h => h) fun subsystem h =>
    .inl (by cases subsystem <;> exact h)

theorem ensures_startPlugins {throws : Bool} (h : Accounted s)
    (hplugins : throws = false → s.plugins = none) :
    Ensures (startPlugins throws) s
      (fun _ after => throws = false ∧ Accounted after ∧ after.runtimes = s.runtimes ∧
        after.proxy = s.proxy ∧ after.healthProbe = s.healthProbe ∧ after.snapshot = s.snapshot)
      (fun _ after => Accounted after) := by
  refine ensures_bind.mpr (ensures_call (fun hcall => ?_) fun _ => h)
  refine ⟨hcall, h.of_has (fun subsystem hmem => ?_) (fun _ h => h) fun subsystem hhas => ?_, rfl,
    rfl, rfl, rfl⟩
  · rcases List.mem_cons.mp hmem with rfl | hmem
    · exact .inr (.inl rfl)
    · exact .inl hmem
  · cases subsystem with
    | plugins id =>
      rw [Has, hplugins hcall] at hhas
      cases hhas
    | healthProbe id | runtime id | proxy id => exact .inl hhas

/-- The probe is released. -/
def unprobed (s : HostController) : HostController :=
  { s with
    healthProbe := none
    released := (s.healthProbe.map fun probe => .healthProbe probe.1).toList ++ s.released }

theorem Accounted.unprobed (h : Accounted s) : Accounted s.unprobed := by
  refine h.of_has (fun _ h => .inl h) (List.subset_append_right _ _) fun subsystem hhas => ?_
  cases subsystem with
  | healthProbe id =>
    obtain ⟨config, hprobe⟩ := hhas
    exact .inr (by simp [HostController.unprobed, hprobe])
  | plugins id | runtime id | proxy id => exact .inl hhas

theorem ensures_stopHealthProbe {throws : Bool} :
    Ensures (stopHealthProbe throws) s
      (fun _ after => (s.healthProbe.isSome && throws) = false ∧ after = s.unprobed)
      (fun _ after => after = s.unprobed) := by
  obtain ⟨failOnWorkerError, state, snapshot, runtimes, proxy, healthProbe, plugins, created,
    started, released⟩ := s
  cases healthProbe <;> cases throws <;>
    simp [stopHealthProbe, release, HostController.unprobed, call]

theorem ensures_startHealthProbe {config : HealthConfig} {throws : Bool} (h : Accounted s)
    (hprobe : s.healthProbe = none) :
    Ensures (startHealthProbe config throws) s
      (fun _ after => throws = false ∧ Accounted after ∧ after.runtimes = s.runtimes ∧
        after.proxy = s.proxy ∧ after.snapshot = s.snapshot)
      (fun _ after => Accounted after) := by
  refine ensures_bind.mpr (ensures_call (fun hcall => ?_) fun _ => h)
  refine ⟨hcall, h.of_has (fun subsystem hmem => ?_) (fun _ h => h) fun subsystem hhas => ?_, rfl,
    rfl, rfl⟩
  · rcases List.mem_cons.mp hmem with rfl | hmem
    · exact .inr (.inl ⟨config, rfl⟩)
    · exact .inl hmem
  · cases subsystem with
    | healthProbe id =>
      obtain ⟨config, hhas⟩ := hhas
      cases hprobe.symm.trans hhas
    | plugins id | runtime id | proxy id => exact .inl hhas

theorem ensures_syncHealthProbe {throws : BringUpThrows} (h : Accounted s) :
    Ensures (syncHealthProbe throws) s
      (fun _ after => s.probeThrows throws = false ∧ Accounted after ∧
        after.runtimes = s.runtimes ∧ after.proxy = s.proxy ∧ after.snapshot = s.snapshot)
      (fun _ after => Accounted after) := by
  refine ensures_bind.mpr ?_
  rw [ensures_get]
  by_cases hkeeps : s.keepsProbe = true
  · rw [if_pos hkeeps]
    exact ⟨by simp [probeThrows, hkeeps], h, rfl, rfl, rfl⟩
  · rw [if_neg hkeeps]
    refine ensures_bind.mpr (ensures_stopHealthProbe.mono ?_ fun _ after heq => heq ▸ h.unprobed)
    rintro _ after ⟨hstop, rfl⟩
    cases hconfig : s.snapshot.health with
    | none => exact ⟨by simp [probeThrows, hstop, hconfig], h.unprobed, rfl, rfl, rfl⟩
    | some config =>
      refine (ensures_startHealthProbe h.unprobed rfl).mono ?_ fun _ _ h => h
      rintro _ after ⟨hstart, haccounted, hruntimes, hproxy, hsnapshot⟩
      exact ⟨by simp [probeThrows, hstop, hstart], haccounted, hruntimes, hproxy, hsnapshot⟩

theorem ensures_startRuntimes {throws : Bool} (h : Accounted s)
    (hruntimes : throws = false → s.runtimes.values = []) :
    Ensures (startRuntimes throws) s
      (fun _ after => throws = false ∧ Accounted after ∧ after.proxy = s.proxy ∧
        after.snapshot = s.snapshot)
      (fun _ after => Accounted after) := by
  simp only [startRuntimes, ensures_bind, ensures_get, ensures_modify]
  cases throws with
  | true =>
    -- the new runtimes are stopped, and the old ones are still there
    simp only [if_true, release, ensures_bind, ensures_modify, ensures_throw]
    refine h.of_has (fun subsystem hmem => ?_) (List.subset_append_right _ _) fun _ h => .inl ?_
    · rcases List.mem_append.mp hmem with hmem | hmem
      · exact .inr (.inr (List.mem_append_left _ hmem))
      · exact .inl hmem
    · cases ‹Subsystem› <;> exact h
  | false =>
    simp only [Bool.false_eq_true, if_false, ensures_modify]
    refine ⟨trivial, h.of_has (fun subsystem hmem => ?_) (fun _ h => h)
      (fun subsystem hhas => ?_), ?_⟩
    · rcases List.mem_append.mp hmem with hmem | hmem
      · obtain ⟨id, hid, rfl⟩ := List.mem_map.mp hmem
        exact .inr (.inl hid)
      · exact .inl hmem
    · cases subsystem with
      | runtime id =>
        rw [Has, hruntimes rfl] at hhas
        cases hhas
      | plugins id | healthProbe id | proxy id => exact .inl hhas
    · exact ⟨trivial, trivial⟩

theorem ensures_startProxy {throws : Bool} (h : Accounted s)
    (hproxy : s.snapshot.proxy = true → throws = false → s.proxy = none) :
    Ensures (startProxy throws) s (fun _ after => Accounted after)
      (fun _ after => Accounted after) := by
  refine ensures_bind.mpr ?_
  rw [ensures_get]
  by_cases hconfig : s.snapshot.proxy = true
  · rw [if_pos hconfig]
    refine ensures_bind.mpr (ensures_call (fun hcall => ?_) fun _ => h)
    refine h.of_has (fun subsystem hmem => ?_) (fun _ h => h) fun subsystem hhas => ?_
    · rcases List.mem_cons.mp hmem with rfl | hmem
      · exact .inr (.inl rfl)
      · exact .inl hmem
    · cases subsystem with
      | proxy id =>
        rw [Has, hproxy hconfig hcall] at hhas
        cases hhas
      | plugins id | healthProbe id | runtime id => exact .inl hhas
  · rw [if_neg hconfig]
    exact h

/-- The steps of `bringUp` after its prelude. -/
theorem ensures_bringUp {throws : BringUpThrows} {prepare : Step Unit Unit}
    (hcleanup : throws.cleanup.Mild)
    (hprepare : Ensures prepare s
      (fun _ after => Accounted after ∧ ¬ after.Overwrites throws) (fun _ => Accounted)) :
    Ensures (bringUp throws prepare) s (fun _ after => Accounted after ∧ after.state = .running)
      (fun _ after => Accounted after ∧ after.state = .failed) := by
  refine ensures_tryCatch (show Ensures _ _ _ fun _ => Accounted from ?_) fun _ s₁ h₁ => ?_
  · refine hprepare.bind fun _ s₁ ⟨h₁, hover⟩ => ?_
    have hplugins : throws.plugins = false → s₁.plugins = none := fun hcall =>
      Decidable.not_not.mp fun hne => hover ⟨hcall, .inl hne⟩
    refine (ensures_startPlugins h₁ hplugins).bind ?_
    rintro _ s₂ ⟨hcall, h₂, hruntimes₂, hproxy₂, hprobe₂, hsnapshot₂⟩
    refine (ensures_syncHealthProbe h₂).bind ?_
    rintro _ s₃ ⟨hprobe, h₃, hruntimes₃, hproxy₃, hsnapshot₃⟩
    have hprobe₁ : s₁.probeThrows throws = false := by
      rw [← hprobe]
      simp only [probeThrows, keepsProbe, hprobe₂, hsnapshot₂]
    refine (ensures_call (fun hhook => ?_) fun _ => h₃).bind fun _ s₃ h₃ => h₃
    have hruntimes : throws.runtimes = false → s₃.runtimes.values = [] := by
      intro hcalls
      rw [hruntimes₃, hruntimes₂]
      exact Decidable.not_not.mp fun hne =>
        hover ⟨hcall, .inr ⟨hprobe₁, hhook, hcalls, .inl hne⟩⟩
    refine (ensures_startRuntimes h₃ hruntimes).bind ?_
    rintro _ s₄ ⟨hcalls, h₄, hproxy₄, hsnapshot₄⟩
    have hproxy : s₄.snapshot.proxy = true → throws.proxy = false → s₄.proxy = none := by
      intro hconfig hstart
      rw [hproxy₄, hproxy₃, hproxy₂]
      rw [hsnapshot₄, hsnapshot₃, hsnapshot₂] at hconfig
      exact Decidable.not_not.mp fun hne =>
        hover ⟨hcall, .inr ⟨hprobe₁, hhook, hcalls, .inr ⟨hne, hconfig, hstart⟩⟩⟩
    refine (ensures_startProxy h₄ hproxy).bind fun _ s₅ h₅ => ?_
    exact ensures_bind.mpr
      (ensures_call (fun _ => ⟨h₅.markState .running, rfl⟩) fun _ => h₅.markState .running)
  · refine ensures_bind.mpr (ensures_bind.mpr ?_)
    refine ensures_tryCatch ((ensures_stopSubsystems hcleanup).mono ?_ fun _ _ h => h) ?_
    · rintro _ after rfl
      exact ⟨(h₁.markState .failed).torn, rfl⟩
    · rintro _ after rfl
      exact ⟨(h₁.markState .failed).torn, rfl⟩

/-! ## Runs -/

/-- What was started is accounted for, and a stopped controller has nothing. -/
structure Sound (s : HostController) : Prop where
  accounted : Accounted s
  stopped : s.state = .stopped → ∀ subsystem, ¬ s.Has subsystem

theorem Sound.of_state {after : HostController} (h : Accounted after)
    (hstate : after.state ≠ .stopped) : Sound after :=
  ⟨h, fun hstopped => absurd hstopped hstate⟩

theorem not_overwrites_torn (throws : BringUpThrows) (snapshot : HostSnapshot) :
    ¬ ({ s.torn with snapshot } : HostController).Overwrites throws := by
  rintro ⟨-, hplugins | ⟨-, -, -, hruntimes | ⟨hproxy, -⟩⟩⟩
  · exact hplugins rfl
  · exact hruntimes rfl
  · exact hproxy rfl

theorem ensures_start {throws : BringUpThrows} (h : Sound s) (hfits : Fits s (.start throws)) :
    Ensures (start throws) s (fun _ => Sound) (fun _ => Sound) := by
  refine ensures_bind.mpr ?_
  rw [ensures_get]
  by_cases hrunning : s.state = .running
  · rw [if_pos hrunning]
    exact h
  · rw [if_neg hrunning]
    have hover : ¬ ({ s with state := .starting } : HostController).Overwrites throws :=
      hfits.2 hrunning
    refine ensures_bind.mpr ((ensures_bringUp hfits.1 ?_).mono ?_ ?_)
    · exact ⟨h.accounted.markState .starting, hover⟩
    · rintro _ after ⟨hafter, hstate⟩
      exact .of_state hafter (by simp [hstate])
    · rintro _ after ⟨hafter, hstate⟩
      exact .of_state hafter (by simp [hstate])

theorem ensures_reload {snapshot : HostSnapshot} {throws : BringUpThrows} (h : Sound s)
    (hfits : Fits s (.reload snapshot throws)) :
    Ensures (reload snapshot throws) s (fun _ => Sound) (fun _ => Sound) := by
  have htorn := (h.accounted.markState .reloading).torn
  refine ensures_bind.mpr ((ensures_bringUp hfits.2 ?_).mono ?_ ?_)
  · refine ensures_bind.mpr ((ensures_stopSubsystems hfits.1).mono ?_ ?_)
    · rintro _ after rfl
      exact ⟨htorn.of_has (fun _ h => .inl h) (fun _ h => h)
        (fun subsystem hhas => absurd hhas (not_has_torn subsystem)),
        not_overwrites_torn throws snapshot⟩
    · rintro _ after rfl
      exact htorn
  · rintro _ after ⟨hafter, hstate⟩
    exact .of_state hafter (by simp [hstate])
  · rintro _ after ⟨hafter, hstate⟩
    exact .of_state hafter (by simp [hstate])

theorem ensures_threw {x : Step Unit Unit} {P : HostController → Prop}
    {error : Unit → HostController → Prop} (h : Ensures x s (fun _ => P) (fun _ => P)) :
    Ensures (threw x) s (fun _ => P) error :=
  ensures_tryCatch (ensures_bind.mpr (h.mono (fun _ _ h => h) fun _ _ h => h)) fun _ _ h => h

/-- A stop leaves the controller with nothing. -/
theorem ensures_stop {hookThrows : Bool} {throws : StopThrows} (h : Sound s)
    (hfits : Fits s (.stop hookThrows throws)) :
    Ensures (stop hookThrows throws) s
      (fun _ after => Sound after ∧ ∀ subsystem, ¬ after.Has subsystem)
      (fun _ after => Sound after ∧ ∀ subsystem, ¬ after.Has subsystem) := by
  refine ensures_bind.mpr ?_
  rw [ensures_get]
  by_cases hstopped : s.state = .stopped
  · rw [if_pos hstopped]
    exact ⟨h, h.stopped hstopped⟩
  · rw [if_neg hstopped]
    have htorn := (h.accounted.markState .stopping).torn
    refine ensures_bind.mpr ?_
    refine Ensures.bind
      (ensures_threw (P := fun after => after = { s with state := .stopping }) ?_) ?_
    · exact ensures_call (fun _ => rfl) fun _ => rfl
    · rintro hook _ rfl
      refine Ensures.bind (ensures_threw (ensures_stopSubsystems hfits)) ?_
      rintro subsystems _ rfl
      have hnothing : ∀ subsystem,
          ¬ ({ torn { s with state := .stopping } with state := .stopped } : HostController).Has
            subsystem := by
        intro subsystem hhas
        exact not_has_torn (s := { s with state := .stopping }) subsystem
          (by cases subsystem <;> exact hhas)
      have hsound := htorn.markState .stopped
      refine ensures_bind.mpr (ensures_modify.mpr (ensures_call (fun _ => ?_) fun _ => ?_)) <;>
        exact ⟨⟨hsound, fun _ => hnothing⟩, hnothing⟩

/-! ### Reloading a runtime -/

theorem mem_values_erase {runtimes : OrdMap String Nat} (runtimeName : String) {id : Nat}
    (h : id ∈ runtimes.values) :
    runtimes.get? runtimeName = some id ∨ id ∈ (runtimes.erase runtimeName).values := by
  obtain ⟨key, hkey⟩ := OrdMap.mem_values_iff.mp h
  by_cases heq : key = runtimeName
  · exact .inl (heq ▸ hkey)
  · refine .inr (OrdMap.mem_values_iff.mpr ⟨key, ?_⟩)
    rw [OrdMap.get?_erase, if_neg heq, hkey]

/-- A step of a reload has thrown: only the current runtime can be neither released nor on record,
and the runtime on record under the name is the next one. -/
structure Thrown (runtimeName : String) (current : Option Nat) (locals : Reloading)
    (s : HostController) : Prop where
  accounted : ∀ subsystem ∈ s.started, subsystem ∈ s.released ∨ s.Has subsystem ∨
    locals.currentStopped = false ∧ current.map .runtime = some subsystem
  next : s.runtimes.get? runtimeName = locals.next

theorem Thrown.abandon {runtimeName : String} {current : Option Nat} {locals : Reloading}
    (h : Thrown runtimeName current locals s) :
    Ensures (abandonRuntime runtimeName current locals) s (fun _ => Sound) (fun _ => Sound) := by
  simp only [abandonRuntime, release, ensures_bind, ensures_modify]
  refine .of_state (fun subsystem hmem => ?_) (by simp)
  rcases h.accounted subsystem hmem with hreleased | hhas | ⟨hstopped, hcurrent⟩
  · exact .inl (List.mem_append_right _ (List.mem_append_right _ hreleased))
  · cases subsystem with
    | runtime id =>
      rcases mem_values_erase runtimeName hhas with hnext | hrest
      · refine .inl (List.mem_append_left _ ?_)
        simp [← h.next, hnext]
      · exact .inr hrest
    | plugins id | healthProbe id | proxy id => exact .inr hhas
  · refine .inl (List.mem_append_right _ (List.mem_append_left _ ?_))
    simp [hstopped, hcurrent]

theorem ensures_callWith {locals : Reloading} {throws : Bool}
    {ok : Unit → HostController → Prop} {error : Reloading → HostController → Prop}
    (hok : ok () s) (herror : error locals s) : Ensures (callWith locals throws) s ok error := by
  cases throws with
  | false => exact hok
  | true => exact herror

theorem ensures_syncProxyUpstreams {locals : Reloading} {throws : Bool}
    {ok : Unit → HostController → Prop} {error : Reloading → HostController → Prop}
    (hok : ok () s) (herror : error locals s) :
    Ensures (syncProxyUpstreams locals throws) s ok error := by
  refine ensures_bind.mpr ?_
  rw [ensures_get]
  split
  · exact ensures_callWith hok herror
  · exact hok

section reload

variable {runtimeName : String} {current : Option Nat}

theorem Accounted.thrown (h : Accounted s) {locals : Reloading}
    (next : s.runtimes.get? runtimeName = locals.next) : Thrown runtimeName current locals s where
  accounted subsystem hmem := (h subsystem hmem).imp_right .inl
  next := next

theorem ensures_detachRuntime {id : Nat} {throws : ReloadThrows} (h : Accounted s)
    (hcurrent : s.runtimes.get? runtimeName = some id) :
    Ensures (detachRuntime runtimeName id throws) s
      (fun _ after => Accounted after ∧ after.runtimes.get? runtimeName = none)
      (Thrown runtimeName (some id)) := by
  simp only [detachRuntime, release, ensures_bind, ensures_modify]
  have hnone : (s.runtimes.erase runtimeName).get? runtimeName = none := by
    rw [OrdMap.get?_erase, if_pos rfl]
  have herased : ∀ subsystem ∈ s.started, subsystem ∈ s.released ∨
      ({ s with runtimes := s.runtimes.erase runtimeName } : HostController).Has subsystem ∨
      .runtime id = subsystem := by
    intro subsystem hmem
    rcases h subsystem hmem with hreleased | hhas
    · exact .inl hreleased
    · cases subsystem with
      | runtime other =>
        rcases mem_values_erase runtimeName hhas with hsame | hrest
        · exact .inr (.inr (congrArg _ (Option.some.inj (hcurrent.symm.trans hsame))))
        · exact .inr (.inl hrest)
      | plugins other | healthProbe other | proxy other => exact .inr (.inl hhas)
  have hreleased : Accounted { s with
      runtimes := s.runtimes.erase runtimeName
      released := [.runtime id] ++ s.released } := by
    intro subsystem hmem
    rcases herased subsystem hmem with hreleased | hhas | rfl
    · exact .inl (List.mem_append_right _ hreleased)
    · exact .inr (by cases subsystem <;> exact hhas)
    · exact .inl (List.mem_append_left _ List.mem_cons_self)
  refine ensures_syncProxyUpstreams ?_ ⟨fun subsystem hmem => ?_, hnone⟩
  · exact ensures_callWith ⟨hreleased, hnone⟩ (hreleased.thrown hnone)
  · rcases herased subsystem hmem with hreleased | hhas | heq
    · exact .inl hreleased
    · exact .inr (.inl hhas)
    · exact .inr (.inr ⟨rfl, congrArg some heq⟩)

theorem ensures_attachRuntime {throws : Bool} (h : Accounted s)
    (hnone : s.runtimes.get? runtimeName = none) :
    Ensures (attachRuntime runtimeName throws) s
      (fun next after => Accounted after ∧ after.runtimes.get? runtimeName = next)
      (Thrown runtimeName current) := by
  refine ensures_bind.mpr ?_
  rw [ensures_get]
  split
  · have hafter : Accounted { s with
        runtimes := s.runtimes.set runtimeName s.created
        created := s.created + 1
        started := .runtime s.created :: s.started } := by
      have hself := OrdMap.get?_set_self s.runtimes runtimeName s.created
      refine h.of_has (fun subsystem hmem => ?_) (fun _ h => h) fun subsystem hhas => .inl ?_
      · rcases List.mem_cons.mp hmem with rfl | hmem
        · exact .inr (.inl (OrdMap.mem_values_of_get? hself))
        · exact .inl hmem
      · cases subsystem with
        | runtime id =>
          obtain ⟨key, hkey⟩ := OrdMap.mem_values_iff.mp hhas
          refine OrdMap.mem_values_iff.mpr ⟨key, ?_⟩
          rw [OrdMap.get?_set_of_ne, hkey]
          rintro rfl
          cases hnone.symm.trans hkey
        | plugins id | healthProbe id | proxy id => exact hhas
    have hself := OrdMap.get?_set_self s.runtimes runtimeName s.created
    refine ensures_bind.mpr (ensures_modify.mpr (ensures_bind.mpr (ensures_callWith ?_ ?_)))
    · exact ⟨hafter, hself⟩
    · exact hafter.thrown hself
  · exact ⟨h, hnone⟩

theorem ensures_replaceRuntime {snapshot : HostSnapshot} {throws : ReloadThrows}
    (h : Accounted s) (hcurrent : s.runtimes.get? runtimeName = current) :
    Ensures (replaceRuntime runtimeName snapshot current throws) s
      (fun _ after => Accounted after ∧ after.state = .running) (Thrown runtimeName current) := by
  have hrest : ∀ s : HostController, Accounted s → s.runtimes.get? runtimeName = none →
      Ensures (do
        replaceSnapshot snapshot
        let next ← attachRuntime runtimeName throws.start
        syncProxyUpstreams ⟨true, next⟩ throws.attachProxy
        modify fun s => { s with state := .running }
        callWith ⟨true, next⟩ throws.hook) s
      (fun _ after => Accounted after ∧ after.state = .running) (Thrown runtimeName current) := by
    intro s h hnone
    have hsnapshot : Accounted { s with snapshot } :=
      h.of_has (fun _ h => .inl h) (fun _ h => h) fun subsystem h =>
        .inl (by cases subsystem <;> exact h)
    refine ensures_bind.mpr (ensures_modify.mpr ?_)
    refine (ensures_attachRuntime hsnapshot hnone).bind fun next s₁ ⟨h₁, hnext⟩ => ?_
    have hrunning := h₁.markState .running
    refine ensures_bind.mpr (ensures_syncProxyUpstreams ?_ (h₁.thrown hnext))
    refine ensures_bind.mpr (ensures_modify.mpr (ensures_callWith ?_ (hrunning.thrown hnext)))
    exact ⟨hrunning, rfl⟩
  cases current with
  | none =>
    exact hrest s h hcurrent
  | some id =>
    refine Ensures.bind (ensures_detachRuntime h hcurrent) fun _ s₁ ⟨h₁, hnone⟩ => ?_
    exact hrest s₁ h₁ hnone

theorem ensures_reloadRuntime {snapshot : HostSnapshot} {throws : ReloadThrows} (h : Sound s) :
    Ensures (reloadRuntime runtimeName snapshot throws) s (fun _ => Sound) (fun _ => Sound) := by
  have hreloading := h.accounted.markState .reloading
  refine ensures_bind.mpr ?_
  rw [ensures_get]
  refine ensures_bind.mpr (ensures_modify.mpr ?_)
  refine ensures_tryCatch ((ensures_replaceRuntime hreloading rfl).mono ?_ fun _ _ h => h) ?_
  · rintro _ after ⟨hafter, hstate⟩
    exact .of_state hafter (by simp [hstate])
  · exact fun locals after hthrown => hthrown.abandon

end reload

/-! ### All steps -/

theorem Sound.runtimeFailed (h : Sound s) : Sound s.runtimeFailed := by
  rw [HostController.runtimeFailed]
  split
  · exact .of_state (h.accounted.markState .failed) (by simp)
  · exact h

theorem Sound.step (h : Sound s) {event : HostEvent} (hfits : Fits s event) :
    Sound (s.step event) := by
  cases event with
  | start throws => exact (ensures_start h hfits).after
  | reload snapshot throws => exact (ensures_reload h hfits).after
  | reloadRuntime runtimeName snapshot throws => exact (ensures_reloadRuntime h).after
  | runtimeFailed => exact h.runtimeFailed
  | stop hookThrows throws =>
    exact ((ensures_stop h hfits).mono (fun _ _ h => h.1) fun _ _ h => h.1).after

/-- In a run of fitting steps that ends with a stop, everything that was started is released. -/
theorem teardown (failOnWorkerError : Option Bool) (snapshot : HostSnapshot) (l : List HostEvent)
    (hookThrows : Bool) (throws : StopThrows)
    (hl : Trace.Admits step Fits { failOnWorkerError, snapshot } (l ++ [.stop hookThrows throws])) :
    let s := Trace.run step { failOnWorkerError, snapshot } (l ++ [.stop hookThrows throws])
    ∀ subsystem ∈ s.started, subsystem ∈ s.released := by
  rw [Trace.admits_append] at hl
  intro s subsystem hmem
  have hempty : Sound { failOnWorkerError, snapshot } :=
    .of_state (fun _ h => by cases h) (by simp)
  have h : Sound (Trace.run step { failOnWorkerError, snapshot } l) :=
    Trace.run_inv_of_admits step (fun _ _ hfits h => h.step hfits) hl.1 hempty
  have hstop := (ensures_stop h hl.2.1).after
  have hs : s = Fallible.after (stop hookThrows throws)
      (Trace.run step { failOnWorkerError, snapshot } l) := Trace.run_append _ l _
  rw [← hs] at hstop
  exact (hstop.1.accounted subsystem hmem).resolve_right (hstop.2 subsystem)

/-- A runtime that is reloaded fails to start, the server is reloaded and fails, and at its stop the
plugins throw. -/
theorem teardown_of_failures :
    let snapshot : HostSnapshot :=
      { runtimes := ["api", "jobs"], proxy := true, health := some { port := 3000 } }
    let s := Trace.run step { snapshot } ([.start {},
      .reloadRuntime "api" snapshot { start := true }, .reload snapshot {}, .runtimeFailed] ++
      [.stop true { plugins := true }])
    ∀ subsystem ∈ s.started, subsystem ∈ s.released :=
  teardown none _ _ true { plugins := true } (by decide)

/-- The stop of the proxy throws, and the runtimes, the probe and the plugins are not stopped. A
start after a worker failure records its runtime and its plugins over others that no stop finds. -/
theorem lost_subsystems :
    (let snapshot : HostSnapshot :=
      { runtimes := ["api"], proxy := true, health := some { port := 3000 } }
    let s := Trace.run step { snapshot } [.start {}, .stop false { proxy := true }]
    s.state = .stopped ∧ s.started = [.proxy 3, .runtime 2, .healthProbe 1, .plugins 0] ∧
      s.released = [.proxy 3]) ∧
    (let snapshot : HostSnapshot := { runtimes := ["api"], proxy := false, health := none }
    let s := Trace.run step { snapshot } [.start {}, .runtimeFailed, .start {}, .stop false {}]
    s.state = .stopped ∧ s.started = [.runtime 3, .plugins 2, .runtime 1, .plugins 0] ∧
      s.released = [.plugins 2, .runtime 3]) := by
  decide

end HostController

end Neemata.Host
