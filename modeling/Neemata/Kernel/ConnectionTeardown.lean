import Neemata.Kernel.Gateway
import Mathlib.Data.List.Nodup
import Mathlib.Data.List.Basic

/-!
# The teardown of connections

`Staged` says where a connection is between `onConnect` and the end of its only teardown, `Tracked`
that `connectionCalls` has the calls of a connection that are running; both hold in every run
(`Sound`). That no call outlives a teardown unaborted (`CallsAborted`) and that a `stop` leaves no
connection behind (`Cleared`) hold in runs whose events come in time.
-/

namespace Neemata.Kernel

/-- What holds of a connection at each point of its life; `managed`: it is in the manager. -/
inductive Staged (c : GatewayConnection) (managed : Prop) : Prop where
  | connecting (phase : c.phase = .resolving) (unmanaged : ¬ managed) (teardowns : c.teardowns = [])
    (closing : c.closing = none) (disposals : c.disposals = 0) (calls : c.calls = [])
    (connectionCalls : c.connectionCalls = none) (callsAborted : c.callsAborted = false)
  | refused (phase : c.phase = .failing ∨ c.phase = .rejected) (unmanaged : ¬ managed)
    (teardowns : c.teardowns = []) (closing : c.closing = none) (disposals : c.disposals = 1)
    (calls : c.calls = []) (connectionCalls : c.connectionCalls = none)
  | up (phase : c.phase = .connected) (managed : managed) (teardowns : c.teardowns = [])
    (closing : c.closing = none) (disposals : c.disposals = 0)
    (callsAborted : c.callsAborted = false)
  | down (teardown : TeardownPhase) (phase : c.phase = .connected) (unmanaged : ¬ managed)
    (teardowns : c.teardowns = [teardown])
    (closing : c.closing = if teardown = .finished then none else some 0)
    (disposals : c.disposals = if teardown = .disposing ∨ teardown = .finished then 1 else 0)
    (callsAborted : c.callsAborted = decide (teardown ≠ .aborting))

/-- `connectionCalls` and the calls that are running. -/
structure Tracked (c : GatewayConnection) : Prop where
  nonempty : c.connectionCalls ≠ some []
  nodup : (c.connectionCalls.getD []).Nodup
  running : ∀ k ∈ c.connectionCalls.getD [], ∃ call, c.calls[k]? = some call ∧ call.settled = false
  tracked : c.callsAborted = false → ∀ k call, c.calls[k]? = some call → call.settled = false →
    k ∈ c.connectionCalls.getD []

/-- Whoever closes the connection while it is torn down waits for the same teardown. -/
def Joined (c : GatewayConnection) : Prop :=
  ∀ closer ∈ c.closers, closer.concurrent = true → closer.awaiting = some 0

structure Sound (c : GatewayConnection) (managed : Prop) : Prop where
  staged : Staged c managed
  tracked : Tracked c
  joined : Joined c

variable {c : GatewayConnection} {managed : Prop}

theorem tracked_of_nil (hcalls : c.calls = []) (hentry : c.connectionCalls = none) : Tracked c := by
  refine ⟨?_, ?_, ?_, ?_⟩
  · rw [hentry]
    exact fun h => by cases h
  · rw [hentry]
    exact .nil
  · rw [hentry]
    exact fun _ h => by cases h
  · rw [hcalls]
    exact fun _ _ _ h => by cases h

theorem sound_new : Sound {} False :=
  ⟨.connecting rfl id rfl rfl rfl rfl rfl rfl, tracked_of_nil rfl rfl, fun _ h => by cases h⟩

theorem Sound.congr {managed' : Prop} (H : Sound c managed) (h : managed ↔ managed') :
    Sound c managed' := propext h ▸ H

/-! ## Steps of a connection -/

namespace Tracked

theorem of_calls (H : Tracked c) {c' : GatewayConnection} (hcalls : c'.calls = c.calls)
    (hentry : c'.connectionCalls = c.connectionCalls)
    (haborted : c'.callsAborted = c.callsAborted) : Tracked c' := by
  obtain ⟨hnonempty, hnodup, hrunning, htracked⟩ := H
  rw [← hcalls, ← hentry] at *
  exact ⟨hnonempty, hnodup, hrunning, haborted ▸ htracked⟩

theorem onRpc (H : Tracked c) : Tracked c.onRpc := by
  have hlt (k : Nat) (hk : k ∈ c.connectionCalls.getD []) : k < c.calls.length := by
    obtain ⟨call, hcall, -⟩ := H.running k hk
    exact (List.getElem?_eq_some_iff.mp hcall).1
  refine ⟨fun h => ?_, ?_, fun k hk => ?_, fun haborted k call hcall hsettled => ?_⟩
  · have := Option.some.inj h
    simp at this
  · refine List.nodup_append.mpr ⟨H.nodup, List.nodup_singleton _, ?_⟩
    rintro a ha b hb rfl
    cases List.mem_singleton.mp hb
    exact Nat.lt_irrefl _ (hlt _ ha)
  · obtain hk | hk := List.mem_append.mp hk
    · obtain ⟨call, hcall, hsettled⟩ := H.running k hk
      exact ⟨call, (List.getElem?_append_left (hlt k hk)).trans hcall, hsettled⟩
    · cases List.mem_singleton.mp hk
      exact ⟨_, getElem?_concat_iff.mpr (.inr ⟨rfl, rfl⟩), rfl⟩
  · obtain hcall | ⟨rfl, -⟩ := getElem?_concat_iff.mp hcall
    · exact List.mem_append_left _ (H.tracked haborted k call hcall hsettled)
    · exact List.mem_append_right _ (List.mem_singleton_self _)

/-- A change of one call that leaves it settled or not. -/
theorem modify (H : Tracked c) (k : Nat) {f : GatewayCall → GatewayCall}
    (hf : ∀ call, (f call).settled = call.settled) :
    Tracked { c with calls := c.calls.modify k f } := by
  refine ⟨H.nonempty, H.nodup, fun j hj => ?_, fun haborted j call hcall hsettled => ?_⟩
  · obtain ⟨call, hcall, hsettled⟩ := H.running j hj
    by_cases hk : k = j
    · subst hk
      exact ⟨f call, getElem?_modify_self hcall, (hf call).trans hsettled⟩
    · exact ⟨call, (getElem?_modify_of_ne (Ne.symm hk)).trans hcall, hsettled⟩
  · obtain ⟨old, hold, rfl⟩ := getElem?_modify_eq_some hcall
    refine H.tracked haborted j old hold ?_
    split at hsettled
    · exact (hf old).symm.trans hsettled
    · exact hsettled

theorem settle (H : Tracked c) (k : Nat) : Tracked (c.settle k) := by
  have hentry : (c.settle k).connectionCalls ≠ some [] ∧
      (c.settle k).connectionCalls.getD [] = (c.connectionCalls.getD []).erase k := by
    change (c.untrackCall k).connectionCalls ≠ some [] ∧
      (c.untrackCall k).connectionCalls.getD [] = (c.connectionCalls.getD []).erase k
    unfold GatewayConnection.untrackCall
    split
    · next hnone => rw [hnone]; exact ⟨fun h => (by cases h), rfl⟩
    · next calls hsome =>
      rw [hsome]
      dsimp only
      split
      · next hnil => exact ⟨fun h => (by cases h), hnil.symm⟩
      · next hcons => exact ⟨fun h => hcons (Option.some.inj h), rfl⟩
  have haborted : (c.settle k).callsAborted = c.callsAborted := by
    change (c.untrackCall k).callsAborted = c.callsAborted
    unfold GatewayConnection.untrackCall
    split <;> rfl
  have hcalls : (c.settle k).calls =
      c.calls.modify k fun call => { call with settled := true } := rfl
  refine ⟨hentry.1, ?_, fun j hj => ?_, fun h j call hcall hsettled => ?_⟩
  · rw [hentry.2]
    exact H.nodup.erase k
  · rw [hentry.2] at hj
    obtain ⟨hne, hj⟩ := H.nodup.mem_erase_iff.mp hj
    obtain ⟨call, hcall, hsettled⟩ := H.running j hj
    rw [hcalls, getElem?_modify_of_ne hne]
    exact ⟨call, hcall, hsettled⟩
  · rw [hcalls] at hcall
    obtain ⟨old, rfl, -, rfl⟩ | ⟨hne, hcall⟩ := getElem?_modify_cases hcall
    · cases hsettled
    · rw [hentry.2]
      exact (List.mem_erase_of_ne hne).mpr (H.tracked (haborted ▸ h) j call hcall hsettled)

theorem beginTeardown (H : Tracked c) : Tracked c.beginTeardown := by
  have hcalls : c.beginTeardown.calls =
      c.calls.map fun call => { call with overlaps := call.overlaps || !call.settled } := rfl
  refine ⟨H.nonempty, H.nodup, fun k hk => ?_, fun h k call hcall hsettled => ?_⟩
  · obtain ⟨call, hcall, hsettled⟩ := H.running k hk
    rw [hcalls, List.getElem?_map, hcall]
    exact ⟨_, rfl, hsettled⟩
  · rw [hcalls, List.getElem?_map] at hcall
    obtain ⟨old, hold, rfl⟩ := Option.map_eq_some_iff.mp hcall
    exact H.tracked h k old hold hsettled

theorem abortCalls : Tracked c.abortCalls :=
  ⟨fun h => (by cases h), .nil, fun _ h => (by cases h), fun h => (by cases h)⟩

theorem advance (H : Tracked c) (teardown : Nat) : Tracked (c.advance teardown) := by
  unfold GatewayConnection.advance
  split
  · exact abortCalls.of_calls rfl rfl rfl
  · exact H.of_calls rfl rfl rfl
  · exact H.of_calls rfl rfl rfl
  · exact H
  · exact H

end Tracked

namespace Staged

theorem resolved (H : Staged c managed) (hphase : c.phase = .resolving) :
    Staged c.resolved True := by
  cases H with
  | connecting _ _ teardowns closing disposals _ _ callsAborted =>
    exact .up rfl trivial teardowns closing disposals callsAborted
  | refused phase => rcases phase with phase | phase <;> cases hphase.symm.trans phase
  | up phase => cases hphase.symm.trans phase
  | down _ phase => cases hphase.symm.trans phase

theorem failed (H : Staged c managed) (hphase : c.phase = .resolving) :
    Staged c.failed managed := by
  cases H with
  | connecting _ unmanaged teardowns closing disposals calls connectionCalls _ =>
    exact .refused (.inl rfl) unmanaged teardowns closing (congrArg (· + 1) disposals) calls
      connectionCalls
  | refused phase => rcases phase with phase | phase <;> cases hphase.symm.trans phase
  | up phase => cases hphase.symm.trans phase
  | down _ phase => cases hphase.symm.trans phase

theorem rejected (H : Staged c managed) (hphase : c.phase = .failing) :
    Staged c.rejected managed := by
  cases H with
  | connecting phase => cases hphase.symm.trans phase
  | refused _ unmanaged teardowns closing disposals calls connectionCalls =>
    exact .refused (.inr rfl) unmanaged teardowns closing disposals calls connectionCalls
  | up phase => cases hphase.symm.trans phase
  | down _ phase => cases hphase.symm.trans phase

/-- A change of the calls of a connection that is connected. -/
theorem of_connected (H : Staged c managed) (hphase : c.phase = .connected) {c' : GatewayConnection}
    (hphase' : c'.phase = c.phase) (hteardowns : c'.teardowns = c.teardowns)
    (hclosing : c'.closing = c.closing) (hdisposals : c'.disposals = c.disposals)
    (haborted : c'.callsAborted = c.callsAborted) : Staged c' managed := by
  cases H with
  | connecting phase => cases hphase.symm.trans phase
  | refused phase => rcases phase with phase | phase <;> cases hphase.symm.trans phase
  | up phase managed teardowns closing disposals callsAborted =>
    exact .up (hphase'.trans phase) managed (hteardowns.trans teardowns) (hclosing.trans closing)
      (hdisposals.trans disposals) (haborted.trans callsAborted)
  | down teardown phase unmanaged teardowns closing disposals callsAborted =>
    exact .down teardown (hphase'.trans phase) unmanaged (hteardowns.trans teardowns)
      (hclosing.trans closing) (hdisposals.trans disposals) (haborted.trans callsAborted)

theorem beginTeardown (H : Staged c managed) (hmanaged : managed) :
    Staged c.beginTeardown False ∧ c.teardowns = [] := by
  cases H with
  | connecting _ unmanaged => exact absurd hmanaged unmanaged
  | refused _ unmanaged => exact absurd hmanaged unmanaged
  | up phase _ teardowns closing disposals callsAborted =>
    refine ⟨.down .aborting phase id ?_ ?_ disposals callsAborted, teardowns⟩
    · exact congrArg (· ++ [TeardownPhase.aborting]) teardowns
    · exact congrArg (fun l => some (List.length l)) teardowns
  | down _ _ unmanaged => exact absurd hmanaged unmanaged

theorem advance (H : Staged c managed) (teardown : Nat) : Staged (c.advance teardown) managed := by
  have hnil (hteardowns : c.teardowns = []) : c.advance teardown = c := by
    rw [GatewayConnection.advance, hteardowns]
    rfl
  have hstaged := H
  cases H with
  | connecting _ _ teardowns =>
    rw [hnil teardowns]
    exact hstaged
  | refused _ _ teardowns =>
    rw [hnil teardowns]
    exact hstaged
  | up _ _ teardowns =>
    rw [hnil teardowns]
    exact hstaged
  | down phase hphase unmanaged teardowns closing disposals callsAborted =>
    unfold GatewayConnection.advance
    rw [teardowns]
    cases teardown with
    | succ teardown => exact hstaged
    | zero =>
      cases phase with
      | aborting => exact .down .abortingCalls hphase unmanaged rfl closing disposals rfl
      | abortingCalls =>
        exact .down .disposing hphase unmanaged rfl closing (congrArg (· + 1) disposals)
          callsAborted
      | disposing => exact .down .finished hphase unmanaged rfl rfl disposals callsAborted
      | finished => exact hstaged

/-- The promise in `closingConnections` is that of the only teardown. -/
theorem closing_eq_some (H : Staged c managed) {teardown : Nat}
    (hclosing : c.closing = some teardown) :
    teardown = 0 ∧ ∃ phase, c.teardowns = [phase] ∧ phase ≠ .finished := by
  cases H with
  | connecting _ _ _ closing => cases hclosing.symm.trans closing
  | refused _ _ _ closing => cases hclosing.symm.trans closing
  | up _ _ _ closing => cases hclosing.symm.trans closing
  | down phase _ _ teardowns closing =>
    rw [hclosing] at closing
    split at closing
    · cases closing
    · next hfinished =>
      cases closing
      exact ⟨rfl, phase, teardowns, hfinished⟩

theorem inFlight_eq_false (H : Staged c managed) (hclosing : c.closing = none) :
    c.inFlight = false := by
  cases H with
  | connecting _ _ teardowns | refused _ _ teardowns | up _ _ teardowns =>
    rw [GatewayConnection.inFlight, teardowns]
    rfl
  | down phase _ _ teardowns closing =>
    rw [hclosing] at closing
    split at closing
    · next hfinished =>
      rw [GatewayConnection.inFlight, teardowns, hfinished]
      rfl
    · cases closing

/-- Only a connection that is connected has calls. -/
theorem connected_or (H : Staged c managed) :
    c.phase = .connected ∨ c.calls = [] ∧ c.connectionCalls = none := by
  cases H with
  | connecting _ _ _ _ _ calls connectionCalls => exact .inr ⟨calls, connectionCalls⟩
  | refused _ _ _ _ _ calls connectionCalls => exact .inr ⟨calls, connectionCalls⟩
  | up phase => exact .inl phase
  | down _ phase => exact .inl phase

end Staged

namespace Sound

theorem resolved (H : Sound c managed) (hphase : c.phase = .resolving) : Sound c.resolved True :=
  ⟨H.staged.resolved hphase, H.tracked.of_calls rfl rfl rfl, H.joined⟩

theorem failed (H : Sound c managed) (hphase : c.phase = .resolving) : Sound c.failed managed :=
  ⟨H.staged.failed hphase, H.tracked.of_calls rfl rfl rfl, H.joined⟩

theorem rejected (H : Sound c managed) (hphase : c.phase = .failing) : Sound c.rejected managed :=
  ⟨H.staged.rejected hphase, H.tracked.of_calls rfl rfl rfl, H.joined⟩

theorem onRpc (H : Sound c managed) (hphase : c.phase = .connected) : Sound c.onRpc managed :=
  ⟨H.staged.of_connected hphase rfl rfl rfl rfl rfl, H.tracked.onRpc, H.joined⟩

theorem advance (H : Sound c managed) (teardown : Nat) : Sound (c.advance teardown) managed := by
  refine ⟨H.staged.advance teardown, H.tracked.advance teardown, ?_⟩
  have hclosers : (c.advance teardown).closers = c.closers := by
    unfold GatewayConnection.advance
    split <;> rfl
  unfold Joined
  rw [hclosers]
  exact H.joined

theorem signal (H : Sound c managed) (call : Nat) : Sound (c.signal call) managed := by
  refine ⟨?_, H.tracked.modify call fun _ => rfl, H.joined⟩
  obtain hphase | ⟨hcalls, -⟩ := H.staged.connected_or
  · exact H.staged.of_connected hphase rfl rfl rfl rfl rfl
  · have hsignal : c.signal call = c := by
      rw [GatewayConnection.signal, hcalls, List.modify_nil, ← hcalls]
    rw [hsignal]
    exact H.staged

theorem settle (H : Sound c managed) (call : Nat) : Sound (c.settle call) managed := by
  have huntrack : (c.untrackCall call).phase = c.phase ∧
      (c.untrackCall call).teardowns = c.teardowns ∧ (c.untrackCall call).closing = c.closing ∧
      (c.untrackCall call).disposals = c.disposals ∧
      (c.untrackCall call).callsAborted = c.callsAborted ∧
      (c.untrackCall call).closers = c.closers := by
    unfold GatewayConnection.untrackCall
    split <;> exact ⟨rfl, rfl, rfl, rfl, rfl, rfl⟩
  obtain ⟨hphase', hteardowns, hclosing, hdisposals, haborted, hclosers⟩ := huntrack
  refine ⟨?_, H.tracked.settle call, fun closer hmem => H.joined closer (hclosers ▸ hmem)⟩
  obtain hphase | ⟨hcalls, hentry⟩ := H.staged.connected_or
  · exact H.staged.of_connected hphase hphase' hteardowns hclosing hdisposals haborted
  · have hsettle : c.settle call = c := by
      rw [GatewayConnection.settle, GatewayConnection.untrackCall, hentry]
      dsimp only
      rw [hcalls, List.modify_nil, ← hcalls]
    rw [hsettle]
    exact H.staged

theorem addCloser (H : Sound c managed) {closer : Closer}
    (hcloser : closer.concurrent = true → closer.awaiting = some 0) :
    Sound { c with closers := c.closers ++ [closer] } managed := by
  refine ⟨?_, H.tracked.of_calls rfl rfl rfl, fun closer' hmem => ?_⟩
  · cases H.staged with
    | connecting phase unmanaged teardowns closing disposals calls connectionCalls callsAborted =>
      exact .connecting phase unmanaged teardowns closing disposals calls connectionCalls
        callsAborted
    | refused phase unmanaged teardowns closing disposals calls connectionCalls =>
      exact .refused phase unmanaged teardowns closing disposals calls connectionCalls
    | up phase managed teardowns closing disposals callsAborted =>
      exact .up phase managed teardowns closing disposals callsAborted
    | down teardown phase unmanaged teardowns closing disposals callsAborted =>
      exact .down teardown phase unmanaged teardowns closing disposals callsAborted
  · obtain hmem | hmem := List.mem_append.mp hmem
    · exact H.joined closer' hmem
    · cases List.mem_singleton.mp hmem
      exact hcloser

end Sound

/-! ## Steps of the gateway -/

namespace Gateway

/-- What holds of every connection in every run. -/
structure Kept (g : Gateway) : Prop where
  nodup : g.manager.Nodup
  sound : ∀ i c, g.connections[i]? = some c → Sound c (i ∈ g.manager)
  bounded : ∀ i ∈ g.manager, ∃ c, g.connections[i]? = some c

variable {g : Gateway}

/-- A step of one connection that is kept where it is. -/
theorem Kept.update (H : g.Kept) (i : Nat) {f : GatewayConnection → GatewayConnection}
    (hf : ∀ c, g.connections[i]? = some c → Sound c (i ∈ g.manager) → Sound (f c) (i ∈ g.manager)) :
    (g.update i f).Kept := by
  refine ⟨H.nodup, fun j c hc => ?_, fun j hj => ?_⟩
  · obtain ⟨old, rfl, hold, rfl⟩ | ⟨-, hc⟩ := getElem?_modify_cases hc
    · exact hf old hold (H.sound _ old hold)
    · exact H.sound j c hc
  · obtain ⟨c, hc⟩ := H.bounded j hj
    by_cases hij : i = j
    · subst hij
      exact ⟨f c, getElem?_modify_self hc⟩
    · exact ⟨c, (getElem?_modify_of_ne (Ne.symm hij)).trans hc⟩

/-- The teardown that `closeConnection` begins. -/
theorem Kept.claim (H : g.Kept) {i : Nat} (hi : i ∈ g.manager) :
    ({ g with manager := g.manager.erase i }.update i (·.beginTeardown)).Kept := by
  have hnot : i ∉ g.manager.erase i := fun h => (H.nodup.mem_erase_iff.mp h).1 rfl
  refine ⟨H.nodup.erase i, fun j c hc => ?_, fun j hj => ?_⟩
  · obtain ⟨old, rfl, hold, rfl⟩ | ⟨hne, hc⟩ := getElem?_modify_cases hc
    · have hsound := H.sound _ old hold
      obtain ⟨hstaged, -⟩ := hsound.staged.beginTeardown hi
      refine Sound.congr ⟨hstaged, hsound.tracked.beginTeardown, hsound.joined⟩ ?_
      exact ⟨False.elim, hnot⟩
    · refine (H.sound j c hc).congr ?_
      exact (List.mem_erase_of_ne hne).symm
  · obtain ⟨hne, hj⟩ := H.nodup.mem_erase_iff.mp hj
    obtain ⟨c, hc⟩ := H.bounded j hj
    exact ⟨c, (getElem?_modify_of_ne hne).trans hc⟩

theorem Kept.closeConnection (H : g.Kept) (i : Nat) : (g.closeConnection i).1.Kept := by
  unfold Gateway.closeConnection
  split
  · exact H
  · next c hc =>
    have hsound := H.sound i c hc
    split
    · next teardown hclosing =>
      refine H.update i fun _ _ h => h.addCloser fun _ => ?_
      exact congrArg some (hsound.staged.closing_eq_some hclosing).1
    · next hclosing =>
      split
      · next hi =>
        refine (H.claim hi).update i fun _ _ h => h.addCloser fun _ => ?_
        exact congrArg (fun l => some (List.length l)) (hsound.staged.beginTeardown hi).2
      · refine H.update i fun _ _ h => h.addCloser fun hconcurrent => ?_
        rw [hsound.staged.inFlight_eq_false hclosing] at hconcurrent
        cases hconcurrent

theorem Kept.sweep (H : g.Kept) : g.sweep.1.Kept := by
  unfold Gateway.sweep
  split
  · exact H
  · exact H.closeConnection _

theorem Kept.stops (H : g.Kept) (stops : List StopPhase) : { g with stops }.Kept :=
  ⟨H.nodup, H.sound, H.bounded⟩

theorem Kept.stopAwaited (H : g.Kept) (stop : Nat) : (g.stopAwaited stop).Kept := by
  unfold Gateway.stopAwaited
  split
  · exact H.sweep.stops _
  · split
    · exact H.sweep.stops _
    · exact H
  · split
    · exact H.stops _
    · exact H
  · exact H
  · exact H

theorem isResolving_iff {i : Nat} : g.isResolving i = true ↔
    ∃ c, g.connections[i]? = some c ∧ c.phase = .resolving := by
  simp [isResolving, Option.any_eq_true]

theorem isConnected_iff {i : Nat} : g.isConnected i = true ↔
    ∃ c, g.connections[i]? = some c ∧ c.phase = .connected := by
  simp [isConnected, Option.any_eq_true]

theorem Kept.resolved (H : g.Kept) {i : Nat} (hi : g.isResolving i = true) :
    { g.update i (·.resolved) with manager := g.manager ++ [i] }.Kept := by
  obtain ⟨c, hc, hphase⟩ := isResolving_iff.mp hi
  have hnot : i ∉ g.manager := by
    cases (H.sound i c hc).staged with
    | connecting _ unmanaged => exact unmanaged
    | refused _ unmanaged => exact unmanaged
    | up phase => cases hphase.symm.trans phase
    | down _ phase => cases hphase.symm.trans phase
  refine ⟨?_, fun j c' hc' => ?_, fun j hj => ?_⟩
  · refine List.nodup_append.mpr ⟨H.nodup, List.nodup_singleton i, ?_⟩
    rintro a ha b hb rfl
    cases List.mem_singleton.mp hb
    exact hnot ha
  · obtain ⟨old, rfl, hold, rfl⟩ | ⟨hne, hc'⟩ := getElem?_modify_cases hc'
    · cases hc.symm.trans hold
      refine ((H.sound _ c hc).resolved hphase).congr ?_
      exact iff_of_true trivial (List.mem_append_right _ (List.mem_singleton_self _))
    · refine (H.sound j c' hc').congr ⟨List.mem_append_left _, fun h => ?_⟩
      exact (List.mem_append.mp h).resolve_right fun h => hne (List.mem_singleton.mp h)
  · have hj' : ∃ c, g.connections[j]? = some c := by
      obtain hj | hj := List.mem_append.mp hj
      · exact H.bounded j hj
      · cases List.mem_singleton.mp hj
        exact ⟨c, hc⟩
    obtain ⟨old, hold⟩ := hj'
    exact ⟨_, (List.getElem?_modify _ _ _ _).trans (congrArg (Option.map _) hold)⟩

theorem Kept.onConnect (H : g.Kept) :
    { g with connections := g.connections ++ [({} : GatewayConnection)] }.Kept := by
  have hlt (i : Nat) (hi : i ∈ g.manager) : i < g.connections.length := by
    obtain ⟨c, hc⟩ := H.bounded i hi
    exact (List.getElem?_eq_some_iff.mp hc).1
  refine ⟨H.nodup, fun i c hc => ?_, fun i hi => ?_⟩
  · obtain hc | ⟨rfl, rfl⟩ := getElem?_concat_iff.mp hc
    · exact H.sound i c hc
    · exact sound_new.congr ⟨False.elim, fun h => Nat.lt_irrefl _ (hlt _ h)⟩
  · obtain ⟨c, hc⟩ := H.bounded i hi
    exact ⟨c, (List.getElem?_append_left (hlt i hi)).trans hc⟩

theorem Kept.step (H : g.Kept) (event : GatewayEvent) : (g.step event).Kept := by
  cases event with
  | onConnect => exact H.onConnect
  | resolved i =>
    change (if g.isResolving i = true then _ else g : Gateway).Kept
    split
    · next hi => exact H.resolved hi
    · exact H
  | failed i =>
    change (if g.isResolving i = true then _ else g : Gateway).Kept
    split
    · next hi =>
      obtain ⟨c, hc, hphase⟩ := isResolving_iff.mp hi
      refine H.update i fun c' hc' h => h.failed ?_
      cases hc.symm.trans hc'
      exact hphase
    · exact H
  | rejected i =>
    refine H.update i fun c hc h => ?_
    split
    · next hphase => exact h.rejected hphase
    · exact h
  | onDisconnect i => exact H.closeConnection i
  | teardown i teardown => exact H.update i fun c hc h => h.advance teardown
  | onRpc i =>
    change (if g.isConnected i = true then _ else g : Gateway).Kept
    split
    · next hi =>
      obtain ⟨c, hc, hphase⟩ := isConnected_iff.mp hi
      refine H.update i fun c' hc' h => h.onRpc ?_
      cases hc.symm.trans hc'
      exact hphase
    · exact H
  | signal i call => exact H.update i fun c hc h => h.signal call
  | settle i call => exact H.update i fun c hc h => h.settle call
  | stop => exact H.stops _
  | stopAwaited stop => exact H.stopAwaited stop

theorem kept_after (events : List GatewayEvent) : (after events).Kept := by
  have hempty : ({} : Gateway).Kept :=
    ⟨.nil, fun _ _ h => (by cases h), fun _ h => (by cases h)⟩
  exact Trace.run_inv step (P := fun _ => True) (fun _ event _ H => H.step event)
    (fun _ _ => trivial) hempty

/-- What holds in every run: a container is disposed at most once, and that of a connection that was
refused or torn down is; `connectionCalls` has no entry left for the calls that have settled; and
those who close a connection at the same time wait for the same teardown. -/
structure Orderly (g : Gateway) : Prop where
  once : ∀ c ∈ g.connections, c.disposals ≤ 1
  refused : ∀ c ∈ g.connections, c.phase = .failing ∨ c.phase = .rejected → c.disposals = 1
  closed : ∀ c ∈ g.connections, .finished ∈ c.teardowns → c.disposals = 1
  calls : ∀ c ∈ g.connections, .finished ∈ c.teardowns → (∀ call ∈ c.calls, call.settled = true) →
    c.connectionCalls = none
  joined : ∀ c ∈ g.connections, ∃ teardown, ∀ closer ∈ c.closers, closer.concurrent = true →
    closer.awaiting = some teardown

end Gateway

theorem Staged.disposals_le (H : Staged c managed) : c.disposals ≤ 1 := by
  cases H with
  | connecting _ _ _ _ disposals => exact disposals ▸ Nat.zero_le 1
  | refused _ _ _ _ disposals => exact disposals ▸ Nat.le_refl 1
  | up _ _ _ _ disposals => exact disposals ▸ Nat.zero_le 1
  | down _ _ _ _ _ disposals =>
    rw [disposals]
    split
    · exact Nat.le_refl 1
    · exact Nat.zero_le 1

theorem Staged.disposals_refused (H : Staged c managed)
    (hphase : c.phase = .failing ∨ c.phase = .rejected) : c.disposals = 1 := by
  cases H with
  | connecting phase => simp [phase] at hphase
  | refused _ _ _ _ disposals => exact disposals
  | up phase => simp [phase] at hphase
  | down _ phase => simp [phase] at hphase

theorem Staged.disposals_finished (H : Staged c managed) (hfinished : .finished ∈ c.teardowns) :
    c.disposals = 1 := by
  cases H with
  | connecting _ _ teardowns => simp [teardowns] at hfinished
  | refused _ _ teardowns => simp [teardowns] at hfinished
  | up _ _ teardowns => simp [teardowns] at hfinished
  | down teardown _ _ teardowns _ disposals =>
    rw [teardowns] at hfinished
    cases List.mem_singleton.mp hfinished
    exact disposals

theorem Tracked.eq_none (H : Tracked c) (hsettled : ∀ call ∈ c.calls, call.settled = true) :
    c.connectionCalls = none := by
  cases hentry : c.connectionCalls with
  | none => rfl
  | some tracked =>
    cases tracked with
    | nil => exact absurd hentry H.nonempty
    | cons k tracked =>
      obtain ⟨call, hcall, hrunning⟩ := H.running k (by rw [hentry]; exact List.mem_cons_self)
      cases (hsettled call (List.mem_of_getElem? hcall)).symm.trans hrunning

namespace Gateway

variable {g : Gateway}

theorem Kept.orderly (H : g.Kept) : g.Orderly := by
  have hsound (c : GatewayConnection) (hc : c ∈ g.connections) : ∃ managed, Sound c managed := by
    obtain ⟨i, hi⟩ := List.mem_iff_getElem?.mp hc
    exact ⟨_, H.sound i c hi⟩
  refine ⟨fun c hc => ?_, fun c hc => ?_, fun c hc => ?_, fun c hc _ => ?_, fun c hc => ?_⟩
  all_goals obtain ⟨managed, hsound⟩ := hsound c hc
  · exact hsound.staged.disposals_le
  · exact hsound.staged.disposals_refused
  · exact hsound.staged.disposals_finished
  · exact hsound.tracked.eq_none
  · exact ⟨0, hsound.joined⟩

end Gateway

/-! ## Calls that begin in time -/

/-- A call that overlaps the teardown is aborted, at the latest by `abortCalls`. -/
def Overtaken (c : GatewayConnection) : Prop :=
  ∀ call ∈ c.calls, call.overlaps = true → (c.callsAborted = true ∨ call.settled = true) →
    call.aborted = true

namespace Overtaken

theorem onRpc (H : Overtaken c) (haborted : c.callsAborted = false) : Overtaken c.onRpc := by
  intro call hcall hoverlaps hover
  obtain hcall | hcall := List.mem_append.mp hcall
  · exact H call hcall hoverlaps hover
  · cases List.mem_singleton.mp hcall
    obtain hover | hover := hover
    · cases haborted.symm.trans hover
    · cases hover

theorem signal (H : Overtaken c) (call : Nat) : Overtaken (c.signal call) := by
  intro call' hcall' hoverlaps hover
  obtain hcall' | ⟨old, -, rfl⟩ := mem_modify hcall'
  · exact H call' hcall' hoverlaps hover
  · rfl

theorem settle (H : Overtaken c) {k : Nat}
    (hin : ∀ call, c.calls[k]? = some call → call.overlaps = true →
      c.callsAborted = true ∨ call.aborted = true) : Overtaken (c.settle k) := by
  have haborted : (c.settle k).callsAborted = c.callsAborted := by
    change (c.untrackCall k).callsAborted = c.callsAborted
    unfold GatewayConnection.untrackCall
    split <;> rfl
  intro call hcall hoverlaps hover
  rw [haborted] at hover
  obtain hcall | ⟨old, hold, rfl⟩ := mem_modify hcall
  · exact H call hcall hoverlaps hover
  · obtain hin | hin := hin old hold hoverlaps
    · exact H old (List.mem_of_getElem? hold) hoverlaps (.inl hin)
    · exact hin

theorem beginTeardown (H : Overtaken c) (haborted : c.callsAborted = false) :
    Overtaken c.beginTeardown := by
  intro call hcall hoverlaps hover
  obtain ⟨old, hold, rfl⟩ := List.mem_map.mp hcall
  obtain hover | hover := hover
  · cases haborted.symm.trans hover
  · refine H old hold ?_ (.inr hover)
    simpa [show old.settled = true from hover] using hoverlaps

theorem abortCalls (H : Overtaken c) (T : Tracked c) (haborted : c.callsAborted = false) :
    Overtaken c.abortCalls := by
  intro call hcall hoverlaps _
  obtain ⟨k, hk⟩ := List.mem_iff_getElem?.mp hcall
  change (c.calls.mapIdx _)[k]? = some call at hk
  rw [List.getElem?_mapIdx] at hk
  obtain ⟨old, hold, rfl⟩ := Option.map_eq_some_iff.mp hk
  split
  · rfl
  · next hnot =>
    rw [if_neg hnot] at hoverlaps
    cases hsettled : old.settled with
    | false => exact absurd (T.tracked haborted k old hold hsettled) hnot
    | true => exact H old (List.mem_of_getElem? hold) hoverlaps (.inr hsettled)

theorem advance (H : Overtaken c) (S : Sound c managed) (teardown : Nat) :
    Overtaken (c.advance teardown) := by
  have hcongr {c c' : GatewayConnection} (H : Overtaken c) (hcalls : c'.calls = c.calls)
      (haborted : c'.callsAborted = c.callsAborted) : Overtaken c' := by
    unfold Overtaken
    rw [hcalls, haborted]
    exact H
  unfold GatewayConnection.advance
  split
  · next haborting =>
    have haborted : c.callsAborted = false := by
      cases S.staged with
      | connecting _ _ teardowns => simp [teardowns] at haborting
      | refused _ _ teardowns => simp [teardowns] at haborting
      | up _ _ teardowns => simp [teardowns] at haborting
      | down phase _ _ teardowns _ _ callsAborted =>
        rw [teardowns] at haborting
        cases teardown with
        | succ teardown => cases haborting
        | zero =>
          cases haborting
          exact callsAborted
    exact hcongr (H.abortCalls S.tracked haborted) rfl rfl
  · exact hcongr H rfl rfl
  · exact hcongr H rfl rfl
  · exact H
  · exact H

end Overtaken

/-- The sweep has come to an end. -/
def StopPhase.hasSwept : StopPhase → Bool
  | .closing _ | .settled => true
  | .transports | .sweeping _ => false

namespace Gateway

variable {g : Gateway}

/-- No call begins on a connection after its `abortCalls`, and none ends between the start of the
teardown and `abortCalls`. -/
def InTime (g : Gateway) : GatewayEvent → Prop
  | .onRpc i => ∀ c, g.connections[i]? = some c → c.callsAborted = false
  | .settle i k => ∀ c, g.connections[i]? = some c → ∀ call, c.calls[k]? = some call →
    call.overlaps = true → c.callsAborted = true ∨ call.aborted = true
  | _ => True

/-- Once a teardown has come past `abortCalls`, every call that was running when it began, or began
later, is aborted. -/
def CallsAborted (g : Gateway) : Prop :=
  ∀ c ∈ g.connections, (∃ teardown ∈ c.teardowns, teardown ≠ .aborting) →
    ∀ call ∈ c.calls, call.overlaps = true → call.aborted = true

structure Timely (g : Gateway) : Prop where
  kept : g.Kept
  overtaken : ∀ (i : Nat) (c : GatewayConnection), g.connections[i]? = some c → Overtaken c

/-- What holds of every connection, after one has changed. -/
theorem forall_update {P : GatewayConnection → Prop}
    (h : ∀ (i : Nat) (c : GatewayConnection), g.connections[i]? = some c → P c) {i : Nat}
    {f : GatewayConnection → GatewayConnection}
    (hf : ∀ c, g.connections[i]? = some c → P c → P (f c)) (j : Nat) (c : GatewayConnection)
    (hc : (g.update i f).connections[j]? = some c) : P c := by
  obtain ⟨old, rfl, hold, rfl⟩ | ⟨-, hc⟩ := getElem?_modify_cases hc
  · exact hf old hold (h _ old hold)
  · exact h j c hc

theorem Timely.closeConnection (H : g.Timely) (i : Nat) :
    ∀ (j : Nat) (c : GatewayConnection),
      (g.closeConnection i).1.connections[j]? = some c → Overtaken c := by
  unfold Gateway.closeConnection
  split
  · exact H.overtaken
  · next c hc =>
    split
    · exact forall_update H.overtaken fun _ _ h => h
    · split
      · next hi =>
        have hclaimed := forall_update (g := { g with manager := g.manager.erase i }) (i := i)
          (f := (·.beginTeardown)) H.overtaken fun c hc h => h.beginTeardown (by
            cases (H.kept.sound i c hc).staged with
            | connecting _ unmanaged => exact absurd hi unmanaged
            | refused _ unmanaged => exact absurd hi unmanaged
            | up _ _ _ _ _ callsAborted => exact callsAborted
            | down _ _ unmanaged => exact absurd hi unmanaged)
        exact forall_update hclaimed fun _ _ h => h
      · exact forall_update H.overtaken fun _ _ h => h

theorem Timely.sweep (H : g.Timely) : ∀ (j : Nat) (c : GatewayConnection),
    g.sweep.1.connections[j]? = some c → Overtaken c := by
  unfold Gateway.sweep
  split
  · exact H.overtaken
  · exact H.closeConnection _

theorem Timely.step (event : GatewayEvent) (hin : g.InTime event) (H : g.Timely) :
    (g.step event).Timely := by
  refine ⟨H.kept.step event, ?_⟩
  cases event with
  | onConnect =>
    intro i c hc
    obtain hc | ⟨rfl, rfl⟩ := getElem?_concat_iff.mp hc
    · exact H.overtaken i c hc
    · exact fun _ h => by cases h
  | resolved i =>
    change ∀ (j : Nat) c,
      (if g.isResolving i = true then _ else g : Gateway).connections[j]? = _ → _
    split
    · exact forall_update H.overtaken fun _ _ h => h
    · exact H.overtaken
  | failed i =>
    change ∀ (j : Nat) c,
      (if g.isResolving i = true then _ else g : Gateway).connections[j]? = _ → _
    split
    · exact forall_update H.overtaken fun _ _ h => h
    · exact H.overtaken
  | rejected i =>
    refine forall_update H.overtaken fun c _ h => ?_
    split <;> exact h
  | onDisconnect i => exact H.closeConnection i
  | teardown i teardown =>
    exact forall_update H.overtaken fun c hc h => h.advance (H.kept.sound i c hc) teardown
  | onRpc i =>
    change ∀ (j : Nat) c,
      (if g.isConnected i = true then _ else g : Gateway).connections[j]? = _ → _
    split
    · exact forall_update H.overtaken fun c hc h => h.onRpc (hin c hc)
    · exact H.overtaken
  | signal i call => exact forall_update H.overtaken fun _ _ h => h.signal call
  | settle i call => exact forall_update H.overtaken fun c hc h => h.settle (hin c hc)
  | stop => exact H.overtaken
  | stopAwaited stop =>
    change ∀ (j : Nat) c, (g.stopAwaited stop).connections[j]? = _ → _
    unfold Gateway.stopAwaited
    split
    · exact H.sweep
    · split
      · exact H.sweep
      · exact H.overtaken
    · split
      · exact H.overtaken
      · exact H.overtaken
    · exact H.overtaken
    · exact H.overtaken

theorem Timely.callsAborted (H : g.Timely) : g.CallsAborted := by
  rintro c hc ⟨teardown, hteardown, hpast⟩ call hcall hoverlaps
  obtain ⟨i, hi⟩ := List.mem_iff_getElem?.mp hc
  refine H.overtaken i c hi call hcall hoverlaps (.inl ?_)
  cases (H.kept.sound i c hi).staged with
  | connecting _ _ teardowns => simp [teardowns] at hteardown
  | refused _ _ teardowns => simp [teardowns] at hteardown
  | up _ _ teardowns => simp [teardowns] at hteardown
  | down phase _ _ teardowns _ _ callsAborted =>
    rw [teardowns] at hteardown
    cases List.mem_singleton.mp hteardown
    rw [callsAborted]
    exact decide_eq_true hpast

/-! ## Connections that are made in time -/

/-- The sweep of a `stop` has ended. -/
def Swept (g : Gateway) : Prop := ∃ phase ∈ g.stops, phase.hasSwept = true

/-- No identity is resolved once a sweep has ended. -/
def BeforeSweep (g : Gateway) : GatewayEvent → Prop
  | .resolved _ => ¬ g.Swept
  | _ => True

/-- When a `stop` and every `onConnect` have settled, the manager is empty and every container is
disposed. -/
def Cleared (g : Gateway) : Prop :=
  .settled ∈ g.stops →
    (∀ c ∈ g.connections, c.phase ≠ .resolving ∧ c.phase ≠ .failing) →
      g.manager = [] ∧ ∀ c ∈ g.connections, c.disposals = 1

/-- What the end of a sweep leaves. -/
structure Emptied (g : Gateway) : Prop where
  kept : g.Kept
  manager : g.Swept → g.manager = []
  closing : ∀ awaiting, .closing awaiting ∈ g.stops → ∀ (i : Nat) c teardown,
    g.connections[i]? = some c → c.closing = some teardown → (i, teardown) ∈ awaiting
  settled : .settled ∈ g.stops → ∀ (i : Nat) c, g.connections[i]? = some c → c.closing = none

namespace Emptied

/-- Nothing is claimed once a sweep has ended. -/
theorem of_closing (H : g.Emptied) {g' : Gateway} (kept : g'.Kept) (hstops : g'.stops = g.stops)
    (hmanager : g.Swept → g'.manager = [])
    (hclosing : g.Swept → ∀ (i : Nat) c' teardown, g'.connections[i]? = some c' →
      c'.closing = some teardown → ∃ c, g.connections[i]? = some c ∧ c.closing = some teardown) :
    g'.Emptied := by
  refine ⟨kept, ?_, ?_, ?_⟩
  · intro hswept
    rw [Swept, hstops] at hswept
    exact hmanager hswept
  · intro awaiting hawaiting i c' teardown hc' h
    rw [hstops] at hawaiting
    have hswept : g.Swept := ⟨_, hawaiting, rfl⟩
    obtain ⟨c, hc, h⟩ := hclosing hswept i c' teardown hc' h
    exact H.closing awaiting hawaiting i c teardown hc h
  · intro hsettled i c' hc'
    rw [hstops] at hsettled
    have hswept : g.Swept := ⟨_, hsettled, rfl⟩
    cases h : c'.closing with
    | none => rfl
    | some teardown =>
      obtain ⟨c, hc, h⟩ := hclosing hswept i c' teardown hc' h
      cases h.symm.trans (H.settled hsettled i c hc)

theorem update (H : g.Emptied) {i : Nat} {f : GatewayConnection → GatewayConnection}
    (kept : (g.update i f).Kept) (hf : ∀ c, (f c).closing = c.closing ∨ (f c).closing = none) :
    (g.update i f).Emptied := by
  refine H.of_closing kept rfl H.manager fun _ j c' teardown hc' h => ?_
  obtain ⟨old, rfl, hold, rfl⟩ | ⟨-, hc'⟩ := getElem?_modify_cases hc'
  · obtain hsame | hnone := hf old
    · exact ⟨old, hold, hsame.symm.trans h⟩
    · cases h.symm.trans hnone
  · exact ⟨c', hc', h⟩

theorem closeConnection (H : g.Emptied) (i : Nat) : (g.closeConnection i).1.Emptied := by
  have kept := H.kept.closeConnection i
  unfold Gateway.closeConnection at kept ⊢
  split at kept
  · exact H
  · split at kept
    · exact H.update kept fun _ => .inl rfl
    · split at kept
      · next hi =>
        rw [if_pos hi]
        refine H.of_closing kept rfl (fun hswept => ?_) fun hswept => ?_
        · rw [H.manager hswept] at hi
          cases hi
        · rw [H.manager hswept] at hi
          cases hi
      · next hi =>
        rw [if_neg hi]
        exact H.update kept fun _ => .inl rfl

/-- The phase of one `stop` changes. -/
theorem set (H : g.Emptied) (stop : Nat) {phase : StopPhase}
    (hmanager : phase.hasSwept = true → g.manager = [])
    (hclosing : ∀ awaiting, phase = .closing awaiting → ∀ (i : Nat) c teardown,
      g.connections[i]? = some c → c.closing = some teardown → (i, teardown) ∈ awaiting)
    (hsettled : phase = .settled → ∀ (i : Nat) c, g.connections[i]? = some c → c.closing = none) :
    { g with stops := g.stops.set stop phase }.Emptied := by
  refine ⟨H.kept.stops _, ?_, ?_, ?_⟩
  · rintro ⟨phase', hmem, hphase'⟩
    obtain hmem | rfl := List.mem_or_eq_of_mem_set hmem
    · exact H.manager ⟨phase', hmem, hphase'⟩
    · exact hmanager hphase'
  · intro awaiting hmem
    obtain hmem | heq := List.mem_or_eq_of_mem_set hmem
    · exact H.closing awaiting hmem
    · exact hclosing awaiting heq.symm
  · intro hmem
    obtain hmem | heq := List.mem_or_eq_of_mem_set hmem
    · exact H.settled hmem
    · exact hsettled heq.symm

theorem mem_closingConnections {i teardown : Nat} (hc : g.connections[i]? = some c)
    (hclosing : c.closing = some teardown) : (i, teardown) ∈ g.closingConnections := by
  refine List.mem_filterMap.mpr ⟨some (i, teardown), List.mem_iff_getElem?.mpr ⟨i, ?_⟩, rfl⟩
  rw [List.getElem?_mapIdx, hc, Option.map_some, hclosing]
  rfl

/-- The sweep claims the next connection, or it ends. -/
theorem sweep (H : g.Emptied) (stop : Nat) :
    { g.sweep.1 with stops := g.sweep.1.stops.set stop g.sweep.2 }.Emptied := by
  unfold Gateway.sweep
  split
  · next hmanager =>
    refine H.set stop (fun _ => hmanager) (fun awaiting heq i c teardown hc hclosing => ?_) ?_
    · cases heq
      exact mem_closingConnections hc hclosing
    · exact fun heq => by cases heq
  · next i _ _ =>
    refine (H.closeConnection i).set stop ?_ ?_ ?_
    · exact fun h => by cases h
    · exact fun awaiting heq => by cases heq
    · exact fun heq => by cases heq

theorem stopAwaited (H : g.Emptied) (stop : Nat) : (g.stopAwaited stop).Emptied := by
  unfold Gateway.stopAwaited
  split
  · exact H.sweep stop
  · split
    · exact H.sweep stop
    · exact H
  · next awaiting hstop =>
    have hmem := List.mem_of_getElem? hstop
    split
    · next hfinished =>
      refine H.set stop (fun _ => H.manager ⟨_, hmem, rfl⟩)
        (fun _ heq => by cases heq) fun _ i c hc => ?_
      cases hclosing : c.closing with
      | none => rfl
      | some teardown =>
        -- a promise of `closingConnections` has not settled
        have hdone := List.all_eq_true.mp hfinished _
          (H.closing awaiting hmem i c teardown hc hclosing)
        obtain ⟨rfl, phase, hteardowns, hphase⟩ :=
          (H.kept.sound i c hc).staged.closing_eq_some hclosing
        unfold hasFinished at hdone
        rw [hc, Option.bind_some, hteardowns] at hdone
        cases phase with
        | finished => exact absurd rfl hphase
        | aborting | abortingCalls | disposing => cases hdone
    · exact H
  · exact H
  · exact H

theorem step (event : GatewayEvent) (hbefore : g.BeforeSweep event) (H : g.Emptied) :
    (g.step event).Emptied := by
  have kept := H.kept.step event
  cases event with
  | onConnect =>
    refine H.of_closing kept rfl H.manager fun _ i c' teardown hc' h => ?_
    obtain hc' | ⟨rfl, rfl⟩ := getElem?_concat_iff.mp hc'
    · exact ⟨c', hc', h⟩
    · cases h
  | resolved i =>
    change (if g.isResolving i = true then _ else g : Gateway).Emptied
    change (if g.isResolving i = true then _ else g : Gateway).Kept at kept
    split at kept
    · next hi =>
      rw [if_pos hi]
      exact H.of_closing kept rfl (fun h => absurd h hbefore) fun h => absurd h hbefore
    · next hi =>
      rw [if_neg hi]
      exact H
  | failed i =>
    change (if g.isResolving i = true then _ else g : Gateway).Emptied
    change (if g.isResolving i = true then _ else g : Gateway).Kept at kept
    split at kept
    · next hi =>
      rw [if_pos hi]
      exact H.update kept fun _ => .inl rfl
    · next hi =>
      rw [if_neg hi]
      exact H
  | rejected i =>
    refine H.update kept fun c => ?_
    split <;> exact .inl rfl
  | onDisconnect i => exact H.closeConnection i
  | teardown i teardown =>
    refine H.update kept fun c => ?_
    unfold GatewayConnection.advance
    split
    · exact .inl rfl
    · exact .inl rfl
    · exact .inr rfl
    · exact .inl rfl
    · exact .inl rfl
  | onRpc i =>
    change (if g.isConnected i = true then _ else g : Gateway).Emptied
    change (if g.isConnected i = true then _ else g : Gateway).Kept at kept
    split at kept
    · next hi =>
      rw [if_pos hi]
      exact H.update kept fun _ => .inl rfl
    · next hi =>
      rw [if_neg hi]
      exact H
  | signal i call => exact H.update kept fun _ => .inl rfl
  | settle i call =>
    refine H.update kept fun c => .inl ?_
    change (c.untrackCall call).closing = c.closing
    unfold GatewayConnection.untrackCall
    split <;> rfl
  | stop =>
    refine ⟨kept, ?_, ?_, ?_⟩
    · rintro ⟨phase, hmem, hphase⟩
      obtain hmem | hmem := List.mem_append.mp hmem
      · exact H.manager ⟨phase, hmem, hphase⟩
      · cases List.mem_singleton.mp hmem
        cases hphase
    · intro awaiting hmem
      obtain hmem | hmem := List.mem_append.mp hmem
      · exact H.closing awaiting hmem
      · cases List.mem_singleton.mp hmem
    · intro hmem
      obtain hmem | hmem := List.mem_append.mp hmem
      · exact H.settled hmem
      · cases List.mem_singleton.mp hmem
  | stopAwaited stop => exact H.stopAwaited stop

theorem cleared (H : g.Emptied) : g.Cleared := by
  intro hsettled hpending
  have hmanager := H.manager ⟨_, hsettled, rfl⟩
  refine ⟨hmanager, fun c hc => ?_⟩
  obtain ⟨i, hi⟩ := List.mem_iff_getElem?.mp hc
  have hclosing := H.settled hsettled i c hi
  cases (H.kept.sound i c hi).staged with
  | connecting phase => exact absurd phase (hpending c hc).1
  | refused _ _ _ _ disposals => exact disposals
  | up _ hmanaged =>
    rw [hmanager] at hmanaged
    cases hmanaged
  | down teardown _ _ _ closing disposals =>
    rw [hclosing] at closing
    split at closing
    · next hfinished => rw [disposals, if_pos (.inr hfinished)]
    · cases closing

end Emptied

/-- The containers are disposed once and the closers wait for the same teardown in every run; no
call outlives a teardown unaborted if calls come in time, and `stop` leaves nothing behind if
connections do. -/
theorem torn_down (events : List GatewayEvent) :
    (after events).Orderly ∧ (Trace.Admits step InTime {} events → (after events).CallsAborted) ∧
      (Trace.Admits step BeforeSweep {} events → (after events).Cleared) := by
  have kept : ({} : Gateway).Kept := kept_after []
  refine ⟨(kept_after events).orderly, fun hin => ?_, fun hbefore => ?_⟩
  · have htimely : ({} : Gateway).Timely := ⟨kept, fun _ _ h => by cases h⟩
    have H : (after events).Timely :=
      Trace.run_inv_of_admits step (fun _ event hin H => H.step event hin) hin htimely
    exact H.callsAborted
  · have hempty : ({} : Gateway).Emptied :=
      ⟨kept, fun _ => rfl, fun _ _ _ _ _ h => (by cases h), fun _ _ _ h => (by cases h)⟩
    have H : (after events).Emptied :=
      Trace.run_inv_of_admits step (fun _ event hbefore H => H.step event hbefore) hbefore hempty
    exact H.cleared

instance (g : Gateway) : (event : GatewayEvent) → Decidable (g.InTime event)
  | .onRpc i => inferInstanceAs (Decidable (∀ c, g.connections[i]? = some c → _))
  | .settle i k => inferInstanceAs (Decidable (∀ c, g.connections[i]? = some c → ∀ call,
      c.calls[k]? = some call → call.overlaps = true → c.callsAborted = true ∨ call.aborted = true))
  | .onConnect | .resolved _ | .failed _ | .rejected _ | .onDisconnect _ | .teardown _ _
  | .signal _ _ | .stop | .stopAwaited _ => isTrue trivial

instance (g : Gateway) : (event : GatewayEvent) → Decidable (g.BeforeSweep event)
  | .resolved _ => inferInstanceAs (Decidable (¬ ∃ phase ∈ g.stops, phase.hasSwept = true))
  | .onConnect | .failed _ | .rejected _ | .onDisconnect _ | .teardown _ _ | .onRpc _
  | .signal _ _ | .settle _ _ | .stop | .stopAwaited _ => isTrue trivial

/-- A connection with a call that is running is disconnected twice, another is refused, and the
gateway stops. -/
theorem torn_down_disconnected :
    let g := after [.onConnect, .resolved 0, .onRpc 0, .onConnect, .failed 1, .rejected 1,
      .onDisconnect 0, .onDisconnect 0, .teardown 0 0, .teardown 0 0, .settle 0 0, .teardown 0 0,
      .stop, .stopAwaited 0, .stopAwaited 0]
    g.Orderly ∧ g.CallsAborted ∧ g.Cleared :=
  have h := torn_down [.onConnect, .resolved 0, .onRpc 0, .onConnect, .failed 1, .rejected 1,
    .onDisconnect 0, .onDisconnect 0, .teardown 0 0, .teardown 0 0, .settle 0 0, .teardown 0 0,
    .stop, .stopAwaited 0, .stopAwaited 0]
  ⟨h.1, h.2.1 (by decide), h.2.2 (by decide)⟩

/-- A call that a transport hands in after `abortCalls`, and an identity that is resolved after the
sweep of `stop`. -/
theorem torn_down_late :
    ¬ (after [.onConnect, .resolved 0, .onDisconnect 0, .teardown 0 0, .onRpc 0, .teardown 0 0,
        .teardown 0 0]).CallsAborted ∧
      ¬ (after [.onConnect, .stop, .stopAwaited 0, .stopAwaited 0, .resolved 0]).Cleared := by
  refine ⟨fun h => ?_, fun h => ?_⟩
  · have habort := h _ (List.mem_singleton_self _)
    exact absurd (habort (by decide) _ (List.mem_singleton_self _) rfl) (by decide)
  · exact absurd (h (by decide) (by decide)).1 (by decide)

end Gateway

end Neemata.Kernel
