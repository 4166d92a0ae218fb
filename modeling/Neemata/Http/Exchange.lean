import Neemata.Kernel.ConnectionTeardown

/-!
# The scopes of an HTTP request

`NeemataHttpHandler.handle` of `transports/src/neemata/http/server.ts` from the point where the
procedure is called. The connection of the request is one of the gateway's, with one call, and it is
closed when the function is left (`await using`), before the response is handed out. The generator
of a stream is pumped by the `start` of the body, which runs its first step, at whatever pace the
body is read. The call scope of anything else than a stream is disposed by `onRpc`. A reload of the
gateway disposes the container of every connection it still has, and a stop closes them.
-/

namespace Neemata.Http

open Kernel

/-- What `onRpc` comes to. -/
inductive HttpResult where
  /-- The generator of a stream, which disposes the call scope in its `finally`. -/
  | stream
  /-- A blob, or an async iterable that is not the generator of a stream. -/
  | blob
deriving DecidableEq

structure HttpExchange where
  connection : GatewayConnection := ({ phase := .connected } : GatewayConnection).onRpc
  result : Option HttpResult := none
  /-- `request.signal.aborted` -/
  requestAborted : Bool := false
  /-- How often a reload has disposed the container of the connection. -/
  reloads : Nat := 0
  /-- The function has been left, and `connection[Symbol.asyncDispose]` called. -/
  left : Bool := false
  /-- The iterable, or the source of the blob, has completed or failed. -/
  ended : Bool := false
  /-- The body of the response has been cancelled. -/
  cancelled : Bool := false
  /-- How often the container of the call has been disposed. -/
  callDisposals : Nat := 0
  /-- The response has been handed out. -/
  responded : Bool := false
deriving DecidableEq

inductive HttpEvent where
  | abortRequest
  /-- `onRpc` returns. `ended` tells whether the source of a blob has ended by then, and whether the
  generator of a stream ends in its first step. -/
  | result (result : HttpResult) (ended : Bool)
  /-- The function is left with the response to a blob. -/
  | leave
  | reload
  | stop
  /-- The next await of the teardown of the connection. -/
  | teardown
  | respond
  /-- The iterable or the source of the blob ends. -/
  | ends
  | cancel

namespace HttpExchange

variable (s : HttpExchange)

/-- The body has nothing more to come. -/
def bodyOver : Bool := s.ended || s.cancelled

/-- The call's dispose function. -/
def disposeCall : HttpExchange :=
  { s with connection := s.connection.settle 0, callDisposals := s.callDisposals + 1 }

/-- `closeConnection`, which closes a connection once. -/
def closeConnection : HttpExchange :=
  { s with
    connection := if s.connection.tornDown then s.connection else s.connection.beginTeardown }

/-- `connection[Symbol.asyncDispose]()` -/
def leave : HttpExchange := { s.closeConnection with left := true }

/-- The function is left in the same step in which the body of a stream is made. -/
def onResult (ended : Bool) : HttpResult → HttpExchange
  | .stream => { (if ended then s.disposeCall else s).leave with result := some .stream, ended }
  | .blob => { s.disposeCall with result := some .blob, ended }

def step (s : HttpExchange) : HttpEvent → HttpExchange
  | .abortRequest => { s with requestAborted := true, connection := s.connection.signal 0 }
  | .result result ended => if s.result = none then s.onResult ended result else s
  | .leave => if s.result = some .blob ∧ s.left = false then s.leave else s
  | .reload => if s.connection.tornDown then s else { s with reloads := s.reloads + 1 }
  | .stop => s.closeConnection
  | .teardown => { s with connection := s.connection.advance 0 }
  | .respond =>
    if s.left ∧ s.connection.teardowns = [.finished] then { s with responded := true } else s
  | .ends =>
    if s.ended then s
    else
      match s.result with
      | none => s
      | some .stream => { s.disposeCall with ended := true }
      | some .blob => { s with ended := true }
  | .cancel => if s.responded then { s with cancelled := true } else s

def callAborted : Bool := s.connection.calls.any (·.aborted)

def connectionDisposals : Nat := s.connection.disposals + s.reloads

/-- Until the body is over the scopes of the request live and its signals have not fired, unless the
request itself was aborted; then both scopes are disposed once. -/
structure ScopesKept : Prop where
  scopes : s.bodyOver = false → s.connectionDisposals = 0 ∧ s.callDisposals = 0
  signals : s.bodyOver = false → s.requestAborted = false →
    s.connection.tornDown = false ∧ s.callAborted = false
  once : s.connectionDisposals ≤ 1 ∧ s.callDisposals ≤ 1
  disposed : s.responded = true → s.ended = true →
    s.connectionDisposals = 1 ∧ s.callDisposals = 1

/-- A stream ends in its first step, or it is answered to a request that was aborted and ends before
the container of the connection is disposed; the source of a blob has ended when the procedure
returns; and the gateway is not reloaded while the connection is up. -/
def Fits (s : HttpExchange) : HttpEvent → Prop
  | .result .stream ended => s.result = none → ended = true ∨ s.requestAborted = true
  | .result .blob ended => s.result = none → ended = true
  | .teardown => s.connection.teardowns = [.abortingCalls] → s.ended = true ∧ s.reloads = 0
  | .reload => s.connection.tornDown = false → s.ended = true ∧ s.reloads = 0
  | .stop => s.connection.tornDown = false → s.ended = true ∨ s.requestAborted = true
  | .abortRequest | .leave | .respond | .ends | .cancel => True

/-! ## Where the request is -/

/-- The connection of the request, which is in use or torn down. -/
structure Placed (c : GatewayConnection) (requestAborted : Bool) : Prop where
  staged : Staged c (c.teardowns = [])
  phase : c.phase = .connected
  call : c.calls.any (·.aborted) = true → requestAborted = true ∨ c.tornDown = true

/-- The scopes of the request as they are, whatever the body does. -/
structure Located : Prop where
  placed : Placed s.connection s.requestAborted
  calling : s.result = none → s.ended = false ∧ s.left = false ∧ s.callDisposals = 0
  stream : s.result = some .stream → s.left = true ∧ s.callDisposals = if s.ended then 1 else 0
  blob : s.result = some .blob → s.callDisposals = 1
  left : s.left = true → s.connection.tornDown = true
  responded : s.responded = true → s.left = true ∧ s.connection.teardowns = [.finished]
  cancelled : s.cancelled = true → s.responded = true

variable {s} {c : GatewayConnection} {requestAborted : Bool}

theorem located_new : ({} : HttpExchange).Located where
  placed := ⟨.up rfl rfl rfl rfl rfl rfl, rfl, fun h => by cases h⟩
  calling _ := ⟨rfl, rfl, rfl⟩
  stream h := by cases h
  blob h := by cases h
  left h := by cases h
  responded h := by cases h
  cancelled h := by cases h

theorem any_aborted_modify (calls : List GatewayCall) {f : GatewayCall → GatewayCall}
    (hf : ∀ call, (f call).aborted = call.aborted) (i : Nat) :
    (calls.modify i f).any (·.aborted) = calls.any (·.aborted) := by
  induction calls generalizing i with
  | nil => rw [List.modify_nil]
  | cons call calls ih =>
    cases i with
    | zero => rw [List.modify_zero_cons, List.any_cons, List.any_cons, hf]
    | succ i => rw [List.modify_succ_cons, List.any_cons, List.any_cons, ih]

/-- The dispose function of the call leaves the connection where it is. -/
theorem settle_frame (c : GatewayConnection) (call : Nat) :
    (c.settle call).phase = c.phase ∧ (c.settle call).teardowns = c.teardowns ∧
      (c.settle call).closing = c.closing ∧ (c.settle call).disposals = c.disposals ∧
      (c.settle call).callsAborted = c.callsAborted ∧
      (c.settle call).calls.any (·.aborted) = c.calls.any (·.aborted) := by
  have hcalls := any_aborted_modify c.calls
    (f := fun call => { call with settled := true }) (fun _ => rfl) call
  unfold GatewayConnection.settle GatewayConnection.untrackCall
  split <;> exact ⟨rfl, rfl, rfl, rfl, rfl, hcalls⟩

theorem staged_congr {c : GatewayConnection} {managed managed' : Prop} (H : Staged c managed)
    (h : managed ↔ managed') : Staged c managed' := propext h ▸ H

theorem tornDown_iff : c.tornDown = true ↔ c.teardowns ≠ [] := decide_eq_true_iff

theorem beginTeardown_tornDown (c : GatewayConnection) : c.beginTeardown.tornDown = true :=
  tornDown_iff.mpr (List.append_ne_nil_of_right_ne_nil _ (List.cons_ne_nil _ _))

namespace Placed

/-- The dispose function of the call leaves the connection where it is. -/
theorem settle (H : Placed c requestAborted) :
    Placed (c.settle 0) requestAborted ∧ (c.settle 0).teardowns = c.teardowns ∧
      (c.settle 0).disposals = c.disposals := by
  obtain ⟨hphase, hteardowns, hclosing, hdisposals, haborted, hcalls⟩ := settle_frame c 0
  refine ⟨⟨?_, hphase.trans H.phase, fun h => ?_⟩, hteardowns, hdisposals⟩
  · rw [hteardowns]
    exact H.staged.of_connected H.phase hphase hteardowns hclosing hdisposals haborted
  · rw [GatewayConnection.tornDown, hteardowns]
    exact H.call (hcalls ▸ h)

theorem beginTeardown (H : Placed c requestAborted) (htorn : c.tornDown = false) :
    Placed c.beginTeardown requestAborted where
  staged := by
    have hteardowns : c.teardowns = [] := Decidable.not_not.mp (of_decide_eq_false htorn)
    refine staged_congr (H.staged.beginTeardown hteardowns).1 ⟨False.elim, fun h => ?_⟩
    exact absurd h (tornDown_iff.mp (beginTeardown_tornDown c))
  phase := H.phase
  call _ := .inr (beginTeardown_tornDown c)

theorem close (H : Placed c requestAborted) :
    Placed (if c.tornDown then c else c.beginTeardown) requestAborted ∧
      (if c.tornDown then c else c.beginTeardown).tornDown = true ∧
        (if c.tornDown then c else c.beginTeardown).disposals = c.disposals := by
  split
  · next htorn => exact ⟨H, htorn, rfl⟩
  · next htorn =>
    exact ⟨H.beginTeardown (Bool.eq_false_iff.mpr htorn), beginTeardown_tornDown c, rfl⟩

/-- The connection is in use, or it is torn down. -/
theorem cases (H : Placed c requestAborted) : (c.teardowns = [] ∧ c.disposals = 0) ∨
    ∃ teardown, c.teardowns = [teardown] ∧
      c.disposals = if teardown = .disposing ∨ teardown = .finished then 1 else 0 := by
  cases H.staged with
  | connecting phase => cases H.phase.symm.trans phase
  | refused phase => rcases phase with phase | phase <;> cases H.phase.symm.trans phase
  | up _ _ teardowns _ disposals => exact .inl ⟨teardowns, disposals⟩
  | down teardown _ _ teardowns _ disposals => exact .inr ⟨teardown, teardowns, disposals⟩

/-- A teardown that has begun goes on. -/
theorem advance (H : Placed c requestAborted) : Placed (c.advance 0) requestAborted ∧
    (c.advance 0).tornDown = c.tornDown ∧
      (c.teardowns = [.finished] → (c.advance 0).teardowns = [.finished]) ∧
      (c.advance 0).disposals =
        c.disposals + if c.teardowns = [.abortingCalls] then 1 else 0 := by
  have hstaged := H.staged.advance 0
  have hphase := H.phase
  obtain ⟨hteardowns, -⟩ | ⟨teardown, hteardowns, -⟩ := H.cases
  · have heq : c.advance 0 = c := by
      rw [GatewayConnection.advance, hteardowns]
      rfl
    rw [heq, hteardowns]
    exact ⟨H, rfl, (fun h => by cases h), rfl⟩
  · have htorn : c.tornDown = true := tornDown_iff.mpr (hteardowns ▸ List.cons_ne_nil _ _)
    have htorn' : (c.advance 0).tornDown = true := by
      unfold GatewayConnection.advance
      cases teardown <;> simp [hteardowns, GatewayConnection.tornDown, GatewayConnection.abortCalls]
    refine ⟨⟨staged_congr hstaged ?_, ?_, fun _ => .inr htorn'⟩, htorn'.trans htorn.symm, ?_⟩
    · exact iff_of_false (tornDown_iff.mp htorn) (tornDown_iff.mp htorn')
    all_goals
      unfold GatewayConnection.advance
      cases teardown <;> simp [hteardowns, hphase, GatewayConnection.abortCalls]

end Placed

namespace Located

theorem disposals_le (H : s.Located) : s.connection.disposals ≤ 1 ∧ s.callDisposals ≤ 1 := by
  constructor
  · obtain ⟨-, hdisposals⟩ | ⟨teardown, -, hdisposals⟩ := H.placed.cases
    · omega
    · split at hdisposals <;> omega
  · cases hresult : s.result with
    | none => exact (H.calling hresult).2.2 ▸ Nat.zero_le 1
    | some result =>
      cases result with
      | stream =>
        have hstream := (H.stream hresult).2
        split at hstream <;> omega
      | blob => exact Nat.le_of_eq (H.blob hresult)

/-- What was responded to has its scopes disposed, once the body has ended. -/
theorem disposals_responded (H : s.Located) (hresponded : s.responded = true)
    (hended : s.ended = true) : s.connection.disposals = 1 ∧ s.callDisposals = 1 := by
  obtain ⟨hleft, hfinished⟩ := H.responded hresponded
  constructor
  · obtain ⟨hteardowns, -⟩ | ⟨teardown, hteardowns, hdisposals⟩ := H.placed.cases
    · cases hfinished.symm.trans hteardowns
    · cases hfinished.symm.trans hteardowns
      exact hdisposals
  · cases hresult : s.result with
    | none => cases hleft.symm.trans (H.calling hresult).2.1
    | some result =>
      cases result with
      | stream => rw [(H.stream hresult).2, if_pos hended]
      | blob => exact H.blob hresult

theorem scopesKept_iff (H : s.Located) : s.ScopesKept ↔
    s.connection.disposals + s.reloads ≤ 1 ∧ (s.bodyOver = false →
      s.connection.disposals = 0 ∧ s.reloads = 0 ∧ s.callDisposals = 0 ∧
        (s.connection.tornDown = true → s.requestAborted = true)) := by
  refine ⟨fun h => ⟨h.once.1, fun hover => ?_⟩, fun ⟨hone, h⟩ => ⟨fun hover => ?_,
    fun hover haborted => ?_, ⟨hone, H.disposals_le.2⟩, fun hresponded hended => ?_⟩⟩
  · obtain ⟨hconnection, hcall⟩ := h.scopes hover
    refine ⟨Nat.eq_zero_of_add_eq_zero_right hconnection,
      Nat.eq_zero_of_add_eq_zero_left hconnection, hcall, fun htorn => ?_⟩
    cases haborted : s.requestAborted with
    | true => rfl
    | false => cases htorn.symm.trans (h.signals hover haborted).1
  · obtain ⟨hconnection, hreloads, hcall, -⟩ := h hover
    exact ⟨by rw [connectionDisposals, hconnection, hreloads], hcall⟩
  · have htorn : s.connection.tornDown = false := by
      cases htorn : s.connection.tornDown with
      | false => rfl
      | true => cases haborted.symm.trans ((h hover).2.2.2 htorn)
    refine ⟨htorn, ?_⟩
    cases hcall : s.callAborted with
    | false => rfl
    | true =>
      obtain habort | htorn' := H.placed.call hcall
      · cases haborted.symm.trans habort
      · cases htorn.symm.trans htorn'
  · obtain ⟨hconnection, hcall⟩ := H.disposals_responded hresponded hended
    exact ⟨by rw [connectionDisposals]; omega, hcall⟩

theorem closeConnection (H : s.Located) : s.closeConnection.Located := { H with
  placed := H.placed.close.1
  left _ := H.placed.close.2.1
  responded h := by
    obtain ⟨hleft, hfinished⟩ := H.responded h
    refine ⟨hleft, ?_⟩
    change GatewayConnection.teardowns (if _ then _ else _) = _
    rw [if_pos (H.left hleft)]
    exact hfinished }

theorem not_responded (H : s.Located) (hleft : s.left = false) :
    s.responded = false ∧ s.cancelled = false := by
  have hresponded : s.responded = false :=
    Bool.eq_false_iff.mpr fun h => Bool.false_ne_true (hleft.symm.trans (H.responded h).1)
  exact ⟨hresponded,
    Bool.eq_false_iff.mpr fun h => Bool.false_ne_true (hresponded.symm.trans (H.cancelled h))⟩

theorem onResult (H : s.Located) (hresult : s.result = none) (ended : Bool) (result : HttpResult) :
    (s.onResult ended result).Located := by
  obtain ⟨-, hleft, hdisposals⟩ := H.calling hresult
  obtain ⟨hresponded, hcancelled⟩ := H.not_responded hleft
  have hstream (t : HttpExchange) (hplaced : Placed t.connection t.requestAborted)
      (hresponded : t.responded = false) (hcancelled : t.cancelled = false)
      (hdisposals : t.callDisposals = if ended then 1 else 0) :
      ({ t.leave with result := some .stream, ended } : HttpExchange).Located := {
    placed := hplaced.close.1
    calling := fun h => by cases h
    stream := fun _ => ⟨rfl, hdisposals⟩
    blob := fun h => by cases h
    left := fun _ => hplaced.close.2.1
    responded := fun h => by cases hresponded.symm.trans h
    cancelled := fun h => by cases hcancelled.symm.trans h }
  cases result with
  | stream =>
    cases ended with
    | false => exact hstream s H.placed hresponded hcancelled hdisposals
    | true =>
      exact hstream s.disposeCall H.placed.settle.1 hresponded hcancelled
        (congrArg (· + 1) hdisposals)
  | blob =>
    exact {
      placed := H.placed.settle.1
      calling := fun h => by cases h
      stream := fun h => by cases h
      blob := fun _ => congrArg (· + 1) hdisposals
      left := fun h => by cases hleft.symm.trans h
      responded := fun h => by cases hresponded.symm.trans h
      cancelled := fun h => by cases hcancelled.symm.trans h }

theorem leave (H : s.Located) (hresult : s.result ≠ none) : s.leave.Located :=
  have hclosed := H.closeConnection
  { hclosed with
    calling := fun h => absurd h hresult
    stream := fun h => ⟨rfl, (H.stream h).2⟩
    left := fun _ => H.placed.close.2.1
    responded := fun h => ⟨rfl, (hclosed.responded h).2⟩ }

theorem ends (H : s.Located) : (s.step .ends).Located := by
  change (if s.ended = true then s else _ : HttpExchange).Located
  split
  · exact H
  · next hended =>
    split
    · exact H
    · next hresult =>
      obtain ⟨hplaced, hteardowns, -⟩ := H.placed.settle
      obtain ⟨hleft, hdisposals⟩ := H.stream hresult
      rw [if_neg hended] at hdisposals
      exact {
        placed := hplaced
        calling := fun h => by cases hresult.symm.trans h
        stream := fun _ => ⟨hleft, congrArg (· + 1) hdisposals⟩
        blob := fun h => by cases hresult.symm.trans h
        left := fun h => tornDown_iff.mpr (hteardowns ▸ tornDown_iff.mp (H.left h))
        responded := fun h => ⟨hleft, hteardowns.trans (H.responded h).2⟩
        cancelled := H.cancelled }
    · next hresult =>
      exact { H with
        calling := fun h => by cases hresult.symm.trans h
        stream := fun h => by cases hresult.symm.trans h }

theorem step (H : s.Located) (event : HttpEvent) : (s.step event).Located := by
  unfold HttpExchange.step
  cases event with
  | abortRequest =>
    exact { H with placed := ⟨H.placed.staged.of_connected H.placed.phase rfl rfl rfl rfl rfl,
      H.placed.phase, fun _ => .inl rfl⟩ }
  | result result ended =>
    dsimp only
    split
    · next hresult => exact H.onResult hresult ended result
    · exact H
  | leave =>
    dsimp only
    split
    · next hleave => exact H.leave fun h => by cases hleave.1.symm.trans h
    · exact H
  | reload =>
    dsimp only
    split
    · exact H
    · exact { H with }
  | stop => exact H.closeConnection
  | teardown =>
    obtain ⟨hplaced, htorn, hfinished, -⟩ := H.placed.advance
    exact { H with
      placed := hplaced
      left := fun h => htorn.trans (H.left h)
      responded := fun h => ⟨(H.responded h).1, hfinished (H.responded h).2⟩ }
  | respond =>
    dsimp only
    split
    · next hleft => exact { H with responded := fun _ => hleft, cancelled := fun _ => rfl }
    · exact H
  | ends => exact H.ends
  | cancel =>
    dsimp only
    split
    · next hresponded => exact { H with cancelled := fun _ => hresponded }
    · exact H

/-- Nobody can cancel the body before the response is handed out. -/
theorem bodyOver_eq_ended (H : s.Located) (h : s.connection.teardowns ≠ [.finished]) :
    s.bodyOver = s.ended := by
  have hcancelled : s.cancelled = false :=
    Bool.eq_false_iff.mpr fun hcancelled => h (H.responded (H.cancelled hcancelled)).2
  rw [bodyOver, hcancelled, Bool.or_false]

end Located

/-! ## What keeps the scopes -/

theorem scopesKept_result_iff (H : s.Located) (K : s.ScopesKept) (hresult : s.result = none)
    (result : HttpResult) (ended : Bool) :
    (s.onResult ended result).ScopesKept ↔ s.Fits (.result result ended) := by
  obtain ⟨hended, hleft, hcall⟩ := H.calling hresult
  obtain ⟨hresponded, hcancelled⟩ := H.not_responded hleft
  obtain ⟨hconnection, hreloads, -, -⟩ :=
    (H.scopesKept_iff.mp K).2 (by rw [bodyOver, hended, hcancelled]; rfl)
  have hover : (s.onResult ended result).bodyOver = ended := by
    cases result <;> cases ended <;> first | rfl | exact hcancelled
  have hframe : (s.onResult ended result).connection.disposals = 0 ∧
      (s.onResult ended result).reloads = 0 ∧
        (s.onResult ended result).requestAborted = s.requestAborted := by
    have hsettled := H.placed.settle.2.2.trans hconnection
    cases result with
    | stream =>
      cases ended with
      | false => exact ⟨H.placed.close.2.2.trans hconnection, hreloads, rfl⟩
      | true => exact ⟨H.placed.settle.1.close.2.2.trans hsettled, hreloads, rfl⟩
    | blob => exact ⟨hsettled, hreloads, rfl⟩
  have hlocated := H.onResult hresult ended result
  rw [hlocated.scopesKept_iff, hframe.1, hframe.2.1, hframe.2.2, hover]
  cases ended with
  | true => exact iff_of_true ⟨Nat.zero_le 1, nofun⟩ (by cases result <;> simp [Fits])
  | false =>
    cases result with
    | stream =>
      refine ⟨fun h _ => .inr ((h.2 rfl).2.2.2 (hlocated.left rfl)), fun h => ?_⟩
      obtain heq | haborted := h hresult
      · cases heq
      · exact ⟨Nat.zero_le 1, fun _ => ⟨rfl, rfl, hcall, fun _ => haborted⟩⟩
    | blob =>
      refine iff_of_false (fun h => ?_) fun h => Bool.false_ne_true (h hresult)
      exact absurd ((hlocated.blob rfl).symm.trans (h.2 rfl).2.2.1) Nat.one_ne_zero

/-- Which events take the scopes of a request from under its body. -/
theorem scopesKept_step_iff (H : s.Located) (K : s.ScopesKept) (event : HttpEvent) :
    (s.step event).ScopesKept ↔ s.Fits event := by
  obtain ⟨hone, hkept⟩ := H.scopesKept_iff.mp K
  have hlocated := H.step event
  -- a connection that is up has not been disposed of, and nobody has its response
  have hup (htorn : s.connection.tornDown = false) :
      s.connection.disposals = 0 ∧ s.bodyOver = s.ended := by
    have hteardowns : s.connection.teardowns = [] :=
      Decidable.not_not.mp (of_decide_eq_false htorn)
    refine ⟨?_, H.bodyOver_eq_ended fun h => by cases hteardowns.symm.trans h⟩
    obtain ⟨-, h⟩ | ⟨teardown, h, -⟩ := H.placed.cases
    · exact h
    · cases hteardowns.symm.trans h
  cases event with
  | abortRequest =>
    rw [hlocated.scopesKept_iff]
    exact iff_of_true ⟨hone, fun hover =>
      ⟨(hkept hover).1, (hkept hover).2.1, (hkept hover).2.2.1, fun _ => rfl⟩⟩ trivial
  | result result ended =>
    change (if s.result = none then s.onResult ended result else s).ScopesKept ↔ _
    split
    · next hresult => exact scopesKept_result_iff H K hresult result ended
    · next hresult => exact iff_of_true K (by cases result <;> exact fun h => absurd h hresult)
  | leave =>
    refine iff_of_true ?_ trivial
    rw [hlocated.scopesKept_iff, step]
    split
    · next hleave =>
      refine ⟨H.placed.close.2.2.symm ▸ hone, fun hopen => ?_⟩
      -- the call scope of a blob has been disposed, so its source has ended
      cases (H.blob hleave.1).symm.trans (hkept hopen).2.2.1
    · exact ⟨hone, hkept⟩
  | reload =>
    change (if s.connection.tornDown = true then s else _ : HttpExchange).ScopesKept ↔ _
    split
    · next htorn => exact iff_of_true K fun h => by cases htorn.symm.trans h
    · next htorn =>
      have hdown : s.connection.tornDown = false := Bool.eq_false_iff.mpr htorn
      obtain ⟨hconnection, hover⟩ := hup hdown
      rw [step, if_neg htorn] at hlocated
      rw [hlocated.scopesKept_iff]
      refine ⟨fun ⟨hone', h⟩ _ => ?_, fun h => ?_⟩
      · refine ⟨?_, by dsimp only at hone'; omega⟩
        cases hended : s.ended with
        | true => rfl
        | false => exact absurd (h (hover.trans hended)).2.1 (Nat.succ_ne_zero _)
      · obtain ⟨hended, hreloads⟩ := h hdown
        refine ⟨by dsimp only; omega, fun hopen => ?_⟩
        cases (hover.trans hended).symm.trans hopen
  | stop =>
    rw [hlocated.scopesKept_iff]
    change GatewayConnection.disposals (if _ then _ else _) + _ ≤ 1 ∧ (_ →
      GatewayConnection.disposals (if _ then _ else _) = 0 ∧ _ ∧ _ ∧
        (GatewayConnection.tornDown (if _ then _ else _) = true → _)) ↔ _
    rw [H.placed.close.2.2, H.placed.close.2.1]
    refine ⟨fun h hdown => ?_, fun h => ⟨hone, fun hopen => ?_⟩⟩
    · cases hended : s.ended with
      | true => exact .inl rfl
      | false => exact .inr ((h.2 ((hup hdown).2.trans hended)).2.2.2 rfl)
    · refine ⟨(hkept hopen).1, (hkept hopen).2.1, (hkept hopen).2.2.1, fun _ => ?_⟩
      cases htorn : s.connection.tornDown with
      | true => exact (hkept hopen).2.2.2 htorn
      | false =>
        obtain hended | haborted := h htorn
        · cases ((hup htorn).2.trans hended).symm.trans hopen
        · exact haborted
  | teardown =>
    obtain ⟨-, htorn, -, hdisposals⟩ := H.placed.advance
    rw [hlocated.scopesKept_iff]
    rw [show (s.step .teardown).connection = s.connection.advance 0 from rfl, hdisposals, htorn]
    change _ + s.reloads ≤ 1 ∧ (s.bodyOver = false → _ ∧ s.reloads = 0 ∧ s.callDisposals = 0 ∧
      (_ → s.requestAborted = true)) ↔ _
    by_cases hteardowns : s.connection.teardowns = [.abortingCalls]
    · have hover := H.bodyOver_eq_ended (by rw [hteardowns]; nofun)
      rw [if_pos hteardowns]
      refine ⟨fun ⟨hone', h⟩ _ => ⟨?_, by omega⟩, fun h => ?_⟩
      · cases hended : s.ended with
        | true => rfl
        | false => exact absurd (h (hover.trans hended)).1 (Nat.succ_ne_zero _)
      · obtain ⟨hended, hreloads⟩ := h hteardowns
        refine ⟨?_, fun hopen => ?_⟩
        · obtain ⟨hnil, -⟩ | ⟨teardown, hteardown, hzero⟩ := H.placed.cases
          · cases hteardowns.symm.trans hnil
          · cases hteardowns.symm.trans hteardown
            simp only [reduceCtorEq, or_self, if_false] at hzero
            omega
        · cases (hover.trans hended).symm.trans hopen
    · rw [if_neg hteardowns]
      exact iff_of_true ⟨hone, hkept⟩ fun h => absurd h hteardowns
  | respond =>
    refine iff_of_true (hlocated.scopesKept_iff.mpr ?_) trivial
    unfold step
    dsimp only
    split <;> exact ⟨hone, hkept⟩
  | ends =>
    refine iff_of_true (hlocated.scopesKept_iff.mpr ?_) trivial
    unfold step
    dsimp only
    split
    · exact ⟨hone, hkept⟩
    · split
      · exact ⟨hone, hkept⟩
      · exact ⟨H.placed.settle.2.2.symm ▸ hone, nofun⟩
      · exact ⟨hone, nofun⟩
  | cancel =>
    refine iff_of_true (hlocated.scopesKept_iff.mpr ?_) trivial
    unfold step
    dsimp only
    split
    · refine ⟨hone, fun hopen => ?_⟩
      cases (Bool.or_true s.ended).symm.trans hopen
    · exact ⟨hone, hkept⟩

/-- The scopes of a request are kept all along exactly in the runs whose events fit. -/
theorem scopes_kept_iff (events : List HttpEvent) :
    (∀ l, l <+: events → (Trace.run step {} l).ScopesKept) ↔ Trace.Admits step Fits {} events := by
  have hkept : ({} : HttpExchange).ScopesKept :=
    located_new.scopesKept_iff.mpr ⟨Nat.zero_le 1, fun _ => ⟨rfl, rfl, rfl, fun h => by cases h⟩⟩
  exact Trace.forall_prefix_iff_admits (I := Located) step (fun _ event H => H.step event)
    (fun _ event H K => scopesKept_step_iff H K event) located_new hkept events

/-- A stream: its connection is aborted as the function is left. -/
theorem scopes_taken : ¬ ∀ (events l : List HttpEvent), l <+: events →
    (Trace.run step {} l).ScopesKept := by
  intro h
  have hsignals := (h [.result .stream false] _ (List.prefix_refl _)).signals rfl rfl
  exact absurd hsignals.1 (by decide)

end HttpExchange

end Neemata.Http
