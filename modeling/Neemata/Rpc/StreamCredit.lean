import Neemata.Lib.Trace
import Mathlib.Algebra.GroupWithZero.Nat

/-!
# Credit of an RPC stream

The client grants credit in batches from the `pull` of its `DuplexStream`, the server's streaming
loop spends it chunk by chunk. Pulls and chunks cross on the wire; each direction is in order.
-/

namespace Neemata.Rpc

def MAX_UINT32 : Nat := 2 ^ 32 - 1

def MAX_STREAM_CREDITS : Nat := MAX_UINT32

/-- A window that `resolveRpcStreamWindow` lets pass. -/
structure RpcStreamWindow where
  size : Nat
  pos : 1 ≤ size
  le_max : size ≤ MAX_UINT32

def resolveRpcStreamWindow (value : Nat) : Option RpcStreamWindow :=
  if h : 1 ≤ value ∧ value ≤ MAX_UINT32 then some ⟨value, h.1, h.2⟩ else none

/-- `Math.ceil(rpcStreamWindow / 2)`. -/
def RpcStreamWindow.refill (window : RpcStreamWindow) : Nat := (window.size + 1) / 2

theorem RpcStreamWindow.refill_bounds (window : RpcStreamWindow) :
    1 ≤ window.refill ∧ window.refill ≤ window.size := by
  have := window.pos
  unfold refill
  omega

/-- The client's side of a stream: the variables of its `pull` and its `DuplexStream`, whose
readable has a high-water mark of zero. -/
structure ClientStream where
  initialCreditGrant : Bool
  pullsUntilRefill : Nat
  /-- A read waits for a chunk. -/
  waiting : Bool
  /-- Chunks in the queue of the readable. -/
  queue : Nat
  /-- The write in flight, when it is parked. -/
  parkedWrites : Nat
  /-- Writes behind the one in flight. -/
  pendingWrites : Nat
  draining : Bool
deriving DecidableEq, Repr

/-- The server's streaming loop. -/
inductive ServerStream where
  /-- `advancing` while `iterator.next()` is awaited. -/
  | running (credits : Int) (advancing : Bool)
  /-- Out of the loop; the credit is gone. -/
  | closed (violation : Bool)
deriving DecidableEq, Repr

def ServerStream.credits : ServerStream → Int
  | running credits _ => credits
  | closed _ => 0

/-- Both sides and what is on the wire between them. The last three count over the whole run. -/
structure State where
  client : ClientStream
  server : ServerStream
  /-- Sizes of the `RpcStreamPull` frames on the wire, in order. -/
  pulls : List Nat
  /-- `RpcStreamChunk` frames on the wire. -/
  chunks : Nat
  /-- The terminal frame, behind the chunks. -/
  terminal : Bool
  /-- Credits the server has been granted. -/
  received : Nat
  /-- Chunks the server has sent. -/
  sent : Nat
  /-- Chunks the client's reads were given. -/
  consumed : Nat
deriving DecidableEq, Repr

/-- After the client has got `RpcStreamResponse`. -/
def initial (window : RpcStreamWindow) : State where
  client := ⟨true, window.refill, false, 0, 0, 0, false⟩
  server := .running 0 false
  pulls := []
  chunks := 0
  terminal := false
  received := 0
  sent := 0
  consumed := 0

namespace ClientStream

/-- The `pull` of the stream: it releases a parked write, and now and then grants credit. -/
def pull (window : RpcStreamWindow) (client : ClientStream) : ClientStream × Option Nat :=
  let client := { client with parkedWrites := client.parkedWrites - 1 }
  if client.initialCreditGrant then
    ({ client with initialCreditGrant := false }, some window.size)
  else
    let client := { client with pullsUntilRefill := client.pullsUntilRefill - 1 }
    if client.pullsUntilRefill > 0 then (client, none)
    else ({ client with pullsUntilRefill := window.refill }, some window.refill)

/-- The sink's `write`: the chunk goes to the read that waits or to the queue. The write stays
parked, as `desiredSize` is never above zero. -/
def write (client : ClientStream) : ClientStream :=
  let client := if client.waiting then { client with waiting := false }
    else { client with queue := client.queue + 1 }
  if client.draining then client else { client with parkedWrites := client.parkedWrites + 1 }

end ClientStream

/-- What `receive` makes of an `RpcStreamPull`. -/
def ServerStream.receivePull (size : Nat) : ServerStream → ServerStream
  | running credits advancing =>
    if size = 0 ∨ credits + size > MAX_STREAM_CREDITS then closed true
    else running (credits + size) advancing
  | closed violation => closed violation

inductive Event where
  /-- The consumer reads; one read at a time. -/
  | read
  /-- A pull arrives at the server. -/
  | deliverPull
  /-- The loop finds credit and calls `iterator.next()`. -/
  | advance
  /-- The iterator has a value. -/
  | produce
  /-- The iterator is done, or the loop ends with an abort. -/
  | finish
  /-- A chunk arrives at the client. -/
  | deliverChunk
  /-- The writable hands its next chunk to the sink. -/
  | settle
  /-- The terminal frame arrives. -/
  | deliverTerminal
deriving DecidableEq, Repr

/-- `none` where the event cannot happen. -/
def step? (window : RpcStreamWindow) (s : State) : Event → Option State
  | .read =>
    if s.client.waiting then none
    else if s.client.queue > 0 then
      some { s with
        client := { s.client with queue := s.client.queue - 1 }, consumed := s.consumed + 1 }
    else
      let (client, grant) := { s.client with waiting := true }.pull window
      -- the frame carries the size as an unsigned 32-bit number
      some { s with client, pulls := s.pulls ++ (grant.map (· % 2 ^ 32)).toList }
  | .deliverPull =>
    match s.pulls, s.server with
    | [], _ => none
    | _ :: pulls, .closed _ => some { s with pulls }
    | size :: pulls, .running credits advancing =>
      some { s with
        pulls
        server := (ServerStream.running credits advancing).receivePull size
        received := s.received + size }
  | .advance =>
    match s.server with
    | .running credits false =>
      if credits ≤ 0 then none else some { s with server := .running credits true }
    | _ => none
  | .produce =>
    match s.server with
    | .running credits true =>
      some { s with
        server := .running (credits - 1) false, chunks := s.chunks + 1, sent := s.sent + 1 }
    | _ => none
  | .finish =>
    match s.server with
    | .running _ _ => some { s with server := .closed false, terminal := true }
    | .closed _ => none
  | .deliverChunk =>
    if s.chunks = 0 then none
    else some { s with
      chunks := s.chunks - 1
      client := { s.client with pendingWrites := s.client.pendingWrites + 1 } }
  | .settle =>
    if s.client.parkedWrites > 0 ∨ s.client.pendingWrites = 0 then none
    else some { s with
      client := { s.client with pendingWrites := s.client.pendingWrites - 1 }.write
      consumed := s.consumed + if s.client.waiting then 1 else 0 }
  | .deliverTerminal =>
    if s.terminal ∧ s.chunks = 0 then
      some { s with
        terminal := false, client := { s.client with draining := true, parkedWrites := 0 } }
    else none

/-- An event that cannot happen changes nothing. -/
def step (window : RpcStreamWindow) (s : State) (event : Event) : State :=
  (step? window s event).getD s

/-- Chunks sent that no read was given yet. -/
def State.inFlight (s : State) : Nat := s.chunks + s.client.pendingWrites + s.client.queue

/-- Credits the server can still spend: those it holds, and those on their way to it. -/
def State.outstanding (s : State) : Int :=
  match s.server with
  | .running credits _ => credits + s.pulls.sum
  | .closed _ => 0

/-- What holds while the server streams. A grant happens with every read that waits, so the credits
granted in all are given by the number of reads and by the pulls until the next refill. -/
structure Streaming (window : RpcStreamWindow) (s : State) (credits : Int) (advancing : Bool) :
    Prop where
  received : (s.received : Int) = s.sent + credits
  credits_nonneg : 0 ≤ credits
  credits_pos : advancing = true → 0 < credits
  sent : s.sent = s.consumed + s.chunks + s.client.pendingWrites
  queue : s.client.queue = 0
  draining : s.client.draining = false
  terminal : s.terminal = false
  pulls_pos : ∀ size ∈ s.pulls, 0 < size
  unread : s.client.initialCreditGrant = true → s.client.waiting = false ∧ s.received = 0 ∧
    s.pulls = [] ∧ s.consumed = 0 ∧ s.client.parkedWrites = 0 ∧
    s.client.pullsUntilRefill = window.refill
  until_bounds : 1 ≤ s.client.pullsUntilRefill ∧ s.client.pullsUntilRefill ≤ window.refill
  /-- A read waits, or the last chunk's write is parked. -/
  parked : s.client.initialCreditGrant = false →
    s.client.parkedWrites + s.client.waiting.toNat = 1
  granted : s.client.initialCreditGrant = false →
    s.received + s.pulls.sum + window.refill + 1 =
      window.size + s.consumed + s.client.waiting.toNat + s.client.pullsUntilRefill

/-- What is left once it has stopped. -/
structure Stopped (window : RpcStreamWindow) (s : State) : Prop where
  received : s.sent ≤ s.received
  inFlight : s.inFlight ≤ window.size

def Inv (window : RpcStreamWindow) (s : State) : Prop :=
  match s.server with
  | .running credits advancing => Streaming window s credits advancing
  | .closed violation => violation = false ∧ Stopped window s

theorem inv_initial (window : RpcStreamWindow) : Inv window (initial window) where
  received := rfl
  credits_nonneg := Int.le_refl 0
  credits_pos := fun h => nomatch h
  sent := rfl
  queue := rfl
  draining := rfl
  terminal := rfl
  pulls_pos := fun _ h => nomatch h
  unread := fun _ => ⟨rfl, rfl, rfl, rfl, rfl, rfl⟩
  until_bounds := ⟨window.refill_bounds.1, Nat.le_refl _⟩
  parked := fun h => nomatch h
  granted := fun h => nomatch h

namespace Streaming

variable {window : RpcStreamWindow} {s : State} {credits : Int} {advancing : Bool}

/-- Credits granted and not answered by a chunk that was read. -/
theorem window_bound (H : Streaming window s credits advancing) :
    credits + s.pulls.sum + s.inFlight ≤ window.size := by
  have hreceived := H.received
  have hsent := H.sent
  have hqueue := H.queue
  have hbounds := H.until_bounds
  unfold State.inFlight
  cases hinitial : s.client.initialCreditGrant with
  | true =>
    obtain ⟨_, h, hpulls, hconsumed, _, _⟩ := H.unread hinitial
    rw [hpulls, List.sum_nil]
    omega
  | false =>
    have hgranted := H.granted hinitial
    have hwaiting : s.client.waiting.toNat ≤ 1 := Bool.toNat_le _
    omega

/-- A read that waits while nothing is in flight has granted credit. -/
theorem credit_of_waiting (H : Streaming window s credits advancing)
    (hwaiting : s.client.waiting = true) (hflight : s.inFlight = 0) :
    1 ≤ credits + s.pulls.sum := by
  have hreceived := H.received
  have hsent := H.sent
  have hbounds := H.until_bounds
  have hrefill := window.refill_bounds
  unfold State.inFlight at hflight
  cases hinitial : s.client.initialCreditGrant with
  | true =>
    have hidle := (H.unread hinitial).1
    rw [hwaiting] at hidle
    cases hidle
  | false =>
    have hgranted := H.granted hinitial
    rw [hwaiting, Bool.toNat_true] at hgranted
    omega

theorem stopped (H : Streaming window s credits advancing) : Stopped window s where
  received := by
    have hreceived := H.received
    have hcredits := H.credits_nonneg
    omega
  inFlight := by
    have hbound := H.window_bound
    have hcredits := H.credits_nonneg
    omega

/-- A read finds an empty queue, so it waits and `pull` runs. -/
theorem read (H : Streaming window s credits advancing) {s' : State}
    (hstep : step? window s .read = some s') : Streaming window s' credits advancing := by
  have hbounds := H.until_bounds
  have hrefill := window.refill_bounds
  have hsize := window.le_max
  unfold MAX_UINT32 at hsize
  simp only [step?, H.queue, Nat.lt_irrefl, gt_iff_lt, if_false] at hstep
  split at hstep
  · cases hstep
  rename_i hidle
  rw [Bool.not_eq_true] at hidle
  cases hinitial : s.client.initialCreditGrant with
  | true =>
    obtain ⟨_, hreceived, hpulls, hconsumed, hparked, huntil⟩ := H.unread hinitial
    have hmod : window.size % 2 ^ 32 = window.size := Nat.mod_eq_of_lt (by omega)
    simp only [ClientStream.pull, hinitial, if_true, Option.map_some, Option.toList_some, hmod,
      Option.some.injEq] at hstep
    subst hstep
    exact { H with
      queue := rfl
      pulls_pos := by
        intro size hmem
        rw [hpulls, List.nil_append, List.mem_singleton] at hmem
        exact hmem ▸ window.pos
      unread := fun h => nomatch h
      parked := fun _ => by rw [hparked, Bool.toNat_true]
      granted := fun _ => by
        simp only [hpulls, List.nil_append, List.sum_singleton, hreceived, hconsumed, huntil,
          Bool.toNat_true]
        omega }
  | false =>
    have hparked := H.parked hinitial
    have hgranted := H.granted hinitial
    have hmod : window.refill % 2 ^ 32 = window.refill := Nat.mod_eq_of_lt (by omega)
    rw [hidle, Bool.toNat_false] at hparked hgranted
    simp only [ClientStream.pull, hinitial, Bool.false_eq_true, if_false, gt_iff_lt] at hstep
    split at hstep
    · rename_i hmore
      simp only [Option.map_none, Option.toList_none, List.append_nil, Option.some.injEq] at hstep
      subst hstep
      exact { H with
        queue := rfl
        unread := fun h => nomatch h
        until_bounds := ⟨hmore, by dsimp only; omega⟩
        parked := fun _ => by dsimp only [Bool.toNat_true]; omega
        granted := fun _ => by dsimp only [Bool.toNat_true]; omega }
    · rename_i hlast
      simp only [Option.map_some, Option.toList_some, hmod, Option.some.injEq] at hstep
      subst hstep
      exact { H with
        queue := rfl
        pulls_pos := by
          intro size hmem
          rcases List.mem_append.mp hmem with hmem | hmem
          · exact H.pulls_pos size hmem
          · exact List.mem_singleton.mp hmem ▸ hrefill.1
        unread := fun h => nomatch h
        until_bounds := ⟨hrefill.1, Nat.le_refl _⟩
        parked := fun _ => by dsimp only [Bool.toNat_true]; omega
        granted := fun _ => by
          rw [List.sum_append, List.sum_singleton]
          dsimp only [Bool.toNat_true]
          omega }

/-- The server takes every pull it is sent. -/
theorem deliverPull (H : Streaming window s credits advancing)
    (hserver : s.server = .running credits advancing) {s' : State}
    (hstep : step? window s .deliverPull = some s') :
    ∃ more : Nat, s'.server = .running (credits + more) advancing ∧
      Streaming window s' (credits + more) advancing := by
  have hbound := H.window_bound
  have hcredits := H.credits_nonneg
  have hsize := window.le_max
  simp only [step?, hserver] at hstep
  cases hpulls : s.pulls with
  | nil => simp only [hpulls, reduceCtorEq] at hstep
  | cons more pulls =>
    have hpos : 0 < more := H.pulls_pos more (hpulls ▸ List.mem_cons_self)
    have hreceived := H.received
    rw [hpulls, List.sum_cons] at hbound
    have haccepted : ¬ (more = 0 ∨ credits + more > MAX_STREAM_CREDITS) := by
      unfold MAX_STREAM_CREDITS
      omega
    simp only [hpulls, ServerStream.receivePull, if_neg haccepted, Option.some.injEq] at hstep
    subst hstep
    refine ⟨more, rfl, { H with
      received := by push_cast; omega
      credits_nonneg := by omega
      credits_pos := fun h => by have := H.credits_pos h; omega
      pulls_pos := fun size hmem => H.pulls_pos size (hpulls ▸ List.mem_cons_of_mem more hmem)
      unread := fun h => by
        have hnone := (H.unread h).2.2.1
        rw [hpulls] at hnone
        cases hnone
      granted := fun h => by
        have hgranted := H.granted h
        rw [hpulls, List.sum_cons] at hgranted
        dsimp only
        omega }⟩

theorem advance (H : Streaming window s credits false) (hpos : 0 < credits) :
    Streaming window { s with server := .running credits true } credits true :=
  { H with credits_pos := fun _ => hpos }

theorem produce (H : Streaming window s credits true) :
    Streaming window
      { s with
        server := .running (credits - 1) false, chunks := s.chunks + 1, sent := s.sent + 1 }
      (credits - 1) false := by
  have hpos := H.credits_pos rfl
  have hreceived := H.received
  have hsent := H.sent
  exact { H with
    received := by push_cast; omega
    credits_nonneg := by omega
    credits_pos := fun h => nomatch h
    sent := by dsimp only; omega }

/-- A chunk leaves the wire for the writable. -/
theorem deliverChunk (H : Streaming window s credits advancing) (hchunks : s.chunks ≠ 0) :
    Streaming window
      { s with
        chunks := s.chunks - 1
        client := { s.client with pendingWrites := s.client.pendingWrites + 1 } }
      credits advancing := by
  have hsent := H.sent
  exact { H with sent := by dsimp only; omega }

/-- A chunk that reaches the sink finds a read: were none waiting, the last write were parked. -/
theorem settle (H : Streaming window s credits advancing) {s' : State}
    (hstep : step? window s .settle = some s') : Streaming window s' credits advancing := by
  have hsent := H.sent
  have hreceived := H.received
  have hcredits := H.credits_nonneg
  simp only [step?] at hstep
  split at hstep
  · cases hstep
  rename_i hfree
  rw [not_or, gt_iff_lt, Nat.not_lt, Nat.le_zero] at hfree
  cases hinitial : s.client.initialCreditGrant with
  | true =>
    obtain ⟨_, hnone, _⟩ := H.unread hinitial
    omega
  | false =>
    have hparked := H.parked hinitial
    have hgranted := H.granted hinitial
    have hwaiting : s.client.waiting = true := by
      cases hidle : s.client.waiting with
      | true => rfl
      | false =>
        rw [hidle, Bool.toNat_false] at hparked
        omega
    rw [hwaiting, Bool.toNat_true] at hparked hgranted
    simp only [ClientStream.write, hwaiting, if_true, H.draining, Bool.false_eq_true, if_false,
      Option.some.injEq] at hstep
    subst hstep
    exact { H with
      sent := by dsimp only; omega
      draining := rfl
      unread := fun h => by
        change s.client.initialCreditGrant = true at h
        rw [hinitial] at h
        cases h
      parked := fun _ => by dsimp only [Bool.toNat_false]; omega
      granted := fun _ => by dsimp only [Bool.toNat_false]; omega }

end Streaming

namespace Stopped

variable {window : RpcStreamWindow} {s : State}

/-- Nothing is sent any more, so what is in flight only shrinks. -/
theorem of_le (H : Stopped window s) {s' : State} (hreceived : s'.received = s.received)
    (hsent : s'.sent = s.sent) (hflight : s'.inFlight ≤ s.inFlight) : Stopped window s' where
  received := by rw [hreceived, hsent]; exact H.received
  inFlight := Nat.le_trans hflight H.inFlight

end Stopped

theorem inFlight_pull (window : RpcStreamWindow) (client : ClientStream) :
    (client.pull window).1.pendingWrites = client.pendingWrites ∧
      (client.pull window).1.queue = client.queue := by
  simp only [ClientStream.pull]
  split
  · exact ⟨rfl, rfl⟩
  · split <;> exact ⟨rfl, rfl⟩

theorem queue_write_le (client : ClientStream) :
    client.write.queue ≤ client.queue + 1 ∧ client.write.pendingWrites = client.pendingWrites := by
  unfold ClientStream.write
  cases client.waiting <;> cases client.draining <;> simp

/-- What a step leaves once the server is out of its loop. -/
theorem Stopped.step {window : RpcStreamWindow} {s s' : State} {event : Event}
    (H : Stopped window s) {violation : Bool} (hserver : s.server = .closed violation)
    (hstep : step? window s event = some s') :
    s'.server = .closed violation ∧ Stopped window s' := by
  cases event with
  | read =>
    simp only [step?] at hstep
    split at hstep
    · cases hstep
    split at hstep
    · rename_i hqueue
      cases hstep
      exact ⟨hserver, H.of_le rfl rfl (by unfold State.inFlight; dsimp only; omega)⟩
    · cases hstep
      obtain ⟨hpending, hqueue⟩ := inFlight_pull window { s.client with waiting := true }
      refine ⟨hserver, H.of_le rfl rfl ?_⟩
      have hflight : ∀ n, n + _ + _ = n + _ + _ := fun n =>
        congrArg₂ (fun pending queue => n + pending + queue) hpending hqueue
      exact Nat.le_of_eq (hflight s.chunks)
  | deliverPull =>
    simp only [step?, hserver] at hstep
    split at hstep
    · cases hstep
    · cases hstep
      exact ⟨rfl, H.of_le rfl rfl (Nat.le_refl _)⟩
    · rename_i h
      cases h
  | advance | produce | finish =>
    simp only [step?, hserver, reduceCtorEq] at hstep
  | deliverChunk =>
    simp only [step?] at hstep
    split at hstep
    · cases hstep
    · cases hstep
      exact ⟨hserver, H.of_le rfl rfl (by unfold State.inFlight; dsimp only; omega)⟩
  | settle =>
    simp only [step?] at hstep
    split at hstep
    · cases hstep
    · cases hstep
      have hwrite := queue_write_le { s.client with pendingWrites := s.client.pendingWrites - 1 }
      exact ⟨hserver, H.of_le rfl rfl (by unfold State.inFlight; dsimp only at hwrite ⊢; omega)⟩
  | deliverTerminal =>
    simp only [step?] at hstep
    split at hstep
    · cases hstep
      exact ⟨hserver, H.of_le rfl rfl (Nat.le_refl _)⟩
    · cases hstep

theorem inv_of_running {window : RpcStreamWindow} {s : State} {credits : Int} {advancing : Bool}
    (hserver : s.server = .running credits advancing)
    (H : Streaming window s credits advancing) : Inv window s := by
  unfold Inv
  rw [hserver]
  exact H

theorem inv_step? {window : RpcStreamWindow} {s s' : State} {event : Event} (H : Inv window s)
    (hstep : step? window s event = some s') : Inv window s' := by
  unfold Inv at H
  split at H
  · rename_i credits advancing hserver
    cases event with
    | read =>
      have hkept : s'.server = s.server := by
        simp only [step?] at hstep
        split at hstep
        · cases hstep
        · split at hstep <;> cases hstep <;> rfl
      exact inv_of_running (hkept.trans hserver) (H.read hstep)
    | deliverPull =>
      obtain ⟨more, hserver', H'⟩ := H.deliverPull hserver hstep
      exact inv_of_running hserver' H'
    | advance =>
      cases advancing with
      | true => simp only [step?, hserver, reduceCtorEq] at hstep
      | false =>
        simp only [step?, hserver] at hstep
        split at hstep
        · cases hstep
        · cases hstep
          exact inv_of_running rfl (H.advance (by omega))
    | produce =>
      cases advancing with
      | false => simp only [step?, hserver, reduceCtorEq] at hstep
      | true =>
        simp only [step?, hserver, Option.some.injEq] at hstep
        subst hstep
        exact inv_of_running rfl H.produce
    | finish =>
      simp only [step?, hserver, Option.some.injEq] at hstep
      subst hstep
      exact ⟨rfl, H.stopped.of_le rfl rfl (Nat.le_refl _)⟩
    | deliverChunk =>
      simp only [step?] at hstep
      split at hstep
      · cases hstep
      · rename_i hchunks
        cases hstep
        exact inv_of_running hserver (H.deliverChunk hchunks)
    | settle =>
      have hkept : s'.server = s.server := by
        simp only [step?] at hstep
        split at hstep
        · cases hstep
        · cases hstep
          rfl
      exact inv_of_running (hkept.trans hserver) (H.settle hstep)
    | deliverTerminal =>
      simp only [step?, H.terminal, Bool.false_eq_true, false_and, if_false, reduceCtorEq] at hstep
  · rename_i violation hserver
    obtain ⟨hserver', H'⟩ := H.2.step hserver hstep
    unfold Inv
    rw [hserver']
    exact ⟨H.1, H'⟩

theorem inv_step (window : RpcStreamWindow) (s : State) (event : Event) (H : Inv window s) :
    Inv window (step window s event) := by
  unfold step
  cases hstep : step? window s event with
  | none => exact H
  | some s' => exact inv_step? H hstep

theorem inv_run (window : RpcStreamWindow) (events : List Event) :
    Inv window (Trace.run (step window) (initial window) events) :=
  Trace.run_inv (P := fun _ => True) (step window) (fun s e _ H => inv_step window s e H)
    (fun _ _ => trivial) (inv_initial window)

/-- Both sides together can go on: an event other than a new read, and other than the end of the
stream, is possible. -/
def State.CanProceed (window : RpcStreamWindow) (s : State) : Prop :=
  ∃ event, event ≠ .read ∧ event ≠ .finish ∧ (step? window s event).isSome

/-- While the server streams, a read that waits is never stuck. -/
theorem Streaming.canProceed {window : RpcStreamWindow} {s : State} {credits : Int}
    {advancing : Bool} (H : Streaming window s credits advancing)
    (hserver : s.server = .running credits advancing) (hwaiting : s.client.waiting = true) :
    s.CanProceed window := by
  rcases Nat.eq_zero_or_pos s.chunks with hchunks | hchunks
  · rcases Nat.eq_zero_or_pos s.client.pendingWrites with hpending | hpending
    · -- nothing is in flight: the credit is on the wire, or the loop has it
      have hcredit := H.credit_of_waiting hwaiting (by
        unfold State.inFlight
        rw [hchunks, hpending, H.queue])
      cases hpulls : s.pulls with
      | cons size pulls =>
        refine ⟨.deliverPull, by decide, by decide, ?_⟩
        simp only [step?, hpulls, hserver, Option.isSome_some]
      | nil =>
        rw [hpulls, List.sum_nil] at hcredit
        cases advancing with
        | true =>
          refine ⟨.produce, by decide, by decide, ?_⟩
          simp only [step?, hserver, Option.isSome_some]
        | false =>
          refine ⟨.advance, by decide, by decide, ?_⟩
          rw [step?, hserver]
          dsimp only
          rw [if_neg (by omega), Option.isSome_some]
    · -- a chunk has arrived, and no write is parked in front of it
      have hparked : s.client.parkedWrites = 0 := by
        cases hinitial : s.client.initialCreditGrant with
        | true => exact (H.unread hinitial).2.2.2.2.1
        | false =>
          have hparked := H.parked hinitial
          rw [hwaiting, Bool.toNat_true] at hparked
          omega
      refine ⟨.settle, by decide, by decide, ?_⟩
      rw [step?, if_neg (by omega), Option.isSome_some]
  · refine ⟨.deliverChunk, by decide, by decide, ?_⟩
    rw [step?, if_neg (by omega), Option.isSome_some]

/-- The credit protocol of a stream, for every window and every order of events. -/
theorem stream_credit (window : RpcStreamWindow) (events : List Event) :
    let s := Trace.run (step window) (initial window) events
    s.sent ≤ s.received ∧
      s.outstanding + s.inFlight ≤ window.size ∧
      (0 ≤ s.server.credits ∧ s.server.credits ≤ MAX_UINT32) ∧
      s.server ≠ .closed true ∧
      (∀ credits advancing, s.server = .running credits advancing → s.client.waiting = true →
        (s.inFlight = 0 → 1 ≤ credits + s.pulls.sum) ∧ s.CanProceed window) := by
  intro s
  have H : Inv window s := inv_run window events
  have hsize := window.le_max
  unfold Inv at H
  split at H
  · rename_i credits advancing hserver
    have hbound := H.window_bound
    have hcredits := H.credits_nonneg
    refine ⟨H.stopped.received, ?_, ?_, ?_, ?_⟩
    · rw [State.outstanding, hserver]
      exact hbound
    · rw [hserver]
      exact ⟨hcredits, by unfold ServerStream.credits; dsimp only; omega⟩
    · rw [hserver]
      exact fun h => nomatch h
    · intro credits' advancing' hserver' hwaiting
      rw [hserver] at hserver'
      cases hserver'
      exact ⟨H.credit_of_waiting hwaiting, H.canProceed hserver hwaiting⟩
  · rename_i violation hserver
    obtain ⟨rfl, H⟩ := H
    refine ⟨H.received, ?_, ?_, ?_, ?_⟩
    · rw [State.outstanding, hserver]
      have hflight := H.inFlight
      dsimp only
      omega
    · rw [hserver]
      exact ⟨Int.le_refl 0, Int.natCast_nonneg _⟩
    · rw [hserver]
      exact fun h => nomatch h
    · intro credits advancing hserver' _
      rw [hserver] at hserver'
      cases hserver'

/-- With a window of three, two chunks are in flight when the first read is done. -/
example :
    let s := Trace.run (step ⟨3, by decide, by decide⟩) (initial ⟨3, by decide, by decide⟩)
      [.read, .deliverPull, .advance, .produce, .advance, .produce, .advance, .produce,
        .deliverChunk, .settle, .deliverChunk]
    s.consumed = 1 ∧ s.inFlight = 2 ∧ s.server = .running 0 false := by
  decide

end Neemata.Rpc
