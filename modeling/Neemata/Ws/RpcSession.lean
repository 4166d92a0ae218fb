import Neemata.Ws.BlobStreams

/-!
# The calls of a session

`WsSessionEngine.receive` and `handleRpc`: every accepted Rpc frame starts a call, and a call is
taken from one of its awaits, or from one of its sends, to the next. A send can deliver frames of
the peer before it returns, so what `handleRpc` does with the send's result is an event of its own.
-/

namespace Neemata.Ws

open Protocol (MAX_STREAM_CREDITS)

inductive SendResult where
  | delivered | dropped | unknown
deriving DecidableEq

inductive Frame where
  | rpcResponse (error : Bool)
  | rpcStreamResponse
  | rpcStreamChunk (chunk : List UInt8)
  | rpcStreamEnd
  | rpcStreamAbort (reason : Option String)
deriving DecidableEq

/-- What a call does to the connection. -/
inductive Output where
  | sent (frame : Frame) (result : SendResult)
  | terminate
deriving DecidableEq

/-- Why the `flow` promise of a stream was rejected. -/
inductive Rejection where
  | aborted
  | flowError (reason : String)
deriving DecidableEq

/-- The reason that goes into the abort frame. -/
def Rejection.reason : Rejection → Option String
  | .aborted => none
  | .flowError reason => some reason

/-- Where `handleRpc` is. -/
inductive Phase where
  /-- `await this.params.onRpc(..)` -/
  | dispatching
  /-- RpcStreamResponse is being sent. -/
  | opening (sent : SendResult)
  /-- The race of the credit wait; `granted` once `notify` was called. -/
  | awaitingCredit (granted : Bool)
  /-- The race of `iterator.next()`. -/
  | awaitingNext
  /-- An RpcStreamChunk is being sent. -/
  | sendingChunk (sent : SendResult)
  /-- The `finally` of the stream. -/
  | unwinding
  | settled
  /-- `handleRpc` threw. -/
  | rejected
deriving DecidableEq

structure Call where
  callId : Nat
  phase : Phase
  /-- `signal.aborted` -/
  aborted : Bool
  flow : Option Rejection
  credits : Nat
  idleCredits : Nat
  out : List Output
deriving DecidableEq

/-- What `onRpc` comes to; `encodes` tells whether the codec takes the value. -/
inductive Response where
  | value (encodes : Bool)
  | asyncIterable
  | thrown
deriving DecidableEq

/-- What `iterator.next()` comes to; a value the codec does not take has no encoded chunk. -/
inductive Next where
  | value (chunk : Option (List UInt8))
  | done
  | thrown
deriving DecidableEq

/-- `sent` is the transport's answer to the frame that the event sends, if it sends one. -/
inductive CallEvent where
  /-- `errorEncodes` tells whether the codec takes the error of an error response. -/
  | onRpc (response : Response) (errorEncodes : Bool) (sent : SendResult)
  | rpcAbort
  | rpcStreamPull (size : Nat)
  | idleTimeout
  /-- The send of RpcStreamResponse returned; `iterates` unless `[Symbol.asyncIterator]()` threw. -/
  | opened (iterates : Bool) (sent : SendResult)
  /-- The grant won the race. -/
  | granted (sent : SendResult)
  /-- The rejected flow won the race. -/
  | flowRejected (sent : SendResult)
  | next (result : Next) (sent : SendResult)
  /-- The send of a chunk returned. -/
  | chunkSent (sent : SendResult)
  | unwound
deriving DecidableEq

/-- The stream's credit is installed and its abort listener registered. -/
def Phase.streaming : Phase → Bool
  | .opening _ | .awaitingCredit _ | .awaitingNext | .sendingChunk _ => true
  | .dispatching | .unwinding | .settled | .rejected => false

/-- The call has left `rpcs`. -/
def Phase.over : Phase → Bool
  | .settled | .rejected => true
  | _ => false

namespace Call

def new (callId : Nat) : Call := ⟨callId, .dispatching, false, none, 0, 0, []⟩

def send (c : Call) (frame : Frame) (result : SendResult) : Call :=
  { c with out := c.out ++ [.sent frame result] }

/-- A terminal frame of a stream; the connection is terminated when it is dropped. -/
def sendLast (c : Call) (frame : Frame) (result : SendResult) : Call :=
  { c with
    out := c.out ++ .sent frame result :: if result = .dropped then [.terminate] else []
    phase := .unwinding }

def rejectFlow (c : Call) (rejection : Rejection) : Call :=
  { c with flow := some (c.flow.getD rejection) }

/-- The outer `catch`. -/
def respondError (c : Call) (errorEncodes : Bool) (sent : SendResult) : Call :=
  if errorEncodes then { c.send (.rpcResponse true) sent with phase := .settled }
  else { c with phase := .rejected }

/-- The head of the streaming loop. -/
def loop (c : Call) : Call :=
  if c.credits = 0 then { c with phase := .awaitingCredit false, idleCredits := 0 }
  else { c with phase := .awaitingNext }

/-- The inner `catch`. -/
def abortStream (c : Call) (reason : Option String) (sent : SendResult) : Call :=
  c.sendLast (.rpcStreamAbort reason) sent

def onRpc (c : Call) (response : Response) (errorEncodes : Bool) (sent : SendResult) : Call :=
  match response with
  | .value true => { c.send (.rpcResponse false) sent with phase := .settled }
  | .value false | .thrown => c.respondError errorEncodes sent
  | .asyncIterable =>
    if c.aborted then c.respondError errorEncodes sent
    else { c.send .rpcStreamResponse sent with phase := .opening sent }

def opened (c : Call) (openingSent : SendResult) (iterates : Bool) (sent : SendResult) : Call :=
  if openingSent = .dropped then { c with out := c.out ++ [.terminate], phase := .settled }
  else if c.aborted || !iterates then c.abortStream none sent
  else c.loop

def rpcStreamPull (c : Call) (size : Nat) : Call :=
  if size = 0 ∨ c.credits + size > MAX_STREAM_CREDITS then
    c.rejectFlow (.flowError STREAM_CREDIT_VIOLATION_REASON)
  else
    { c with
      credits := c.credits + size
      idleCredits := min (c.idleCredits + size) MAX_STREAM_CREDITS
      phase := match c.phase with
        | .awaitingCredit _ => .awaitingCredit true
        | phase => phase }

def next (c : Call) (result : Next) (sent : SendResult) : Call :=
  match result with
  | .done => c.sendLast .rpcStreamEnd sent
  | .thrown => c.abortStream none sent
  | .value chunk =>
    if c.aborted then c.abortStream none sent
    else
      let c := { c with credits := c.credits - 1 }
      match chunk with
      | none => c.abortStream none sent
      | some chunk => { c.send (.rpcStreamChunk chunk) sent with phase := .sendingChunk sent }

/-- An event that the phase does not wait for changes nothing. -/
def step (c : Call) (event : CallEvent) : Call :=
  match event, c.phase with
  | .onRpc response errorEncodes sent, .dispatching => c.onRpc response errorEncodes sent
  | .opened iterates sent, .opening openingSent => c.opened openingSent iterates sent
  | .idleTimeout, .awaitingCredit _ => c.rejectFlow (.flowError STREAM_IDLE_TIMEOUT_REASON)
  | .granted sent, .awaitingCredit true => if c.aborted then c.abortStream none sent else c.loop
  | .flowRejected sent, .awaitingCredit _ | .flowRejected sent, .awaitingNext =>
    match c.flow with
    | none => c
    | some rejection => c.abortStream rejection.reason sent
  | .next result sent, .awaitingNext => c.next result sent
  | .chunkSent sent, .sendingChunk chunkSent =>
    if chunkSent = .dropped then c.abortStream (some STREAM_TRANSPORT_DROP_REASON) sent else c.loop
  | .unwound, .unwinding => { c with phase := .settled }
  | .rpcStreamPull size, phase => if phase.streaming then c.rpcStreamPull size else c
  | .rpcAbort, phase =>
    if phase.over then c
    else
      let c := { c with aborted := true }
      if phase.streaming then c.rejectFlow .aborted else c
  | _, _ => c

end Call

/-! ## Sessions -/

abbrev Session := List Call

inductive SessionEvent where
  | rpc (callId : Nat)
  | rpcAbort (callId : Nat)
  | rpcStreamPull (callId size : Nat)
  /-- What happens inside the call at a position. -/
  | within (position : Nat) (event : CallEvent)

namespace Session

/-- `rpcs.get(connectionId, callId)` has an entry. -/
def active (s : Session) (callId : Nat) : Bool :=
  s.any fun c => c.callId = callId ∧ c.phase.over = false

def deliver (s : Session) (callId : Nat) (event : CallEvent) : Session :=
  s.map fun c => if c.callId = callId ∧ c.phase.over = false then c.step event else c

def step (s : Session) : SessionEvent → Session
  | .rpc callId => if s.active callId then s else s ++ [Call.new callId]
  | .rpcAbort callId => s.deliver callId .rpcAbort
  | .rpcStreamPull callId size => s.deliver callId (.rpcStreamPull size)
  | .within position event => s.modify position fun c => c.step event

end Session

/-! ## What the frames of a call look like -/

def frames : List Output → List Frame
  | [] => []
  | .sent frame _ :: out => frame :: frames out
  | .terminate :: out => frames out

def Frame.isChunk : Frame → Bool
  | .rpcStreamChunk _ => true
  | _ => false

def Frame.endsStream : Frame → Bool
  | .rpcStreamEnd | .rpcStreamAbort _ => true
  | _ => false

/-- Exactly one RpcResponse, or one RpcStreamResponse followed by chunks and then exactly one
RpcStreamEnd or RpcStreamAbort. -/
def Answers (l : List Frame) : Prop :=
  (∃ error, l = [.rpcResponse error]) ∨
    ∃ chunks last, l = .rpcStreamResponse :: chunks ++ [last] ∧ (∀ f ∈ chunks, f.isChunk = true) ∧
      last.endsStream = true

/-- The frames of a stream that has not ended. -/
inductive Open : List Output → Prop where
  | opening {sent : SendResult} : sent ≠ .dropped → Open [.sent .rpcStreamResponse sent]
  | chunk {out : List Output} (chunk : List UInt8) (sent : SendResult) :
      Open out → Open (out ++ [.sent (.rpcStreamChunk chunk) sent])

/-- The frames of a call that has been answered, with the terminations that go with them. -/
inductive Answered : List Output → Prop where
  | response (error : Bool) (sent : SendResult) : Answered [.sent (.rpcResponse error) sent]
  | unopened : Answered [.sent .rpcStreamResponse .dropped, .terminate]
  | stream {out : List Output} {last : Frame} (sent : SendResult) :
      Open out → last.endsStream = true →
      Answered (out ++ .sent last sent :: if sent = .dropped then [.terminate] else [])

theorem frames_append (out out' : List Output) : frames (out ++ out') = frames out ++ frames out' := by
  induction out with
  | nil => rfl
  | cons o out ih =>
    cases o with
    | sent frame result => exact congrArg (frame :: ·) ih
    | terminate => exact ih

theorem frames_closing (last : Frame) (sent : SendResult) :
    frames (.sent last sent :: if sent = .dropped then [.terminate] else []) = [last] := by
  split <;> rfl

theorem Open.frames_eq {out : List Output} (H : Open out) :
    ∃ chunks, frames out = .rpcStreamResponse :: chunks ∧ ∀ f ∈ chunks, f.isChunk = true := by
  induction H with
  | opening _ => exact ⟨[], rfl, fun _ h => by cases h⟩
  | chunk bytes sent _ ih =>
    obtain ⟨chunks, heq, hchunks⟩ := ih
    refine ⟨chunks ++ [.rpcStreamChunk bytes], by rw [frames_append, heq]; rfl, fun f hf => ?_⟩
    rcases List.mem_append.mp hf with hf | hf
    · exact hchunks f hf
    · rw [List.mem_singleton.mp hf]
      rfl

theorem Answered.answers {out : List Output} (H : Answered out) :
    Answers (frames out) ∨ out = [.sent .rpcStreamResponse .dropped, .terminate] := by
  cases H with
  | response error sent => exact .inl (.inl ⟨error, rfl⟩)
  | unopened => exact .inr rfl
  | stream sent hopen hlast =>
    obtain ⟨chunks, heq, hchunks⟩ := hopen.frames_eq
    refine .inl (.inr ⟨chunks, _, ?_, hchunks, hlast⟩)
    rw [frames_append, heq, frames_closing]

/-- A frame that opens or ends a stream. -/
def Frame.bounds (frame : Frame) : Prop := frame = .rpcStreamResponse ∨ frame.endsStream = true

theorem Open.not_dropped {out : List Output} (H : Open out) {frame : Frame}
    (hframe : frame.bounds) : .sent frame .dropped ∉ out := by
  induction H with
  | opening hsent =>
    intro hmem
    cases List.mem_singleton.mp hmem
    exact hsent rfl
  | chunk bytes sent _ ih =>
    intro hmem
    rcases List.mem_append.mp hmem with hmem | hmem
    · exact ih hmem
    · cases List.mem_singleton.mp hmem
      rcases hframe with hframe | hframe <;> cases hframe

theorem Answered.terminates {out : List Output} (H : Answered out) {frame : Frame}
    (hframe : frame.bounds) (hmem : .sent frame .dropped ∈ out) : .terminate ∈ out := by
  cases H with
  | response error sent =>
    cases List.mem_singleton.mp hmem
    rcases hframe with hframe | hframe <;> cases hframe
  | unopened => exact List.mem_cons_of_mem _ List.mem_cons_self
  | stream sent hopen _ =>
    rcases List.mem_append.mp hmem with hmem | hmem
    · exact absurd hmem (hopen.not_dropped hframe)
    · rcases List.mem_cons.mp hmem with hmem | hmem
      · cases hmem
        exact List.mem_append_right _ (List.mem_cons_of_mem _ List.mem_cons_self)
      · split at hmem
        · cases List.mem_singleton.mp hmem
        · cases hmem

/-! ## What a call waits for -/

/-- How many awaits of a call are behind it at least, not counting three for each chunk. -/
def Phase.reached : Phase → Nat
  | .dispatching => 0
  | .opening _ | .sendingChunk _ => 1
  | .awaitingCredit _ => 2
  | .awaitingNext => 3
  | .unwinding => 4
  | .settled | .rejected => 5

theorem Phase.over_of_reached {phase : Phase} (h : 5 ≤ phase.reached) : phase.over = true := by
  cases phase with
  | settled | rejected => rfl
  | _ => exact absurd h (by simp [reached])

namespace Call

/-- The await, the race or the send where the code is goes on with the event. -/
def awaits (c : Call) (event : CallEvent) : Bool :=
  match event, c.phase with
  | .onRpc .., .dispatching | .opened .., .opening _ | .granted _, .awaitingCredit true
  | .next .., .awaitingNext | .chunkSent _, .sendingChunk _ | .unwound, .unwinding => true
  | .flowRejected _, .awaitingCredit _ | .flowRejected _, .awaitingNext => c.flow.isSome
  | _, _ => false

def chunks (c : Call) : Nat := (frames c.out).countP Frame.isChunk

def spent (c : Call) : Nat := c.phase.reached + 3 * c.chunks

/-! ### What holds of a call -/

/-- What a call has sent, by where it is. -/
def Shaped (c : Call) : Prop :=
  match c.phase with
  | .dispatching => c.out = []
  | .opening sent => c.out = [.sent .rpcStreamResponse sent]
  | .awaitingCredit granted => Open c.out ∧ (granted = true → 0 < c.credits)
  | .awaitingNext | .sendingChunk _ => Open c.out
  | .unwinding | .settled => Answered c.out
  | .rejected => c.out = []

structure Kept (c : Call) : Prop where
  shaped : c.Shaped
  /-- An aborted stream has its flow rejected. -/
  aborted : c.phase.streaming = true → c.aborted = true → c.flow ≠ none

/-- The call has gone on to an await or to its end. -/
structure Goes (c c' : Call) : Prop where
  kept : c'.Kept
  callId : c'.callId = c.callId
  spent : c.spent + 1 ≤ c'.spent

variable {c c' : Call}

theorem spent_append {n : Nat} (out : List Output) (hout : c'.out = c.out ++ out)
    (h : c.phase.reached + n ≤ c'.phase.reached + 3 * (frames out).countP Frame.isChunk) :
    c.spent + n ≤ c'.spent := by
  have hchunks : c'.chunks = c.chunks + (frames out).countP Frame.isChunk := by
    rw [chunks, hout, frames_append, List.countP_append]
    rfl
  rw [spent, spent, hchunks]
  omega

theorem spent_of_reached {n : Nat} (hout : c'.out = c.out)
    (h : c.phase.reached + n ≤ c'.phase.reached) : c.spent + n ≤ c'.spent :=
  spent_append [] (by rw [hout, List.append_nil]) h

theorem kept_new (callId : Nat) : (new callId).Kept := ⟨rfl, fun h => by cases h⟩

theorem goes_sendLast (hopen : Open c.out) (hreached : c.phase.reached < 4) {last : Frame}
    (hlast : last.endsStream = true) (sent : SendResult) : c.Goes (c.sendLast last sent) where
  kept := ⟨Answered.stream sent hopen hlast, fun h => by cases h⟩
  callId := rfl
  spent := spent_append _ rfl (Nat.le_add_right_of_le hreached)

theorem goes_abortStream (hopen : Open c.out) (hreached : c.phase.reached < 4)
    (reason : Option String) (sent : SendResult) : c.Goes (c.abortStream reason sent) :=
  goes_sendLast hopen hreached rfl sent

theorem goes_loop (hopen : Open c.out) (habort : c.aborted = true → c.flow ≠ none)
    (hreached : c.phase.reached < if c.credits = 0 then 2 else 3) : c.Goes c.loop := by
  unfold loop
  split
  · next hcredits =>
    rw [if_pos hcredits] at hreached
    exact ⟨⟨⟨hopen, fun h => by cases h⟩, fun _ => habort⟩, rfl, spent_of_reached rfl hreached⟩
  · next hcredits =>
    rw [if_neg hcredits] at hreached
    exact ⟨⟨hopen, fun _ => habort⟩, rfl, spent_of_reached rfl hreached⟩

/-- The call is settled with its only frame. -/
theorem goes_response (hphase : c.phase = .dispatching) (hout : c.out = []) (error : Bool)
    (sent : SendResult) :
    c.Goes { c.send (.rpcResponse error) sent with phase := .settled } := by
  refine ⟨⟨?_, fun h => by cases h⟩, rfl, spent_append _ rfl ?_⟩
  · change Answered (c.out ++ [.sent (.rpcResponse error) sent])
    rw [hout]
    exact .response error sent
  · simp [hphase, Phase.reached, frames, Frame.isChunk]

theorem goes_respondError (hphase : c.phase = .dispatching) (hout : c.out = [])
    (errorEncodes : Bool) (sent : SendResult) : c.Goes (c.respondError errorEncodes sent) := by
  unfold respondError
  split
  · exact goes_response hphase hout true sent
  · exact ⟨⟨hout, fun h => by cases h⟩, rfl, spent_of_reached rfl (by simp [hphase, Phase.reached])⟩

theorem Kept.rejectFlow (H : c.Kept) (rejection : Rejection) : (c.rejectFlow rejection).Kept :=
  ⟨H.shaped, fun _ _ h => by cases h⟩

theorem goes_onRpc (hphase : c.phase = .dispatching) (hout : c.out = []) (response : Response)
    (errorEncodes : Bool) (sent : SendResult) : c.Goes (c.onRpc response errorEncodes sent) := by
  unfold onRpc
  split
  · exact goes_response hphase hout false sent
  · exact goes_respondError hphase hout errorEncodes sent
  · exact goes_respondError hphase hout errorEncodes sent
  · split
    · exact goes_respondError hphase hout errorEncodes sent
    · next habort =>
      refine ⟨⟨?_, fun _ h => absurd h habort⟩, rfl,
        spent_append _ rfl (by simp [hphase, Phase.reached])⟩
      change c.out ++ [.sent .rpcStreamResponse sent] = _
      rw [hout]
      rfl

theorem goes_opened {openingSent : SendResult} (hphase : c.phase = .opening openingSent)
    (hout : c.out = [.sent .rpcStreamResponse openingSent])
    (habort : c.aborted = true → c.flow ≠ none) (iterates : Bool) (sent : SendResult) :
    c.Goes (c.opened openingSent iterates sent) := by
  have hreached : c.phase.reached = 1 := by rw [hphase, Phase.reached]
  unfold opened
  split
  · next hdropped =>
    refine ⟨⟨?_, fun h => by cases h⟩, rfl,
      spent_append _ rfl (by simp [hphase, Phase.reached, frames])⟩
    change Answered (c.out ++ [.terminate])
    rw [hout, hdropped]
    exact .unopened
  · next hdropped =>
    have hopen : Open c.out := hout ▸ .opening hdropped
    split
    · exact goes_abortStream hopen (by omega) none sent
    · exact goes_loop hopen habort (by split <;> omega)

theorem Kept.rpcStreamPull (H : c.Kept) (hstreaming : c.phase.streaming = true) (size : Nat) :
    (c.rpcStreamPull size).Kept ∧ (c.rpcStreamPull size).callId = c.callId ∧
      c.spent ≤ (c.rpcStreamPull size).spent := by
  unfold Call.rpcStreamPull
  split
  · exact ⟨H.rejectFlow _, rfl, Nat.le_refl _⟩
  · next hsize =>
    have hshaped := H.shaped
    have habort := H.aborted hstreaming
    unfold Shaped at hshaped
    have hcredits : 0 < c.credits + size :=
      Nat.add_pos_right _ (Nat.pos_of_ne_zero fun h => hsize (.inl h))
    cases hphase : c.phase with
    | awaitingCredit granted =>
      rw [hphase] at hshaped
      refine ⟨⟨⟨hshaped.1, fun _ => hcredits⟩, fun _ => habort⟩, rfl, ?_⟩
      exact spent_of_reached (n := 0) rfl (by simp [hphase, Phase.reached])
    | _ =>
      rw [hphase] at hshaped
      refine ⟨⟨hshaped, fun _ => habort⟩, rfl, ?_⟩
      exact spent_of_reached (n := 0) rfl (by simp [hphase])

theorem goes_next (hphase : c.phase = .awaitingNext) (hopen : Open c.out)
    (habort : c.aborted = true → c.flow ≠ none) (result : Next) (sent : SendResult) :
    c.Goes (c.next result sent) := by
  have hreached : c.phase.reached < 4 := by rw [hphase]; decide
  unfold next
  split
  · exact goes_sendLast hopen hreached rfl sent
  · exact goes_abortStream hopen hreached none sent
  · split
    · exact goes_abortStream hopen hreached none sent
    · let c' := { c with credits := c.credits - 1 }
      dsimp only
      split
      · have hgoes := goes_abortStream (c := c') hopen hreached none sent
        exact ⟨hgoes.kept, hgoes.callId, hgoes.spent⟩
      · refine ⟨⟨.chunk _ sent hopen, fun _ => habort⟩, rfl, spent_append _ rfl ?_⟩
        rw [hphase]
        exact Nat.le_refl 4

theorem Kept.open (H : c.Kept) (h : (∃ granted, c.phase = .awaitingCredit granted) ∨
    c.phase = .awaitingNext ∨ ∃ sent, c.phase = .sendingChunk sent) :
    Open c.out ∧ (c.aborted = true → c.flow ≠ none) ∧ c.phase.reached < 4 := by
  have hshaped := H.shaped
  have habort := H.aborted
  unfold Shaped at hshaped
  obtain ⟨granted, hphase⟩ | hphase | ⟨sent, hphase⟩ := h <;> rw [hphase] at hshaped habort ⊢
  · exact ⟨hshaped.1, habort rfl, by simp [Phase.reached]⟩
  · exact ⟨hshaped, habort rfl, by simp [Phase.reached]⟩
  · exact ⟨hshaped, habort rfl, by simp [Phase.reached]⟩

/-- Every awaited event takes the call on; no event takes it back. -/
theorem Kept.step (H : c.Kept) (event : CallEvent) :
    (c.step event).Kept ∧ (c.step event).callId = c.callId ∧
      c.spent + (c.awaits event).toNat ≤ (c.step event).spent := by
  have hone : (c.awaits event).toNat ≤ 1 := Bool.toNat_le _
  have hon {c' : Call} (h : c.Goes c') :
      c'.Kept ∧ c'.callId = c.callId ∧ c.spent + (c.awaits event).toNat ≤ c'.spent :=
    ⟨h.kept, h.callId, Nat.le_trans (Nat.add_le_add_left hone _) h.spent⟩
  have hstays {c' : Call} (hfalse : c.awaits event = false)
      (h : c'.Kept ∧ c'.callId = c.callId ∧ c.spent ≤ c'.spent) :
      c'.Kept ∧ c'.callId = c.callId ∧ c.spent + (c.awaits event).toNat ≤ c'.spent := by
    rw [hfalse]
    exact h
  have hsame : c.Kept ∧ c.callId = c.callId ∧ c.spent ≤ c.spent := ⟨H, rfl, Nat.le_refl _⟩
  have hshaped := H.shaped
  have habort := H.aborted
  unfold Shaped at hshaped
  unfold Call.step
  split
  · next hphase =>
    rw [hphase] at hshaped
    exact hon (goes_onRpc hphase hshaped _ _ _)
  · next hphase =>
    rw [hphase] at hshaped habort
    exact hon (goes_opened hphase hshaped (habort rfl) _ _)
  · exact hstays rfl ⟨H.rejectFlow _, rfl, Nat.le_refl _⟩
  · next hphase =>
    obtain ⟨hopen, habort, hreached⟩ := H.open (.inl ⟨_, hphase⟩)
    rw [hphase] at hshaped
    refine hon ?_
    split
    · exact goes_abortStream hopen hreached none _
    · refine goes_loop hopen habort ?_
      rw [if_neg (Nat.pos_iff_ne_zero.mp (hshaped.2 rfl)), hphase]
      decide
  · next hphase =>
    obtain ⟨hopen, -, hreached⟩ := H.open (.inl ⟨_, hphase⟩)
    split
    · next hflow => exact hstays (by simp [awaits, hphase, hflow]) hsame
    · exact hon (goes_abortStream hopen hreached _ _)
  · next hphase =>
    obtain ⟨hopen, -, hreached⟩ := H.open (.inr (.inl hphase))
    split
    · next hflow => exact hstays (by simp [awaits, hphase, hflow]) hsame
    · exact hon (goes_abortStream hopen hreached _ _)
  · next hphase =>
    obtain ⟨hopen, habort, -⟩ := H.open (.inr (.inl hphase))
    exact hon (goes_next hphase hopen habort _ _)
  · next hphase =>
    obtain ⟨hopen, habort, hreached⟩ := H.open (.inr (.inr ⟨_, hphase⟩))
    refine hon ?_
    split
    · exact goes_abortStream hopen hreached _ _
    · exact goes_loop hopen habort (by rw [hphase, Phase.reached]; split <;> decide)
  · next hphase =>
    rw [hphase] at hshaped
    exact hon ⟨⟨hshaped, fun h => by cases h⟩, rfl,
      spent_of_reached rfl (by simp [hphase, Phase.reached])⟩
  · refine hstays rfl ?_
    split
    · next hstreaming => exact H.rpcStreamPull hstreaming _
    · exact hsame
  · refine hstays rfl ?_
    split
    · exact hsame
    · have hshaped' : { c with aborted := true }.Shaped := H.shaped
      dsimp only
      split
      · exact ⟨⟨hshaped', fun _ _ h => by cases h⟩, rfl, Nat.le_refl _⟩
      · next hstreaming => exact ⟨⟨hshaped', fun h => absurd h hstreaming⟩, rfl, Nat.le_refl _⟩
  · next hpull habort honRpc hopened hidle hgranted hflow hflow' hnext hchunkSent hunwound =>
    refine hstays ?_ hsame
    unfold awaits
    split
    case h_1 hphase => exact (honRpc _ _ _ rfl hphase).elim
    case h_2 hphase => exact (hopened _ _ _ rfl hphase).elim
    case h_3 hphase => exact (hgranted _ rfl hphase).elim
    case h_4 hphase => exact (hnext _ _ rfl hphase).elim
    case h_5 hphase => exact (hchunkSent _ _ rfl hphase).elim
    case h_6 hphase => exact (hunwound rfl hphase).elim
    case h_7 hphase => exact (hflow _ _ rfl hphase).elim
    case h_8 hphase => exact (hflow' _ rfl hphase).elim
    rfl

theorem step_of_over (hover : c.phase.over = true) (event : CallEvent) : c.step event = c := by
  obtain ⟨callId, phase, aborted, flow, credits, idleCredits, out⟩ := c
  cases phase with
  | settled | rejected => cases event <;> rfl
  | _ => cases hover

/-- A call that has ended its stream sends nothing more. -/
theorem step_of_unwinding (hphase : c.phase = .unwinding) (event : CallEvent) :
    (c.step event).out = c.out := by
  obtain ⟨callId, phase, aborted, flow, credits, idleCredits, out⟩ := c
  cases hphase
  cases event <;> rfl

theorem step_rpcAbort_aborted (h : c.phase.over = false) : (c.step .rpcAbort).aborted = true := by
  change (if c.phase.over = true then c else _).aborted = true
  rw [if_neg (by rw [h]; exact Bool.false_ne_true)]
  split <;> rfl

theorem awaits_of_not_over (h : c.phase.over = false) :
    (∃ event, c.awaits event = true) ∨ c.phase = .awaitingCredit false := by
  cases hphase : c.phase <;> rw [hphase] at h
  case dispatching => exact .inl ⟨.onRpc .thrown true .delivered, by simp [awaits, hphase]⟩
  case opening => exact .inl ⟨.opened true .delivered, by simp [awaits, hphase]⟩
  case awaitingCredit granted =>
    cases granted with
    | false => exact .inr rfl
    | true => exact .inl ⟨.granted .delivered, by simp [awaits, hphase]⟩
  case awaitingNext => exact .inl ⟨.next .done .delivered, by simp [awaits, hphase]⟩
  case sendingChunk => exact .inl ⟨.chunkSent .delivered, by simp [awaits, hphase]⟩
  case unwinding => exact .inl ⟨.unwound, by simp [awaits, hphase]⟩
  all_goals cases h

theorem step_rpcStreamPull_phase (hphase : c.phase = .awaitingCredit false) {size : Nat}
    (hsize : 0 < size) (hcredits : c.credits + size ≤ MAX_STREAM_CREDITS) :
    (c.step (.rpcStreamPull size)).phase = .awaitingCredit true := by
  have hok : ¬ (size = 0 ∨ c.credits + size > MAX_STREAM_CREDITS) := by omega
  simp only [step, hphase, Phase.streaming, if_true, rpcStreamPull, if_neg hok]

theorem step_onRpc_encoded (h : c.phase ≠ .rejected) (response : Response) (sent : SendResult) :
    (c.step (.onRpc response true sent)).phase ≠ .rejected := by
  cases hphase : c.phase
  case dispatching =>
    simp only [step, hphase]
    unfold onRpc respondError
    split
    · exact nofun
    · exact nofun
    · exact nofun
    · split <;> exact nofun
  all_goals
    simp only [step, hphase]
    exact hphase ▸ h

end Call

/-! ## What holds of a session -/

/-- The calls with a given id, one after the other: only the last one is still in `rpcs`. -/
def Session.Serial (s : Session) : Prop :=
  s.Pairwise fun c c' => c.callId = c'.callId → c.phase.over = true

/-- A call keeps its id and its invariant, and one that is over stays as it is. -/
structure Evolved (c c' : Call) : Prop where
  kept : c'.Kept
  callId : c'.callId = c.callId
  stays : c.phase.over = true → c' = c

theorem Call.Kept.evolved {c : Call} (H : c.Kept) : Evolved c c := ⟨H, rfl, fun _ => rfl⟩

theorem Call.Kept.evolved_step {c : Call} (H : c.Kept) (event : CallEvent) :
    Evolved c (c.step event) :=
  ⟨(H.step event).1, (H.step event).2.1, fun hover => Call.step_of_over hover event⟩

namespace Session

structure Sound (s : Session) : Prop where
  serial : s.Serial
  kept : ∀ c ∈ s, c.Kept

variable {s s' : Session}

theorem forall₂_modify (H : ∀ c ∈ s, c.Kept) (position : Nat) (event : CallEvent) :
    List.Forall₂ Evolved s (s.modify position fun c => c.step event) := by
  induction s generalizing position with
  | nil => rw [List.modify_nil]; exact .nil
  | cons c s ih =>
    obtain ⟨hc, hs⟩ := List.forall_mem_cons.mp H
    cases position with
    | zero => exact .cons (hc.evolved_step event) (List.forall₂_same.mpr fun c h => (hs c h).evolved)
    | succ position => exact .cons hc.evolved (ih hs position)

theorem forall₂_deliver (H : ∀ c ∈ s, c.Kept) (callId : Nat) (event : CallEvent) :
    List.Forall₂ Evolved s (s.deliver callId event) := by
  refine List.forall₂_map_right_iff.mpr (List.forall₂_same.mpr fun c hc => ?_)
  split
  · exact (H c hc).evolved_step event
  · exact (H c hc).evolved

theorem exists_of_mem (h : List.Forall₂ Evolved s s') {c' : Call} (hc' : c' ∈ s') :
    ∃ c ∈ s, Evolved c c' := by
  induction h with
  | nil => cases hc'
  | cons hc _ ih =>
    rcases List.mem_cons.mp hc' with rfl | hc'
    · exact ⟨_, List.mem_cons_self, hc⟩
    · obtain ⟨d, hd, hdc⟩ := ih hc'
      exact ⟨d, List.mem_cons_of_mem _ hd, hdc⟩

theorem Serial.evolved (H : s.Serial) (h : List.Forall₂ Evolved s s') : s'.Serial := by
  induction h with
  | nil => exact .nil
  | cons hc hs ih =>
    obtain ⟨hhead, htail⟩ := List.pairwise_cons.mp H
    refine List.pairwise_cons.mpr ⟨fun d' hd' hid => ?_, ih htail⟩
    obtain ⟨d, hd, hdd⟩ := exists_of_mem hs hd'
    have hover := hhead d hd (by rw [← hc.callId, hid, hdd.callId])
    rw [hc.stays hover]
    exact hover

theorem Sound.evolved (H : s.Sound) (h : List.Forall₂ Evolved s s') : s'.Sound := by
  refine ⟨H.serial.evolved h, fun c' hc' => ?_⟩
  obtain ⟨c, -, hc⟩ := exists_of_mem h hc'
  exact hc.kept

theorem Sound.step (H : s.Sound) (event : SessionEvent) : (s.step event).Sound := by
  cases event with
  | rpc callId =>
    unfold Session.step
    dsimp only
    split
    · exact H
    · next hactive =>
      refine ⟨List.pairwise_append.mpr ⟨H.serial, List.pairwise_singleton _ _,
        fun c hc c' hc' hid => ?_⟩, fun c hc => ?_⟩
      · obtain rfl := List.mem_singleton.mp hc'
        have hnone := List.any_eq_false.mp ((Bool.not_eq_true _).mp hactive) c hc
        rw [decide_eq_true_eq, not_and, Bool.not_eq_false] at hnone
        exact hnone hid
      · rcases List.mem_append.mp hc with hc | hc
        · exact H.kept c hc
        · rw [List.mem_singleton.mp hc]
          exact Call.kept_new callId
  | rpcAbort callId => exact H.evolved (forall₂_deliver H.kept callId _)
  | rpcStreamPull callId size => exact H.evolved (forall₂_deliver H.kept callId _)
  | within position event => exact H.evolved (forall₂_modify H.kept position event)

/-- The call at a position goes on with the event. -/
def awaits (position : Nat) (s : Session) : SessionEvent → Bool
  | .within position' event => position' = position && s[position]?.any (·.awaits event)
  | _ => false

def spent (position : Nat) (s : Session) : Nat := s[position]?.elim 0 Call.spent

theorem spent_step (H : ∀ c ∈ s, c.Kept) (position : Nat) (event : SessionEvent) :
    s.spent position + (s.awaits position event).toNat ≤ (s.step event).spent position := by
  have hdeliver (callId : Nat) (event : CallEvent) :
      s.spent position ≤ Session.spent position (s.deliver callId event) := by
    rw [spent, spent, deliver, List.getElem?_map]
    cases hc : s[position]? with
    | none => exact Nat.le_refl _
    | some c =>
      simp only [Option.map_some, Option.elim_some]
      split
      · exact Nat.le_of_add_right_le ((H c (List.mem_of_getElem? hc)).step event).2.2
      · exact Nat.le_refl _
  cases event with
  | rpc callId =>
    unfold step
    dsimp only
    split
    · exact Nat.le_refl _
    · change Option.elim _ 0 _ ≤ Option.elim _ 0 _
      cases hc : s[position]? with
      | none => exact Nat.zero_le _
      | some c =>
        refine Nat.le_of_eq ?_
        rw [List.getElem?_append_left (List.getElem?_eq_some_iff.mp hc).1, hc]
  | rpcAbort callId => exact hdeliver callId _
  | rpcStreamPull callId size => exact hdeliver callId _
  | within position' event =>
    change Option.elim _ 0 _ + (_ && _).toNat ≤ Option.elim (List.modify s position' _)[position]? 0 _
    rw [List.getElem?_modify]
    cases hc : s[position]? with
    | none => exact Nat.le_of_eq (by simp)
    | some c =>
      have hstep := ((H c (List.mem_of_getElem? hc)).step event).2.2
      by_cases hposition : position' = position
      · simpa [hposition] using hstep
      · simp [hposition]

theorem active_step_rpc (s : Session) (callId : Nat) : (s.step (.rpc callId)).active callId = true := by
  unfold step
  dsimp only
  split
  · assumption
  · exact List.any_eq_true.mpr ⟨_, List.mem_append_right _ List.mem_cons_self, by simp [Call.new, Phase.over]⟩

theorem aborted_step_rpcAbort (s : Session) (callId : Nat) :
    ∀ c ∈ s.step (.rpcAbort callId), c.callId = callId → c.phase.over = false →
      c.aborted = true := by
  intro c hc hid hover
  obtain ⟨d, -, rfl⟩ := List.mem_map.mp hc
  by_cases hd : d.callId = callId ∧ d.phase.over = false
  · rw [if_pos hd]
    exact Call.step_rpcAbort_aborted hd.2
  · rw [if_neg hd] at hid hover
    exact absurd ⟨hid, hover⟩ hd

end Session

/-! ## The answers of a call -/

/-- The stream has sent its last frame, or the call is over. -/
def Phase.answered : Phase → Bool
  | .unwinding | .settled => true
  | _ => false

structure Disciplined (c : Call) : Prop where
  /-- One answer, or the connection is terminated over an opening frame that was dropped. -/
  answers : c.phase.answered = true →
    Answers (frames c.out) ∨ c.out = [.sent .rpcStreamResponse .dropped, .terminate]
  /-- Before the last frame there are no other frames than the opening one and chunks. -/
  pending : c.phase.answered = false → ∀ frame ∈ frames c.out,
    frame = .rpcStreamResponse ∨ frame.isChunk = true
  /-- A frame that opens or ends a stream is not lost without a termination. -/
  terminates : c.phase.answered = true → ∀ frame, frame.bounds → .sent frame .dropped ∈ c.out →
    .terminate ∈ c.out
  silent : c.phase.answered = true → ∀ event, (c.step event).out = c.out
  /-- The races of an aborted stream are lost to its flow, which ends the stream. -/
  abortable : c.aborted = true → ∀ sent,
    (∃ granted, c.phase = .awaitingCredit granted) ∨ c.phase = .awaitingNext →
      (c.step (.flowRejected sent)).phase = .unwinding
  /-- A call that is not over goes on with some event, or waits for credit. -/
  waits : c.phase.over = false →
    (∃ event, c.awaits event = true) ∨ c.phase = .awaitingCredit false
  granted : c.phase = .awaitingCredit false → ∀ size, 0 < size →
    c.credits + size ≤ MAX_STREAM_CREDITS → (c.step (.rpcStreamPull size)).phase = .awaitingCredit true
  timesOut : ∀ granted, c.phase = .awaitingCredit granted → (c.step .idleTimeout).flow ≠ none
  /-- Nothing is sent for a call that is rejected, which takes an error that is not encoded. -/
  rejected : c.phase = .rejected → c.out = []
  encoded : c.phase ≠ .rejected → ∀ response sent,
    (c.step (.onRpc response true sent)).phase ≠ .rejected

theorem Call.Kept.answered {c : Call} (H : c.Kept) (h : c.phase.answered = true) :
    Answered c.out := by
  have hshaped := H.shaped
  unfold Call.Shaped at hshaped
  cases hphase : c.phase <;> rw [hphase] at h hshaped
  case unwinding => exact hshaped
  case settled => exact hshaped
  all_goals cases h

theorem Call.Kept.disciplined {c : Call} (H : c.Kept) : Disciplined c := by
  refine ⟨fun h => (H.answered h).answers, fun h => ?_, fun h frame hframe hmem =>
    (H.answered h).terminates hframe hmem, fun h event => ?_, fun habort sent hphase => ?_,
    Call.awaits_of_not_over, fun hphase size hsize hcredits =>
    Call.step_rpcStreamPull_phase hphase hsize hcredits, fun granted hphase => ?_, fun h => ?_,
    Call.step_onRpc_encoded⟩
  · have hopen (hopen : Open c.out) : ∀ frame ∈ frames c.out,
        frame = .rpcStreamResponse ∨ frame.isChunk = true := by
      obtain ⟨chunks, heq, hchunks⟩ := hopen.frames_eq
      intro frame hframe
      rw [heq] at hframe
      exact (List.mem_cons.mp hframe).imp id (hchunks frame)
    have hshaped := H.shaped
    unfold Call.Shaped at hshaped
    cases hphase : c.phase <;> rw [hphase] at h hshaped
    case dispatching => rw [hshaped]; exact fun _ h => by cases h
    case rejected => rw [hshaped]; exact fun _ h => by cases h
    case opening =>
      rw [hshaped]
      exact fun frame hframe => .inl (List.mem_singleton.mp hframe)
    case awaitingCredit => exact hopen hshaped.1
    case awaitingNext => exact hopen hshaped
    case sendingChunk => exact hopen hshaped
    all_goals cases h
  · cases hphase : c.phase <;> rw [hphase] at h
    case unwinding => exact Call.step_of_unwinding hphase event
    case settled => rw [Call.step_of_over (by rw [hphase]; rfl)]
    all_goals cases h
  · have hflow : c.flow ≠ none := by
      obtain ⟨granted, hphase⟩ | hphase := hphase
      · exact H.aborted (by rw [hphase]; rfl) habort
      · exact H.aborted (by rw [hphase]; rfl) habort
    obtain ⟨rejection, hrejection⟩ := Option.ne_none_iff_exists'.mp hflow
    obtain ⟨callId, phase, aborted, flow, credits, idleCredits, out⟩ := c
    cases hrejection
    obtain ⟨granted, hphase⟩ | hphase := hphase <;> cases hphase <;> rfl
  · simp only [Call.step, hphase, Call.rejectFlow, ne_eq, reduceCtorEq, not_false_eq_true]
  · have hshaped := H.shaped
    rw [Call.Shaped, h] at hshaped
    exact hshaped

theorem calls_answered (events : List SessionEvent) :
    (Trace.run Session.step [] events).Serial ∧
      (∀ c ∈ Trace.run Session.step [] events, Disciplined c) ∧
      -- three awaits for each chunk, and five more
      (∀ position c, (Trace.run Session.step [] events)[position]? = some c →
        5 + 3 * c.chunks ≤ Trace.awaited Session.step (Session.awaits position) [] events →
          c.phase.over = true) ∧
      ∀ callId, (Trace.run Session.step [] (events ++ [.rpc callId])).active callId = true ∧
        ∀ c ∈ Trace.run Session.step [] (events ++ [.rpcAbort callId]), c.callId = callId →
          c.phase.over = false → c.aborted = true := by
  have hnil : Session.Sound [] := ⟨List.Pairwise.nil, fun _ h => by cases h⟩
  have H : (Trace.run Session.step [] events).Sound :=
    Trace.run_inv Session.step (fun s event (_ : True) H => H.step event) (fun _ _ => trivial) hnil
  refine ⟨H.serial, fun c hc => (H.kept c hc).disciplined, fun position c hc hawaited => ?_,
    fun callId => ⟨?_, ?_⟩⟩
  · have hspent := Trace.awaited_le Session.step (fun s event H => H.step event)
      (fun s event (H : s.Sound) => Session.spent_step H.kept position event) events hnil
    rw [Session.spent, Session.spent, hc] at hspent
    exact Phase.over_of_reached (by simp only [Option.elim_some, Call.spent] at hspent; omega)
  · rw [Trace.run_append]
    exact Session.active_step_rpc _ callId
  · rw [Trace.run_append]
    exact Session.aborted_step_rpcAbort _ callId

/-- Of a stream whose opening frame is dropped no frame tells the end; for an error that is not
encoded nothing is sent; and no dropped response terminates the connection. -/
theorem unopened_unanswered :
    (∃ c ∈ Trace.run Session.step [] [.rpc 1, .within 0 (.onRpc .asyncIterable true .dropped),
        .within 0 (.opened true .delivered)],
      c.phase = .settled ∧ ¬ Answers (frames c.out)) ∧
    (∃ c ∈ Trace.run Session.step [] [.rpc 1, .within 0 (.onRpc .thrown false .delivered)],
      c.phase = .rejected ∧ c.out = []) ∧
    ∃ c ∈ Trace.run Session.step [] [.rpc 1, .within 0 (.onRpc (.value true) true .dropped)],
      c.phase = .settled ∧ c.out = [.sent (.rpcResponse false) .dropped] := by
  refine ⟨⟨_, List.mem_singleton.mpr rfl, rfl, ?_⟩, ⟨_, List.mem_singleton.mpr rfl, rfl, rfl⟩,
    ⟨_, List.mem_singleton.mpr rfl, rfl, rfl⟩⟩
  change ¬ Answers [.rpcStreamResponse]
  rintro (⟨error, h⟩ | ⟨chunks, last, h, -, -⟩)
  · cases h
  · have hlength := congrArg List.length h
    simp at hlength

end Neemata.Ws
