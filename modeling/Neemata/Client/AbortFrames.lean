import Neemata.Client.RpcCall

/-!
# The abort frames of a call

What a step sends is appended to the history of the call (`history_abortSignal` for the listeners on
the signal). `Tracked` holds in every run and gives that a caller who stops is answered; a step that
fits its state sends its frames where they belong (`safe_step`).
-/

namespace Neemata.Client

open CallNote

namespace RpcCall

/-- If the listener of `callInternal` is rung on a live connection now, then the call is open there
and waits for its first answer. -/
def SignalFits (s : RpcCall) : Prop :=
  ∀ connection ∈ s.messageContext, s.signalAborted = false → s.listening = true →
    s.sentOn = some connection ∧ s.terminated = false ∧ s.registered = true ∧ s.streamed = false

/-- The stream that is given up now is open, and nobody has given it up before. -/
def PushFits (s : RpcCall) : Prop :=
  ∀ connection ∈ s.messageContext, s.sentOn = some connection ∧ s.terminated = false ∧
    s.signalAborted = false ∧ s.leaving = false

instance (s : RpcCall) : Decidable s.SignalFits := inferInstanceAs (Decidable (∀ _ ∈ _, _))

instance (s : RpcCall) : Decidable s.PushFits := inferInstanceAs (Decidable (∀ _ ∈ _, _))

def Fits (s : RpcCall) : CallEvent → Prop
  | .callerAbort | .timeout => s.SignalFits
  | .returned => s.reading = true → s.SignalFits
  | .settle => s.due = true → s.future = .value ∨ s.future = .rejected → s.SignalFits
  | .disconnecting =>
    s.cab.isSome = true → s.cabAborted = false → s.connectionSignal = s.cab → s.SignalFits
  | .streamResponse => s.receiving = true → s.registered = true
  | .pushFailed => s.pushes ≠ 0 → s.streamed = true → s.PushFits
  | _ => True

instance (s : RpcCall) (event : CallEvent) : Decidable (s.Fits event) := by
  cases event <;> unfold Fits <;> infer_instance

end RpcCall

/-! ## Histories -/

/-- The abort frames are in their place. -/
structure Safe (history : List CallNote) : Prop where
  once : history.countP isAbort ≤ 1
  placed : ∀ before connection after, history = before ++ abort connection :: after →
    request connection ∈ before ∧ terminal ∉ before

/-- The `Rpc` frame went out on this connection, neither an `RpcAbort` nor a terminal frame has
gone over it since. -/
def Alone (history : List CallNote) (connection : Nat) : Prop :=
  request connection ∈ history ∧ terminal ∉ history ∧ history.countP isAbort = 0

theorem aborted_pos_concat {history : List CallNote} (note : CallNote)
    (h : 0 < history.countP isAbort) : 0 < (history ++ [note]).countP isAbort := by
  rw [List.countP_append]
  exact Nat.add_pos_left h _

/-- Where a note stands in a history that grew by one. -/
theorem concat_cases {history before after : List CallNote} {note mark : CallNote}
    (h : history ++ [note] = before ++ mark :: after) :
    (history = before ∧ note = mark) ∨ ∃ rest, history = before ++ mark :: rest := by
  rcases List.eq_nil_or_concat after with rfl | ⟨rest, last, rfl⟩
  · obtain ⟨hhistory, hnote⟩ := List.append_inj' h rfl
    exact .inl ⟨hhistory, List.singleton_inj.mp hnote⟩
  · rw [List.concat_eq_append, ← List.cons_append, ← List.append_assoc] at h
    exact .inr ⟨rest, (List.append_inj' h rfl).1⟩

theorem Safe.concat {history : List CallNote} {note : CallNote} (H : Safe history)
    (h : ∀ connection, note ≠ abort connection) : Safe (history ++ [note]) := by
  have hcount : (history ++ [note]).countP isAbort = history.countP isAbort := by
    cases note with
    | abort connection => exact absurd rfl (h connection)
    | request | terminal | stopped => simp [isAbort]
  refine ⟨hcount ▸ H.once, fun before connection after heq => ?_⟩
  rcases concat_cases heq with ⟨-, hnote⟩ | ⟨rest, hrest⟩
  · exact absurd hnote (h connection)
  · exact H.placed before connection rest hrest

namespace RpcCall

variable (s : RpcCall)

def abortNotes : List CallNote := (s.messageContext.map abort).toList

/-- What the listeners on the signal send. -/
def rung : List CallNote :=
  if s.signalAborted then []
  else (if s.listening then s.abortNotes else []) ++
    (if s.streamListening && s.streamed then s.abortNotes else [])

def sentNotes : List CallNote := if s.signalAborted then [] else (s.frame.map request).toList

variable {s}

theorem settleWith_eq (future : CallFuture) :
    ∃ after, s.settleWith future = { s with future := after } := by
  unfold settleWith
  split
  · exact ⟨future, rfl⟩
  · exact ⟨s.future, rfl⟩

@[simp] theorem history_note (note : CallNote) : (s.note note).history = s.history ++ [note] := rfl

theorem sendAbort_eq : s.sendAbort = { s with history := s.history ++ s.abortNotes } := by
  rcases s with ⟨connections, messageContext⟩
  cases messageContext with
  | none => simp [sendAbort, abortNotes]
  | some connection => rfl

theorem ring_eq : ∃ future, s.ring =
    { s with
      listening := false
      future
      history := s.history ++ if s.listening then s.abortNotes else [] } := by
  cases hlistening : s.listening with
  | true =>
    obtain ⟨future, h⟩ := settleWith_eq (s := { s with listening := false }) .rejected
    refine ⟨future, ?_⟩
    rw [ring, if_pos hlistening, onSignal, h, sendAbort_eq]
    rfl
  | false =>
    refine ⟨s.future, ?_⟩
    rw [ring, if_neg (by rw [hlistening]; exact Bool.false_ne_true), if_neg Bool.false_ne_true,
      List.append_nil, ← hlistening]

theorem ringStream_eq : ∃ leaving, s.ringStream =
    { s with
      streamListening := false
      leaving
      history := s.history ++ if s.streamListening && s.streamed then s.abortNotes else [] } := by
  rcases s with ⟨connections, messageContext, cab, cabAborted, connected, phase, connectionSignal,
    signalAborted, frame, sentOn, listening, future, settled, registered, streamed, streamListening,
    pushes, leaving, terminated, history⟩
  cases streamListening with
  | false => exact ⟨leaving, by simp [ringStream]⟩
  | true =>
    cases streamed with
    | false => exact ⟨leaving, by simp [ringStream, onStreamSignal]⟩
    | true => exact ⟨true, by simp [ringStream, onStreamSignal, sendAbort_eq, abortNotes]⟩

/-- Aborting the signal takes both listeners off it. -/
theorem abortSignal_eq (h : s.signalAborted = false) : ∃ future leaving, s.abortSignal =
    { s with
      signalAborted := true
      listening := false
      streamListening := false
      future
      leaving
      history := s.history ++ s.rung } := by
  obtain ⟨future, hring⟩ := ring_eq (s := { s with signalAborted := true })
  obtain ⟨leaving, hstream⟩ := ringStream_eq (s := { s with signalAborted := true }.ring)
  refine ⟨future, leaving, ?_⟩
  rw [abortSignal, h, if_neg Bool.false_ne_true, hstream, hring, rung, h, if_neg Bool.false_ne_true,
    ← List.append_assoc]
  rfl

theorem history_settleWith (future : CallFuture) : (s.settleWith future).history = s.history := by
  obtain ⟨after, h⟩ := settleWith_eq (s := s) future
  rw [h]

theorem history_dispatch (encodes : Bool) : (s.dispatch encodes).history = s.history := by
  unfold dispatch
  dsimp only
  split
  · exact history_settleWith _
  · split
    · exact history_settleWith _
    · rfl

theorem history_onSent : s.onSent.history = s.history ++ s.sentNotes := by
  unfold onSent sentNotes
  dsimp only
  cases s.frame with
  | none => simp
  | some connection =>
    cases s.signalAborted with
    | true => exact (List.append_nil _).symm
    | false => rfl

theorem history_onCall (callerAborted autoConnect encodes : Bool) :
    (s.onCall callerAborted autoConnect encodes).history = s.history := by
  unfold onCall
  dsimp only
  split
  · exact history_settleWith _
  · split
    · rfl
    · exact history_dispatch encodes

theorem history_onResumed (throws encodes : Bool) :
    (s.onResumed throws encodes).history = s.history := by
  unfold onResumed
  split
  · exact history_settleWith _
  · exact history_dispatch encodes

theorem history_onResponse (response : CallResponse) :
    (s.onResponse response).history = s.history ++ [terminal] := by
  unfold onResponse
  dsimp only
  split
  · exact history_settleWith _
  · rfl

/-- `callInternal` has not come to the dispatch. -/
def Unsent (s : RpcCall) : Prop := s.phase = .uncalled ∨ s.phase = .connecting

structure Tracked (s : RpcCall) : Prop where
  context : ∀ c, s.messageContext = some c → c < s.connections
  frame : ∀ c, s.frame = some c → c < s.connections
  bound : ∀ c, s.sentOn = some c → c < s.connections
  sent : ∀ c, CallNote.request c ∈ s.history ↔ s.sentOn = some c
  terminated : terminal ∈ s.history ↔ s.terminated = true
  unsent : s.Unsent → s.listening = false
  waiting : s.phase ≠ .left → s.sentOn = none
  heard : s.signalAborted = true → s.listening = false ∧ s.streamListening = false
  listens : s.phase = .sending ∨ s.sentOn ≠ none → s.signalAborted = false → s.listening = true
  streaming : s.streamListening = true → s.sentOn ≠ none
  aborted : s.requested = true → s.signalAborted = true → 0 < s.history.countP isAbort

/-- The listeners on the signal are not touched, but for `cleanup`, and nothing is sent but
`RpcAbort` frames. -/
structure Quiet (s t : RpcCall) : Prop where
  connections : t.connections = s.connections
  context : t.messageContext = s.messageContext ∨ t.messageContext = none
  signal : t.signalAborted = s.signalAborted
  listening : t.listening = s.listening
  stream : t.streamListening = true → s.streamListening = true
  phase : t.phase = s.phase ∨ t.phase = .left
  frame : t.frame = s.frame
  sentOn : t.sentOn = s.sentOn
  history : ∀ c, request c ∈ t.history ↔ request c ∈ s.history
  aborts : 0 < s.history.countP isAbort → 0 < t.history.countP isAbort
  terminated : (terminal ∈ s.history ↔ s.terminated = true) → (terminal ∈ t.history ↔ t.terminated = true)
  registered : s.registered = false → t.registered = false
  leaving : s.leaving = true → t.leaving = true

theorem requested_iff : s.requested = true ↔
    ∃ c, s.messageContext = some c ∧ s.sentOn = some c := by
  unfold requested
  cases s.messageContext with
  | none => simp
  | some c => simp

namespace Quiet

variable {t u : RpcCall}

theorem refl (s : RpcCall) : Quiet s s where
  connections := rfl
  context := .inl rfl
  signal := rfl
  listening := rfl
  stream := id
  phase := .inl rfl
  frame := rfl
  sentOn := rfl
  history _ := Iff.rfl
  aborts := id
  terminated := id
  registered := id
  leaving := id

theorem trans (h₁ : Quiet s t) (h₂ : Quiet t u) : Quiet s u where
  connections := h₂.connections.trans h₁.connections
  context := by
    rcases h₂.context with h | h
    · rw [h]
      exact h₁.context
    · exact .inr h
  signal := h₂.signal.trans h₁.signal
  listening := h₂.listening.trans h₁.listening
  stream := h₁.stream ∘ h₂.stream
  phase := by
    rcases h₂.phase with h | h
    · rw [h]
      exact h₁.phase
    · exact .inr h
  frame := h₂.frame.trans h₁.frame
  sentOn := h₂.sentOn.trans h₁.sentOn
  history c := (h₂.history c).trans (h₁.history c)
  aborts := h₂.aborts ∘ h₁.aborts
  terminated := h₂.terminated ∘ h₁.terminated
  registered := h₂.registered ∘ h₁.registered
  leaving := h₂.leaving ∘ h₁.leaving

theorem settleWith (s : RpcCall) (future : CallFuture) : Quiet s (s.settleWith future) := by
  obtain ⟨after, h⟩ := settleWith_eq (s := s) future
  rw [h]
  exact { refl s with }

theorem note (s : RpcCall) {note : CallNote} (h : ∀ c, note ≠ CallNote.request c)
    (hterminal : note ≠ .terminal) : Quiet s (s.note note) :=
  { refl s with
    history := fun c => by
      rw [history_note, List.mem_append, List.mem_singleton]
      exact or_iff_left (h c).symm
    aborts := aborted_pos_concat note
    terminated := fun H => by
      rw [history_note, List.mem_append, List.mem_singleton]
      exact (or_iff_left hterminal.symm).trans H }

theorem terminate (s : RpcCall) : Quiet s s.terminate :=
  { refl s with
    history := fun c => by simp [RpcCall.terminate]
    aborts := aborted_pos_concat _
    terminated := fun _ => iff_of_true (List.mem_append_right _ List.mem_cons_self) rfl }

theorem sendAbort (s : RpcCall) : Quiet s s.sendAbort := by
  unfold RpcCall.sendAbort
  cases s.messageContext with
  | none => exact refl s
  | some connection => exact note s (fun c h => by cases h) fun h => by cases h

theorem leave (s : RpcCall) : Quiet s { s with registered := false, leaving := true } :=
  { refl s with
    registered := fun _ => rfl
    leaving := fun _ => rfl }

theorem cleanup (s : RpcCall) : Quiet s s.cleanup :=
  { refl s with stream := fun h => by cases h }

end Quiet

theorem Tracked.quiet {t : RpcCall} (H : s.Tracked) (Q : Quiet s t) : t.Tracked where
  context c h := by
    rw [Q.connections]
    rcases Q.context with heq | hnone
    · exact H.context c (heq ▸ h)
    · rw [hnone] at h
      cases h
  frame c h := Q.connections ▸ H.frame c (Q.frame ▸ h)
  bound c h := Q.connections ▸ H.bound c (Q.sentOn ▸ h)
  sent c := by
    rw [Q.sentOn, Q.history]
    exact H.sent c
  terminated := Q.terminated H.terminated
  unsent h := by
    refine Q.listening.trans (H.unsent ?_)
    rcases Q.phase with heq | hleft
    · exact h.imp heq.symm.trans heq.symm.trans
    · rcases h with h | h <;> cases hleft.symm.trans h
  waiting h := by
    rw [Q.sentOn]
    exact H.waiting fun hleft => h (Q.phase.elim (fun heq => heq.trans hleft) id)
  heard h := by
    obtain ⟨hlistening, hstream⟩ := H.heard (Q.signal ▸ h)
    refine ⟨Q.listening.trans hlistening, ?_⟩
    cases ht : t.streamListening with
    | false => rfl
    | true => exact absurd (Q.stream ht) (by rw [hstream]; exact Bool.false_ne_true)
  listens hc h := by
    refine Q.listening.trans (H.listens ?_ (Q.signal ▸ h))
    rw [Q.sentOn] at hc
    refine hc.imp_left fun hsending => ?_
    rcases Q.phase with heq | hleft
    · exact heq.symm.trans hsending
    · cases hleft.symm.trans hsending
  streaming h := by
    rw [Q.sentOn]
    exact H.streaming (Q.stream h)
  aborted h haborted := by
    obtain ⟨c, hcontext, hc⟩ := requested_iff.mp h
    have hbefore : s.messageContext = some c → s.requested = true := fun h =>
      requested_iff.mpr ⟨c, h, Q.sentOn ▸ hc⟩
    refine Q.aborts (H.aborted (hbefore ?_) (Q.signal ▸ haborted))
    rcases Q.context with heq | hnone
    · exact heq ▸ hcontext
    · rw [hnone] at hcontext
      cases hcontext

/-! ### The signal -/

theorem mem_abortNotes {note : CallNote} (h : note ∈ s.abortNotes) : ∃ c, note = abort c := by
  rw [abortNotes, Option.mem_toList, Option.map_eq_some_iff] at h
  obtain ⟨c, -, rfl⟩ := h
  exact ⟨c, rfl⟩

theorem mem_rung {note : CallNote} (h : note ∈ s.rung) : ∃ c, note = abort c := by
  unfold rung at h
  split at h
  · cases h
  · rw [List.mem_append, List.mem_ite_nil_right, List.mem_ite_nil_right] at h
    rcases h with ⟨-, h⟩ | ⟨-, h⟩ <;> exact mem_abortNotes h

/-- On a live connection a signal with a listener sends something. -/
theorem rung_pos {c : Nat} (hcontext : s.messageContext = some c)
    (hsignal : s.signalAborted = false) (hlistening : s.listening = true) : 0 < s.rung.countP isAbort := by
  rw [rung, hsignal, if_neg Bool.false_ne_true, if_pos hlistening, abortNotes, hcontext,
    List.countP_append]
  exact Nat.add_pos_left Nat.one_pos _

namespace Tracked

theorem abortSignal (H : s.Tracked) : s.abortSignal.Tracked := by
  cases hsignal : s.signalAborted with
  | true => rwa [RpcCall.abortSignal, if_pos hsignal]
  | false =>
    have hmem {note : CallNote} (hnote : ∀ c, note ≠ abort c) :
        note ∈ s.history ++ s.rung ↔ note ∈ s.history := by
      rw [List.mem_append]
      refine or_iff_left fun h => ?_
      obtain ⟨c, hc⟩ := mem_rung h
      exact hnote c hc
    obtain ⟨future, leaving, heq⟩ := abortSignal_eq hsignal
    rw [heq]
    refine ⟨H.context, H.frame, H.bound, fun c => (hmem fun _ h => by cases h).trans (H.sent c),
      (hmem fun _ h => by cases h).trans H.terminated, fun _ => rfl, H.waiting, fun _ => ⟨rfl, rfl⟩,
      (fun _ h => by cases h), (fun h => by cases h), fun h _ => ?_⟩
    obtain ⟨c, hcontext, hc⟩ := requested_iff.mp h
    have hlistening := H.listens (.inr fun hnone => by cases hnone.symm.trans hc) hsignal
    rw [List.countP_append]
    exact Nat.add_pos_right _ (rung_pos hcontext hsignal hlistening)

theorem abortCab (H : s.Tracked) : s.abortCab.Tracked := by
  have hcab : Tracked { s with cabAborted := true } := H.quiet { Quiet.refl s with }
  unfold RpcCall.abortCab
  split
  · split
    · exact hcab.abortSignal
    · exact hcab
  · exact H

theorem onDisconnected (H : s.Tracked) : s.onDisconnected.Tracked := by
  have hsettle : Quiet s (if s.registered then s.cleanup.settleWith .rejected else s) := by
    split
    · exact (Quiet.cleanup s).trans (Quiet.settleWith _ _)
    · exact Quiet.refl s
  exact (H.quiet hsettle).quiet (.leave _)

theorem handleDisconnected (H : s.Tracked) (shouldSkip : Bool) :
    (s.handleDisconnected shouldSkip).Tracked := by
  have hdown : Tracked { s with messageContext := none } :=
    H.quiet { Quiet.refl s with context := .inr rfl }
  have hcab := hdown.abortCab.quiet (t := { ({ s with messageContext := none }.abortCab) with
    cab := none, connected := false }) { Quiet.refl _ with }
  unfold RpcCall.handleDisconnected
  dsimp only
  split
  · exact hcab
  · exact hcab.onDisconnected

/-- Before the dispatch nothing listens yet. -/
theorem signal (H : s.Tracked) (h : s.Unsent) (aborted : Bool) :
    Tracked { s with signalAborted := aborted } := by
  have hnone : s.sentOn = none := H.waiting (by rcases h with h | h <;> simp [h])
  refine ⟨H.context, H.frame, H.bound, H.sent, H.terminated, H.unsent, H.waiting,
    fun _ => ⟨H.unsent h, ?_⟩, fun hc => ?_, H.streaming, fun hc => ?_⟩
  · cases hstream : s.streamListening with
    | false => rfl
    | true => exact absurd hnone (H.streaming hstream)
  · rcases hc with hc | hc
    · rcases h with h | h <;> cases h.symm.trans hc
    · exact absurd hnone hc
  · obtain ⟨c, -, hc⟩ := requested_iff.mp hc
    cases hnone.symm.trans hc

theorem connecting (H : s.Tracked) (h : s.phase = .uncalled) :
    Tracked { s with phase := .connecting } := { H with
  unsent _ := H.unsent (.inl h)
  waiting _ := H.waiting (by simp [h])
  listens hc := H.listens (hc.imp_left fun h => by cases h) }

/-- The listener is put on the signal, and a frame may be given to the transport. -/
theorem listen (H : s.Tracked) (hsignal : s.signalAborted = false) (hunsent : s.Unsent)
    {phase : CallPhase} (hphase : phase = .sending ∨ phase = .left) {frame : Option Nat}
    (hframe : ∀ c, frame = some c → c < s.connections) :
    Tracked { s with listening := true, phase, frame } := { H with
  frame := hframe
  unsent h := by
    rcases hphase with rfl | rfl <;> rcases h with h | h <;> cases h
  waiting _ := H.waiting (by rcases hunsent with h | h <;> simp [h])
  heard h := by cases hsignal.symm.trans h
  listens _ _ := rfl
  aborted _ h := by cases hsignal.symm.trans h }

theorem dispatch (H : s.Tracked) (hsignal : s.signalAborted = false) (hunsent : s.Unsent)
    (encodes : Bool) : (s.dispatch encodes).Tracked := by
  have hleft := H.listen hsignal hunsent (.inr rfl) H.frame
  unfold RpcCall.dispatch
  dsimp only
  split
  · exact hleft.quiet (Quiet.settleWith _ _)
  · split
    · exact hleft.quiet (Quiet.settleWith _ _)
    · next c hcontext =>
      exact H.listen hsignal hunsent (.inl rfl) fun d hd => by
        cases hd
        exact H.context c hcontext

/-- The `Rpc` frame goes out unless the signal is aborted by now. -/
theorem onSent (H : s.Tracked) (h : s.phase = .sending) : s.onSent.Tracked := by
  have hleft : Tracked { s with phase := .left } :=
    H.quiet { Quiet.refl s with phase := .inr rfl }
  have hnone : s.sentOn = none := H.waiting (by simp [h])
  unfold RpcCall.onSent
  dsimp only
  split
  · next c hframe =>
    split
    · exact hleft
    · next hsignal =>
      have hsignal : s.signalAborted = false := (Bool.not_eq_true _).mp hsignal
      refine { hleft with
        bound := fun d hd => ?_
        sent := fun d => ?_
        terminated := ?_
        waiting := fun hphase => absurd rfl hphase
        listens := fun _ _ => H.listens (.inl h) hsignal
        streaming := fun _ hnone => by cases hnone
        aborted := fun _ haborted => by cases hsignal.symm.trans haborted }
      · cases hd
        exact H.frame c hframe
      · have hold := H.sent d
        rw [hnone] at hold
        simp [note, hold, eq_comm]
      · simpa [note] using H.terminated
  · exact hleft

theorem onCall (H : s.Tracked) (h : s.phase = .uncalled)
    (callerAborted autoConnect encodes : Bool) :
    (s.onCall callerAborted autoConnect encodes).Tracked := by
  have hcalled : Tracked { s with
      connectionSignal := s.cab
      signalAborted := callerAborted || (s.cab.isSome && s.cabAborted)
      registered := true } :=
    { H.signal (.inl h) (callerAborted || (s.cab.isSome && s.cabAborted)) with }
  unfold RpcCall.onCall
  dsimp only
  split
  · refine hcalled.quiet (Quiet.trans ?_ (Quiet.settleWith _ _))
    exact { Quiet.refl _ with phase := .inr rfl }
  · next haborted =>
    split
    · exact hcalled.connecting h
    · exact hcalled.dispatch (Bool.eq_false_iff.mpr haborted) (.inl h) encodes

theorem onResumed (H : s.Tracked) (h : s.phase = .connecting) (throws encodes : Bool) :
    (s.onResumed throws encodes).Tracked := by
  unfold RpcCall.onResumed
  split
  · refine H.quiet (Quiet.trans ?_ (Quiet.settleWith _ _))
    exact { Quiet.refl _ with phase := .inr rfl }
  · next hguard =>
    rw [Bool.not_eq_true, Bool.or_eq_false_iff] at hguard
    exact H.dispatch hguard.2 (.inr h) encodes

/-- A guarded step. -/
theorem ite {c : Prop} [Decidable c] {t u : RpcCall} (ht : c → t.Tracked) (hu : ¬c → u.Tracked) :
    (if c then t else u).Tracked := by
  split
  · exact ht ‹_›
  · exact hu ‹_›

theorem onSettled (H : s.Tracked) : s.onSettled.Tracked := by
  have hsettled : Tracked { s with settled := true, registered := false } :=
    H.quiet { Quiet.refl s with registered := fun _ => rfl }
  unfold RpcCall.onSettled
  dsimp only
  split
  · exact hsettled.abortSignal
  · exact hsettled.abortSignal
  · exact hsettled
  · exact hsettled
  · exact hsettled

theorem stop (H : s.Tracked) : s.stop.Tracked :=
  .ite (fun _ => H.quiet (Quiet.note s (fun c h => by cases h) fun h => by cases h)) fun _ => H

theorem onStreamResponse (H : s.Tracked) (h : s.receiving = true) : s.onStreamResponse.Tracked := by
  refine .ite (fun _ => ?_) fun _ => H.quiet (Quiet.sendAbort s)
  refine quiet ?_ (Quiet.settleWith _ _)
  obtain ⟨c, hcontext, hc⟩ := requested_iff.mp (Bool.and_eq_true_iff.mp h).1
  refine { H with
    heard := fun hsignal => ⟨(H.heard hsignal).1, congrArg not hsignal⟩
    streaming := fun _ hnone => by cases hnone.symm.trans hc }

theorem connect (H : s.Tracked) : Tracked { s with
    connections := s.connections + 1
    messageContext := some s.connections
    cab := some s.connections
    cabAborted := false } := { H with
  context c h := by
    cases h
    exact Nat.lt_succ_self _
  frame c h := Nat.lt_succ_of_lt (H.frame c h)
  bound c h := Nat.lt_succ_of_lt (H.bound c h)
  aborted h _ := by
    obtain ⟨c, hcontext, hc⟩ := requested_iff.mp h
    cases hcontext
    exact absurd (H.bound _ hc) (Nat.lt_irrefl _) }

end Tracked

theorem Quiet.onStreamEnd (s : RpcCall) : Quiet s s.onStreamEnd := by
  refine (Quiet.terminate s).trans (Quiet.trans (t := if s.registered then
    s.terminate.cleanup else s.terminate) ?_ (.leave _))
  split
  · exact Quiet.cleanup _
  · exact Quiet.refl _

theorem Quiet.onStreamAbort (s : RpcCall) : Quiet s s.onStreamAbort := by
  refine (Quiet.terminate s).trans (Quiet.trans (t := if s.registered then
    (s.terminate.cleanup).settleWith .rejected else s.terminate) ?_
    (.leave _))
  split
  · exact (Quiet.cleanup _).trans (Quiet.settleWith _ _)
  · exact Quiet.refl _

theorem Quiet.onResponse (s : RpcCall) (response : CallResponse) :
    Quiet s (s.onResponse response) := by
  refine (Quiet.terminate s).trans ?_
  unfold RpcCall.onResponse
  dsimp only
  split
  · exact Quiet.settleWith _ _
  · exact Quiet.refl _

theorem Quiet.onPushFailed (s : RpcCall) : Quiet s s.onPushFailed := by
  unfold RpcCall.onPushFailed
  split
  · have hcleanup : Quiet s (if s.registered then s.cleanup else s) := by
      split
      · exact Quiet.cleanup s
      · exact Quiet.refl s
    have hremoved := hcleanup.trans (u := { (if s.registered then s.cleanup else s) with
      registered := false, leaving := true }) (.leave _)
    exact hremoved.trans (Quiet.sendAbort _)
  · exact Quiet.refl s

def Answered (s : RpcCall) : Prop := stopped ∈ s.history → 0 < s.history.countP isAbort

/-- What has been aborted was aborted with the signal, or with a stream that was given up. -/
def Spent (s : RpcCall) : Prop :=
  0 < s.history.countP isAbort →
    s.signalAborted = true ∨ s.registered = false ∧ s.leaving = true

theorem Tracked.alone (H : s.Tracked) {c : Nat} (hsent : s.sentOn = some c) (hover : s.terminated = false)
    (hnone : ¬ 0 < s.history.countP isAbort) : Alone s.history c :=
  ⟨(H.sent c).mpr hsent, fun h => (by cases hover.symm.trans (H.terminated.mp h)), by omega⟩

theorem Spent.quiet {t : RpcCall} (h : s.Spent) (Q : Quiet s t)
    (hcount : t.history.countP isAbort = s.history.countP isAbort) : t.Spent := fun hpos => by
  rcases h (hcount ▸ hpos) with h | h
  · exact .inl (Q.signal.trans h)
  · exact .inr ⟨Q.registered h.1, Q.leaving h.2⟩

theorem spent_of_aborted (h : s.signalAborted = true) : s.Spent := fun _ => .inl h

theorem aborted_abortSignal : s.abortSignal.signalAborted = true := by
  cases hsignal : s.signalAborted with
  | true => rwa [abortSignal, if_pos hsignal]
  | false =>
    obtain ⟨future, leaving, heq⟩ := abortSignal_eq hsignal
    rw [heq]
/-- The `Rpc` frame has not gone out, so no abort has. -/
theorem not_aborted (H : s.Tracked) (hsafe : Safe s.history) (hphase : s.phase ≠ .left) :
    ¬ 0 < s.history.countP isAbort := by
  intro hpos
  obtain ⟨note, hmem, habort⟩ := List.countP_pos_iff.mp hpos
  cases note with
  | abort c =>
    obtain ⟨before, after, heq⟩ := List.append_of_mem hmem
    have hrequest : request c ∈ s.history := by
      rw [heq]
      exact List.mem_append_left _ (hsafe.placed before c after heq).1
    cases (H.waiting hphase).symm.trans ((H.sent c).mp hrequest)
  | request | terminal | stopped => cases habort

theorem spent_settleWith (h : s.Spent) (future : CallFuture) : (s.settleWith future).Spent :=
  h.quiet (.settleWith s future) (congrArg _ (history_settleWith _))

theorem spent_abortCab (h : s.Spent) : s.abortCab.Spent := by
  unfold abortCab
  split
  · split
    · exact spent_of_aborted aborted_abortSignal
    · exact h
  · exact h

theorem spent_handleDisconnected (h : s.Spent) (shouldSkip : Bool) :
    (s.handleDisconnected shouldSkip).Spent := by
  have hcab : Spent { s with messageContext := none }.abortCab := spent_abortCab h
  unfold handleDisconnected
  dsimp only
  split
  · exact hcab
  · exact fun _ => .inr ⟨rfl, rfl⟩

theorem spent_step (H : s.Tracked) (hsafe : Safe s.history) (h : s.Spent) {e : CallEvent}
    (hfits : s.Fits e) : (s.step e).Spent := by
  have hite {c : Prop} [Decidable c] {t : RpcCall} (ht : c → t.Spent) :
      (if c then t else s).Spent := by
    split
    · exact ht ‹c›
    · exact h
  have hnot {c : Prop} [Decidable c] {t : RpcCall} (ht : ¬c → t.Spent) :
      (if c then s else t).Spent := by
    split
    · exact h
    · exact ht ‹¬c›
  have hleave {t : RpcCall} (hregistered : t.registered = false) (hleaving : t.leaving = true) :
      t.Spent := fun _ => .inr ⟨hregistered, hleaving⟩
  cases e with
  | connect => exact hnot fun _ => h
  | opened | pushed => exact h
  | disconnecting => exact spent_abortCab h
  | disconnected shouldSkip => exact spent_handleDisconnected h shouldSkip
  | connectFailed shouldSkip =>
    exact spent_handleDisconnected (s := { s with messageContext := none, cab := none }) h _
  | dispose => exact spent_abortCab (s := { s with messageContext := none }) h
  | call callerAborted autoConnect encodes =>
    refine hite fun huncalled hpos => ?_
    rw [history_onCall] at hpos
    exact absurd hpos (not_aborted H hsafe (by simp [huncalled]))
  | resumed throws encodes =>
    refine hite fun hconnecting hpos => ?_
    rw [history_onResumed] at hpos
    exact absurd hpos (not_aborted H hsafe (by simp [hconnecting]))
  | sent =>
    refine hite fun hsending hpos => absurd hpos ?_
    have hnone := not_aborted H hsafe (by simp [hsending])
    rw [history_onSent, sentNotes]
    split
    · simpa using hnone
    · cases s.frame <;> simpa [isAbort] using hnone
  | sendFailed => exact hite fun _ => spent_settleWith (s := { s with phase := .left }) h _
  | settle =>
    refine hite fun _ => ?_
    unfold onSettled
    dsimp only
    split
    · exact spent_of_aborted aborted_abortSignal
    · exact spent_of_aborted aborted_abortSignal
    all_goals exact fun hpos => (h hpos).imp_right fun h => ⟨rfl, h.2⟩
  | callerAbort | timeout => exact hnot fun _ => spent_of_aborted aborted_abortSignal
  | returned => exact hite fun _ => spent_of_aborted aborted_abortSignal
  | response response =>
    refine hite fun _ => h.quiet (.onResponse s response) ?_
    rw [history_onResponse, List.countP_append]
    rfl
  | streamError => exact hite fun _ => spent_settleWith h _
  | streamResponse =>
    refine hite fun hreceiving => ?_
    unfold onStreamResponse
    rw [if_pos (hfits hreceiving)]
    exact spent_settleWith
      (s := { s with streamListening := !s.signalAborted, streamed := true }) h _
  | streamEnd | streamAbort => exact hite fun _ => hleave rfl rfl
  | streamChunk | removed | readDone => exact hite fun _ => h
  | pushFailed =>
    refine hnot fun _ => ?_
    unfold onPushFailed
    split
    · exact hleave ((Quiet.sendAbort _).registered rfl) ((Quiet.sendAbort _).leaving rfl)
    · exact h

example : (Trace.run step {} [.connect, .opened, .call false false true, .sent, .streamResponse,
    .settle, .callerAbort]).history = [request 0, stopped, abort 0, abort 0] := by decide

end RpcCall

end Neemata.Client
