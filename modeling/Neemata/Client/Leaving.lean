import Neemata.Client.Consistent

/-!
# An explicit disconnect

`disconnect('client')` is meant to hold against the reconnect loop. In the states of `Leavable` it
does: from there `Away` holds until the application connects or reconnects. An attempt that is under
way, a reconnect that was requested, a loop without its record and an open socket that the transport
has lost each undo it.
-/

namespace Neemata.Client

namespace Connection

variable (c : Connection)

/-- The call of `disconnect` waits for an established socket. -/
def awaits (disconnect : Disconnect) : Bool :=
  disconnect.socket.any fun k => (c.socket? k).any Socket.established

end Connection

namespace ClientCore

/-- What the application closed stays closed: no loop makes a socket after that, and at rest the
client is disconnected, for the reason of the application. -/
structure StaysAway (s : ClientCore) : Prop where
  strayReconnects : s.strayReconnects = 0
  left : s.left = true → s.connection.Rested → s.connection.state = .disconnected ∧
    s.connection.lastDisconnectReason = .client
  disposed : s.connection.disposed = true → s.connection.Rested → s.connection.sockets ≠ [] →
    s.connection.state = .disconnected

/-- The state in which `disconnect('client')` is called: no attempt is under way, a loop that sleeps
is on record, an established socket is closed by the client without a request to reconnect, and the
earlier calls of `disconnect` wait for that socket or have the same reason. -/
structure Leavable (s : ClientCore) : Prop where
  attempt : ∀ a ∈ s.connection.connecting, a.phase ≠ .pending ∧ a.phase ≠ .rejected
  loops : ∀ i < s.reconnecting.loops.length, ∀ loop ∈ s.reconnecting.loops[i]?,
    loop.phase = .sleeping → loop.aborted = false → s.reconnecting.reconnectController = some i
  marked : s.connection.holds = true → s.connection.closingByClient = true ∨
    s.connection.resting = false ∧ s.connection.webSocket.isSome = true
  reason : s.connection.holds = true ∨ s.connection.resting = false →
    s.connection.effectiveReason .client = .client
  disconnects : s.connection.resting = false → ∀ disconnect ∈ s.connection.disconnects,
    disconnect.reason = .client ∨ s.connection.awaits disconnect = true

theorem leavable_iff {s : ClientCore} : s.Leavable ↔
    (∀ a ∈ s.connection.connecting, a.phase ≠ .pending ∧ a.phase ≠ .rejected) ∧
    (∀ i < s.reconnecting.loops.length, ∀ loop ∈ s.reconnecting.loops[i]?,
      loop.phase = .sleeping → loop.aborted = false →
        s.reconnecting.reconnectController = some i) ∧
    (s.connection.holds = true → s.connection.closingByClient = true ∨
      s.connection.resting = false ∧ s.connection.webSocket.isSome = true) ∧
    (s.connection.holds = true ∨ s.connection.resting = false →
      s.connection.effectiveReason .client = .client) ∧
    (s.connection.resting = false → ∀ disconnect ∈ s.connection.disconnects,
      disconnect.reason = .client ∨ s.connection.awaits disconnect = true) := by
  constructor
  · intro H
    exact ⟨H.attempt, H.loops, H.marked, H.reason, H.disconnects⟩
  · intro H
    exact ⟨H.1, H.2.1, H.2.2.1, H.2.2.2.1, H.2.2.2.2⟩

instance decidableLeavable (s : ClientCore) : Decidable s.Leavable :=
  decidable_of_iff' _ leavable_iff

/-- `disconnect('client')` is called in a state in which it is not undone. -/
def Leaves (s : ClientCore) (e : ClientEvent) : Prop := e = .disconnect .client → s.Leavable

instance decidableLeaves (s : ClientCore) (e : ClientEvent) : Decidable (s.Leaves e) :=
  inferInstanceAs (Decidable (_ → _))

end ClientCore

namespace Connection

variable {c t : Connection}

theorem awaits_iff {disconnect : Disconnect} : c.awaits disconnect = true ↔
    ∃ k socket, disconnect.socket = some k ∧ c.socket? k = some socket ∧
      socket.established = true := by
  unfold awaits
  simp only [Option.any_eq_true, exists_and_left]

theorem awaits_beginClose {k : Nat} {disconnect : Disconnect} (h : c.awaits disconnect = true) :
    (c.modifySocket k .beginClose).awaits disconnect = true := by
  obtain ⟨j, socket, hj, hsocket, hup⟩ := awaits_iff.mp h
  by_cases heq : j = k
  · subst heq
    refine awaits_iff.mpr ⟨j, socket.beginClose, hj, getElem?_modify_self hsocket, ?_⟩
    rw [Socket.established_beginClose]
    exact hup
  · exact awaits_iff.mpr ⟨j, socket, hj, (getElem?_modify_of_ne heq).trans hsocket, hup⟩

/-! ## The connection after an explicit disconnect -/

structure Away (c : Connection) : Prop where
  state : c.state = .disconnecting ∨
    c.state = .disconnected ∧ c.lastDisconnectReason = .client
  attempt : ∀ a ∈ c.connecting, a.phase ≠ .pending ∧ a.phase ≠ .rejected
  marked : c.holds = true → c.closingByClient = true
  reason : c.state = .disconnecting ∨ c.holds = true → c.effectiveReason .client = .client
  disconnects : c.state = .disconnecting → ∀ disconnect ∈ c.disconnects,
    disconnect.reason = .client ∨ c.awaits disconnect = true

theorem effectiveReason_of_flag (h : c.clientDisconnectAsReconnect = false)
    (reason : DisconnectReason) : c.effectiveReason reason = reason := by
  unfold effectiveReason
  rw [h]
  exact if_neg fun hflag => Bool.noConfusion hflag.2

theorem holds_closeTransport (c : Connection) : c.closeTransport.holds = c.holds := by
  unfold closeTransport
  split
  · rfl
  · exact holds_beginClose _

theorem awaits_closeTransport {disconnect : Disconnect} (h : c.awaits disconnect = true) :
    c.closeTransport.awaits disconnect = true := by
  unfold closeTransport
  split
  · exact h
  · exact awaits_beginClose h

theorem not_resting (h : c.resting = false) : ¬ (c.state = .idle ∨ c.state = .disconnected) := by
  unfold resting at h
  simpa only [Bool.or_eq_false_iff, decide_eq_false_iff_not, ← not_or] using h

namespace Away

theorem ne_connected (H : c.Away) : c.state ≠ .connected ∧ c.state ≠ .connecting := by
  rcases H.state with h | ⟨h, -⟩ <;> rw [h] <;> exact ⟨fun h => (by cases h), fun h => (by cases h)⟩

/-- The state, the reasons and the mark stay. -/
theorem congr (H : c.Away) (hstate : t.state = c.state)
    (hlast : t.lastDisconnectReason = c.lastDisconnectReason)
    (hclosing : t.closingByClient = c.closingByClient)
    (hreason : t.effectiveReason .client = c.effectiveReason .client)
    (hattempt : ∀ a ∈ t.connecting, a.phase ≠ .pending ∧ a.phase ≠ .rejected)
    (hholds : t.holds = true → c.holds = true)
    (hdisconnects : c.state = .disconnecting → ∀ disconnect ∈ t.disconnects,
      disconnect.reason = .client ∨ t.awaits disconnect = true) : t.Away where
  state := by
    rw [hstate, hlast]
    exact H.state
  attempt := hattempt
  marked h := by
    rw [hclosing]
    exact H.marked (hholds h)
  reason h := by
    rw [hreason]
    rw [hstate] at h
    exact H.reason (h.imp id hholds)
  disconnects h := hdisconnects (hstate ▸ h)

/-- The client has been disconnected for the reason of the application. -/
theorem of_disconnected (hstate : t.state = .disconnected)
    (hlast : t.lastDisconnectReason = .client) (hflag : t.clientDisconnectAsReconnect = false)
    (hattempt : ∀ a ∈ t.connecting, a.phase ≠ .pending ∧ a.phase ≠ .rejected)
    (hmarked : t.holds = true → t.closingByClient = true) : t.Away where
  state := .inr ⟨hstate, hlast⟩
  attempt := hattempt
  marked := hmarked
  reason _ := effectiveReason_of_flag hflag .client
  disconnects h := by
    rw [hstate] at h
    cases h

theorem beginClose (H : c.Away) (k : Nat) : (c.modifySocket k .beginClose).Away := by
  refine H.congr rfl rfl rfl rfl H.attempt ?_ ?_
  · rw [holds_beginClose]
    exact id
  · exact fun h disconnect hmem => (H.disconnects h disconnect hmem).imp id awaits_beginClose

/-- No attempt waits for the socket. -/
theorem settle_eq (H : c.Away) (k : Nat) (phase : AttemptPhase) : c.settle k phase = c := by
  unfold settle
  exact if_neg fun ha => (H.attempt _ ha).1 rfl

theorem error (H : c.Away) (k : Nat) : (c.onError k).Away := by
  have hbegin := H.beginClose k
  unfold onError
  rw [hbegin.settle_eq]
  exact hbegin

theorem close (H : c.Away) {k : Nat} {socket : Socket} (hsocket : c.socket? k = some socket)
    (hlive : socket.readyState ≠ .closed) (client : Bool) :
    (c.onClose k socket.opened client).Away := by
  unfold onClose
  dsimp only
  set t : Connection := { c with
    sockets := c.sockets.modify k .close
    webSocket := none
    disconnects := c.disconnects.map (.closed k) } with ht
  have hholds : t.holds = true → c.holds = true := holds_of_close
  split
  · next hopened =>
    have hup : c.holds = true :=
      holds_iff.mpr ⟨k, socket, hsocket, (Socket.established_iff _).mpr ⟨hopened, hlive⟩⟩
    have hmarked : c.closingByClient = true := H.marked hup
    have hreason : t.effectiveReason (if c.closingByClient || client then .client else .server) =
        .client := by
      rw [hmarked, Bool.true_or, if_pos rfl]
      exact H.reason (.inr hup)
    have h := disconnected_handleDisconnected t
      (if c.closingByClient || client then .client else .server) false
    refine of_disconnected h.state (h.lastDisconnectReason.trans hreason) h.flag ?_ ?_
    · have hconnecting := h.attempt
      rcases hconnecting with ⟨-, hconnecting⟩ | ⟨-, hconnecting⟩
      · rw [hconnecting]
        exact H.attempt
      · rw [hconnecting]
        exact H.attempt
    · rw [h.closingByClient]
      exact fun _ => hmarked
  · next hopened =>
    have haway : t.Away := by
      refine H.congr rfl rfl rfl rfl H.attempt hholds ?_
      intro hstate disconnect hmem
      obtain ⟨old, hold, rfl⟩ := List.mem_map.mp hmem
      unfold Disconnect.closed
      rcases H.disconnects hstate old hold with hclient | hawaits
      · split
        · exact .inl hclient
        · exact .inl hclient
      · obtain ⟨j, other, hj, hother, hup⟩ := awaits_iff.mp hawaits
        have hne : j ≠ k := by
          rintro rfl
          cases hsocket.symm.trans hother
          exact hopened ((Socket.established_iff _).mp hup).1
        rw [hj, if_neg fun heq => hne (Option.some.inj heq)]
        exact .inr (awaits_iff.mpr ⟨j, other, hj, (getElem?_modify_of_ne hne).trans hother, hup⟩)
    rw [haway.settle_eq]
    exact haway

theorem resumeAttempt (H : c.Away) : c.resumeAttempt.Away := by
  unfold Connection.resumeAttempt
  split
  · next k ha => exact absurd rfl (H.attempt _ ha).2
  · exact H.congr rfl rfl rfl rfl (fun _ h => (by cases h)) id H.disconnects
  · exact H

theorem resumeDisconnect (H : c.Away) (i : Nat) : (c.resumeDisconnect i).Away := by
  unfold Connection.resumeDisconnect
  split
  · next reason hget =>
    dsimp only
    split
    · next hstate =>
      set t : Connection := { c with disconnects := c.disconnects.eraseIdx i } with ht
      -- it waited for nothing, so it has the reason of the application
      have hclient : reason = .client := by
        rcases H.disconnects hstate _ (List.mem_of_getElem? hget) with h | h
        · exact h
        · cases h
      have h := disconnected_handleDisconnected t reason false
      have hreason : t.effectiveReason reason = .client := by
        rw [hclient]
        exact H.reason (.inl hstate)
      refine of_disconnected h.state (h.lastDisconnectReason.trans hreason) h.flag ?_ ?_
      · rcases h.attempt with ⟨-, hconnecting⟩ | ⟨-, hconnecting⟩
        · rw [hconnecting]
          exact H.attempt
        · rw [hconnecting]
          exact H.attempt
      · rw [h.closingByClient, holds_of_sockets h.sockets]
        exact H.marked
    · refine H.congr rfl rfl rfl rfl H.attempt id ?_
      exact fun h disconnect hmem => H.disconnects h disconnect (List.mem_of_mem_eraseIdx hmem)
  · exact H

theorem hooks (H : c.Away) (i : Nat) (ofAttempt : Bool) :
    (if ofAttempt then { c with hooks := c.hooks.eraseIdx i }.setPhase .finalizing
      else { c with hooks := c.hooks.eraseIdx i }).Away := by
  split
  · refine H.congr rfl rfl rfl rfl ?_ id H.disconnects
    intro a ha
    obtain ⟨b, -, rfl⟩ := Option.map_eq_some_iff.mp ha
    exact ⟨fun h => (by cases h), fun h => (by cases h)⟩
  · exact H.congr rfl rfl rfl rfl H.attempt id H.disconnects

theorem dispose (H : c.Away) : c.dispose.Away := by
  unfold Connection.dispose
  dsimp only
  rw [if_neg]
  · exact H.congr rfl rfl rfl rfl H.attempt id H.disconnects
  · rintro (h | h)
    · exact H.ne_connected.2 h
    · exact H.ne_connected.1 h

end Away

end Connection

/-! ## The loops after an explicit disconnect -/

/-- A loop that sleeps has been aborted. -/
def Reconnecting.Quiet (r : Reconnecting) : Prop :=
  ∀ loop ∈ r.loops, loop.phase = .sleeping → loop.aborted = true

namespace Reconnecting.Quiet

variable {r : Reconnecting}

theorem cancelReconnectLoop (H : r.Quiet) : r.cancelReconnectLoop.Quiet := by
  intro loop hmem hphase
  unfold Reconnecting.cancelReconnectLoop at hmem
  dsimp only at hmem
  split at hmem
  · rcases mem_modify hmem with hmem | ⟨old, -, rfl⟩
    · exact H loop hmem hphase
    · rfl
  · exact H loop hmem hphase

theorem ensureReconnectLoop (H : r.Quiet) : r.ensureReconnectLoop.Quiet := by
  unfold Reconnecting.ensureReconnectLoop
  split
  · exact H
  · intro loop hmem hphase
    rcases List.mem_append.mp hmem with hmem | hmem
    · exact H loop hmem hphase
    · cases List.mem_singleton.mp hmem
      cases hphase

theorem setLoop (H : r.Quiet) (i : Nat) {phase : LoopPhase} (h : phase ≠ .sleeping) :
    (r.setLoop i phase).Quiet := by
  intro loop hmem hphase
  rcases mem_modify hmem with hmem | ⟨old, -, rfl⟩
  · exact H loop hmem hphase
  · exact absurd hphase h

/-- Only the loops count. -/
theorem congr (H : r.Quiet) {t : Reconnecting} (hloops : t.loops = r.loops) : t.Quiet := by
  unfold Quiet
  rw [hloops]
  exact H

end Reconnecting.Quiet

/-! ## Every state reached -/

namespace ClientCore

variable {s : ClientCore}

/-- What holds between an explicit disconnect and the next call of the application. -/
structure Away (s : ClientCore) : Prop where
  connection : s.connection.Away
  quiet : s.reconnecting.Quiet

namespace Leavable

theorem away (H : s.Leavable) : (s.disconnect .client).Away where
  connection := by
    unfold ClientCore.disconnect Connection.disconnect
    dsimp only
    cases hresting : s.connection.resting with
    | true =>
      rw [if_pos (by simpa [Connection.resting] using hresting)]
      refine ⟨.inr ⟨rfl, rfl⟩, H.attempt, fun h => ?_, fun h => ?_, fun h => (by cases h)⟩
      · rcases H.marked h with hclosing | ⟨hnot, -⟩
        · exact hclosing
        · rw [hresting] at hnot
          cases hnot
      · rcases h with h | h
        · cases h
        · exact H.reason (.inl h)
    | false =>
      rw [if_neg (Connection.not_resting hresting)]
      refine ⟨?_, ?_, ?_, ?_, ?_⟩
      · rw [Connection.closeTransport_eq]
        exact .inl rfl
      · rw [Connection.closeTransport_eq]
        exact H.attempt
      · rw [Connection.holds_closeTransport, Connection.closeTransport_eq]
        intro h
        rw [Bool.or_eq_true]
        exact (H.marked h).symm.imp And.right id
      · rw [Connection.closeTransport_eq]
        exact fun _ => H.reason (.inr hresting)
      · intro _ disconnect hmem
        rw [Connection.closeTransport_eq] at hmem
        rcases List.mem_append.mp hmem with hmem | hmem
        · exact (H.disconnects hresting disconnect hmem).imp id
            Connection.awaits_closeTransport
        · cases List.mem_singleton.mp hmem
          exact .inl rfl
  quiet := by
    intro loop hmem hphase
    obtain ⟨j, hj⟩ := List.mem_iff_getElem?.mp hmem
    by_contra haborted
    rw [Bool.not_eq_true] at haborted
    unfold ClientCore.disconnect Reconnecting.cancelReconnectLoop at hj
    have hrecord : ∀ i, s.reconnecting.loops[i]? = some loop →
        s.reconnecting.reconnectController = some i := by
      intro i hi
      exact H.loops i (List.getElem?_eq_some_iff.mp hi).1 loop hi hphase haborted
    dsimp only at hj
    split at hj
    · next i hi =>
      obtain ⟨old, -, -, rfl⟩ | ⟨hne, hget⟩ := getElem?_modify_cases hj
      · cases haborted
      · have h := hrecord j hget
        rw [hi] at h
        exact hne (Option.some.inj h).symm
    · next hnone =>
      have h := hrecord j hj
      rw [hnone] at h
      cases h

end Leavable

namespace Away

theorem reason_eq (h : s.connection.lastDisconnectReason = .client) :
    decide (s.connection.lastDisconnectReason ≠ .client) = false := by
  rw [h]
  rfl

theorem loops_eq (H : s.Away) (loop : ReconnectLoop) : s.loops loop = false := by
  unfold loops
  rcases H.connection.state with h | ⟨-, h⟩
  · rw [h]
    exact (congrArg (· && _) (Bool.and_false _)).trans (Bool.false_and _)
  · rw [reason_eq h, Bool.and_false]

theorem shouldConnectOnCall_eq (H : s.Away) : s.shouldConnectOnCall = false := by
  unfold shouldConnectOnCall
  rcases H.connection.state with h | ⟨-, h⟩
  · rw [h]
    exact Bool.and_false _
  · rw [reason_eq h, Bool.and_false, Bool.false_and, Bool.false_and]

/-- No loop makes a socket or sleeps. -/
theorem loopMove_cases (H : s.Away) {loop : ReconnectLoop} (hmem : loop ∈ s.reconnecting.loops)
    (jitter : Nat) : s.loopMove loop jitter = .wait ∨ s.loopMove loop jitter = .leave ∨
      s.loopMove loop jitter = .finish ∨
      ∃ previousTimeout, s.loopMove loop jitter = .resume previousTimeout := by
  have hloops := H.loops_eq loop
  unfold loopMove
  split
  · exact .inr (.inl (if_pos hloops))
  · exact .inr (.inl (if_pos hloops))
  · next hphase =>
    refine .inr (.inl (if_pos ?_))
    unfold breaks
    rw [H.quiet loop hmem hphase]
    rfl
  · next previousTimeout _ =>
    split
    · exact .inr (.inr (.inr ⟨previousTimeout, rfl⟩))
    · exact .inl rfl
  · exact .inr (.inr (.inl rfl))
  · exact .inl rfl

theorem quiet_loop (H : s.Away) (i jitter : Nat) :
    (s.step (.loop i jitter)).reconnecting.Quiet := by
  simp only [step]
  split
  · next loop hget =>
    rcases H.loopMove_cases (List.mem_of_getElem? hget) jitter with h | h | h | ⟨previousTimeout, h⟩
    · rw [h]
      exact H.quiet
    · rw [h]
      exact H.quiet.setLoop i fun h => (by cases h)
    · rw [h]
      have hset : (s.reconnecting.setLoop i .finished).Quiet :=
        H.quiet.setLoop i fun h => (by cases h)
      exact hset.congr rfl
    · rw [h]
      have hset : (s.reconnecting.setLoop i .heading).Quiet :=
        H.quiet.setLoop i fun h => (by cases h)
      simp only [move, afterReconnect]
      split
      · split
        · exact hset.congr rfl
        · exact hset
      · exact hset
  · exact H.quiet

theorem connection_loop (H : s.Away) (i jitter : Nat) :
    (s.step (.loop i jitter)).connection = s.connection := by
  simp only [step]
  split
  · next loop hget =>
    rcases H.loopMove_cases (List.mem_of_getElem? hget) jitter with h | h | h | ⟨previousTimeout, h⟩
    · rw [h]
      rfl
    · rw [h]
      rfl
    · rw [h]
      rfl
    · rw [h]
      simp only [move, afterReconnect]
      split
      · split <;> rfl
      · rfl
  · rfl

end Away

theorem left_loop (i jitter : Nat) : (s.step (.loop i jitter)).left = s.left := by
  simp only [step]
  split
  · cases s.loopMove _ jitter with
    | resume previousTimeout =>
      simp only [move, afterReconnect]
      split
      · split <;> rfl
      · rfl
    | _ => rfl
  · rfl

/-- A reconnect loop makes a socket only while the client is not away. -/
theorem strayReconnects_step (H : s.left = true → s.Away) (e : ClientEvent) :
    (s.step e).strayReconnects = s.strayReconnects := by
  cases e with
  | loop i jitter =>
    simp only [step]
    split
    · next loop hget =>
      cases hmove : s.loopMove loop jitter with
      | connect reconnectImmediate =>
        refine if_neg fun h => ?_
        simp only [Bool.and_eq_true, Bool.or_eq_true] at h
        obtain ⟨hmakes, hleft | hdisposed⟩ := h
        · rcases (H hleft).loopMove_cases (List.mem_of_getElem? hget) jitter with
            h | h | h | ⟨previousTimeout, h⟩
          · cases hmove.symm.trans h
          · cases hmove.symm.trans h
          · cases hmove.symm.trans h
          · cases hmove.symm.trans h
        · simp only [Connection.makesSocket, hdisposed, Bool.not_true, Bool.false_and] at hmakes
          cases hmakes
      | resume previousTimeout =>
        simp only [move, afterReconnect]
        split
        · split <;> rfl
        · rfl
      | wait => rfl
      | pause => rfl
      | sleep => rfl
      | leave => rfl
      | finish => rfl
    · rfl
  | connect => rfl
  | call | message | error | closing | close =>
    simp only [step]
    split <;> rfl
  | disconnect reason => rfl
  | requestReconnect reason => rfl
  | triggerReconnect =>
    simp only [step, triggerReconnect]
    split
    · rfl
    · split <;> rfl
  | configureReconnect config =>
    simp only [step, configureReconnect]
    split
    · rfl
    · split <;> rfl
  | setReconnectPauseReason reason active => rfl
  | dispose =>
    simp only [step, dispose]
    split <;> rfl
  | «open» k =>
    simp only [step]
    split
    · rw [onOpen]
      split <;> rfl
    · rfl
  | resumeAttempt => rfl
  | resumeDisconnect i => rfl
  | hooks i =>
    simp only [step, onHooks]
    split <;> rfl

/-- While the client is away, and when it leaves, it is away after the step. -/
theorem step_away (C : s.connection.Consistent) (H : s.left = true → s.Away) (e : ClientEvent)
    (hleaves : s.Leaves e) (hleft : (s.step e).left = true) : (s.step e).Away := by
  cases e with
  | connect => cases hleft
  | call =>
    simp only [step] at hleft ⊢
    split at hleft
    · next hcall =>
      rw [(H hleft).shouldConnectOnCall_eq] at hcall
      cases hcall
    · next hcall =>
      rw [if_neg hcall]
      exact H hleft
  | disconnect reason =>
    have hreason : reason = .client := of_decide_eq_true hleft
    subst hreason
    have haway := (hleaves rfl).away
    exact ⟨haway.connection, haway.quiet⟩
  | requestReconnect reason => cases hleft
  | triggerReconnect =>
    simp only [step, triggerReconnect] at hleft ⊢
    split
    · next h =>
      rw [if_pos h] at hleft
      exact H hleft
    · next h =>
      rw [if_neg h] at hleft
      have haway : s.Away := by
        split at hleft
        · exact H hleft
        · exact H hleft
      have hset : Reconnecting.Quiet { s.reconnecting with reconnectImmediate := true } :=
        haway.quiet.congr rfl
      split
      · exact ⟨haway.connection, hset.ensureReconnectLoop⟩
      · exact ⟨haway.connection, hset⟩
  | configureReconnect config =>
    simp only [step, configureReconnect] at hleft ⊢
    have haway : s.Away := by
      split at hleft
      · exact H hleft
      · split at hleft
        · exact H hleft
        · exact H hleft
    split
    · exact ⟨haway.connection, Reconnecting.Quiet.cancelReconnectLoop (haway.quiet.congr rfl)⟩
    · split
      · exact ⟨haway.connection, Reconnecting.Quiet.ensureReconnectLoop (haway.quiet.congr rfl)⟩
      · exact ⟨haway.connection, haway.quiet.congr rfl⟩
  | setReconnectPauseReason reason active =>
    exact ⟨(H hleft).connection, (H hleft).quiet.congr rfl⟩
  | dispose =>
    simp only [step, dispose] at hleft ⊢
    split
    · next h =>
      rw [if_pos h] at hleft
      exact H hleft
    · next h =>
      rw [if_neg h] at hleft
      exact ⟨(H hleft).connection.dispose, (H hleft).quiet.cancelReconnectLoop⟩
  | «open» k =>
    simp only [step] at hleft ⊢
    split
    · next hfires =>
      obtain ⟨socket, hsocket, hready⟩ := socket_of_fires hfires
      rw [decide_eq_true_eq] at hready
      have ha := C.fresh k socket hsocket hready
      rw [if_pos hfires, onOpen, if_pos ha] at hleft
      exact absurd rfl ((H hleft).connection.attempt _ ha).1
    · next hfires =>
      rw [if_neg hfires] at hleft
      exact H hleft
  | message k =>
    simp only [step] at hleft ⊢
    split
    · next hfires =>
      rw [if_pos hfires] at hleft
      refine ⟨?_, (H hleft).quiet⟩
      have haway := (H hleft).connection
      simp only [Connection.onMessage]
      split
      · exact haway.congr rfl rfl rfl rfl haway.attempt id haway.disconnects
      · exact haway
    · next hfires =>
      rw [if_neg hfires] at hleft
      exact H hleft
  | error k =>
    simp only [step] at hleft ⊢
    split
    · next hfires =>
      rw [if_pos hfires] at hleft
      exact ⟨(H hleft).connection.error k, (H hleft).quiet⟩
    · next hfires =>
      rw [if_neg hfires] at hleft
      exact H hleft
  | closing k =>
    simp only [step] at hleft ⊢
    split
    · next hfires =>
      rw [if_pos hfires] at hleft
      exact ⟨(H hleft).connection.beginClose k, (H hleft).quiet⟩
    · next hfires =>
      rw [if_neg hfires] at hleft
      exact H hleft
  | close k client =>
    simp only [step] at hleft ⊢
    split
    · next hfires =>
      rw [if_pos hfires] at hleft
      obtain ⟨socket, hsocket, hlive⟩ := socket_of_fires hfires
      rw [hsocket, Option.any_some]
      exact ⟨(H hleft).connection.close hsocket (of_decide_eq_true hlive) client, (H hleft).quiet⟩
    · next hfires =>
      rw [if_neg hfires] at hleft
      exact H hleft
  | resumeAttempt => exact ⟨(H hleft).connection.resumeAttempt, (H hleft).quiet⟩
  | resumeDisconnect i => exact ⟨(H hleft).connection.resumeDisconnect i, (H hleft).quiet⟩
  | hooks i =>
    simp only [step, onHooks] at hleft ⊢
    split
    · next hget =>
      rw [hget] at hleft
      exact H hleft
    · next hooks hget =>
      rw [hget] at hleft
      refine ⟨(H hleft).connection.hooks i hooks.ofAttempt, ?_⟩
      dsimp only
      split
      · exact (H hleft).quiet.ensureReconnectLoop
      · exact (H hleft).quiet
  | loop i jitter =>
    rw [left_loop] at hleft
    refine ⟨?_, (H hleft).quiet_loop i jitter⟩
    rw [(H hleft).connection_loop]
    exact (H hleft).connection

structure Inv (s : ClientCore) : Prop where
  consistent : s.connection.Consistent
  strayReconnects : s.strayReconnects = 0
  away : s.left = true → s.Away

theorem inv_step {e : ClientEvent} (hleaves : s.Leaves e) (H : s.Inv) : (s.step e).Inv where
  consistent := step_consistent H.consistent e
  strayReconnects := (strayReconnects_step H.away e).trans H.strayReconnects
  away := step_away H.consistent H.away e hleaves

theorem Inv.staysAway (H : s.Inv) : s.StaysAway where
  strayReconnects := H.strayReconnects
  left hleft hrested := by
    rcases (H.away hleft).connection.state with h | h
    · have hresting := H.consistent.resting_of_rested hrested
      unfold Connection.resting at hresting
      rw [h] at hresting
      cases hresting
    · exact h
  disposed _ hrested hsockets := by
    have hresting := H.consistent.resting_of_rested hrested
    unfold Connection.resting at hresting
    rw [Bool.or_eq_true, decide_eq_true_eq, decide_eq_true_eq] at hresting
    rcases hresting with h | h
    · exact absurd (H.consistent.idle h) hsockets
    · exact h

/-- In the runs in which `disconnect('client')` is called in states of `Leavable` only. -/
theorem staysAway_of_leaves (autoConnect : Bool) (l : List ClientEvent)
    (h : Trace.Admits step Leaves { autoConnect } l) :
    StaysAway (Trace.run step { autoConnect } l) := by
  have hinv : (Trace.run step { autoConnect } l).Inv := by
    refine Trace.run_inv_of_admits step (fun s e => inv_step) h ?_
    exact ⟨Connection.consistent_new, rfl, fun h => (by cases h)⟩
  exact hinv.staysAway

/-- A reconnected client leaves; its loop, its hooks and a call that might connect do not bring it
back. -/
theorem staysAway_after_reconnect :
    StaysAway (Trace.run step { autoConnect := true } [.configureReconnect (some ⟨none, none⟩),
      .connect, .open 0, .resumeAttempt, .close 0 false, .hooks 0, .loop 0 7, .loop 0 7, .open 1,
      .resumeAttempt, .disconnect .client, .call, .close 1 false, .resumeDisconnect 0, .hooks 0,
      .triggerReconnect, .loop 0 7, .loop 0 7, .call]) :=
  staysAway_of_leaves true _ (by decide)

/-- Where a condition of `Leavable` fails, a loop makes a socket: an attempt is under way; a loop
has lost its record; the transport has lost its open socket; a reconnect was requested; an earlier
`disconnect` waits for a socket that never opened. -/
theorem disconnect_undone :
    let run := Trace.run step {}
    let config := ClientEvent.configureReconnect (some ⟨none, none⟩)
    ¬ StaysAway (run [config, .connect, .disconnect .client, .error 0, .resumeAttempt, .hooks 0,
      .loop 0 7, .resumeAttempt, .close 0 false, .resumeDisconnect 0, .loop 0 7]) ∧
    ¬ StaysAway (run [config, .setReconnectPauseReason "offline" true, .triggerReconnect, .loop 0 7,
      .disconnect .server, .setReconnectPauseReason "offline" false, config, .loop 1 7, .loop 0 7,
      .loop 0 7, .setReconnectPauseReason "offline" true, .triggerReconnect, .loop 2 7,
      .disconnect .client, .loop 1 7]) ∧
    ¬ StaysAway (run [config, .connect, .error 0, .resumeAttempt, .hooks 0, .loop 0 7,
      .resumeAttempt, .connect, .close 0 false, .open 1, .resumeAttempt, .disconnect .client,
      .resumeDisconnect 0, .hooks 0, .loop 0 7, .loop 0 7, .close 1 false, .hooks 0, .loop 1 7,
      .loop 1 7]) ∧
    ¬ StaysAway (run [config, .connect, .open 0, .resumeAttempt, .requestReconnect .server,
      .disconnect .client, .close 0 false, .hooks 0, .loop 0 7, .loop 0 7]) ∧
    ¬ StaysAway (run [config, .connect, .disconnect (.other "idle"), .error 0, .resumeAttempt,
      .hooks 0, .loop 0 7, .resumeAttempt, .connect, .open 1, .resumeAttempt, .disconnect .client,
      .close 0 false, .resumeDisconnect 0, .hooks 0, .loop 1 7, .loop 1 7]) := by
  refine ⟨fun h => ?_, fun h => ?_, fun h => ?_, fun h => ?_, fun h => ?_⟩
  · exact absurd h.strayReconnects (by decide)
  · exact absurd h.strayReconnects (by decide)
  · exact absurd h.strayReconnects (by decide)
  · exact absurd h.strayReconnects (by decide)
  · exact absurd h.strayReconnects (by decide)

end ClientCore

end Neemata.Client
