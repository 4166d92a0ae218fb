import Neemata.Client.Core
import Neemata.Lib.Entries

/-!
# The connection state agrees with the socket

In a run in which a socket is made only when the earlier ones have closed, and a loop that ends
finds no other loop's record (`Fits`), one socket at most is alive, and it is the current one
(`Agrees`); the loop that runs is the one on record (`OneLoop`).
-/

namespace Neemata.Client

/-- No event of a socket is to come. -/
def Connection.AllClosed (c : Connection) : Prop :=
  ∀ socket ∈ c.sockets, socket.readyState = .closed

instance (c : Connection) : Decidable c.AllClosed :=
  inferInstanceAs (Decidable (∀ socket ∈ c.sockets, _))

namespace ClientCore

/-- A socket is made only when the earlier ones have closed, and a loop that ends finds its own
record or none. -/
def Fits (s : ClientCore) : ClientEvent → Prop
  | .connect => s.connection.makesSocket = true → s.connection.AllClosed
  | .call =>
    s.shouldConnectOnCall = true → s.connection.makesSocket = true → s.connection.AllClosed
  | .loop i jitter =>
    match (s.reconnecting.loops[i]?).map (s.loopMove · jitter) with
    | some (.connect _) => s.connection.makesSocket = true → s.connection.AllClosed
    | some .finish =>
      s.reconnecting.reconnectPromise = none ∨ s.reconnecting.reconnectPromise = some i
    | _ => True
  | _ => True

instance (s : ClientCore) (e : ClientEvent) : Decidable (s.Fits e) := by
  unfold Fits
  split
  · infer_instance
  · infer_instance
  · split <;> infer_instance
  · infer_instance

/-- No continuation is due and no `close` event is to come. -/
def Quiescent (s : ClientCore) : Prop :=
  s.connection.due = false ∧ ∀ socket ∈ s.connection.sockets, socket.readyState ≠ .closing

end ClientCore

/-- The socket of an event. -/
def ClientEvent.socket? : ClientEvent → Option Nat
  | .open k | .message k | .error k | .closing k | .close k _ => some k
  | _ => none

/-- At most one loop runs; at rest the client is connected exactly if the current socket is open;
and an event of another socket changes nothing. -/
structure Coherent (s : ClientCore) : Prop where
  oneLoop : ∀ (i j : Nat) a b, s.reconnecting.loops[i]? = some a → a.running = true →
    s.reconnecting.loops[j]? = some b → b.running = true → i = j
  state : s.Quiescent → (s.connection.state = .connected ↔ ∃ k socket,
    s.connection.webSocket = some k ∧ s.connection.socket? k = some socket ∧
      socket.readyState = .open)
  stale : ∀ e k, e.socket? = some k → s.connection.webSocket ≠ some k →
    (s.step e).connection.state = s.connection.state ∧
      (s.step e).connection.messageContext = s.connection.messageContext ∧
      (s.step e).connection.webSocket = s.connection.webSocket ∧
      (s.step e).connection.delivered = s.connection.delivered

namespace Connection

variable {c t : Connection}

/-! ## Spec of the operations -/

theorem setPhase_of_some {phase : AttemptPhase} {a : Attempt} (h : c.connecting = some a) :
    (c.setPhase phase).connecting = some { a with phase } := by
  unfold setPhase
  rw [h]
  rfl

/-- What `#handleDisconnected` comes to, skipped or not. -/
structure Disconnected (c t : Connection) (effectiveReason : DisconnectReason)
    (ofAttempt : Bool) : Prop where
  state : t.state = .disconnected
  messageContext : t.messageContext = none
  lastDisconnectReason : t.lastDisconnectReason = effectiveReason
  flag : t.clientDisconnectAsReconnect = false
  disposed : t.disposed = c.disposed
  webSocket : t.webSocket = c.webSocket
  closingByClient : t.closingByClient = c.closingByClient
  sockets : t.sockets = c.sockets
  disconnects : t.disconnects = c.disconnects
  delivered : t.delivered = c.delivered
  attempt : (t.hooks = c.hooks ∧ t.connecting =
      if ofAttempt then (c.setPhase .finalizing).connecting else c.connecting) ∨
    (t.hooks = c.hooks ++ [Hooks.mk effectiveReason ofAttempt] ∧ t.connecting =
      if ofAttempt then (c.setPhase .handling).connecting else c.connecting)

theorem disconnected_handleDisconnected (c : Connection) (reason : DisconnectReason)
    (ofAttempt : Bool) : Disconnected c (c.handleDisconnected reason ofAttempt)
      (c.effectiveReason reason) ofAttempt := by
  unfold handleDisconnected
  dsimp only
  split
  · rename_i hskip
    simp only [shouldSkip, Bool.and_eq_true, decide_eq_true_eq] at hskip
    obtain ⟨⟨hstate, -⟩, hreason⟩ := hskip
    cases ofAttempt with
    | true | false =>
      exact ⟨hstate, rfl, hreason, rfl, rfl, rfl, rfl, rfl, rfl, rfl, .inl ⟨rfl, rfl⟩⟩
  · cases ofAttempt with
    | true | false => exact ⟨rfl, rfl, rfl, rfl, rfl, rfl, rfl, rfl, rfl, rfl, .inr ⟨rfl, rfl⟩⟩

/-- The sockets when the transport begins to close. -/
def closingSockets (c : Connection) : List Socket :=
  match c.webSocket with
  | none => c.sockets
  | some k => c.sockets.modify k .beginClose

theorem closeTransport_eq (c : Connection) : c.closeTransport =
    { c with
      closingByClient := c.webSocket.isSome || c.closingByClient
      sockets := c.closingSockets } := by
  unfold closeTransport closingSockets
  cases h : c.webSocket with
  | none =>
    cases c
    cases h
    rfl
  | some k => rfl

/-! ## One live socket -/

/-- The hooks of the attempt's `catch` are running. -/
def handling (c : Connection) : Bool :=
  match c.connecting with
  | some attempt => attempt.phase = .handling
  | none => false

theorem handling_of_some {a : Attempt} (h : c.connecting = some a) :
    c.handling = decide (a.phase = .handling) := by
  unfold handling
  rw [h]

/-- Hooks of a `catch` that return leave none behind. -/
theorem attempt_of_hooks {i : Nat} {hooks : Hooks}
    (hhandled : c.hooks.countP (·.ofAttempt) = if c.handling then 1 else 0)
    (h : c.hooks[i]? = some hooks) (hof : hooks.ofAttempt = true) :
    ∃ a, c.connecting = some a ∧ a.phase = .handling ∧
      (c.hooks.eraseIdx i).countP (·.ofAttempt) = 0 := by
  have hcount := countP_eraseIdx (fun hooks : Hooks => hooks.ofAttempt) h
  rw [if_pos hof, hhandled] at hcount
  obtain ha | ⟨a, ha⟩ := Option.eq_none_or_eq_some c.connecting
  · rw [handling, ha, if_neg nofun] at hcount
    omega
  · rw [handling_of_some ha] at hcount
    have hphase : a.phase = .handling := by
      by_contra hne
      rw [decide_eq_false hne, if_neg nofun] at hcount
      omega
    rw [hphase] at hcount
    exact ⟨a, ha, hphase, Nat.add_right_cancel hcount⟩

structure Agrees (c : Connection) : Prop where
  /-- A live socket is the last and the current one. -/
  live : ∀ k socket, c.socket? k = some socket → socket.readyState ≠ .closed →
    k + 1 = c.sockets.length ∧ c.webSocket = some k
  current : ∀ k, c.webSocket = some k →
    ∃ socket, c.socket? k = some socket ∧ socket.readyState ≠ .closed
  attempt : ∀ a, c.connecting = some a → a.socket + 1 = c.sockets.length
  unopened : ∀ a, c.connecting = some a → a.phase = .pending ∨ a.phase = .rejected →
    ∀ socket, c.socket? a.socket = some socket → socket.opened = false
  fresh : ∀ k socket, c.socket? k = some socket → socket.readyState = .connecting →
    c.connecting = some { socket := k }
  up : ∀ k socket, c.socket? k = some socket → socket.readyState = .open →
    socket.opened = true ∧ c.state = .connected
  connected : c.state = .connected → ∃ k socket, c.webSocket = some k ∧
    c.socket? k = some socket ∧ socket.opened = true ∧ socket.readyState ≠ .connecting
  handled : c.hooks.countP (·.ofAttempt) = if c.handling then 1 else 0

theorem agrees_new : ({} : Connection).Agrees where
  live _ _ h := by cases h
  current _ h := by cases h
  attempt _ h := by cases h
  unopened _ h := by cases h
  fresh _ _ h := by cases h
  up _ _ h := by cases h
  connected h := by cases h
  handled := rfl

namespace Agrees

theorem eq_of_live (H : c.Agrees) {j k : Nat} {a b : Socket} (ha : c.socket? j = some a)
    (hlive : a.readyState ≠ .closed) (hb : c.socket? k = some b) (hlive' : b.readyState ≠ .closed) :
    j = k := by
  have hj := (H.live j a ha hlive).2
  rw [(H.live k b hb hlive').2] at hj
  exact (Option.some.inj hj).symm

/-- Nothing is open while the client is not connected. -/
theorem not_open (H : c.Agrees) (h : c.state ≠ .connected) (k : Nat) (socket : Socket)
    (hsocket : c.socket? k = some socket) : socket.readyState ≠ .open :=
  fun hready => h (H.up k socket hsocket hready).2

/-- The sockets stay, and the state is kept or nothing is open. -/
theorem of_sockets (H : c.Agrees) (hsockets : t.sockets = c.sockets)
    (hwebSocket : t.webSocket = c.webSocket)
    (hattempt : ∀ a, t.connecting = some a → ∃ b, c.connecting = some b ∧ a.socket = b.socket ∧
      (a.phase = .pending ∨ a.phase = .rejected → b.phase = .pending ∨ b.phase = .rejected))
    (hfresh : t.connecting = c.connecting ∨
      ∀ k socket, c.socket? k = some socket → socket.readyState ≠ .connecting)
    (hhandled : t.hooks.countP (·.ofAttempt) = if t.handling then 1 else 0)
    (hstate : t.state = c.state ∨ (t.state ≠ .connected ∧
      ∀ k socket, c.socket? k = some socket → socket.readyState ≠ .open)) : t.Agrees := by
  have hsocket? : t.socket? = c.socket? := by
    funext k
    unfold socket?
    rw [hsockets]
  refine ⟨?_, ?_, ?_, ?_, ?_, ?_, ?_, hhandled⟩
  · rw [hsocket?, hwebSocket, hsockets]
    exact H.live
  · rw [hsocket?, hwebSocket]
    exact H.current
  · intro a ha
    obtain ⟨b, hb, heq, -⟩ := hattempt a ha
    rw [heq, hsockets]
    exact H.attempt b hb
  · intro a ha hphase
    obtain ⟨b, hb, heq, hphases⟩ := hattempt a ha
    rw [heq, hsocket?]
    exact H.unopened b hb (hphases hphase)
  · rw [hsocket?]
    intro k socket hsocket hready
    rcases hfresh with heq | hnone
    · rw [heq]
      exact H.fresh k socket hsocket hready
    · exact absurd hready (hnone k socket hsocket)
  · rw [hsocket?]
    intro k socket hsocket hready
    obtain ⟨hopened, hconnected⟩ := H.up k socket hsocket hready
    rcases hstate with hstate | ⟨-, hnone⟩
    · exact ⟨hopened, hstate.trans hconnected⟩
    · exact absurd hready (hnone k socket hsocket)
  · rw [hsocket?, hwebSocket]
    intro h
    rcases hstate with hstate | ⟨hne, -⟩
    · exact H.connected (hstate ▸ h)
    · exact absurd h hne

/-- The attempt stays also. -/
theorem congr (H : c.Agrees) (hsockets : t.sockets = c.sockets)
    (hwebSocket : t.webSocket = c.webSocket) (hconnecting : t.connecting = c.connecting)
    (hhooks : t.hooks.countP (·.ofAttempt) = c.hooks.countP (·.ofAttempt))
    (hstate : t.state = c.state ∨ (t.state ≠ .connected ∧
      ∀ k socket, c.socket? k = some socket → socket.readyState ≠ .open)) : t.Agrees := by
  refine H.of_sockets hsockets hwebSocket ?_ (.inl hconnecting) ?_ hstate
  · intro a ha
    exact ⟨a, hconnecting ▸ ha, rfl, id⟩
  · rw [hhooks, H.handled, handling, handling, hconnecting]

/-- The attempt comes to another phase while no socket connects. -/
theorem rephase (H : c.Agrees) {a : Attempt} {phase : AttemptPhase} (ha : c.connecting = some a)
    (hphase : phase = .pending ∨ phase = .rejected → a.phase = .pending ∨ a.phase = .rejected)
    (hnone : ∀ k socket, c.socket? k = some socket → socket.readyState ≠ .connecting)
    (hsockets : t.sockets = c.sockets) (hwebSocket : t.webSocket = c.webSocket)
    (hconnecting : t.connecting = some { a with phase })
    (hhooks : t.hooks.countP (·.ofAttempt) = if phase = .handling then 1 else 0)
    (hstate : t.state = c.state ∨ (t.state ≠ .connected ∧
      ∀ k socket, c.socket? k = some socket → socket.readyState ≠ .open)) : t.Agrees := by
  refine H.of_sockets hsockets hwebSocket ?_ (.inr hnone) ?_ hstate
  · intro b hb
    rw [hconnecting] at hb
    cases hb
    exact ⟨a, ha, rfl, hphase⟩
  · rw [hhooks, handling, hconnecting]
    simp only [decide_eq_true_eq]

/-- Every socket has closed. -/
theorem of_closed (hclosed : t.AllClosed) (hwebSocket : t.webSocket = none)
    (hattempt : ∀ a, t.connecting = some a → a.socket + 1 = t.sockets.length)
    (hunopened : ∀ a, t.connecting = some a → a.phase = .pending ∨ a.phase = .rejected →
      ∀ socket, t.socket? a.socket = some socket → socket.opened = false)
    (hstate : t.state ≠ .connected)
    (hhandled : t.hooks.countP (·.ofAttempt) = if t.handling then 1 else 0) : t.Agrees := by
  have hdead : ∀ k socket, t.socket? k = some socket → socket.readyState = .closed :=
    fun k socket hsocket => hclosed socket (List.mem_of_getElem? hsocket)
  refine ⟨?_, ?_, hattempt, hunopened, ?_, ?_, fun h => absurd h hstate, hhandled⟩
  · intro k socket hsocket hlive
    exact absurd (hdead k socket hsocket) hlive
  · intro k h
    rw [hwebSocket] at h
    cases h
  · intro k socket hsocket hready
    rw [hdead k socket hsocket] at hready
    cases hready
  · intro k socket hsocket hready
    rw [hdead k socket hsocket] at hready
    cases hready

/-! ### Closing -/

theorem beginClose (H : c.Agrees) (k : Nat) : (c.modifySocket k .beginClose).Agrees := by
  have hold : ∀ j socket, (c.modifySocket k .beginClose).socket? j = some socket →
      ∃ old, c.socket? j = some old ∧ socket.opened = old.opened ∧
        (socket.readyState = .closed ↔ old.readyState = .closed) ∧
        (socket = old ∨ socket.readyState = .closing ∧ old.readyState ≠ .closed) := by
    intro j socket hsocket
    obtain ⟨old, rfl, hget, rfl⟩ | ⟨-, hget⟩ := getElem?_modify_cases hsocket
    · refine ⟨old, hget, ?_⟩
      unfold Socket.beginClose
      split
      · exact ⟨rfl, Iff.rfl, .inl rfl⟩
      · next hlive => exact ⟨rfl, ⟨nofun, fun h => absurd h hlive⟩, .inr ⟨rfl, hlive⟩⟩
    · exact ⟨socket, hget, rfl, Iff.rfl, .inl rfl⟩
  have hnew : ∀ j old, c.socket? j = some old →
      ∃ socket, (c.modifySocket k .beginClose).socket? j = some socket ∧
        socket.opened = old.opened ∧ (socket.readyState = .closed ↔ old.readyState = .closed) ∧
        (socket = old ∨ socket.readyState = .closing) := by
    intro j old hget
    by_cases heq : j = k
    · subst heq
      refine ⟨old.beginClose, getElem?_modify_self hget, ?_⟩
      unfold Socket.beginClose
      split
      · exact ⟨rfl, Iff.rfl, .inl rfl⟩
      · next hlive => exact ⟨rfl, ⟨nofun, fun h => absurd h hlive⟩, .inr rfl⟩
    · exact ⟨old, (getElem?_modify_of_ne heq).trans hget, rfl, Iff.rfl, .inl rfl⟩
  have hlength : (c.modifySocket k .beginClose).sockets.length = c.sockets.length :=
    List.length_modify ..
  refine ⟨?_, ?_, ?_, ?_, ?_, ?_, ?_, H.handled⟩
  · intro j socket hsocket hlive
    obtain ⟨old, hget, -, hclosed, -⟩ := hold j socket hsocket
    rw [hlength]
    exact H.live j old hget (mt hclosed.mpr hlive)
  · intro j hj
    obtain ⟨old, hget, hlive⟩ := H.current j hj
    obtain ⟨socket, hsocket, -, hclosed, -⟩ := hnew j old hget
    exact ⟨socket, hsocket, mt hclosed.mp hlive⟩
  · intro a ha
    rw [hlength]
    exact H.attempt a ha
  · intro a ha hphase socket hsocket
    obtain ⟨old, hget, hopened, -⟩ := hold _ socket hsocket
    rw [hopened]
    exact H.unopened a ha hphase old hget
  · intro j socket hsocket hready
    obtain ⟨old, hget, -, -, rfl | ⟨hclosing, -⟩⟩ := hold j socket hsocket
    · exact H.fresh j socket hget hready
    · rw [hclosing] at hready
      cases hready
  · intro j socket hsocket hready
    obtain ⟨old, hget, -, -, rfl | ⟨hclosing, -⟩⟩ := hold j socket hsocket
    · exact H.up j socket hget hready
    · rw [hclosing] at hready
      cases hready
  · intro h
    obtain ⟨j, old, hj, hget, hopened, hready⟩ := H.connected h
    obtain ⟨socket, hsocket, hsame, -, rfl | hclosing⟩ := hnew j old hget
    · exact ⟨j, socket, hj, hsocket, hopened, hready⟩
    · exact ⟨j, socket, hj, hsocket, hsame.trans hopened, by rw [hclosing]; nofun⟩

/-- What the closing of the transport leaves: the current socket does not stay open. -/
theorem closeTransport (H : c.Agrees) : c.closeTransport.Agrees ∧
    ∀ k socket, c.closeTransport.socket? k = some socket →
      socket.readyState = .closing ∨ socket.readyState = .closed := by
  unfold Connection.closeTransport
  split
  · next hnone =>
    refine ⟨H, fun k socket hsocket => .inr ?_⟩
    by_contra hlive
    have hcurrent := (H.live k socket hsocket hlive).2
    rw [hnone] at hcurrent
    cases hcurrent
  · next j hj =>
    have hmarked : Agrees { c with closingByClient := true } :=
      H.congr rfl rfl rfl rfl (.inl rfl)
    refine ⟨hmarked.beginClose j, fun k socket hsocket => ?_⟩
    obtain ⟨old, -, -, rfl⟩ | ⟨hne, hget⟩ := getElem?_modify_cases hsocket
    · unfold Socket.beginClose
      split
      · next hclosed => exact .inr hclosed
      · exact .inl rfl
    · refine .inr ?_
      by_contra hlive
      have hcurrent := (H.live k socket hget hlive).2
      rw [hj] at hcurrent
      exact hne (Option.some.inj hcurrent).symm

theorem disconnect (H : c.Agrees) (reason : DisconnectReason) : (c.disconnect reason).Agrees := by
  unfold Connection.disconnect
  split
  · next hstate =>
    refine H.congr rfl rfl rfl rfl (.inr ⟨nofun, H.not_open ?_⟩)
    rcases hstate with h | h <;> rw [h] <;> nofun
  · obtain ⟨hclosing, hnone⟩ := H.closeTransport
    rw [closeTransport_eq] at hclosing hnone ⊢
    refine hclosing.congr rfl rfl rfl rfl (.inr ⟨nofun, fun k socket hsocket => ?_⟩)
    rcases hnone k socket hsocket with h | h <;> rw [h] <;> nofun

theorem dispose (H : c.Agrees) : c.dispose.Agrees := by
  have hmarked : Agrees { c with disposed := true, messageContext := none } :=
    H.congr rfl rfl rfl rfl (.inl rfl)
  unfold Connection.dispose
  dsimp only
  split
  · exact hmarked.closeTransport.1
  · exact hmarked

/-! ### The events of a socket -/

theorem error (H : c.Agrees) {k : Nat} {socket : Socket} (hsocket : c.socket? k = some socket)
    (hlive : socket.readyState ≠ .closed) : (c.onError k).Agrees := by
  have hbegin := H.beginClose k
  unfold onError settle
  split
  · next ha =>
    refine hbegin.rephase ha (fun _ => .inl rfl) ?_ rfl rfl (setPhase_of_some ha) ?_ (.inl rfl)
    · intro j other hother
      obtain ⟨old, -, -, rfl⟩ | ⟨hne, hget⟩ := getElem?_modify_cases hother
      · unfold Socket.beginClose
        split
        · next hclosed => rw [hclosed]; nofun
        · nofun
      · intro hready
        refine hne (H.eq_of_live hget ?_ hsocket hlive)
        rw [hready]
        nofun
    · refine hbegin.handled.trans ?_
      rw [handling, ha]
      rfl
  · exact hbegin

/-- When the live socket closes, every socket has closed. -/
theorem allClosed_close (H : c.Agrees) {k : Nat} {socket : Socket}
    (hsocket : c.socket? k = some socket) (hlive : socket.readyState ≠ .closed) :
    ∀ other ∈ c.sockets.modify k .close, other.readyState = .closed := by
  intro other hother
  obtain ⟨j, hj⟩ := List.mem_iff_getElem?.mp hother
  obtain ⟨old, -, -, rfl⟩ | ⟨hne, hget⟩ := getElem?_modify_cases hj
  · rfl
  · by_contra hopen
    exact hne (H.eq_of_live hget hopen hsocket hlive)

theorem close (H : c.Agrees) {k : Nat} {socket : Socket} (hsocket : c.socket? k = some socket)
    (hlive : socket.readyState ≠ .closed) (client : Bool) :
    (c.onClose k socket.opened client).Agrees := by
  have hclosed := H.allClosed_close hsocket hlive
  have hlength : (c.sockets.modify k .close).length = c.sockets.length := List.length_modify ..
  have hunopened : ∀ a, c.connecting = some a → a.phase = .pending ∨ a.phase = .rejected →
      ∀ other, (c.sockets.modify k .close)[a.socket]? = some other → other.opened = false := by
    intro a ha hphase other hother
    obtain ⟨old, rfl, hget, rfl⟩ | ⟨-, hget⟩ := getElem?_modify_cases hother
    · exact H.unopened a ha hphase old hget
    · exact H.unopened a ha hphase other hget
  unfold onClose
  dsimp only
  split
  · set t : Connection := { c with
      sockets := c.sockets.modify k .close
      webSocket := none
      disconnects := c.disconnects.map (.closed k) } with ht
    have h := disconnected_handleDisconnected t
      (if t.closingByClient || client then .client else .server) false
    have hconnecting : (t.handleDisconnected
        (if t.closingByClient || client then .client else .server) false).connecting =
        c.connecting := by
      rcases h.attempt with ⟨-, hconnecting⟩ | ⟨-, hconnecting⟩
      · exact hconnecting
      · exact hconnecting
    refine of_closed ?_ (h.webSocket.trans rfl) ?_ ?_ ?_ ?_
    · unfold AllClosed
      rw [h.sockets]
      exact hclosed
    · rw [hconnecting, h.sockets]
      intro a ha
      exact (H.attempt a ha).trans hlength.symm
    · unfold socket?
      rw [hconnecting, h.sockets]
      exact hunopened
    · rw [h.state]
      nofun
    · rw [handling, hconnecting]
      rcases h.attempt with ⟨hhooks, -⟩ | ⟨hhooks, -⟩
      · rw [hhooks]
        exact H.handled
      · rw [hhooks, List.countP_append]
        exact H.handled
  · next hopened =>
    have hstate : c.state ≠ .connected := by
      intro h
      obtain ⟨j, other, hj, hother, hopen, -⟩ := H.connected h
      rw [(H.live k socket hsocket hlive).2] at hj
      cases hj
      rw [hsocket] at hother
      cases hother
      exact hopened hopen
    unfold settle
    split
    · next ha =>
      refine of_closed hclosed rfl ?_ ?_ hstate ?_
      · rw [setPhase_of_some ha]
        intro a h
        cases h
        exact (H.attempt _ ha).trans hlength.symm
      · rw [setPhase_of_some ha]
        intro a h _ other hother
        cases h
        exact hunopened _ ha (.inl rfl) other hother
      · rw [handling, setPhase_of_some ha]
        refine H.handled.trans ?_
        rw [handling, show c.connecting = _ from ha]
        rfl
    · refine of_closed hclosed rfl ?_ hunopened hstate H.handled
      intro a ha
      exact (H.attempt a ha).trans hlength.symm

theorem opens (H : c.Agrees) {k : Nat} {socket : Socket} (hsocket : c.socket? k = some socket)
    (hready : socket.readyState = .connecting) :
    (((c.modifySocket k fun _ => { readyState := .open, opened := true }).setPhase
      .finalizing).handleConnected).Agrees := by
  have hlive : socket.readyState ≠ .closed := by
    rw [hready]
    nofun
  have ha := H.fresh k socket hsocket hready
  have hphase : ((c.modifySocket k fun _ => { readyState := .open, opened := true }).setPhase
      .finalizing).handleConnected.connecting = some { socket := k, phase := .finalizing } :=
    setPhase_of_some ha
  have hlength : (c.sockets.modify k fun _ => { readyState := .open, opened := true }).length =
      c.sockets.length := List.length_modify ..
  have hself := getElem?_modify_self (f := fun _ => { readyState := .open, opened := true }) hsocket
  refine ⟨?_, ?_, ?_, ?_, ?_, ?_, ?_, ?_⟩
  · intro j other hother hopen
    obtain ⟨old, rfl, -, rfl⟩ | ⟨-, hget⟩ := getElem?_modify_cases hother
    · exact ⟨(H.live j socket hsocket hlive).1.trans hlength.symm, (H.live j socket hsocket hlive).2⟩
    · exact ⟨(H.live j other hget hopen).1.trans hlength.symm, (H.live j other hget hopen).2⟩
  · intro j hj
    have hk := (H.live k socket hsocket hlive).2
    rw [show c.webSocket = some j from hj] at hk
    cases hk
    exact ⟨_, hself, nofun⟩
  · intro a h
    cases hphase.symm.trans h
    exact (H.attempt _ ha).trans hlength.symm
  · intro a h hwaits
    cases hphase.symm.trans h
    rcases hwaits with h | h <;> cases h
  · intro j other hother hconnecting
    obtain ⟨old, -, -, rfl⟩ | ⟨hne, hget⟩ := getElem?_modify_cases hother
    · cases hconnecting
    · refine absurd (H.eq_of_live hget ?_ hsocket hlive) hne
      rw [hconnecting]
      nofun
  · intro j other hother hopen
    obtain ⟨old, -, -, rfl⟩ | ⟨hne, hget⟩ := getElem?_modify_cases hother
    · exact ⟨rfl, rfl⟩
    · refine absurd (H.eq_of_live hget ?_ hsocket hlive) hne
      rw [hopen]
      nofun
  · intro _
    exact ⟨k, _, (H.live k socket hsocket hlive).2, hself, rfl, nofun⟩
  · refine H.handled.trans ?_
    rw [handling_of_some ha, handling_of_some hphase]
    rfl

/-! ### The calls and the continuations -/

theorem connects (H : c.Agrees) (hclosed : c.makesSocket = true → c.AllClosed) :
    c.connect.Agrees := by
  unfold Connection.connect
  split
  · next hmakes =>
    have hold : ∀ k socket, (c.sockets ++ [({} : Socket)])[k]? = some socket →
        socket.readyState = .closed ∨ k = c.sockets.length ∧ socket = {} := by
      intro k socket hsocket
      rcases getElem?_concat_iff.mp hsocket with h | h
      · exact .inl (hclosed hmakes socket (List.mem_of_getElem? h))
      · exact .inr h
    have hnew : (c.sockets ++ [({} : Socket)])[c.sockets.length]? = some {} :=
      getElem?_concat_iff.mpr (.inr ⟨rfl, rfl⟩)
    have hlength : (c.sockets ++ [({} : Socket)]).length = c.sockets.length + 1 :=
      List.length_append
    simp only [makesSocket, Bool.and_eq_true, Option.isNone_iff_eq_none] at hmakes
    refine ⟨?_, ?_, ?_, ?_, ?_, ?_, nofun, ?_⟩
    · intro k socket hsocket hlive
      rcases hold k socket hsocket with hdead | ⟨rfl, -⟩
      · exact absurd hdead hlive
      · exact ⟨hlength.symm, rfl⟩
    · intro k h
      cases h
      exact ⟨{}, hnew, nofun⟩
    · intro a h
      cases h
      exact hlength.symm
    · intro a h _ socket hsocket
      cases h
      cases hnew.symm.trans hsocket
      rfl
    · intro k socket hsocket hready
      rcases hold k socket hsocket with hdead | ⟨rfl, -⟩
      · rw [hdead] at hready
        cases hready
      · rfl
    · intro k socket hsocket hready
      rcases hold k socket hsocket with hdead | ⟨-, rfl⟩
      · rw [hdead] at hready
        cases hready
      · cases hready
    · refine H.handled.trans ?_
      rw [handling, handling, hmakes.2]
      rfl
  · exact H

/-- While the attempt is past its promise no socket connects. -/
theorem not_connecting (H : c.Agrees) {a : Attempt} (ha : c.connecting = some a)
    (hphase : a.phase ≠ .pending) (k : Nat) (socket : Socket) (hsocket : c.socket? k = some socket) :
    socket.readyState ≠ .connecting := by
  intro hready
  cases ha.symm.trans (H.fresh k socket hsocket hready)
  exact hphase rfl

/-- The attempt whose promise rejected has no open socket. -/
theorem not_open_of_rejected (H : c.Agrees) {a : Attempt} (ha : c.connecting = some a)
    (hphase : a.phase = .rejected) (k : Nat) (socket : Socket)
    (hsocket : c.socket? k = some socket) : socket.readyState ≠ .open := by
  intro hready
  have hlast := (H.live k socket hsocket (by rw [hready]; nofun)).1
  have hattempt := H.attempt a ha
  have hk : a.socket = k := by omega
  have hunopened := H.unopened a ha (.inr hphase) socket (hk ▸ hsocket)
  rw [(H.up k socket hsocket hready).1] at hunopened
  cases hunopened

theorem resumeAttempt (H : c.Agrees) : c.resumeAttempt.Agrees := by
  unfold Connection.resumeAttempt
  split
  · next k ha =>
    set t : Connection := { c with messageContext := none } with ht
    have h := disconnected_handleDisconnected t .connectError true
    have hnone := H.not_connecting ha nofun
    have hstate : (t.handleDisconnected .connectError true).state ≠ .connected ∧
        ∀ k socket, c.socket? k = some socket → socket.readyState ≠ .open := by
      refine ⟨?_, H.not_open_of_rejected ha rfl⟩
      rw [h.state]
      nofun
    have hcount : c.hooks.countP (·.ofAttempt) = 0 := by
      rw [H.handled, handling, ha]
      rfl
    rcases h.attempt with ⟨hhooks, hconnecting⟩ | ⟨hhooks, hconnecting⟩
    · refine H.rephase ha (fun _ => .inr rfl) hnone h.sockets h.webSocket
        (hconnecting.trans (setPhase_of_some (c := t) ha)) ?_ (.inr hstate)
      rw [hhooks]
      exact hcount
    · refine H.rephase ha (fun _ => .inr rfl) hnone h.sockets h.webSocket
        (hconnecting.trans (setPhase_of_some (c := t) ha)) ?_ (.inr hstate)
      rw [hhooks, List.countP_append, show t.hooks.countP (·.ofAttempt) = 0 from hcount]
      rfl
  · next k ha =>
    refine H.of_sockets rfl rfl nofun (.inr (H.not_connecting ha nofun)) ?_ (.inl rfl)
    refine H.handled.trans ?_
    rw [handling, ha]
    rfl
  · exact H

theorem resumeDisconnect (H : c.Agrees) (i : Nat) : (c.resumeDisconnect i).Agrees := by
  unfold Connection.resumeDisconnect
  split
  · next reason _ =>
    have herased : Agrees { c with disconnects := c.disconnects.eraseIdx i } :=
      H.congr rfl rfl rfl rfl (.inl rfl)
    dsimp only
    split
    · next hstate =>
      set t : Connection := { c with disconnects := c.disconnects.eraseIdx i } with ht
      have h := disconnected_handleDisconnected t reason false
      have hnone : ∀ k socket, t.socket? k = some socket → socket.readyState ≠ .open := by
        refine herased.not_open ?_
        rw [hstate]
        nofun
      have hne : (t.handleDisconnected reason false).state ≠ .connected := by
        rw [h.state]
        nofun
      rcases h.attempt with ⟨hhooks, hconnecting⟩ | ⟨hhooks, hconnecting⟩
      · exact herased.congr h.sockets h.webSocket hconnecting (by rw [hhooks]) (.inr ⟨hne, hnone⟩)
      · refine herased.congr h.sockets h.webSocket hconnecting ?_ (.inr ⟨hne, hnone⟩)
        rw [hhooks, List.countP_append]
        rfl
    · exact herased
  · exact H

/-- The hooks of a disconnect have returned. -/
theorem hooks (H : c.Agrees) {i : Nat} {hooks : Hooks} (h : c.hooks[i]? = some hooks) :
    (if hooks.ofAttempt then { c with hooks := c.hooks.eraseIdx i }.setPhase .finalizing
      else { c with hooks := c.hooks.eraseIdx i }).Agrees := by
  split
  · next hof =>
    obtain ⟨a, ha, hphase, hcount⟩ := attempt_of_hooks H.handled h hof
    have hnone := H.not_connecting ha (by rw [hphase]; nofun)
    have hset : ({ c with hooks := c.hooks.eraseIdx i }.setPhase .finalizing).connecting =
        some { a with phase := .finalizing } := setPhase_of_some ha
    refine H.rephase ha (fun h => ?_) hnone rfl rfl hset hcount (.inl rfl)
    rcases h with h | h <;> cases h
  · next hof =>
    have hcount := countP_eraseIdx (fun hooks : Hooks => hooks.ofAttempt) h
    rw [if_neg hof] at hcount
    exact H.congr rfl rfl rfl hcount (.inl rfl)

end Agrees

end Connection

/-! ## One loop -/

/-- A loop that runs is the one on record. -/
def Reconnecting.OneLoop (r : Reconnecting) : Prop :=
  ∀ i loop, r.loops[i]? = some loop → loop.running = true →
    r.reconnectPromise = some i ∧ r.reconnectController = some i

namespace Reconnecting.OneLoop

variable {r : Reconnecting}

theorem cancel (H : r.OneLoop) (i : Nat) (loop : ReconnectLoop)
    (h : r.cancelReconnectLoop.loops[i]? = some loop) : loop.running = false := by
  by_contra hrunning
  rw [Bool.not_eq_false] at hrunning
  unfold cancelReconnectLoop at h
  cases hcontroller : r.reconnectController with
  | none =>
    rw [hcontroller] at h
    have hrecord := (H i loop h hrunning).2
    rw [hcontroller] at hrecord
    cases hrecord
  | some j =>
    rw [hcontroller] at h
    obtain ⟨old, -, -, rfl⟩ | ⟨hne, hget⟩ := getElem?_modify_cases h
    · cases hrunning
    · have hrecord := (H i loop hget hrunning).2
      rw [hcontroller] at hrecord
      exact hne (Option.some.inj hrecord).symm

theorem cancelReconnectLoop (H : r.OneLoop) : r.cancelReconnectLoop.OneLoop := by
  intro i loop h hrunning
  rw [H.cancel i loop h] at hrunning
  cases hrunning

theorem ensureReconnectLoop (H : r.OneLoop) : r.ensureReconnectLoop.OneLoop := by
  unfold Reconnecting.ensureReconnectLoop
  split
  · exact H
  · next hnone =>
    rw [Bool.or_eq_true, not_or, Bool.not_eq_true, Option.isSome_eq_false_iff,
      Option.isNone_iff_eq_none] at hnone
    intro i loop h hrunning
    rcases getElem?_concat_iff.mp h with hold | ⟨rfl, -⟩
    · have hrecord := (H i loop hold hrunning).1
      rw [hnone.1] at hrecord
      cases hrecord
    · exact ⟨rfl, rfl⟩

/-- A phase that does not restart the loop. -/
theorem setLoop (H : r.OneLoop) {i : Nat} {loop : ReconnectLoop} (h : r.loops[i]? = some loop)
    {phase : LoopPhase} (hrunning : { loop with phase }.running = true → loop.running = true) :
    (r.setLoop i phase).OneLoop := by
  intro j other hother hruns
  obtain ⟨old, rfl, hget, rfl⟩ | ⟨-, hget⟩ := getElem?_modify_cases hother
  · cases h.symm.trans hget
    exact H j loop h (hrunning hruns)
  · exact H j other hget hruns

theorem finish (H : r.OneLoop) {i : Nat}
    (hfits : r.reconnectPromise = none ∨ r.reconnectPromise = some i) : (r.finish i).OneLoop := by
  intro j other hother hruns
  obtain ⟨old, -, -, rfl⟩ | ⟨hne, hget⟩ := getElem?_modify_cases hother
  · simp [ReconnectLoop.running] at hruns
  · have hrecord := (H j other hget hruns).1
    rcases hfits with h | h
    · rw [h] at hrecord
      cases hrecord
    · rw [h] at hrecord
      exact absurd (Option.some.inj hrecord).symm hne

/-- Only the loops and their record count. -/
theorem congr (H : r.OneLoop) {t : Reconnecting} (hloops : t.loops = r.loops)
    (hpromise : t.reconnectPromise = r.reconnectPromise)
    (hcontroller : t.reconnectController = r.reconnectController) : t.OneLoop := by
  intro i loop h hrunning
  rw [hpromise, hcontroller]
  exact H i loop (hloops ▸ h) hrunning

end Reconnecting.OneLoop

/-! ## Every state reached -/

namespace ClientCore

variable {s : ClientCore}

theorem socket_of_fires {k : Nat} {p : ReadyState → Bool} (h : s.fires k p = true) :
    ∃ socket, s.connection.socket? k = some socket ∧ p socket.readyState = true := by
  unfold fires at h
  split at h
  · next socket hsocket =>
    rw [Bool.and_eq_true] at h
    exact ⟨socket, hsocket, h.2⟩
  · rw [Bool.and_false] at h
    cases h

theorem phase_of_move {loop : ReconnectLoop} {jitter : Nat} {m : LoopMove}
    (h : s.loopMove loop jitter = m) (hwait : m ≠ .wait) (hfinish : m ≠ .finish) :
    loop.phase ≠ .finishing ∧ loop.phase ≠ .finished := by
  unfold loopMove at h
  refine ⟨fun hphase => ?_, fun hphase => ?_⟩
  · rw [hphase] at h
    exact hfinish h.symm
  · rw [hphase] at h
    exact hwait h.symm

/-- A loop that has not come to its end runs if it is not aborted. -/
theorem running_of_phase {loop : ReconnectLoop} {phase : LoopPhase}
    (h : loop.phase ≠ .finishing ∧ loop.phase ≠ .finished)
    (hrunning : { loop with phase }.running = true) : loop.running = true := by
  simp only [ReconnectLoop.running, Bool.and_eq_true] at hrunning ⊢
  exact ⟨⟨hrunning.1.1, decide_eq_true h.1⟩, decide_eq_true h.2⟩

theorem step_agrees (H : s.connection.Agrees) (e : ClientEvent) (hfits : s.Fits e) :
    (s.step e).connection.Agrees := by
  cases e with
  | connect => exact H.connects hfits
  | call =>
    simp only [step]
    split
    · next hcall => exact H.connects (hfits hcall)
    · exact H
  | disconnect reason => exact H.disconnect reason
  | requestReconnect reason =>
    refine Connection.Agrees.disconnect ?_ .client
    exact H.congr rfl rfl rfl rfl (.inl rfl)
  | triggerReconnect =>
    simp only [step, triggerReconnect]
    split
    · exact H
    · split <;> exact H
  | configureReconnect config =>
    simp only [step, configureReconnect]
    split
    · exact H
    · split <;> exact H
  | setReconnectPauseReason reason active => exact H
  | dispose =>
    simp only [step, dispose]
    split
    · exact H
    · exact H.dispose
  | «open» k =>
    simp only [step]
    split
    · next hfires =>
      obtain ⟨socket, hsocket, hready⟩ := socket_of_fires hfires
      rw [decide_eq_true_eq] at hready
      rw [onOpen, if_pos (H.fresh k socket hsocket hready)]
      exact H.opens hsocket hready
    · exact H
  | message k =>
    simp only [step]
    split
    · simp only [Connection.onMessage]
      split
      · exact H.congr rfl rfl rfl rfl (.inl rfl)
      · exact H
    · exact H
  | error k =>
    simp only [step]
    split
    · next hfires =>
      obtain ⟨socket, hsocket, hlive⟩ := socket_of_fires hfires
      exact H.error hsocket (of_decide_eq_true hlive)
    · exact H
  | closing k =>
    simp only [step]
    split
    · exact H.beginClose k
    · exact H
  | close k client =>
    simp only [step]
    split
    · next hfires =>
      obtain ⟨socket, hsocket, hlive⟩ := socket_of_fires hfires
      rw [hsocket, Option.any_some]
      exact H.close hsocket (of_decide_eq_true hlive) client
    · exact H
  | resumeAttempt => exact H.resumeAttempt
  | resumeDisconnect i => exact H.resumeDisconnect i
  | hooks i =>
    simp only [step, onHooks]
    split
    · exact H
    · next hooks hget => exact H.hooks hget
  | loop i jitter =>
    simp only [step]
    split
    · next loop hget =>
      simp only [Fits, hget, Option.map_some] at hfits
      cases hmove : s.loopMove loop jitter with
      | connect reconnectImmediate =>
        rw [hmove] at hfits
        exact H.connects hfits
      | resume previousTimeout =>
        simp only [move, afterReconnect]
        split
        · split <;> exact H
        · exact H
      | wait => exact H
      | pause => exact H
      | sleep => exact H
      | leave => exact H
      | finish => exact H
    · exact H

theorem step_oneLoop (H : s.reconnecting.OneLoop) (e : ClientEvent) (hfits : s.Fits e) :
    (s.step e).reconnecting.OneLoop := by
  cases e with
  | disconnect reason => exact H.cancelReconnectLoop
  | requestReconnect reason => exact H.cancelReconnectLoop
  | triggerReconnect =>
    simp only [step, triggerReconnect]
    split
    · exact H
    · have hset : Reconnecting.OneLoop { s.reconnecting with reconnectImmediate := true } :=
        H.congr rfl rfl rfl
      split
      · exact hset.ensureReconnectLoop
      · exact hset
  | configureReconnect config =>
    simp only [step, configureReconnect]
    split
    · exact Reconnecting.OneLoop.cancelReconnectLoop (H.congr rfl rfl rfl)
    · split
      · exact Reconnecting.OneLoop.ensureReconnectLoop (H.congr rfl rfl rfl)
      · exact H.congr rfl rfl rfl
  | setReconnectPauseReason reason active => exact H.congr rfl rfl rfl
  | dispose =>
    simp only [step, dispose]
    split
    · exact H
    · exact H.cancelReconnectLoop
  | «open» k =>
    simp only [step]
    split
    · rw [onOpen]
      split
      · exact H.congr rfl rfl rfl
      · exact H
    · exact H
  | hooks i =>
    simp only [step, onHooks]
    split
    · exact H
    · dsimp only
      split
      · exact H.ensureReconnectLoop
      · exact H
  | loop i jitter =>
    simp only [step]
    split
    · next loop hget =>
      simp only [Fits, hget, Option.map_some] at hfits
      cases hmove : s.loopMove loop jitter with
      | wait => exact H
      | pause | leave => exact H.setLoop hget (running_of_phase (phase_of_move hmove nofun nofun))
      | sleep | connect =>
        refine Reconnecting.OneLoop.setLoop (H.congr rfl rfl rfl) hget ?_
        exact running_of_phase (phase_of_move hmove nofun nofun)
      | resume previousTimeout =>
        have hset : (s.reconnecting.setLoop i .heading).OneLoop :=
          H.setLoop hget (running_of_phase (phase_of_move hmove nofun nofun))
        simp only [move, afterReconnect]
        split
        · split
          · exact hset.congr rfl rfl rfl
          · exact hset
        · exact hset
      | finish =>
        rw [hmove] at hfits
        exact H.finish hfits
    · exact H
  | connect => exact H
  | call | message | error | closing | close =>
    simp only [step]
    split <;> exact H
  | resumeAttempt => exact H
  | resumeDisconnect i => exact H

theorem coherent_of_agrees (H : s.connection.Agrees) (L : s.reconnecting.OneLoop) :
    Coherent s where
  oneLoop i j a b ha hruns hb hruns' := by
    have hi := (L i a ha hruns).1
    rw [(L j b hb hruns').1] at hi
    exact (Option.some.inj hi).symm
  state hquiescent := by
    refine ⟨fun h => ?_, ?_⟩
    · obtain ⟨k, socket, hk, hsocket, -, hconnecting⟩ := H.connected h
      refine ⟨k, socket, hk, hsocket, ?_⟩
      obtain ⟨other, hother, hlive⟩ := H.current k hk
      cases hsocket.symm.trans hother
      have hclosing := hquiescent.2 socket (List.mem_of_getElem? hsocket)
      cases hready : socket.readyState with
      | connecting => exact absurd hready hconnecting
      | «open» => rfl
      | closing => exact absurd hready hclosing
      | closed => exact absurd hready hlive
    · rintro ⟨k, socket, -, hsocket, hready⟩
      exact (H.up k socket hsocket hready).2
  stale e k he hne := by
    have hnot : ∀ p : ReadyState → Bool, p .closed = false → s.fires k p = false := by
      intro p hp
      by_contra hfires
      obtain ⟨socket, hsocket, hready⟩ := socket_of_fires (Bool.not_eq_false _ ▸ hfires)
      refine hne (H.live k socket hsocket ?_).2
      intro hclosed
      rw [hclosed, hp] at hready
      cases hready
    have hstep : s.step e = s := by
      cases e with
      | «open» j | message j | error j | closing j | close j client =>
        cases he
        simp only [step]
        rw [hnot _ rfl]
        rfl
      | _ => cases he
    rw [hstep]
    exact ⟨rfl, rfl, rfl, rfl⟩

/-- A socket is made while an older one has its `close` event to come, and a loop that ends clears
the record of a newer one, so that a third starts: in the runs without them the connection agrees
with the socket in every state. -/
theorem coherent_of_fits (autoConnect : Bool) (l : List ClientEvent)
    (h : Trace.Admits step Fits { autoConnect } l) :
    Coherent (Trace.run step { autoConnect } l) := by
  have hinv := Trace.run_inv_of_admits step
    (I := fun s => s.connection.Agrees ∧ s.reconnecting.OneLoop)
    (fun s e hfits H => ⟨step_agrees H.1 e hfits, step_oneLoop H.2 e hfits⟩) h
    ⟨Connection.agrees_new, fun i loop hget => by cases hget⟩
  exact coherent_of_agrees hinv.1 hinv.2

/-- The reconnect loop takes the place of a connection that the server closed. -/
theorem coherent_reconnected :
    Coherent (Trace.run step {} [.configureReconnect (some ⟨none, none⟩), .connect, .open 0,
      .resumeAttempt, .close 0 false, .hooks 0, .loop 0 7, .loop 0 7, .open 1]) :=
  coherent_of_fits false _ (by decide)

/-- An attempt fails, and the next one is under way when the socket of the first closes. -/
theorem connected_without_socket :
    ¬ Coherent (Trace.run step {} [.connect, .error 0, .resumeAttempt, .hooks 0, .resumeAttempt,
      .connect, .close 0 false, .open 1, .resumeAttempt]) := by
  intro h
  obtain ⟨k, -, hk, -⟩ := (h.state ⟨by decide, by decide⟩).mp (by decide)
  have hnone : (Trace.run step {} [.connect, .error 0, .resumeAttempt, .hooks 0, .resumeAttempt,
      .connect, .close 0 false, .open 1, .resumeAttempt]).connection.webSocket = none := by decide
  rw [hnone] at hk
  cases hk

end ClientCore

end Neemata.Client
