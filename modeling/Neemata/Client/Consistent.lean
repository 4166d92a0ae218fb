import Neemata.Client.Sockets

/-!
# The connection at rest

What holds of the connection in every run, whatever the sockets do (`Consistent`): an attempt that
is under way has a live socket, the state is `connected` only while an established socket is left,
and a `disconnect` that waits has something to wait for. At rest nothing is left to close.
-/

namespace Neemata.Client

/-- The socket has opened, and its `close` event is still to come. -/
def Socket.established (socket : Socket) : Bool := socket.opened && socket.readyState ≠ .closed

namespace Connection

variable (c : Connection)

/-- There is nothing for `disconnect` to close. -/
def resting : Bool := c.state = .idle || c.state = .disconnected

/-- An established socket is left. -/
def holds : Bool := c.sockets.any Socket.established

/-- No continuation is due and every socket has closed. -/
def Rested : Prop := c.due = false ∧ c.AllClosed

end Connection

/-! ## Sockets -/

namespace Socket

variable (socket : Socket)

theorem readyState_beginClose :
    socket.beginClose.readyState = .closed ↔ socket.readyState = .closed := by
  unfold beginClose
  split
  · exact Iff.rfl
  · next hlive => exact ⟨fun h => (by cases h), fun h => absurd h hlive⟩

theorem opened_beginClose : socket.beginClose.opened = socket.opened := by
  unfold beginClose
  split <;> rfl

theorem established_beginClose : socket.beginClose.established = socket.established := by
  have hstate := socket.readyState_beginClose
  unfold established
  rw [opened_beginClose, decide_eq_decide.mpr (not_congr hstate)]

theorem established_iff :
    socket.established = true ↔ socket.opened = true ∧ socket.readyState ≠ .closed := by
  unfold established
  rw [Bool.and_eq_true, decide_eq_true_eq]

end Socket

namespace Connection

variable {c t : Connection}

/-- The `close` event of the socket is still to come. -/
def Alive (c : Connection) (k : Nat) : Prop :=
  ∃ socket, c.socket? k = some socket ∧ socket.readyState ≠ .closed

theorem Alive.of_sockets {k : Nat} (h : c.Alive k) (hsockets : t.sockets = c.sockets) :
    t.Alive k := by
  unfold Alive socket? at h ⊢
  rw [hsockets]
  exact h

/-- Another socket changes, or this one does not close. -/
theorem Alive.modifySocket {j k : Nat} {f : Socket → Socket} (h : c.Alive j)
    (hf : j = k → ∀ socket : Socket, socket.readyState ≠ .closed →
      (f socket).readyState ≠ .closed) : (c.modifySocket k f).Alive j := by
  obtain ⟨socket, hsocket, hlive⟩ := h
  by_cases heq : j = k
  · subst heq
    exact ⟨f socket, getElem?_modify_self hsocket, hf rfl socket hlive⟩
  · exact ⟨socket, (getElem?_modify_of_ne heq).trans hsocket, hlive⟩

theorem Alive.beginClose {j : Nat} (k : Nat) (h : c.Alive j) :
    (c.modifySocket k .beginClose).Alive j :=
  h.modifySocket fun _ socket hlive => mt socket.readyState_beginClose.mp hlive

theorem Alive.not_allClosed {k : Nat} (h : c.Alive k) : ¬ c.AllClosed := by
  intro hclosed
  obtain ⟨socket, hsocket, hlive⟩ := h
  exact hlive (hclosed socket (List.mem_of_getElem? hsocket))

theorem holds_iff : c.holds = true ↔
    ∃ k socket, c.socket? k = some socket ∧ socket.established = true := by
  unfold holds
  rw [List.any_eq_true]
  constructor
  · rintro ⟨socket, hmem, h⟩
    obtain ⟨k, hk⟩ := List.mem_iff_getElem?.mp hmem
    exact ⟨k, socket, hk, h⟩
  · rintro ⟨k, socket, hk, h⟩
    exact ⟨socket, List.mem_of_getElem? hk, h⟩

theorem holds_of_sockets (hsockets : t.sockets = c.sockets) : t.holds = c.holds := by
  unfold holds
  rw [hsockets]

@[simp] theorem holds_beginClose (k : Nat) :
    (c.modifySocket k .beginClose).holds = c.holds :=
  any_modify Socket.established_beginClose

theorem holds_of_close {k : Nat} (h : (c.modifySocket k .close).holds = true) :
    c.holds = true := by
  obtain ⟨j, socket, hsocket, hup⟩ := holds_iff.mp h
  obtain ⟨old, -, -, rfl⟩ | ⟨-, hget⟩ := getElem?_modify_cases hsocket
  · exact absurd rfl ((Socket.established_iff _).mp hup).2
  · exact holds_iff.mpr ⟨j, socket, hget, hup⟩

theorem settle_cases (c : Connection) (k : Nat) (phase : AttemptPhase) :
    (c.connecting = some { socket := k } ∧
      (c.settle k phase).connecting = some { socket := k, phase }) ∨
    (c.connecting ≠ some { socket := k } ∧ (c.settle k phase).connecting = c.connecting) := by
  unfold settle
  split
  · next ha => exact .inl ⟨ha, setPhase_of_some ha⟩
  · next hne => exact .inr ⟨hne, rfl⟩

/-! ## The connection in every run -/

structure Consistent (c : Connection) : Prop where
  fresh : ∀ k socket, c.socket? k = some socket → socket.readyState = .connecting →
    c.connecting = some { socket := k }
  pending : ∀ k, c.connecting = some { socket := k } →
    ∃ socket, c.socket? k = some socket ∧ socket.readyState ≠ .closed ∧ socket.opened = false
  current : ∀ k, c.webSocket = some k → c.Alive k
  awaited : ∀ disconnect ∈ c.disconnects, ∀ k, disconnect.socket = some k → c.Alive k
  handled : c.hooks.countP (·.ofAttempt) = if c.handling then 1 else 0
  idle : c.state = .idle → c.sockets = []
  connecting : c.state = .connecting → ∃ a, c.connecting = some a ∧
    (a.phase = .pending ∨ a.phase = .rejected)
  connected : c.state = .connected → c.holds = true
  disconnecting : c.state = .disconnecting → c.disconnects ≠ []

theorem consistent_new : ({} : Connection).Consistent where
  fresh _ _ h := by cases h
  pending _ h := by cases h
  current _ h := by cases h
  awaited _ h := by cases h
  handled := rfl
  idle _ := rfl
  connecting h := by cases h
  connected h := by cases h
  disconnecting h := by cases h

namespace Consistent

/-- At rest there is nothing left for `disconnect` to close. -/
theorem resting_of_rested (H : c.Consistent) (h : c.Rested) : c.resting = true := by
  obtain ⟨hdue, hclosed⟩ := h
  simp only [due, Bool.or_eq_false_iff] at hdue
  obtain ⟨hattempt, hwaits⟩ := hdue
  cases hstate : c.state with
  | connecting =>
    obtain ⟨⟨k, phase⟩, ha, hphase⟩ := H.connecting hstate
    rw [ha] at hattempt
    rcases hphase with rfl | rfl
    · obtain ⟨socket, hsocket, hlive, -⟩ := H.pending k ha
      exact absurd hclosed (Alive.not_allClosed ⟨socket, hsocket, hlive⟩)
    · cases hattempt
  | connected =>
    obtain ⟨k, socket, hsocket, hup⟩ := holds_iff.mp (H.connected hstate)
    have hlive := ((Socket.established_iff _).mp hup).2
    exact absurd hclosed (Alive.not_allClosed ⟨socket, hsocket, hlive⟩)
  | disconnecting =>
    obtain ⟨disconnect, hmem⟩ := List.exists_mem_of_ne_nil _ (H.disconnecting hstate)
    have hsome := List.any_eq_false.mp hwaits disconnect hmem
    rw [decide_eq_true_eq] at hsome
    obtain ⟨k, hk⟩ := Option.ne_none_iff_exists'.mp hsome
    exact absurd hclosed (H.awaited disconnect hmem k hk).not_allClosed
  | idle | disconnected =>
    unfold resting
    rw [hstate]
    rfl

/-- The sockets and the attempt stay, and the state is kept or `disconnected`. -/
theorem congr (H : c.Consistent) (hsockets : t.sockets = c.sockets)
    (hwebSocket : t.webSocket = c.webSocket) (hconnecting : t.connecting = c.connecting)
    (hhooks : t.hooks.countP (·.ofAttempt) = c.hooks.countP (·.ofAttempt))
    (hdisconnects : t.disconnects ⊆ c.disconnects)
    (hstate : t.state = .disconnected ∨ t.state = c.state ∧
      (t.disconnects = c.disconnects ∨ c.state ≠ .disconnecting)) : t.Consistent := by
  have hsocket? : t.socket? = c.socket? := by
    unfold socket?
    rw [hsockets]
  refine ⟨?_, ?_, ?_, ?_, ?_, ?_, ?_, ?_, ?_⟩
  · rw [hsocket?, hconnecting]
    exact H.fresh
  · rw [hsocket?, hconnecting]
    exact H.pending
  · rw [hwebSocket]
    exact fun k hk => (H.current k hk).of_sockets hsockets
  · intro disconnect hmem k hk
    exact (H.awaited disconnect (hdisconnects hmem) k hk).of_sockets hsockets
  · rw [hhooks, H.handled, handling, handling, hconnecting]
  · rcases hstate with hstate | ⟨hstate, -⟩
    · rw [hstate]
      intro h
      cases h
    · rw [hstate, hsockets]
      exact H.idle
  · rcases hstate with hstate | ⟨hstate, -⟩
    · rw [hstate]
      intro h
      cases h
    · rw [hstate, hconnecting]
      exact H.connecting
  · rcases hstate with hstate | ⟨hstate, -⟩
    · rw [hstate]
      intro h
      cases h
    · rw [hstate, holds_of_sockets hsockets]
      exact H.connected
  · rcases hstate with hstate | ⟨hstate, heq | hne⟩
    · rw [hstate]
      intro h
      cases h
    · rw [hstate, heq]
      exact H.disconnecting
    · rw [hstate]
      exact fun h => absurd h hne

/-- What is looked at here stays. -/
theorem marked (H : c.Consistent) (hsockets : t.sockets = c.sockets)
    (hwebSocket : t.webSocket = c.webSocket) (hconnecting : t.connecting = c.connecting)
    (hhooks : t.hooks = c.hooks) (hdisconnects : t.disconnects = c.disconnects)
    (hstate : t.state = c.state) : t.Consistent := by
  refine H.congr hsockets hwebSocket hconnecting (by rw [hhooks]) ?_
    (.inr ⟨hstate, .inl hdisconnects⟩)
  rw [hdisconnects]
  exact List.Subset.refl _

/-- The attempt is past its promise. -/
theorem rephase (H : c.Consistent) {a : Attempt} (ha : c.connecting = some a)
    (hphase : a.phase ≠ .pending) (hsockets : t.sockets = c.sockets)
    (hwebSocket : t.webSocket = c.webSocket)
    (hconnecting : ∀ b, t.connecting = some b → b.phase ≠ .pending)
    (hdisconnects : t.disconnects = c.disconnects)
    (hhooks : t.hooks.countP (·.ofAttempt) = if t.handling then 1 else 0)
    (hstate : t.state = .disconnected ∨ t.state = c.state ∧ a.phase ≠ .rejected) :
    t.Consistent := by
  have hsocket? : t.socket? = c.socket? := by
    unfold socket?
    rw [hsockets]
  have hne : c.connecting ≠ some { socket := a.socket } := by
    intro h
    rw [ha] at h
    exact hphase (congrArg Attempt.phase (Option.some.inj h))
  refine ⟨?_, ?_, ?_, ?_, hhooks, ?_, ?_, ?_, ?_⟩
  · rw [hsocket?]
    intro k socket hsocket hready
    have h := H.fresh k socket hsocket hready
    rw [ha] at h
    exact absurd (congrArg Attempt.phase (Option.some.inj h)) hphase
  · intro k hk
    exact absurd rfl (hconnecting _ hk)
  · rw [hwebSocket]
    exact fun k hk => (H.current k hk).of_sockets hsockets
  · rw [hdisconnects]
    exact fun disconnect hmem k hk => (H.awaited disconnect hmem k hk).of_sockets hsockets
  · rcases hstate with hstate | ⟨hstate, -⟩
    · rw [hstate]
      intro h
      cases h
    · rw [hstate, hsockets]
      exact H.idle
  · rcases hstate with hstate | ⟨hstate, hrejected⟩
    · rw [hstate]
      intro h
      cases h
    · intro h
      rw [hstate] at h
      obtain ⟨b, hb, hphases⟩ := H.connecting h
      rw [ha] at hb
      cases hb
      rcases hphases with h | h
      · exact absurd h hphase
      · exact absurd h hrejected
  · rcases hstate with hstate | ⟨hstate, -⟩
    · rw [hstate]
      intro h
      cases h
    · rw [hstate, holds_of_sockets hsockets]
      exact H.connected
  · rcases hstate with hstate | ⟨hstate, -⟩
    · rw [hstate]
      intro h
      cases h
    · rw [hstate, hdisconnects]
      exact H.disconnecting

/-! ### Closing -/

theorem beginClose (H : c.Consistent) (k : Nat) : (c.modifySocket k .beginClose).Consistent := by
  refine ⟨?_, ?_, ?_, ?_, H.handled, ?_, H.connecting, ?_, H.disconnecting⟩
  · intro j socket hsocket hready
    obtain ⟨old, rfl, hget, rfl⟩ | ⟨-, hget⟩ := getElem?_modify_cases hsocket
    · unfold Socket.beginClose at hready
      split at hready
      · exact H.fresh j old hget hready
      · cases hready
    · exact H.fresh j socket hget hready
  · intro j hj
    obtain ⟨socket, hsocket, hlive, hopened⟩ := H.pending j hj
    by_cases heq : j = k
    · subst heq
      refine ⟨_, getElem?_modify_self hsocket, mt socket.readyState_beginClose.mp hlive, ?_⟩
      rw [Socket.opened_beginClose]
      exact hopened
    · exact ⟨socket, (getElem?_modify_of_ne heq).trans hsocket, hlive, hopened⟩
  · exact fun j hj => (H.current j hj).beginClose k
  · exact fun disconnect hmem j hj => (H.awaited disconnect hmem j hj).beginClose k
  · intro h
    have hnil : (c.modifySocket k .beginClose).sockets = c.sockets.modify k .beginClose := rfl
    rw [hnil, H.idle h, List.modify_nil]
  · intro h
    rw [holds_beginClose]
    exact H.connected h

theorem closeTransport (H : c.Consistent) : c.closeTransport.Consistent := by
  unfold Connection.closeTransport
  split
  · exact H
  · next k _ =>
    have hmarked : Consistent { c with closingByClient := true } :=
      H.marked rfl rfl rfl rfl rfl rfl
    exact hmarked.beginClose k

theorem disconnect (H : c.Consistent) (reason : DisconnectReason) :
    (c.disconnect reason).Consistent := by
  unfold Connection.disconnect
  split
  · exact H.congr rfl rfl rfl rfl (List.Subset.refl _) (.inl rfl)
  · have hmarked : Consistent { c with
        state := .disconnecting
        disconnects := c.disconnects ++ [Disconnect.mk reason c.webSocket] } := by
      refine ⟨H.fresh, H.pending, H.current, ?_, H.handled, fun h => (by cases h),
        fun h => (by cases h), fun h => (by cases h), ?_⟩
      · intro disconnect hmem k hk
        rcases List.mem_append.mp hmem with hmem | hmem
        · exact H.awaited disconnect hmem k hk
        · cases List.mem_singleton.mp hmem
          exact H.current k hk
      · exact fun _ => List.concat_ne_nil _ _
    exact hmarked.closeTransport

theorem dispose (H : c.Consistent) : c.dispose.Consistent := by
  have hmarked : Consistent { c with disposed := true, messageContext := none } :=
    H.marked rfl rfl rfl rfl rfl rfl
  unfold Connection.dispose
  dsimp only
  split
  · exact hmarked.closeTransport
  · exact hmarked

/-! ### The events of a socket -/

theorem error (H : c.Consistent) (k : Nat) : (c.onError k).Consistent := by
  have hbegin := H.beginClose k
  unfold onError settle
  split
  · next ha =>
    have hset : ((c.modifySocket k .beginClose).setPhase .rejected).connecting =
        some { socket := k, phase := .rejected } := setPhase_of_some ha
    refine ⟨?_, ?_, hbegin.current, hbegin.awaited, ?_, hbegin.idle, ?_, hbegin.connected,
      hbegin.disconnecting⟩
    · intro j socket hsocket hready
      have h := hbegin.fresh j socket hsocket hready
      rw [ha] at h
      cases h
      obtain ⟨old, -, -, rfl⟩ | ⟨hne, -⟩ := getElem?_modify_cases hsocket
      · unfold Socket.beginClose at hready
        split at hready
        · next hclosed =>
          rw [hclosed] at hready
          cases hready
        · cases hready
      · exact absurd rfl hne
    · intro j h
      rw [hset] at h
      cases h
    · refine hbegin.handled.trans ?_
      rw [handling_of_some ha, handling_of_some hset]
      rfl
    · exact fun _ => ⟨_, hset, .inr rfl⟩
  · exact hbegin

/-- The `close` event of a socket: the attempt for it has rejected, and the state is
`disconnected` if the socket had opened. -/
theorem closed (H : c.Consistent) {k : Nat} {socket : Socket} (hsocket : c.socket? k = some socket)
    (hsockets : t.sockets = c.sockets.modify k .close) (hwebSocket : t.webSocket = none)
    (hconnecting : t.connecting = (c.settle k .rejected).connecting)
    (hhooks : t.hooks.countP (·.ofAttempt) = c.hooks.countP (·.ofAttempt))
    (hdisconnects : t.disconnects = c.disconnects.map (.closed k))
    (hstate : t.state = .disconnected ∨ t.state = c.state ∧ socket.opened = false) :
    t.Consistent := by
  have hcases := settle_cases c k .rejected
  rw [← hconnecting] at hcases
  have hold : ∀ j other, t.socket? j = some other → j = k ∧ other.readyState = .closed ∨
      j ≠ k ∧ c.socket? j = some other := by
    unfold socket?
    rw [hsockets]
    intro j other hother
    obtain ⟨old, heq, -, rfl⟩ | ⟨hne, hget⟩ := getElem?_modify_cases hother
    · exact .inl ⟨heq, rfl⟩
    · exact .inr ⟨hne, hget⟩
  have hnew : ∀ j other, j ≠ k → c.socket? j = some other → t.socket? j = some other := by
    unfold socket?
    rw [hsockets]
    exact fun j other hne hget => (getElem?_modify_of_ne hne).trans hget
  refine ⟨?_, ?_, ?_, ?_, ?_, ?_, ?_, ?_, ?_⟩
  · intro j other hother hready
    rcases hold j other hother with ⟨-, hclosed⟩ | ⟨hne, hget⟩
    · rw [hclosed] at hready
      cases hready
    · have h := H.fresh j other hget hready
      rcases hcases with ⟨ha, -⟩ | ⟨-, hsame⟩
      · rw [h] at ha
        cases ha
        exact absurd rfl hne
      · exact hsame.trans h
  · intro j hj
    rcases hcases with ⟨-, hset⟩ | ⟨hne, hsame⟩
    · rw [hset] at hj
      cases hj
    · rw [hsame] at hj
      obtain ⟨other, hother, hrest⟩ := H.pending j hj
      refine ⟨other, hnew j other ?_ hother, hrest⟩
      intro heq
      rw [heq] at hj
      exact hne hj
  · intro j hj
    rw [hwebSocket] at hj
    cases hj
  · intro disconnect hmem j hj
    rw [hdisconnects] at hmem
    obtain ⟨old, hold, rfl⟩ := List.mem_map.mp hmem
    unfold Disconnect.closed at hj
    split at hj
    · cases hj
    · next hne =>
      obtain ⟨other, hother, hlive⟩ := H.awaited old hold j hj
      refine ⟨other, hnew j other ?_ hother, hlive⟩
      intro heq
      rw [heq] at hj
      exact hne hj
  · rw [hhooks, H.handled]
    rcases hcases with ⟨ha, hset⟩ | ⟨-, hsame⟩
    · rw [handling_of_some ha, handling_of_some hset]
      rfl
    · rw [handling, handling, hsame]
  · rcases hstate with hstate | ⟨hstate, -⟩
    · rw [hstate]
      intro h
      cases h
    · rw [hstate, hsockets]
      intro h
      rw [H.idle h, List.modify_nil]
  · rcases hstate with hstate | ⟨hstate, -⟩
    · rw [hstate]
      intro h
      cases h
    · rw [hstate]
      intro h
      rcases hcases with ⟨-, hset⟩ | ⟨-, hsame⟩
      · exact ⟨_, hset, .inr rfl⟩
      · rw [hsame]
        exact H.connecting h
  · rcases hstate with hstate | ⟨hstate, hunopened⟩
    · rw [hstate]
      intro h
      cases h
    · rw [hstate]
      intro h
      obtain ⟨j, other, hother, hup⟩ := holds_iff.mp (H.connected h)
      refine holds_iff.mpr ⟨j, other, hnew j other ?_ hother, hup⟩
      rintro rfl
      cases hsocket.symm.trans hother
      rw [Socket.established_iff, hunopened] at hup
      cases hup.1
  · rcases hstate with hstate | ⟨hstate, -⟩
    · rw [hstate]
      intro h
      cases h
    · rw [hstate, hdisconnects]
      exact fun h => mt List.map_eq_nil_iff.mp (H.disconnecting h)

theorem close (H : c.Consistent) {k : Nat} {socket : Socket} (hsocket : c.socket? k = some socket)
    (client : Bool) : (c.onClose k socket.opened client).Consistent := by
  unfold onClose
  dsimp only
  split
  · next hopened =>
    have hne : c.connecting ≠ some { socket := k } := by
      intro ha
      obtain ⟨other, hother, -, hunopened⟩ := H.pending k ha
      cases hsocket.symm.trans hother
      rw [hopened] at hunopened
      cases hunopened
    have hsame : (c.settle k .rejected).connecting = c.connecting := by
      rcases settle_cases c k .rejected with ⟨ha, -⟩ | ⟨-, hsame⟩
      · exact absurd ha hne
      · exact hsame
    have h := disconnected_handleDisconnected { c with
      sockets := c.sockets.modify k .close
      webSocket := none
      disconnects := c.disconnects.map (.closed k) }
      (if c.closingByClient || client then .client else .server) false
    rcases h.attempt with ⟨hhooks, hconnecting⟩ | ⟨hhooks, hconnecting⟩
    · exact H.closed hsocket h.sockets h.webSocket (hconnecting.trans hsame.symm) (by rw [hhooks])
        h.disconnects (.inl h.state)
    · refine H.closed hsocket h.sockets h.webSocket (hconnecting.trans hsame.symm) ?_
        h.disconnects (.inl h.state)
      rw [hhooks, List.countP_append]
      rfl
  · next hopened =>
    rw [Bool.not_eq_true] at hopened
    unfold settle
    split
    · next ha =>
      refine H.closed hsocket rfl rfl ?_ rfl rfl (.inr ⟨rfl, hopened⟩)
      unfold settle
      rw [if_pos ha]
      rfl
    · next ha =>
      refine H.closed hsocket rfl rfl ?_ rfl rfl (.inr ⟨rfl, hopened⟩)
      unfold settle
      rw [if_neg ha]

theorem opens (H : c.Consistent) {k : Nat} {socket : Socket} (hsocket : c.socket? k = some socket)
    (hready : socket.readyState = .connecting) :
    (((c.modifySocket k fun _ => { readyState := .open, opened := true }).setPhase
      .finalizing).handleConnected).Consistent := by
  have ha := H.fresh k socket hsocket hready
  have hphase : ((c.modifySocket k fun _ => { readyState := .open, opened := true }).setPhase
      .finalizing).handleConnected.connecting = some { socket := k, phase := .finalizing } :=
    setPhase_of_some ha
  have halive : ∀ j, c.Alive j →
      (c.modifySocket k fun _ => { readyState := .open, opened := true }).Alive j :=
    fun j hj => hj.modifySocket fun _ _ _ h => (by cases h)
  refine ⟨?_, ?_, ?_, ?_, ?_, fun h => (by cases h), fun h => (by cases h), ?_,
    fun h => (by cases h)⟩
  · intro j other hother hconnecting
    obtain ⟨old, -, -, rfl⟩ | ⟨hne, hget⟩ := getElem?_modify_cases hother
    · cases hconnecting
    · have h := H.fresh j other hget hconnecting
      rw [ha] at h
      cases h
      exact absurd rfl hne
  · intro j hj
    rw [hphase] at hj
    cases hj
  · exact fun j hj => halive j (H.current j hj)
  · exact fun disconnect hmem j hj => halive j (H.awaited disconnect hmem j hj)
  · refine H.handled.trans ?_
    rw [handling_of_some ha, handling_of_some hphase]
    rfl
  · exact fun _ => holds_iff.mpr ⟨k, _, getElem?_modify_self hsocket, rfl⟩

/-! ### The calls and the continuations -/

theorem connects (H : c.Consistent) : c.connect.Consistent := by
  unfold Connection.connect
  split
  · next hmakes =>
    simp only [makesSocket, Bool.and_eq_true, Option.isNone_iff_eq_none] at hmakes
    have hnew : (c.sockets ++ [({} : Socket)])[c.sockets.length]? = some {} :=
      getElem?_concat_iff.mpr (.inr ⟨rfl, rfl⟩)
    refine ⟨?_, ?_, ?_, ?_, ?_, fun h => (by cases h), fun _ => ⟨_, rfl, .inl rfl⟩,
      fun h => (by cases h), fun h => (by cases h)⟩
    · intro k socket hsocket hready
      rcases getElem?_concat_iff.mp hsocket with hget | ⟨rfl, -⟩
      · have h := H.fresh k socket hget hready
        rw [hmakes.2] at h
        cases h
      · rfl
    · intro k hk
      cases hk
      exact ⟨{}, hnew, fun h => (by cases h), rfl⟩
    · intro k hk
      cases hk
      exact ⟨{}, hnew, fun h => (by cases h)⟩
    · intro disconnect hmem k hk
      obtain ⟨socket, hsocket, hlive⟩ := H.awaited disconnect hmem k hk
      exact ⟨socket, getElem?_concat_iff.mpr (.inl hsocket), hlive⟩
    · refine H.handled.trans ?_
      rw [handling, handling, hmakes.2]
      rfl
  · exact H

theorem resumeAttempt (H : c.Consistent) : c.resumeAttempt.Consistent := by
  unfold Connection.resumeAttempt
  split
  · next k ha =>
    set t : Connection := { c with messageContext := none } with ht
    have h := disconnected_handleDisconnected t .connectError true
    have hcount : c.hooks.countP (·.ofAttempt) = 0 := by
      rw [H.handled, handling, ha]
      rfl
    rcases h.attempt with ⟨hhooks, hconnecting⟩ | ⟨hhooks, hconnecting⟩
    · have hset := hconnecting.trans (setPhase_of_some (c := t) ha)
      refine H.rephase ha (fun h => (by cases h)) h.sockets h.webSocket ?_ h.disconnects ?_
        (.inl h.state)
      · intro b hb
        rw [hset] at hb
        cases hb
        intro h
        cases h
      · rw [hhooks, handling_of_some hset]
        exact hcount
    · have hset := hconnecting.trans (setPhase_of_some (c := t) ha)
      refine H.rephase ha (fun h => (by cases h)) h.sockets h.webSocket ?_ h.disconnects ?_
        (.inl h.state)
      · intro b hb
        rw [hset] at hb
        cases hb
        intro h
        cases h
      · rw [hhooks, handling_of_some hset, List.countP_append,
          show t.hooks.countP (·.ofAttempt) = 0 from hcount]
        rfl
  · next k ha =>
    refine H.rephase ha (fun h => (by cases h)) rfl rfl (fun _ h => (by cases h)) rfl ?_
      (.inr ⟨rfl, fun h => (by cases h)⟩)
    refine H.handled.trans ?_
    rw [handling, ha]
    rfl
  · exact H

theorem resumeDisconnect (H : c.Consistent) (i : Nat) : (c.resumeDisconnect i).Consistent := by
  unfold Connection.resumeDisconnect
  split
  · next reason _ =>
    dsimp only
    split
    · set t : Connection := { c with disconnects := c.disconnects.eraseIdx i } with ht
      have h := disconnected_handleDisconnected t reason false
      have hdisconnects : (t.handleDisconnected reason false).disconnects ⊆ c.disconnects := by
        rw [h.disconnects]
        exact List.eraseIdx_subset
      rcases h.attempt with ⟨hhooks, hconnecting⟩ | ⟨hhooks, hconnecting⟩
      · exact H.congr h.sockets h.webSocket hconnecting (by rw [hhooks]) hdisconnects (.inl h.state)
      · refine H.congr h.sockets h.webSocket hconnecting ?_ hdisconnects (.inl h.state)
        rw [hhooks, List.countP_append]
        rfl
    · next hne =>
      exact H.congr rfl rfl rfl rfl List.eraseIdx_subset (.inr ⟨rfl, .inr hne⟩)
  · exact H

/-- The hooks of a disconnect have returned. -/
theorem hooks (H : c.Consistent) {i : Nat} {hooks : Hooks} (h : c.hooks[i]? = some hooks) :
    (if hooks.ofAttempt then { c with hooks := c.hooks.eraseIdx i }.setPhase .finalizing
      else { c with hooks := c.hooks.eraseIdx i }).Consistent := by
  split
  · next hof =>
    obtain ⟨a, ha, hphase, hcount⟩ := attempt_of_hooks H.handled h hof
    have hset : ({ c with hooks := c.hooks.eraseIdx i }.setPhase .finalizing).connecting =
        some { a with phase := .finalizing } := setPhase_of_some ha
    have hpast : a.phase ≠ .pending ∧ a.phase ≠ .rejected := by
      rw [hphase]
      exact ⟨fun h => (by cases h), fun h => (by cases h)⟩
    refine H.rephase ha hpast.1 rfl rfl ?_ rfl ?_ (.inr ⟨rfl, hpast.2⟩)
    · intro b hb
      rw [hset] at hb
      cases hb
      intro h
      cases h
    · rw [handling_of_some hset]
      exact hcount
  · next hof =>
    have hcount := countP_eraseIdx (fun hooks : Hooks => hooks.ofAttempt) h
    rw [if_neg hof] at hcount
    exact H.congr rfl rfl rfl hcount (List.Subset.refl _) (.inr ⟨rfl, .inl rfl⟩)

end Consistent

end Connection

namespace ClientCore

variable {s : ClientCore}

theorem step_consistent (H : s.connection.Consistent) (e : ClientEvent) :
    (s.step e).connection.Consistent := by
  cases e with
  | connect => exact H.connects
  | call =>
    simp only [step]
    split
    · exact H.connects
    · exact H
  | disconnect reason => exact H.disconnect reason
  | requestReconnect reason =>
    refine Connection.Consistent.disconnect ?_ .client
    exact H.marked rfl rfl rfl rfl rfl rfl
  | triggerReconnect =>
    simp only [step, triggerReconnect]
    split
    · exact H
    · split <;> exact H
  | configureReconnect config =>
    simp only [step, configureReconnect]
    split
    · exact H
    · split <;> exact H
  | setReconnectPauseReason reason active => exact H
  | dispose =>
    simp only [step, dispose]
    split
    · exact H
    · exact H.dispose
  | «open» k =>
    simp only [step]
    split
    · next hfires =>
      obtain ⟨socket, hsocket, hready⟩ := socket_of_fires hfires
      rw [decide_eq_true_eq] at hready
      rw [onOpen, if_pos (H.fresh k socket hsocket hready)]
      exact H.opens hsocket hready
    · exact H
  | message k =>
    simp only [step]
    split
    · simp only [Connection.onMessage]
      split
      · exact H.marked rfl rfl rfl rfl rfl rfl
      · exact H
    · exact H
  | error k =>
    simp only [step]
    split
    · exact H.error k
    · exact H
  | closing k =>
    simp only [step]
    split
    · exact H.beginClose k
    · exact H
  | close k client =>
    simp only [step]
    split
    · next hfires =>
      obtain ⟨socket, hsocket, -⟩ := socket_of_fires hfires
      rw [hsocket, Option.any_some]
      exact H.close hsocket client
    · exact H
  | resumeAttempt => exact H.resumeAttempt
  | resumeDisconnect i => exact H.resumeDisconnect i
  | hooks i =>
    simp only [step, onHooks]
    split
    · exact H
    · next hooks hget => exact H.hooks hget
  | loop i jitter =>
    simp only [step]
    split
    · next loop hget =>
      cases s.loopMove loop jitter with
      | connect reconnectImmediate => exact H.connects
      | resume previousTimeout =>
        simp only [move, afterReconnect]
        split
        · split <;> exact H
        · exact H
      | wait => exact H
      | pause => exact H
      | sleep => exact H
      | leave => exact H
      | finish => exact H
    · exact H

end ClientCore

end Neemata.Client
