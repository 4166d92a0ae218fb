import Neemata.Common.DuplexStream

/-!
# The invariant of the duplex stream

One write is at the sink at a time, so one write is parked at most, and a pull lets it go. The parts
are apart: `Parking` for the pulls, the reads that wait and the parked write, `Sinking` for the
writable side, and `Flowing` for the values.
-/

namespace Neemata.Common

namespace DuplexStream

variable {I O : Type} {options : DuplexOptions I O} {s : DuplexStream I O}

/-- The write at the sink is the parked one, or its promise has settled. -/
def OneParked (s : DuplexStream I O) : Prop :=
  s.parkedWrites = [] ∧ (∀ id, s.inFlightWrite ≠ some ⟨id, .pending⟩) ∨
    ∃ id, s.parkedWrites = [id] ∧ s.inFlightWrite = some ⟨id, .pending⟩

structure Parking (s : DuplexStream I O) : Prop where
  parked : OneParked s
  parked_open : s.parkedWrites ≠ [] →
    s.readable = .readable ∧ s.closeRequested = false ∧ s.draining = false
  waiting : 0 < s.reads → s.readable = .readable ∧ s.closeRequested = false ∧ s.queue = []
  close_queue : s.readable = .readable → s.closeRequested = true → s.queue ≠ []
  again : s.pullAgain = true → s.pulling = true
  pulling : s.pulling = true → s.started = true

structure Sinking (s : DuplexStream I O) : Prop where
  in_flight : s.inFlightWrite ≠ none → s.sinkStarted = true ∧ s.inFlightClose = false ∧
    (s.writable = .writable ∨ s.writable = .erroring)
  closing : s.inFlightClose = true → s.pending = [] ∧ s.closeQueued = false ∧
    s.sinkStarted = true ∧ (s.writable = .writable ∨ s.writable = .erroring)
  settled : s.writable = .errored ∨ s.writable = .closed → s.pending = [] ∧ s.closeQueued = false
  requested : s.closeRequested = true → s.inFlightClose = true ∨ s.writable = .closed

/-- Whatever can go to the sink has gone there. -/
def Advanced (s : DuplexStream I O) : Prop :=
  s.sinkStarted = true → s.inFlightWrite = none → s.inFlightClose = false →
    s.writable = .writable ∧ s.pending = [] ∧ s.closeQueued = false ∨
      s.writable = .errored ∨ s.writable = .closed

structure Flowing (options : DuplexOptions I O) (s : DuplexStream I O) : Prop where
  values : s.values ++ s.queue <+: s.written.filterMap options.transform
  kept : s.readable ≠ .errored → s.cancelled = false →
    s.values ++ s.queue = s.written.filterMap options.transform
  closed : s.readable = .closed → s.cancelled = false → s.closeRequested = true
  cancelled : s.cancelled = true → s.readable = .closed
  order : s.written ++ s.pending <+: s.accepted
  order_kept : s.writable ≠ .errored → s.accepted = s.written ++ s.pending

structure Inv (options : DuplexOptions I O) (s : DuplexStream I O) : Prop where
  parking : Parking s
  sinking : Sinking s
  advanced : Advanced s
  flowing : Flowing options s

/-- While a read waits, the parked write is about to be let go. -/
def Waits (s : DuplexStream I O) : Prop :=
  s.parkedWrites ≠ [] → s.reads = 0 ∨ s.started = false ∨
    s.pulling = true ∧ s.pullAgain = true

/-! ## Pulls -/

variable (options) in
theorem callPullIfNeeded_cases (h : Parking s) :
    s.shouldCallPull options = false ∧ s.callPullIfNeeded options = s ∨
    s.shouldCallPull options = true ∧ s.pulling = true ∧
      s.callPullIfNeeded options = { s with pullAgain := true } ∨
    s.shouldCallPull options = true ∧ s.pulling = false ∧ s.parkedWrites = [] ∧
      s.callPullIfNeeded options = { s with pulling := true } ∨
    s.shouldCallPull options = true ∧ s.pulling = false ∧ ∃ id, s.parkedWrites = [id] ∧
      s.inFlightWrite = some ⟨id, .pending⟩ ∧
      s.callPullIfNeeded options =
        { s with pulling := true, parkedWrites := [], inFlightWrite := some ⟨id, .fulfilled⟩ } := by
  unfold callPullIfNeeded
  cases hshould : s.shouldCallPull options with
  | false => exact .inl ⟨rfl, rfl⟩
  | true =>
    right
    cases hpulling : s.pulling with
    | true => exact .inl ⟨rfl, rfl, rfl⟩
    | false =>
      right
      rcases h.parked with ⟨hnil, -⟩ | ⟨id, hparked, hwrite⟩
      · refine .inl ⟨rfl, rfl, hnil, ?_⟩
        rw [if_pos rfl, if_neg (by simp), pull]
        dsimp only
        rw [hnil]
      · refine .inr ⟨rfl, rfl, id, hparked, hwrite, ?_⟩
        rw [if_pos rfl, if_neg (by simp), pull]
        dsimp only
        rw [hparked]
        dsimp only
        rw [resolve, if_pos hwrite]

variable (options) in
/-- A pull changes its own flags, and settles the promise of a parked write. -/
theorem callPullIfNeeded_frame (h : Parking s) : ∃ pulling pullAgain parkedWrites inFlightWrite,
    s.callPullIfNeeded options =
      { s with pulling, pullAgain, parkedWrites, inFlightWrite } ∧
    (inFlightWrite = none ↔ s.inFlightWrite = none) := by
  rcases callPullIfNeeded_cases options h with
    ⟨-, heq⟩ | ⟨-, -, heq⟩ | ⟨-, -, -, heq⟩ | ⟨-, -, id, -, hwrite, heq⟩
  · exact ⟨_, _, _, _, heq, Iff.rfl⟩
  · exact ⟨_, _, _, _, heq, Iff.rfl⟩
  · exact ⟨_, _, _, _, heq, Iff.rfl⟩
  · exact ⟨_, _, _, _, heq, by rw [hwrite]; simp⟩

theorem Parking.callPullIfNeeded (h : Parking s) : Parking (s.callPullIfNeeded options) := by
  rcases callPullIfNeeded_cases options h with
    ⟨-, heq⟩ | ⟨-, hpulling, heq⟩ | ⟨hshould, -, -, heq⟩ | ⟨hshould, -, id, hparked, -, heq⟩
  · rw [heq]
    exact h
  · rw [heq]
    exact ⟨h.parked, h.parked_open, h.waiting, h.close_queue, fun _ => hpulling, h.pulling⟩
  · rw [heq]
    refine ⟨h.parked, h.parked_open, h.waiting, h.close_queue, fun _ => rfl, fun _ => ?_⟩
    simp only [shouldCallPull, Bool.and_eq_true] at hshould
    exact hshould.1.2
  · rw [heq]
    refine ⟨.inl ⟨rfl, fun id' => by simp⟩, fun hne => absurd rfl hne, h.waiting, h.close_queue,
      fun _ => rfl, fun _ => ?_⟩
    simp only [shouldCallPull, Bool.and_eq_true] at hshould
    exact hshould.1.2

/-- After `CallPullIfNeeded` no parked write is left behind. -/
theorem waits_callPullIfNeeded (h : Parking s) : Waits (s.callPullIfNeeded options) := by
  rcases callPullIfNeeded_cases options h with
    ⟨hshould, heq⟩ | ⟨-, hpulling, heq⟩ | ⟨-, -, hnil, heq⟩ | ⟨-, -, id, -, -, heq⟩
  · rw [heq]
    intro hparked
    obtain ⟨hopen, hrequested, -⟩ := h.parked_open hparked
    rw [shouldCallPull, hopen, hrequested] at hshould
    cases hstarted : s.started with
    | false => exact .inr (.inl rfl)
    | true =>
      rw [hstarted] at hshould
      left
      simp at hshould
      exact hshould.1
  · rw [heq]
    exact fun _ => .inr (.inr ⟨hpulling, rfl⟩)
  · rw [heq]
    exact fun hparked => absurd hnil hparked
  · rw [heq]
    exact fun hparked => absurd rfl hparked

theorem Sinking.of_frame (h : Sinking s) {pulling pullAgain : Bool} {parkedWrites : List Nat}
    {inFlightWrite : Option SinkWrite} (hnone : inFlightWrite = none ↔ s.inFlightWrite = none) :
    Sinking { s with pulling, pullAgain, parkedWrites, inFlightWrite } :=
  ⟨fun hne => h.in_flight (mt hnone.mpr hne), h.closing, h.settled, h.requested⟩

theorem Sinking.callPullIfNeeded (h : Sinking s) (hp : Parking s) :
    Sinking (s.callPullIfNeeded options) := by
  obtain ⟨_, _, _, _, heq, hnone⟩ := callPullIfNeeded_frame options hp
  rw [heq]
  exact h.of_frame hnone

theorem Advanced.callPullIfNeeded (h : Advanced s) (hp : Parking s) :
    Advanced (s.callPullIfNeeded options) := by
  obtain ⟨_, _, _, _, heq, hnone⟩ := callPullIfNeeded_frame options hp
  rw [heq]
  exact fun hstarted hwrite => h hstarted (hnone.mp hwrite)

theorem Flowing.callPullIfNeeded (h : Flowing options s) (hp : Parking s) :
    Flowing options (s.callPullIfNeeded options) := by
  obtain ⟨_, _, _, _, heq, -⟩ := callPullIfNeeded_frame options hp
  rw [heq]
  exact ⟨h.values, h.kept, h.closed, h.cancelled, h.order, h.order_kept⟩

theorem Inv.callPullIfNeeded (h : Inv options s) : Inv options (s.callPullIfNeeded options) :=
  ⟨h.parking.callPullIfNeeded, h.sinking.callPullIfNeeded h.parking,
    h.advanced.callPullIfNeeded h.parking, h.flowing.callPullIfNeeded h.parking⟩

theorem Inv.pulled (h : Inv options s) : Inv options (s.pulled options) := by
  unfold DuplexStream.pulled
  split
  · have hstill : ∀ pullAgain, pullAgain = false →
        Inv options { s with pulling := false, pullAgain } := by
      intro pullAgain hfalse
      refine ⟨{ h.parking with again := ?_, pulling := ?_ }, { h.sinking with }, h.advanced,
        { h.flowing with }⟩
      · intro hagain
        cases hfalse.symm.trans hagain
      · intro hpulling
        cases hpulling
    dsimp only
    split
    · exact (hstill false rfl).callPullIfNeeded
    · next hagain => exact hstill s.pullAgain (eq_false_of_ne_true hagain)
  · exact h

/-! ## The readable side -/

theorem Inv.starts (h : Inv options s) :
    Inv options (DuplexStream.callPullIfNeeded options { s with started := true }) := by
  have hstarted : Inv options { s with started := true } :=
    ⟨{ h.parking with pulling := fun _ => rfl }, { h.sinking with }, h.advanced,
      { h.flowing with }⟩
  exact hstarted.callPullIfNeeded

/-- A read that waits. -/
theorem Inv.wait (h : Inv options s) (hopen : s.readable = .readable) (hqueue : s.queue = []) :
    Inv options { s with reads := s.reads + 1 } := by
  refine ⟨{ h.parking with waiting := fun _ => ⟨hopen, ?_, hqueue⟩ }, { h.sinking with },
    h.advanced, { h.flowing with }⟩
  show s.closeRequested = false
  cases hrequested : s.closeRequested with
  | false => rfl
  | true => exact absurd hqueue (h.parking.close_queue hopen hrequested)

/-- A read that takes a queued chunk. -/
theorem Inv.dequeue (h : Inv options s) {chunk : O} {rest : List O}
    (hqueue : s.queue = chunk :: rest) (hrest : s.closeRequested = true → rest ≠ []) :
    Inv options { s with queue := rest, values := s.values ++ [chunk] } := by
  have hvalues : s.values ++ [chunk] ++ rest = s.values ++ s.queue := by
    rw [hqueue, List.append_assoc]
    rfl
  refine ⟨{ h.parking with waiting := fun hreads => ?_, close_queue := fun _ => hrest },
    { h.sinking with }, h.advanced, { h.flowing with values := ?_, kept := ?_ }⟩
  · have hnil := (h.parking.waiting hreads).2.2
    rw [hqueue] at hnil
    cases hnil
  · rw [hvalues]
    exact h.flowing.values
  · rw [hvalues]
    exact h.flowing.kept

/-- A read that takes the last chunk of a stream that is to close. -/
theorem Inv.dequeue_last (h : Inv options s) {chunk : O} (hopen : s.readable = .readable)
    (hqueue : s.queue = [chunk]) (hrequested : s.closeRequested = true) :
    Inv options { s with queue := [], values := s.values ++ [chunk], readable := .closed } := by
  have hvalues : s.values ++ [chunk] ++ [] = s.values ++ s.queue := by
    rw [hqueue, List.append_nil]
  refine ⟨⟨h.parking.parked, fun hparked => ?_, fun hreads => ?_, (fun heq => by cases heq),
    h.parking.again, h.parking.pulling⟩,
    { h.sinking with }, h.advanced,
    ⟨?_, ?_, fun _ _ => hrequested, fun _ => rfl, h.flowing.order, h.flowing.order_kept⟩⟩
  · rw [(h.parking.parked_open hparked).2.1] at hrequested
    cases hrequested
  · rw [(h.parking.waiting hreads).2.1] at hrequested
    cases hrequested
  · rw [hvalues]
    exact h.flowing.values
  · intro _ hcancelled
    rw [hvalues]
    exact h.flowing.kept (by rw [hopen]; simp) hcancelled

theorem Inv.read (h : Inv options s) : Inv options (s.read options) := by
  unfold DuplexStream.read
  split
  · next hopen =>
    split
    · next hqueue => exact (h.wait hopen hqueue).callPullIfNeeded
    · next chunk rest hqueue =>
      dsimp only
      split
      · next hlast =>
        obtain ⟨hrequested, hnil⟩ := Bool.and_eq_true_iff.mp hlast
        rw [List.isEmpty_iff] at hnil
        subst hnil
        exact h.dequeue_last hopen hqueue hrequested
      · next hlast =>
        refine (h.dequeue hqueue fun hrequested hnil => hlast ?_).callPullIfNeeded
        simp [hrequested, hnil]
  · exact h

/-- All parked writes are let go. -/
theorem releaseParkedWrites_eq (h : OneParked s) : ∃ inFlightWrite,
    s.releaseParkedWrites = { s with draining := true, parkedWrites := [], inFlightWrite } ∧
    (inFlightWrite = none ↔ s.inFlightWrite = none) ∧
    ∀ id, inFlightWrite ≠ some ⟨id, .pending⟩ := by
  unfold releaseParkedWrites
  rcases h with ⟨hnil, hwrite⟩ | ⟨id, hparked, hwrite⟩
  · rw [hnil]
    exact ⟨s.inFlightWrite, rfl, Iff.rfl, hwrite⟩
  · rw [hparked, List.foldl_cons, List.foldl_nil, resolve, if_pos hwrite]
    exact ⟨some ⟨id, .fulfilled⟩, rfl, by rw [hwrite]; simp, fun _ => by simp⟩

theorem Parking.release (h : Parking s) {inFlightWrite : Option SinkWrite}
    (hwrite : ∀ id, inFlightWrite ≠ some ⟨id, .pending⟩) :
    Parking { s with draining := true, parkedWrites := [], inFlightWrite } :=
  ⟨.inl ⟨rfl, hwrite⟩, fun hne => absurd rfl hne, h.waiting, h.close_queue, h.again, h.pulling⟩

theorem Inv.releaseParkedWrites (h : Inv options s) : Inv options s.releaseParkedWrites := by
  obtain ⟨_, heq, hnone, hwrite⟩ := releaseParkedWrites_eq h.parking.parked
  rw [heq]
  exact ⟨h.parking.release hwrite,
    ⟨fun hne => h.sinking.in_flight (mt hnone.mpr hne), h.sinking.closing, h.sinking.settled,
      h.sinking.requested⟩,
    fun hstarted hidle => h.advanced hstarted (hnone.mp hidle),
    { h.flowing with }⟩

theorem Inv.cancel (h : Inv options s) : Inv options s.cancel := by
  unfold DuplexStream.cancel
  split
  · next hopen =>
    have hunread : s.values ++ [] <+: s.written.filterMap options.transform := by
      rw [List.append_nil]
      exact (List.prefix_append _ _).trans h.flowing.values
    obtain ⟨_, heq, hnone, hwrite⟩ := releaseParkedWrites_eq (s := { s with
      readable := .closed, cancelled := true, reads := 0, queue := [] }) h.parking.parked
    rw [heq]
    exact ⟨⟨.inl ⟨rfl, hwrite⟩, fun hne => absurd rfl hne, (fun hreads => by cases hreads),
      (fun hopen => by cases hopen), h.parking.again, h.parking.pulling⟩,
      ⟨fun hne => h.sinking.in_flight (mt hnone.mpr hne), h.sinking.closing, h.sinking.settled,
        h.sinking.requested⟩,
      fun hstarted hidle => h.advanced hstarted (hnone.mp hidle),
      ⟨hunread, (fun _ hkept => by cases hkept), (fun _ hkept => by cases hkept),
        fun _ => rfl, h.flowing.order,
        h.flowing.order_kept⟩⟩
  · exact h

/-! ## The sink -/

/-- A state in which the next chunk can go to the sink. -/
structure Ready (options : DuplexOptions I O) (s : DuplexStream I O) : Prop where
  parking : Parking s
  sinking : Sinking s
  flowing : Flowing options s
  started : s.sinkStarted = true
  idle : s.inFlightWrite = none
  no_close : s.inFlightClose = false

theorem Parking.none_parked (h : Parking s) (hidle : s.inFlightWrite = none) :
    s.parkedWrites = [] := by
  rcases h.parked with ⟨hnil, -⟩ | ⟨id, -, hwrite⟩
  · exact hnil
  · rw [hidle] at hwrite
    cases hwrite

/-- While the sink is open to writes, so is the readable side, unless it has been cancelled or has
failed. -/
theorem Ready.not_requested (h : Ready options s) (hopen : s.writable ≠ .closed) :
    s.closeRequested = false := by
  cases hrequested : s.closeRequested with
  | false => rfl
  | true =>
    rcases h.sinking.requested hrequested with hclose | hclosed
    · rw [h.no_close] at hclose
      cases hclose
    · exact absurd hclosed hopen

/-- The sink has taken a chunk that the readable side does not get. -/
theorem Ready.reject (h : Ready options s) (hwritable : s.writable = .writable) {chunk : I}
    {rest : List I} (hpending : s.pending = chunk :: rest) (id : Nat)
    (hlost : s.readable = .errored ∨ s.cancelled = true ∨ options.transform chunk = none) :
    Inv options { s with
      pending := rest
      written := s.written ++ [chunk]
      inFlightWrite := some ⟨id, .rejected⟩ } := by
  have hwritten : s.written ++ [chunk] ++ rest = s.written ++ s.pending := by
    rw [hpending, List.append_assoc]
    rfl
  refine ⟨⟨.inl ⟨h.parking.none_parked h.idle, fun _ => by simp⟩, h.parking.parked_open,
    h.parking.waiting, h.parking.close_queue, h.parking.again, h.parking.pulling⟩,
    ⟨fun _ => ⟨h.started, h.no_close, .inl hwritable⟩, fun hclose => ?_, fun hover => ?_,
      h.sinking.requested⟩, (fun _ hidle => by cases hidle),
    ⟨?_, ?_, h.flowing.closed, h.flowing.cancelled, ?_, ?_⟩⟩
  · cases h.no_close.symm.trans hclose
  · rw [show s.writable = .errored ∨ s.writable = .closed ↔ False by rw [hwritable]; simp] at hover
    exact hover.elim
  · rw [List.filterMap_append]
    exact h.flowing.values.trans (List.prefix_append _ _)
  · intro herrored hcancelled
    rw [List.filterMap_append, ← h.flowing.kept herrored hcancelled]
    rcases hlost with hlost | hlost | hlost
    · exact absurd hlost herrored
    · rw [show s.cancelled = false from hcancelled] at hlost
      cases hlost
    · simp [hlost]
  · rw [hwritten]
    exact h.flowing.order
  · rw [hwritten]
    exact h.flowing.order_kept

theorem Ready.controllerError (h : Ready options s) : Ready options s.controllerError := by
  unfold DuplexStream.controllerError
  split
  · next hopen =>
    have hunread : s.values ++ [] <+: s.written.filterMap options.transform := by
      rw [List.append_nil]
      exact (List.prefix_append _ _).trans h.flowing.values
    refine ⟨⟨h.parking.parked, fun hne => absurd (h.parking.none_parked h.idle) hne,
      (fun hreads => by cases hreads), (fun hopen => by cases hopen), h.parking.again,
      h.parking.pulling⟩,
      { h.sinking with },
      ⟨hunread, fun hne => absurd rfl hne, (fun hclosed => by cases hclosed), fun hcancelled => ?_,
        h.flowing.order, h.flowing.order_kept⟩, h.started, h.idle, h.no_close⟩
    cases hopen.symm.trans (h.flowing.cancelled hcancelled)
  · exact h

/-- A pull that no parked write waits for. -/
theorem callPullIfNeeded_of_none (hnil : s.parkedWrites = []) :
    s.callPullIfNeeded options = { s with
      pulling := s.pulling || s.shouldCallPull options
      pullAgain := s.pullAgain || (s.shouldCallPull options && s.pulling) } := by
  unfold callPullIfNeeded
  cases hshould : s.shouldCallPull options with
  | false => rw [if_neg (by simp)]; simp
  | true =>
    rw [if_pos rfl]
    cases hpulling : s.pulling with
    | true => simp
    | false =>
      rw [if_neg (by simp), pull]
      dsimp only
      rw [hnil]
      simp

/-- The sink has taken a chunk that the readable side gets, and the write may be parked. -/
theorem Ready.deliver (h : Ready options s) (hwritable : s.writable = .writable) {chunk : I}
    {rest : List I} (hpending : s.pending = chunk :: rest) {value : O}
    (hvalue : options.transform chunk = some value) (hopen : s.readable = .readable)
    (hrequested : s.closeRequested = false) (id : Nat) {reads : Nat} {values queue : List O}
    (hvalues : values ++ queue = s.values ++ s.queue ++ [value])
    (hreads : 0 < reads → queue = []) {pulling pullAgain : Bool}
    (hagain : pullAgain = true → pulling = true) (hpulling : pulling = true → s.started = true)
    {parkedWrites : List Nat} (promise : SinkPromise)
    (hparked : parkedWrites = [] ∧ promise ≠ .pending ∨
      parkedWrites = [id] ∧ promise = .pending ∧ s.draining = false) :
    Inv options { s with
      pending := rest
      written := s.written ++ [chunk]
      reads, values, queue, pulling, pullAgain, parkedWrites
      inFlightWrite := some ⟨id, promise⟩ } := by
  have hwritten : s.written ++ [chunk] ++ rest = s.written ++ s.pending := by
    rw [hpending, List.append_assoc]
    rfl
  have hsent : (s.written ++ [chunk]).filterMap options.transform =
      s.written.filterMap options.transform ++ [value] := by
    rw [List.filterMap_append]
    simp [hvalue]
  have hkept : s.values ++ s.queue = s.written.filterMap options.transform := by
    refine h.flowing.kept (by rw [hopen]; simp) ?_
    cases hcancelled : s.cancelled with
    | false => rfl
    | true => cases hopen.symm.trans (h.flowing.cancelled hcancelled)
  have hdelivered : values ++ queue = (s.written ++ [chunk]).filterMap options.transform := by
    rw [hvalues, hsent, hkept]
  refine ⟨⟨?_, fun hne => ⟨hopen, hrequested, ?_⟩, fun hpos => ⟨hopen, hrequested, hreads hpos⟩,
    fun _ hclose => ?_, hagain, hpulling⟩,
    ⟨fun _ => ⟨h.started, h.no_close, .inl hwritable⟩, fun hclose => ?_, fun hover => ?_,
      h.sinking.requested⟩, (fun _ hidle => by cases hidle),
    ⟨?_, ?_, h.flowing.closed, h.flowing.cancelled, ?_, ?_⟩⟩
  · rcases hparked with ⟨rfl, hpromise⟩ | ⟨rfl, rfl, -⟩
    · exact .inl ⟨rfl, fun id' heq => hpromise (by cases heq; rfl)⟩
    · exact .inr ⟨id, rfl, rfl⟩
  · rcases hparked with ⟨rfl, -⟩ | ⟨-, -, hdraining⟩
    · exact absurd rfl hne
    · exact hdraining
  · cases hrequested.symm.trans hclose
  · cases h.no_close.symm.trans hclose
  · rw [show s.writable = .errored ∨ s.writable = .closed ↔ False by rw [hwritable]; simp] at hover
    exact hover.elim
  · exact hdelivered ▸ List.prefix_refl _
  · exact fun _ _ => hdelivered
  · rw [hwritten]
    exact h.flowing.order
  · rw [hwritten]
    exact h.flowing.order_kept

theorem shouldCallPull_started (h : s.shouldCallPull options = true) : s.started = true := by
  simp only [shouldCallPull, Bool.and_eq_true] at h
  exact h.1.2

variable (options) in
/-- What an `enqueue` leaves when no write is parked. -/
theorem enqueue_of_none (hnil : s.parkedWrites = []) (hreads : 0 < s.reads → s.queue = [])
    (hagain : s.pullAgain = true → s.pulling = true)
    (hpulling : s.pulling = true → s.started = true) (value : O) :
    ∃ reads values queue pulling pullAgain,
      s.enqueue options value = { s with reads, values, queue, pulling, pullAgain } ∧
      values ++ queue = s.values ++ s.queue ++ [value] ∧ (0 < reads → queue = []) ∧
      (pullAgain = true → pulling = true) ∧ (pulling = true → s.started = true) := by
  have hflags : ∀ should : Bool, (s.pullAgain || (should && s.pulling)) = true →
      (s.pulling || should) = true := by
    intro should hor
    rcases Bool.or_eq_true_iff.mp hor with hor | hor
    · rw [hagain hor]
      rfl
    · rw [(Bool.and_eq_true_iff.mp hor).2]
      rfl
  have hstarted : ∀ t : DuplexStream I O, t.started = s.started →
      (s.pulling || t.shouldCallPull options) = true → s.started = true := by
    intro t ht hor
    rcases Bool.or_eq_true_iff.mp hor with hor | hor
    · exact hpulling hor
    · rw [← ht]
      exact shouldCallPull_started hor
  unfold enqueue
  split
  · next hpos =>
    rw [callPullIfNeeded_of_none (s := { s with
      reads := s.reads - 1, values := s.values ++ [value] }) hnil]
    refine ⟨_, _, s.queue, _, _, rfl, ?_, fun _ => hreads hpos, hflags _, hstarted _ rfl⟩
    rw [hreads hpos]
    simp
  · next hnone =>
    rw [callPullIfNeeded_of_none (s := { s with queue := s.queue ++ [value] }) hnil]
    exact ⟨s.reads, s.values, _, _, _, rfl, (List.append_assoc _ _ _).symm,
      fun hpos => absurd hpos hnone, hflags _, hstarted _ rfl⟩

/-- An error of the controller is one of the readable side alone. -/
theorem controllerError_frame (s : DuplexStream I O) : ∃ state reads queue,
    s.controllerError = { s with readable := state, reads, queue } ∧
    ∀ pending written inFlightWrite,
      controllerError { s with pending, written, inFlightWrite } =
        { s with readable := state, reads, queue, pending, written, inFlightWrite } := by
  by_cases hopen : s.readable = .readable
  · refine ⟨.errored, 0, [], ?_, fun _ _ _ => ?_⟩
    · rw [controllerError, if_pos hopen]
    · rw [controllerError, if_pos hopen]
  · refine ⟨s.readable, s.reads, s.queue, ?_, fun _ _ _ => ?_⟩
    · rw [controllerError, if_neg hopen]
    · rw [controllerError, if_neg hopen]

theorem Ready.sinkWrite (h : Ready options s) (hwritable : s.writable = .writable) {chunk : I}
    {rest : List I} (hpending : s.pending = chunk :: rest) :
    Inv options (sinkWrite options { s with pending := rest } chunk) := by
  have hrequested := h.not_requested (by rw [hwritable]; simp)
  have hnil := h.parking.none_parked h.idle
  unfold DuplexStream.sinkWrite
  dsimp only
  split
  · next hnone =>
    obtain ⟨state, reads, queue, heq, hframe⟩ := controllerError_frame s
    have herror := h.controllerError
    rw [heq] at herror
    rw [hframe]
    exact herror.reject hwritable hpending _ (.inr (.inr hnone))
  · next value hvalue =>
    split
    · next hcan =>
      have hopen : s.readable = .readable := by
        simp only [canEnqueue, Bool.and_eq_true, decide_eq_true_eq] at hcan
        exact hcan.1
      obtain ⟨reads, values, queue, pulling, pullAgain, heq, hvalues, hreads, hagain, hpulling⟩ :=
        enqueue_of_none options (s := { s with
          pending := rest
          written := s.written ++ [chunk]
          inFlightWrite := some ⟨s.written.length, .pending⟩ })
          hnil (fun hpos => (h.parking.waiting hpos).2.2) h.parking.again h.parking.pulling value
      rw [heq]
      dsimp only
      split
      · next hpark =>
        have hdraining : s.draining = false := by
          simp only [Bool.and_eq_true, Bool.not_eq_true'] at hpark
          exact hpark.1
        rw [hnil]
        exact h.deliver hwritable hpending hvalue hopen hrequested _ hvalues hreads hagain hpulling
          _ (.inr ⟨rfl, rfl, hdraining⟩)
      · have hdeliver := h.deliver hwritable hpending hvalue hopen hrequested s.written.length
          hvalues hreads hagain hpulling .fulfilled (.inl ⟨rfl, by simp⟩)
        rw [← hnil] at hdeliver
        exact hdeliver
    · next hcannot =>
      refine h.reject hwritable hpending _ ?_
      have hclosed : s.readable ≠ .readable := fun hopen =>
        hcannot (by simp [canEnqueue, hopen, hrequested])
      cases hreadable : s.readable with
      | readable => exact absurd hreadable hclosed
      | errored => exact .inl rfl
      | closed =>
        right
        left
        cases hcancelled : s.cancelled with
        | true => rfl
        | false => cases hrequested.symm.trans (h.flowing.closed hreadable hcancelled)

/-! ## The writable side -/

theorem Inv.pendingAbort (h : Inv options s) (pendingAbort : Bool) :
    Inv options { s with pendingAbort } :=
  ⟨{ h.parking with }, { h.sinking with }, h.advanced, { h.flowing with }⟩

theorem Ready.finishErroring (h : Ready options s) (hopen : s.writable ≠ .closed) :
    Inv options s.finishErroring := by
  have hrequested := h.not_requested hopen
  have herrored : Ready options
      { s with writable := .errored, pending := [], closeQueued := false } :=
    ⟨{ h.parking with },
      ⟨fun hne => absurd h.idle hne, fun hclose => (by cases h.no_close.symm.trans hclose),
        fun _ => ⟨rfl, rfl⟩, fun hclose => (by cases hrequested.symm.trans hclose)⟩,
      { h.flowing with
        order := List.append_nil _ ▸ (List.prefix_append _ _).trans h.flowing.order
        order_kept := fun hne => absurd rfl hne }, h.started, h.idle, h.no_close⟩
  unfold DuplexStream.finishErroring
  dsimp only
  split
  · obtain ⟨state, reads, queue, heq, -⟩ := controllerError_frame { s with
      writable := .errored, pending := [], closeQueued := false }
    have herror := herrored.controllerError
    rw [heq] at herror ⊢
    have hinv : Inv options _ :=
      ⟨herror.parking, herror.sinking, fun _ _ _ => .inr (.inl rfl), herror.flowing⟩
    exact hinv.pendingAbort false
  · exact ⟨herrored.parking, herrored.sinking, fun _ _ _ => .inr (.inl rfl), herrored.flowing⟩

theorem Ready.controllerClose (h : Ready options s) (hwritable : s.writable = .writable)
    (hpending : s.pending = []) :
    Inv options (controllerClose { s with closeQueued := false, inFlightClose := true }) := by
  have hnil := h.parking.none_parked h.idle
  have hopen : ¬ (s.writable = .errored ∨ s.writable = .closed) := by
    rw [hwritable]
    simp
  unfold DuplexStream.controllerClose
  split
  · next hcan =>
    have hreadable : s.readable = .readable := by
      simp only [canEnqueue, Bool.and_eq_true, decide_eq_true_eq] at hcan
      exact hcan.1
    have hkept := h.flowing.kept (by rw [hreadable]; simp)
    have hcancelled : s.cancelled = true → s.readable = .closed := h.flowing.cancelled
    split
    · exact ⟨⟨h.parking.parked, fun hne => absurd hnil hne, (fun hpos => by cases hpos),
        (fun heq => by cases heq), h.parking.again, h.parking.pulling⟩,
        ⟨fun hne => absurd h.idle hne, fun _ => ⟨hpending, rfl, h.started, .inl hwritable⟩,
          fun hover => absurd hover hopen, fun _ => .inl rfl⟩,
        (fun _ _ hclose => by cases hclose),
        { h.flowing with
          kept := fun _ => hkept, closed := fun _ _ => rfl, cancelled := fun _ => rfl }⟩
    · next hqueue =>
      have hne : s.queue ≠ [] := fun heq => hqueue (List.isEmpty_iff.mpr heq)
      exact ⟨⟨h.parking.parked, fun hne => absurd hnil hne,
        fun hpos => absurd (h.parking.waiting hpos).2.2 hne, fun _ _ => hne, h.parking.again,
        h.parking.pulling⟩,
        ⟨fun hne => absurd h.idle hne, fun _ => ⟨hpending, rfl, h.started, .inl hwritable⟩,
          fun hover => absurd hover hopen, fun _ => .inl rfl⟩,
        (fun _ _ hclose => by cases hclose),
        { h.flowing with
          kept := fun _ => hkept, closed := fun _ _ => rfl, cancelled := hcancelled }⟩
  · exact ⟨{ h.parking with },
      ⟨fun hne => absurd h.idle hne, fun _ => ⟨hpending, rfl, h.started, .inl hwritable⟩,
        fun hover => absurd hover hopen, fun _ => .inl rfl⟩,
      (fun _ _ hclose => by cases hclose),
      { h.flowing with }⟩

theorem Ready.advance (h : Ready options s)
    (hopen : s.writable = .writable ∨ s.writable = .erroring) :
    Inv options (s.advance options) := by
  unfold DuplexStream.advance
  rw [if_pos (by simp [h.started, h.idle])]
  split
  · exact h.finishErroring (by rcases hopen with h | h <;> rw [h] <;> simp)
  · next hnot =>
    have hwritable := hopen.resolve_right hnot
    split
    · next chunk rest hpending => exact h.sinkWrite hwritable hpending
    · next hpending =>
      split
      · exact h.controllerClose hwritable hpending
      · next hqueued =>
        exact ⟨h.parking, h.sinking,
          fun _ _ _ => .inl ⟨hwritable, hpending, eq_false_of_ne_true hqueued⟩, h.flowing⟩

/-- `AdvanceQueueIfNeeded`, whether or not anything can go to the sink. -/
theorem inv_advance (hparking : Parking s) (hsinking : Sinking s) (hflowing : Flowing options s)
    (hclose : s.inFlightClose = false) (hopen : s.writable = .writable ∨ s.writable = .erroring) :
    Inv options (s.advance options) := by
  by_cases hready : s.sinkStarted = true ∧ s.inFlightWrite = none
  · exact Ready.advance ⟨hparking, hsinking, hflowing, hready.1, hready.2, hclose⟩ hopen
  · unfold DuplexStream.advance
    rw [if_neg (by simpa using hready)]
    exact ⟨hparking, hsinking, fun hstarted hidle => absurd ⟨hstarted, hidle⟩ hready, hflowing⟩

/-- The sink has started. -/
theorem Inv.sinkStarted (h : Inv options s) :
    Parking { s with sinkStarted := true } ∧ Sinking { s with sinkStarted := true } ∧
      Flowing options { s with sinkStarted := true } :=
  ⟨{ h.parking with },
    ⟨fun hne => ⟨rfl, (h.sinking.in_flight hne).2⟩, fun hc =>
      have hclosing := h.sinking.closing hc
      ⟨hclosing.1, hclosing.2.1, rfl, hclosing.2.2.2⟩, h.sinking.settled, h.sinking.requested⟩,
    { h.flowing with }⟩

theorem Inv.not_started (h : Inv options s) (hnot : s.sinkStarted = false) :
    s.inFlightWrite = none ∧ s.inFlightClose = false := by
  constructor
  · cases hwrite : s.inFlightWrite with
    | none => rfl
    | some write =>
      cases hnot.symm.trans (h.sinking.in_flight (by rw [hwrite]; simp)).1
  · cases hclose : s.inFlightClose with
    | false => rfl
    | true => cases hnot.symm.trans (h.sinking.closing hclose).2.2.1

theorem Inv.sinkStarts (h : Inv options s) (hnot : s.sinkStarted = false) :
    Inv options (DuplexStream.advance options { s with sinkStarted := true }) := by
  obtain ⟨hparking, hsinking, hflowing⟩ := h.sinkStarted
  by_cases hopen : s.writable = .writable ∨ s.writable = .erroring
  · exact inv_advance hparking hsinking hflowing (h.not_started hnot).2 hopen
  · have hover : s.writable = .errored ∨ s.writable = .closed := by
      cases hw : s.writable <;> simp [hw] at hopen ⊢
    obtain ⟨hpending, hqueued⟩ := h.sinking.settled hover
    have hsame : DuplexStream.advance options { s with sinkStarted := true } =
        { s with sinkStarted := true } := by
      unfold DuplexStream.advance
      dsimp only
      rw [if_neg (fun heq => hopen (.inr heq)), hpending, hqueued]
      split <;> rfl
    rw [hsame]
    exact ⟨hparking, hsinking, fun _ _ _ => .inr hover, hflowing⟩

theorem no_close (h : s.closeQueuedOrInFlight = false) :
    s.closeQueued = false ∧ s.inFlightClose = false := by
  rw [closeQueuedOrInFlight, Bool.or_eq_false_iff] at h
  exact h

/-- A chunk that `write` has taken. -/
theorem Inv.accept (h : Inv options s) (chunk : I) (hwritable : s.writable = .writable)
    (hclose : s.inFlightClose = false) :
    Parking { s with accepted := s.accepted ++ [chunk], pending := s.pending ++ [chunk] } ∧
    Sinking { s with accepted := s.accepted ++ [chunk], pending := s.pending ++ [chunk] } ∧
    Flowing options
      { s with accepted := s.accepted ++ [chunk], pending := s.pending ++ [chunk] } := by
  have horder := h.flowing.order_kept (by rw [hwritable]; simp)
  have hpending : s.accepted ++ [chunk] = s.written ++ (s.pending ++ [chunk]) := by
    rw [horder, List.append_assoc]
  refine ⟨{ h.parking with },
    { h.sinking with closing := fun hc => ?_, settled := fun hover => ?_ },
    { h.flowing with order := hpending ▸ List.prefix_refl _, order_kept := fun _ => hpending }⟩
  · cases hclose.symm.trans hc
  · rw [show s.writable = .errored ∨ s.writable = .closed ↔ False by rw [hwritable]; simp] at hover
    exact hover.elim

theorem Inv.write (h : Inv options s) (chunk : I) : Inv options (s.write options chunk) := by
  unfold DuplexStream.write
  split
  · next hguard =>
    simp only [Bool.and_eq_true, decide_eq_true_eq, Bool.not_eq_true'] at hguard
    obtain ⟨hwritable, hnot⟩ := hguard
    have hclose := (no_close hnot).2
    obtain ⟨hparking, hsinking, hflowing⟩ := h.accept chunk hwritable hclose
    exact inv_advance hparking hsinking hflowing hclose (.inl hwritable)
  · exact h

theorem Inv.close (h : Inv options s) : Inv options (s.close options) := by
  unfold DuplexStream.close
  split
  · next hguard =>
    simp only [Bool.and_eq_true, Bool.or_eq_true, decide_eq_true_eq, Bool.not_eq_true'] at hguard
    obtain ⟨hopen, hnot⟩ := hguard
    have hclose := (no_close hnot).2
    refine inv_advance { h.parking with }
      { h.sinking with closing := fun hc => ?_, settled := fun hover => ?_ }
      { h.flowing with } hclose hopen
    · cases hclose.symm.trans hc
    · rcases hopen with hopen | hopen <;> simp [hopen] at hover
  · exact h

theorem Inv.abort (h : Inv options s) : Inv options s.abort := by
  unfold DuplexStream.abort
  split
  · next hwritable =>
    have hparking : Parking { s with writable := .erroring, pendingAbort := true } :=
      { h.parking with }
    have hsinking : Sinking { s with writable := .erroring, pendingAbort := true } := by
      refine ⟨fun hne => ?_, fun hc => ?_, fun hover => ?_, fun hrequested => ?_⟩
      · exact ⟨(h.sinking.in_flight hne).1, (h.sinking.in_flight hne).2.1, .inr rfl⟩
      · obtain ⟨hpending, hqueued, hstarted, -⟩ := h.sinking.closing hc
        exact ⟨hpending, hqueued, hstarted, .inr rfl⟩
      · simp at hover
      · refine (h.sinking.requested hrequested).imp_right fun hclosed => ?_
        rw [hwritable] at hclosed
        cases hclosed
    have hflowing : Flowing options { s with writable := .erroring, pendingAbort := true } :=
      { h.flowing with order_kept := fun _ => h.flowing.order_kept (by rw [hwritable]; simp) }
    dsimp only
    split
    · next hguard =>
      simp only [Bool.and_eq_true, decide_eq_true_eq, Bool.not_eq_true'] at hguard
      exact Ready.finishErroring ⟨hparking, hsinking, hflowing, hguard.1.1, hguard.1.2, hguard.2⟩
        (by simp)
    · next hguard =>
      refine ⟨hparking, hsinking, fun hstarted hidle hclose => absurd ?_ hguard, hflowing⟩
      simp [show s.sinkStarted = true from hstarted, show s.inFlightWrite = none from hidle,
        show s.inFlightClose = false from hclose]
  · exact h

/-- The promise of the sink's write has settled, and the sink is free. -/
theorem Inv.done (h : Inv options s) {id : Nat} {promise : SinkPromise}
    (hpromise : promise ≠ .pending) (hwrite : s.inFlightWrite = some ⟨id, promise⟩) :
    Ready options { s with inFlightWrite := none } ∧
      (s.writable = .writable ∨ s.writable = .erroring) := by
  obtain ⟨hstarted, hclose, hopen⟩ := h.sinking.in_flight (by rw [hwrite]; simp)
  have hnil : s.parkedWrites = [] := by
    rcases h.parking.parked with ⟨hnil, -⟩ | ⟨id', -, hpending⟩
    · exact hnil
    · cases hwrite.symm.trans hpending
      exact absurd rfl hpromise
  exact ⟨⟨⟨.inl ⟨hnil, fun _ => by simp⟩, h.parking.parked_open, h.parking.waiting,
    h.parking.close_queue, h.parking.again, h.parking.pulling⟩,
    ⟨fun hne => absurd rfl hne, h.sinking.closing, h.sinking.settled, h.sinking.requested⟩,
    { h.flowing with }, hstarted, rfl, hclose⟩, hopen⟩

theorem Inv.wrote (h : Inv options s) : Inv options (s.wrote options) := by
  unfold DuplexStream.wrote
  split
  · next id hwrite =>
    obtain ⟨hready, hopen⟩ := h.done (by simp) hwrite
    exact hready.advance hopen
  · next id hwrite =>
    obtain ⟨hready, hopen⟩ := h.done (by simp) hwrite
    refine hready.finishErroring ?_
    rcases hopen with hopen | hopen <;> simp [hopen]
  · exact h

theorem Inv.closed (h : Inv options s) : Inv options s.closed := by
  unfold DuplexStream.closed
  split
  · next hclose =>
    obtain ⟨hpending, hqueued, -, hopen⟩ := h.sinking.closing hclose
    have hidle : s.inFlightWrite = none := by
      cases hwrite : s.inFlightWrite with
      | none => rfl
      | some write =>
        cases hclose.symm.trans (h.sinking.in_flight (by rw [hwrite]; simp)).2.1
    exact ⟨{ h.parking with },
      ⟨fun hne => absurd hidle hne, (fun hc => by cases hc), fun _ => ⟨hpending, hqueued⟩,
        fun _ => .inr rfl⟩,
      fun _ _ _ => .inr (.inr rfl),
      { h.flowing with
        order_kept := fun _ =>
          h.flowing.order_kept (by rcases hopen with hopen | hopen <;> simp [hopen]) }⟩
  · exact h

/-! ## Runs -/

theorem inv_init : Inv options ({} : DuplexStream I O) := by
  refine ⟨⟨.inl ⟨rfl, fun _ => by simp⟩, fun hne => absurd rfl hne, ?_, ?_, ?_, ?_⟩,
    ⟨fun hne => absurd rfl hne, ?_, ?_, ?_⟩, ?_, ⟨List.prefix_refl _, fun _ _ => rfl, ?_, ?_,
      List.prefix_refl _, fun _ => rfl⟩⟩ <;> simp [Advanced]

theorem inv_step (h : Inv options s) (e : DuplexEvent I) : Inv options (step options s e) := by
  cases e with
  | starts =>
    rw [step]
    split
    · exact h
    · exact h.starts
  | sinkStarts =>
    rw [step]
    split
    · exact h
    · next hnot => exact h.sinkStarts (eq_false_of_ne_true hnot)
  | read => exact h.read
  | cancel => exact h.cancel
  | pulled => exact h.pulled
  | write chunk => exact h.write chunk
  | close => exact h.close
  | abort => exact h.abort
  | releaseParkedWrites => exact h.releaseParkedWrites
  | wrote => exact h.wrote
  | closed => exact h.closed

end DuplexStream

end Neemata.Common
