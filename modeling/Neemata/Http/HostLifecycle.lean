import Neemata.Http.ServerHost
import Neemata.Lib.Entries

/-!
# The socket of a server host

The invariant `Inv` of every run of `start` and `stop` says where each promise stands and in what
order the jobs are due: a `start` that waits for a close goes on before any later `stop` does, and
the `start` that has called a failed `bind` before any `stop` that waits for it. From it follow
that there is one socket at a time, that it is closed at most once, and that a failed bind is given
up. A `stop` that is called while a `start` waits for a close does not keep it from binding.
-/

namespace Neemata.Http

open Trace

/-- The bind whose outcome the job waited for. -/
def HostJob.bind? : HostJob → Option Nat
  | .startBound b | .stopCaught b | .stopResumed b => some b
  | _ => none

/-- A job of the end of a close. -/
def HostJob.ofClose : HostJob → Bool
  | .startCaught | .stopClosed _ => true
  | _ => false

/-- `x` may be due before `y` while `b` is bound. -/
def HostJob.Ordered (b : Nat) (x y : HostJob) : Prop :=
  (x = .stopResumed b → y ≠ .startCaught ∧ y ≠ .startResumed) ∧
    (x = .stopCaught b → y ≠ .startCaught) ∧ (x = .startCaught → y ≠ .stopResumed b)

namespace ServerHost

variable {s : ServerHost}

/-! ## The invariant -/

structure Inv (s : ServerHost) : Prop where
  bound_lt : ∀ b, s.bound = some b → b < s.binds.length
  gone : ∀ b < s.binds.length, s.bound ≠ some b → s.Over b
  closed_once : (s.closes.map HostClose.bind).Nodup
  closed : ∀ c ∈ s.closes, s.binds[c.bind]?.map HostBind.state = some .resolved ∧
    s.bound ≠ some c.bind
  bind_pending : ∀ (b : Nat) (r : HostBind), s.binds[b]? = some r → r.state = .pending →
    ∃ rest, r.reactions = .startBound b :: rest ∧
      ∀ j ∈ rest, j = .startBound b ∨ j = .stopCaught b
  bind_settled : ∀ (b : Nat) (r : HostBind), s.binds[b]? = some r → r.state ≠ .pending →
    r.reactions = []
  close_pending : ∀ (c : Nat) (r : HostClose), s.closes[c]? = some r → r.state = .pending →
    ∃ rest, r.reactions = .stopClosed c :: rest ∧ ∀ j ∈ rest, j = .startCaught
  close_settled : ∀ (c : Nat) (r : HostClose), s.closes[c]? = some r → r.state ≠ .pending →
    r.reactions = []
  /-- Jobs that are due have waited for a promise that has settled. -/
  due : ∀ j ∈ s.queue, ∀ (b : Nat), j.bind? = some b →
    ∃ r : HostBind, s.binds[b]? = some r ∧ r.state ≠ .pending
  in_progress : ∀ (c : Nat) (r : HostClose), s.closes[c]? = some r → r.state = .pending →
    s.closing = some c
  closing : ∀ c, s.closing = some c →
    c < s.closes.length ∧ s.bound = none ∧ .startResumed ∉ s.queue
  closing_pending : ∀ (c : Nat) (r : HostClose), s.closing = some c → s.closes[c]? = some r →
    r.state = .pending → s.queue.filter HostJob.ofClose = []
  /-- The `stop` that closes goes on before the starts that wait for it. -/
  closing_settled : ∀ (c : Nat) (r : HostClose), s.closing = some c → s.closes[c]? = some r →
    r.state ≠ .pending →
    ∃ rest, s.queue.filter HostJob.ofClose = .stopClosed c :: rest ∧ ∀ j ∈ rest, j = .startCaught
  not_closing : s.closing = none → ∀ c, .stopClosed c ∉ s.queue
  ordered : ∀ b, s.bound = some b → s.queue.Pairwise (HostJob.Ordered b)
  /-- The `start` that has called a failed bind goes on before the stops that wait for it. -/
  rejected : ∀ (b : Nat), s.bound = some b → s.binds[b]?.map HostBind.state = some .rejected →
    .stopResumed b ∉ s.queue ∧
      (s.queue.filter fun j => j.bind? = some b).head? = some (.startBound b)

theorem inv_init : Inv {} where
  bound_lt b h := by cases h
  gone b h := absurd h (Nat.not_lt_zero b)
  closed_once := List.nodup_nil
  closed c h := absurd h List.not_mem_nil
  bind_pending b r h := by cases h
  bind_settled b r h := by cases h
  close_pending c r h := by cases h
  close_settled c r h := by cases h
  due j h := absurd h List.not_mem_nil
  in_progress c r h := by cases h
  closing c h := by cases h
  closing_pending c r h := by cases h
  closing_settled c r h := by cases h
  not_closing _ c := List.not_mem_nil
  ordered b h := by cases h
  rejected b h := by cases h

theorem inv_last (h : Inv s) (last : Option HostCall) : Inv { s with last } :=
  ⟨h.bound_lt, h.gone, h.closed_once, h.closed, h.bind_pending, h.bind_settled, h.close_pending,
    h.close_settled, h.due, h.in_progress, h.closing, h.closing_pending, h.closing_settled,
    h.not_closing, h.ordered, h.rejected⟩

/-- While something is bound, no close is in progress. -/
theorem Inv.closing_none (h : Inv s) {b : Nat} (hb : s.bound = some b) : s.closing = none := by
  cases hc : s.closing with
  | none => rfl
  | some c =>
    have hbound := (h.closing c hc).2.1
    rw [hb] at hbound
    cases hbound

theorem head?_append {α : Type} {l m : List α} {a : α} (h : l.head? = some a) :
    (l ++ m).head? = some a := by
  rw [List.head?_append, h]
  rfl

/-! ## Jobs that are added -/

/-- A job of a settled bind, or of a `start` after a close, becomes due last. -/
theorem Inv.append (h : Inv s) {job : HostJob} (hclose : job.ofClose = false)
    (hdue : ∀ b, job.bind? = some b → ∃ r : HostBind, s.binds[b]? = some r ∧ r.state ≠ .pending)
    (hresumed : job = .startResumed → s.closing = none)
    (hordered : ∀ b, s.bound = some b → ∀ x ∈ s.queue, HostJob.Ordered b x job)
    (hrejected : ∀ b, s.bound = some b → s.binds[b]?.map HostBind.state = some .rejected →
      job ≠ .stopResumed b) : Inv { s with queue := s.queue ++ [job] } := { h with
  due j hj b hb := by
    rcases List.mem_append.mp hj with hj | hj
    · exact h.due j hj b hb
    · rw [List.mem_singleton.mp hj] at hb
      exact hdue b hb
  closing c hc := by
    obtain ⟨hlt, hbound, hno⟩ := h.closing c hc
    refine ⟨hlt, hbound, fun hmem => ?_⟩
    rcases List.mem_append.mp hmem with hmem | hmem
    · exact hno hmem
    · have hnone := hresumed (List.mem_singleton.mp hmem).symm
      rw [show s.closing = some c from hc] at hnone
      cases hnone
  closing_pending c r hc hr hp := by
    show (s.queue ++ [job]).filter _ = []
    rw [List.filter_append, h.closing_pending c r hc hr hp, List.filter_singleton, hclose]
    rfl
  closing_settled c r hc hr hp := by
    obtain ⟨rest, hrest, hall⟩ := h.closing_settled c r hc hr hp
    refine ⟨rest, ?_, hall⟩
    show (s.queue ++ [job]).filter _ = _
    rw [List.filter_append, hrest, List.filter_singleton, hclose]
    exact List.append_nil _
  not_closing hc c hmem := by
    rcases List.mem_append.mp hmem with hmem | hmem
    · exact h.not_closing hc c hmem
    · rw [← List.mem_singleton.mp hmem] at hclose
      cases hclose
  ordered b hb := by
    refine List.pairwise_append.mpr ⟨h.ordered b hb, List.pairwise_singleton _ _, ?_⟩
    intro x hx y hy
    rw [List.mem_singleton.mp hy]
    exact hordered b hb x hx
  rejected b hb hr := by
    obtain ⟨hno, hhead⟩ := h.rejected b hb hr
    refine ⟨fun hmem => ?_, ?_⟩
    · rcases List.mem_append.mp hmem with hmem | hmem
      · exact hno hmem
      · exact hrejected b hb hr (List.mem_singleton.mp hmem).symm
    · show ((s.queue ++ [job]).filter _).head? = _
      rw [List.filter_append]
      exact head?_append hhead }

/-! ## A job goes on -/

/-- A job that is due first is taken. -/
theorem Inv.pop {job : HostJob} {rest : List HostJob} (h : Inv s) (hq : s.queue = job :: rest)
    (hclose : job.ofClose = true → s.closing = none)
    (hbind : ∀ b, s.bound = some b → s.binds[b]?.map HostBind.state = some .rejected →
      job.bind? ≠ some b) : Inv { s with queue := rest } := { h with
  due j hj := h.due j (hq ▸ List.mem_cons_of_mem job hj)
  closing c hc := by
    obtain ⟨hlt, hbound, hno⟩ := h.closing c hc
    exact ⟨hlt, hbound, fun hmem => hno (hq ▸ List.mem_cons_of_mem job hmem)⟩
  closing_pending c r hc hr hp := by
    have hnil := h.closing_pending c r hc hr hp
    rw [hq, List.filter_cons] at hnil
    split at hnil
    · cases hnil
    · exact hnil
  closing_settled c r hc hr hp := by
    obtain ⟨tail, htail, hall⟩ := h.closing_settled c r hc hr hp
    refine ⟨tail, ?_, hall⟩
    rw [hq, List.filter_cons] at htail
    split at htail
    · next hof => exact absurd (hclose hof) (by rw [show s.closing = some c from hc]; simp)
    · exact htail
  not_closing hc c hmem := h.not_closing hc c (hq ▸ List.mem_cons_of_mem job hmem)
  ordered b hb := by
    have hordered := h.ordered b hb
    rw [hq] at hordered
    exact (List.pairwise_cons.mp hordered).2
  rejected b hb hr := by
    obtain ⟨hno, hhead⟩ := h.rejected b hb hr
    refine ⟨fun hmem => hno (hq ▸ List.mem_cons_of_mem job hmem), ?_⟩
    rw [hq, List.filter_cons, if_neg] at hhead
    · exact hhead
    · exact fun heq => hbind b hb hr (of_decide_eq_true heq) }

theorem Inv.unbind (h : Inv s) (hover : ∀ b, s.bound = some b → s.Over b) :
    Inv { s with bound := none } := { h with
  bound_lt b hb := by cases hb
  gone b hlt _ := by
    by_cases hb : s.bound = some b
    · exact hover b hb
    · exact h.gone b hlt hb
  closed c hc := ⟨(h.closed c hc).1, fun hb => by cases hb⟩
  closing c hc := ⟨(h.closing c hc).1, rfl, (h.closing c hc).2.2⟩
  ordered b hb := by cases hb
  rejected b hb := by cases hb }

/-- The first job of a failed bind that is still bound. -/
theorem Inv.first_of_rejected (h : Inv s) {job : HostJob} {rest : List HostJob} {b : Nat}
    (hq : s.queue = job :: rest) (hb : s.bound = some b)
    (hr : s.binds[b]?.map HostBind.state = some .rejected) (hjob : job.bind? = some b) :
    job = .startBound b := by
  have hhead := (h.rejected b hb hr).2
  rw [hq, List.filter_cons, if_pos (decide_eq_true hjob)] at hhead
  exact Option.some.inj hhead

theorem inv_startBound (h : Inv s) {b : Nat} {rest : List HostJob}
    (hq : s.queue = .startBound b :: rest) :
    Inv (startBound { s with queue := rest } b) := by
  unfold startBound
  split
  · next hb =>
    have hnone : Inv { s with bound := none } :=
      h.unbind fun b' hb' => .inl (Option.some.inj (hb.2.symm.trans hb') ▸ hb.1)
    exact hnone.pop hq (fun hof => by cases hof) fun b' hb' => by cases hb'
  · next hb =>
    refine h.pop hq (fun hof => by cases hof) fun b' hb' hr heq => hb ?_
    obtain rfl : b = b' := Option.some.inj heq
    exact ⟨hr, hb'⟩

/-- The jobs of the close in progress. -/
theorem Inv.ofClose_cases (h : Inv s) {c : Nat} (hc : s.closing = some c) :
    s.queue.filter HostJob.ofClose = [] ∨
      (∀ r, s.closes[c]? = some r → r.state ≠ .pending) ∧
        ∃ rest, s.queue.filter HostJob.ofClose = .stopClosed c :: rest ∧
          ∀ j ∈ rest, j = .startCaught := by
  obtain ⟨r, hr⟩ : ∃ r, s.closes[c]? = some r :=
    ⟨_, List.getElem?_eq_getElem (h.closing c hc).1⟩
  by_cases hp : r.state = .pending
  · exact .inl (h.closing_pending c r hc hr hp)
  · refine .inr ⟨fun r' hr' => ?_, h.closing_settled c r hc hr hp⟩
    rw [← Option.some.inj (hr.symm.trans hr')]
    exact hp

theorem inv_startCaught (h : Inv s) {throws : Bool} {rest : List HostJob}
    (hq : s.queue = .startCaught :: rest) :
    Inv (runJob { s with queue := rest } throws .startCaught) := by
  have hfirst : s.queue.filter HostJob.ofClose = .startCaught :: rest.filter HostJob.ofClose := by
    rw [hq]
    rfl
  have hnone : s.closing = none := by
    cases hc : s.closing with
    | none => rfl
    | some c =>
      obtain hnil | ⟨-, tail, htail, -⟩ := h.ofClose_cases hc
      · rw [hfirst] at hnil
        cases hnil
      · rw [hfirst] at htail
        cases htail
  have hpop := h.pop hq (fun _ => hnone) fun b _ _ heq => by cases heq
  refine hpop.append rfl (fun b hb => by cases hb) (fun _ => hnone) ?_ fun _ _ _ heq => by cases heq
  intro b hb x hx
  have hordered := h.ordered b hb
  rw [hq] at hordered
  have hbefore := (List.pairwise_cons.mp hordered).1 x hx
  refine ⟨fun heq => absurd heq (hbefore.2.2 rfl), fun _ heq => ?_, fun _ heq => ?_⟩ <;> cases heq

theorem inv_stopCaught (h : Inv s) {throws : Bool} {b : Nat} {rest : List HostJob}
    (hq : s.queue = .stopCaught b :: rest) :
    Inv (runJob { s with queue := rest } throws (.stopCaught b)) := by
  have hsome : ∀ b', s.bound = some b' → s.binds[b']?.map HostBind.state = some .rejected →
      b ≠ b' := by
    rintro b' hb' hr rfl
    have hfirst := h.first_of_rejected hq hb' hr rfl
    cases hfirst
  have hpop := h.pop hq (fun hof => by cases hof) fun b' hb' hr heq =>
    hsome b' hb' hr (Option.some.inj heq)
  refine hpop.append rfl ?_ (fun heq => by cases heq) ?_ ?_
  · intro b' hb'
    exact h.due (.stopCaught b) (hq ▸ List.mem_cons_self) b' hb'
  · intro b' hb' x hx
    have hordered := h.ordered b' hb'
    rw [hq] at hordered
    have hbefore := (List.pairwise_cons.mp hordered).1 x hx
    refine ⟨fun _ => ⟨fun heq => ?_, fun heq => ?_⟩, fun _ heq => ?_, fun hx' heq => ?_⟩
    · cases heq
    · cases heq
    · cases heq
    · obtain rfl : b = b' := HostJob.stopResumed.inj heq
      exact hbefore.2.1 rfl hx'
  · intro b' hb' hr heq
    exact hsome b' hb' hr (HostJob.stopResumed.inj heq)

theorem inv_stopClosed (h : Inv s) {throws : Bool} {c : Nat} {rest : List HostJob}
    (hq : s.queue = .stopClosed c :: rest) :
    Inv (runJob { s with queue := rest } throws (.stopClosed c)) := by
  have hfirst : s.queue.filter HostJob.ofClose = .stopClosed c :: rest.filter HostJob.ofClose := by
    rw [hq]
    rfl
  have hclosing : ∃ c', s.closing = some c' := by
    cases hc : s.closing with
    | none => exact absurd (hq ▸ List.mem_cons_self) (h.not_closing hc c)
    | some c' => exact ⟨c', rfl⟩
  obtain ⟨c', hc⟩ := hclosing
  obtain hnil | ⟨hsettled, tail, htail, hall⟩ := h.ofClose_cases hc
  · rw [hfirst] at hnil
    cases hnil
  rw [hfirst] at htail
  obtain ⟨hjob, hrest⟩ := List.cons.inj htail
  obtain rfl : c = c' := HostJob.stopClosed.inj hjob
  have hbound := (h.closing c hc).2.1
  have hmem : ∀ j ∈ rest, j ∈ s.queue := fun j hj => hq ▸ List.mem_cons_of_mem _ hj
  exact { h with
    due := fun j hj => h.due j (hmem j hj)
    in_progress := fun c' r hr hp => by
      obtain rfl : c = c' := Option.some.inj (hc.symm.trans (h.in_progress c' r hr hp))
      exact absurd hp (hsettled r hr)
    closing := fun _ hnone => by cases hnone
    closing_pending := fun _ _ hnone => by cases hnone
    closing_settled := fun _ _ hnone => by cases hnone
    not_closing := fun _ c' hc' => by
      have hfilter : .stopClosed c' ∈ rest.filter HostJob.ofClose :=
        List.mem_filter.mpr ⟨hc', rfl⟩
      rw [hrest] at hfilter
      cases hall _ hfilter
    ordered := fun b hb => by
      rw [show s.bound = some b from hb] at hbound
      cases hbound
    rejected := fun b hb => by
      rw [show s.bound = some b from hb] at hbound
      cases hbound }

/-! ## Binding -/

theorem awaitBind_of_pending {b : Nat} {job : HostJob} {reactions : List HostJob}
    (hb : s.binds[b]? = some ⟨.pending, reactions⟩) :
    s.awaitBind b job =
      { s with binds := s.binds.set b { reactions := reactions ++ [job] } } := by
  unfold awaitBind
  rw [hb]

theorem awaitBind_of_settled {b : Nat} {job : HostJob} {r : HostBind}
    (hb : s.binds[b]? = some r) (hr : r.state ≠ .pending) :
    s.awaitBind b job = { s with queue := s.queue ++ [job] } := by
  unfold awaitBind
  rw [hb]
  obtain ⟨state, reactions⟩ := r
  cases state with
  | pending => exact absurd rfl hr
  | resolved => rfl
  | rejected => rfl

/-- A job waits for a pending bind. -/
theorem Inv.wait (h : Inv s) {b : Nat} {job : HostJob} {reactions : List HostJob}
    (hb : s.binds[b]? = some ⟨.pending, reactions⟩)
    (hjob : job = .startBound b ∨ job = .stopCaught b) :
    Inv { s with binds := s.binds.set b { reactions := reactions ++ [job] } } := by
  have hstate : ∀ b' : Nat,
      (s.binds.set b { reactions := reactions ++ [job] })[b']?.map HostBind.state =
        s.binds[b']?.map HostBind.state := by
    intro b'
    by_cases heq : b = b'
    · subst heq
      rw [hb, List.getElem?_set_self (List.getElem?_eq_some_iff.mp hb).1]
      rfl
    · rw [List.getElem?_set_ne heq]
  have hover : ∀ b', s.Over b' →
      Over { s with binds := s.binds.set b { reactions := reactions ++ [job] } } b' :=
    fun b' => Or.imp_left (hstate b').trans
  exact { h with
    bound_lt := fun b' hb' => by
      rw [List.length_set]
      exact h.bound_lt b' hb'
    gone := fun b' hlt hne => hover b' (h.gone b' (by rwa [List.length_set] at hlt) hne)
    closed := fun c hc => ⟨(hstate c.bind).trans (h.closed c hc).1, (h.closed c hc).2⟩
    bind_pending := fun b' r hr hp => by
      rcases (getElem?_set_cases hb).mp hr with ⟨rfl, rfl⟩ | ⟨-, hr⟩
      · obtain ⟨rest, rfl, hall⟩ := h.bind_pending b _ hb rfl
        refine ⟨rest ++ [job], rfl, fun j hj => ?_⟩
        rcases List.mem_append.mp hj with hj | hj
        · exact hall j hj
        · rw [List.mem_singleton.mp hj]
          exact hjob
      · exact h.bind_pending b' r hr hp
    bind_settled := fun b' r hr hp => by
      rcases (getElem?_set_cases hb).mp hr with ⟨rfl, rfl⟩ | ⟨-, hr⟩
      · exact absurd rfl hp
      · exact h.bind_settled b' r hr hp
    due := fun j hj b' hb' => by
      obtain ⟨r, hr, hp⟩ := h.due j hj b' hb'
      refine ⟨r, ?_, hp⟩
      rw [List.getElem?_set_ne]
      · exact hr
      · rintro rfl
        rw [hb] at hr
        cases hr
        exact hp rfl
    rejected := fun b' hb' hr => h.rejected b' hb' ((hstate b').symm.trans hr) }

/-- A `start` or `stop` waits for what is bound. -/
theorem inv_awaitBind (h : Inv s) {b : Nat} {job : HostJob} (hbound : s.bound = some b)
    (hjob : job = .startBound b ∨ job = .stopCaught b) : Inv (s.awaitBind b job) := by
  obtain ⟨⟨state, reactions⟩, hb⟩ : ∃ r, s.binds[b]? = some r :=
    ⟨_, List.getElem?_eq_getElem (h.bound_lt b hbound)⟩
  by_cases hp : state = .pending
  · subst hp
    rw [awaitBind_of_pending hb]
    exact h.wait hb hjob
  · rw [awaitBind_of_settled hb hp]
    refine h.append ?_ (fun b' hb' => ⟨⟨state, reactions⟩, ?_, hp⟩) (fun hres => ?_) ?_
      fun _ _ _ hres => ?_
    · rcases hjob with rfl | rfl <;> rfl
    · have heq : job.bind? = some b := by rcases hjob with rfl | rfl <;> rfl
      rw [← Option.some.inj (heq.symm.trans hb')]
      exact hb
    · rcases hjob with rfl | rfl <;> cases hres
    · intro b' _ x _
      rcases hjob with rfl | rfl <;> simp [HostJob.Ordered]
    · rcases hjob with rfl | rfl <;> cases hres

/-- `bind` is called: it throws, or gives the promise of what is bound from now on. -/
theorem Inv.bind (h : Inv s) (hclosing : s.closing = none) (hbound : s.bound = none)
    {bound : Option Nat} {a : HostBind}
    (ha : bound = none ∧ a = ⟨.rejected, []⟩ ∨
      bound = some s.binds.length ∧ a = ⟨.pending, [.startBound s.binds.length]⟩) :
    Inv { s with bound, binds := s.binds ++ [a] } := by
  have hlt : ∀ {b : Nat} {r : HostBind}, s.binds[b]? = some r → b < s.binds.length :=
    fun hr => (List.getElem?_eq_some_iff.mp hr).1
  have hlast : ∀ {b : Nat}, bound = some b → b = s.binds.length ∧
      a = ⟨.pending, [.startBound s.binds.length]⟩ := by
    intro b hb
    rcases ha with ⟨rfl, -⟩ | ⟨rfl, ha⟩
    · cases hb
    · exact ⟨(Option.some.inj hb).symm, ha⟩
  exact { h with
    bound_lt := fun b hb => by
      rw [(hlast hb).1, List.length_append]
      exact Nat.lt_succ_self _
    gone := fun b hb hne => by
      rw [List.length_append, List.length_singleton] at hb
      by_cases heq : b = s.binds.length
      · subst heq
        rcases ha with ⟨-, rfl⟩ | ⟨rfl, -⟩
        · refine .inl ?_
          rw [List.getElem?_concat_length]
          rfl
        · exact absurd rfl hne
      · have hb' : b < s.binds.length := by omega
        refine (h.gone b hb' (by rw [hbound]; simp)).imp_left fun hr => ?_
        rw [List.getElem?_append_left hb']
        exact hr
    closed := fun c hc => by
      have hr := (h.closed c hc).1
      obtain ⟨r, hget, -⟩ := Option.map_eq_some_iff.mp hr
      refine ⟨?_, fun heq => ?_⟩
      · rw [List.getElem?_append_left (hlt hget)]
        exact hr
      · exact Nat.lt_irrefl _ ((hlast heq).1 ▸ hlt hget)
    bind_pending := fun b r hr hp => by
      rcases getElem?_concat_iff.mp hr with hr | ⟨rfl, rfl⟩
      · exact h.bind_pending b r hr hp
      · rcases ha with ⟨-, rfl⟩ | ⟨-, rfl⟩
        · cases hp
        · exact ⟨[], rfl, fun _ hj => absurd hj List.not_mem_nil⟩
    bind_settled := fun b r hr hp => by
      rcases getElem?_concat_iff.mp hr with hr | ⟨rfl, rfl⟩
      · exact h.bind_settled b r hr hp
      · rcases ha with ⟨-, rfl⟩ | ⟨-, rfl⟩
        · rfl
        · exact absurd rfl hp
    due := fun j hj b hb => by
      obtain ⟨r, hr, hp⟩ := h.due j hj b hb
      refine ⟨r, ?_, hp⟩
      rw [List.getElem?_append_left (hlt hr)]
      exact hr
    closing := fun c hc => by
      rw [show s.closing = some c from hc] at hclosing
      cases hclosing
    ordered := fun b hb => by
      obtain rfl := (hlast hb).1
      have hold : ∀ x ∈ s.queue, x.bind? ≠ some s.binds.length := by
        intro x hx heq
        obtain ⟨r, hr, -⟩ := h.due x hx _ heq
        exact Nat.lt_irrefl _ (hlt hr)
      refine List.pairwise_of_forall_mem_list fun x hx y hy => ⟨?_, ?_, ?_⟩
      · rintro rfl
        exact absurd rfl (hold _ hx)
      · rintro rfl
        exact absurd rfl (hold _ hx)
      · rintro - rfl
        exact hold _ hy rfl
    rejected := fun b hb hr => by
      obtain ⟨rfl, rfl⟩ := hlast hb
      rw [List.getElem?_concat_length] at hr
      cases hr }

theorem inv_join (h : Inv s) (hclosing : s.closing = none) (throws : Bool) :
    Inv (s.join throws) := by
  unfold join
  split
  · next b hb => exact inv_awaitBind h hb (.inl rfl)
  · next hbound =>
    split
    · have hthrown := h.bind hclosing hbound (.inl ⟨rfl, rfl⟩)
      rw [← hbound] at hthrown
      exact hthrown
    · exact h.bind hclosing hbound (.inr ⟨rfl, rfl⟩)

/-! ## Closing -/

theorem map_bind_set {l : List HostClose} {c : Nat} {r r' : HostClose} (hc : l[c]? = some r)
    (hr : r'.bind = r.bind) : (l.set c r').map HostClose.bind = l.map HostClose.bind := by
  obtain ⟨hlt, rfl⟩ := List.getElem?_eq_some_iff.mp hc
  rw [List.map_set, hr, ← List.getElem_map HostClose.bind, List.set_getElem_self]
  simpa using hlt

theorem mem_set_bind {l : List HostClose} {c : Nat} {r r' a : HostClose} (hc : l[c]? = some r)
    (ha : a ∈ l.set c r') (hr : r'.bind = r.bind) : ∃ a' ∈ l, a'.bind = a.bind := by
  rcases List.mem_or_eq_of_mem_set ha with ha | rfl
  · exact ⟨a, ha, rfl⟩
  · exact ⟨r, List.mem_of_getElem? hc, hr.symm⟩

theorem awaitClose_of_pending {c b : Nat} {job : HostJob} {reactions : List HostJob}
    (hc : s.closes[c]? = some ⟨b, .pending, reactions⟩) :
    s.awaitClose c job =
      { s with closes := s.closes.set c { bind := b, reactions := reactions ++ [job] } } := by
  unfold awaitClose
  rw [hc]

theorem awaitClose_of_settled {c : Nat} {job : HostJob} {r : HostClose}
    (hc : s.closes[c]? = some r) (hr : r.state ≠ .pending) :
    s.awaitClose c job = { s with queue := s.queue ++ [job] } := by
  unfold awaitClose
  rw [hc]
  obtain ⟨b, state, reactions⟩ := r
  cases state with
  | pending => exact absurd rfl hr
  | resolved => rfl
  | rejected => rfl

/-- A `start` waits for the close in progress. -/
theorem inv_awaitClose (h : Inv s) {c : Nat} (hclosing : s.closing = some c) :
    Inv (s.awaitClose c .startCaught) := by
  obtain ⟨hlt, hbound, hno⟩ := h.closing c hclosing
  obtain ⟨⟨b, state, reactions⟩, hc⟩ : ∃ r, s.closes[c]? = some r :=
    ⟨_, List.getElem?_eq_getElem hlt⟩
  have hunbound : ∀ {P : Prop} (b' : Nat), s.bound = some b' → P := fun b' hb' => by
    rw [hbound] at hb'
    cases hb'
  by_cases hp : state = .pending
  · subst hp
    rw [awaitClose_of_pending hc]
    have hmap : (s.closes.set c { bind := b, reactions := reactions ++ [.startCaught] }).map
        HostClose.bind = s.closes.map HostClose.bind := map_bind_set hc rfl
    exact { h with
      gone := fun b' hlt hne => (h.gone b' hlt hne).imp_right fun hmem =>
        hmap.symm ▸ hmem
      closed_once := hmap.symm ▸ h.closed_once
      closed := fun a ha => by
        obtain ⟨a', ha', hbind⟩ := mem_set_bind hc ha rfl
        rw [← hbind]
        exact h.closed a' ha'
      close_pending := fun c' r hr hp => by
        rcases (getElem?_set_cases hc).mp hr with ⟨rfl, rfl⟩ | ⟨-, hr⟩
        · obtain ⟨rest, rfl, hall⟩ := h.close_pending c _ hc rfl
          refine ⟨rest ++ [.startCaught], rfl, fun j hj => ?_⟩
          rcases List.mem_append.mp hj with hj | hj
          · exact hall j hj
          · exact List.mem_singleton.mp hj
        · exact h.close_pending c' r hr hp
      close_settled := fun c' r hr hp => by
        rcases (getElem?_set_cases hc).mp hr with ⟨rfl, rfl⟩ | ⟨-, hr⟩
        · exact absurd rfl hp
        · exact h.close_settled c' r hr hp
      in_progress := fun c' r hr hp => by
        rcases (getElem?_set_cases hc).mp hr with ⟨rfl, -⟩ | ⟨-, hr⟩
        · exact hclosing
        · exact h.in_progress c' r hr hp
      closing := fun c' hc' => by
        rw [List.length_set]
        exact h.closing c' hc'
      closing_pending := fun c' r hc' hr hp => by
        rcases (getElem?_set_cases hc).mp hr with ⟨rfl, -⟩ | ⟨-, hr⟩
        · exact h.closing_pending c _ hclosing hc rfl
        · exact h.closing_pending c' r hc' hr hp
      closing_settled := fun c' r hc' hr hp => by
        rcases (getElem?_set_cases hc).mp hr with ⟨rfl, rfl⟩ | ⟨-, hr⟩
        · exact absurd rfl hp
        · exact h.closing_settled c' r hc' hr hp }
  · rw [awaitClose_of_settled hc hp]
    exact { h with
      due := fun j hj b' hb' => by
        rcases List.mem_append.mp hj with hj | hj
        · exact h.due j hj b' hb'
        · rw [List.mem_singleton.mp hj] at hb'
          cases hb'
      closing := fun c' hc' => by
        obtain ⟨hlt', hbound', hno'⟩ := h.closing c' hc'
        refine ⟨hlt', hbound', fun hmem => ?_⟩
        rcases List.mem_append.mp hmem with hmem | hmem
        · exact hno' hmem
        · cases List.mem_singleton.mp hmem
      closing_pending := fun c' r hc' hr hpending => by
        obtain rfl : c = c' := Option.some.inj (hclosing.symm.trans hc')
        cases hc.symm.trans hr
        exact absurd hpending hp
      closing_settled := fun c' r hc' hr hsettled => by
        obtain ⟨rest, hrest, hall⟩ := h.closing_settled c' r hc' hr hsettled
        refine ⟨rest ++ [.startCaught], ?_, fun j hj => ?_⟩
        · rw [List.filter_append, hrest]
          rfl
        · rcases List.mem_append.mp hj with hj | hj
          · exact hall j hj
          · exact List.mem_singleton.mp hj
      not_closing := fun hnone => by
        rw [show s.closing = none from hnone] at hclosing
        cases hclosing
      ordered := fun b' hb' => hunbound b' hb'
      rejected := fun b' hb' => hunbound b' hb' }

/-- The close of what is bound. -/
theorem Inv.close (h : Inv s) {b : Nat} (hbound : s.bound = some b)
    (hresolved : s.binds[b]?.map HostBind.state = some .resolved)
    (hqueue : ∀ j ∈ s.queue, j ≠ .startCaught ∧ j ≠ .startResumed) :
    Inv { s with
      bound := none
      closing := some s.closes.length
      closes := s.closes ++ [{ bind := b, reactions := [.stopClosed s.closes.length] }] } := by
  have hclosing := h.closing_none hbound
  have hfresh : b ∉ s.closes.map HostClose.bind := fun hmem => by
    obtain ⟨c, hc, rfl⟩ := List.mem_map.mp hmem
    exact (h.closed c hc).2 hbound
  have hnone : s.queue.filter HostJob.ofClose = [] := by
    refine List.filter_eq_nil_iff.mpr fun j hj hof => ?_
    cases j with
    | startCaught => exact (hqueue _ hj).1 rfl
    | stopClosed c => exact h.not_closing hclosing c hj
    | _ => cases hof
  exact { h with
    bound_lt := fun b' hb' => by cases hb'
    gone := fun b' hlt _ => by
      show _ ∨ b' ∈ (s.closes ++ _).map _
      rw [List.map_append]
      by_cases hb' : b' = b
      · exact .inr (List.mem_append_right _ (hb' ▸ List.mem_singleton_self _))
      · have hne : s.bound ≠ some b' := fun heq =>
          hb' (Option.some.inj (heq.symm.trans hbound))
        exact (h.gone b' hlt hne).imp_right (List.mem_append_left _)
    closed_once := by
      rw [List.map_append]
      refine List.nodup_append.mpr ⟨h.closed_once, List.pairwise_singleton _ _, ?_⟩
      rintro a ha b' hb' rfl
      rw [List.map_singleton, List.mem_singleton] at hb'
      rw [hb'] at ha
      exact hfresh ha
    closed := fun c hc => by
      refine ⟨?_, fun heq => by cases heq⟩
      rcases List.mem_append.mp hc with hc | hc
      · exact (h.closed c hc).1
      · rw [List.mem_singleton.mp hc]
        exact hresolved
    close_pending := fun c r hr hp => by
      rcases getElem?_concat_iff.mp hr with hr | ⟨rfl, rfl⟩
      · exact h.close_pending c r hr hp
      · exact ⟨[], rfl, fun _ hj => absurd hj List.not_mem_nil⟩
    close_settled := fun c r hr hp => by
      rcases getElem?_concat_iff.mp hr with hr | ⟨rfl, rfl⟩
      · exact h.close_settled c r hr hp
      · exact absurd rfl hp
    in_progress := fun c r hr hp => by
      rcases getElem?_concat_iff.mp hr with hr | ⟨rfl, -⟩
      · have hold := h.in_progress c r hr hp
        rw [hclosing] at hold
        cases hold
      · rfl
    closing := fun c hc => by
      obtain rfl := Option.some.inj hc
      refine ⟨?_, rfl, fun hmem => (hqueue _ hmem).2 rfl⟩
      rw [List.length_append]
      exact Nat.lt_succ_self _
    closing_pending := fun _ _ _ _ _ => hnone
    closing_settled := fun c r hc hr hp => by
      obtain rfl := Option.some.inj hc
      rw [List.getElem?_concat_length] at hr
      cases hr
      exact absurd rfl hp
    not_closing := fun hnone => by cases hnone
    ordered := fun _ hb' => by cases hb'
    rejected := fun _ hb' => by cases hb' }

theorem inv_stopResumed (h : Inv s) {b : Nat} {rest : List HostJob}
    (hq : s.queue = .stopResumed b :: rest) :
    Inv (stopResumed { s with queue := rest } b) := by
  have hmem : .stopResumed b ∈ s.queue := hq ▸ List.mem_cons_self
  have hsome : ∀ b', s.bound = some b' → s.binds[b']?.map HostBind.state = some .rejected →
      b ≠ b' := by
    rintro b' hb' hr rfl
    exact (h.rejected b hb' hr).1 hmem
  have hpop := h.pop hq (fun hof => by cases hof) fun b' hb' hr heq =>
    hsome b' hb' hr (Option.some.inj heq)
  unfold stopResumed
  split
  · next hbound =>
    refine hpop.close hbound ?_ fun j hj => ?_
    · obtain ⟨r, hr, hp⟩ := h.due _ hmem b rfl
      have hnot := fun hr => hsome b hbound hr rfl
      rw [hr] at hnot
      show s.binds[b]?.map HostBind.state = some .resolved
      rw [hr]
      cases hstate : r.state with
      | pending => exact absurd hstate hp
      | resolved => exact congrArg some hstate
      | rejected => exact absurd (congrArg some hstate) hnot
    · have hordered := h.ordered b hbound
      rw [hq] at hordered
      exact ((List.pairwise_cons.mp hordered).1 j hj).1 rfl
  · exact hpop

/-! ## Promises settle -/

theorem outcome_ne (resolves : Bool) : outcome resolves ≠ .pending := by
  cases resolves <;> simp [outcome]

theorem ordered_of_waits {b b' : Nat} {x y : HostJob}
    (hy : y = .startBound b ∨ y = .stopCaught b) : HostJob.Ordered b' x y := by
  rcases hy with rfl | rfl <;> simp [HostJob.Ordered]

theorem inv_bindSettles (h : Inv s) {b : Nat} {reactions : List HostJob}
    (hb : s.binds[b]? = some ⟨.pending, reactions⟩) (resolves : Bool) :
    Inv { s with
      binds := s.binds.set b { state := outcome resolves, reactions := [] }
      queue := s.queue ++ reactions } := by
  obtain ⟨waits, rfl, hwaits⟩ := h.bind_pending b _ hb rfl
  have hjob : ∀ j ∈ .startBound b :: waits, j = .startBound b ∨ j = .stopCaught b :=
    List.forall_mem_cons.mpr ⟨.inl rfl, hwaits⟩
  have hne : ∀ (b' : Nat) (r : HostBind), s.binds[b']? = some r → r.state ≠ .pending → b ≠ b' := by
    rintro b' r hr hp rfl
    cases hb.symm.trans hr
    exact hp rfl
  have hold : ∀ (b' : Nat) (r : HostBind), s.binds[b']? = some r → r.state ≠ .pending →
      (s.binds.set b { state := outcome resolves, reactions := [] })[b']? = some r := by
    intro b' r hr hp
    rw [List.getElem?_set_ne (hne b' r hr hp)]
    exact hr
  have hfilter : (HostJob.startBound b :: waits).filter HostJob.ofClose = [] := by
    refine List.filter_eq_nil_iff.mpr fun j hj hof => ?_
    rcases hjob j hj with rfl | rfl <;> cases hof
  exact { h with
    bound_lt := fun b' hb' => by
      rw [List.length_set]
      exact h.bound_lt b' hb'
    gone := fun b' hlt hbound => by
      rw [List.length_set] at hlt
      refine (h.gone b' hlt hbound).imp_left fun hr => ?_
      obtain ⟨r, hget, hstate⟩ := Option.map_eq_some_iff.mp hr
      show (s.binds.set b _)[b']?.map _ = _
      rw [hold b' r hget (by rw [hstate]; simp)]
      exact congrArg some hstate
    closed := fun c hc => by
      obtain ⟨hr, hbound⟩ := h.closed c hc
      obtain ⟨r, hget, hstate⟩ := Option.map_eq_some_iff.mp hr
      refine ⟨?_, hbound⟩
      rw [hold c.bind r hget (by rw [hstate]; simp)]
      exact congrArg some hstate
    bind_pending := fun b' r hr hp => by
      rcases (getElem?_set_cases hb).mp hr with ⟨rfl, rfl⟩ | ⟨-, hr⟩
      · exact absurd hp (outcome_ne resolves)
      · exact h.bind_pending b' r hr hp
    bind_settled := fun b' r hr hp => by
      rcases (getElem?_set_cases hb).mp hr with ⟨rfl, rfl⟩ | ⟨-, hr⟩
      · rfl
      · exact h.bind_settled b' r hr hp
    due := fun j hj b' hb' => by
      rcases List.mem_append.mp hj with hj | hj
      · obtain ⟨r, hr, hp⟩ := h.due j hj b' hb'
        exact ⟨r, hold b' r hr hp, hp⟩
      · have heq : j.bind? = some b := by rcases hjob j hj with rfl | rfl <;> rfl
        obtain rfl := Option.some.inj (heq.symm.trans hb')
        exact ⟨_, List.getElem?_set_self (List.getElem?_eq_some_iff.mp hb).1, outcome_ne resolves⟩
    closing := fun c hc => by
      obtain ⟨hlt, hbound, hno⟩ := h.closing c hc
      refine ⟨hlt, hbound, fun hmem => ?_⟩
      rcases List.mem_append.mp hmem with hmem | hmem
      · exact hno hmem
      · rcases hjob _ hmem with heq | heq <;> cases heq
    closing_pending := fun c r hc hr hp => by
      show (s.queue ++ _).filter _ = []
      rw [List.filter_append, hfilter, List.append_nil]
      exact h.closing_pending c r hc hr hp
    closing_settled := fun c r hc hr hp => by
      show ∃ rest, (s.queue ++ _).filter _ = _ ∧ _
      rw [List.filter_append, hfilter, List.append_nil]
      exact h.closing_settled c r hc hr hp
    not_closing := fun hc c hmem => by
      rcases List.mem_append.mp hmem with hmem | hmem
      · exact h.not_closing hc c hmem
      · rcases hjob _ hmem with heq | heq <;> cases heq
    ordered := fun b' hb' => by
      refine List.pairwise_append.mpr ⟨h.ordered b' hb', ?_, ?_⟩
      · exact List.pairwise_of_forall_mem_list fun x _ y hy => ordered_of_waits (hjob y hy)
      · exact fun x _ y hy => ordered_of_waits (hjob y hy)
    rejected := fun b' hb' hr => by
      by_cases heq : b = b'
      · subst heq
        have hnone : ∀ j ∈ s.queue, j.bind? ≠ some b := by
          intro j hj heq
          obtain ⟨r, hget, hp⟩ := h.due j hj b heq
          exact hne b r hget hp rfl
        refine ⟨fun hmem => ?_, ?_⟩
        · rcases List.mem_append.mp hmem with hmem | hmem
          · exact hnone _ hmem rfl
          · rcases hjob _ hmem with heq | heq <;> cases heq
        · have hnil : s.queue.filter (fun j => j.bind? = some b) = [] :=
            List.filter_eq_nil_iff.mpr fun j hj heq => hnone j hj (of_decide_eq_true heq)
          show ((s.queue ++ _).filter _).head? = _
          rw [List.filter_append, hnil, List.nil_append, List.filter_cons_of_pos]
          · rfl
          · exact decide_eq_true rfl
      · have hr' : s.binds[b']?.map HostBind.state = some .rejected := by
          rw [← hr, List.getElem?_set_ne heq]
        obtain ⟨hno, hhead⟩ := h.rejected b' hb' hr'
        refine ⟨fun hmem => ?_, ?_⟩
        · rcases List.mem_append.mp hmem with hmem | hmem
          · exact hno hmem
          · rcases hjob _ hmem with heq | heq <;> cases heq
        · show ((s.queue ++ _).filter _).head? = _
          rw [List.filter_append]
          exact head?_append hhead }

theorem inv_closeSettles (h : Inv s) {c b : Nat} {reactions : List HostJob}
    (hc : s.closes[c]? = some ⟨b, .pending, reactions⟩) (resolves : Bool) :
    Inv { s with
      closes := s.closes.set c { bind := b, state := outcome resolves, reactions := [] }
      queue := s.queue ++ reactions } := by
  have hclosing := h.in_progress c _ hc rfl
  have hnone := h.closing_pending c _ hclosing hc rfl
  obtain ⟨waits, rfl, hwaits⟩ := h.close_pending c _ hc rfl
  have hjob : ∀ j ∈ .stopClosed c :: waits, j = .stopClosed c ∨ j = .startCaught :=
    List.forall_mem_cons.mpr ⟨.inl rfl, fun j hj => .inr (hwaits j hj)⟩
  have hbound := (h.closing c hclosing).2.1
  have hunbound : ∀ {P : Prop} (b' : Nat), s.bound = some b' → P := fun b' hb' => by
    rw [hbound] at hb'
    cases hb'
  have hmap : (s.closes.set c { bind := b, state := outcome resolves, reactions := [] }).map
      HostClose.bind = s.closes.map HostClose.bind := map_bind_set hc rfl
  exact { h with
    gone := fun b' hlt hne => (h.gone b' hlt hne).imp_right fun hmem => hmap.symm ▸ hmem
    closed_once := hmap.symm ▸ h.closed_once
    closed := fun a ha => by
      obtain ⟨a', ha', hbind⟩ := mem_set_bind hc ha rfl
      rw [← hbind]
      exact h.closed a' ha'
    close_pending := fun c' r hr hp => by
      rcases (getElem?_set_cases hc).mp hr with ⟨rfl, rfl⟩ | ⟨-, hr⟩
      · exact absurd hp (outcome_ne resolves)
      · exact h.close_pending c' r hr hp
    close_settled := fun c' r hr hp => by
      rcases (getElem?_set_cases hc).mp hr with ⟨rfl, rfl⟩ | ⟨-, hr⟩
      · rfl
      · exact h.close_settled c' r hr hp
    due := fun j hj b' hb' => by
      rcases List.mem_append.mp hj with hj | hj
      · exact h.due j hj b' hb'
      · rcases hjob j hj with rfl | rfl <;> cases hb'
    in_progress := fun c' r hr hp => by
      rcases (getElem?_set_cases hc).mp hr with ⟨rfl, rfl⟩ | ⟨-, hr⟩
      · exact absurd hp (outcome_ne resolves)
      · exact h.in_progress c' r hr hp
    closing := fun c' hc' => by
      obtain ⟨hlt, hbound', hno⟩ := h.closing c' hc'
      refine ⟨(List.length_set).symm ▸ hlt, hbound', fun hmem => ?_⟩
      rcases List.mem_append.mp hmem with hmem | hmem
      · exact hno hmem
      · rcases hjob _ hmem with heq | heq <;> cases heq
    closing_pending := fun c' r hc' hr hp => by
      rcases (getElem?_set_cases hc).mp hr with ⟨rfl, rfl⟩ | ⟨hne, -⟩
      · exact absurd hp (outcome_ne resolves)
      · exact absurd (Option.some.inj (hclosing.symm.trans hc')) hne
    closing_settled := fun c' r hc' _ _ => by
      obtain rfl := Option.some.inj (hclosing.symm.trans hc')
      refine ⟨waits, ?_, hwaits⟩
      show (s.queue ++ _).filter _ = _
      rw [List.filter_append, hnone, List.nil_append, List.filter_eq_self]
      intro j hj
      rcases hjob j hj with rfl | rfl <;> rfl
    not_closing := fun hnone => by
      rw [show s.closing = none from hnone] at hclosing
      cases hclosing
    ordered := fun b' hb' => hunbound b' hb'
    rejected := fun b' hb' => hunbound b' hb' }

/-! ## Runs -/

theorem inv_start (h : Inv s) (valid throws : Bool) : Inv (s.start valid throws) := by
  unfold start
  split
  · split
    · next c hc => exact inv_awaitClose h hc
    · next hc => exact inv_join h hc throws
  · exact h

theorem inv_stop (h : Inv s) : Inv s.stop := by
  unfold stop
  split
  · exact h
  · next b hb => exact inv_awaitBind h hb (.inr rfl)

theorem inv_job (h : Inv s) (throws : Bool) {job : HostJob} {rest : List HostJob}
    (hq : s.queue = job :: rest) : Inv (runJob { s with queue := rest } throws job) := by
  cases job with
  | startCaught => exact inv_startCaught h hq
  | startResumed =>
    have hpop := h.pop hq (fun hof => by cases hof) fun b _ _ heq => by cases heq
    refine inv_join hpop ?_ throws
    cases hc : s.closing with
    | none => rfl
    | some c => exact absurd (hq ▸ List.mem_cons_self) (h.closing c hc).2.2
  | startBound b => exact inv_startBound h hq
  | stopCaught b => exact inv_stopCaught h hq
  | stopResumed b => exact inv_stopResumed h hq
  | stopClosed c => exact inv_stopClosed h hq

theorem inv_step (h : Inv s) (e : HostEvent) : Inv (step s e) := by
  cases e with
  | start valid throws => exact inv_last (inv_start h valid throws) _
  | stop => exact inv_last (inv_stop h) _
  | job throws =>
    rw [step]
    split
    · exact h
    · next job rest hq => exact inv_job h throws hq
  | bindSettles b resolves =>
    rw [step]
    split
    · next reactions hb => exact inv_bindSettles h hb resolves
    · exact h
  | closeSettles c resolves =>
    rw [step]
    split
    · next b reactions hc => exact inv_closeSettles h hc resolves
    · exact h

theorem inv_run (events : List HostEvent) : Inv (run step {} events) :=
  run_inv step (P := fun _ => True) (I := Inv) (fun _ e _ h => inv_step h e)
    (fun _ _ => trivial) inv_init

end ServerHost

end Neemata.Http
