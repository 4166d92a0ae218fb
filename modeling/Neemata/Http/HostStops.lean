import Neemata.Http.HostLifecycle

/-!
# What a server host keeps to

In every run there is one socket at a time (`guarded_run`). After a last `stop` nothing is bound
either, unless a `start` that has waited for a close binds behind the back of that `stop`: the
`stop` has found nothing bound, and has returned.
-/

namespace Neemata.Http

open Trace

namespace ServerHost

variable {s : ServerHost}

/-- One socket at a time, closed at most once, and given up when its bind fails. -/
structure Guarded (s : ServerHost) : Prop where
  bind_alone : ∀ e, s.binds.length < (step s e).binds.length → s.Unbound ∧ ¬ s.Closing
  closed_once : (s.closes.map HostClose.bind).Nodup
  closed_bound : ∀ c ∈ s.closes, s.binds[c.bind]?.map HostBind.state = some .resolved
  /-- Once the `start` that has called a failed bind has gone on, the bind is given up. -/
  given_up : ∀ b : Nat, s.binds[b]?.map HostBind.state = some .rejected →
    .startBound b ∉ s.queue → s.bound ≠ some b
  startable : s.Settled → s.Unbound → ∀ throws,
    (step s (.start true throws)).binds.length = s.binds.length + 1

structure Sound (s : ServerHost) : Prop extends Guarded s where
  stopped : s.Settled → s.last = some .stop → s.Unbound

/-! ## In every run -/

theorem length_awaitBind (b : Nat) (job : HostJob) :
    (s.awaitBind b job).binds.length = s.binds.length := by
  unfold awaitBind
  split
  · exact List.length_set
  · rfl

theorem binds_awaitClose (c : Nat) (job : HostJob) : (s.awaitClose c job).binds = s.binds := by
  unfold awaitClose
  split <;> rfl

theorem bound_of_join {throws : Bool} (h : s.binds.length < (s.join throws).binds.length) :
    s.bound = none := by
  unfold join at h
  split at h
  · rw [length_awaitBind] at h
    exact absurd h (Nat.lt_irrefl _)
  · assumption

theorem Inv.unbound (h : Inv s) (hbound : s.bound = none) : s.Unbound := fun b hb =>
  h.gone b hb (by rw [hbound]; simp)

theorem Inv.no_close (h : Inv s) (hclosing : s.closing = none) : ¬ s.Closing := by
  rintro ⟨r, hr, hp⟩
  obtain ⟨c, hc⟩ := List.mem_iff_getElem?.mp hr
  rw [h.in_progress c r hc hp] at hclosing
  cases hclosing

theorem Inv.bind_alone (h : Inv s) (e : HostEvent)
    (hlt : s.binds.length < (step s e).binds.length) : s.Unbound ∧ ¬ s.Closing := by
  have hjoin : ∀ (queue : List HostJob) (throws : Bool), s.closing = none →
      s.binds.length < (join { s with queue } throws).binds.length →
      s.Unbound ∧ ¬ s.Closing := by
    intro queue throws hc hlt
    have hbound := bound_of_join (s := { s with queue }) hlt
    exact ⟨h.unbound hbound, h.no_close hc⟩
  have hirrefl : ∀ {n : Nat} {P : Prop}, n < n → P := fun hn => absurd hn (Nat.lt_irrefl _)
  cases e with
  | start valid throws =>
    rw [step, start] at hlt
    split at hlt
    · split at hlt
      · rw [binds_awaitClose] at hlt
        exact hirrefl hlt
      · next hc => exact hjoin s.queue throws hc hlt
    · exact hirrefl hlt
  | stop =>
    rw [step, stop] at hlt
    split at hlt
    · exact hirrefl hlt
    · rw [length_awaitBind] at hlt
      exact hirrefl hlt
  | job throws =>
    rw [step] at hlt
    split at hlt
    · exact hirrefl hlt
    next job rest hq =>
    cases job with
    | startResumed =>
      refine hjoin rest throws ?_ hlt
      cases hc : s.closing with
      | none => rfl
      | some c => exact absurd (hq ▸ List.mem_cons_self) (h.closing c hc).2.2
    | startBound b =>
      rw [runJob, startBound] at hlt
      split at hlt <;> exact hirrefl hlt
    | stopResumed b =>
      rw [runJob, stopResumed] at hlt
      split at hlt <;> exact hirrefl hlt
    | startCaught => exact hirrefl hlt
    | stopCaught b => exact hirrefl hlt
    | stopClosed c => exact hirrefl hlt
  | bindSettles b resolves =>
    rw [step] at hlt
    split at hlt
    · rw [List.length_set] at hlt
      exact hirrefl hlt
    · exact hirrefl hlt
  | closeSettles c resolves =>
    rw [step] at hlt
    split at hlt <;> exact hirrefl hlt

theorem Inv.given_up (h : Inv s) {b : Nat} (hr : s.binds[b]?.map HostBind.state = some .rejected)
    (hno : .startBound b ∉ s.queue) : s.bound ≠ some b := by
  intro hbound
  have hhead := (h.rejected b hbound hr).2
  exact hno (List.mem_of_mem_filter (List.mem_of_head? hhead))

theorem Inv.startable (h : Inv s) (hsettled : s.Settled) (hunbound : s.Unbound) (throws : Bool) :
    (step s (.start true throws)).binds.length = s.binds.length + 1 := by
  obtain ⟨hqueue, -, hcloses⟩ := hsettled
  have hbound : s.bound = none := by
    cases hb : s.bound with
    | none => rfl
    | some b =>
      rcases hunbound b (h.bound_lt b hb) with hr | hc
      · exact absurd hb (h.given_up hr (hqueue ▸ List.not_mem_nil))
      · obtain ⟨c, hmem, rfl⟩ := List.mem_map.mp hc
        exact absurd hb (h.closed c hmem).2
  have hclosing : s.closing = none := by
    cases hc : s.closing with
    | none => rfl
    | some c =>
      obtain ⟨r, hr⟩ : ∃ r, s.closes[c]? = some r :=
        ⟨_, List.getElem?_eq_getElem (h.closing c hc).1⟩
      have hnil := hcloses r (List.mem_of_getElem? hr)
      by_cases hp : r.state = .pending
      · obtain ⟨rest, hrest, -⟩ := h.close_pending c r hr hp
        rw [hnil] at hrest
        cases hrest
      · obtain ⟨rest, hrest, -⟩ := h.closing_settled c r hc hr hp
        rw [hqueue] at hrest
        cases hrest
  rw [step, start, if_pos rfl, hclosing]
  show (s.join throws).binds.length = _
  unfold join
  rw [hbound]
  cases throws <;> exact List.length_append

theorem Inv.guarded (h : Inv s) : s.Guarded where
  bind_alone := h.bind_alone
  closed_once := h.closed_once
  closed_bound c hc := (h.closed c hc).1
  given_up _ := h.given_up
  startable := h.startable

theorem guarded_run (events : List HostEvent) : (run step {} events).Guarded :=
  (inv_run events).guarded

/-! ## After the last stop -/

/-- No `start` that has waited for a close binds after a `stop` that was called last. -/
def Timely (s : ServerHost) : HostEvent → Prop
  | .job false => s.queue.head? = some .startResumed → s.last = some .stop → s.bound ≠ none
  | _ => True

instance Timely.decidable (s : ServerHost) : (e : HostEvent) → Decidable (s.Timely e)
  | .job false => inferInstanceAs (Decidable (_ → _ → _ ≠ none))
  | .job true | .start .. | .stop | .bindSettles .. | .closeSettles .. => isTrue trivial

/-- A `stop` waits for the bind. -/
def StopWaits (s : ServerHost) (b : Nat) : Prop :=
  .stopCaught b ∈ s.queue ∨ .stopResumed b ∈ s.queue ∨
    ∃ r : HostBind, s.binds[b]? = some r ∧ .stopCaught b ∈ r.reactions

/-- After the last `stop`, a `stop` waits for what is bound. -/
def Ends (s : ServerHost) : Prop := s.last = some .stop → ∀ b, s.bound = some b → s.StopWaits b

theorem stopWaits_awaitBind {b b' : Nat} {job : HostJob} (h : s.StopWaits b) :
    (s.awaitBind b' job).StopWaits b := by
  unfold awaitBind
  split
  · next reactions hb' =>
    refine h.imp_right (Or.imp_right ?_)
    rintro ⟨r, hr, hmem⟩
    by_cases heq : b' = b
    · subst heq
      cases hb'.symm.trans hr
      exact ⟨_, List.getElem?_set_self (List.getElem?_eq_some_iff.mp hr).1,
        List.mem_append_left _ hmem⟩
    · exact ⟨r, (List.getElem?_set_ne heq).trans hr, hmem⟩
  · exact h.imp (List.mem_append_left _) (Or.imp_left (List.mem_append_left _))

/-- The `stop` itself. -/
theorem stopWaits_stop {b : Nat} (hlt : b < s.binds.length) :
    (s.awaitBind b (.stopCaught b)).StopWaits b := by
  unfold awaitBind
  split
  · exact .inr (.inr ⟨_, List.getElem?_set_self hlt, List.mem_append_right _ (.head _)⟩)
  · exact .inl (List.mem_append_right _ (.head _))

theorem bound_awaitBind (b : Nat) (job : HostJob) : (s.awaitBind b job).bound = s.bound := by
  unfold awaitBind
  split <;> rfl

theorem last_awaitBind (b : Nat) (job : HostJob) : (s.awaitBind b job).last = s.last := by
  unfold awaitBind
  split <;> rfl

theorem ends_stop (h : Inv s) : Ends { s.stop with last := some .stop } := by
  intro _ b hb
  have hbound : s.stop.bound = some b := hb
  show s.stop.StopWaits b
  unfold stop at hbound ⊢
  split at hbound
  · next hnone =>
    rw [hnone] at hbound
    cases hbound
  · next b' hb' =>
    rw [bound_awaitBind, hb'] at hbound
    obtain rfl := Option.some.inj hbound
    exact stopWaits_stop (h.bound_lt b' hb')

/-- A job that is not of a `stop` of the bind leaves those that are. -/
theorem StopWaits.pop {b : Nat} {job : HostJob} {rest : List HostJob} (h : s.StopWaits b)
    (hq : s.queue = job :: rest) (hcaught : job ≠ .stopCaught b) (hresumed : job ≠ .stopResumed b) :
    StopWaits { s with queue := rest } b := by
  rcases h with h | h | h
  · rw [hq] at h
    exact .inl ((List.mem_cons.mp h).resolve_left hcaught.symm)
  · rw [hq] at h
    exact .inr (.inl ((List.mem_cons.mp h).resolve_left hresumed.symm))
  · exact .inr (.inr h)

theorem ends_join {throws : Bool} (h : s.Ends)
    (hlast : throws = false → s.last = some .stop → s.bound ≠ none) : (s.join throws).Ends := by
  unfold join
  split
  · next b hb =>
    intro hstop b' hb'
    rw [last_awaitBind] at hstop
    rw [bound_awaitBind] at hb'
    exact stopWaits_awaitBind (h hstop b' hb')
  · next hnone =>
    split
    · intro _ b hb
      rw [show s.bound = some b from hb] at hnone
      cases hnone
    · next hthrows =>
      intro hstop
      exact absurd hnone (hlast (by simpa using hthrows) hstop)

theorem ends_job {throws : Bool} {job : HostJob} {rest : List HostJob} (h : s.Ends)
    (hq : s.queue = job :: rest)
    (htimely : throws = false → job = .startResumed → s.last = some .stop → s.bound ≠ none) :
    Ends (runJob { s with queue := rest } throws job) := by
  cases job with
  | startCaught =>
    intro hstop b hb
    have hpop := (h hstop b hb).pop hq (by simp) (by simp)
    exact hpop.imp (List.mem_append_left _) (Or.imp_left (List.mem_append_left _))
  | startResumed =>
    refine ends_join ?_ fun hthrows => htimely hthrows rfl
    exact fun hstop b hb => (h hstop b hb).pop hq (by simp) (by simp)
  | startBound b' =>
    rw [runJob, startBound]
    split
    · exact fun _ _ hb => by cases hb
    · exact fun hstop b hb => (h hstop b hb).pop hq (by simp) (by simp)
  | stopCaught b' =>
    intro hstop b hb
    by_cases heq : b' = b
    · subst heq
      exact .inr (.inl (List.mem_append_right _ (.head _)))
    · have hpop := (h hstop b hb).pop hq (by simpa using heq) (by simp)
      exact hpop.imp (List.mem_append_left _) (Or.imp_left (List.mem_append_left _))
  | stopResumed b' =>
    rw [runJob, stopResumed]
    split
    · exact fun _ _ hb => by cases hb
    · next hne =>
      intro hstop b hb
      refine (h hstop b hb).pop hq (by simp) ?_
      rintro ⟨⟩
      exact hne hb
  | stopClosed c => exact fun hstop b hb => (h hstop b hb).pop hq (by simp) (by simp)

theorem ends_step (hinv : Inv s) (h : s.Ends) {e : HostEvent} (htimely : s.Timely e) :
    (step s e).Ends := by
  cases e with
  | start valid throws => exact fun hstop => by cases hstop
  | stop => exact ends_stop hinv
  | job throws =>
    rw [step]
    split
    · exact h
    · next job rest hq =>
      refine ends_job h hq ?_
      rintro rfl rfl
      exact htimely (by rw [hq]; rfl)
  | bindSettles b' resolves =>
    rw [step]
    split
    · next reactions hb' =>
      intro hstop b hb
      rcases h hstop b hb with hmem | hmem | ⟨r, hr, hmem⟩
      · exact .inl (List.mem_append_left _ hmem)
      · exact .inr (.inl (List.mem_append_left _ hmem))
      · by_cases heq : b' = b
        · subst heq
          cases hb'.symm.trans hr
          exact .inl (List.mem_append_right _ hmem)
        · exact .inr (.inr ⟨r, (List.getElem?_set_ne heq).trans hr, hmem⟩)
    · exact h
  | closeSettles c resolves =>
    rw [step]
    split
    · intro hstop b hb
      exact (h hstop b hb).imp (List.mem_append_left _) (Or.imp_left (List.mem_append_left _))
    · exact h

theorem unbound_of_ends (hinv : Inv s) (h : s.Ends) (hsettled : s.Settled)
    (hlast : s.last = some .stop) : s.Unbound := by
  refine hinv.unbound ?_
  cases hb : s.bound with
  | none => rfl
  | some b =>
    obtain ⟨hqueue, hbinds, -⟩ := hsettled
    rcases h hlast b hb with hmem | hmem | ⟨r, hr, hmem⟩
    · exact absurd (hqueue ▸ hmem) List.not_mem_nil
    · exact absurd (hqueue ▸ hmem) List.not_mem_nil
    · exact absurd (hbinds r (List.mem_of_getElem? hr) ▸ hmem) List.not_mem_nil

/-- A host keeps to it all as long as no `start` that has waited for a close binds after the last
`stop`. -/
theorem sound_of_timely (events : List HostEvent) (h : Trace.Admits step Timely {} events) :
    (run step {} events).Sound where
  toGuarded := guarded_run events
  stopped := by
    have hends : Inv (run step {} events) ∧ (run step {} events).Ends :=
      run_inv_of_admits step (I := fun s => Inv s ∧ s.Ends)
        (fun s e htimely hs => ⟨inv_step hs.1 e, ends_step hs.1 hs.2 htimely⟩) h
        ⟨inv_init, fun hstop => by cases hstop⟩
    exact unbound_of_ends hends.1 hends.2

/-- A `stop` during a bind, a `start` during the close, and a `stop` after it, up to its close. -/
def restarted : List HostEvent :=
  [.start true false, .stop, .bindSettles 0 true, .job false, .job false, .job false,
    .start true false, .closeSettles 0 true, .job false, .job false, .job false, .stop,
    .bindSettles 1 true, .job false, .job false, .job false, .closeSettles 1 true, .job false,
    .job false, .job false]

theorem sound_of_timely_restart : (run step {} restarted).Settled ∧ (run step {} restarted).Sound :=
  ⟨⟨by decide, by decide, by decide⟩, sound_of_timely _ (by decide)⟩

/-- A `start` waits for a close, and a `stop` is called before it goes on. -/
def overtaken : List HostEvent :=
  [.start true false, .bindSettles 0 true, .job false, .stop, .job false, .job false,
    .start true false, .stop, .closeSettles 0 true, .job false, .job false, .job false,
    .bindSettles 1 true, .job false]

theorem not_sound_overtaken : ¬ (run step {} overtaken).Sound := by
  intro h
  have hsettled : (run step {} overtaken).Settled := by
    refine ⟨by decide, by decide, by decide⟩
  rcases h.stopped hsettled (by decide) 1 (by decide) with hr | hc
  · exact absurd hr (by decide)
  · exact absurd hc (by decide)

end ServerHost

end Neemata.Http
