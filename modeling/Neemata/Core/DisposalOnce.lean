import Neemata.Core.DisposalInvariant

/-!
# Disposal exactly once

In a run whose events fit the state they meet, every instance is disposed at most once and returned
only before, and after a final `Container.dispose` every instance with a hook has been disposed
(`disposed_once`).
-/

namespace Neemata.Core

namespace DisposalState

variable {ι : Type} [DecidableEq ι] {injectables : Injectables ι} {s : DisposalState ι}

/-! ## The history -/

theorem Final.of_append {l m : List DisposalEntry} (h : Final (l ++ m)) (hm : .swept ∉ m) :
    Final l ∧ ∀ resolution, .started resolution ∉ m := by
  obtain ⟨before, after, heq, hafter⟩ := h
  obtain ⟨rest, -, rfl⟩ | ⟨rest, rfl, hrest⟩ := List.append_eq_append_iff.mp heq
  · exact absurd (List.mem_append_right rest List.mem_cons_self) hm
  · obtain ⟨rfl, rfl⟩ | ⟨rest, rfl, rfl⟩ := List.append_eq_cons_iff.mp hrest.symm
    · exact absurd List.mem_cons_self hm
    · exact ⟨⟨before, rest, rfl, fun r hr => hafter r (List.mem_append_left m hr)⟩,
        fun r hr => hafter r (List.mem_append_right rest hr)⟩

theorem fair_append {l m : List DisposalEntry} (h : l.Pairwise DisposalEntry.Fair)
    (hm : m.Pairwise DisposalEntry.Fair)
    (hnew : ∀ handle, .disposal handle ∈ l → .disposal handle ∉ m ∧ .returned handle ∉ m) :
    (l ++ m).Pairwise DisposalEntry.Fair := by
  rw [List.pairwise_append]
  refine ⟨h, hm, ?_⟩
  rintro _ he entry hentry handle rfl
  refine ⟨?_, ?_⟩
  · rintro rfl
    exact (hnew handle he).1 hentry
  · rintro rfl
    exact (hnew handle he).2 hentry

/-- Nothing is disposed, and nothing is returned that a disposal has begun with. -/
theorem Sound.log (h : Sound injectables s) {m : List DisposalEntry} {container : Container ι}
    {resolutions : List (Resolution ι)} (hm : ∀ entry ∈ m, ∀ handle, entry ≠ .disposal handle)
    (hswept : .swept ∉ m) (hreturned : ∀ handle, .returned handle ∈ m → ¬ s.Began handle)
    (hinstances : container.instances = s.container.instances)
    (hindex : container.transientHandles = s.container.transientHandles)
    (hflight : Flight injectables container resolutions)
    (hsweep : Sweep container s.slot)
    (hundelivered : ∀ handle, (∃ r ∈ resolutions, r.phase = .settled (some handle)) →
      s.Undelivered handle)
    (hpending : (∀ resolution, .started resolution ∉ m) → s.container.pending = [] →
      container.pending = []) :
    Sound injectables { s with container, resolutions, history := s.history ++ m } := by
  have hbegan : Began { s with container, resolutions, history := s.history ++ m } = s.Began := by
    funext handle
    simp only [Began, List.mem_append, eq_iff_iff, or_iff_left_iff_imp]
    exact fun hmem => absurd rfl (hm _ hmem handle)
  have hhandles : container.handlesOf = s.container.handlesOf := by
    funext x
    rw [Container.handlesOf, hinstances, Container.handlesOf]
  refine ⟨?_, ?_, hflight, hsweep, ?_, ?_, ?_⟩
  · rw [hbegan]
    exact h.tables.congr hinstances hindex
  · rw [hbegan, hhandles]
    exact h.claims.frame (fun x k hk => .inl ⟨hk, Iff.rfl⟩) h.claims.engaged
      (fun _ k _ => hundelivered k) fun _ _ _ _ => id
  · rw [hbegan]
    exact fun k hk => h.undelivered k (hundelivered k hk)
  · refine fair_append h.fair ?_ fun handle hmem => ⟨fun hd => hm _ hd handle rfl,
      fun hr => hreturned handle hr hmem⟩
    refine List.pairwise_of_forall_mem_list fun a ha b _ handle heq => absurd heq (hm a ha handle)
  · intro hfinal
    obtain ⟨hold, hstarted⟩ := Final.of_append hfinal hswept
    rw [hbegan]
    exact ⟨hpending hstarted (h.final hold).1, (h.final hold).2⟩

/-! ## Resolutions -/

theorem Sound.record (h : Sound injectables s) (x : ι) (dependant : Option ι) :
    Sound injectables { s with container := s.container.recordDependant x dependant } := by
  cases dependant with
  | none => exact h
  | some dependant =>
    exact ⟨h.tables.congr rfl rfl, h.claims, h.flight.shrink rfl rfl fun _ => id,
      h.sweep.frame rfl fun hp => ⟨hp, fun _ => id⟩, h.undelivered, h.fair, h.final⟩

omit [DecidableEq ι] in
theorem Claims.not_began {handlesOf : ι → List Nat} {slot : Nat → Disposal ι}
    {began undelivered : Nat → Prop} (h : Claims injectables handlesOf slot began undelivered)
    (hdisjoint : Disjoint handlesOf) {x : ι} {k : Nat} (hk : k ∈ handlesOf x)
    (htransient : ¬ injectables.isTransient x) (hfree : ∀ j, (slot j).engaged ≠ some x) :
    ¬ began k := by
  rw [h.began x k hk]
  rintro ⟨j, hj | hj⟩
  · exact hfree j hj
  · obtain ⟨-, y, hy, hky, -⟩ := h.claimed j k (active_mem_claimed hj)
    exact htransient (hdisjoint y x k hky hk ▸ hy)

omit [DecidableEq ι] in
theorem slot_of_forall {P : Disposal ι → Prop} (h : ∀ d ∈ s.disposals, P d) (hsettled : P .settled)
    (j : Nat) : P (s.slot j) := by
  unfold slot
  rw [List.getD_eq_getElem?_getD]
  cases hget : s.disposals[j]? with
  | none => exact hsettled
  | some d => exact h d (List.mem_of_getElem? hget)

theorem Sound.resolve (h : Sound injectables s) {x : ι} {dependant : Option ι} {optional : Bool}
    (hfits : Fits injectables s (.resolve x dependant optional)) :
    Sound injectables (s.resolve injectables x dependant optional) := by
  unfold DisposalState.resolve
  split
  · exact h
  · next hdisposing =>
    have hrecord := h.record x dependant
    have hfound := Container.found injectables (s.container.recordDependant x dependant) x optional
    dsimp only
    split
    · next handle hlookup =>
      rw [hlookup] at hfound
      obtain ⟨htransient, hhead⟩ := hfound
      have hmem := List.mem_of_mem_head? hhead
      rw [Container.handlesOf_recordDependant] at hmem
      have hfree := slot_of_forall (hfits.resolve_left hdisposing) (by simp [Disposal.engaged])
      have hfresh := h.claims.not_began h.tables.disjoint hmem htransient hfree
      refine hrecord.log (m := [.returned handle]) ?_ ?_ ?_ rfl rfl hrecord.flight hrecord.sweep
        (fun _ => id) fun _ => id
      · simp
      · simp
      · simp only [List.mem_singleton, DisposalEntry.returned.injEq]
        rintro _ rfl
        exact hfresh
    · next hlookup =>
      rw [hlookup] at hfound
      have hnew : ¬ injectables.isTransient x →
          (s.container.recordDependant x dependant).handlesOf x = [] ∧
          (s.container.recordDependant x dependant).resolving.get? x = none := by
        cases hfound with
        | create hfresh _ => exact hfresh
      refine hrecord.log (m := [.started _]) ?_ ?_ ?_ rfl rfl (hrecord.flight.start hnew) ?_ ?_ ?_
      · simp
      · simp
      · simp
      · refine ⟨h.sweep.once, hrecord.sweep.disposing, fun j y rest hj => ?_⟩
        have hcontainer : (s.slot j).isContainer := (congrArg Disposal.isContainer hj).trans rfl
        exact absurd (h.sweep.disposing.mpr ⟨j, hcontainer⟩) hdisposing
      · rintro handle ⟨r, hr, hphase⟩
        obtain hr | hr := List.mem_append.mp hr
        · exact ⟨r, hr, hphase⟩
        · rw [List.mem_singleton.mp hr] at hphase
          cases hphase
      · intro hnone
        exact absurd List.mem_cons_self (hnone _)
    all_goals exact hrecord

omit [DecidableEq ι] in
theorem Undelivered.of_setPhase {r k : Nat} {phase : ResolutionPhase}
    (h : (s.setPhase r phase).Undelivered k) : s.Undelivered k ∨ phase = .settled (some k) := by
  obtain ⟨R, hR, hphase⟩ := h
  obtain ⟨j, hj⟩ := List.mem_iff_getElem?.mp hR
  obtain ⟨R₀, -, -, rfl⟩ | ⟨-, hold⟩ := getElem?_modify_cases hj
  · exact .inr hphase
  · exact .inl ⟨R, List.mem_of_getElem? hold, hphase⟩

/-- While a resolution is in flight no final `Container.dispose` has returned. -/
theorem Sound.not_final (h : Sound injectables s) {r : Nat} {R : Resolution ι}
    (hR : s.resolutions[r]? = some R) (hphase : R.phase ≠ .cleared) : s.container.pending ≠ [] := by
  intro hnone
  have hr := (h.flight.pending r).mpr ⟨R, hR, hphase⟩
  rw [hnone] at hr
  cases hr

/-- A resolution settles that has created no instance, or whose instance is lost. -/
theorem Sound.settle (h : Sound injectables s) {r : Nat} {R : Resolution ι}
    (hR : s.resolutions[r]? = some R) (hphase : R.phase ≠ .cleared) {phase : ResolutionPhase}
    (hcleared : phase ≠ .cleared) (hcreating : phase ≠ .creating)
    (hnone : ∀ handle, phase ≠ .settled (some handle)) :
    Sound injectables (s.setPhase r phase) := by
  have hflight := h.flight.advance hR hphase hcleared hcreating rfl rfl fun _ _ => rfl
  have hlog := h.log (m := []) (by simp) (by simp) (by simp) rfl rfl hflight h.sweep
    (fun k hk => (Undelivered.of_setPhase hk).resolve_right (hnone k)) fun _ => id
  rwa [List.append_nil] at hlog

theorem Sound.create_pickThrows (h : Sound injectables s) {r : Nat} {x : ι}
    (hR : s.resolutions[r]? = some ⟨x, .creating⟩) :
    Sound injectables (s.create injectables r .pickThrows) := by
  have hfresh : ¬ s.Began s.handles.length := fun hb => Nat.lt_irrefl _ (h.tables.bounded _ hb)
  have hpending := h.not_final hR (by simp)
  have hbegan : ∀ k, Began (s.create injectables r .pickThrows) k ↔
      s.Began k ∨ k = s.handles.length := by
    intro k
    simp [DisposalState.create, hR, Began, setPhase]
  have hold : ∀ k, k < s.handles.length →
      (Began (s.create injectables r .pickThrows) k ↔ s.Began k) := by
    intro k hk
    rw [hbegan, or_iff_left (Nat.ne_of_lt hk)]
  have htables : Tables injectables s.container
      (s.handles ++ [{ injectable := x, publicInstance := none }])
      (Began (s.create injectables r .pickThrows)) := by
    refine h.tables.create _ (fun k => ?_) fun _ => (hbegan _).mpr (.inr rfl)
    constructor
    · intro hk
      exact ((hbegan k).mp hk).imp_right fun heq => ⟨heq, hk⟩
    · rintro (hk | ⟨-, hk⟩)
      · exact (hbegan k).mpr (.inl hk)
      · exact hk
  have hclaims : Claims injectables s.container.handlesOf s.slot
      (Began (s.create injectables r .pickThrows)) (s.setPhase r .discarding).Undelivered :=
    h.claims.frame (fun y k hk => .inl ⟨hk, hold k (h.tables.lt_length hk)⟩) h.claims.engaged
      (fun _ k _ hk => (Undelivered.of_setPhase hk).resolve_right (by simp)) fun _ _ _ _ => id
  rw [DisposalState.create, hR] at htables hclaims hold ⊢
  refine ⟨htables, hclaims,
    h.flight.advance hR (by simp) (by simp) (by simp) rfl rfl fun _ _ => rfl, h.sweep, ?_, ?_, ?_⟩
  · intro k hk
    obtain ⟨hk, hlt⟩ := h.undelivered k ((Undelivered.of_setPhase hk).resolve_right (by simp))
    refine ⟨fun hb => hk ((hold k hlt).mp hb), ?_⟩
    rw [List.length_append]
    exact Nat.lt_add_right 1 hlt
  · refine fair_append h.fair ?_ fun k hk => ?_
    · simp [DisposalEntry.Fair]
    · have hne : k ≠ s.handles.length := Nat.ne_of_lt (h.tables.bounded k hk)
      simp [hne]
  · intro hfinal
    exact absurd (h.final (Final.of_append hfinal (by simp)).1).1 hpending

/-- The hooks of a transient injectable are called at once only by `Container.dispose`, when no
resolution is in flight. -/
theorem Sound.not_engaged (h : Sound injectables s) {r : Nat} {x : ι}
    (hR : s.resolutions[r]? = some ⟨x, .creating⟩) (j : Nat) : (s.slot j).engaged ≠ some x := by
  intro hj
  have hpending := h.not_final hR (by simp)
  have hcreating : ¬ injectables.isTransient x → False := fun htransient =>
    h.claims.engaged j x hj (h.flight.creating r _ hR rfl htransient)
  cases hslot : s.slot j with
  | instances y =>
    rw [hslot] at hj
    cases hj
    exact hcreating (h.claims.explicit j x hslot)
  | order y rest => exact hpending (h.sweep.order j y rest hslot).1
  | transients | pending | settled =>
    rw [hslot] at hj
    cases hj

theorem Sound.create_returns (h : Sound injectables s) {r : Nat} {x : ι} {value : Nat}
    (hR : s.resolutions[r]? = some ⟨x, .creating⟩) :
    Sound injectables (s.create injectables r (.returns value)) := by
  have hfresh : ¬ s.Began s.handles.length := fun hb => Nat.lt_irrefl _ (h.tables.bounded _ hb)
  have hpending := h.not_final hR (by simp)
  obtain ⟨hp, hr, hd⟩ := Container.register_frame injectables s.container x s.handles.length
  have hmem : ∀ y k, k ∈ (s.container.register injectables x s.handles.length).handlesOf y →
      k ∈ s.container.handlesOf y ∨ y = x ∧ k = s.handles.length := by
    intro y k hk
    by_cases htracks : Container.tracks injectables x
    · rw [Container.handlesOf_register injectables x y _ htracks] at hk
      split at hk
      · next heq =>
        rw [heq]
        exact (List.mem_append.mp hk).imp_right fun hk => ⟨rfl, List.mem_singleton.mp hk⟩
      · exact .inl hk
    · rw [Container.register_of_not_tracks injectables x _ htracks] at hk
      exact .inl hk
  have hkept : ∀ y k, k ∈ s.container.handlesOf y →
      k ∈ (s.container.register injectables x s.handles.length).handlesOf y := by
    intro y k hk
    by_cases htracks : Container.tracks injectables x
    · rw [Container.handlesOf_register injectables x y _ htracks]
      split
      · next heq => exact List.mem_append_left _ (heq ▸ hk)
      · exact hk
    · rwa [Container.register_of_not_tracks injectables x _ htracks]
  have hbegan : Began (s.create injectables r (.returns value)) = s.Began := by
    funext k
    simp [DisposalState.create, hR, Began, setPhase]
  rw [DisposalState.create, hR] at hbegan ⊢
  dsimp only at hbegan ⊢
  refine ⟨?_, ?_, ?_, ?_, ?_, ?_, ?_⟩
  · rw [hbegan]
    exact h.tables.register x (some value)
  · rw [hbegan]
    refine h.claims.frame (fun y k hk => ?_) (fun j y hj => ?_) (fun j k hk hu => ?_)
      fun _ k _ y => hkept y k
    · obtain hk | ⟨rfl, rfl⟩ := hmem y k hk
      · exact .inl ⟨hk, Iff.rfl⟩
      · refine .inr ⟨hfresh, fun j => ⟨h.not_engaged hR j, fun hactive => ?_⟩⟩
        obtain ⟨-, z, -, hz, -⟩ := h.claims.claimed j _ (active_mem_claimed hactive)
        exact Nat.lt_irrefl _ (h.tables.lt_length hz)
    · obtain ⟨k, hk⟩ := List.exists_mem_of_ne_nil _ (h.claims.engaged j y hj)
      exact List.ne_nil_of_mem (hkept y k hk)
    · obtain ⟨-, z, -, hz, -⟩ := h.claims.claimed j k hk
      obtain hu | hu := Undelivered.of_setPhase hu
      · exact hu
      · cases hu
        exact absurd (h.tables.lt_length hz) (Nat.lt_irrefl _)
  · refine h.flight.advance hR (by simp) (by simp) (by simp) hp hr fun y hy => ?_
    by_cases htracks : Container.tracks injectables x
    · rw [Container.handlesOf_register injectables x y _ htracks, if_neg hy]
    · rw [Container.register_of_not_tracks injectables x _ htracks]
  · exact h.sweep.frame hd fun hnone => absurd hnone hpending
  · intro k hk
    rw [hbegan, List.length_append]
    obtain hk | hk := Undelivered.of_setPhase hk
    · exact ⟨(h.undelivered k hk).1, Nat.lt_add_right 1 (h.undelivered k hk).2⟩
    · cases hk
      exact ⟨hfresh, Nat.lt_succ_self _⟩
  · exact fair_append h.fair (by simp) (by simp)
  · intro hfinal
    exact absurd (h.final (Final.of_append hfinal (by simp)).1).1 hpending

theorem Sound.create (h : Sound injectables s) (r : Nat) (creation : Creation) :
    Sound injectables (s.create injectables r creation) := by
  cases hR : s.resolutions[r]? with
  | none =>
    rw [DisposalState.create, hR]
    exact h
  | some R =>
    obtain ⟨x, phase⟩ := R
    cases phase with
    | creating =>
      cases creation with
      | throws =>
        rw [DisposalState.create, hR]
        exact h.settle hR (by simp) (by simp) (by simp) (by simp)
      | pickThrows => exact h.create_pickThrows hR
      | returns value => exact h.create_returns hR
    | discarding | settled | cleared =>
      rw [DisposalState.create, hR]
      exact h

theorem Sound.discard (h : Sound injectables s) (r : Nat) : Sound injectables (s.discard r) := by
  unfold DisposalState.discard
  split
  · next hR => exact h.settle hR (by simp) (by simp) (by simp) (by simp)
  · exact h

theorem Sound.clear (h : Sound injectables s) (r : Nat) : Sound injectables (s.clear r) := by
  unfold DisposalState.clear
  split
  · next x handle hR =>
    have hundelivered : ∀ k, .returned k ∈ handle.toList.map DisposalEntry.returned →
        s.Undelivered k := by
      intro k hk
      obtain ⟨k, hk, heq⟩ := List.mem_map.mp hk
      cases heq
      rw [Option.mem_toList] at hk
      exact ⟨_, List.mem_of_getElem? hR, by rw [Option.mem_def.mp hk]⟩
    refine h.log (m := handle.toList.map .returned) ?_ ?_ (fun k hk => ?_) rfl rfl
      (h.flight.clear hR (by simp)) ?_ ?_ ?_
    · simp
    · simp
    · exact (h.undelivered k (hundelivered k hk)).1
    · exact h.sweep.frame rfl fun hp => absurd hp (h.not_final hR (by simp))
    · exact fun k hk => (Undelivered.of_setPhase hk).resolve_right (by simp)
    · exact fun _ hp => absurd hp (h.not_final hR (by simp))
  · exact h

/-! ## Disposals -/

omit [DecidableEq ι] in
theorem slot_setDisposal {after : DisposalState ι} (hsame : after.disposals = s.disposals) {i : Nat}
    (hi : i < s.disposals.length) (new : Disposal ι) :
    (after.setDisposal i new).slot = Function.update s.slot i new := by
  funext j
  unfold slot setDisposal
  simp only [List.getD_eq_getElem?_getD, hsame]
  by_cases hj : j = i
  · subst hj
    simp [hi]
  · rw [Function.update_of_ne hj, List.getElem?_set_ne (Ne.symm hj)]

omit [DecidableEq ι] in
theorem setDisposal_setDisposal (i : Nat) (a b : Disposal ι) :
    (s.setDisposal i a).setDisposal i b = s.setDisposal i b := by
  simp only [setDisposal, List.set_set]

theorem Free.slot {x : ι} (h : s.Free x) (j : Nat) : (s.slot j).engaged ≠ some x ∧
    ∀ k ∈ (s.slot j).claimed, k ∉ s.container.handlesOf x := by
  refine slot_of_forall (P := fun d => d.engaged ≠ some x ∧
    ∀ k ∈ d.claimed, k ∉ s.container.handlesOf x) (fun d hd => ?_) ?_ j
  · exact ⟨(h.1 d hd).1, fun k hk hmem => (h.1 d hd).2 k hmem hk⟩
  · simp [Disposal.engaged, Disposal.claimed]

/-- A disposal that is after nothing waits for something else. -/
theorem Sound.wait (h : Sound injectables s) {i : Nat} {new : Disposal ι}
    (hi : i < s.disposals.length) (hidle : Idle (s.slot i)) (hnew : Idle new)
    (hcontainer : new.isContainer = (s.slot i).isContainer)
    (horder : ∀ x rest, new = .order x rest → s.container.pending = [] ∧
      ∀ y, s.container.handlesOf y ≠ [] → x = some y ∨ y ∈ rest) :
    Sound injectables (s.setDisposal i new) := by
  have hslot := slot_setDisposal (s := s) rfl hi new
  refine ⟨h.tables, ?_, h.flight, ?_, h.undelivered, h.fair, h.final⟩
  · rw [hslot]
    exact h.claims.idle hidle hnew
  · rw [hslot]
    exact h.sweep.keep hcontainer rfl horder id fun _ => id

omit [DecidableEq ι] in
theorem began_disposeHandles {handles : List Nat} (k : Nat) :
    (s.disposeHandles handles).Began k ↔ s.Began k ∨ k ∈ handles := by
  simp [Began, disposeHandles]

/-- The history goes on with the disposals of handles that have not been disposed. -/
theorem Sound.fair_disposeHandles (h : Sound injectables s) {handles : List Nat}
    (hnodup : handles.Nodup) (hnew : ∀ k ∈ handles, ¬ s.Began k) :
    (s.disposeHandles handles).history.Pairwise DisposalEntry.Fair := by
  refine fair_append h.fair ?_ fun k hk => ?_
  · rw [List.pairwise_map]
    refine hnodup.imp fun {a b} hne k heq => ?_
    cases heq
    simp [Ne.symm hne]
  · have hnot : k ∉ handles := fun hmem => hnew k hmem hk
    simp [hnot]

/-- The hooks of an injectable are called by a disposal that was after nothing. -/
theorem Sound.enter (h : Sound injectables s) {i : Nat} {x : ι} {handles : List Nat}
    {new : Disposal ι} (hi : i < s.disposals.length) (hidle : Idle (s.slot i))
    (hget : s.container.instances.get? x = some handles) (hfree : s.Free x)
    (hengaged : new.engaged = some x) (hactive : new.active = none) (hclaimed : new.claimed = [])
    (hexplicit : ∀ y, new = .instances y → ¬ injectables.isTransient y)
    (hcontainer : new.isContainer = (s.slot i).isContainer)
    (horder : ∀ y rest, new = .order y rest → s.container.pending = [] ∧
      ∀ z, s.container.handlesOf z ≠ [] → y = some z ∨ z ∈ rest) :
    Sound injectables ((s.disposeHandles handles).setDisposal i new) := by
  have hhandles := Container.handlesOf_of_get? hget
  have hne : s.container.handlesOf x ≠ [] := hhandles ▸ h.tables.noEmpty x handles hget
  have hnew : ∀ k ∈ handles, ¬ s.Began k := by
    intro k hk
    rw [← hhandles] at hk
    rw [h.claims.began x k hk]
    rintro ⟨j, hj | hj⟩
    · exact (hfree.slot j).1 hj
    · exact (hfree.slot j).2 k (active_mem_claimed hj) hk
  have hdelivered : ∀ k ∈ handles, ¬ s.Undelivered k := hhandles ▸ hfree.2
  have hslot : ((s.disposeHandles handles).setDisposal i new).slot = Function.update s.slot i new :=
    slot_setDisposal rfl hi new
  refine ⟨?_, ?_, h.flight.shrink rfl rfl fun _ => id, ?_, ?_, ?_, ?_⟩
  · exact h.tables.dispose (fun k hk => h.tables.lt_length (hhandles ▸ hk)) began_disposeHandles
  · rw [hslot]
    refine h.claims.enter h.tables.disjoint hidle hengaged hactive hclaimed hne hexplicit
      (fun j => hfree.slot j) fun k => ?_
    rw [hhandles]
    exact began_disposeHandles k
  · rw [hslot]
    exact h.sweep.keep hcontainer rfl horder id fun _ => id
  · intro k hk
    refine ⟨fun hb => ?_, (h.undelivered k hk).2⟩
    obtain hb | hb := (began_disposeHandles k).mp hb
    · exact (h.undelivered k hk).1 hb
    · exact hdelivered k hb hk
  · exact h.fair_disposeHandles (hhandles ▸ h.tables.nodup x) hnew
  · intro hfinal
    obtain ⟨hp, hall⟩ := h.final (Final.of_append hfinal (by simp)).1
    exact ⟨hp, fun k e he hd => (began_disposeHandles k).mpr (.inl (hall k e he hd))⟩

/-- The hooks of an injectable have settled. -/
theorem Sound.leave (h : Sound injectables s) {i : Nat} {x : ι} {new : Disposal ι}
    (hi : i < s.disposals.length) (hengaged : (s.slot i).engaged = some x) (hnew : Idle new)
    (hcontainer : new.isContainer = (s.slot i).isContainer)
    (horder : ∀ y rest, new = .order y rest → s.container.pending = [] ∧
      ∀ z, (s.removeInstances x).container.handlesOf z ≠ [] → y = some z ∨ z ∈ rest) :
    Sound injectables ((s.removeInstances x).setDisposal i new) := by
  have hhandles : ∀ y, (s.removeInstances x).container.handlesOf y =
      if y = x then [] else s.container.handlesOf y := handlesOf_erase s.container x
  have hslot : ((s.removeInstances x).setDisposal i new).slot = Function.update s.slot i new :=
    slot_setDisposal rfl hi new
  refine ⟨?_, ?_, h.flight.shrink rfl rfl fun y hy => ?_, ?_, h.undelivered, h.fair, h.final⟩
  · exact h.tables.erase fun k hk => (h.claims.began x k hk).mpr ⟨i, .inl hengaged⟩
  · rw [hslot]
    refine h.claims.leave h.tables.disjoint hengaged hnew ?_ fun y hy => ?_
    · exact (hhandles x).trans (if_pos rfl)
    · exact (hhandles y).trans (if_neg hy)
  · refine (hhandles y).trans ?_
    split
    · rfl
    · exact hy
  · rw [hslot]
    refine h.sweep.keep hcontainer rfl horder id fun y hy hempty => hy ?_
    refine (hhandles y).trans ?_
    split
    · rfl
    · exact hempty

/-- The loop of `Container.dispose` goes on. -/
theorem Sound.sweep_order (h : Sound injectables s) {i : Nat} {order : List ι}
    (hi : i < s.disposals.length) (hslot : s.slot i = .order none order)
    (hfree : ∀ x ∈ order.head?, s.Free x) : Sound injectables (s.sweep i order) := by
  have hidle : Idle (s.slot i) := by
    rw [hslot]
    exact ⟨rfl, rfl, rfl⟩
  have hcontainer : (s.slot i).isContainer = true := by
    rw [hslot]
    rfl
  obtain ⟨hpending, hall⟩ := h.sweep.order i none order hslot
  cases order with
  | nil =>
    have hempty : ∀ x, s.container.handlesOf x = [] := by
      intro x
      refine Decidable.not_not.mp fun hne => ?_
      obtain hx | hx := hall x hne
      · cases hx
      · cases hx
    have hbegan : ∀ k, Began (s.sweep i []) k ↔ s.Began k := by
      intro k
      simp [DisposalState.sweep, Began, setDisposal]
    have hall : ∀ k e, s.handles[k]? = some e → injectables.hasDispose e.injectable →
        Began (s.sweep i []) k := by
      intro k e he hdispose
      refine (hbegan k).mpr ((h.tables.kept k e he hdispose).resolve_right fun hk => ?_)
      rw [hempty] at hk
      cases hk
    have hslot' : (s.sweep i []).slot = Function.update s.slot i .settled :=
      slot_setDisposal rfl hi _
    refine ⟨⟨fun y l hl => ?_, fun _ => List.nodup_nil, fun y k hk => ?_, fun k hk => ?_,
      List.nodup_nil, fun k e he hd => .inl (hall k e he hd),
      fun k hk => h.tables.bounded k ((hbegan k).mp hk)⟩, ?_, h.flight.reset hpending, ?_,
      fun k hk => ?_, ?_, fun _ => ⟨hpending, hall⟩⟩
    · cases hl
    · cases hk
    · cases hk
    · rw [hslot']
      have hclaims : Claims injectables s.container.handlesOf
          (Function.update s.slot i .settled) s.Began s.Undelivered :=
        h.claims.idle hidle ⟨rfl, rfl, rfl⟩
      refine hclaims.frame (fun y k hk => ?_) (fun j y hj => ?_) (fun _ _ _ => id)
        fun j k _ y hk => ?_
      · cases hk
      · exact absurd (hempty y) (hclaims.engaged j y hj)
      · rw [hempty] at hk
        cases hk
    · rw [hslot']
      refine h.sweep.update (fun hc => absurd hc Bool.false_ne_true) ?_ (fun y l heq => ?_) id
        fun y hy => absurd rfl hy
      · refine iff_of_false Bool.false_ne_true ?_
        rintro (hc | ⟨j, hj, hc⟩)
        · cases hc
        · exact hj (h.sweep.once j i hc hcontainer)
      · cases heq
    · exact ⟨fun hb => (h.undelivered k hk).1 ((hbegan k).mp hb), (h.undelivered k hk).2⟩
    · exact fair_append h.fair (by simp) (by simp)
  | cons x rest =>
    have horder : ∀ y, s.container.handlesOf y ≠ [] → some x = some y ∨ y ∈ rest := by
      intro y hy
      obtain hy | hy := hall y hy
      · cases hy
      · exact (List.mem_cons.mp hy).imp_left fun heq => congrArg some heq.symm
    rw [DisposalState.sweep]
    split
    · next hget =>
      refine h.wait hi hidle ⟨rfl, rfl, rfl⟩ hcontainer.symm fun y l heq => ?_
      cases heq
      refine ⟨hpending, fun z hz => .inr ((horder z hz).resolve_left ?_)⟩
      rintro heq
      cases heq
      exact hz (by rw [Container.handlesOf, hget]; rfl)
    · next handles hget =>
      refine h.enter hi hidle hget (hfree x rfl) rfl rfl rfl (fun y heq => ?_) hcontainer.symm
        fun y l heq => ?_
      · cases heq
      · cases heq
        exact ⟨hpending, horder⟩

omit [DecidableEq ι] in
theorem length_setDisposal (i : Nat) (new : Disposal ι) :
    (s.setDisposal i new).disposals.length = s.disposals.length := List.length_set

omit [DecidableEq ι] in
theorem slot_setDisposal_self {after : DisposalState ι} (hsame : after.disposals = s.disposals)
    {i : Nat} (hi : i < s.disposals.length) (new : Disposal ι) :
    (after.setDisposal i new).slot i = new := by
  rw [slot_setDisposal hsame hi, Function.update_self]

theorem sweep_setDisposal (i : Nat) (d : Disposal ι) (order : List ι) :
    (s.setDisposal i d).sweep i order = s.sweep i order := by
  cases order with
  | nil => simp only [sweep, setDisposal, List.set_set]
  | cons x rest =>
    simp only [sweep, setDisposal]
    split <;> simp only [disposeHandles, List.set_set]

omit [DecidableEq ι] in
theorem disposeMatched_setDisposal (i : Nat) (d : Disposal ι) (handles : List Nat) :
    (s.setDisposal i d).disposeMatched i handles = s.disposeMatched i handles := by
  cases handles <;> simp only [disposeMatched, setDisposal, disposeHandles, List.set_set]

theorem settlePending_setDisposal (i : Nat) (d : Disposal ι) :
    (s.setDisposal i d).settlePending i = s.settlePending i := by
  unfold settlePending
  rw [sweep_setDisposal, setDisposal_setDisposal]
  rfl

/-- What is free stays free when handles go and disposals come to be after nothing. -/
theorem Free.mono {after : DisposalState ι} {x : ι} (h : s.Free x)
    (hdisposals : ∀ d ∈ after.disposals, d ∈ s.disposals ∨ Idle d)
    (hhandles : ∀ k ∈ after.container.handlesOf x, k ∈ s.container.handlesOf x)
    (hundelivered : ∀ k, after.Undelivered k → s.Undelivered k) : after.Free x := by
  refine ⟨fun d hd => ?_, fun k hk hu => h.2 k (hhandles k hk) (hundelivered k hu)⟩
  obtain hd | hd := hdisposals d hd
  · exact ⟨(h.1 d hd).1, fun k hk => (h.1 d hd).2 k (hhandles k hk)⟩
  · simp [hd.engaged, hd.claimed]

/-- `Container.dispose` looks at the resolutions in flight. -/
theorem Sound.settlePending (h : Sound injectables s) {i : Nat} (hi : i < s.disposals.length)
    (hslot : s.slot i = .pending)
    (hfree : s.container.pending = [] → ∀ x ∈ s.container.getDisposalOrder.head?, s.Free x) :
    Sound injectables (s.settlePending i) := by
  have hidle : Idle (s.slot i) := by
    rw [hslot]
    exact ⟨rfl, rfl, rfl⟩
  have hcontainer : (s.slot i).isContainer = true := by
    rw [hslot]
    rfl
  unfold DisposalState.settlePending
  split
  · next hpending =>
    have hwait : Sound injectables
        (s.setDisposal i (.order none s.container.getDisposalOrder)) := by
      refine h.wait hi hidle ⟨rfl, rfl, rfl⟩ hcontainer.symm fun x rest heq => ?_
      cases heq
      exact ⟨hpending, fun y hy => .inr (Container.mem_getDisposalOrder hy)⟩
    rw [← sweep_setDisposal i (.order none s.container.getDisposalOrder)]
    refine hwait.sweep_order ((length_setDisposal i _).symm ▸ hi) (slot_setDisposal_self rfl hi _)
      fun x hx => (hfree hpending x hx).mono (fun d hd => ?_) (fun _ => id) fun _ => id
    obtain hd | rfl := List.mem_or_eq_of_mem_set hd
    · exact .inl hd
    · exact .inr ⟨rfl, rfl, rfl⟩
  · exact h.wait hi hidle ⟨rfl, rfl, rfl⟩ hcontainer.symm fun x rest heq => by cases heq

omit [DecidableEq ι] in
theorem slot_append_settled : slot { s with disposals := s.disposals ++ [.settled] } = s.slot := by
  funext j
  simp only [slot, List.getD_eq_getElem?_getD]
  rw [List.getElem?_append]
  split
  · rfl
  · next hlt =>
    rw [List.getElem?_eq_none (Nat.not_lt.mp hlt), List.getElem?_singleton]
    split <;> rfl

theorem Sound.begin (h : Sound injectables s) :
    Sound injectables { s with disposals := s.disposals ++ [.settled] } := by
  refine ⟨h.tables, ?_, h.flight, ?_, h.undelivered, h.fair, h.final⟩
  · rw [slot_append_settled]
    exact h.claims
  · rw [slot_append_settled]
    exact h.sweep

omit [DecidableEq ι] in
theorem slot_length (s : DisposalState ι) : s.slot s.disposals.length = .settled := by
  simp [slot]

theorem Sound.disposeContainer (h : Sound injectables s)
    (hfits : Fits injectables s .disposeContainer) : Sound injectables s.disposeContainer := by
  obtain ⟨hnone, hfree⟩ := hfits
  have hlast : s.disposals.length < (s.disposals ++ [Disposal.settled]).length := by simp
  have hother : ∀ j, (s.slot j).isContainer = false := slot_of_forall hnone rfl
  have hbegun : Sound injectables (setDisposal { s with
      disposals := s.disposals ++ [.settled]
      container := { s.container with disposing := true } } s.disposals.length .pending) := by
    have hslot : slot (setDisposal { s with
        disposals := s.disposals ++ [.settled]
        container := { s.container with disposing := true } } s.disposals.length .pending) =
        Function.update s.slot s.disposals.length .pending := by
      rw [← slot_append_settled (s := s)]
      exact slot_setDisposal rfl hlast _
    refine ⟨h.tables.congr rfl rfl, ?_, h.flight.shrink rfl rfl fun _ => id, ?_, h.undelivered,
      h.fair, h.final⟩
    · rw [hslot]
      exact h.claims.idle (slot_length s ▸ ⟨rfl, rfl, rfl⟩) ⟨rfl, rfl, rfl⟩
    · rw [hslot]
      refine h.sweep.update (fun _ j _ hc => ?_) ?_ (fun x rest heq => ?_) id fun _ => id
      · rw [hother j] at hc
        cases hc
      · exact iff_of_true rfl (.inl rfl)
      · cases heq
  unfold DisposalState.disposeContainer
  rw [← settlePending_setDisposal _ .pending]
  refine hbegun.settlePending ?_ ?_ fun hp x hx => (hfree hp x hx).mono ?_ (fun _ => id) fun _ => id
  · rw [length_setDisposal]
    exact hlast
  · exact slot_setDisposal_self rfl hlast _
  · intro d hd
    obtain hd | rfl := List.mem_or_eq_of_mem_set hd
    · obtain hd | hd := List.mem_append.mp hd
      · exact .inl hd
      · exact .inr (List.mem_singleton.mp hd ▸ ⟨rfl, rfl, rfl⟩)
    · exact .inr ⟨rfl, rfl, rfl⟩

/-! ## Individual disposals -/

/-- A transient handle that the dispose function may dispose of. -/
structure Open (injectables : Injectables ι) (s : DisposalState ι) (handle : Nat) : Prop where
  tracked : ∃ x, injectables.isTransient x ∧ handle ∈ s.container.handlesOf x
  fresh : ¬ s.Began handle
  unclaimed : ∀ j, handle ∉ (s.slot j).claimed
  delivered : ¬ s.Undelivered handle

/-- The loop over the matched handles goes on. -/
theorem Sound.disposeMatched (h : Sound injectables s) {i : Nat} {handles : List Nat}
    (hi : i < s.disposals.length) (hslot : s.slot i = .settled) (hnodup : handles.Nodup)
    (hopen : ∀ k ∈ handles, Open injectables s k) :
    Sound injectables (s.disposeMatched i handles) := by
  have hidle : Idle (s.slot i) := by
    rw [hslot]
    exact ⟨rfl, rfl, rfl⟩
  have hcontainer : (s.slot i).isContainer = false := by
    rw [hslot]
    rfl
  cases handles with
  | nil => exact h.wait hi hidle ⟨rfl, rfl, rfl⟩ hcontainer.symm fun x rest heq => by cases heq
  | cons k rest =>
    have hk := hopen k List.mem_cons_self
    have hnew : (s.disposeMatched i (k :: rest)).slot =
        Function.update s.slot i (.transients k rest) := slot_setDisposal rfl hi _
    have hbegan : ∀ m, Began (s.disposeMatched i (k :: rest)) m ↔ s.Began m ∨ m = k :=
      fun m => (began_disposeHandles m).trans (by rw [List.mem_singleton])
    have hmem : ∀ m ∈ [k], m = k := fun m hm => List.mem_singleton.mp hm
    refine ⟨?_, ?_, h.flight.shrink rfl rfl fun _ => id, ?_, fun m hm => ?_, ?_, fun hfinal => ?_⟩
    · refine h.tables.dispose (fun m hm => ?_) began_disposeHandles
      obtain ⟨x, -, hx⟩ := hk.tracked
      exact hmem m hm ▸ h.tables.lt_length hx
    · rw [hnew]
      refine h.claims.claim hidle hnodup (fun m hm => ?_) hbegan
      obtain ⟨⟨x, htransient, hx⟩, hfresh, hunclaimed, hdelivered⟩ := hopen m hm
      refine ⟨hdelivered, ⟨x, htransient, hx, fun j hj => hfresh ?_⟩, hunclaimed⟩
      exact (h.claims.began x m hx).mpr ⟨j, .inl hj⟩
    · rw [hnew]
      exact h.sweep.keep hcontainer.symm rfl (fun x l heq => by cases heq) id fun _ => id
    · refine ⟨fun hb => ?_, (h.undelivered m hm).2⟩
      obtain hb | rfl := (hbegan m).mp hb
      · exact (h.undelivered m hm).1 hb
      · exact hk.delivered hm
    · exact h.fair_disposeHandles (List.nodup_singleton k) fun m hm => hmem m hm ▸ hk.fresh
    · obtain ⟨hp, hall⟩ := h.final (Final.of_append hfinal (by simp)).1
      exact ⟨hp, fun m e he hd => (hbegan m).mpr (.inl (hall m e he hd))⟩

theorem Sound.dispose (h : Sound injectables s) {x : ι} {value : Option Nat}
    (hfits : Fits injectables s (.dispose x value)) :
    Sound injectables (s.dispose injectables x value) := by
  have hbegin := h.begin
  have hlast : s.disposals.length < (s.disposals ++ [Disposal.settled]).length := by simp
  have hslot : slot { s with disposals := s.disposals ++ [.settled] } s.disposals.length =
      .settled := by
    rw [slot_append_settled]
    exact slot_length s
  unfold DisposalState.dispose
  split
  · next htransient =>
    simp only [Fits, if_pos htransient] at hfits
    cases value with
    | none => exact hbegin
    | some value =>
      refine hbegin.disposeMatched hlast hslot (h.tables.indexNodup.filter _) fun k hk => ?_
      obtain ⟨hfresh, htracked⟩ := h.tables.indexed k (List.mem_filter.mp hk).1
      obtain ⟨hunclaimed, hdelivered⟩ := hfits k hk
      refine ⟨htracked, hfresh, fun j => ?_, hdelivered⟩
      rw [slot_append_settled]
      exact slot_of_forall hunclaimed (List.not_mem_nil) j
  · next htransient =>
    simp only [Fits, if_neg htransient] at hfits
    dsimp only
    split
    · exact hbegin
    · next handles hget =>
      have hidle : Idle (slot { s with disposals := s.disposals ++ [.settled] }
          s.disposals.length) := by
        rw [hslot]
        exact ⟨rfl, rfl, rfl⟩
      refine hbegin.enter hlast hidle hget
        (hfits.mono (fun d hd => ?_) (fun _ => id) fun _ => id) rfl rfl rfl (fun y heq => ?_)
        (congrArg Disposal.isContainer hslot).symm fun y rest heq => ?_
      · obtain hd | hd := List.mem_append.mp hd
        · exact .inl hd
        · exact .inr (List.mem_singleton.mp hd ▸ ⟨rfl, rfl, rfl⟩)
      · cases heq
        exact htransient
      · cases heq

/-- The hook of a matched handle has settled. -/
theorem Sound.retire (h : Sound injectables s) {i k : Nat} {rest : List Nat}
    (hi : i < s.disposals.length) (hslot : s.slot i = .transients k rest)
    {entry : InstanceHandle ι} (hentry : s.handles[k]? = some entry) :
    Sound injectables
      (DisposalState.disposeMatched
        { s with container := s.container.splice entry.injectable k } i rest) := by
  have hmem : ∀ m, m ∈ (s.slot i).claimed ↔ m ∈ k :: rest := by
    rw [hslot]
    exact fun m => Iff.rfl
  have hk : k ∈ s.container.handlesOf entry.injectable := by
    obtain ⟨-, x, -, hx, -⟩ := h.claims.claimed i k ((hmem k).mpr List.mem_cons_self)
    obtain ⟨e, he, rfl⟩ := h.tables.entry x k hx
    rwa [Option.some.inj (hentry.symm.trans he)]
  have hnodup := h.claims.claimedNodup i
  rw [hslot] at hnodup
  have hbegan : s.Began k :=
    (h.claims.began _ k hk).mpr ⟨i, .inr (by rw [hslot]; rfl)⟩
  have hnew : slot (setDisposal { s with
      container := s.container.splice entry.injectable k } i .settled) =
      Function.update s.slot i .settled := slot_setDisposal rfl hi _
  have hhandles : ∀ y, (s.container.splice entry.injectable k).handlesOf y =
      if y = entry.injectable then (s.container.handlesOf entry.injectable).erase k
      else s.container.handlesOf y := fun y => Container.handlesOf_splice _ y k
  have hsub : ∀ y m, m ∈ (s.container.splice entry.injectable k).handlesOf y →
      m ∈ s.container.handlesOf y := by
    intro y m hm
    rw [hhandles] at hm
    split at hm
    · next heq => exact heq ▸ List.mem_of_mem_erase hm
    · exact hm
  have hempty : ∀ y, s.container.handlesOf y = [] →
      (s.container.splice entry.injectable k).handlesOf y = [] :=
    fun y hy => List.eq_nil_iff_forall_not_mem.mpr fun m hm => by
      have := hsub y m hm
      rw [hy] at this
      cases this
  obtain ⟨hp, hr, hd⟩ := Container.splice_frame s.container entry.injectable k
  have hretired : Sound injectables (setDisposal { s with
      container := s.container.splice entry.injectable k } i .settled) := by
    refine ⟨h.tables.splice hbegan, ?_, h.flight.shrink hp hr hempty, ?_, h.undelivered, h.fair, ?_⟩
    · rw [hnew]
      exact h.claims.retire hslot ⟨rfl, rfl, rfl⟩ h.tables.disjoint (h.tables.nodup _) hk
        ((hhandles _).trans (if_pos rfl)) fun y hy => (hhandles y).trans (if_neg hy)
    · rw [hnew]
      refine h.sweep.keep (hslot ▸ rfl) hd (fun x l heq => by cases heq) (fun hn => hp.trans hn)
        fun y hy hn => hy (hempty y hn)
    · exact fun hfinal => ⟨hp.trans (h.final hfinal).1, (h.final hfinal).2⟩
  rw [← disposeMatched_setDisposal i .settled]
  refine hretired.disposeMatched ((length_setDisposal i _).symm ▸ hi)
    (slot_setDisposal_self rfl hi _) (List.nodup_cons.mp hnodup).2 fun m hm => ?_
  have hmk : m ≠ k := by
    rintro rfl
    exact (List.nodup_cons.mp hnodup).1 hm
  have hclaimed := (hmem m).mpr (List.mem_cons_of_mem k hm)
  obtain ⟨hdelivered, y, htransient, hy, hfree⟩ := h.claims.claimed i m hclaimed
  refine ⟨⟨y, htransient, ?_⟩, fun hb => ?_, fun j => ?_, hdelivered⟩
  · refine (hhandles y).symm ▸ ?_
    split
    · next heq => exact (List.mem_erase_of_ne hmk).mpr (heq ▸ hy)
    · exact hy
  · obtain ⟨j, hj | hj⟩ := (h.claims.began y m hy).mp hb
    · exact hfree j hj
    · obtain rfl := h.claims.claimedOnce j i m (active_mem_claimed hj) hclaimed
      rw [hslot] at hj
      exact hmk (Option.some.inj hj).symm
  · rw [hnew]
    by_cases hj : j = i
    · rw [hj, Function.update_self]
      exact List.not_mem_nil
    · rw [Function.update_of_ne hj]
      exact fun hmem => hj (h.claims.claimedOnce j i m hmem hclaimed)

omit [DecidableEq ι] in
theorem slot_of_getElem? {i : Nat} {d : Disposal ι} (h : s.disposals[i]? = some d) :
    s.slot i = d ∧ i < s.disposals.length := by
  refine ⟨?_, (List.getElem?_eq_some_iff.mp h).1⟩
  rw [slot, List.getD_eq_getElem?_getD, h]
  rfl

theorem Sound.resume (h : Sound injectables s) {i : Nat} {fails : Bool}
    (hfits : Fits injectables s (.resume i fails)) : Sound injectables (s.resume i fails) := by
  unfold DisposalState.resume
  cases hget : s.disposals[i]? with
  | none => exact h
  | some d =>
    obtain ⟨hslot, hi⟩ := slot_of_getElem? hget
    simp only [Fits, hget] at hfits
    cases d with
    | instances x =>
      exact h.leave hi (hslot ▸ rfl) ⟨rfl, rfl, rfl⟩ (hslot ▸ rfl) fun y rest heq => by cases heq
    | transients k rest =>
      obtain rfl : fails = false := hfits
      dsimp only
      rw [if_neg Bool.false_ne_true]
      cases hentry : s.handles[k]? with
      | none => exact h
      | some entry => exact h.retire hi hslot hentry
    | pending => exact h.settlePending hi hslot hfits
    | settled => exact h
    | order x rest =>
      cases x with
      | none => exact h.sweep_order hi hslot hfits
      | some x =>
        have hhandles : ∀ y, (s.removeInstances x).container.handlesOf y =
            if y = x then [] else s.container.handlesOf y := handlesOf_erase s.container x
        obtain ⟨hpending, hall⟩ := h.sweep.order i (some x) rest hslot
        have hleave : Sound injectables
            ((s.removeInstances x).setDisposal i (.order none rest)) := by
          refine h.leave hi (hslot ▸ rfl) ⟨rfl, rfl, rfl⟩ (hslot ▸ rfl) fun y l heq => ?_
          cases heq
          refine ⟨hpending, fun z hz => .inr ?_⟩
          rw [hhandles] at hz
          split at hz
          · exact absurd rfl hz
          · next hne =>
            refine (hall z hz).resolve_left fun heq => hne ?_
            exact (Option.some.inj heq).symm
        dsimp only
        rw [← sweep_setDisposal i (.order none rest)]
        refine hleave.sweep_order ((length_setDisposal i _).symm ▸ hi)
          (slot_setDisposal_self rfl hi _) fun y hy => (hfits y hy).mono (fun d hd => ?_)
          (fun k hk => ?_) fun _ => id
        · obtain hd | rfl := List.mem_or_eq_of_mem_set hd
          · exact .inl hd
          · exact .inr ⟨rfl, rfl, rfl⟩
        · have hk' : k ∈ (s.removeInstances x).container.handlesOf y := hk
          rw [hhandles] at hk'
          split at hk'
          · cases hk'
          · exact hk'

theorem Sound.step (h : Sound injectables s) {event : DisposalEvent ι}
    (hfits : Fits injectables s event) : Sound injectables (s.step injectables event) := by
  cases event with
  | resolve x dependant optional => exact h.resolve hfits
  | create r creation => exact h.create r creation
  | discard r => exact h.discard r
  | clear r => exact h.clear r
  | dispose x value => exact h.dispose hfits
  | disposeContainer => exact h.disposeContainer hfits
  | resume i fails => exact h.resume hfits

/-! ## Runs -/

theorem Sound.initial (scope : Position) (provisions : OrdMap ι (ProvisionEntry ι)) :
    Sound injectables { container := { scope, provisions } } where
  tables := ⟨fun _ _ hget => (by cases hget), fun _ => List.nodup_nil, fun _ _ hk => (by cases hk),
    fun _ hk => (by cases hk), List.nodup_nil, fun _ _ he => (by cases he),
    fun _ hb => (by cases hb)⟩
  claims := ⟨fun _ _ hk => (by cases hk), fun _ _ hj => (by cases hj),
    fun _ _ _ hj => (by cases hj), fun _ _ hj => (by cases hj), fun _ _ hk => (by cases hk),
    fun _ => List.nodup_nil, fun _ _ _ hk => (by cases hk)⟩
  flight := ⟨fun r => by simp, List.nodup_nil, fun _ _ hR => (by cases hR),
    fun _ _ hR => (by cases hR)⟩
  sweep := ⟨fun _ _ hj => (by cases hj), by simp [slot, Disposal.isContainer],
    fun _ _ _ hj => (by cases hj)⟩
  undelivered _ hk := by
    obtain ⟨_, hr, -⟩ := hk
    cases hr
  fair := List.Pairwise.nil
  final hfinal := by
    obtain ⟨before, after, heq, -⟩ := hfinal
    simp at heq

/-- In a run whose events fit the state they meet, every instance is disposed at most once and is
returned only before, and after a final `Container.dispose` every instance with a hook has been
disposed. -/
theorem disposed_once (scope : Position) (provisions : OrdMap ι (ProvisionEntry ι))
    (l : List (DisposalEvent ι))
    (hl : Trace.Admits (step injectables) (Fits injectables)
      { container := { scope, provisions } } l) :
    DisposedOnce injectables
      (Trace.run (step injectables) { container := { scope, provisions } } l) := by
  have h : Sound injectables
      (Trace.run (step injectables) { container := { scope, provisions } } l) :=
    Trace.run_inv_of_admits (step injectables) (fun _ _ hfits h => h.step hfits) hl
      (Sound.initial scope provisions)
  exact ⟨h.fair, fun hfinal => (h.final hfinal).2⟩

/-! ## Disposals that overlap -/

/-- A singleton and a transient, each with a dispose hook. -/
def singletonAndTransient : Injectables Bool where
  definition transient :=
    { scope := if transient then .transient else .position .global, kind := .factory true }
  rank _ := 0
  frozen _ _ h := absurd h List.not_mem_nil

/-- The singleton and two transients are created, one transient is disposed individually, and a
`Container.dispose` that begins with a third creation in flight disposes of the rest. -/
theorem disposed_once_in_turn : DisposedOnce singletonAndTransient
    (Trace.run (step singletonAndTransient)
      { container := { scope := .global, provisions := .empty } }
      [.resolve false none false, .create 0 (.returns 7), .clear 0,
        .resolve true (some false) false, .create 1 (.returns 8), .clear 1,
        .resolve true none false, .dispose true (some 8), .resume 0 false, .disposeContainer,
        .create 2 .pickThrows, .discard 2, .clear 2,
        .resume 1 false, .resume 1 true, .resume 1 false]) :=
  disposed_once .global .empty _ (by decide)

/-- The dispose function is called for a singleton while `Container.dispose` waits for its hook: the
hook is called again. A singleton is resolved while its hook runs: it is returned. The hook of an
individually disposed transient fails: `Container.dispose` calls it again. -/
theorem overlapping_disposals :
    let run := Trace.run (step singletonAndTransient) {}
    ¬ DisposedOnce singletonAndTransient (run [.resolve false none false, .create 0 (.returns 7),
      .clear 0, .disposeContainer, .dispose false none, .resume 0 false, .resume 1 false]) ∧
    ¬ DisposedOnce singletonAndTransient (run [.resolve false none false, .create 0 (.returns 7),
      .clear 0, .dispose false none, .resolve false none false, .resume 0 false,
      .disposeContainer]) ∧
    ¬ DisposedOnce singletonAndTransient (run [.resolve true none false, .create 0 (.returns 7),
      .clear 0, .dispose true (some 7), .resume 0 true, .disposeContainer, .resume 1 false]) := by
  refine ⟨fun h => ?_, fun h => ?_, fun h => ?_⟩ <;>
  exact absurd h.once (by decide)

end DisposalState

end Neemata.Core
