import Neemata.Core.Activation
import Mathlib.Logic.Relation

/-!
# The recorded dependants

The container that owns a resolution records for which injectable it is resolved, on cache hits and
for resolutions in flight as well. An instance that was created from another one is therefore a
recorded dependant of it in the container that owns the other one (`Traced`), which is the container
of the dependant or one of its ancestors.
-/

namespace Neemata.Core.Tree

variable {ι : Type} [DecidableEq ι] {injectables : Injectables ι} {family : Family ι} {t t' : Tree ι}

/-! ## Answers to a dependant -/

/-- The container is the other one or one of its ancestors. -/
def Above (family : Family ι) : Nat → Nat → Prop :=
  Relation.ReflTransGen fun c parent => family.parent c = some parent

/-- `y` is a recorded dependant of `x`. -/
def Edge (t : Tree ι) (c : Nat) (x y : ι) : Prop :=
  SetIndex.Tracks (t.containers c).dependants x y

/-- The promise is for an instance of `x` in the container. -/
def Owner (t : Tree ι) (c : Nat) (x : ι) : Promise ι → Prop
  | .fulfilled (.instance handle) => ∃ context, t.handles[handle]? = some ⟨c, x, context⟩
  | .resolution r => ∃ R, t.resolutions[r]? = some R ∧ R.container = c ∧ R.injectable = x
  | .fulfilled (.provided _) | .fulfilled .undefined | .rejected _ => False

/-- A promise for an instance answers the dependant: it is recorded with the owner, which stands
above the container of the dependant. -/
def Answers (family : Family ι) (t : Tree ι) (c : Nat) (dependant : ι) (promise : Promise ι) : Prop :=
  IsOwned promise → ∃ o x, t.Owner o x promise ∧ Above family c o ∧ t.Edge o x dependant

/-- A later tree has all instances, resolutions and edges. -/
structure Grows (t t' : Tree ι) : Prop where
  handles : ∀ (h : Nat) e, t.handles[h]? = some e → t'.handles[h]? = some e
  resolutions : ∀ (r : Nat) R, t.resolutions[r]? = some R → ∃ R', t'.resolutions[r]? = some R' ∧
    R'.container = R.container ∧ R'.injectable = R.injectable
  edges : ∀ c x y, t.Edge c x y → t'.Edge c x y
  tracked : ∀ c x, ∀ h ∈ (t.containers c).handlesOf x, h ∈ (t'.containers c).handlesOf x

theorem Grows.refl (t : Tree ι) : Grows t t :=
  ⟨fun _ _ h => h, fun _ R h => ⟨R, h, rfl, rfl⟩, fun _ _ _ h => h, fun _ _ _ h => h⟩

theorem Grows.trans {t'' : Tree ι} (h : Grows t t') (h' : Grows t' t'') : Grows t t'' where
  handles k e hk := h'.handles k e (h.handles k e hk)
  resolutions r R hR := by
    obtain ⟨R', hR', hc, hx⟩ := h.resolutions r R hR
    obtain ⟨R'', hR'', hc', hx'⟩ := h'.resolutions r R' hR'
    exact ⟨R'', hR'', hc'.trans hc, hx'.trans hx⟩
  edges c x y hedge := h'.edges c x y (h.edges c x y hedge)
  tracked c x k hk := h'.tracked c x k (h.tracked c x k hk)

theorem Owner.mono (h : Grows t t') {c : Nat} {x : ι} {promise : Promise ι}
    (ho : t.Owner c x promise) : t'.Owner c x promise := by
  match promise with
  | .fulfilled (.instance handle) =>
    obtain ⟨context, hget⟩ := ho
    exact ⟨context, h.handles handle _ hget⟩
  | .resolution r =>
    obtain ⟨R, hget, hc, hx⟩ := ho
    obtain ⟨R', hget', hc', hx'⟩ := h.resolutions r R hget
    exact ⟨R', hget', hc'.trans hc, hx'.trans hx⟩
  | .fulfilled (.provided _) | .fulfilled .undefined | .rejected _ => exact ho.elim

theorem Answers.mono (h : Grows t t') {c : Nat} {y : ι} {promise : Promise ι}
    (ha : Answers family t c y promise) : Answers family t' c y promise := by
  intro howned
  obtain ⟨o, x, ho, habove, hedge⟩ := ha howned
  exact ⟨o, x, ho.mono h, habove, h.edges o x y hedge⟩

/-! ## The invariant -/

/-- Creations on the stack: an inner one is recorded for the outer one. -/
def Within (family : Family ι) (t : Tree ι) (inner outer : Frame ι) : Prop :=
  Above family outer.container inner.container ∧
    t.Edge inner.container inner.injectable outer.injectable

/-- The tables name instances and resolutions of their own container. -/
structure Placed (family : Family ι) (t : Tree ι) : Prop where
  parent : ∀ c, (t.containers c).parent = family.parent c
  instances : ∀ c x, ∀ h ∈ (t.containers c).handlesOf x, t.Owner c x (.fulfilled (.instance h))
  resolving : ∀ c x r, (t.containers c).resolving.get? x = some r → t.Owner c x (.resolution r)

/-- What is resolved for a creation on the stack is recorded with it. -/
structure Stacked (family : Family ι) (t : Tree ι) : Prop where
  current : ∀ a, t.current = some a → ∀ frame ∈ t.frames.head?,
    a.request.dependant = some frame.injectable ∧ Above family frame.container a.container
  within : t.frames.IsChain (Within family t)
  frames : ∀ frame ∈ t.frames, ∀ promise ∈ frame.promises,
    Answers family t frame.container frame.injectable promise

structure Recorded (family : Family ι) (t : Tree ι) (R : TreeResolution ι) : Prop where
  awaits : ∀ promise ∈ R.awaits, Answers family t R.container R.injectable promise
  creating : ∀ context, R.phase = .creating context → ∀ value ∈ context,
    Answers family t R.container R.injectable (.fulfilled value)
  result : ∀ value, R.phase.result? = some (.ok value) →
    t.Owner R.container R.injectable (.fulfilled value)

/-- What an instance is created from is recorded with it. -/
structure Traced (family : Family ι) (t : Tree ι) : Prop where
  placed : Placed family t
  stacked : Stacked family t
  resolutions : ∀ R ∈ t.resolutions, Recorded family t R
  handles : ∀ e ∈ t.handles, ∀ value ∈ e.context,
    Answers family t e.container e.injectable (.fulfilled value)

theorem Stacked.mono (h : Stacked family t) (hg : Grows t t') (hcurrent : t'.current = t.current)
    (hframes : t'.frames = t.frames) : Stacked family t' where
  current := by
    rw [hcurrent, hframes]
    exact h.current
  within := by
    rw [hframes]
    exact h.within.imp fun inner outer hw => ⟨hw.1, hg.edges _ _ _ hw.2⟩
  frames := by
    rw [hframes]
    exact fun frame hf promise hp => (h.frames frame hf promise hp).mono hg

theorem Recorded.mono {R : TreeResolution ι} (h : Recorded family t R) (hg : Grows t t') :
    Recorded family t' R where
  awaits promise hp := (h.awaits promise hp).mono hg
  creating context hphase value hv := (h.creating context hphase value hv).mono hg
  result value hv := (h.result value hv).mono hg

/-! ## The tables of one container change -/

theorem grows_modifyContainer {c : Nat} {f : Container ι → Container ι}
    (hedges : ∀ x y, SetIndex.Tracks (t.containers c).dependants x y →
      SetIndex.Tracks (f (t.containers c)).dependants x y)
    (htracked : ∀ x, ∀ h ∈ (t.containers c).handlesOf x, h ∈ (f (t.containers c)).handlesOf x) :
    Grows t (t.modifyContainer c f) where
  handles _ _ h := h
  resolutions r R h := ⟨R, h, rfl, rfl⟩
  edges c' x y h := by
    unfold Edge at h ⊢
    rw [containers_modifyContainer]
    split
    · next heq => exact hedges x y (heq ▸ h)
    · exact h
  tracked c' x h hh := by
    rw [containers_modifyContainer]
    split
    · next heq => exact htracked x h (heq ▸ hh)
    · exact hh

/-- The tables of a container hold what they held, and what is theirs. -/
theorem Placed.modify {c : Nat} {f : Container ι → Container ι} (h : Placed family t)
    (hg : Grows t t') (hcontainers : t'.containers = (t.modifyContainer c f).containers)
    (hparent : (f (t.containers c)).parent = (t.containers c).parent)
    (hinstances : ∀ x, ∀ k ∈ (f (t.containers c)).handlesOf x, k ∈ (t.containers c).handlesOf x ∨
      t'.Owner c x (.fulfilled (.instance k)))
    (hresolving : ∀ x r, (f (t.containers c)).resolving.get? x = some r →
      (t.containers c).resolving.get? x = some r ∨ t'.Owner c x (.resolution r)) :
    Placed family t' where
  parent c' := by
    rw [hcontainers, containers_modifyContainer]
    split
    · next heq => rw [hparent, heq, h.parent]
    · exact h.parent c'
  instances c' x k hk := by
    rw [hcontainers, containers_modifyContainer] at hk
    split at hk
    · next heq =>
      subst heq
      exact (hinstances x k hk).elim (fun hk => (h.instances _ x k hk).mono hg) id
    · exact (h.instances c' x k hk).mono hg
  resolving c' x r hr := by
    rw [hcontainers, containers_modifyContainer] at hr
    split at hr
    · next heq =>
      subst heq
      exact (hresolving x r hr).elim (fun hr => (h.resolving _ x r hr).mono hg) id
    · exact (h.resolving c' x r hr).mono hg

theorem tracks_recordDependant {c : Container ι} {x : ι} {dependant : Option ι} {y z : ι}
    (h : SetIndex.Tracks c.dependants y z) :
    SetIndex.Tracks (c.recordDependant x dependant).dependants y z := by
  cases dependant with
  | none => exact h
  | some d => exact (SetIndex.tracks_track x y d z).mpr (.inr h)

/-! ## One step of the traversal -/

/-- The other part of the tree is as it was. -/
theorem grows_of_eq (hcontainers : t'.containers = t.containers)
    (hresolutions : t'.resolutions = t.resolutions) (hhandles : t'.handles = t.handles) :
    Grows t t' where
  handles h e hget := hhandles ▸ hget
  resolutions r R hget := ⟨R, hresolutions ▸ hget, rfl, rfl⟩
  edges c x y h := by
    unfold Edge at h ⊢
    rwa [hcontainers]
  tracked c x h hh := by rwa [hcontainers]

theorem Placed.congr (h : Placed family t) (hg : Grows t t')
    (hcontainers : t'.containers = t.containers) : Placed family t' where
  parent := hcontainers ▸ h.parent
  instances c x k hk := (h.instances c x k (hcontainers ▸ hk)).mono hg
  resolving c x r hr := (h.resolving c x r (hcontainers ▸ hr)).mono hg

/-- The stack moves on; nothing else does. -/
theorem Traced.move (h : Traced family t) (hcontainers : t'.containers = t.containers)
    (hresolutions : t'.resolutions = t.resolutions) (hhandles : t'.handles = t.handles)
    (hstacked : Stacked family t') : Traced family t' := by
  have hg := grows_of_eq hcontainers hresolutions hhandles
  refine ⟨h.placed.congr hg hcontainers, hstacked, ?_, ?_⟩
  · rw [hresolutions]
    exact fun R hR => (h.resolutions R hR).mono hg
  · rw [hhandles]
    exact fun e he value hv => (h.handles e he value hv).mono hg

/-- The creation on top of the stack moves on. -/
theorem within_top {frame frame' : Frame ι} {frames : List (Frame ι)}
    (h : (frame :: frames).IsChain (Within family t)) (hcontainer : frame'.container = frame.container)
    (hinjectable : frame'.injectable = frame.injectable) :
    (frame' :: frames).IsChain (Within family t) := by
  cases frames with
  | nil => exact .singleton _
  | cons outer frames =>
    rw [List.isChain_cons_cons] at h ⊢
    refine ⟨?_, h.2⟩
    unfold Within
    rw [hcontainer, hinjectable]
    exact h.1

theorem Traced.deliver (h : Traced family t) {promise : Promise ι}
    (hpromise : ∀ frame ∈ t.frames.head?,
      Answers family t frame.container frame.injectable promise) :
    Traced family (t.deliver promise) := by
  obtain ⟨hcontainers, hresolutions, hhandles, hcurrent⟩ := deliver_frame (t := t) promise
  have hg := grows_of_eq hcontainers hresolutions hhandles
  have hnone : ∀ a, (t.deliver promise).current = some a → False := by
    rw [hcurrent]
    exact fun a ha => by cases ha
  have hframes := frames_deliver (t := t) promise
  refine h.move hcontainers hresolutions hhandles ⟨fun a ha => (hnone a ha).elim, ?_, ?_⟩
  · rw [hframes]
    have hwithin := h.stacked.within.imp fun inner outer hw =>
      (⟨hw.1, hg.edges _ _ _ hw.2⟩ : Within family (t.deliver promise) inner outer)
    cases hstack : t.frames with
    | nil => exact .nil
    | cons frame frames =>
      rw [hstack] at hwithin
      exact within_top hwithin rfl rfl
  · rw [hframes]
    have hold := h.stacked.frames
    cases hstack : t.frames with
    | nil => exact fun _ hmem => by cases hmem
    | cons frame frames =>
      rw [hstack] at hold hpromise
      intro other hother p hp
      obtain rfl | hother := List.mem_cons.mp hother
      · obtain hp | hp := List.mem_append.mp hp
        · exact (hold frame List.mem_cons_self p hp).mono hg
        · rw [List.mem_singleton.mp hp]
          exact (hpromise frame rfl).mono hg
      · exact (hold other (List.mem_cons_of_mem _ hother) p hp).mono hg

theorem delegate_eq_some {c p : Nat} {x : ι} (h : t.delegate injectables c x = some p) :
    (t.containers c).parent = some p := by
  unfold delegate at h
  split at h
  · next parent hparent =>
    split at h
    · cases h
      exact hparent
    · cases h
  · cases h

theorem grows_recorded (c : Nat) (x : ι) (dependant : Option ι) :
    Grows t (t.modifyContainer c (·.recordDependant x dependant)) :=
  grows_modifyContainer (fun _ _ h => tracks_recordDependant h) fun y h hh => by
    rwa [Container.handlesOf_recordDependant]

/-- The dependant is recorded by the container that owns the resolution. -/
theorem Traced.record (h : Traced family t) (c : Nat) (x : ι) (dependant : Option ι) :
    Traced family (t.modifyContainer c (·.recordDependant x dependant)) := by
  have hg : Grows t (t.modifyContainer c (·.recordDependant x dependant)) :=
    grows_recorded c x dependant
  refine ⟨h.placed.modify (f := (·.recordDependant x dependant)) hg rfl ?_ (fun y k hk => ?_)
    (fun y r hr => ?_), h.stacked.mono hg rfl rfl, fun R hR => (h.resolutions R hR).mono hg,
    fun e he value hv => (h.handles e he value hv).mono hg⟩
  · cases dependant <;> rfl
  · rw [Container.handlesOf_recordDependant] at hk
    exact .inl hk
  · refine .inl ?_
    cases dependant <;> exact hr

theorem edge_recorded {a : Activation ι} {dependant : ι} (h : a.request.dependant = some dependant) :
    (recorded t a).Edge a.container a.injectable dependant := by
  unfold Edge
  rw [recorded_containers, if_pos rfl, h]
  exact (SetIndex.tracks_track _ _ _ _).mpr (.inl ⟨rfl, rfl⟩)

theorem Traced.settle (h : Traced family t) {a : Activation ι} (ha : t.current = some a)
    {promise : Promise ι}
    (howner : IsOwned promise → (recorded t a).Owner a.container a.injectable promise) :
    Traced family ((recorded t a).deliver promise) := by
  refine Traced.deliver (h.record a.container a.injectable a.request.dependant) ?_
  intro frame hframe howned
  obtain ⟨hdependant, habove⟩ := h.stacked.current a ha frame hframe
  exact ⟨a.container, a.injectable, howner howned, habove, edge_recorded hdependant⟩

/-- A call ends with another call for the same dependant. -/
theorem Traced.redirect (h : Traced family t) {a b : Activation ι} (ha : t.current = some a)
    (hdependant : b.request.dependant = a.request.dependant)
    (habove : Above family a.container b.container) :
    Traced family { t with current := some b } := by
  refine h.move rfl rfl rfl ⟨fun b' hb frame hframe => ?_, h.stacked.within,
    fun frame hf promise hp => (h.stacked.frames frame hf promise hp).mono (grows_of_eq rfl rfl rfl)⟩
  obtain rfl : b = b' := Option.some.inj hb
  obtain ⟨hframe', habove'⟩ := h.stacked.current a ha frame hframe
  exact ⟨hdependant.trans hframe', habove'.trans habove⟩

theorem Traced.activate (h : Traced family t) {a : Activation ι} (ha : t.current = some a) :
    Traced family (t.activate injectables a) := by
  have hrecord : Traced family (recorded t a) :=
    h.record a.container a.injectable a.request.dependant
  have hunowned : ∀ {promise : Promise ι}, ¬ IsOwned promise → Traced family (t.deliver promise) :=
    fun hp => h.deliver fun _ _ howned => absurd howned hp
  have hactivated : Activated injectables t a (t.activate injectables a) := activated a
  generalize t.activate injectables a = t' at hactivated ⊢
  cases hactivated with
  | reject guard => exact hunowned id
  | provided guard provision => exact hunowned id
  | constant guard provision kind => exact hunowned id
  | aliasOf guard provision => exact h.redirect ha rfl .refl
  | delegate guard provision kind delegate =>
    have hparent := delegate_eq_some delegate
    rw [h.placed.parent] at hparent
    exact h.redirect ha rfl (.single hparent)
  | @cached handle owns transient handles =>
    refine h.settle ha fun _ => ?_
    refine hrecord.placed.instances a.container a.injectable handle ?_
    rw [recorded_containers, if_pos rfl, Container.handlesOf_recordDependant]
    exact List.mem_of_mem_head? handles
  | @inflight resolution owns transient resolving =>
    exact h.settle ha fun _ => h.placed.resolving a.container a.injectable resolution resolving
  | unowned owns unowned optional => exact h.settle ha fun howned => absurd howned unowned
  | create owns fresh factory =>
    refine hrecord.move rfl rfl rfl ⟨fun _ hnone => (by cases hnone), ?_, ?_⟩
    · cases hstack : t.frames with
      | nil => exact .singleton _
      | cons outer frames =>
        have hwithin := hrecord.stacked.within
        have hframes : (recorded t a).frames = outer :: frames := hstack
        rw [hframes] at hwithin
        refine List.isChain_cons_cons.mpr ⟨?_, hwithin⟩
        obtain ⟨hdependant, habove⟩ := h.stacked.current a ha outer (by rw [hstack]; rfl)
        exact ⟨habove, edge_recorded hdependant⟩
    · intro frame hframe promise hp
      obtain rfl | hframe := List.mem_cons.mp hframe
      · cases hp
      · exact (hrecord.stacked.frames frame hframe promise hp).mono (grows_of_eq rfl rfl rfl)

/-- The tree in which the creation on top of the stack awaits its dependencies. -/
def suspended (injectables : Injectables ι) (t : Tree ι) (frame : Frame ι)
    (frames : List (Frame ι)) : Tree ι :=
  { t.modifyContainer frame.container
      (·.start injectables frame.injectable t.resolutions.length) with
    frames
    resolutions := t.resolutions ++
      [{ container := frame.container, injectable := frame.injectable,
         awaits := frame.promises }] }

theorem suspend_eq (frame : Frame ι) (frames : List (Frame ι)) :
    t.suspend injectables frame frames =
      (suspended injectables t frame frames).deliver (.resolution t.resolutions.length) := rfl

theorem grows_suspended {frame : Frame ι} {frames : List (Frame ι)} :
    Grows t (suspended injectables t frame frames) where
  handles _ _ h := h
  resolutions _ R hR :=
    ⟨R, (List.getElem?_append_left (List.getElem?_eq_some_iff.mp hR).1).trans hR, rfl, rfl⟩
  edges := (grows_modifyContainer (f := (·.start injectables frame.injectable _))
    (fun _ _ h => h) fun _ _ h => h).edges
  tracked := (grows_modifyContainer (f := (·.start injectables frame.injectable _))
    (fun _ _ h => h) fun _ _ h => h).tracked

theorem owner_suspended (frame : Frame ι) (frames : List (Frame ι)) :
    (suspended injectables t frame frames).Owner frame.container frame.injectable
      (.resolution t.resolutions.length) :=
  ⟨_, List.getElem?_concat_length, rfl, rfl⟩

theorem Traced.suspended (h : Traced family t) (hcurrent : t.current = none) {frame : Frame ι}
    {frames : List (Frame ι)} (hframes : t.frames = frame :: frames) :
    Traced family (suspended injectables t frame frames) := by
  have hg : Grows t (Tree.suspended injectables t frame frames) := grows_suspended
  have hwithin := h.stacked.within
  have hold := h.stacked.frames
  rw [hframes] at hwithin hold
  refine ⟨h.placed.modify (f := (·.start injectables frame.injectable t.resolutions.length)) hg
    rfl rfl (fun y k hk => .inl hk) ?_, ⟨?_, ?_, ?_⟩, ?_, ?_⟩
  · intro y r hr
    dsimp only [Container.start] at hr
    split at hr
    · exact .inl hr
    · rw [OrdMap.get?_set] at hr
      split at hr
      · next hy =>
        cases hr
        rw [hy]
        exact .inr (owner_suspended frame frames)
      · exact .inl hr
  · intro a ha
    exact absurd (hcurrent.symm.trans ha) (by simp)
  · exact hwithin.of_cons.imp fun inner outer hw => ⟨hw.1, hg.edges _ _ _ hw.2⟩
  · exact fun f hf promise hp => (hold f (List.mem_cons_of_mem _ hf) promise hp).mono hg
  · intro R hR
    obtain hR | hR := List.mem_append.mp hR
    · exact (h.resolutions R hR).mono hg
    · rw [List.mem_singleton.mp hR]
      refine ⟨fun promise hp => (hold frame List.mem_cons_self promise hp).mono hg, ?_, ?_⟩
      · exact fun _ hphase => by cases hphase
      · exact fun _ hresult => by cases hresult
  · exact fun e he value hv => (h.handles e he value hv).mono hg

theorem Traced.suspend (h : Traced family t) (hcurrent : t.current = none) {frame : Frame ι}
    {frames : List (Frame ι)} (hframes : t.frames = frame :: frames) :
    Traced family (t.suspend injectables frame frames) := by
  rw [suspend_eq]
  refine (h.suspended hcurrent hframes).deliver fun outer houter _ => ?_
  have hwithin := h.stacked.within
  rw [hframes] at hwithin
  cases frames with
  | nil => cases houter
  | cons outer' frames =>
    obtain rfl : outer' = outer := Option.some.inj houter
    obtain ⟨habove, hedge⟩ := (List.isChain_cons_cons.mp hwithin).1
    exact ⟨frame.container, frame.injectable, owner_suspended _ _, habove,
      grows_suspended.edges _ _ _ hedge⟩

theorem Traced.tick (h : Traced family t) : Traced family (t.tick injectables) := by
  unfold Tree.tick
  split
  · next hcurrent => exact h.activate hcurrent
  · next frame frames hcurrent hframes =>
    split
    · next dependency todo htodo =>
      have hwithin := h.stacked.within
      have hold := h.stacked.frames
      rw [hframes] at hwithin hold
      refine h.move rfl rfl rfl ⟨?_, within_top hwithin rfl rfl, ?_⟩
      · intro a ha top htop
        cases ha
        cases htop
        exact ⟨rfl, .refl⟩
      · intro top htop promise hp
        obtain rfl | htop := List.mem_cons.mp htop
        · exact hold frame List.mem_cons_self promise hp
        · exact hold top (List.mem_cons_of_mem _ htop) promise hp
    · next htodo => exact h.suspend hcurrent hframes
  · exact h

/-! ## The other events -/

theorem grows_setPhase (r : Nat) (phase : CreationPhase ι) : Grows t (t.setPhase r phase) where
  handles _ _ h := h
  resolutions k R hR := by
    dsimp only [setPhase]
    rw [List.getElem?_modify, hR]
    split
    · exact ⟨_, rfl, rfl, rfl⟩
    · exact ⟨R, rfl, rfl, rfl⟩
  edges _ _ _ h := h
  tracked _ _ _ h := h

theorem Traced.setPhase (h : Traced family t) {r : Nat} {R : TreeResolution ι}
    (hR : t.resolutions[r]? = some R) {phase : CreationPhase ι}
    (hrecorded : Recorded family t { R with phase }) : Traced family (t.setPhase r phase) := by
  have hg := grows_setPhase (t := t) r phase
  refine ⟨h.placed.congr hg rfl, h.stacked.mono hg rfl rfl, fun R' hR' => ?_,
    fun e he value hv => (h.handles e he value hv).mono hg⟩
  obtain hold | ⟨R₀, hget, rfl⟩ := mem_modify hR'
  · exact (h.resolutions R' hold).mono hg
  · rw [hR] at hget
    cases hget
    exact hrecorded.mono hg

/-- A phase without a value. -/
theorem Recorded.setPhase {R : TreeResolution ι} (h : Recorded family t R) {phase : CreationPhase ι}
    (hcreating : ∀ context, phase ≠ .creating context)
    (hresult : ∀ value, phase.result? = some (.ok value) → R.phase.result? = some (.ok value)) :
    Recorded family t { R with phase } where
  awaits := h.awaits
  creating context hphase := absurd hphase (hcreating context)
  result value hvalue := h.result value (hresult value hvalue)

omit [DecidableEq ι] in
theorem mem_all? {promises : List (Promise ι)} {values : List Value}
    (h : t.all? promises = some (.ok values)) {value : Value} (hv : value ∈ values) :
    ∃ promise ∈ promises, t.result? promise = some (.ok value) := by
  induction promises generalizing values with
  | nil =>
    cases h
    cases hv
  | cons promise promises ih =>
    unfold all? at h
    split at h
    · cases h
    · cases h
    · next first rest hfirst hrest =>
      cases h
      obtain rfl | hv := List.mem_cons.mp hv
      · exact ⟨promise, List.mem_cons_self, hfirst⟩
      · obtain ⟨p, hp, hresult⟩ := ih hrest hv
        exact ⟨p, List.mem_cons_of_mem _ hp, hresult⟩
    · cases h
    · cases h

/-- What answers a dependant still answers it when it has settled. -/
theorem Traced.answers_result (h : Traced family t) {c : Nat} {y : ι} {promise : Promise ι}
    (ha : Answers family t c y promise) {value : Value}
    (hresult : t.result? promise = some (.ok value)) :
    Answers family t c y (.fulfilled value) := by
  cases promise with
  | fulfilled value' =>
    cases hresult
    exact ha
  | rejected error => cases hresult
  | resolution r =>
    intro _
    obtain ⟨o, x, ⟨R, hR, hc, hx⟩, habove, hedge⟩ := ha trivial
    dsimp only [result?] at hresult
    rw [hR] at hresult
    have howner := (h.resolutions R (List.mem_of_getElem? hR)).result value hresult
    rw [hc, hx] at howner
    exact ⟨o, x, howner, habove, hedge⟩

theorem Traced.context (h : Traced family t) (r : Nat) : Traced family (t.context r) := by
  unfold Tree.context
  split
  · next c x awaits hR =>
    have hrecorded := h.resolutions _ (List.mem_of_getElem? hR)
    split
    · next context hall =>
      refine h.setPhase hR ⟨hrecorded.awaits, fun context' hphase value hv => ?_,
        fun _ hresult => (by cases hresult)⟩
      cases hphase
      obtain ⟨promise, hp, hresult⟩ := mem_all? hall hv
      exact h.answers_result (hrecorded.awaits promise hp) hresult
    · exact h.setPhase hR (hrecorded.setPhase (fun _ hphase => by cases hphase)
        fun _ hresult => by cases hresult)
    · exact h
  · exact h

/-- The tree in which a resolution has created an instance. -/
def created (injectables : Injectables ι) (t : Tree ι) (r c : Nat) (x : ι) (context : List Value) :
    Tree ι :=
  { (t.setPhase r (.settled (.ok (.instance t.handles.length)))).modifyContainer c
      (·.register injectables x t.handles.length) with
    handles := t.handles ++ [{ container := c, injectable := x, context }] }

theorem dependants_register (c : Container ι) (x : ι) (handle : Nat) :
    (c.register injectables x handle).dependants = c.dependants ∧
      (c.register injectables x handle).parent = c.parent := by
  unfold Container.register
  split
  · split <;> exact ⟨rfl, rfl⟩
  · exact ⟨rfl, rfl⟩

theorem mem_handlesOf_register {c : Container ι} {x y : ι} {handle k : Nat}
    (h : k ∈ (c.register injectables x handle).handlesOf y) :
    k ∈ c.handlesOf y ∨ y = x ∧ k = handle := by
  by_cases htracks : Container.tracks injectables x
  · rw [Container.handlesOf_register injectables x y handle htracks] at h
    split at h
    · next heq =>
      obtain hk | hk := List.mem_append.mp h
      · exact .inl (heq ▸ hk)
      · exact .inr ⟨heq, List.mem_singleton.mp hk⟩
    · exact .inl h
  · rw [Container.register_of_not_tracks injectables x handle htracks] at h
    exact .inl h

theorem handlesOf_register_mono {c : Container ι} {x y : ι} {handle k : Nat}
    (h : k ∈ c.handlesOf y) : k ∈ (c.register injectables x handle).handlesOf y := by
  by_cases htracks : Container.tracks injectables x
  · rw [Container.handlesOf_register injectables x y handle htracks]
    split
    · next heq => exact List.mem_append_left _ (heq ▸ h)
    · exact h
  · rwa [Container.register_of_not_tracks injectables x handle htracks]

theorem grows_register (c : Nat) (x : ι) (handle : Nat) :
    Grows t (t.modifyContainer c (·.register injectables x handle)) :=
  grows_modifyContainer
    (fun y z h => by rwa [(dependants_register (t.containers c) x handle).1])
    fun _ _ h => handlesOf_register_mono h

theorem grows_created {r c : Nat} {x : ι} {context : List Value} :
    Grows t (created injectables t r c x context) where
  handles _ _ h := (List.getElem?_append_left (List.getElem?_eq_some_iff.mp h).1).trans h
  resolutions := (grows_setPhase r _).resolutions
  edges := (grows_register c x t.handles.length).edges
  tracked := (grows_register c x t.handles.length).tracked

theorem Traced.created (h : Traced family t) {r c : Nat} {x : ι} {awaits : List (Promise ι)}
    {context : List Value} (hR : t.resolutions[r]? = some ⟨c, x, awaits, .creating context⟩) :
    Traced family (created injectables t r c x context) := by
  have hg : Grows t (Tree.created injectables t r c x context) := grows_created
  have hrecorded := h.resolutions _ (List.mem_of_getElem? hR)
  have howner : (Tree.created injectables t r c x context).Owner c x
      (.fulfilled (.instance t.handles.length)) := ⟨context, List.getElem?_concat_length⟩
  refine ⟨h.placed.modify (f := (·.register injectables x t.handles.length)) hg rfl
    (dependants_register _ x _).2 ?_ ?_, h.stacked.mono hg rfl rfl, fun R hR' => ?_,
    fun e he value hv => ?_⟩
  · intro y k hk
    obtain hk | ⟨rfl, rfl⟩ := mem_handlesOf_register hk
    · exact .inl hk
    · exact .inr howner
  · intro y k hk
    rw [(Container.register_frame injectables (t.containers c) x t.handles.length).2.1] at hk
    exact .inl hk
  · obtain hold | ⟨R₀, hget, rfl⟩ := mem_modify hR'
    · exact (h.resolutions R hold).mono hg
    · rw [hR] at hget
      cases hget
      refine ⟨(hrecorded.mono hg).awaits, fun _ hphase => (by cases hphase), fun value hvalue => ?_⟩
      cases hvalue
      exact howner
  · obtain he | he := List.mem_append.mp he
    · exact (h.handles e he value hv).mono hg
    · rw [List.mem_singleton.mp he] at hv ⊢
      exact (hrecorded.creating context rfl value hv).mono hg

theorem Traced.create (h : Traced family t) (r : Nat) (succeeds : Bool) :
    Traced family (t.create injectables r succeeds) := by
  unfold Tree.create
  split
  · next c x awaits context hR =>
    split
    · exact h.created hR
    · exact h.setPhase hR ((h.resolutions _ (List.mem_of_getElem? hR)).setPhase
        (fun _ hphase => by cases hphase) fun _ hresult => by cases hresult)
  · exact h

theorem Traced.pickThrows (h : Traced family t) (r : Nat) : Traced family (t.pickThrows r) := by
  unfold Tree.pickThrows
  split
  · next hR =>
    exact h.setPhase hR ((h.resolutions _ (List.mem_of_getElem? hR)).setPhase
      (fun _ hphase => by cases hphase) fun _ hresult => by cases hresult)
  · exact h

theorem Traced.discard (h : Traced family t) (r : Nat) : Traced family (t.discard r) := by
  unfold Tree.discard
  split
  · next hR =>
    exact h.setPhase hR ((h.resolutions _ (List.mem_of_getElem? hR)).setPhase
      (fun _ hphase => by cases hphase) fun _ hresult => by cases hresult)
  · exact h

theorem grows_clear (c : Nat) (x : ι) (r : Nat) : Grows t (t.modifyContainer c (·.clear x r)) :=
  grows_modifyContainer (fun _ _ h => h) fun _ _ h => h

theorem Traced.clear (h : Traced family t) (r : Nat) : Traced family (t.clear r) := by
  unfold Tree.clear
  split
  · next c x awaits result hR =>
    have hcleared : Traced family (t.setPhase r (.cleared result)) :=
      h.setPhase hR ((h.resolutions _ (List.mem_of_getElem? hR)).setPhase
        (fun _ hphase => by cases hphase) fun _ hresult => hresult)
    generalize t.setPhase r (.cleared result) = u at hcleared ⊢
    have hg : Grows u (u.modifyContainer c (·.clear x r)) := grows_clear c x r
    refine ⟨hcleared.placed.modify (f := (·.clear x r)) hg rfl rfl (fun y k hk => .inl hk) ?_,
      hcleared.stacked.mono hg rfl rfl, fun R hR => (hcleared.resolutions R hR).mono hg,
      fun e he value hv => (hcleared.handles e he value hv).mono hg⟩
    intro y k hk
    dsimp only [Container.clear] at hk
    rw [OrdMap.get?_erase] at hk
    split at hk
    · cases hk
    · exact .inl hk
  · exact h

theorem Traced.step (h : Traced family t) (event : TreeEvent ι) :
    Traced family (step injectables t event) := by
  cases event with
  | tick => exact h.tick
  | resolve c x =>
    dsimp only [Tree.step]
    split
    · next hidle =>
      have hempty : t.frames = [] := by
        unfold isIdle at hidle
        simpa using (Bool.and_eq_true_iff.mp hidle).2
      refine h.move rfl rfl rfl ⟨fun a _ frame hframe => ?_, h.stacked.within, ?_⟩
      · rw [hempty] at hframe
        cases hframe
      · exact fun frame hf promise hp => (h.stacked.frames frame hf promise hp).mono
          (grows_of_eq rfl rfl rfl)
    · exact h
  | context r =>
    dsimp only [Tree.step]
    split
    · exact h.context r
    · exact h
  | create r succeeds =>
    dsimp only [Tree.step]
    split
    · exact h.create r succeeds
    · exact h
  | pickThrows r =>
    dsimp only [Tree.step]
    split
    · exact h.pickThrows r
    · exact h
  | discard r =>
    dsimp only [Tree.step]
    split
    · exact h.discard r
    · exact h
  | clear r =>
    dsimp only [Tree.step]
    split
    · exact h.clear r
    · exact h

theorem traced_tree : Traced family family.tree where
  placed :=
    { parent := fun _ => rfl
      instances := fun _ _ _ hk => by cases hk
      resolving := fun _ _ _ hr => by cases hr }
  stacked :=
    { current := fun _ ha => by cases ha
      within := .nil
      frames := fun _ hf => by cases hf }
  resolutions := fun _ hR => by cases hR
  handles := fun _ he => by cases he

/-- In every tree that the events lead to, what an instance is created from is recorded with it. -/
theorem traced_run (events : List (TreeEvent ι)) :
    Traced family (Trace.run (Tree.step injectables) family.tree events) :=
  Trace.run_inv (P := fun _ => True) (Tree.step injectables) (fun _ event _ h => h.step event)
    (fun _ _ => trivial) traced_tree

/-! ## Instances stay entered -/

theorem grows_deliver (promise : Promise ι) : Grows t (t.deliver promise) :=
  have ⟨hcontainers, hresolutions, hhandles, _⟩ := deliver_frame (t := t) promise
  grows_of_eq hcontainers hresolutions hhandles

theorem grows_activate (a : Activation ι) : Grows t (t.activate injectables a) ∧
    (t.activate injectables a).handles = t.handles := by
  have hactivated : Activated injectables t a (t.activate injectables a) := activated a
  generalize t.activate injectables a = t' at hactivated ⊢
  have hrecorded : Grows t (recorded t a) :=
    grows_recorded a.container a.injectable a.request.dependant
  have hdeliver : ∀ (u : Tree ι) (promise : Promise ι), u.handles = t.handles →
      (u.deliver promise).handles = t.handles :=
    fun u promise hu => (deliver_frame promise).2.2.1.trans hu
  cases hactivated with
  | reject | provided | constant => exact ⟨grows_deliver _, hdeliver t _ rfl⟩
  | aliasOf | delegate => exact ⟨grows_of_eq rfl rfl rfl, rfl⟩
  | cached | inflight | unowned =>
    exact ⟨hrecorded.trans (grows_deliver _), hdeliver (recorded t a) _ rfl⟩
  | create => exact ⟨hrecorded.trans (grows_of_eq rfl rfl rfl), rfl⟩

theorem grows_tick : Grows t (t.tick injectables) ∧ (t.tick injectables).handles = t.handles := by
  unfold Tree.tick
  split
  · exact grows_activate _
  · next frame frames _ _ =>
    split
    · exact ⟨grows_of_eq rfl rfl rfl, rfl⟩
    · rw [suspend_eq]
      exact ⟨grows_suspended.trans (grows_deliver _), (deliver_frame _).2.2.1⟩
  · exact ⟨.refl t, rfl⟩

variable (injectables t) in
/-- Only the end of `create` enters an instance. -/
theorem step_cases (event : TreeEvent ι) :
    (Grows t (step injectables t event) ∧ (step injectables t event).handles = t.handles) ∨
      ∃ r c x awaits context, t.resolutions[r]? = some ⟨c, x, awaits, .creating context⟩ ∧
        step injectables t event = created injectables t r c x context := by
  have hphase : ∀ r phase, Grows t (t.setPhase r phase) ∧ (t.setPhase r phase).handles = t.handles :=
    fun r phase => ⟨grows_setPhase r phase, rfl⟩
  have hsame : Grows t t ∧ t.handles = t.handles := ⟨.refl t, rfl⟩
  cases event with
  | tick => exact .inl grows_tick
  | resolve c x =>
    refine .inl ?_
    dsimp only [step]
    split
    · exact ⟨grows_of_eq rfl rfl rfl, rfl⟩
    · exact hsame
  | context r =>
    refine .inl ?_
    dsimp only [step]
    unfold Tree.context
    split
    · split
      · split
        · exact hphase r _
        · exact hphase r _
        · exact hsame
      · exact hsame
    · exact hsame
  | create r succeeds =>
    dsimp only [step]
    unfold Tree.create
    split
    · split
      · next c x awaits context hR =>
        split
        · exact .inr ⟨r, c, x, awaits, context, hR, rfl⟩
        · exact .inl (hphase r _)
      · exact .inl hsame
    · exact .inl hsame
  | pickThrows r =>
    refine .inl ?_
    dsimp only [step]
    unfold Tree.pickThrows
    split
    · split
      · exact hphase r _
      · exact hsame
    · exact hsame
  | discard r =>
    refine .inl ?_
    dsimp only [step]
    unfold Tree.discard
    split
    · split
      · exact hphase r _
      · exact hsame
    · exact hsame
  | clear r =>
    refine .inl ?_
    dsimp only [step]
    unfold Tree.clear
    split
    · split
      · next c x awaits result hR =>
        exact ⟨(hphase r _).1.trans (grows_clear c x r), rfl⟩
      · exact hsame
    · exact hsame

/-- Every instance is entered with its container, unless it is a transient without a dispose hook. -/
def Entered (injectables : Injectables ι) (t : Tree ι) : Prop :=
  ∀ k e, t.handles[k]? = some e → Container.tracks injectables e.injectable →
    k ∈ (t.containers e.container).handlesOf e.injectable

theorem Entered.step (h : Entered injectables t) (event : TreeEvent ι) :
    Entered injectables (step injectables t event) := by
  intro k e hk htracks
  obtain ⟨hg, hhandles⟩ | ⟨r, c, x, awaits, context, hR, heq⟩ :=
    step_cases injectables t event
  · rw [hhandles] at hk
    exact hg.tracked _ _ k (h k e hk htracks)
  · rw [heq] at hk ⊢
    obtain hk | ⟨rfl, rfl⟩ := getElem?_concat_iff.mp hk
    · exact grows_created.tracked _ _ k (h k e hk htracks)
    · have hcontainer : (created injectables t r c x context).containers c =
          (t.containers c).register injectables x t.handles.length :=
        (containers_modifyContainer (t := t.setPhase r _) c c
          (·.register injectables x t.handles.length)).trans (if_pos rfl)
      dsimp only at htracks ⊢
      rw [hcontainer, Container.handlesOf_register injectables x x _ htracks, if_pos rfl]
      exact List.mem_append_right _ List.mem_cons_self

theorem entered_run (events : List (TreeEvent ι)) :
    Entered injectables (Trace.run (Tree.step injectables) family.tree events) :=
  Trace.run_inv (P := fun _ => True) (Tree.step injectables) (fun _ event _ h => h.step event)
    (fun _ _ => trivial) fun _ _ hk => by cases hk

end Neemata.Core.Tree
