import Neemata.Core.Disposal
import Neemata.Lib.Entries

/-!
# What disposals keep

A handle is dropped from its table only when its hook has settled: a second disposal that begins
before finds it there and calls the hook again. Events that do not run into this fit the state they
meet (`Fits`). The invariant (`Sound`) is split into the tables of the handles, the disposals in
flight, the resolutions in flight and `Container.dispose`; each part has a lemma for everything that
happens to it.
-/

namespace Neemata.Core

namespace Disposal

variable {ι : Type}

/-- The injectable whose hooks the disposal has called. -/
def engaged : Disposal ι → Option ι
  | .instances x => some x
  | .order x _ => x
  | .transients _ _ | .pending | .settled => none

/-- The transient handle whose hook the disposal has called. -/
def active : Disposal ι → Option Nat
  | .transients handle _ => some handle
  | .instances _ | .pending | .order _ _ | .settled => none

/-- The transient handles the disposal has matched. -/
def claimed : Disposal ι → List Nat
  | .transients handle rest => handle :: rest
  | .instances _ | .pending | .order _ _ | .settled => []

def isContainer : Disposal ι → Bool
  | .pending | .order _ _ => true
  | .instances _ | .transients _ _ | .settled => false

end Disposal

namespace DisposalState

variable {ι : Type} [DecidableEq ι] {injectables : Injectables ι} {s : DisposalState ι}

/-! ## The condition -/

/-- The resolution that has created the instance has not been delivered. -/
def Undelivered (s : DisposalState ι) (handle : Nat) : Prop :=
  ∃ r ∈ s.resolutions, r.phase = .settled (some handle)

/-- No disposal is after the instances of `x`, and their resolutions have been delivered. -/
def Free (s : DisposalState ι) (x : ι) : Prop :=
  (∀ disposal ∈ s.disposals, disposal.engaged ≠ some x ∧
    ∀ handle ∈ s.container.handlesOf x, handle ∉ disposal.claimed) ∧
  ∀ handle ∈ s.container.handlesOf x, ¬ s.Undelivered handle

/-- The event starts no disposal of an instance that another disposal is after, and none of an
instance that is being returned; it returns no instance a disposal is after; no second
`Container.dispose` begins while one is in flight, and no hook of an individually disposed instance
fails. -/
def Fits (injectables : Injectables ι) (s : DisposalState ι) : DisposalEvent ι → Prop
  | .resolve x _ _ =>
    s.container.disposing = true ∨ ∀ disposal ∈ s.disposals, disposal.engaged ≠ some x
  | .create _ _ | .discard _ | .clear _ => True
  | .dispose x value =>
    if injectables.isTransient x then
      ∀ handle ∈ (value.map s.matched).getD [],
        (∀ disposal ∈ s.disposals, handle ∉ disposal.claimed) ∧ ¬ s.Undelivered handle
    else s.Free x
  | .disposeContainer =>
    (∀ disposal ∈ s.disposals, disposal.isContainer = false) ∧
      (s.container.pending = [] → ∀ x ∈ s.container.getDisposalOrder.head?, s.Free x)
  | .resume i fails =>
    match s.disposals[i]? with
    | some (.transients _ _) => fails = false
    | some .pending =>
      s.container.pending = [] → ∀ x ∈ s.container.getDisposalOrder.head?, s.Free x
    | some (.order _ order) => ∀ x ∈ order.head?, s.Free x
    | some (.instances _) | some .settled | none => True

instance (s : DisposalState ι) (handle : Nat) : Decidable (s.Undelivered handle) :=
  inferInstanceAs (Decidable (∃ r ∈ s.resolutions, r.phase = .settled (some handle)))

instance (s : DisposalState ι) (x : ι) : Decidable (s.Free x) :=
  inferInstanceAs (Decidable ((∀ disposal ∈ s.disposals, disposal.engaged ≠ some x ∧
    ∀ handle ∈ s.container.handlesOf x, handle ∉ disposal.claimed) ∧
    ∀ handle ∈ s.container.handlesOf x, ¬ s.Undelivered handle))

instance (s : DisposalState ι) : (event : DisposalEvent ι) → Decidable (Fits injectables s event)
  | .resolve x _ _ => inferInstanceAs (Decidable (s.container.disposing = true ∨
      ∀ disposal ∈ s.disposals, disposal.engaged ≠ some x))
  | .create _ _ | .discard _ | .clear _ => isTrue trivial
  | .dispose x value => inferInstanceAs (Decidable (if injectables.isTransient x then
      ∀ handle ∈ (value.map s.matched).getD [],
        (∀ disposal ∈ s.disposals, handle ∉ disposal.claimed) ∧ ¬ s.Undelivered handle
      else s.Free x))
  | .disposeContainer => inferInstanceAs (Decidable (
      (∀ disposal ∈ s.disposals, disposal.isContainer = false) ∧
        (s.container.pending = [] → ∀ x ∈ s.container.getDisposalOrder.head?, s.Free x)))
  | .resume i fails =>
    match h : s.disposals[i]? with
    | some (.transients _ _) => decidable_of_iff (fails = false) (by simp only [Fits, h])
    | some .pending => decidable_of_iff (s.container.pending = [] →
        ∀ x ∈ s.container.getDisposalOrder.head?, s.Free x) (by simp only [Fits, h])
    | some (.order _ order) =>
      decidable_of_iff (∀ x ∈ order.head?, s.Free x) (by simp only [Fits, h])
    | some (.instances _) | some .settled | none => isTrue (by simp only [Fits, h])

/-! ## The invariant -/

def Began (s : DisposalState ι) (handle : Nat) : Prop := .disposal handle ∈ s.history

/-- The tables of the handles: every tracked handle is in the list of its own injectable, and a
handle with a hook leaves it only when it has been disposed. -/
structure Tables (injectables : Injectables ι) (container : Container ι)
    (handles : List (InstanceHandle ι)) (began : Nat → Prop) : Prop where
  noEmpty : container.NoEmpty
  nodup : ∀ x, (container.handlesOf x).Nodup
  entry : ∀ x, ∀ h ∈ container.handlesOf x, ∃ e, handles[h]? = some e ∧ e.injectable = x
  indexed : ∀ h ∈ container.transientHandles,
    ¬ began h ∧ ∃ x, injectables.isTransient x ∧ h ∈ container.handlesOf x
  indexNodup : container.transientHandles.Nodup
  kept : ∀ h e, handles[h]? = some e → injectables.hasDispose e.injectable →
    began h ∨ h ∈ container.handlesOf e.injectable
  bounded : ∀ h, began h → h < handles.length

/-- The disposals: a tracked handle is being disposed by one of them or has not been disposed, and
no two are after the same handle. -/
structure Claims (injectables : Injectables ι) (handlesOf : ι → List Nat)
    (slot : Nat → Disposal ι) (began undelivered : Nat → Prop) : Prop where
  began : ∀ x, ∀ h ∈ handlesOf x,
    (began h ↔ ∃ j, (slot j).engaged = some x ∨ (slot j).active = some h)
  engaged : ∀ j x, (slot j).engaged = some x → handlesOf x ≠ []
  engagedOnce : ∀ i j x, (slot i).engaged = some x → (slot j).engaged = some x → i = j
  explicit : ∀ j x, slot j = .instances x → ¬ injectables.isTransient x
  claimed : ∀ j, ∀ h ∈ (slot j).claimed, ¬ undelivered h ∧ ∃ x, injectables.isTransient x ∧
    h ∈ handlesOf x ∧ ∀ i, (slot i).engaged ≠ some x
  claimedNodup : ∀ j, (slot j).claimed.Nodup
  claimedOnce : ∀ i j h, h ∈ (slot i).claimed → h ∈ (slot j).claimed → i = j

/-- The resolutions in flight. -/
structure Flight (injectables : Injectables ι) (container : Container ι)
    (resolutions : List (Resolution ι)) : Prop where
  pending : ∀ r, r ∈ container.pending ↔ ∃ R, resolutions[r]? = some R ∧ R.phase ≠ .cleared
  pendingNodup : container.pending.Nodup
  resolving : ∀ (r : Nat) (R : Resolution ι), resolutions[r]? = some R → R.phase ≠ .cleared →
    ¬ injectables.isTransient R.injectable → container.resolving.get? R.injectable = some r
  creating : ∀ (r : Nat) (R : Resolution ι), resolutions[r]? = some R → R.phase = .creating →
    ¬ injectables.isTransient R.injectable → container.handlesOf R.injectable = []

/-- At most one `Container.dispose` is in flight, and its order has all injectables with handles. -/
structure Sweep (container : Container ι) (slot : Nat → Disposal ι) : Prop where
  once : ∀ i j, (slot i).isContainer → (slot j).isContainer → i = j
  disposing : container.disposing = true ↔ ∃ j, (slot j).isContainer
  order : ∀ j x rest, slot j = .order x rest → container.pending = [] ∧
    ∀ y, container.handlesOf y ≠ [] → x = some y ∨ y ∈ rest

/-- The disposal with a number; one that has not begun is as one that has settled. -/
def slot (s : DisposalState ι) (i : Nat) : Disposal ι := s.disposals.getD i .settled

structure Sound (injectables : Injectables ι) (s : DisposalState ι) : Prop where
  tables : Tables injectables s.container s.handles s.Began
  claims : Claims injectables s.container.handlesOf s.slot s.Began s.Undelivered
  flight : Flight injectables s.container s.resolutions
  sweep : Sweep s.container s.slot
  undelivered : ∀ h, s.Undelivered h → ¬ s.Began h ∧ h < s.handles.length
  fair : s.history.Pairwise DisposalEntry.Fair
  final : Final s.history → s.container.pending = [] ∧ ∀ h e, s.handles[h]? = some e →
    injectables.hasDispose e.injectable → s.Began h

/-! ## The disposals in flight -/

section Claims

variable {handlesOf handlesOf' : ι → List Nat} {slot : Nat → Disposal ι}
  {began began' undelivered undelivered' : Nat → Prop} {i : Nat} {new : Disposal ι} {x : ι}

/-- A disposal that is after no instance. -/
structure Idle (d : Disposal ι) : Prop where
  engaged : d.engaged = none
  active : d.active = none
  claimed : d.claimed = []

omit [DecidableEq ι] in
/-- A disposal goes on to wait for something else; what it is after now no other one is after. -/
theorem Claims.update (h : Claims injectables handlesOf slot began undelivered)
    (hbegan : ∀ x, ∀ k ∈ handlesOf' x, (began' k ↔ new.engaged = some x ∨ new.active = some k ∨
      ∃ j, j ≠ i ∧ ((slot j).engaged = some x ∨ (slot j).active = some k)))
    (hhandles : ∀ j, j ≠ i → ∀ x, (slot j).engaged = some x → handlesOf' x ≠ [])
    (hengaged : ∀ x, new.engaged = some x → handlesOf' x ≠ [] ∧
      ∀ j, j ≠ i → (slot j).engaged ≠ some x ∧ ∀ k ∈ (slot j).claimed, k ∉ handlesOf' x)
    (hexplicit : ∀ x, new = .instances x → ¬ injectables.isTransient x)
    (hundelivered : ∀ k, undelivered' k → undelivered k)
    (hclaimed : ∀ k ∈ new.claimed, ¬ undelivered' k ∧ (∃ x, injectables.isTransient x ∧
      k ∈ handlesOf' x ∧ new.engaged ≠ some x ∧ ∀ j, j ≠ i → (slot j).engaged ≠ some x) ∧
      ∀ j, j ≠ i → k ∉ (slot j).claimed)
    (hnodup : new.claimed.Nodup)
    (hkept : ∀ j, j ≠ i → ∀ k ∈ (slot j).claimed, ∀ x, k ∈ handlesOf x → k ∈ handlesOf' x) :
    Claims injectables handlesOf' (Function.update slot i new) began' undelivered' where
  began y k hk := by
    rw [hbegan y k hk]
    constructor
    · rintro (hnew | hnew | ⟨j, hj, hold⟩)
      · exact ⟨i, by simp [hnew]⟩
      · exact ⟨i, by simp [hnew]⟩
      · exact ⟨j, by rwa [Function.update_of_ne hj]⟩
    · rintro ⟨j, hj⟩
      by_cases hji : j = i
      · subst hji
        rw [Function.update_self] at hj
        exact hj.imp_right .inl
      · rw [Function.update_of_ne hji] at hj
        exact .inr (.inr ⟨j, hji, hj⟩)
  engaged j y hj := by
    by_cases hji : j = i
    · subst hji
      rw [Function.update_self] at hj
      exact (hengaged y hj).1
    · rw [Function.update_of_ne hji] at hj
      exact hhandles j hji y hj
  engagedOnce j k y hj hk := by
    by_cases hji : j = i <;> by_cases hki : k = i
    · rw [hji, hki]
    · subst hji
      rw [Function.update_self] at hj
      rw [Function.update_of_ne hki] at hk
      exact absurd hk ((hengaged y hj).2 k hki).1
    · subst hki
      rw [Function.update_self] at hk
      rw [Function.update_of_ne hji] at hj
      exact absurd hj ((hengaged y hk).2 j hji).1
    · rw [Function.update_of_ne hji] at hj
      rw [Function.update_of_ne hki] at hk
      exact h.engagedOnce j k y hj hk
  explicit j y hj := by
    by_cases hji : j = i
    · subst hji
      rw [Function.update_self] at hj
      exact hexplicit y hj
    · rw [Function.update_of_ne hji] at hj
      exact h.explicit j y hj
  claimed j k hk := by
    by_cases hji : j = i
    · subst hji
      rw [Function.update_self] at hk
      obtain ⟨hdelivered, ⟨y, htransient, hmem, hself, hfree⟩, -⟩ := hclaimed k hk
      refine ⟨hdelivered, y, htransient, hmem, fun m => ?_⟩
      by_cases hm : m = j
      · rwa [hm, Function.update_self]
      · rw [Function.update_of_ne hm]
        exact hfree m hm
    · rw [Function.update_of_ne hji] at hk
      obtain ⟨hdelivered, y, htransient, hmem, hfree⟩ := h.claimed j k hk
      have hmem' := hkept j hji k hk y hmem
      refine ⟨fun hu => hdelivered (hundelivered k hu), y, htransient, hmem', fun m => ?_⟩
      by_cases hm : m = i
      · subst hm
        rw [Function.update_self]
        exact fun hnew => ((hengaged y hnew).2 j hji).2 k hk hmem'
      · rw [Function.update_of_ne hm]
        exact hfree m
  claimedNodup j := by
    by_cases hji : j = i
    · rwa [hji, Function.update_self]
    · rw [Function.update_of_ne hji]
      exact h.claimedNodup j
  claimedOnce j k m hj hk := by
    by_cases hji : j = i <;> by_cases hki : k = i
    · rw [hji, hki]
    · subst hji
      rw [Function.update_self] at hj
      rw [Function.update_of_ne hki] at hk
      exact absurd hk ((hclaimed m hj).2.2 k hki)
    · subst hki
      rw [Function.update_self] at hk
      rw [Function.update_of_ne hji] at hj
      exact absurd hj ((hclaimed m hk).2.2 j hji)
    · rw [Function.update_of_ne hji] at hj
      rw [Function.update_of_ne hki] at hk
      exact h.claimedOnce j k m hj hk

omit [DecidableEq ι] in
/-- The tables change under the disposals: what they are after stays, and what enters is fresh. -/
theorem Claims.frame (h : Claims injectables handlesOf slot began undelivered)
    (hbegan : ∀ x, ∀ k ∈ handlesOf' x, k ∈ handlesOf x ∧ (began' k ↔ began k) ∨
      ¬ began' k ∧ ∀ j, (slot j).engaged ≠ some x ∧ (slot j).active ≠ some k)
    (hhandles : ∀ j x, (slot j).engaged = some x → handlesOf' x ≠ [])
    (hundelivered : ∀ j, ∀ k ∈ (slot j).claimed, undelivered' k → undelivered k)
    (hkept : ∀ j, ∀ k ∈ (slot j).claimed, ∀ x, k ∈ handlesOf x → k ∈ handlesOf' x) :
    Claims injectables handlesOf' slot began' undelivered' := { h with
  began x k hk := by
    obtain ⟨hmem, hsame⟩ | ⟨hnot, hfree⟩ := hbegan x k hk
    · rw [hsame, h.began x k hmem]
    · refine iff_of_false hnot ?_
      rintro ⟨j, hj | hj⟩
      · exact (hfree j).1 hj
      · exact (hfree j).2 hj
  engaged := hhandles
  claimed j k hk := by
    obtain ⟨hdelivered, x, htransient, hmem, hfree⟩ := h.claimed j k hk
    exact ⟨fun hu => hdelivered (hundelivered j k hk hu), x, htransient, hkept j k hk x hmem, hfree⟩ }

omit [DecidableEq ι] in
theorem Claims.began_split (h : Claims injectables handlesOf slot began undelivered) {k : Nat}
    (hk : k ∈ handlesOf x) (i : Nat) :
    began k ↔ (slot i).engaged = some x ∨ (slot i).active = some k ∨
      ∃ j, j ≠ i ∧ ((slot j).engaged = some x ∨ (slot j).active = some k) := by
  rw [h.began x k hk]
  constructor
  · rintro ⟨j, hj⟩
    by_cases hji : j = i
    · subst hji
      exact hj.imp_right .inl
    · exact .inr (.inr ⟨j, hji, hj⟩)
  · rintro (hi | hi | ⟨j, -, hj⟩)
    · exact ⟨i, .inl hi⟩
    · exact ⟨i, .inr hi⟩
    · exact ⟨j, hj⟩

omit [DecidableEq ι] in
/-- A handle is in the list of one injectable. -/
def Disjoint (handlesOf : ι → List Nat) : Prop :=
  ∀ x y k, k ∈ handlesOf x → k ∈ handlesOf y → x = y

omit [DecidableEq ι] in
theorem active_mem_claimed {d : Disposal ι} {k : Nat} (h : d.active = some k) : k ∈ d.claimed := by
  cases d with
  | transients handle rest =>
    cases h
    exact List.mem_cons_self
  | instances | pending | order | settled => cases h

omit [DecidableEq ι] in
/-- A disposal that was after nothing still is. -/
theorem Claims.idle (h : Claims injectables handlesOf slot began undelivered)
    (hidle : Idle (slot i)) (hnew : Idle new) :
    Claims injectables handlesOf (Function.update slot i new) began undelivered := by
  refine h.update (fun x k hk => ?_) (fun j _ => h.engaged j) ?_ ?_ (fun _ => id) ?_ ?_
    fun _ _ _ _ _ => id
  · rw [h.began_split hk i, hidle.engaged, hidle.active, hnew.engaged, hnew.active]
  · simp [hnew.engaged]
  · rintro x rfl
    cases hnew.engaged
  · simp [hnew.claimed]
  · simp [hnew.claimed]

omit [DecidableEq ι] in
/-- The hooks of an injectable are called. -/
theorem Claims.enter (h : Claims injectables handlesOf slot began undelivered)
    (hdisjoint : Disjoint handlesOf) (hidle : Idle (slot i)) (hengaged : new.engaged = some x)
    (hactive : new.active = none) (hclaimed : new.claimed = []) (hne : handlesOf x ≠ [])
    (hexplicit : ∀ y, new = .instances y → ¬ injectables.isTransient y)
    (hfree : ∀ j, (slot j).engaged ≠ some x ∧ ∀ k ∈ (slot j).claimed, k ∉ handlesOf x)
    (hbegan : ∀ k, began' k ↔ began k ∨ k ∈ handlesOf x) :
    Claims injectables handlesOf (Function.update slot i new) began' undelivered := by
  refine h.update (fun y k hk => ?_) (fun j _ => h.engaged j) ?_ hexplicit (fun _ => id) ?_ ?_
    fun _ _ _ _ _ => id
  · rw [hbegan, h.began_split hk i, hidle.engaged, hidle.active, hengaged, hactive]
    have hmem : k ∈ handlesOf x ↔ x = y :=
      ⟨fun hx => hdisjoint x y k hx hk, fun heq => heq ▸ hk⟩
    simp only [reduceCtorEq, false_or, Option.some.injEq, hmem]
    exact or_comm
  · intro y hy
    obtain rfl := Option.some.inj (hengaged.symm.trans hy)
    exact ⟨hne, fun j _ => hfree j⟩
  · simp [hclaimed]
  · simp [hclaimed]

omit [DecidableEq ι] in
/-- The hooks of an injectable have settled. -/
theorem Claims.leave (h : Claims injectables handlesOf slot began undelivered)
    (hdisjoint : Disjoint handlesOf) (hengaged : (slot i).engaged = some x) (hnew : Idle new)
    (hself : handlesOf' x = []) (hother : ∀ y, y ≠ x → handlesOf' y = handlesOf y) :
    Claims injectables handlesOf' (Function.update slot i new) began undelivered := by
  have hne : ∀ y k, k ∈ handlesOf' y → y ≠ x := by
    rintro y k hk rfl
    rw [hself] at hk
    cases hk
  refine h.update (fun y k hk => ?_) (fun j hj y hy => ?_) ?_ ?_ (fun _ => id) ?_ ?_
    fun j hj k hk y hy => ?_
  · have hyx := hne y k hk
    rw [hother y hyx] at hk
    have hactive : (slot i).active = none := by
      cases hslot : slot i with
      | transients =>
        rw [hslot] at hengaged
        cases hengaged
      | instances | pending | order | settled => rfl
    rw [h.began_split hk i, hengaged, hactive, hnew.engaged, hnew.active]
    simp [Ne.symm hyx]
  · have hyx : y ≠ x := by
      rintro rfl
      exact hj (h.engagedOnce j i y hy hengaged)
    rw [hother y hyx]
    exact h.engaged j y hy
  · simp [hnew.engaged]
  · rintro y rfl
    cases hnew.engaged
  · simp [hnew.claimed]
  · simp [hnew.claimed]
  · obtain ⟨-, z, -, hz, hfree⟩ := h.claimed j k hk
    have hyx : y ≠ x := by
      rintro rfl
      exact hfree i (hdisjoint z y k hz hy ▸ hengaged)
    rwa [hother y hyx]

omit [DecidableEq ι] in
/-- The hook of a matched transient handle is called. -/
theorem Claims.claim {k : Nat} {rest : List Nat}
    (h : Claims injectables handlesOf slot began undelivered) (hidle : Idle (slot i))
    (hnodup : (k :: rest).Nodup)
    (hclaimed : ∀ m ∈ k :: rest, ¬ undelivered m ∧ (∃ x, injectables.isTransient x ∧
      m ∈ handlesOf x ∧ ∀ j, (slot j).engaged ≠ some x) ∧ ∀ j, m ∉ (slot j).claimed)
    (hbegan : ∀ m, began' m ↔ began m ∨ m = k) :
    Claims injectables handlesOf (Function.update slot i (.transients k rest)) began'
      undelivered := by
  have hidling : ∀ y, (Disposal.transients k rest : Disposal ι).engaged ≠ some y := by
    intro y hy
    cases hy
  refine h.update (fun y m hm => ?_) (fun j _ => h.engaged j) (fun y hy => absurd hy (hidling y))
    (fun y hy => absurd (congrArg Disposal.engaged hy) (hidling y)) (fun _ => id) (fun m hm => ?_)
    hnodup fun _ _ _ _ _ => id
  · rw [hbegan, h.began_split hm i, hidle.engaged, hidle.active]
    simp only [Disposal.engaged, Disposal.active, reduceCtorEq, false_or, Option.some.injEq,
      eq_comm (a := m)]
    exact or_comm
  · obtain ⟨hdelivered, ⟨x, htransient, hmem, hfree⟩, hother⟩ := hclaimed m hm
    exact ⟨hdelivered, ⟨x, htransient, hmem, hidling x, fun j _ => hfree j⟩,
      fun j _ => hother j⟩

omit [DecidableEq ι] in
/-- The hook of a transient handle has settled. -/
theorem Claims.retire {k : Nat} {rest : List Nat}
    (h : Claims injectables handlesOf slot began undelivered) (hslot : slot i = .transients k rest)
    (hnew : Idle new) (hdisjoint : Disjoint handlesOf) (hnodup : (handlesOf x).Nodup)
    (hk : k ∈ handlesOf x) (hself : handlesOf' x = (handlesOf x).erase k)
    (hother : ∀ y, y ≠ x → handlesOf' y = handlesOf y) :
    Claims injectables handlesOf' (Function.update slot i new) began undelivered := by
  have hmem : ∀ y m, m ∈ handlesOf' y ↔ m ∈ handlesOf y ∧ m ≠ k := by
    intro y m
    by_cases hyx : y = x
    · subst hyx
      rw [hself, hnodup.mem_erase_iff, and_comm]
    · rw [hother y hyx, iff_self_and]
      rintro hm rfl
      exact hyx (hdisjoint y x m hm hk)
  have hfresh : ∀ j, j ≠ i → k ∉ (slot j).claimed := by
    intro j hj hclaimed
    refine hj (h.claimedOnce j i k hclaimed ?_)
    rw [hslot]
    exact List.mem_cons_self
  have hfree : ∀ j, (slot j).engaged ≠ some x := by
    have hclaimed : k ∈ (slot i).claimed := by
      rw [hslot]
      exact List.mem_cons_self
    obtain ⟨-, y, -, hy, hfree⟩ := h.claimed i k hclaimed
    rwa [hdisjoint y x k hy hk] at hfree
  refine h.update (fun y m hm => ?_) (fun j hj y hy => ?_) ?_ ?_ (fun _ => id) ?_ ?_
    fun j hj m hm y hy => ?_
  · obtain ⟨hm, hmk⟩ := (hmem y m).mp hm
    rw [h.began_split hm i, hslot, hnew.engaged, hnew.active]
    simp [Disposal.engaged, Disposal.active, Ne.symm hmk]
  · have hyx : y ≠ x := fun heq => hfree j (heq ▸ hy)
    rw [hother y hyx]
    exact h.engaged j y hy
  · simp [hnew.engaged]
  · rintro y rfl
    cases hnew.engaged
  · simp [hnew.claimed]
  · simp [hnew.claimed]
  · exact (hmem y m).mpr ⟨hy, fun heq => hfresh j hj (heq ▸ hm)⟩

end Claims

/-! ## The tables -/

section Tables

variable {c c' : Container ι} {handles : List (InstanceHandle ι)} {began began' : Nat → Prop}

theorem Tables.disjoint (h : Tables injectables c handles began) : Disjoint c.handlesOf := by
  intro x y k hx hy
  obtain ⟨e, he, rfl⟩ := h.entry x k hx
  obtain ⟨e', he', rfl⟩ := h.entry y k hy
  rw [Option.some.inj (he.symm.trans he')]

theorem Tables.lt_length (h : Tables injectables c handles began) {x : ι} {k : Nat}
    (hk : k ∈ c.handlesOf x) : k < handles.length := by
  obtain ⟨e, he, -⟩ := h.entry x k hk
  exact (List.getElem?_eq_some_iff.mp he).1

theorem Tables.congr (h : Tables injectables c handles began)
    (hinstances : c'.instances = c.instances)
    (hindex : c'.transientHandles = c.transientHandles) : Tables injectables c' handles began := by
  have hhandles : c'.handlesOf = c.handlesOf := by
    funext x
    rw [Container.handlesOf, hinstances, Container.handlesOf]
  have hempty : c'.NoEmpty := by
    rw [Container.NoEmpty, hinstances]
    exact h.noEmpty
  refine ⟨hempty, ?_, ?_, ?_, hindex ▸ h.indexNodup, ?_, h.bounded⟩
  · rw [hhandles]
    exact h.nodup
  · rw [hhandles]
    exact h.entry
  · rw [hhandles, hindex]
    exact h.indexed
  · rw [hhandles]
    exact h.kept

/-- Disposals begin. -/
theorem Tables.dispose (h : Tables injectables c handles began) {l : List Nat}
    (hl : ∀ k ∈ l, k < handles.length) (hbegan : ∀ k, began' k ↔ began k ∨ k ∈ l) :
    Tables injectables { c with transientHandles := c.transientHandles.filter (· ∉ l) } handles
      began' := { h with
  indexed k hk := by
    obtain ⟨hindex, hnot⟩ := List.mem_filter.mp hk
    obtain ⟨hfresh, hmem⟩ := h.indexed k hindex
    rw [hbegan]
    exact ⟨not_or.mpr ⟨hfresh, by simpa using hnot⟩, hmem⟩
  indexNodup := h.indexNodup.filter _
  kept k e he hdispose := (h.kept k e he hdispose).imp_left fun hk => (hbegan k).mpr (.inl hk)
  bounded k hk := by
    obtain hk | hk := (hbegan k).mp hk
    · exact h.bounded k hk
    · exact hl k hk }

theorem handlesOf_erase (c : Container ι) (x y : ι) :
    Container.handlesOf { c with instances := c.instances.erase x } y =
      if y = x then [] else c.handlesOf y := by
  simp only [Container.handlesOf, OrdMap.get?_erase]
  split <;> rfl

/-- The handles of an injectable go once their disposal has begun. -/
theorem Tables.erase (h : Tables injectables c handles began) {x : ι}
    (hx : ∀ k ∈ c.handlesOf x, began k) :
    Tables injectables { c with instances := c.instances.erase x } handles began := by
  have hmem : ∀ y k, k ∈ Container.handlesOf { c with instances := c.instances.erase x } y ↔
      y ≠ x ∧ k ∈ c.handlesOf y := by
    intro y k
    rw [handlesOf_erase]
    split
    · next heq => simp [heq]
    · next hne => simp [hne]
  refine ⟨?_, fun y => ?_, fun y k hk => ?_, fun k hk => ?_, h.indexNodup,
    fun k e he hdispose => ?_, h.bounded⟩
  · intro y l hl
    dsimp only at hl
    rw [OrdMap.get?_erase] at hl
    split at hl
    · cases hl
    · exact h.noEmpty y l hl
  · rw [handlesOf_erase]
    split
    · exact List.nodup_nil
    · exact h.nodup y
  · exact h.entry y k ((hmem y k).mp hk).2
  · obtain ⟨hfresh, y, htransient, hy⟩ := h.indexed k hk
    refine ⟨hfresh, y, htransient, (hmem y k).mpr ⟨?_, hy⟩⟩
    rintro rfl
    exact hfresh (hx k hy)
  · obtain hk | hk := h.kept k e he hdispose
    · exact .inl hk
    · by_cases hex : e.injectable = x
      · exact .inl (hx k (hex ▸ hk))
      · exact .inr ((hmem _ k).mpr ⟨hex, hk⟩)

/-- A transient handle goes once its disposal has begun. -/
theorem Tables.splice (h : Tables injectables c handles began) {x : ι} {k : Nat} (hk : began k) :
    Tables injectables (c.splice x k) handles began := by
  have hmem : ∀ y m, m ≠ k → (m ∈ (c.splice x k).handlesOf y ↔ m ∈ c.handlesOf y) := by
    intro y m hne
    rw [Container.handlesOf_splice]
    split
    · next heq => rw [List.mem_erase_of_ne hne, heq]
    · exact Iff.rfl
  have hsub : ∀ y m, m ∈ (c.splice x k).handlesOf y → m ∈ c.handlesOf y := by
    intro y m hm
    rw [Container.handlesOf_splice] at hm
    split at hm
    · next heq => exact heq ▸ List.mem_of_mem_erase hm
    · exact hm
  have hindex : (c.splice x k).transientHandles = c.transientHandles := by
    unfold Container.splice
    split <;> rfl
  refine ⟨h.noEmpty.splice x k, fun y => ?_, fun y m hm => h.entry y m (hsub y m hm),
    fun m hm => ?_, hindex ▸ h.indexNodup, fun m e he hdispose => ?_, h.bounded⟩
  · rw [Container.handlesOf_splice]
    split
    · exact (h.nodup x).erase k
    · exact h.nodup y
  · rw [hindex] at hm
    obtain ⟨hfresh, y, htransient, hy⟩ := h.indexed m hm
    refine ⟨hfresh, y, htransient, (hmem y m ?_).mpr hy⟩
    rintro rfl
    exact hfresh hk
  · by_cases hmk : m = k
    · exact .inl (hmk ▸ hk)
    · exact (h.kept m e he hdispose).imp_right (hmem _ m hmk).mpr

/-- An instance is created that no table holds: its disposal has begun, or it has no hook. -/
theorem Tables.create (h : Tables injectables c handles began) (e : InstanceHandle ι)
    (hbegan : ∀ k, began' k ↔ began k ∨ k = handles.length ∧ began' k)
    (hdispose : injectables.hasDispose e.injectable → began' handles.length) :
    Tables injectables c (handles ++ [e]) began' := { h with
  entry x k hk := by
    obtain ⟨e', he', hx⟩ := h.entry x k hk
    exact ⟨e', getElem?_concat_iff.mpr (.inl he'), hx⟩
  indexed k hk := by
    obtain ⟨hfresh, x, htransient, hx⟩ := h.indexed k hk
    refine ⟨fun hk' => ?_, x, htransient, hx⟩
    obtain hk' | ⟨rfl, -⟩ := (hbegan k).mp hk'
    · exact hfresh hk'
    · exact Nat.lt_irrefl _ (h.lt_length hx)
  kept k e' he' hdispose' := by
    obtain he' | ⟨rfl, rfl⟩ := getElem?_concat_iff.mp he'
    · exact (h.kept k e' he' hdispose').imp_left fun hk => (hbegan k).mpr (.inl hk)
    · exact .inl (hdispose hdispose')
  bounded k hk := by
    rw [List.length_append]
    obtain hk | ⟨rfl, -⟩ := (hbegan k).mp hk
    · exact Nat.lt_add_right 1 (h.bounded k hk)
    · exact Nat.lt_succ_self _ }

/-- An instance is created and registered. -/
theorem Tables.register (h : Tables injectables c handles began) (x : ι) (value : Option Nat) :
    Tables injectables (c.register injectables x handles.length)
      (handles ++ [{ injectable := x, publicInstance := value }]) began := by
  have hnew : ¬ began handles.length := fun hb => Nat.lt_irrefl _ (h.bounded _ hb)
  by_cases htracks : Container.tracks injectables x
  · have hmem : ∀ y k, k ∈ (c.register injectables x handles.length).handlesOf y ↔
        k ∈ c.handlesOf y ∨ y = x ∧ k = handles.length := by
      intro y k
      rw [Container.handlesOf_register injectables x y handles.length htracks]
      split
      · next heq => simp [heq]
      · next hne => simp [hne]
    have hindex : ∀ k, k ∈ (c.register injectables x handles.length).transientHandles →
        k ∈ c.transientHandles ∨ injectables.isTransient x ∧ k = handles.length := by
      intro k hk
      unfold Container.register at hk
      split at hk
      · next htransient =>
        rw [if_pos (htracks htransient)] at hk
        exact (List.mem_append.mp hk).imp_right fun hk => ⟨htransient, List.mem_singleton.mp hk⟩
      · exact .inl hk
    refine ⟨h.noEmpty.register injectables x _, fun y => ?_, fun y k hk => ?_, fun k hk => ?_, ?_,
      fun k e he hdispose => ?_, fun k hk => ?_⟩
    · rw [Container.handlesOf_register injectables x y handles.length htracks]
      split
      · rw [List.nodup_append]
        refine ⟨h.nodup x, List.nodup_singleton _, ?_⟩
        rintro k hk _ hk' rfl
        exact Nat.lt_irrefl _ (List.mem_singleton.mp hk' ▸ h.lt_length hk)
      · exact h.nodup y
    · obtain hk | ⟨rfl, rfl⟩ := (hmem y k).mp hk
      · obtain ⟨e, he, hy⟩ := h.entry y k hk
        exact ⟨e, getElem?_concat_iff.mpr (.inl he), hy⟩
      · exact ⟨_, getElem?_concat_iff.mpr (.inr ⟨rfl, rfl⟩), rfl⟩
    · obtain hk | ⟨htransient, rfl⟩ := hindex k hk
      · obtain ⟨hfresh, y, htransient, hy⟩ := h.indexed k hk
        exact ⟨hfresh, y, htransient, (hmem y k).mpr (.inl hy)⟩
      · exact ⟨hnew, x, htransient, (hmem x _).mpr (.inr ⟨rfl, rfl⟩)⟩
    · unfold Container.register
      split
      · split
        · rw [List.nodup_append]
          refine ⟨h.indexNodup, List.nodup_singleton _, ?_⟩
          rintro k hk _ hk' rfl
          obtain ⟨-, y, -, hy⟩ := h.indexed k hk
          exact Nat.lt_irrefl _ (List.mem_singleton.mp hk' ▸ h.lt_length hy)
        · exact h.indexNodup
      · exact h.indexNodup
    · obtain he | ⟨rfl, rfl⟩ := getElem?_concat_iff.mp he
      · exact (h.kept k e he hdispose).imp_right fun hk => (hmem _ k).mpr (.inl hk)
      · exact .inr ((hmem x _).mpr (.inr ⟨rfl, rfl⟩))
    · rw [List.length_append]
      exact Nat.lt_add_right 1 (h.bounded k hk)
  · rw [Container.register_of_not_tracks injectables x _ htracks]
    refine h.create _ (fun k => ⟨.inl, fun hk => hk.elim id And.right⟩) fun hdispose => ?_
    exact absurd (fun _ => hdispose) htracks

end Tables

/-! ## The resolutions in flight -/

section Flight

variable {c c' : Container ι} {resolutions : List (Resolution ι)} {r : Nat} {R : Resolution ι}

theorem Flight.lt_length (h : Flight injectables c resolutions) (hr : r ∈ c.pending) :
    r < resolutions.length := by
  obtain ⟨R, hR, -⟩ := (h.pending r).mp hr
  exact (List.getElem?_eq_some_iff.mp hR).1

/-- Handles go. -/
theorem Flight.shrink (h : Flight injectables c resolutions) (hpending : c'.pending = c.pending)
    (hresolving : c'.resolving = c.resolving)
    (hhandles : ∀ x, c.handlesOf x = [] → c'.handlesOf x = []) :
    Flight injectables c' resolutions where
  pending := by
    rw [hpending]
    exact h.pending
  pendingNodup := hpending ▸ h.pendingNodup
  resolving := by
    rw [hresolving]
    exact h.resolving
  creating k R hR hphase htransient := hhandles _ (h.creating k R hR hphase htransient)

theorem Flight.start (h : Flight injectables c resolutions) {x : ι}
    (hnew : ¬ injectables.isTransient x → c.handlesOf x = [] ∧ c.resolving.get? x = none) :
    Flight injectables (c.start injectables x resolutions.length)
      (resolutions ++ [{ injectable := x }]) where
  pending k := by
    simp only [Container.start, List.mem_append, List.mem_singleton, getElem?_concat_iff,
      h.pending k]
    constructor
    · rintro (⟨R, hR, hphase⟩ | rfl)
      · exact ⟨R, .inl hR, hphase⟩
      · exact ⟨_, .inr ⟨rfl, rfl⟩, by simp⟩
    · rintro ⟨R, hR | ⟨rfl, -⟩, hphase⟩
      · exact .inl ⟨R, hR, hphase⟩
      · exact .inr rfl
  pendingNodup := by
    simp only [Container.start, List.nodup_append]
    refine ⟨h.pendingNodup, List.nodup_singleton _, ?_⟩
    rintro k hk _ hk' rfl
    exact Nat.lt_irrefl _ (List.mem_singleton.mp hk' ▸ h.lt_length hk)
  resolving k R hR hphase htransient := by
    unfold Container.start
    obtain hR | ⟨rfl, rfl⟩ := getElem?_concat_iff.mp hR
    · have hold := h.resolving k R hR hphase htransient
      dsimp only
      split
      · exact hold
      · next hx =>
        rw [OrdMap.get?_set_of_ne, hold]
        intro heq
        rw [heq, (hnew hx).2] at hold
        cases hold
    · dsimp only
      rw [if_neg htransient, OrdMap.get?_set_self]
  creating k R hR hphase htransient := by
    rw [Container.handlesOf_start]
    obtain hR | ⟨rfl, rfl⟩ := getElem?_concat_iff.mp hR
    · exact h.creating k R hR hphase htransient
    · exact (hnew htransient).1

theorem Flight.unique (h : Flight injectables c resolutions) {k : Nat} {R' : Resolution ι}
    (hR : resolutions[r]? = some R) (hphase : R.phase ≠ .cleared) (hR' : resolutions[k]? = some R')
    (hphase' : R'.phase ≠ .cleared) (heq : R'.injectable = R.injectable)
    (htransient : ¬ injectables.isTransient R.injectable) : k = r := by
  have hr := h.resolving r R hR hphase htransient
  have hk := h.resolving k R' hR' hphase' (heq ▸ htransient)
  rw [heq] at hk
  exact Option.some.inj (hk.symm.trans hr)

/-- A creation comes to its end; only its own injectable gets a handle. -/
theorem Flight.advance (h : Flight injectables c resolutions) (hR : resolutions[r]? = some R)
    (hphase : R.phase ≠ .cleared) {phase : ResolutionPhase} (hcleared : phase ≠ .cleared)
    (hcreating : phase ≠ .creating) (hpending : c'.pending = c.pending)
    (hresolving : c'.resolving = c.resolving)
    (hhandles : ∀ x, x ≠ R.injectable → c'.handlesOf x = c.handlesOf x) :
    Flight injectables c' (resolutions.modify r fun R => { R with phase }) where
  pending k := by
    rw [hpending, h.pending k]
    constructor
    · rintro ⟨R', hR', hphase'⟩
      by_cases hk : k = r
      · subst hk
        exact ⟨_, getElem?_modify_self hR, hcleared⟩
      · exact ⟨R', (getElem?_modify_of_ne hk).trans hR', hphase'⟩
    · rintro ⟨R', hR', hphase'⟩
      obtain ⟨R₀, rfl, hR₀, rfl⟩ | ⟨-, hR'⟩ := getElem?_modify_cases hR'
      · exact ⟨R, hR, hphase⟩
      · exact ⟨R', hR', hphase'⟩
  pendingNodup := hpending ▸ h.pendingNodup
  resolving k R' hR' hphase' htransient := by
    rw [hresolving]
    obtain ⟨R₀, rfl, hR₀, rfl⟩ | ⟨-, hR'⟩ := getElem?_modify_cases hR'
    · obtain rfl := Option.some.inj (hR.symm.trans hR₀)
      exact h.resolving k R hR hphase htransient
    · exact h.resolving k R' hR' hphase' htransient
  creating k R' hR' hphase' htransient := by
    obtain ⟨R₀, rfl, hR₀, rfl⟩ | ⟨hk, hR'⟩ := getElem?_modify_cases hR'
    · exact absurd hphase' hcreating
    · rw [hhandles _ ?_]
      · exact h.creating k R' hR' hphase' htransient
      · intro heq
        refine hk (h.unique hR hphase hR' (hphase' ▸ ?_) heq (heq ▸ htransient))
        simp

theorem Flight.clear (h : Flight injectables c resolutions) (hR : resolutions[r]? = some R)
    (hphase : R.phase ≠ .cleared) :
    Flight injectables (c.clear R.injectable r)
      (resolutions.modify r fun R => { R with phase := .cleared }) where
  pending k := by
    simp only [Container.clear, h.pendingNodup.mem_erase_iff, h.pending k]
    constructor
    · rintro ⟨hk, R', hR', hphase'⟩
      exact ⟨R', (getElem?_modify_of_ne hk).trans hR', hphase'⟩
    · rintro ⟨R', hR', hphase'⟩
      obtain ⟨R₀, rfl, hR₀, rfl⟩ | ⟨hk, hR'⟩ := getElem?_modify_cases hR'
      · exact absurd rfl hphase'
      · exact ⟨hk, R', hR', hphase'⟩
  pendingNodup := h.pendingNodup.erase r
  resolving k R' hR' hphase' htransient := by
    obtain ⟨R₀, rfl, hR₀, rfl⟩ | ⟨hk, hR'⟩ := getElem?_modify_cases hR'
    · exact absurd rfl hphase'
    · have hne : R'.injectable ≠ R.injectable := fun heq =>
        hk (h.unique hR hphase hR' hphase' heq (heq ▸ htransient))
      rw [Container.clear, OrdMap.get?_erase, if_neg hne]
      exact h.resolving k R' hR' hphase' htransient
  creating k R' hR' hphase' htransient := by
    obtain ⟨R₀, rfl, hR₀, rfl⟩ | ⟨-, hR'⟩ := getElem?_modify_cases hR'
    · cases hphase'
    · exact h.creating k R' hR' hphase' htransient

theorem Flight.reset (h : Flight injectables c resolutions) (hpending : c.pending = []) :
    Flight injectables c.reset resolutions where
  pending := h.pending
  pendingNodup := h.pendingNodup
  resolving k R hR hphase _ := by
    have hk := (h.pending k).mpr ⟨R, hR, hphase⟩
    rw [hpending] at hk
    cases hk
  creating _ _ _ _ _ := rfl

end Flight

/-! ## `Container.dispose` -/

section Sweep

variable {c c' : Container ι} {slot : Nat → Disposal ι} {i : Nat} {new : Disposal ι}

theorem Sweep.update (h : Sweep c slot) (honce : new.isContainer → ∀ j, j ≠ i →
      ¬ (slot j).isContainer)
    (hdisposing : c'.disposing = true ↔ new.isContainer ∨ ∃ j, j ≠ i ∧ (slot j).isContainer)
    (hnew : ∀ x rest, new = .order x rest → c'.pending = [] ∧
      ∀ y, c'.handlesOf y ≠ [] → x = some y ∨ y ∈ rest)
    (hpending : c.pending = [] → c'.pending = [])
    (hhandles : ∀ y, c'.handlesOf y ≠ [] → c.handlesOf y ≠ []) :
    Sweep c' (Function.update slot i new) where
  once j k hj hk := by
    by_cases hji : j = i <;> by_cases hki : k = i
    · rw [hji, hki]
    · subst hji
      rw [Function.update_self] at hj
      rw [Function.update_of_ne hki] at hk
      exact absurd hk (honce hj k hki)
    · subst hki
      rw [Function.update_self] at hk
      rw [Function.update_of_ne hji] at hj
      exact absurd hj (honce hk j hji)
    · rw [Function.update_of_ne hji] at hj
      rw [Function.update_of_ne hki] at hk
      exact h.once j k hj hk
  disposing := by
    rw [hdisposing]
    constructor
    · rintro (hn | ⟨j, hj, hslot⟩)
      · exact ⟨i, by rwa [Function.update_self]⟩
      · exact ⟨j, by rwa [Function.update_of_ne hj]⟩
    · rintro ⟨j, hj⟩
      by_cases hji : j = i
      · subst hji
        rw [Function.update_self] at hj
        exact .inl hj
      · rw [Function.update_of_ne hji] at hj
        exact .inr ⟨j, hji, hj⟩
  order j x rest hj := by
    by_cases hji : j = i
    · subst hji
      rw [Function.update_self] at hj
      exact hnew x rest hj
    · rw [Function.update_of_ne hji] at hj
      obtain ⟨hp, hall⟩ := h.order j x rest hj
      exact ⟨hpending hp, fun y hy => hall y (hhandles y hy)⟩

/-- A disposal goes on as what it is, `Container.dispose` or not. -/
theorem Sweep.keep (h : Sweep c slot) (hcontainer : new.isContainer = (slot i).isContainer)
    (hdisposing : c'.disposing = c.disposing)
    (hnew : ∀ x rest, new = .order x rest → c'.pending = [] ∧
      ∀ y, c'.handlesOf y ≠ [] → x = some y ∨ y ∈ rest)
    (hpending : c.pending = [] → c'.pending = [])
    (hhandles : ∀ y, c'.handlesOf y ≠ [] → c.handlesOf y ≠ []) :
    Sweep c' (Function.update slot i new) := by
  refine h.update (fun hn j hj hc => ?_) ?_ hnew hpending hhandles
  · rw [hcontainer] at hn
    exact hj (h.once j i hc hn)
  · rw [hdisposing, h.disposing, hcontainer]
    constructor
    · rintro ⟨j, hj⟩
      by_cases hji : j = i
      · exact .inl (hji ▸ hj)
      · exact .inr ⟨j, hji, hj⟩
    · rintro (hi | ⟨j, -, hj⟩)
      · exact ⟨i, hi⟩
      · exact ⟨j, hj⟩

/-- Nothing changes for `Container.dispose`. -/
theorem Sweep.frame (h : Sweep c slot) (hdisposing : c'.disposing = c.disposing)
    (horder : c.pending = [] → c'.pending = [] ∧ ∀ y, c'.handlesOf y ≠ [] → c.handlesOf y ≠ []) :
    Sweep c' slot where
  once := h.once
  disposing := hdisposing ▸ h.disposing
  order j x rest hj := by
    obtain ⟨hp, hall⟩ := h.order j x rest hj
    exact ⟨(horder hp).1, fun y hy => hall y ((horder hp).2 y hy)⟩

end Sweep

end DisposalState

end Neemata.Core
