import Neemata.Lib.SetIndex
import Neemata.Lib.Join
import Neemata.Lib.Entries
import Mathlib.Tactic.Common

/-!
# The registered blob streams of one direction

`BlobStreamsManager` keeps the same three maps for uploads and for downloads: the live streams by
connection and stream id, the stream ids of each connection, and those of each call. A stream's
state outlives its registration in the closure of its idle timer, so states are on a heap and the
maps hold their handles.
-/

namespace Neemata.Ws

/-- `getKey` and `getCallKey`. -/
def getKey (connectionId : String) (id : Nat) : String :=
  connectionId ++ String.singleton ':' ++ toString id

theorem getKey_inj {c c' : String} {id id' : Nat} :
    getKey c id = getKey c' id' ↔ c = c' ∧ id = id' := by
  constructor
  · intro h
    have hsep (n : Nat) : Separate ':' (toString n) := separate_toString rfl n
    obtain ⟨hc, hid⟩ := join_inj_right (hsep id) (hsep id') h
    exact ⟨hc, toString_nat_injective hid⟩
  · rintro ⟨rfl, rfl⟩
    rfl

/-- What the states of the two directions share; `data` is the rest of a state. -/
structure StreamState (δ : Type) where
  connectionId : String
  callId : Nat
  /-- `stream.id` -/
  id : Nat
  /-- The timer is armed: `setTimeout` was called and the timeout neither fired nor was cleared. -/
  idleTimer : Bool
  data : δ
deriving DecidableEq

namespace StreamState

variable {δ : Type}

def key (state : StreamState δ) : String := getKey state.connectionId state.id

def setTimer (armed : Bool) (state : StreamState δ) : StreamState δ :=
  { state with idleTimer := armed }

end StreamState

structure StreamTable (δ : Type) where
  heap : List (StreamState δ)
  streams : OrdMap String Nat
  connectionStreams : SetIndex String Nat
  callStreams : SetIndex String Nat
deriving DecidableEq

namespace StreamTable

variable {δ : Type}

def empty : StreamTable δ := ⟨[], .empty, .empty, .empty⟩

/-- `streams.get(key)`, with the handle of the state. -/
def lookup (t : StreamTable δ) (connectionId : String) (id : Nat) :
    Option (Nat × StreamState δ) := do
  let handle ← t.streams.get? (getKey connectionId id)
  let state ← t.heap[handle]?
  return (handle, state)

def modify (t : StreamTable δ) (handle : Nat) (f : StreamState δ → StreamState δ) : StreamTable δ :=
  { t with heap := t.heap.modify handle f }

/-- `clearTimeout` and `setTimeout`: the state has one timer, and it is armed. -/
def touch (t : StreamTable δ) (handle : Nat) : StreamTable δ := t.modify handle (.setTimer true)

/-- Update the state that is registered under the ids, if there is one. -/
def update (t : StreamTable δ) (connectionId : String) (id : Nat)
    (f : StreamState δ → StreamState δ) : StreamTable δ :=
  match t.lookup connectionId id with
  | none => t
  | some (handle, _) => t.modify handle f

def create (t : StreamTable δ) (connectionId : String) (callId id : Nat) (data : δ) :
    StreamTable δ :=
  let handle := t.heap.length
  touch
    { heap := t.heap ++ [⟨connectionId, callId, id, false, data⟩]
      streams := t.streams.set (getKey connectionId id) handle
      callStreams := t.callStreams.track (getKey connectionId callId) id
      connectionStreams := t.connectionStreams.track connectionId id }
    handle

/-- `removeClientStream` and `removeServerStream`. -/
def remove (t : StreamTable δ) (connectionId : String) (id : Nat) : StreamTable δ :=
  match t.lookup connectionId id with
  | none => t
  | some (handle, state) =>
    { heap := t.heap.modify handle (.setTimer false)
      streams := t.streams.erase (getKey connectionId id)
      callStreams := t.callStreams.untrack (getKey connectionId state.callId) id
      connectionStreams := t.connectionStreams.untrack connectionId id }

def untrackCall (t : StreamTable δ) (connectionId : String) (callId id : Nat) : StreamTable δ :=
  { t with callStreams := t.callStreams.untrack (getKey connectionId callId) id }

/-- No map has an entry for the connection. -/
def Clear (t : StreamTable δ) (connectionId : String) : Prop :=
  (∀ id, t.streams.get? (getKey connectionId id) = none) ∧
    t.connectionStreams.get? connectionId = none ∧
    ∀ callId, t.callStreams.get? (getKey connectionId callId) = none

/-! ## The bookkeeping invariant -/

def Live (t : StreamTable δ) (connectionId : String) (id : Nat) : Prop :=
  ∃ handle, t.streams.get? (getKey connectionId id) = some handle

instance (t : StreamTable δ) (connectionId : String) (id : Nat) :
    Decidable (t.Live connectionId id) :=
  decidable_of_iff ((t.streams.get? (getKey connectionId id)).isSome = true) Option.isSome_iff_exists

/-- What is registered under a key is a state that has the key. -/
def Registered (t : StreamTable δ) : Prop :=
  ∀ key handle, t.streams.get? key = some handle →
    ∃ state, t.heap[handle]? = some state ∧ state.key = key

structure Tidy (t : StreamTable δ) : Prop where
  registered : ∀ key handle, t.streams.get? key = some handle →
    ∃ state, t.heap[handle]? = some state ∧ state.key = key
  connections : ∀ c id, t.connectionStreams.Tracks c id ↔ t.Live c id
  /-- What is tracked for a call is live and was registered for that call. -/
  calls : ∀ c callId id, t.callStreams.Tracks (getKey c callId) id →
    ∃ handle state, t.lookup c id = some (handle, state) ∧ state.callId = callId
  /-- An armed timer belongs to the stream that is registered under the timer's own ids. -/
  timers : ∀ handle state, t.heap[handle]? = some state → state.idleTimer = true →
    t.streams.get? state.key = some handle
  connections_noEmpty : t.connectionStreams.NoEmpty
  calls_noEmpty : t.callStreams.NoEmpty

variable {t : StreamTable δ} {c : String} {id handle : Nat} {state : StreamState δ}

theorem lookup_eq_some_iff : t.lookup c id = some (handle, state) ↔
    t.streams.get? (getKey c id) = some handle ∧ t.heap[handle]? = some state := by
  unfold lookup
  simp only [Option.bind_eq_bind, Option.bind_eq_some_iff, Option.pure_def, Option.some.injEq,
    Prod.mk.injEq]
  constructor
  · rintro ⟨handle', hget, state', hstate, rfl, rfl⟩
    exact ⟨hget, hstate⟩
  · rintro ⟨hget, hstate⟩
    exact ⟨handle, hget, state, hstate, rfl, rfl⟩

theorem Tidy.lookup_of_get? (H : t.Tidy) (hget : t.streams.get? (getKey c id) = some handle) :
    ∃ state, t.lookup c id = some (handle, state) ∧ state.connectionId = c ∧ state.id = id := by
  obtain ⟨state, hstate, hkey⟩ := H.registered _ _ hget
  obtain ⟨hc, hid⟩ := getKey_inj.mp hkey
  exact ⟨state, lookup_eq_some_iff.mpr ⟨hget, hstate⟩, hc, hid⟩

theorem Registered.of_lookup (H : t.Registered) (hlookup : t.lookup c id = some (handle, state)) :
    state.connectionId = c ∧ state.id = id := by
  obtain ⟨hget, hstate⟩ := lookup_eq_some_iff.mp hlookup
  obtain ⟨state', hstate', hkey⟩ := H _ _ hget
  rw [hstate] at hstate'
  cases hstate'
  exact getKey_inj.mp hkey

theorem Tidy.not_live_of_lookup (H : t.Tidy) (h : t.lookup c id = none) : ¬ t.Live c id := by
  rintro ⟨handle, hget⟩
  obtain ⟨state, hlookup, _⟩ := H.lookup_of_get? hget
  rw [h] at hlookup
  cases hlookup

theorem tidy_empty : (empty : StreamTable δ).Tidy where
  registered _ _ h := by cases h
  connections c id := by
    refine iff_of_false (SetIndex.not_tracks_empty c id) ?_
    rintro ⟨handle, hget⟩
    cases hget
  calls c callId id h := absurd h (SetIndex.not_tracks_empty _ id)
  timers handle state h := by cases h
  connections_noEmpty _ _ h := by cases h
  calls_noEmpty _ _ h := by cases h

/-! ## Each operation keeps it -/

section Modify

variable {f : StreamState δ → StreamState δ}

theorem Registered.modify (H : t.Registered) (handle : Nat) (hkey : ∀ s, (f s).key = s.key) :
    (t.modify handle f).Registered := by
  intro key handle' hget
  obtain ⟨s, hs, rfl⟩ := H key handle' hget
  refine ⟨if handle = handle' then f s else s, ?_, ?_⟩
  · simp [StreamTable.modify, List.getElem?_modify, hs]
  · split
    · exact hkey s
    · rfl

/-- An update keeps the ids of a state and arms only the timer of a registered one. -/
theorem Tidy.modify (H : t.Tidy) (handle : Nat) (hkey : ∀ s, (f s).key = s.key)
    (hcall : ∀ s, (f s).callId = s.callId)
    (harm : ∀ s, t.heap[handle]? = some s → (f s).idleTimer = true →
      t.streams.get? s.key = some handle) : (t.modify handle f).Tidy := { H with
  registered := Registered.modify H.registered handle hkey
  calls c callId id htracks := by
    obtain ⟨handle', s, hlookup, hs⟩ := H.calls c callId id htracks
    obtain ⟨hget, hheap⟩ := lookup_eq_some_iff.mp hlookup
    refine ⟨handle', if handle = handle' then f s else s, lookup_eq_some_iff.mpr ⟨hget, ?_⟩, ?_⟩
    · simp [StreamTable.modify, List.getElem?_modify, hheap]
    · split
      · rw [hcall, hs]
      · exact hs
  timers handle' s' hs' harmed := by
    obtain ⟨s, hs, rfl⟩ := getElem?_modify_eq_some hs'
    by_cases heq : handle = handle'
    · subst heq
      rw [if_pos rfl] at harmed ⊢
      rw [hkey]
      exact harm s hs harmed
    · rw [if_neg heq] at harmed ⊢
      exact H.timers handle' s hs harmed }

theorem Tidy.touch (H : t.Tidy) (hreg : ∀ s, t.heap[handle]? = some s →
    t.streams.get? s.key = some handle) : (t.touch handle).Tidy :=
  H.modify handle (fun _ => rfl) (fun _ => rfl) fun s hs _ => hreg s hs

theorem Tidy.clearIdleTimer (H : t.Tidy) (handle : Nat) :
    (t.modify handle (.setTimer false)).Tidy :=
  H.modify handle (fun _ => rfl) (fun _ => rfl) fun _ _ harmed => by cases harmed

end Modify

theorem Registered.lt_length (H : t.Registered) {key : String}
    (hget : t.streams.get? key = some handle) : handle < t.heap.length := by
  obtain ⟨s, hs, _⟩ := H key handle hget
  exact (List.getElem?_eq_some_iff.mp hs).1

theorem Registered.register (H : t.Registered) (state : StreamState δ)
    (connectionStreams callStreams : SetIndex String Nat) :
    Registered ⟨t.heap ++ [state], t.streams.set state.key t.heap.length, connectionStreams,
      callStreams⟩ := by
  intro key handle hget
  rw [OrdMap.get?_set] at hget
  split at hget
  · next hk =>
    cases hget
    exact ⟨_, List.getElem?_concat_length .., hk.symm⟩
  · obtain ⟨s, hs, hk⟩ := H key handle hget
    exact ⟨s, by rw [List.getElem?_append_left (H.lt_length hget), hs], hk⟩

theorem Registered.create (H : t.Registered) (c : String) (callId id : Nat) (data : δ) :
    (t.create c callId id data).Registered :=
  (H.register ⟨c, callId, id, false, data⟩ _ _).modify _ fun _ => rfl

/-- A state is registered under one key. -/
theorem Registered.key_inj (H : t.Registered) {key key' : String}
    (hget : t.streams.get? key = some handle) (hget' : t.streams.get? key' = some handle) :
    key = key' := by
  obtain ⟨s, hs, rfl⟩ := H key handle hget
  obtain ⟨s', hs', rfl⟩ := H key' handle hget'
  rw [hs] at hs'
  cases hs'
  rfl

theorem Registered.remove (H : t.Registered) (c : String) (id : Nat) :
    (t.remove c id).Registered := by
  unfold StreamTable.remove
  cases hlookup : t.lookup c id with
  | none => exact H
  | some found =>
    have H' : (t.modify found.1 (.setTimer false)).Registered := H.modify found.1 fun _ => rfl
    intro key handle hget
    rw [OrdMap.get?_erase] at hget
    split at hget
    · cases hget
    · exact H' key handle hget

theorem Registered.update (H : t.Registered) (c : String) (id : Nat)
    {f : StreamState δ → StreamState δ} (hkey : ∀ s, (f s).key = s.key) :
    (t.update c id f).Registered := by
  unfold StreamTable.update
  split
  · exact H
  · exact H.modify _ hkey

theorem Tidy.create (H : t.Tidy) (hfresh : ¬ t.Live c id) (callId : Nat) (data : δ) :
    (t.create c callId id data).Tidy := by
  have hnone : t.streams.get? (getKey c id) = none := by
    cases hget : t.streams.get? (getKey c id) with
    | none => rfl
    | some handle => exact absurd ⟨handle, hget⟩ hfresh
  have Hreg : t.Registered := H.registered
  refine Tidy.touch ⟨Hreg.register ⟨c, callId, id, false, data⟩ _ _, ?_, ?_, ?_, ?_, ?_⟩ ?_
  · intro c' id'
    simp only [SetIndex.tracks_track, H.connections, Live, OrdMap.get?_set, getKey_inj]
    by_cases hk : c' = c ∧ id' = id
    · simp [hk]
    · simp [hk]
  · intro c' callId' id' htracks
    rw [SetIndex.tracks_track, getKey_inj] at htracks
    obtain ⟨⟨rfl, rfl⟩, rfl⟩ | htracks := htracks
    · refine ⟨t.heap.length, ⟨c', callId', id', false, data⟩, lookup_eq_some_iff.mpr ⟨?_, ?_⟩, rfl⟩
      · exact OrdMap.get?_set_self ..
      · exact List.getElem?_concat_length ..
    · obtain ⟨handle, s, hlookup, hs⟩ := H.calls c' callId' id' htracks
      obtain ⟨hget, hheap⟩ := lookup_eq_some_iff.mp hlookup
      refine ⟨handle, s, lookup_eq_some_iff.mpr ⟨?_, ?_⟩, hs⟩
      · rw [OrdMap.get?_set_of_ne, hget]
        intro hk
        rw [hk, hnone] at hget
        cases hget
      · rw [List.getElem?_append_left (Hreg.lt_length hget), hheap]
  · intro handle s hs harmed
    rw [List.getElem?_append] at hs
    split at hs
    · have hget := H.timers handle s hs harmed
      rw [OrdMap.get?_set_of_ne, hget]
      intro hk
      rw [hk, hnone] at hget
      cases hget
    · obtain rfl := List.mem_singleton.mp (List.mem_of_getElem? hs)
      cases harmed
  · exact SetIndex.noEmpty_track H.connections_noEmpty _ _
  · exact SetIndex.noEmpty_track H.calls_noEmpty _ _
  · intro s hs
    rw [List.getElem?_concat_length] at hs
    cases hs
    exact OrdMap.get?_set_self ..

theorem Tidy.untrackCall (H : t.Tidy) (c : String) (callId id : Nat) :
    (t.untrackCall c callId id).Tidy := { H with
  calls c' callId' id' htracks :=
    H.calls c' callId' id' ((SetIndex.tracks_untrack _ _ _ _).mp htracks).1
  calls_noEmpty := SetIndex.noEmpty_untrack H.calls_noEmpty _ _ }

theorem Tidy.remove (H : t.Tidy) (c : String) (id : Nat) : (t.remove c id).Tidy := by
  unfold StreamTable.remove
  cases hlookup : t.lookup c id with
  | none => exact H
  | some found =>
    obtain ⟨handle, state⟩ := found
    obtain ⟨hget, hstate⟩ := lookup_eq_some_iff.mp hlookup
    have hother {handle' : Nat} {s : StreamState δ} {key : String} (hk : key ≠ getKey c id)
        (hget' : t.streams.get? key = some handle') (hs : t.heap[handle']? = some s) :
        (t.heap.modify handle (.setTimer false))[handle']? = some s := by
      rw [List.getElem?_modify_ne, hs]
      rintro rfl
      exact hk (Registered.key_inj H.registered hget' hget)
    have Hreg : (t.remove c id).Registered := Registered.remove H.registered c id
    rw [StreamTable.remove, hlookup] at Hreg
    refine ⟨Hreg, ?_, ?_, ?_, ?_, ?_⟩
    · intro c' id'
      simp only [SetIndex.tracks_untrack, H.connections, Live, OrdMap.get?_erase, getKey_inj]
      by_cases hk : c' = c ∧ id' = id
      · simp [hk]
      · simp [hk]
    · intro c' callId' id' htracks
      obtain ⟨htracks, hne⟩ := (SetIndex.tracks_untrack _ _ _ _).mp htracks
      obtain ⟨handle', s, hlookup', hs⟩ := H.calls c' callId' id' htracks
      have hk : getKey c' id' ≠ getKey c id := by
        intro hk
        obtain ⟨rfl, rfl⟩ := getKey_inj.mp hk
        rw [hlookup] at hlookup'
        cases hlookup'
        exact hne ⟨by rw [hs], rfl⟩
      obtain ⟨hget', hs'⟩ := lookup_eq_some_iff.mp hlookup'
      refine ⟨handle', s, lookup_eq_some_iff.mpr ⟨?_, hother hk hget' hs'⟩, hs⟩
      rw [OrdMap.get?_erase, if_neg hk, hget']
    · intro handle' s' hs' harmed
      obtain ⟨s, hs, rfl⟩ := getElem?_modify_eq_some hs'
      by_cases heq : handle = handle'
      · rw [if_pos heq] at harmed
        cases harmed
      · rw [if_neg heq] at harmed ⊢
        have hget' := H.timers handle' s hs harmed
        rw [OrdMap.get?_erase, if_neg, hget']
        intro hk
        rw [hk, hget] at hget'
        exact heq (Option.some.inj hget')
    · exact SetIndex.noEmpty_untrack H.connections_noEmpty _ _
    · exact SetIndex.noEmpty_untrack H.calls_noEmpty _ _

theorem Tidy.update (H : t.Tidy) (c : String) (id : Nat) {f : StreamState δ → StreamState δ}
    (hkey : ∀ s, (f s).key = s.key) (hcall : ∀ s, (f s).callId = s.callId) :
    (t.update c id f).Tidy := by
  unfold StreamTable.update
  cases hlookup : t.lookup c id with
  | none => exact H
  | some found =>
    obtain ⟨hget, hstate⟩ := lookup_eq_some_iff.mp hlookup
    refine H.modify found.1 hkey hcall fun s hs _ => ?_
    obtain ⟨s', hs', hk⟩ := H.registered _ _ hget
    rw [hs] at hs'
    cases hs'
    rw [hk, hget]

/-! ## Which streams an operation ends -/

theorem update_streams (c : String) (id : Nat) (f : StreamState δ → StreamState δ) :
    (t.update c id f).streams = t.streams := by
  unfold update
  split <;> rfl

theorem lookup_update (hlookup : t.lookup c id = some (handle, state))
    (f : StreamState δ → StreamState δ) :
    (t.update c id f).lookup c id = some (handle, f state) := by
  obtain ⟨hget, hstate⟩ := lookup_eq_some_iff.mp hlookup
  refine lookup_eq_some_iff.mpr ⟨by rw [update_streams, hget], ?_⟩
  unfold update
  rw [hlookup]
  exact (List.getElem?_modify_eq f handle t.heap).trans (congrArg (Option.map f) hstate)

theorem live_update {c' : String} {id' : Nat} {f : StreamState δ → StreamState δ} :
    (t.update c id f).Live c' id' ↔ t.Live c' id' := by
  unfold Live
  rw [update_streams]

theorem Tidy.live_remove (H : t.Tidy) {c' : String} {id' : Nat} :
    (t.remove c id).Live c' id' ↔ t.Live c' id' ∧ ¬ (c' = c ∧ id' = id) := by
  unfold StreamTable.remove
  cases hlookup : t.lookup c id with
  | none =>
    refine ⟨fun h => ⟨h, ?_⟩, And.left⟩
    rintro ⟨rfl, rfl⟩
    exact H.not_live_of_lookup hlookup h
  | some found =>
    unfold Live
    simp only [OrdMap.get?_erase, getKey_inj]
    by_cases hk : c' = c ∧ id' = id
    · simp [hk]
    · simp [hk]

theorem Tidy.mem_connectionStreams (H : t.Tidy) (h : t.Live c id) :
    id ∈ (t.connectionStreams.get? c).getD [] := by
  obtain ⟨set, hget, hmem⟩ := (H.connections c id).mpr h
  rw [hget]
  exact hmem

/-- A connection without live streams has no entry in any map. -/
theorem Tidy.clear (H : t.Tidy) (h : ∀ id, ¬ t.Live c id) : t.Clear c := by
  refine ⟨fun id => ?_, ?_, fun callId => ?_⟩
  · cases hget : t.streams.get? (getKey c id) with
    | none => rfl
    | some handle => exact absurd ⟨handle, hget⟩ (h id)
  · exact H.connections_noEmpty.get?_eq_none fun id htracks => h id ((H.connections c id).mp htracks)
  · refine H.calls_noEmpty.get?_eq_none fun id htracks => ?_
    obtain ⟨handle, state, hlookup, _⟩ := H.calls c callId id htracks
    exact h id ⟨handle, (lookup_eq_some_iff.mp hlookup).1⟩

/-- `t'` has every stream but the one of the handle as `t` has it. -/
def SameBut (handle : Nat) (t t' : StreamTable δ) : Prop :=
  ∀ other, other ≠ handle → t'.heap[other]? = t.heap[other]? ∧
    ∀ key, t.streams.get? key = some other → t'.streams.get? key = some other

theorem SameBut.trans {t t' t'' : StreamTable δ} (h : SameBut handle t t')
    (h' : SameBut handle t' t'') : SameBut handle t t'' := by
  intro other hne
  obtain ⟨hheap, hstreams⟩ := h other hne
  obtain ⟨hheap', hstreams'⟩ := h' other hne
  exact ⟨hheap'.trans hheap, fun key hget => hstreams' key (hstreams key hget)⟩

theorem sameBut_modify (t : StreamTable δ) (handle : Nat) (f : StreamState δ → StreamState δ) :
    SameBut handle t (t.modify handle f) := by
  intro other hne
  exact ⟨List.getElem?_modify_ne f t.heap (Ne.symm hne), fun _ h => h⟩

theorem sameBut_update (hlookup : t.lookup c id = some (handle, state))
    (f : StreamState δ → StreamState δ) : SameBut handle t (t.update c id f) := by
  unfold update
  rw [hlookup]
  exact sameBut_modify t handle f

theorem sameBut_remove (hlookup : t.lookup c id = some (handle, state)) :
    SameBut handle t (t.remove c id) := by
  intro other hne
  unfold remove
  rw [hlookup]
  refine ⟨List.getElem?_modify_ne _ _ (Ne.symm hne), fun key hget => ?_⟩
  rw [OrdMap.get?_erase, if_neg, hget]
  rintro rfl
  rw [(lookup_eq_some_iff.mp hlookup).1] at hget
  exact hne (Option.some.inj hget.symm)

/-- `t'` is `t` after an abort of the stream, if there is one. -/
def Aborts (c : String) (id : Nat) (t t' : StreamTable δ) : Prop :=
  t.lookup c id = none ∧ t' = t ∨ ∃ f : StreamState δ → StreamState δ,
    t' = (t.update c id f).remove c id ∧ ∀ s, (f s).key = s.key ∧ (f s).callId = s.callId

theorem Tidy.aborts {t' : StreamTable δ} (H : t.Tidy) (h : Aborts c id t t') :
    t'.Tidy ∧ ∀ c' id', t'.Live c' id' ↔ t.Live c' id' ∧ ¬ (c' = c ∧ id' = id) := by
  obtain ⟨hlookup, rfl⟩ | ⟨f, rfl, hf⟩ := h
  · refine ⟨H, fun c' id' => ⟨fun hlive => ⟨hlive, ?_⟩, And.left⟩⟩
    rintro ⟨rfl, rfl⟩
    exact H.not_live_of_lookup hlookup hlive
  · have H' := H.update c id (fun s => (hf s).1) fun s => (hf s).2
    exact ⟨H'.remove c id, fun _ _ => H'.live_remove.trans (by rw [live_update])⟩

/-- Aborting the streams `ids` of a connection ends those and no others. -/
theorem Tidy.aborts_foldl {M : Type} {table : M → StreamTable δ} {abort : M → Nat → M}
    (h : ∀ m id, Aborts c id (table m) (table (abort m id))) {m : M} (H : (table m).Tidy)
    (ids : List Nat) :
    (table (ids.foldl abort m)).Tidy ∧ ∀ c' id', (table (ids.foldl abort m)).Live c' id' ↔
      (table m).Live c' id' ∧ ¬ (c' = c ∧ id' ∈ ids) := by
  induction ids generalizing m with
  | nil => exact ⟨H, by simp⟩
  | cons id ids ih =>
    obtain ⟨H', hlive⟩ := H.aborts (h m id)
    obtain ⟨Hrest, hrest⟩ := ih H'
    refine ⟨Hrest, fun c' id' => ?_⟩
    rw [List.foldl_cons, hrest, hlive, and_assoc, ← not_or, ← and_or_left, List.mem_cons]

theorem Aborts.sameBut {t' : StreamTable δ} (h : Aborts c id t t')
    (hlookup : t.lookup c id = some (handle, state)) : SameBut handle t t' := by
  obtain ⟨hnone, -⟩ | ⟨f, rfl, -⟩ := h
  · cases hnone.symm.trans hlookup
  · exact (sameBut_update hlookup f).trans (sameBut_remove (lookup_update hlookup f))

/-- The stream that an armed timer looks up is the one it was armed for. -/
theorem Tidy.lookup_of_armed (H : t.Tidy) (hstate : t.heap[handle]? = some state)
    (harmed : state.idleTimer = true) :
    (t.modify handle (.setTimer false)).lookup state.connectionId state.id =
      some (handle, state.setTimer false) := by
  refine lookup_eq_some_iff.mpr ⟨H.timers handle state hstate harmed, ?_⟩
  exact (List.getElem?_modify_eq _ handle t.heap).trans (congrArg (Option.map _) hstate)

end StreamTable

end Neemata.Ws
