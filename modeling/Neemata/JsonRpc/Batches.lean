import Neemata.JsonRpc.Answers

/-!
# Answers to batches

The workers of a batch leave a response at the place of each entry, in whatever order the tasks end
(`responses_runBatch`), and `handle` answers completely exactly if the values of every entry are
carried (`complete_iff`). Every order can be completed (`Workers.Inv.exists_done`).
-/

namespace Neemata.JsonRpc

open Json (JsString Value ofString)

variable {handler : JsonRpcHandler} {entries : List JsValue} {behaviours : Nat → Behaviour}
  {ended : List Nat}

/-! ## What the answer to an envelope should be -/

/-- The entries of a batch, each with what its procedure comes to. -/
def runs (entries : List JsValue) (behaviours : Nat → Behaviour) : List (JsValue × Behaviour) :=
  entries.mapIdx fun i entry => (entry, behaviours i)

/-- The entries that are due an answer. -/
def due (entries : List JsValue) (behaviours : Nat → Behaviour) : List (JsValue × Behaviour) :=
  (runs entries behaviours).filter fun p => !isNotification p.1

/-- The responses of a batch, in its order and each of them its entry's own. -/
structure CompleteBatch (handler : JsonRpcHandler) (entries : List JsValue)
    (behaviours : Nat → Behaviour) (ended : List Nat) (answer : Answer) : Prop where
  bounded : ∀ n,
    (runBatch handler entries behaviours (ended.take n)).running.length ≤ BATCH_CONCURRENCY
  once : (runBatch handler entries behaviours ended).ran = List.range entries.length
  none_due : due entries behaviours = [] → answer = .empty 204
  answered : due entries behaviours ≠ [] → ∃ text, answer = .json text ∧
    Json.parse text = some
      (.arr ((due entries behaviours).map fun p => ownResponse handler p.1 p.2)) ∧
    ∀ p ∈ due entries behaviours, IsResponse (usableId p.1) (ownResponse handler p.1 p.2)

def Complete (handler : JsonRpcHandler) (envelope : JsValue) (behaviours : Nat → Behaviour)
    (ended : List Nat) (answer : Answer) : Prop :=
  match envelope with
  | .arr entries => CompleteBatch handler entries behaviours ended answer
  | entry => CompleteEntry entry answer

/-- A single entry, or a batch within the limits. -/
def WithinLimits (handler : JsonRpcHandler) : JsValue → Prop
  | .arr entries => entries ≠ [] ∧ entries.length ≤ handler.maxBatchSize
  | _ => True

/-- The tasks of a batch have all ended. -/
def AllEnded (handler : JsonRpcHandler) (envelope : JsValue) (behaviours : Nat → Behaviour)
    (ended : List Nat) : Prop :=
  match envelope with
  | .arr entries => (runBatch handler entries behaviours ended).running = []
  | _ => True

def AllCarried (handler : JsonRpcHandler) (envelope : JsValue) (behaviours : Nat → Behaviour) :
    Prop :=
  match envelope with
  | .arr entries => ∀ p ∈ runs entries behaviours, Carried handler p.1 p.2
  | entry => Carried handler entry (behaviours 0)

/-! ## The workers -/

theorem inv_runBatch : Workers.Inv BATCH_CONCURRENCY entries.length
    (entryTask handler entries behaviours) (runBatch handler entries behaviours ended) :=
  Workers.inv_run _ _ _ ended

/-- The responses stand in the order of the entries, in whatever order the tasks have ended. -/
theorem responses_runBatch (hended : (runBatch handler entries behaviours ended).running = []) :
    (runBatch handler entries behaviours ended).results.map Option.join =
      (runs entries behaviours).map fun p => runEntry handler p.1 p.2 := by
  rw [(inv_runBatch.done (by decide) hended).2]
  refine List.ext_getElem? fun i => ?_
  unfold runs
  rw [List.getElem?_map, List.getElem?_map, List.getElem?_map, List.getElem?_mapIdx]
  by_cases hi : i < entries.length
  · rw [List.getElem?_range hi, List.getElem?_eq_getElem hi]
    simp [entryTask, hi]
  · rw [List.getElem?_eq_none (by rw [List.length_range]; omega),
      List.getElem?_eq_none (l := entries) (by omega)]
    rfl

/-! ## The text of the answer -/

theorem isSome_json (r : JsonRpcResponse) : r.json.isSome = r.toJs.isSome := by
  unfold JsonRpcResponse.json JsonRpcResponse.toJs
  cases r.body.toJs <;> rfl

/-- The array of the responses is written as a whole or not at all. -/
theorem respond_responses (responses : List JsonRpcResponse) :
    respond ((responses.mapM JsonRpcResponse.toJs).map .arr) =
      if ∀ r ∈ responses, r.json.isSome = true then
        .json (Json.stringify (.arr (responses.filterMap JsonRpcResponse.json)))
      else .rejects := by
  unfold respond
  by_cases hall : ∀ r ∈ responses, r.json.isSome = true
  · have htoJs : ∀ r ∈ responses, r.toJs.isSome = true := fun r hr => isSome_json r ▸ hall r hr
    have himage : (responses.filterMap JsonRpcResponse.toJs).map (fun v => v.image.getD .null) =
        responses.filterMap JsonRpcResponse.json := by
      clear hall
      induction responses with
      | nil => rfl
      | cons r responses ih =>
        obtain ⟨hr, hrest⟩ := List.forall_mem_cons.mp htoJs
        obtain ⟨v, hv⟩ := Option.isSome_iff_exists.mp hr
        obtain ⟨j, hj⟩ := Option.isSome_iff_exists.mp ((isSome_json r).trans hr)
        have himage : v.image = some j := by
          rw [JsonRpcResponse.json, hv] at hj
          exact hj
        rw [List.filterMap_cons_some hv, List.filterMap_cons_some hj, List.map_cons, ih hrest,
          himage]
        rfl
    rw [if_pos hall, Trace.mapM_eq_some htoJs, Option.map_some, Option.bind_some,
      JsValue.image_arr, himage]
  · rw [if_neg hall, Trace.mapM_eq_none fun htoJs =>
      hall fun r hr => (isSome_json r).trans (htoJs r hr)]
    rfl

/-! ## Batches -/

theorem runEntry_eq_none_iff {entry : JsValue} {behaviour : Behaviour} :
    runEntry handler entry behaviour = none ↔ isNotification entry = true := by
  constructor
  · intro hnone
    by_contra hdue
    obtain ⟨r, hr, -⟩ := runEntry_iff handler (by simpa using hdue) behaviour
    rw [hnone] at hr
    cases hr
  · exact fun h => runEntry_notification h behaviour

/-- The responses are those of the entries that are due one. -/
theorem filterMap_runs (l : List (JsValue × Behaviour)) :
    (l.map fun p => runEntry handler p.1 p.2).filterMap id =
      (l.filter fun p => !isNotification p.1).filterMap fun p => runEntry handler p.1 p.2 := by
  rw [List.filterMap_map, List.filterMap_filter]
  refine List.filterMap_congr fun p _ => ?_
  cases hdue : isNotification p.1 with
  | true => exact runEntry_eq_none_iff.mpr hdue
  | false => rfl

/-- The response of an entry that is due one is a response object exactly if its values are
carried. -/
theorem ownResponse_iff {entry : JsValue} (hdue : isNotification entry = false)
    (behaviour : Behaviour) :
    ∃ r, runEntry handler entry behaviour = some r ∧
      (Carried handler entry behaviour ↔ r.json.isSome = true ∧
        IsResponse (usableId entry) (ownResponse handler entry behaviour)) := by
  obtain ⟨r, hr, hiff⟩ := runEntry_iff handler hdue behaviour
  refine ⟨r, hr, hiff.symm.trans ?_⟩
  rw [ownResponse, hr, Option.bind_some]
  cases r.json with
  | none => simp
  | some v => simp

theorem mem_due {p : JsValue × Behaviour} (hp : p ∈ due entries behaviours) :
    isNotification p.1 = false := by
  simpa using (List.mem_filter.mp hp).2

theorem carried_due : (∀ p ∈ runs entries behaviours, Carried handler p.1 p.2) ↔
    ∀ p ∈ due entries behaviours, Carried handler p.1 p.2 := by
  refine ⟨fun h p hp => h p (List.mem_of_mem_filter hp), fun h p hp => ?_⟩
  cases hdue : isNotification p.1 with
  | true => exact carried_notification hdue p.2
  | false => exact h p (List.mem_filter.mpr ⟨hp, by simp [hdue]⟩)

/-- What is answered to a batch whose tasks have ended. -/
theorem handle_batch (hwithin : WithinLimits handler (.arr entries))
    (hended : (runBatch handler entries behaviours ended).running = []) :
    handle handler (.arr entries) behaviours ended =
      let responses := (due entries behaviours).filterMap fun p => runEntry handler p.1 p.2
      if responses.isEmpty then .empty 204
      else respond ((responses.mapM JsonRpcResponse.toJs).map .arr) := by
  have hnone : rejectBatch handler entries = none := by
    unfold rejectBatch
    rw [if_neg (by simpa using hwithin.1), if_neg (Nat.not_lt.mpr hwithin.2)]
  rw [handle, hnone]
  dsimp only
  rw [answerBatch, responses_runBatch hended, filterMap_runs]
  rfl

theorem completeBatch_iff (hwithin : WithinLimits handler (.arr entries))
    (hended : (runBatch handler entries behaviours ended).running = []) :
    CompleteBatch handler entries behaviours ended
        (handle handler (.arr entries) behaviours ended) ↔
      ∀ p ∈ runs entries behaviours, Carried handler p.1 p.2 := by
  rw [carried_due, handle_batch hwithin hended]
  dsimp only
  have hsome : ∀ p ∈ due entries behaviours, ∃ r, runEntry handler p.1 p.2 = some r ∧
      (Carried handler p.1 p.2 ↔ r.json.isSome = true ∧
        IsResponse (usableId p.1) (ownResponse handler p.1 p.2)) :=
    fun p hp => ownResponse_iff (mem_due hp) p.2
  have hbounded : ∀ n, (runBatch handler entries behaviours (ended.take n)).running.length ≤
      BATCH_CONCURRENCY := fun n => inv_runBatch.bounded
  have honce := (inv_runBatch.done (by decide) hended).1
  generalize hresponses :
    ((due entries behaviours).filterMap fun p => runEntry handler p.1 p.2) = responses
  have hmem : ∀ p ∈ due entries behaviours, ∀ r, runEntry handler p.1 p.2 = some r →
      r ∈ responses := fun p hp r hr => hresponses ▸ List.mem_filterMap.mpr ⟨p, hp, hr⟩
  by_cases hdue : due entries behaviours = []
  · rw [hdue] at hresponses
    subst hresponses
    refine iff_of_true ⟨hbounded, honce, fun _ => rfl, fun h => absurd hdue h⟩ fun p hp => ?_
    rw [hdue] at hp
    cases hp
  · obtain ⟨p, hp⟩ := List.exists_mem_of_ne_nil _ hdue
    obtain ⟨r, hr, -⟩ := hsome p hp
    have hempty : ¬ responses.isEmpty = true := by
      rw [List.isEmpty_iff]
      exact List.ne_nil_of_mem (hmem p hp r hr)
    rw [if_neg hempty, respond_responses]
    constructor
    · intro hcomplete p hp
      obtain ⟨text, hanswer, -, hown⟩ := hcomplete.answered hdue
      obtain ⟨r, hr, hiff⟩ := hsome p hp
      split at hanswer
      · next hall => exact hiff.mpr ⟨hall r (hmem p hp r hr), hown p hp⟩
      · cases hanswer
    · intro hcarried
      have hall : ∀ r ∈ responses, r.json.isSome = true := by
        intro r hr
        rw [← hresponses] at hr
        obtain ⟨p, hp, hr⟩ := List.mem_filterMap.mp hr
        obtain ⟨r', hr', hiff⟩ := hsome p hp
        cases hr.symm.trans hr'
        exact (hiff.mp (hcarried p hp)).1
      have hown : (due entries behaviours).map (fun p => ownResponse handler p.1 p.2) =
          responses.filterMap JsonRpcResponse.json := by
        rw [← hresponses, List.filterMap_filterMap, ← List.filterMap_eq_map]
        refine List.filterMap_congr fun p hp => ?_
        obtain ⟨r, hr, -⟩ := hsome p hp
        obtain ⟨v, hv⟩ := Option.isSome_iff_exists.mp (hall r (hmem p hp r hr))
        simp [ownResponse, hr, hv]
      refine ⟨hbounded, honce, fun h => absurd h hdue, fun _ => ⟨_, if_pos hall, ?_, ?_⟩⟩
      · rw [hown]
        exact Json.parse_stringify _
      · intro p hp
        obtain ⟨r, hr, hiff⟩ := hsome p hp
        exact (hiff.mp (hcarried p hp)).2

/-- In whatever order the tasks of a batch end, they can all come to their ends, and then `handle`
answers the envelope completely exactly if `JSON.stringify` carries what its procedures come to. -/
theorem complete_iff (handler : JsonRpcHandler) (envelope : JsValue) (behaviours : Nat → Behaviour)
    (hwithin : WithinLimits handler envelope) (ended : List Nat) :
    (∃ rest, AllEnded handler envelope behaviours (ended ++ rest)) ∧
    (AllEnded handler envelope behaviours ended →
      (Complete handler envelope behaviours ended (handle handler envelope behaviours ended) ↔
        AllCarried handler envelope behaviours)) := by
  cases envelope with
  | arr entries =>
    have hinv : Workers.Inv _ _ _ (runBatch handler entries behaviours ended) := inv_runBatch
    obtain ⟨rest, hrest⟩ := hinv.exists_done
    refine ⟨⟨rest, ?_⟩, completeBatch_iff hwithin⟩
    rw [AllEnded, runBatch, Trace.run_append]
    exact hrest
  | undefined | null | bool | num | str | func | hole | obj | exotic =>
    exact ⟨⟨[], trivial⟩, fun _ => completeEntry_iff handler _ (behaviours 0)⟩

/-! ## A batch of two -/

/-- A request that calls `a`. -/
def requestA (id : String) : JsValue :=
  .obj [(ofString "jsonrpc", .str (ofString "2.0")), (ofString "id", .str (ofString id)),
    (ofString "method", .str (ofString "a"))]

def unrestricted : JsonRpcHandler := { maxBatchSize := 2, include? := none, exclude? := none }

/-- The first procedure throws, the second returns `true`. -/
def throwsFirst (i : Nat) : Behaviour where
  resolve := .ok false
  onRpc := if i = 0 then .error .other else .ok (.payload (.value (.bool true)))

theorem complete_iff_throws : Complete unrestricted (.arr [requestA "1", requestA "2"]) throwsFirst
    [1, 0] (handle unrestricted (.arr [requestA "1", requestA "2"]) throwsFirst [1, 0]) := by
  refine ((complete_iff unrestricted (.arr [requestA "1", requestA "2"]) throwsFirst
    ⟨by simp, by decide⟩ [1, 0]).2 rfl).mpr fun p hp => ?_
  rcases List.mem_cons.mp hp with rfl | hp
  · exact .inr trivial
  · obtain rfl := List.mem_singleton.mp hp
    exact .inr (.inr (by simp [JsValue.image]))

/-- The first procedure returns a `bigint`, the second `true`. -/
def bigintFirst (i : Nat) : Behaviour where
  resolve := .ok false
  onRpc := .ok (.payload (if i = 0 then .unserializable else .value (.bool true)))

/-- The second entry is not answered, although its own result is `true`. -/
theorem not_complete_bigint :
    handle unrestricted (.arr [requestA "1", requestA "2"]) bigintFirst [1, 0] = .rejects ∧
    ¬ ∀ (handler : JsonRpcHandler) (envelope : JsValue) (behaviours : Nat → Behaviour)
      (ended : List Nat), WithinLimits handler envelope →
      AllEnded handler envelope behaviours ended →
      Complete handler envelope behaviours ended (handle handler envelope behaviours ended) := by
  have hrejects : handle unrestricted (.arr [requestA "1", requestA "2"]) bigintFirst [1, 0] =
      .rejects := by decide
  refine ⟨hrejects, fun hall => ?_⟩
  have hcomplete : CompleteBatch unrestricted [requestA "1", requestA "2"] bigintFirst [1, 0] _ :=
    hall unrestricted (.arr [requestA "1", requestA "2"]) bigintFirst [1, 0]
      ⟨by simp, by decide⟩ rfl
  rw [hrejects] at hcomplete
  by_cases hdue : due [requestA "1", requestA "2"] bigintFirst = []
  · cases hcomplete.none_due hdue
  · obtain ⟨_, hjson, -⟩ := hcomplete.answered hdue
    cases hjson

end Neemata.JsonRpc
