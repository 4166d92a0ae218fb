import Neemata.JsonRpc.Server

/-!
# What the JSON-RPC handler answers

Each entry that is not a valid notification has its response at its place, whatever the other
entries come to, as long as `JSON.stringify` carries what the procedures return and throw
(`Carried`): the answer is written in one go, so that a value it throws on takes the whole batch
with it, and a value it leaves out leaves a response without a result.
-/

namespace Neemata.JsonRpc

open Json (JsString Value ofString)

variable {handler : JsonRpcHandler}

/-! ## What an answer should be -/

/-- The id that an entry is answered under. -/
def usableId (entry : JsValue) : JsonRpcId :=
  match entry.entries? with
  | some entries => (readId (JsValue.property entries (ofString "id"))).getD .null
  | none => .null

def isNotification (entry : JsValue) : Bool :=
  match validateEntry entry with
  | .valid _ _ _ notification => notification
  | .error _ => false

def JsonRpcId.json (id : JsonRpcId) : Value Empty := (id.toJs.image).getD .null

/-- A response object, with a result or an error and not both. -/
def IsResponse (id : JsonRpcId) (v : Value Empty) : Prop :=
  ∃ member : JsString × Value Empty,
    (member.1 = ofString "result" ∨ member.1 = ofString "error") ∧
    v = .obj [(ofString "jsonrpc", .str (ofString "2.0")), (ofString "id", id.json), member]

/-- The response to an entry as JSON. -/
def JsonRpcResponse.json (r : JsonRpcResponse) : Option (Value Empty) := r.toJs.bind JsValue.image

/-- What an entry is answered with, given nothing but the entry and its own procedure. -/
def ownResponse (handler : JsonRpcHandler) (entry : JsValue) (behaviour : Behaviour) :
    Value Empty :=
  ((runEntry handler entry behaviour).bind JsonRpcResponse.json).getD .null

/-- `JSON.stringify` has a value for what the procedure of the entry returns, and does not throw on
the data of what it throws. -/
def Carries : Except Thrown Returned → Prop
  | .ok .stream => True
  | .ok (.payload (.value v)) => v = .undefined ∨ v.image ≠ none
  | .ok (.payload .unserializable) => False
  | .error (.protocol _ _ data) => data ≠ .unserializable
  | .error .other => True

def Carried (handler : JsonRpcHandler) (entry : JsValue) (behaviour : Behaviour) : Prop :=
  match validateEntry entry with
  | .error _ => True
  | .valid _ method _ notification =>
    notification = true ∨ Carries (execute handler method behaviour)

/-! ## Responses -/

theorem image_id (id : JsonRpcId) : id.toJs.image = some id.json := by
  cases id with
  | null => rfl
  | str s => rfl
  | num n => cases n <;> rfl

/-- A response has the member that its body comes to, if it comes to any. -/
theorem json_of_toJs {r : JsonRpcResponse} {key : JsString} {v : JsValue}
    (h : r.body.toJs = some (key, v)) :
    r.json = some (.obj ([(ofString "jsonrpc", .str (ofString "2.0")),
      (ofString "id", r.id.json)] ++ ((v.image).map fun j => (key, j)).toList)) := by
  unfold JsonRpcResponse.json JsonRpcResponse.toJs
  rw [h, Option.map_some, Option.bind_some, JsValue.image]
  simp only [JsValue.imageEntries, image_id, JsValue.image]
  cases v.image <;> rfl

theorem json_of_none {r : JsonRpcResponse} (h : r.body.toJs = none) : r.json = none := by
  unfold JsonRpcResponse.json JsonRpcResponse.toJs
  rw [h]
  rfl

/-- A response object comes from a body that JSON carries, and from no other. -/
theorem isResponse_iff (r : JsonRpcResponse) :
    (∃ v, r.json = some v ∧ IsResponse r.id v) ↔
      ∃ key v, r.body.toJs = some (key, v) ∧ v.image ≠ none := by
  constructor
  · rintro ⟨v, hv, member, -, rfl⟩
    cases hbody : r.body.toJs with
    | none =>
      rw [json_of_none hbody] at hv
      cases hv
    | some body =>
      obtain ⟨key, w⟩ := body
      refine ⟨key, w, rfl, fun hnone => ?_⟩
      rw [json_of_toJs hbody, hnone] at hv
      simp at hv
  · rintro ⟨key, w, hbody, hsome⟩
    obtain ⟨j, hj⟩ := Option.ne_none_iff_exists'.mp hsome
    refine ⟨_, (json_of_toJs hbody), (key, j), ?_, ?_⟩
    · cases hb : r.body with
      | result p =>
        rw [hb, Body.toJs] at hbody
        obtain ⟨_, -, heq⟩ := Option.map_eq_some_iff.mp hbody
        exact .inl (congrArg Prod.fst heq).symm
      | error e =>
        rw [hb, Body.toJs] at hbody
        obtain ⟨_, -, heq⟩ := Option.map_eq_some_iff.mp hbody
        exact .inr (congrArg Prod.fst heq).symm
    · rw [hj]
      rfl

/-- An error without data of its own is always carried. -/
theorem image_error {e : JsonRpcErrorObject} {v : JsValue} (h : e.toJs = some v) :
    v.image ≠ none := by
  unfold JsonRpcErrorObject.toJs at h
  dsimp only at h
  split at h
  · cases h
    simp [JsValue.image]
  · obtain ⟨w, -, rfl⟩ := Option.map_eq_some_iff.mp h
    simp [JsValue.image]

theorem carried_error (e : JsonRpcErrorObject) :
    (∃ key v, (Body.error e).toJs = some (key, v) ∧ v.image ≠ none) ↔ e.toJs ≠ none := by
  constructor
  · rintro ⟨key, v, hbody, -⟩ hnone
    rw [Body.toJs, hnone] at hbody
    cases hbody
  · intro hsome
    obtain ⟨v, hv⟩ := Option.ne_none_iff_exists'.mp hsome
    exact ⟨_, v, by rw [Body.toJs, hv]; rfl, image_error hv⟩

theorem mapError_toJs (error : Thrown) :
    (mapError error).toJs ≠ none ↔ Carries (.error error) := by
  cases error with
  | other => simp [mapError, JsonRpcErrorObject.toJs, Carries]
  | protocol code message data =>
    cases data with
    | unserializable =>
      simp [mapError, JsonRpcErrorObject.toJs, ErrorData.toJs, Payload.toJs, Carries]
    | value v =>
      cases v <;> simp [mapError, JsonRpcErrorObject.toJs, ErrorData.toJs, Payload.toJs, Carries]

theorem respondTo_id (id : JsonRpcId) (outcome : Except Thrown Returned) :
    (respondTo id outcome).id = id := by
  unfold respondTo
  split <;> rfl

/-- The response to what a procedure has come to. -/
theorem respondTo_iff (id : JsonRpcId) (outcome : Except Thrown Returned) :
    (∃ v, (respondTo id outcome).json = some v ∧ IsResponse id v) ↔ Carries outcome := by
  have hiff := isResponse_iff (respondTo id outcome)
  rw [respondTo_id] at hiff
  rw [hiff]
  cases outcome with
  | error error => exact (carried_error _).trans (mapError_toJs error)
  | ok returned =>
    cases returned with
    | stream =>
      refine (carried_error _).trans (iff_of_true ?_ trivial)
      simp [JsonRpcErrorObject.toJs]
    | payload p =>
      cases p with
      | unserializable =>
        refine iff_of_false ?_ (fun hcarries => hcarries)
        rintro ⟨key, v, hbody, -⟩
        cases hbody
      | value v =>
        by_cases hundefined : v = .undefined
        · subst hundefined
          exact iff_of_true ⟨_, _, rfl, by simp [JsValue.image]⟩ (.inl rfl)
        · have hbody : (respondTo id (.ok (.payload (.value v)))).body = .result (.value v) := by
            cases v <;> first | rfl | exact absurd rfl hundefined
          rw [hbody]
          constructor
          · rintro ⟨key, w, heq, hsome⟩
            cases heq
            exact .inr hsome
          · intro hcarries
            exact ⟨_, v, rfl, hcarries.resolve_left hundefined⟩

/-! ## Entries -/

/-- The id of an entry, which a notification does not have. -/
def rawId (entries : List (JsString × JsValue)) : JsValue :=
  if !entries.any fun entry => entry.1 = ofString "id" then .null
  else JsValue.property entries (ofString "id")

theorem readId_rawId (entries : List (JsString × JsValue)) :
    (readId (rawId entries)).getD .null =
      (readId (JsValue.property entries (ofString "id"))).getD .null := by
  unfold rawId
  split
  · next hnone =>
    have hfind : entries.find? (fun entry => entry.1 = ofString "id") = none := by
      refine List.find?_eq_none.mpr fun entry hentry hkey => ?_
      rw [List.any_eq_true.mpr ⟨entry, hentry, hkey⟩] at hnone
      cases hnone
    rw [JsValue.property, hfind]
    rfl
  · rfl

theorem ite_rawId {entries : List (JsString × JsValue)} {id : JsonRpcId}
    (h : readId (rawId entries) = some id) :
    (if !entries.any fun entry => entry.1 = ofString "id" then JsonRpcId.null else id) = id := by
  unfold rawId at h
  split
  · next hnone =>
    rw [if_pos hnone] at h
    exact Option.some.inj h
  · rfl

/-- What validation says goes under the id of the entry, and an error has no data. -/
def Validated (id : JsonRpcId) : ValidatedEntry → Prop
  | .error r => r.id = id ∧ ∃ code message, r.body = .error { code, message }
  | .valid id' _ _ _ => id' = id

theorem validated_object (entries : List (JsString × JsValue)) :
    Validated ((readId (JsValue.property entries (ofString "id"))).getD .null)
      (validateObject entries) := by
  rw [← readId_rawId]
  unfold validateObject
  dsimp only
  rw [show (if (!entries.any fun entry => entry.1 = ofString "id") = true then JsValue.null
    else JsValue.property entries (ofString "id")) = rawId entries from rfl]
  cases hraw : readId (rawId entries) with
  | none => exact ⟨rfl, _, _, rfl⟩
  | some id =>
    have hid := ite_rawId hraw
    dsimp only [Option.getD_some]
    split
    · split
      · split
        · exact ⟨hid, _, _, rfl⟩
        · exact rfl
      · exact ⟨hid, _, _, rfl⟩
    · exact ⟨hid, _, _, rfl⟩

theorem validated (entry : JsValue) : Validated (usableId entry) (validateEntry entry) := by
  unfold validateEntry usableId
  cases entry.entries? with
  | none => exact ⟨rfl, _, _, rfl⟩
  | some entries => exact validated_object entries

variable (handler) in
/-- An entry that is due an answer has a response object exactly if its values are carried. -/
theorem runEntry_iff {entry : JsValue} (hdue : isNotification entry = false)
    (behaviour : Behaviour) :
    ∃ r, runEntry handler entry behaviour = some r ∧
      ((∃ v, r.json = some v ∧ IsResponse (usableId entry) v) ↔
        Carried handler entry behaviour) := by
  have hvalidated := validated entry
  unfold runEntry Carried
  unfold isNotification at hdue
  cases hentry : validateEntry entry with
  | error r =>
    rw [hentry] at hvalidated
    obtain ⟨hid, code, message, hbody⟩ := hvalidated
    refine ⟨r, rfl, iff_of_true ?_ trivial⟩
    rw [← hid, isResponse_iff, hbody]
    exact (carried_error _).mpr (by simp [JsonRpcErrorObject.toJs])
  | valid id method params notification =>
    rw [hentry] at hvalidated hdue
    dsimp only at hdue ⊢
    subst hdue
    refine ⟨_, rfl, ?_⟩
    rw [← show id = usableId entry from hvalidated, respondTo_iff]
    simp

theorem runEntry_notification {entry : JsValue} (h : isNotification entry = true)
    (behaviour : Behaviour) : runEntry handler entry behaviour = none := by
  unfold isNotification at h
  unfold runEntry
  split at h
  · next hentry =>
    rw [hentry, h]
    rfl
  · cases h

theorem carried_notification {entry : JsValue} (h : isNotification entry = true)
    (behaviour : Behaviour) : Carried handler entry behaviour := by
  unfold isNotification at h
  unfold Carried
  split at h
  · next hentry =>
    rw [hentry]
    exact .inl h
  · cases h

/-! ## Answers to one entry -/

/-- The answer to a single entry. -/
def CompleteEntry (entry : JsValue) (answer : Answer) : Prop :=
  if isNotification entry then answer = .empty 204
  else ∃ text, answer = .json text ∧
    ∃ v, Json.parse text = some v ∧ IsResponse (usableId entry) v

theorem respond_toJs (r : JsonRpcResponse) :
    respond r.toJs = match r.json with
      | some v => .json (Json.stringify v)
      | none => .rejects := rfl

variable (handler) in
theorem completeEntry_iff (entry : JsValue) (behaviour : Behaviour) :
    CompleteEntry entry (answerEntry handler entry behaviour) ↔
      Carried handler entry behaviour := by
  unfold CompleteEntry answerEntry
  cases hdue : isNotification entry with
  | true =>
    rw [if_pos rfl, runEntry_notification hdue]
    exact iff_of_true rfl (carried_notification hdue behaviour)
  | false =>
    obtain ⟨r, hr, hiff⟩ := runEntry_iff handler hdue behaviour
    rw [if_neg (by simp), hr, ← hiff]
    dsimp only
    rw [respond_toJs]
    constructor
    · rintro ⟨text, hanswer, v, hparse, hresponse⟩
      cases hjson : r.json with
      | none =>
        rw [hjson] at hanswer
        cases hanswer
      | some w =>
        rw [hjson] at hanswer
        cases hanswer
        rw [Json.parse_stringify] at hparse
        cases hparse
        exact ⟨_, rfl, hresponse⟩
    · rintro ⟨v, hv, hresponse⟩
      rw [hv]
      exact ⟨_, rfl, v, Json.parse_stringify v, hresponse⟩

end Neemata.JsonRpc
