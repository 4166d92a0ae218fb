import Neemata.Http.Handler
import Neemata.Http.Preferences

/-!
# CORS grants

What the first headers of a response grant to the origin of its request (`granted_firstHeaders`) is
what the response grants, since nothing that `handle` sets afterwards touches the headers of a grant
or drops a value of Vary (`keeps_handle`). The procedure has the headers too, and can.
-/

namespace Neemata.Http

open CodeUnits HttpHandler

variable {ν : Type}

def allowCredentials : Text := corsHeader .allowCredentials

/-! ## Headers that keep a grant -/

structure Keeps (headers headers' : Headers) : Prop where
  origin : headers'.values allowOrigin = headers.values allowOrigin
  credentials : headers'.values allowCredentials = headers.values allowCredentials
  vary : ∀ value ∈ headers.values varyName, value ∈ headers'.values varyName

namespace Keeps

variable {headers headers' headers'' : Headers} {name : Text} {value : HeaderValue}

theorem refl (headers : Headers) : Keeps headers headers := ⟨rfl, rfl, fun _ h => h⟩

theorem trans (h : Keeps headers headers') (h' : Keeps headers' headers'') :
    Keeps headers headers'' :=
  ⟨h'.origin.trans h.origin, h'.credentials.trans h.credentials,
    fun value hvalue => h'.vary value (h.vary value hvalue)⟩

theorem append (horigin : name ≠ allowOrigin) (hcredentials : name ≠ allowCredentials) :
    Keeps headers (headers.append name value) := by
  refine ⟨Headers.values_append_of_ne horigin, Headers.values_append_of_ne hcredentials,
    fun v hv => ?_⟩
  by_cases hname : name = varyName
  · rw [hname, Headers.values_append_self]
    exact List.mem_append_left _ hv
  · rw [Headers.values_append_of_ne hname]
    exact hv

theorem set (horigin : name ≠ allowOrigin) (hcredentials : name ≠ allowCredentials)
    (hvary : name ≠ varyName) : Keeps headers (headers.set name value) :=
  ⟨Headers.values_set_of_ne horigin, Headers.values_set_of_ne hcredentials,
    fun v hv => by rw [Headers.values_set_of_ne hvary]; exact hv⟩

theorem delete (horigin : name ≠ allowOrigin) (hcredentials : name ≠ allowCredentials)
    (hvary : name ≠ varyName) : Keeps headers (headers.delete name) :=
  ⟨Headers.values_delete_of_ne horigin, Headers.values_delete_of_ne hcredentials,
    fun v hv => by rw [Headers.values_delete_of_ne hvary]; exact hv⟩

theorem foldl {α : Type} {step : Headers → α → Headers} {l : List α}
    (h : ∀ a ∈ l, ∀ headers, Keeps headers (step headers a)) (headers : Headers) :
    Keeps headers (l.foldl step headers) := by
  induction l generalizing headers with
  | nil => exact .refl headers
  | cons a l ih =>
    obtain ⟨ha, hl⟩ := List.forall_mem_cons.mp h
    exact (ha headers).trans (ih hl _)

end Keeps

/-- A name that the handler sets itself. -/
def OwnName (name : Text) : Prop :=
  name ≠ allowOrigin ∧ name ≠ allowCredentials ∧ name ≠ varyName

theorem ownName_contentType : OwnName (units "content-type") := by
  refine ⟨?_, ?_, ?_⟩ <;> decide

theorem keeps_setHeader {headers headers' : Headers} {name text : Text} (hname : OwnName name)
    (h : setHeader headers name text = .ok headers') : Keeps headers headers' := by
  obtain ⟨value, rfl⟩ := setHeader_eq_ok h
  exact .set hname.1 hname.2.1 hname.2.2

theorem keeps_setAll {entries : List (Text × Text)} (hnames : ∀ entry ∈ entries, OwnName entry.1)
    (headers : Headers) : Keeps headers (setAll headers entries).1 := by
  induction entries generalizing headers with
  | nil => exact .refl headers
  | cons entry entries ih =>
    obtain ⟨hentry, hrest⟩ := List.forall_mem_cons.mp hnames
    rw [setAll]
    cases hset : setHeader headers entry.1 entry.2 with
    | error thrown => exact .refl headers
    | ok next => exact (keeps_setHeader hentry hset).trans (ih hrest next)

/-! ## The procedure's part -/

/-- The edit leaves the headers of a grant alone, and drops no value of Vary. -/
def HeaderEdit.Polite : HeaderEdit → Prop
  | .set name _ | .delete name => OwnName name
  | .append name _ => name ≠ allowOrigin ∧ name ≠ allowCredentials

theorem keeps_apply {edit : HeaderEdit} (h : edit.Polite) (headers : Headers) :
    Keeps headers (edit.apply headers) := by
  cases edit with
  | set name value => exact .set h.1 h.2.1 h.2.2
  | append name value => exact .append h.1 h.2
  | delete name => exact .delete h.1 h.2.1 h.2.2

/-- A `Response` of the procedure has no CORS headers of its own. -/
def RpcResult.WithoutCors : RpcResult ν → Prop
  | .response _ _ entries =>
    ∀ entry ∈ entries, entry.1 ≠ allowOrigin ∧ entry.1 ≠ allowCredentials
  | _ => True

theorem keeps_merge {entry : Text × HeaderValue}
    (h : entry.1 ≠ allowOrigin ∧ entry.1 ≠ allowCredentials) (headers : Headers) :
    Keeps headers (merge headers entry) := by
  rw [merge]
  split
  · exact .append h.1 h.2
  · rename_i hvary
    exact .set h.1 h.2 hvary

/-! ## The handler's part -/

theorem ownName_blobHeaders (type : Text) (size : Option Nat) (filename : Option Text) :
    ∀ entry ∈ blobHeaders type size filename, OwnName entry.1 := by
  intro entry hentry
  have hname : entry.1 = units "x-neemata-blob" ∨ entry.1 = units "content-type" ∨
      entry.1 = units "content-length" ∨ entry.1 = units "content-disposition" := by
    simp only [blobHeaders, List.mem_append] at hentry
    rcases hentry with (hentry | hentry) | hentry
    · rcases List.mem_cons.mp hentry with rfl | hentry
      · exact .inl rfl
      · exact .inr (.inl (congrArg Prod.fst (List.mem_singleton.mp hentry)))
    · cases size with
      | none => cases hentry
      | some size => exact .inr (.inr (.inl (congrArg Prod.fst (List.mem_singleton.mp hentry))))
    · split at hentry
      · cases hentry
      · cases hentry
      · exact .inr (.inr (.inr (congrArg Prod.fst (List.mem_singleton.mp hentry))))
  rcases hname with h | h | h | h
  all_goals
    rw [h]
    refine ⟨?_, ?_, ?_⟩ <;> decide

theorem ownName_streamHeaders (encoder : Codec ν) :
    ∀ entry ∈ streamHeaders encoder, OwnName entry.1 := by
  intro entry hentry
  have hname : entry.1 ∈ (streamHeaders encoder).map Prod.fst := List.mem_map_of_mem hentry
  have hnames : (streamHeaders encoder).map Prod.fst = [units "content-type",
      units "cache-control", units "x-stream-content-type", units "x-accel-buffering"] := rfl
  rw [hnames] at hname
  have hall : ∀ name ∈ [units "content-type", units "cache-control",
      units "x-stream-content-type", units "x-accel-buffering"],
      name ≠ allowOrigin ∧ name ≠ allowCredentials ∧ name ≠ varyName := by decide
  exact hall entry.1 hname

/-- The headers of an outcome keep what they were, and so do those of its response. -/
def KeepsOutcome (headers : Headers) (outcome : Headers × Except Thrown HttpResponse) : Prop :=
  Keeps headers outcome.1 ∧ ∀ response, outcome.2 = .ok response → Keeps headers response.headers

theorem keeps_ended {headers : Headers} {entries : List (Text × Text)} {status : Nat}
    {body : ResponseBody} (hnames : ∀ entry ∈ entries, OwnName entry.1) :
    KeepsOutcome headers (ended (setAll headers entries) status body) := by
  have hkeeps := keeps_setAll hnames headers
  refine ⟨hkeeps, fun response h => ?_⟩
  rw [ended] at h
  cases hset : (setAll headers entries).2 with
  | error thrown =>
    rw [hset] at h
    cases h
  | ok =>
    rw [hset] at h
    cases h
    exact hkeeps

theorem keeps_represent (encoder : Codec ν) {result : RpcResult ν} (hresult : result.WithoutCors)
    (headers : Headers) : KeepsOutcome headers (represent encoder headers result) := by
  have hcontent : ∀ entry ∈ [(units "content-type", encoder.contentType)], OwnName entry.1 := by
    intro entry hentry
    rw [List.mem_singleton.mp hentry]
    exact ownName_contentType
  cases result with
  | response status statusText entries =>
    have hkeeps : Keeps headers (entries.foldl merge headers) :=
      .foldl (fun entry hentry => keeps_merge (hresult entry hentry)) headers
    rw [represent]
    split
    · refine ⟨hkeeps, fun response h => ?_⟩
      cases h
      exact hkeeps
    · refine ⟨hkeeps, fun response h => ?_⟩
      cases h
  | blob type size filename readable =>
    have hnames := ownName_blobHeaders type size filename
    rw [represent]
    split
    · exact keeps_ended hnames
    · refine ⟨keeps_setAll hnames headers, fun response h => ?_⟩
      dsimp only at h
      cases hset : (setAll headers (blobHeaders type size filename)).2 with
      | error thrown => rw [hset] at h; cases h
      | ok => rw [hset] at h; cases h
  | stream => exact keeps_ended (ownName_streamHeaders encoder)
  | void => exact keeps_ended hcontent
  | value value =>
    rw [represent]
    cases encoder.encode (.value value) with
    | error thrown => exact ⟨.refl headers, fun response h => (by cases h)⟩
    | ok bytes => exact keeps_ended hcontent

theorem keeps_recover {encoder : Codec ν} {headers : Headers} {thrown : Thrown}
    {response : HttpResponse} (h : recover encoder headers thrown = .ok response) :
    Keeps headers response.headers := by
  have hencoded : ∀ error, encodedError encoder headers error = .ok response →
      Keeps headers response.headers := by
    intro error herror
    rw [encodedError] at herror
    cases hbytes : encoder.encode (.error error) with
    | error thrown => rw [hbytes] at herror; cases herror
    | ok bytes =>
      cases hset : setHeader headers (units "content-type") encoder.contentType with
      | error thrown => rw [hbytes, hset] at herror; cases herror
      | ok next =>
        rw [hbytes, hset] at herror
        cases herror
        exact keeps_setHeader ownName_contentType hset
  cases thrown with
  | payloadTooLarge | unsupportedContentType | unsupportedAcceptType => cases h; exact .refl headers
  | protocol error => exact hencoded error h
  | invalidMimeType => exact hencoded _ h
  | invalidResponse => exact hencoded _ h
  | other => exact hencoded _ h

/-- What the procedure does: its edits are polite, and its `Response` has no CORS headers. -/
structure HttpGateway.Polite (gateway : HttpGateway ν) : Prop where
  edits : ∀ payload, ∀ edit ∈ (gateway.onRpc payload).1, edit.Polite
  result : ∀ payload result, (gateway.onRpc payload).2 = .ok result → result.WithoutCors

variable {handler : HttpHandler ν} {gateway : HttpGateway ν} {request : HttpRequest}

variable (handler request) in
theorem keeps_attempt (hpolite : gateway.Polite) (codecs : Codecs ν) (headers : Headers) :
    KeepsOutcome headers (handler.attempt gateway request codecs headers) := by
  rw [attempt]
  cases handler.prepare gateway request codecs.decoder with
  | error thrown => exact ⟨.refl headers, fun response h => (by cases h)⟩
  | ok payload =>
    have hedits : Keeps headers ((gateway.onRpc payload).1.foldl HeaderEdit.apply headers) :=
      .foldl (fun edit hedit => keeps_apply (hpolite.edits payload edit hedit)) headers
    dsimp only
    cases hresult : (gateway.onRpc payload).2 with
    | error thrown => exact ⟨hedits, fun response h => (by cases h)⟩
    | ok result =>
      obtain ⟨hheaders, hresponse⟩ := keeps_represent codecs.encoder
        (hpolite.result payload result hresult)
        ((gateway.onRpc payload).1.foldl HeaderEdit.apply headers)
      exact ⟨hedits.trans hheaders, fun response h => hedits.trans (hresponse response h)⟩

theorem keeps_exchange (hpolite : gateway.Polite) {codecs : Codecs ν} {headers : Headers}
    {response : HttpResponse}
    (h : handler.exchange gateway request codecs headers = .ok response) :
    Keeps headers response.headers := by
  obtain ⟨hheaders, hresponse⟩ :=
    keeps_attempt handler request hpolite codecs headers
  rw [exchange] at h
  cases hconnect : gateway.connect with
  | some thrown => rw [hconnect] at h; cases h
  | none =>
    rw [hconnect] at h
    cases hdispose : gateway.dispose with
    | some thrown => rw [hdispose] at h; cases h
    | none =>
      rw [hdispose] at h
      dsimp only at h
      cases houtcome : (handler.attempt gateway request codecs headers).2 with
      | error thrown =>
        rw [houtcome] at h
        exact hheaders.trans (keeps_recover h)
      | ok answered =>
        rw [houtcome] at h
        cases h
        exact hresponse response houtcome

/-- Every exit keeps what the first headers grant. -/
theorem keeps_handle (hpolite : gateway.Polite) {response : HttpResponse}
    (h : handler.handle gateway request = .ok response) :
    ∃ headers, handler.firstHeaders request = .ok headers ∧ Keeps headers response.headers := by
  rw [handle] at h
  cases hfirst : handler.firstHeaders request with
  | error thrown => rw [hfirst] at h; cases h
  | ok headers =>
    refine ⟨headers, rfl, ?_⟩
    rw [hfirst] at h
    dsimp only at h
    split at h
    · cases h
      exact .refl headers
    · split at h
      · cases h
        exact .refl headers
      · cases h
        exact .refl headers
      · cases h
      · exact keeps_exchange hpolite h

/-! ## What is granted -/

/-- The name is among those that Vary lists. -/
def VariesOn (headers : Headers) (name : Text) : Prop :=
  ∃ value ∈ headers.values varyName, name ∈ (value.text.splitOn (unit ',')).map trim

instance VariesOn.decidable (headers : Headers) (name : Text) :
    Decidable (VariesOn headers name) := by
  unfold VariesOn; infer_instance

structure Granted (cors : Option (CorsOptions HttpRequest)) (request : HttpRequest)
    (headers : Headers) : Prop where
  /-- Only an admitted origin is allowed, and as it is. -/
  origin : headers.values allowOrigin = [] ∨
    ∃ options origin, cors = some options ∧ request.origin = some origin ∧
      Admits options origin request ∧ headers.values allowOrigin = [origin]
  credentials : headers.values allowCredentials ≠ [] →
    ∃ options origin, cors = some options ∧ request.origin = some origin ∧
      AllowsCredentials options origin request
  vary : cors.isSome = true → VariesOn headers (units "Origin")

theorem Granted.keeps {cors : Option (CorsOptions HttpRequest)} {headers headers' : Headers}
    (h : Granted cors request headers) (hkeeps : Keeps headers headers') :
    Granted cors request headers' where
  origin := by
    rw [hkeeps.origin]
    exact h.origin
  credentials := by
    rw [hkeeps.credentials]
    exact h.credentials
  vary := by
    intro hcors
    obtain ⟨value, hvalue, hname⟩ := h.vary hcors
    exact ⟨value, hkeeps.vary value hvalue, hname⟩

theorem corsHeader_ne_allowOrigin (key : CorsKey) : corsHeader key ≠ allowOrigin := by
  cases key <;> decide

theorem corsHeader_ne_vary (key : CorsKey) : corsHeader key ≠ varyName := by
  cases key <;> decide

theorem corsHeader_ne_allowCredentials {key : CorsKey} (h : key ≠ .allowCredentials) :
    corsHeader key ≠ allowCredentials := by
  cases key with
  | allowCredentials => exact absurd rfl h
  | _ => decide

/-- What `applyCors` makes of headers without CORS headers. -/
theorem granted_applyCors {cors : Option (CorsOptions HttpRequest)} {origin : HeaderValue}
    {headers headers' : Headers} (horigin : request.origin = some origin)
    (hnone : headers.values allowOrigin = []) (hno : headers.values allowCredentials = [])
    (hvary : cors.isSome = true → VariesOn headers (units "Origin"))
    (h : applyCors cors origin request headers = .ok headers') : Granted cors request headers' := by
  have hsame : Granted cors request headers :=
    ⟨.inl hnone, fun hcredentials => absurd hno hcredentials, hvary⟩
  unfold applyCors at h
  cases hoptions : cors with
  | none =>
    rw [hoptions] at h
    cases h
    exact hoptions ▸ hsame
  | some options =>
    rw [hoptions] at h
    dsimp only at h
    cases hgrant : grant options origin request with
    | none =>
      rw [hgrant] at h
      cases h
      exact hoptions ▸ hsame
    | some params =>
      rw [hgrant] at h
      dsimp only at h
      refine ⟨.inr ⟨options, origin, rfl, horigin, admits_of_grant hgrant, ?_⟩, fun hset => ?_,
        fun hcors => ?_⟩
      · rw [values_writeParams h fun key _ => corsHeader_ne_allowOrigin key,
          Headers.values_set_self]
      · refine ⟨options, origin, rfl, horigin, credentials_of_grant hgrant ?_⟩
        by_contra hkey
        have hkeys : ∀ key ∈ params.map Prod.fst, corsHeader key ≠ allowCredentials :=
          fun key hmem => corsHeader_ne_allowCredentials fun heq => hkey (heq ▸ hmem)
        rw [values_writeParams h hkeys, Headers.values_set_of_ne (by decide), hno] at hset
        exact hset rfl
      · obtain ⟨value, hvalue, hname⟩ := hvary (by rw [hoptions]; rfl)
        refine ⟨value, ?_, hname⟩
        rw [values_writeParams h fun key _ => corsHeader_ne_vary key,
          Headers.values_set_of_ne (by decide)]
        exact hvalue

theorem variesOn_origin : VariesOn (Headers.append ⟨[]⟩ varyName originName) (units "Origin") := by
  decide

theorem granted_firstHeaders {headers : Headers} (h : handler.firstHeaders request = .ok headers) :
    Granted handler.cors request headers := by
  rw [firstHeaders] at h
  have hnone : (if handler.cors.isSome then Headers.append ⟨[]⟩ varyName originName
      else ⟨[]⟩).values allowOrigin = [] := by split <;> rfl
  have hno : (if handler.cors.isSome then Headers.append ⟨[]⟩ varyName originName
      else ⟨[]⟩).values allowCredentials = [] := by split <;> rfl
  have hvary : handler.cors.isSome = true → VariesOn (if handler.cors.isSome then
      Headers.append ⟨[]⟩ varyName originName else ⟨[]⟩) (units "Origin") := by
    intro hcors
    rw [if_pos hcors]
    exact variesOn_origin
  cases horigin : request.origin with
  | none =>
    rw [horigin] at h
    cases h
    exact ⟨.inl hnone, fun hcredentials => absurd hno hcredentials, hvary⟩
  | some origin =>
    rw [horigin] at h
    exact granted_applyCors horigin hnone hno hvary h

/-- Every response grants what the option admits, if the procedure leaves the grant alone. -/
theorem granted_handle (handler : HttpHandler ν) (gateway : HttpGateway ν) (request : HttpRequest)
    (hpolite : gateway.Polite) {response : HttpResponse}
    (h : handler.handle gateway request = .ok response) :
    Granted handler.cors request response.headers := by
  obtain ⟨headers, hfirst, hkeeps⟩ := keeps_handle hpolite h
  exact (granted_firstHeaders hfirst).keeps hkeeps

/-! ## A procedure with the headers at hand -/

def siteOrigin : HeaderValue := ⟨units "https://app.example.com", by decide, by decide⟩

def postRequest : HttpRequest where
  method := units "post"
  procedure := units "users/list"
  origin := some siteOrigin
  isBlob := false
  contentType := none
  accept := none
  contentLength := none
  body := none
  payload := none

def reflecting : HttpHandler Unit where
  cors := some .reflect
  maxRequestBodySize := 1024
  codecs := .new jsonCodec []
  mimeType := jsonOnly
  sort := .byInsertion

/-- A gateway whose procedure returns nothing. -/
def voidGateway (edits : List HeaderEdit) : HttpGateway Unit where
  connect := none
  resolve _ := .ok none
  parseJson _ := none
  onRpc _ := (edits, .ok .void)
  dispose := none

def acceptName : HeaderValue := ⟨units "Accept", by decide, by decide⟩

theorem polite_voidGateway {edits : List HeaderEdit} (h : ∀ edit ∈ edits, edit.Polite) :
    (voidGateway edits).Polite where
  edits _ := h
  result payload result hresult := by
    cases hresult
    trivial

/-- A procedure that adds to Vary. -/
theorem granted_handle_append :
    ∃ response, reflecting.handle (voidGateway [.append varyName acceptName]) postRequest =
        .ok response ∧
      Granted reflecting.cors postRequest response.headers :=
  ⟨_, rfl, granted_handle reflecting (voidGateway [.append varyName acceptName]) postRequest
    (polite_voidGateway (List.forall_mem_singleton.mpr ⟨by decide, by decide⟩)) rfl⟩

/-- A procedure that sets Vary. -/
theorem not_granted_of_set :
    ¬ ∀ (handler : HttpHandler Unit) (gateway : HttpGateway Unit) (request : HttpRequest)
      (response : HttpResponse),
      (∀ payload result, (gateway.onRpc payload).2 = .ok result → result.WithoutCors) →
      handler.handle gateway request = .ok response →
      Granted handler.cors request response.headers := by
  intro h
  have hresult : ∀ payload result,
      ((voidGateway [.set varyName acceptName]).onRpc payload).2 = .ok result →
        result.WithoutCors := by
    intro payload result hresult
    cases hresult
    trivial
  have hgranted := h reflecting (voidGateway [.set varyName acceptName]) postRequest _ hresult rfl
  exact absurd (hgranted.vary rfl) (by decide)

end Neemata.Http
