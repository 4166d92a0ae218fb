import Neemata.Http.Headers
import Neemata.Http.Negotiation

/-!
# CORS parameters

`applyCors` of `transports/src/neemata/http/server.ts`, with its four shapes of the option and its
two tables of defaults. `grant` is the part that makes the parameters; whoever is granted some is
admitted (`admits_of_grant`), and gets credentials from a list, from the callback or from the option
itself (`credentials_of_grant`).
-/

namespace Neemata.Http

open CodeUnits

/-! ## The option -/

inductive CorsOrigin where
  /-- `true` -/
  | any
  | list (origins : List Text)

/-- `HttpHandlerCorsCustomOptions` -/
structure CorsCustomOptions where
  origin : CorsOrigin
  allowMethods : Option (List Text) := none
  allowHeaders : Option (List Text) := none
  allowCredentials : Option Text := none
  maxAge : Option Text := none
  exposeHeaders : Option (List Text) := none
  requestHeaders : Option (List Text) := none
  requestMethod : Option Text := none

inductive CorsAnswer where
  | verdict (admitted : Bool)
  | custom (options : CorsCustomOptions)

/-- `HttpHandlerCorsOptions` over the requests that a callback sees. -/
inductive CorsOptions (ρ : Type) where
  /-- `true` -/
  | reflect
  | origins (origins : List Text)
  | custom (options : CorsCustomOptions)
  | callback (answer : HeaderValue → ρ → CorsAnswer)

/-! ## The parameters -/

inductive CorsKey where
  | allowMethods | allowHeaders | allowCredentials | maxAge | exposeHeaders | requestHeaders
  | requestMethod
deriving DecidableEq

inductive CorsParam where
  | text (text : Text)
  | list (items : List Text)
  | undefined
deriving DecidableEq

abbrev CorsParams := List (CorsKey × CorsParam)

def DEFAULT_CORS_PARAMS : CorsParams := [
  (.allowMethods, .list (["GET", "POST", "PUT", "DELETE", "OPTIONS"].map units)),
  (.allowHeaders, .list (["Content-Type", "Content-Disposition", "Content-Length", "Accept",
    "Authorization", "Transfer-Encoding"].map units)),
  (.maxAge, .undefined),
  (.requestMethod, .undefined),
  (.exposeHeaders, .list []),
  (.requestHeaders, .list [])]

def EXPLICIT_ORIGIN_CORS_PARAMS : CorsParams :=
  DEFAULT_CORS_PARAMS ++ [(.allowCredentials, .text (units "true"))]

def allowOrigin : Text := units "access-control-allow-origin"

/-- `CORS_HEADERS_MAP` but for the origin, which is no key of the parameters. -/
def corsHeader : CorsKey → Text
  | .allowMethods => units "access-control-allow-methods"
  | .allowHeaders => units "access-control-allow-headers"
  | .allowCredentials => units "access-control-allow-credentials"
  | .maxAge => units "access-control-max-age"
  | .exposeHeaders => units "access-control-expose-headers"
  | .requestHeaders => units "access-control-request-headers"
  | .requestMethod => units "access-control-request-method"

def CorsParam.ofText : Option Text → CorsParam
  | some value => .text value
  | none => .undefined

def CorsParam.ofList : Option (List Text) → CorsParam
  | some items => .list items
  | none => .undefined

namespace CorsCustomOptions

variable (options : CorsCustomOptions)

def get : CorsKey → CorsParam
  | .allowMethods => .ofList options.allowMethods
  | .allowHeaders => .ofList options.allowHeaders
  | .allowCredentials => .ofText options.allowCredentials
  | .maxAge => .ofText options.maxAge
  | .exposeHeaders => .ofList options.exposeHeaders
  | .requestHeaders => .ofList options.requestHeaders
  | .requestMethod => .ofText options.requestMethod

/-- `origin === true || origin.includes(origin)` -/
def admits (origin : HeaderValue) : Bool :=
  match options.origin with
  | .any => true
  | .list origins => origins.contains origin.text

/-- The loop over the keys of the parameters. -/
def override (params : CorsParams) : CorsParams :=
  params.map fun param =>
    (param.1, if options.get param.1 = .undefined then param.2 else options.get param.1)

theorem override_keys (params : CorsParams) :
    (options.override params).map Prod.fst = params.map Prod.fst := by
  rw [override, List.map_map]
  rfl

/-- `params.allowCredentials = …`, if the options have it. -/
def assignCredentials (params : CorsParams) : CorsParams :=
  match options.allowCredentials with
  | none => params
  | some text =>
    params.filter (fun param => param.1 != .allowCredentials) ++ [(.allowCredentials, .text text)]

/-- The parameters for an origin that the options admit. -/
def params : CorsParams :=
  options.assignCredentials <| options.override <|
    match options.origin with
    | .any => DEFAULT_CORS_PARAMS
    | .list _ => EXPLICIT_ORIGIN_CORS_PARAMS

end CorsCustomOptions

variable {ρ : Type}

/-- The parameters for the origin, if it gets any. -/
def grant (options : CorsOptions ρ) (origin : HeaderValue) (request : ρ) : Option CorsParams :=
  match options with
  | .reflect => some DEFAULT_CORS_PARAMS
  | .origins origins =>
    if origins.contains origin.text then some EXPLICIT_ORIGIN_CORS_PARAMS else none
  | .custom custom => if custom.admits origin then some custom.params else none
  | .callback answer =>
    match answer origin request with
    | .verdict admitted => if admitted then some EXPLICIT_ORIGIN_CORS_PARAMS else none
    | .custom custom => if custom.admits origin then some custom.params else none

/-! ## The headers -/

/-- `headers.set` -/
def setHeader (headers : Headers) (name text : Text) : Except Thrown Headers :=
  match HeaderValue.ofText? text with
  | none => .error .invalidResponse
  | some value => .ok (headers.set name value)

/-- The text of a parameter; the empty one is not written. -/
def CorsParam.header : CorsParam → Text
  | .text value => value
  | .list items => (units ", ").intercalate (items.filter fun item => item != [])
  | .undefined => []

def writeParam (headers : Headers) (param : CorsKey × CorsParam) : Except Thrown Headers :=
  if param.2.header = [] then .ok headers
  else setHeader headers (corsHeader param.1) param.2.header

def applyCors (cors : Option (CorsOptions ρ)) (origin : HeaderValue) (request : ρ)
    (headers : Headers) : Except Thrown Headers :=
  match cors with
  | none => .ok headers
  | some options =>
    match grant options origin request with
    | none => .ok headers
    | some params => params.foldlM writeParam (headers.set allowOrigin origin)

/-! ## Who is granted what -/

/-- The option admits the origin. -/
def Admits (options : CorsOptions ρ) (origin : HeaderValue) (request : ρ) : Prop :=
  match options with
  | .reflect => True
  | .origins origins => origin.text ∈ origins
  | .custom custom => custom.admits origin = true
  | .callback answer =>
    match answer origin request with
    | .verdict admitted => admitted = true
    | .custom custom => custom.admits origin = true

/-- A list has the origin, or the options set the credentials themselves. -/
def CorsCustomOptions.Credentials (options : CorsCustomOptions) (origin : HeaderValue) : Prop :=
  (∃ origins, options.origin = .list origins ∧ origin.text ∈ origins) ∨
    options.allowCredentials.isSome = true

/-- The origin is admitted by an explicit list or by the callback, or the option sets the
credentials itself. -/
def AllowsCredentials (options : CorsOptions ρ) (origin : HeaderValue) (request : ρ) : Prop :=
  match options with
  | .reflect => False
  | .origins origins => origin.text ∈ origins
  | .custom custom => custom.Credentials origin
  | .callback answer =>
    match answer origin request with
    | .verdict admitted => admitted = true
    | .custom custom => custom.Credentials origin

variable {options : CorsOptions ρ} {origin : HeaderValue} {request : ρ} {params : CorsParams}

theorem admits_of_grant (h : grant options origin request = some params) :
    Admits options origin request := by
  cases options with
  | reflect => trivial
  | origins origins =>
    simp only [grant] at h
    split at h
    · rename_i hin
      exact List.contains_iff_mem.mp hin
    · cases h
  | custom custom =>
    simp only [grant] at h
    split at h
    · assumption
    · cases h
  | callback answer =>
    simp only [grant] at h
    rw [Admits]
    cases hanswer : answer origin request with
    | verdict admitted =>
      rw [hanswer] at h
      cases admitted with
      | true => rfl
      | false => cases h
    | custom custom =>
      rw [hanswer] at h
      simp only at h
      split at h
      · assumption
      · cases h

theorem CorsCustomOptions.credentials_of_params {custom : CorsCustomOptions}
    (hadmits : custom.admits origin = true)
    (h : .allowCredentials ∈ custom.params.map Prod.fst) : custom.Credentials origin := by
  cases hcredentials : custom.allowCredentials with
  | some text => exact .inr (by rw [hcredentials]; rfl)
  | none =>
    rw [CorsCustomOptions.admits] at hadmits
    rw [CorsCustomOptions.params, CorsCustomOptions.assignCredentials, hcredentials] at h
    cases horigin : custom.origin with
    | list origins =>
      rw [horigin] at hadmits
      exact .inl ⟨origins, horigin, List.contains_iff_mem.mp hadmits⟩
    | any =>
      -- the defaults for a reflected origin have no such key
      rw [horigin, CorsCustomOptions.override_keys] at h
      exact absurd h (by decide)

theorem credentials_of_grant (h : grant options origin request = some params)
    (hkey : .allowCredentials ∈ params.map Prod.fst) :
    AllowsCredentials options origin request := by
  cases options with
  | reflect =>
    cases h
    exact absurd hkey (by decide)
  | origins origins =>
    simp only [grant] at h
    split at h
    · rename_i hin
      exact List.contains_iff_mem.mp hin
    · cases h
  | custom custom =>
    simp only [grant] at h
    split at h
    · rename_i hadmits
      cases h
      exact CorsCustomOptions.credentials_of_params hadmits hkey
    · cases h
  | callback answer =>
    simp only [grant] at h
    rw [AllowsCredentials]
    cases hanswer : answer origin request with
    | verdict admitted =>
      rw [hanswer] at h
      cases admitted with
      | true => rfl
      | false => cases h
    | custom custom =>
      rw [hanswer] at h
      simp only at h
      split at h
      · rename_i hadmits
        cases h
        exact CorsCustomOptions.credentials_of_params hadmits hkey
      · cases h

/-! ## What is written -/

theorem setHeader_eq_ok {headers headers' : Headers} {name text : Text}
    (h : setHeader headers name text = .ok headers') :
    ∃ value, headers' = headers.set name value := by
  rw [setHeader] at h
  split at h
  · cases h
  · rename_i value _
    exact ⟨value, (Except.ok.inj h).symm⟩

/-- A parameter changes the values of its own header only. -/
theorem values_writeParam {headers headers' : Headers} {param : CorsKey × CorsParam} {name : Text}
    (h : writeParam headers param = .ok headers') (hname : corsHeader param.1 ≠ name) :
    headers'.values name = headers.values name := by
  rw [writeParam] at h
  split at h
  · rw [Except.ok.inj h]
  · obtain ⟨value, rfl⟩ := setHeader_eq_ok h
    exact Headers.values_set_of_ne hname

theorem values_writeParams {headers headers' : Headers} {name : Text}
    (h : params.foldlM writeParam headers = .ok headers')
    (hname : ∀ key ∈ params.map Prod.fst, corsHeader key ≠ name) :
    headers'.values name = headers.values name := by
  induction params generalizing headers with
  | nil =>
    cases h
    rfl
  | cons param params ih =>
    rw [List.foldlM_cons] at h
    cases hstep : writeParam headers param with
    | error thrown =>
      rw [hstep] at h
      cases h
    | ok next =>
      rw [hstep] at h
      rw [List.map_cons] at hname
      obtain ⟨hhead, hrest⟩ := List.forall_mem_cons.mp hname
      rw [ih h hrest, values_writeParam hstep hhead]

end Neemata.Http
