import Marmotte.Auth
import Marmotte.Gc

/-!
# The Yocto-facing routes

The handlers of `/sstate` and `/downloads` behind the Basic-auth middleware.
Metrics are not modelled.
-/

namespace Marmotte

open Effects Program

/-! ## Responses -/

/-- The body of a response; a problem document carries its title and the error
it renders. -/
inductive Payload
  | empty
  | text (content : String)
  | stream (content : Bytes)
  | problem (title : String) (error : CoreError)
  deriving DecidableEq, Repr

/-- A response of the server. -/
structure Response where
  status : Nat
  headers : List (String × String)
  payload : Payload
  deriving DecidableEq, Repr

namespace Response

/-- The value of a header. -/
def header (response : Response) (name : String) : Option String :=
  response.headers.lookup name

end Response

/-- The status code and the short title of an error. -/
def CoreError.statusAndTitle : CoreError → Nat × String
  | .notFound _ => (404, "not_found")
  | .forbidden _ => (403, "forbidden")
  | .unauthorized => (401, "unauthorized")
  | .conflict _ => (409, "conflict")
  | .invalidInput _ => (400, "invalid_input")
  | .quota _ => (507, "quota_exceeded")
  | .migration => (500, "internal")
  | .database _ => (500, "internal")
  | .io _ => (500, "internal")
  | .crypto _ => (500, "internal")
  | .config _ => (500, "internal")
  | .internal _ => (500, "internal")

/-- `ApiError::into_response`. -/
def CoreError.intoResponse (error : CoreError) : Response :=
  let (status, title) := error.statusAndTitle
  ⟨status, [("content-type", "application/problem+json")],
    .problem title error⟩

/-- An error is never answered as a success. -/
theorem CoreError.intoResponse_status_ge (error : CoreError) :
    400 ≤ error.intoResponse.status := by
  cases error <;> simp [intoResponse, statusAndTitle]

theorem CoreError.intoResponse_ne
    {status : Nat} (success : status < 400) (error : CoreError) :
    error.intoResponse.status ≠ status := by
  have refused := error.intoResponse_status_ge
  omega

/-- The text of an entity tag. -/
def quoted (hash : String) : String := s!"\"{hash}\""

theorem quoted_inj {first second : String} :
    quoted first = quoted second ↔ first = second := by
  simp [quoted, toString]

namespace Yocto

/-- The URL project segment has to match the authenticated project name. -/
def ensureProject (auth : ProjectAuth) (urlProject : String) : App Unit :=
  if auth.projectName ≠ urlProject then
    .fail (.forbidden "url project does not match credential")
  else pure ()

/-- The read logic shared by `GET` and `HEAD`. -/
def getOne
    (auth : ProjectAuth) (kind : Kind) (projectInUrl path : String)
    (headOnly : Bool) : App Response := do
  ensureProject auth projectInUrl
  if !auth.role.allowsRead then .fail (.forbidden "read")
  else do
    let found ← transact (.entriesFind auth.projectId kind path)
    match found with
    | none => .fail (.notFound s!"{kind.asStr} {path}")
    | some entry =>
        let headers :=
          [("content-length", toString entry.sizeBytes),
            ("etag", quoted entry.blobHash),
            ("cache-control", "public, immutable, max-age=31536000")]
        if headOnly then pure ⟨200, headers, .empty⟩
        else do
          let content ← LocalFsStore.readBlob entry.blobHash
          perform (Call.spawn (.touch entry.id))
          pure ⟨200, headers, .stream content⟩

/-- The response to a miss. -/
def missResponse : Response := ⟨404, [], .text "not_found\n"⟩

/-- The `get_*` and `head_*` handlers: a missing entry or file is a miss. -/
def read
    (auth : ProjectAuth) (kind : Kind) (projectInUrl path : String)
    (headOnly : Bool) : App Response :=
  (getOne auth kind projectInUrl path headOnly).catchError fun error =>
    match error with
    | .notFound _ => pure missResponse
    | error => pure error.intoResponse

/-- The write logic shared by both kinds. -/
def doPut
    (env : Env) (config : Config)
    (auth : ProjectAuth) (kind : Kind) (projectInUrl path : String)
    (body : Body) : App Response := do
  ensureProject auth projectInUrl
  if !auth.role.allowsWrite then .fail (.forbidden "write")
  else do
    let written ← LocalFsStore.writeStreamed env body
    let _entry ← transact
      (.entriesUpsert auth.projectId kind path written.hash written.sizeBytes)
    transact (.statsBump (some auth.projectId) "put" 1 written.sizeBytes)
    let threshold :=
      mulU64 config.gc.globalQuotaBytes config.gc.triggerThresholdPct / 100
    -- a negative sum counts as zero
    let total ← transact .blobsTotalSize
    let usage := total.toNat
    if threshold < usage then do
      perform (Call.spawn .gcRun)
      pure ⟨201, [("etag", quoted written.hash)], .empty⟩
    else pure ⟨201, [("etag", quoted written.hash)], .empty⟩

/-- The `put_*` handlers. -/
def put
    (env : Env) (config : Config)
    (auth : ProjectAuth) (kind : Kind) (projectInUrl path : String)
    (body : Body) : App Response :=
  (doPut env config auth kind projectInUrl path body).catchError fun error =>
    pure error.intoResponse

/-- The response to missing or wrong credentials. -/
def unauthorized : Response :=
  ⟨401, [("www-authenticate", "Basic realm=\"marmotte\"")],
    .text "unauthorized\n"⟩

/-- The Basic-auth middleware around a handler. -/
def middleware
    (env : Env) (authorization : Option Bytes)
    (next : ProjectAuth → App Response) : App Response :=
  match parseBasic env authorization with
  | none => pure unauthorized
  | some creds => do
      let result ←
        (AuthSvc.authenticateProject env creds.user creds.pass).toExcept
      match result with
      | .ok auth => next auth
      | .error .unauthorized => pure unauthorized
      | .error error => pure error.intoResponse

/-- What a request asks for. -/
inductive Method
  | get
  | head
  | put (body : Body)

/-- A request to one of the routes. -/
structure Request where
  authorization : Option Bytes
  method : Method
  kind : Kind
  project : String
  path : String

/-- The route handlers behind the middleware. -/
def serve (env : Env) (config : Config) (request : Request) : App Response :=
  middleware env request.authorization fun auth =>
    match request.method with
    | .get => read auth request.kind request.project request.path false
    | .head => read auth request.kind request.project request.path true
    | .put body =>
        put env config auth request.kind request.project request.path body

end Yocto

end Marmotte
