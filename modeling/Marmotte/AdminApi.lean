import Marmotte.Admin
import Marmotte.Yocto

/-!
# The admin API

The routes of the admin API behind the Bearer middleware, with the views that
they render.  A request is what is left of it when the framework has parsed its
path, query and body.  The listings of keys, tokens, entries and audit rows are
not modelled.
-/

namespace Marmotte

open Effects Program

namespace Admin

/-! ## Views -/

/-- A project as the admin API shows it. -/
structure ProjectView where
  id : Int
  name : String
  quotaBytes : Option Int
  ttlSeconds : Option Int
  createdAt : Int
  deriving DecidableEq, Repr

def ProjectView.from (p : Project) : ProjectView :=
  ⟨p.id, p.name, p.quotaBytes, p.ttlSeconds, p.createdAt⟩

/-- A new key; its secret is shown only here. -/
structure ApiKeyCreated where
  id : Int
  projectId : Int
  role : Role
  label : Option String
  createdAt : Int
  secret : String
  deriving DecidableEq, Repr

/-- A new admin token; its secret is shown only here. -/
structure AdminTokenCreated where
  id : Int
  label : Option String
  createdAt : Int
  secret : String
  deriving DecidableEq, Repr

/-- The JSON body of a successful response. -/
inductive View
  | empty
  | project (view : ProjectView)
  | projects (views : List ProjectView)
  | key (created : ApiKeyCreated)
  | token (created : AdminTokenCreated)
  | sweep (dryRun : Bool) (report : GcReport)
  | scan (dryRun : Bool) (report : OrphanReport)
  | globalStats (globalBytes : Int) (projects : Nat)
  | projectStats (stats : ProjectStats)
  deriving DecidableEq, Repr

/-- The body of any response. -/
inductive Content
  | view (view : View)
  | problem (title : String) (error : CoreError)
  | text (content : String)
  deriving DecidableEq, Repr

/-- A response of the admin API. -/
structure Reply where
  status : Nat
  content : Content
  deriving DecidableEq, Repr

/-- `ApiError::into_response`. -/
def Reply.ofError (error : CoreError) : Reply :=
  let (status, title) := error.statusAndTitle
  ⟨status, .problem title error⟩

/-- The response of the middleware to a token that it does not accept. -/
def Reply.unauthorized : Reply := ⟨401, .text "unauthorized\n"⟩

/-- An error is never answered as a success. -/
theorem Reply.ofError_status_ge (error : CoreError) :
    400 ≤ (Reply.ofError error).status :=
  error.intoResponse_status_ge

/-! ## Routes -/

/-- What a request asks for.  The secret and the hash of a key or a token are
those that its handler draws. -/
inductive Route
  | createProject (name : String) (quotaBytes ttlSeconds : Option Int)
  | listProjects
  | getProject (id : Int)
  | updateProject
      (id : Int) (newName : Option String)
      (quotaBytes ttlSeconds : Option (Option Int))
  | deleteProject (id : Int)
  | createKey
      (id : Int) (secret phc : String) (role : Role) (label : Option String)
  | revokeKey (id kid : Int)
  | createToken (secret phc : String) (label : Option String)
  | revokeToken (id : Int)
  | deleteEntry (id eid : Int)
  | pin (id eid : Int)
  | unpin (id eid : Int)
  | runGc (dryRun : Bool)
  | orphanScan (dryRun : Bool)
  | globalStats
  | projectStats (id : Int)
  deriving DecidableEq, Repr

/-- The `run` handler of the collector. -/
def runGc
    (config : Config) (budget : Nat) (auth : AdminAuth) (dryRun : Bool) :
    App GcReport := do
  let r ← GcSvc.run config.gc budget dryRun
  audit auth "gc.run" none (some (.dryRun dryRun))
  pure r

/-- The `orphan_scan` handler. -/
def orphanScan
    (env : Env) (auth : AdminAuth) (dryRun : Bool) : App OrphanReport := do
  let r ← GcSvc.orphanScan env dryRun
  audit auth "gc.orphan_scan" none (some (.dryRun dryRun))
  pure r

/-- The `global_stats` handler. -/
def globalStats : App (Int × Nat) := do
  let total ← transact .blobsTotalSize
  let projects ← transact .projectsList
  pure (total, projects.length)

/-- The handler of a route. -/
def handle
    (env : Env) (config : Config) (budget : Nat) (auth : AdminAuth) :
    Route → App Reply
  | .createProject name quotaBytes ttlSeconds => do
      let p ← createProject auth name quotaBytes ttlSeconds
      pure ⟨201, .view (.project (.from p))⟩
  | .listProjects => do
      let v ← transact .projectsList
      pure ⟨200, .view (.projects (v.map .from))⟩
  | .getProject id => do
      let p ← transact (.projectsGet id)
      pure ⟨200, .view (.project (.from p))⟩
  | .updateProject id newName quotaBytes ttlSeconds => do
      let p ← updateProject auth id newName quotaBytes ttlSeconds
      pure ⟨200, .view (.project (.from p))⟩
  | .deleteProject id => do
      deleteProject auth id
      pure ⟨204, .view .empty⟩
  | .createKey id secret phc role label => do
      let key ← createKey env auth id secret phc role label
      pure ⟨201, .view (.key ⟨key.id, key.projectId, key.role, key.label,
        key.createdAt, secret⟩)⟩
  | .revokeKey id kid => do
      revokeKey auth id kid
      pure ⟨204, .view .empty⟩
  | .createToken secret phc label => do
      let t ← createToken env auth secret phc label
      pure ⟨201, .view (.token ⟨t.id, t.label, t.createdAt, secret⟩)⟩
  | .revokeToken id => do
      revokeToken auth id
      pure ⟨204, .view .empty⟩
  | .deleteEntry id eid => do
      deleteEntry auth id eid
      pure ⟨204, .view .empty⟩
  | .pin id eid => do
      pin auth id eid
      pure ⟨204, .view .empty⟩
  | .unpin id eid => do
      unpin auth id eid
      pure ⟨204, .view .empty⟩
  | .runGc dryRun => do
      let r ← runGc config budget auth dryRun
      pure ⟨200, .view (.sweep dryRun r)⟩
  | .orphanScan dryRun => do
      let r ← orphanScan env auth dryRun
      pure ⟨200, .view (.scan dryRun r)⟩
  | .globalStats => do
      let (total, projects) ← globalStats
      pure ⟨200, .view (.globalStats total projects)⟩
  | .projectStats id => do
      let stats ← projectStats id
      pure ⟨200, .view (.projectStats stats)⟩

/-! ## The middleware -/

/-- The token of a Bearer header. -/
def parseBearer (authorization : Option Bytes) : Option String := do
  let raw ← headerToStr (← authorization)
  stripPrefix raw "Bearer "

/-- The Bearer middleware around a handler. -/
def middleware
    (env : Env) (authorization : Option Bytes)
    (next : AdminAuth → App Reply) : App Reply :=
  match parseBearer authorization with
  | none => pure .unauthorized
  | some token => do
      let result ← (AuthSvc.authenticateAdmin env token).toExcept
      match result with
      | .ok auth => next auth
      | .error .unauthorized => pure .unauthorized
      | .error error => pure (.ofError error)

/-- A request to the admin API. -/
structure Request where
  authorization : Option Bytes
  route : Route

/-- The routes behind the middleware. -/
def serve
    (env : Env) (config : Config) (budget : Nat) (request : Request) :
    App Reply :=
  middleware env request.authorization fun auth =>
    (handle env config budget auth request.route).catchError fun error =>
      pure (.ofError error)

end Admin

end Marmotte
