import Marmotte.Admin
import Marmotte.Concurrency.Requests
import Marmotte.Footprints

/-!
# Clients

Reads and uploads of any number of clients, with the deletions, sweeps and
background tasks that run next to them.
-/

namespace Marmotte

open Effects Program

/-- An authenticated `GET` or `HEAD` request. -/
structure ReadRequest where
  auth : ProjectAuth
  kind : Kind
  project : String
  path : String
  headOnly : Bool

namespace ReadRequest

/-- The key that the request reads. -/
def key (request : ReadRequest) : Key :=
  ⟨request.auth.projectId, request.kind, request.path⟩

/-- The handler of the request. -/
def program (request : ReadRequest) : App Response :=
  Yocto.read request.auth request.kind request.project request.path
    request.headOnly

end ReadRequest

/-- What runs next to each other. -/
inductive Client
  | read (request : ReadRequest)
  | put (request : PutRequest)
  | deleteEntry (auth : AdminAuth) (id eid : Int)
  | touch (id : Int)
  | gcRun
  | wait (nanos : Nat)

namespace Client

/-- The program of a client; only requests have a response. -/
def program
    (env : Env) (config : Config) (budget : Nat) :
    Client → App (Option Response)
  | .read request => do
      let response ← request.program
      pure (some response)
  | .put request => request.program env config
  | .deleteEntry auth id eid => do
      Admin.deleteEntry auth id eid
      pure none
  | .touch id => do
      transact (.entriesTouch id)
      pure none
  | .gcRun => do
      let _ ← GcSvc.run config.gc budget false
      pure none
  | .wait nanos => do
      perform (Call.tick nanos)
      pure none

end Client

end Marmotte
