import Marmotte.Auth

/-!
# The admin routes

The handlers behind the admin token that change projects, keys, tokens or
entries, up to the rendering of their results; each ends with a row in the audit
log.  The statistics of a project are here as well.
-/

namespace Marmotte

open Effects Program

/-- Appends an audit-log row.  The clock is read before the statement waits for
a connection, so other rows may be committed in between. -/
def Stats.audit
    (actorToken : Option String) (action : String) (target : Option String)
    (detail : Option AuditDetail) : App Unit := do
  let now ← perform Call.now
  transact (.audit now actorToken action target detail)

namespace Admin

/-- The audit row of a handler. -/
def audit
    (auth : AdminAuth) (action : String) (target : Option Int)
    (detail : Option AuditDetail) : App Unit :=
  Stats.audit auth.tokenLabel action (target.map toString) detail

/-! ## Projects -/

def createProject
    (auth : AdminAuth) (name : String) (quotaBytes ttlSeconds : Option Int) :
    App Project := do
  let p ← transact (.projectsCreate name quotaBytes ttlSeconds)
  audit auth "project.create" (some p.id) (some (.name p.name))
  pure p

def updateProject
    (auth : AdminAuth) (id : Int) (newName : Option String)
    (quotaBytes ttlSeconds : Option (Option Int)) : App Project := do
  transact (.projectsUpdate id newName quotaBytes ttlSeconds)
  let p ← transact (.projectsGet id)
  audit auth "project.update" (some id) none
  pure p

def deleteProject (auth : AdminAuth) (id : Int) : App Unit := do
  transact (.projectsDelete id)
  audit auth "project.delete" (some id) none

/-! ## Keys -/

/-- `secret` and `phc` are what the random generator and the hash function of
the key return. -/
def createKey
    (env : Env) (auth : AdminAuth) (id : Int) (secret phc : String)
    (role : Role) (label : Option String) : App ApiKey := do
  let _p ← transact (.projectsGet id)
  let lookup := lookupHash env secret
  let key ← transact (.apiKeysCreate id lookup phc role label)
  audit auth "key.create" (some key.id) (some (.role role))
  pure key

def revokeKey (auth : AdminAuth) (id kid : Int) : App Unit := do
  transact (.apiKeysRevoke id kid)
  audit auth "key.revoke" (some kid) none

/-! ## Tokens -/

def createToken
    (env : Env) (auth : AdminAuth) (secret phc : String)
    (label : Option String) : App AdminToken := do
  let lookup := lookupHash env secret
  let t ← transact (.adminTokensCreate lookup phc label)
  audit auth "token.create" (some t.id) (some (.label t.label))
  pure t

def revokeToken (auth : AdminAuth) (id : Int) : App Unit := do
  transact (.adminTokensRevoke id)
  audit auth "token.revoke" (some id) none

/-! ## Entries -/

def deleteEntry (auth : AdminAuth) (id eid : Int) : App Unit := do
  transact (.entriesDelete id eid)
  audit auth "entry.delete" (some eid) none

def pin (auth : AdminAuth) (id eid : Int) : App Unit := do
  transact (.entriesSetPinned id eid true)
  audit auth "entry.pin" (some eid) none

def unpin (auth : AdminAuth) (id eid : Int) : App Unit := do
  transact (.entriesSetPinned id eid false)
  audit auth "entry.unpin" (some eid) none

/-! ## Statistics -/

/-- What `project_stats` reports. -/
structure ProjectStats where
  project : Int × String × Option Int
  usageBytes : Int
  hits : Int
  hitsBytes : Int
  puts : Int
  putsBytes : Int
  deriving DecidableEq, Repr

def projectStats (id : Int) : App ProjectStats := do
  let p ← transact (.projectsGet id)
  let usage ← transact (.entriesProjectUsage id)
  let (hits, hitsBytes) ← transact (.statsSum (some id) "hit" 0)
  let (puts, putsBytes) ← transact (.statsSum (some id) "put" 0)
  pure ⟨(p.id, p.name, p.quotaBytes), usage, hits, hitsBytes, puts, putsBytes⟩

end Admin

end Marmotte
