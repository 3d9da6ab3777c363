import Marmotte.Effects.Pool
import Marmotte.Repositories
import Marmotte.Storage

/-!
# The runtime: shared state and atomic calls

The world is everything the server's tasks share: the database, the files, the
clocks, the random-name source, the sweep mutex and the two verification caches.
The calls are its atomic steps: one transaction, one system call, or one
operation on an in-memory structure.  Rows are stamped with whole seconds; the
verification caches age on a clock of nanoseconds.
-/

namespace Marmotte

open Effects

/-- Outcome of a successful project authentication. -/
structure ProjectAuth where
  projectId : Int
  projectName : String
  apiKeyId : Int
  role : Role
  deriving DecidableEq, Repr

/-- Outcome of a successful admin authentication. -/
structure AdminAuth where
  tokenId : Int
  tokenLabel : Option String
  deriving DecidableEq, Repr

/-- Nanoseconds in a second. -/
def nanosPerSec : Nat := 1000000000

/-- A value in a verification cache, with the instant of its insertion. -/
structure Cached (V : Type) where
  scope : String
  lookup : String
  value : V
  insertedAt : Int
  deriving DecidableEq, Repr

/-- The entries of a verification cache. -/
abbrev VerifyCache (V : Type) := List (Cached V)

namespace VerifyCache

variable {V : Type}

/-- Drop the entry of a key. -/
def evict (cache : VerifyCache V) (scope lookup : String) : VerifyCache V :=
  cache.filter fun cached =>
    !decide (cached.scope = scope ∧ cached.lookup = lookup)

/-- Store a value under a key. -/
def insert
    (cache : VerifyCache V) (scope lookup : String) (value : V)
    (instant : Int) : VerifyCache V :=
  ⟨scope, lookup, value, instant⟩ :: evict cache scope lookup

/-- The value of a key, unless its time to live, in seconds, has passed. -/
def get
    (cache : VerifyCache V) (scope lookup : String) (instant : Int)
    (ttlSecs : Nat) : Option V :=
  (cache.find? fun cached =>
    decide (cached.scope = scope ∧ cached.lookup = lookup ∧
      instant < cached.insertedAt + ttlSecs * nanosPerSec)).map Cached.value

theorem mem_evict
    {cache : VerifyCache V} {scope lookup : String} {cached : Cached V}
    (present : cached ∈ cache.evict scope lookup) : cached ∈ cache :=
  (List.mem_filter.mp present).1

theorem mem_insert
    {cache : VerifyCache V} {scope lookup : String} {value : V}
    {instant : Int} {cached : Cached V}
    (present : cached ∈ cache.insert scope lookup value instant) :
    cached = ⟨scope, lookup, value, instant⟩ ∨ cached ∈ cache :=
  (List.mem_cons.mp present).imp_right mem_evict

theorem mem_of_get
    {cache : VerifyCache V} {scope lookup : String} {instant : Int}
    {ttlSecs : Nat} {value : V}
    (hit : cache.get scope lookup instant ttlSecs = some value) :
    ∃ cached ∈ cache, cached.scope = scope ∧ cached.lookup = lookup ∧
      instant < cached.insertedAt + ttlSecs * nanosPerSec ∧
        cached.value = value := by
  simp only [get, Option.map_eq_some_iff] at hit
  obtain ⟨cached, found, equal⟩ := hit
  have selected := List.find?_some found
  simp only [decide_eq_true_eq] at selected
  exact ⟨cached, List.mem_of_find?_eq_some found, selected.1, selected.2.1,
    selected.2.2, equal⟩

end VerifyCache

/-- The state shared by all tasks of the server. -/
structure World where
  db : Db
  fs : Fs
  /-- The Unix time in whole seconds. -/
  now : Int
  /-- The nanoseconds of this second that have passed. -/
  nanos : Nat
  uuids : Nat
  gcRunning : Bool
  projectCache : VerifyCache ProjectAuth
  adminCache : VerifyCache AdminAuth

/-- A freshly migrated server with an empty storage root. -/
def World.initial (now : Int) : World where
  db := .empty
  fs := .empty
  now := now
  nanos := 0
  uuids := 0
  gcRunning := false
  projectCache := []
  adminCache := []

namespace World

/-- The instant by which the verification caches go, in nanoseconds. -/
def instant (world : World) : Int := world.now * nanosPerSec + world.nanos

/-- Let some nanoseconds pass. -/
def elapse (world : World) (nanos : Nat) : World :=
  { world with
    now := world.now + ((world.nanos + nanos) / nanosPerSec : Nat)
    nanos := (world.nanos + nanos) % nanosPerSec }

@[simp] theorem instant_elapse (world : World) (nanos : Nat) :
    (world.elapse nanos).instant = world.instant + nanos := by
  have divided := Nat.div_add_mod (world.nanos + nanos) nanosPerSec
  simp only [instant, elapse]
  push_cast
  have whole : (nanosPerSec : Int) * (((world.nanos : Int) + nanos) /
      nanosPerSec) + ((world.nanos : Int) + nanos) % nanosPerSec =
        world.nanos + nanos := by
    exact_mod_cast divided
  rw [Int.add_mul, Int.mul_comm (_ / _)]
  omega

theorem now_le_elapse (world : World) (nanos : Nat) :
    world.now ≤ (world.elapse nanos).now :=
  Int.le_add_of_nonneg_right (Int.natCast_nonneg _)

end World

/-! ## Database calls -/

/-- One call for each repository function and each query of the collector. -/
inductive DbCall
  | projectsCreate (name : String) (quotaBytes ttlSeconds : Option Int)
  | projectsGet (id : Int)
  | projectsGetByName (name : String)
  | projectsList
  | projectsUpdate
      (id : Int) (newName : Option String)
      (quotaBytes ttlSeconds : Option (Option Int))
  | projectsDelete (id : Int)
  | apiKeysCreate
      (projectId : Int) (keyLookup keyHash : String) (role : Role)
      (label : Option String)
  | apiKeysFindActive (projectId : Int) (keyLookup : String)
  | apiKeysRevoke (projectId id : Int)
  | adminTokensCreate (tokenLookup tokenHash : String) (label : Option String)
  | adminTokensFindActive (lookup : String)
  | adminTokensRevoke (id : Int)
  | blobsZeroRefcount (limit : Nat)
  | blobsDelete (hash : String)
  | blobsTotalSize
  | blobsHashes
  | entriesUpsert
      (projectId : Int) (kind : Kind) (path newBlobHash : String)
      (sizeBytes : Int)
  | entriesFind (projectId : Int) (kind : Kind) (path : String)
  | entriesTouch (id : Int)
  | entriesDelete (projectId id : Int)
  | entriesSetPinned (projectId id : Int) (pinned : Bool)
  | entriesProjectUsage (projectId : Int)
  | ttlCandidates (kind : Kind) (now cutoffDefault : Int)
  | quotaCandidates (projectId : Int)
  | globalCandidates
  | purge (hash : String)
  | statsBump (projectId : Option Int) (kind : String) (count bytes : Int)
  | statsSum (projectId : Option Int) (kind : String) (sinceDay : Int)
  | audit
      (timestamp : Int) (actorToken : Option String) (action : String)
      (target : Option String) (detail : Option AuditDetail)

namespace DbCall

/-- What each call returns when it succeeds. -/
abbrev Reply : DbCall → Type
  | .projectsCreate .. => Project
  | .projectsGet _ => Project
  | .projectsGetByName _ => Project
  | .projectsList => List Project
  | .apiKeysCreate .. => ApiKey
  | .apiKeysFindActive .. => Option ApiKey
  | .adminTokensCreate .. => AdminToken
  | .adminTokensFindActive _ => Option AdminToken
  | .blobsZeroRefcount _ => List String
  | .blobsTotalSize => Int
  | .blobsHashes => List String
  | .entriesUpsert .. => Entry
  | .entriesFind .. => Option Entry
  | .entriesProjectUsage _ => Int
  | .ttlCandidates .. => List Candidate
  | .quotaCandidates _ => List Candidate
  | .globalCandidates => List Candidate
  | .statsSum .. => Int × Int
  | _ => Unit

/-- A query leaves the database as it is. -/
private def query (result : α) (db : Db) : Except CoreError (α × Db) :=
  .ok (result, db)

/-- The transaction that each call runs at clock value `now`. -/
def exec
    (env : Env) (now : Int) :
    (call : DbCall) → Db → Except CoreError (call.Reply × Db)
  | .projectsCreate name quotaBytes ttlSeconds, db =>
      Projects.create now db name quotaBytes ttlSeconds
  | .projectsGet id, db => (Projects.get db id).map fun project => (project, db)
  | .projectsGetByName name, db =>
      (Projects.getByName db name).map fun project => (project, db)
  | .projectsList, db => query (Projects.list db) db
  | .projectsUpdate id newName quotaBytes ttlSeconds, db =>
      Projects.update db id newName quotaBytes ttlSeconds
  | .projectsDelete id, db => Projects.delete db id
  | .apiKeysCreate projectId keyLookup keyHash role label, db =>
      ApiKeys.create now db projectId keyLookup keyHash role label
  | .apiKeysFindActive projectId keyLookup, db =>
      query (ApiKeys.findActiveByLookup db projectId keyLookup) db
  | .apiKeysRevoke projectId id, db => ApiKeys.revoke now db projectId id
  | .adminTokensCreate tokenLookup tokenHash label, db =>
      AdminTokens.create now db tokenLookup tokenHash label
  | .adminTokensFindActive lookup, db =>
      query (AdminTokens.findActiveByLookup db lookup) db
  | .adminTokensRevoke id, db => AdminTokens.revoke now db id
  | .blobsZeroRefcount limit, db =>
      query (Blobs.zeroRefcount env.scan db limit) db
  | .blobsDelete hash, db => Blobs.delete db hash
  | .blobsTotalSize, db => query (Blobs.totalSize db) db
  | .blobsHashes, db => query (env.scan (db.blobs.rows.map Blob.hash)) db
  | .entriesUpsert projectId kind path newBlobHash sizeBytes, db =>
      Entries.upsert now db projectId kind path newBlobHash sizeBytes
  | .entriesFind projectId kind path, db =>
      query (Entries.find db projectId kind path) db
  | .entriesTouch id, db => query () (Entries.touch now db id)
  | .entriesDelete projectId id, db => Entries.delete db projectId id
  | .entriesSetPinned projectId id pinned, db =>
      Entries.setPinned db projectId id pinned
  | .entriesProjectUsage projectId, db =>
      query (Entries.projectUsage db projectId) db
  | .ttlCandidates kind now cutoffDefault, db =>
      query
        ((env.scan (GcQueries.expired db kind now cutoffDefault)).map
          Entry.candidate) db
  | .quotaCandidates projectId, db =>
      query ((GcQueries.projectLru db projectId).map Entry.candidate) db
  | .globalCandidates, db =>
      query ((GcQueries.globalLru db).map Entry.candidate) db
  | .purge hash, db => GcQueries.purge db hash
  | .statsBump projectId kind count bytes, db =>
      Stats.bump now db projectId kind count bytes
  | .statsSum projectId kind sinceDay, db =>
      query (Stats.sum db projectId kind sinceDay) db
  | .audit timestamp actorToken action target detail, db =>
      query () (db.insertAudit timestamp actorToken action target detail)

end DbCall

/-! ## Calls -/

/-- Work that a handler leaves to a task of its own. -/
inductive Task
  | gcRun
  | touch (id : Int)
  deriving DecidableEq, Repr

/-- The atomic steps of the server's tasks, and the passing of time. -/
inductive Call
  | db (call : DbCall)
  | fs (call : FsCall)
  | now
  | newUuid
  | gcLock
  | gcUnlock
  | spawn (task : Task)
  | projectCacheGet (scope lookup : String)
  | projectCacheInsert (scope lookup : String) (value : ProjectAuth)
  | projectCacheEvict (scope lookup : String)
  | adminCacheGet (scope lookup : String)
  | adminCacheInsert (scope lookup : String) (value : AdminAuth)
  | adminCacheEvict (scope lookup : String)
  | tick (nanos : Nat)

namespace Call

/-- What each call returns when it succeeds. -/
abbrev Reply : Call → Type
  | .db call => call.Reply
  | .fs call => call.Reply
  | .now => Int
  | .newUuid => String
  | .projectCacheGet .. => Option ProjectAuth
  | .adminCacheGet .. => Option AdminAuth
  | _ => Unit

end Call

/-- Programs of the server. -/
abbrev App := Program Call Call.Reply CoreError

/-- Run one transaction. -/
abbrev transact (call : DbCall) : App call.Reply :=
  Program.perform (Call.db call)

/-- Make one system call. -/
abbrev syscall (call : FsCall) : App call.Reply :=
  Program.perform (Call.fs call)

/-- Make one system call and go on whether it succeeds or not. -/
abbrev trySyscall (call : FsCall) : App (Except CoreError call.Reply) :=
  Program.attempt (Call.fs call)

/-- The effect of each call when nothing goes wrong.  Only the sweep mutex makes
a caller wait; a spawned task is a program of its own. -/
def exec (env : Env) (config : Config) :
    Handler Call Call.Reply CoreError World
  | .db call, world =>
      match call.exec env world.now world.db with
      | .ok (reply, db) => some (.ok reply, { world with db := db })
      | .error error => some (.error error, world)
  | .fs call, world =>
      let (reply, fs) := call.exec env world.fs
      some (reply, { world with fs := fs })
  | .now, world => some (.ok world.now, world)
  | .newUuid, world =>
      some (.ok (env.uuid world.uuids),
        { world with uuids := world.uuids + 1 })
  | .gcLock, world =>
      if world.gcRunning then none
      else some (.ok (), { world with gcRunning := true })
  | .gcUnlock, world => some (.ok (), { world with gcRunning := false })
  | .spawn _, world => some (.ok (), world)
  | .projectCacheGet scope lookup, world =>
      some (.ok (VerifyCache.get world.projectCache scope lookup world.instant
        config.auth.verifyCacheTtlSecs), world)
  | .projectCacheInsert scope lookup value, world =>
      some (.ok (),
        { world with
          projectCache :=
            VerifyCache.insert world.projectCache scope lookup value
              world.instant })
  | .projectCacheEvict scope lookup, world =>
      some (.ok (),
        { world with
          projectCache := VerifyCache.evict world.projectCache scope lookup })
  | .adminCacheGet scope lookup, world =>
      some (.ok (VerifyCache.get world.adminCache scope lookup world.instant
        config.auth.verifyCacheTtlSecs), world)
  | .adminCacheInsert scope lookup value, world =>
      some (.ok (),
        { world with
          adminCache :=
            VerifyCache.insert world.adminCache scope lookup value
              world.instant })
  | .adminCacheEvict scope lookup, world =>
      some (.ok (),
        { world with
          adminCache := VerifyCache.evict world.adminCache scope lookup })
  | .tick nanos, world => some (.ok (), world.elapse nanos)

section Transactions

variable {env : Env} {config : Config}
variable {call : DbCall} {reply : call.Reply} {world : World} {db : Db}

/-- A transaction that commits. -/
theorem run_transact
    (ran : call.exec env world.now world.db = .ok (reply, db)) :
    (transact call).run (exec env config) world =
      (.done reply, { world with db := db }) := by
  refine Program.run_perform ?_
  simp only [exec, ran]

theorem trace_transact
    (ran : call.exec env world.now world.db = .ok (reply, db)) :
    (transact call).trace (exec env config) world =
      [⟨world, .db call, .ok reply, { world with db := db }⟩] := by
  refine Program.trace_perform ?_
  simp only [exec, ran]

/-- A transaction that is refused. -/
theorem run_transact_error
    {error : CoreError}
    (ran : call.exec env world.now world.db = .error error) :
    (transact call).run (exec env config) world = (.failed error, world) := by
  have answered : exec env config (.db call) world =
      some (.error error, world) := by
    simp only [exec, ran]
  exact Program.run_call answered Program.ofExcept

end Transactions

/-- The answers of a runtime in which a statement or a system call may also
fail: a failed transaction is rolled back, and a failed system call has no
effect, except that a failed write may have written a part of its chunk. -/
inductive Faulty (env : Env) (config : Config) :
    Answers Call Call.Reply CoreError World
  | exact
      {request : Call} {before after : World}
      {reply : Except CoreError request.Reply}
      (answered : exec env config request before = some (reply, after)) :
      Faulty env config request before reply after
  | dbFault (call : DbCall) (world : World) :
      Faulty env config (.db call) world
        (.error (.database .unavailable)) world
  | fsFault (call : FsCall) (cause : IoError) (world : World) :
      Faulty env config (.fs call) world (.error (.io cause)) world
  | tornWrite
      (path : FilePath) (chunk part : Bytes) (cause : IoError)
      (world : World) :
      Faulty env config (.fs (.appendFile path chunk)) world
        (.error (.io cause))
        { world with
          fs := (FsCall.exec env (.appendFile path part) world.fs).2 }

namespace Faulty

variable {env : Env} {config : Config} {before after : World}

/-- A transaction commits, or fails and leaves the world as it is. -/
theorem db_cases
    {call : DbCall} {reply : Except CoreError call.Reply}
    (answered : Faulty env config (.db call) before reply after) :
    (∃ value db, call.exec env before.now before.db = .ok (value, db) ∧
      reply = .ok value ∧ after = { before with db := db }) ∨
    (∃ error, reply = .error error ∧ after = before) := by
  cases answered with
  | dbFault => exact .inr ⟨_, rfl, rfl⟩
  | exact answered =>
      simp only [Marmotte.exec] at answered
      split at answered
      · rename_i value db ran
        cases answered
        exact .inl ⟨value, db, ran, rfl, rfl⟩
      · rename_i error ran
        cases answered
        exact .inr ⟨error, rfl, rfl⟩

/-- The database changes only when a transaction commits. -/
theorem commits
    {request : Call} {reply : Except CoreError request.Reply}
    (answered : Faulty env config request before reply after) :
    after.db = before.db ∨
      ∃ call value, request = .db call ∧
        DbCall.exec env before.now call before.db =
          .ok (value, after.db) := by
  cases answered with
  | dbFault | fsFault | tornWrite => exact .inl rfl
  | exact answered =>
      cases request with
      | db call =>
          simp only [Marmotte.exec] at answered
          split at answered
          · rename_i value db ran
            cases answered
            exact .inr ⟨call, value, rfl, ran⟩
          · cases answered
            exact .inl rfl
      | _ =>
          simp only [Marmotte.exec] at answered
          first
          | cases answered
          | split at answered <;> cases answered
          all_goals exact .inl rfl

/-- The clock never runs backwards. -/
theorem clock
    {request : Call} {reply : Except CoreError request.Reply}
    (answered : Faulty env config request before reply after) :
    before.now ≤ after.now := by
  cases answered with
  | dbFault | fsFault | tornWrite => exact Int.le_refl _
  | exact answered =>
      cases request with
      | tick nanos =>
          cases answered
          exact before.now_le_elapse nanos
      | db call =>
          simp only [Marmotte.exec] at answered
          split at answered <;> cases answered <;> exact Int.le_refl _
      | gcLock =>
          simp only [Marmotte.exec] at answered
          split at answered <;> cases answered
          exact Int.le_refl _
      | _ =>
          cases answered
          exact Int.le_refl _

/-- Nor does the clock of the verification caches. -/
theorem instant
    {request : Call} {reply : Except CoreError request.Reply}
    (answered : Faulty env config request before reply after) :
    before.instant ≤ after.instant := by
  cases answered with
  | dbFault | fsFault | tornWrite => exact Int.le_refl _
  | exact answered =>
      cases request with
      | tick nanos =>
          cases answered
          rw [World.instant_elapse]
          exact Int.le_add_of_nonneg_right (Int.natCast_nonneg nanos)
      | db call =>
          simp only [Marmotte.exec] at answered
          split at answered <;> cases answered <;> exact Int.le_refl _
      | gcLock =>
          simp only [Marmotte.exec] at answered
          split at answered <;> cases answered
          exact Int.le_refl _
      | _ =>
          cases answered
          exact Int.le_refl _

/-- Random names are drawn one after the other. -/
theorem uuids
    {request : Call} {reply : Except CoreError request.Reply}
    (answered : Faulty env config request before reply after) :
    before.uuids ≤ after.uuids := by
  cases answered with
  | dbFault | fsFault | tornWrite => exact Nat.le_refl _
  | exact answered =>
      cases request with
      | newUuid =>
          cases answered
          exact Nat.le_succ _
      | db call =>
          simp only [Marmotte.exec] at answered
          split at answered <;> cases answered <;> exact Nat.le_refl _
      | gcLock =>
          simp only [Marmotte.exec] at answered
          split at answered <;> cases answered
          exact Nat.le_refl _
      | _ =>
          cases answered
          exact Nat.le_refl _

/-- The files change only by system calls. -/
theorem files
    {request : Call} {reply : Except CoreError request.Reply}
    (other : ∀ call, request ≠ .fs call)
    (answered : Faulty env config request before reply after) :
    after.fs = before.fs := by
  cases answered with
  | dbFault => rfl
  | fsFault call | tornWrite => exact absurd rfl (other _)
  | exact answered =>
      cases request with
      | fs call => exact absurd rfl (other call)
      | db call =>
          simp only [Marmotte.exec] at answered
          split at answered <;> cases answered <;> rfl
      | gcLock =>
          simp only [Marmotte.exec] at answered
          split at answered <;> cases answered
          rfl
      | _ =>
          cases answered
          rfl

/-- The database changes only by transactions. -/
theorem database
    {request : Call} {reply : Except CoreError request.Reply}
    (other : ∀ call, request ≠ .db call)
    (answered : Faulty env config request before reply after) :
    after.db = before.db := by
  rcases commits answered with same | ⟨call, _, isDb, -⟩
  · exact same
  · exact absurd isDb (other call)

/-- A value is new in the project cache only when it was just stored. -/
theorem projectCache
    {request : Call} {reply : Except CoreError request.Reply}
    {cached : Cached ProjectAuth}
    (answered : Faulty env config request before reply after)
    (present : cached ∈ after.projectCache) :
    cached ∈ before.projectCache ∨
      ∃ scope lookup value,
        request = .projectCacheInsert scope lookup value ∧
          cached = ⟨scope, lookup, value, before.instant⟩ := by
  cases answered with
  | dbFault | fsFault | tornWrite => exact .inl present
  | exact answered =>
      cases request with
      | projectCacheInsert scope lookup value =>
          cases answered
          exact (VerifyCache.mem_insert present).elim
            (fun same => .inr ⟨scope, lookup, value, rfl, same⟩) .inl
      | projectCacheEvict scope lookup =>
          cases answered
          exact .inl (VerifyCache.mem_evict present)
      | db call =>
          simp only [Marmotte.exec] at answered
          split at answered <;> cases answered <;> exact .inl present
      | gcLock =>
          simp only [Marmotte.exec] at answered
          split at answered <;> cases answered
          exact .inl present
      | _ =>
          cases answered
          exact .inl present

/-- The same for the admin cache. -/
theorem adminCache
    {request : Call} {reply : Except CoreError request.Reply}
    {cached : Cached AdminAuth}
    (answered : Faulty env config request before reply after)
    (present : cached ∈ after.adminCache) :
    cached ∈ before.adminCache ∨
      ∃ scope lookup value,
        request = .adminCacheInsert scope lookup value ∧
          cached = ⟨scope, lookup, value, before.instant⟩ := by
  cases answered with
  | dbFault | fsFault | tornWrite => exact .inl present
  | exact answered =>
      cases request with
      | adminCacheInsert scope lookup value =>
          cases answered
          exact (VerifyCache.mem_insert present).elim
            (fun same => .inr ⟨scope, lookup, value, rfl, same⟩) .inl
      | adminCacheEvict scope lookup =>
          cases answered
          exact .inl (VerifyCache.mem_evict present)
      | db call =>
          simp only [Marmotte.exec] at answered
          split at answered <;> cases answered <;> exact .inl present
      | gcLock =>
          simp only [Marmotte.exec] at answered
          split at answered <;> cases answered
          exact .inl present
      | _ =>
          cases answered
          exact .inl present

/-- A system call has its effect, or fails; only a write may then have had a
part of its effect. -/
theorem fs_cases
    {call : FsCall} {reply : Except CoreError call.Reply}
    (answered : Faulty env config (.fs call) before reply after) :
    (reply = (call.exec env before.fs).1 ∧
      after = { before with fs := (call.exec env before.fs).2 }) ∨
    (∃ error, reply = .error error ∧
      (after = before ∨
        ∃ path chunk part, call = .appendFile path chunk ∧
          after =
            { before with
              fs := (FsCall.exec env (.appendFile path part) before.fs).2 }))
    := by
  cases answered with
  | fsFault => exact .inr ⟨_, rfl, .inl rfl⟩
  | tornWrite => exact .inr ⟨_, rfl, .inr ⟨_, _, _, rfl, rfl⟩⟩
  | exact answered =>
      cases answered
      exact .inl ⟨rfl, rfl⟩

/-- A system call changes nothing but the files that it touches. -/
theorem fs_frame
    {call : FsCall} {reply : Except CoreError call.Reply}
    (answered : Faulty env config (.fs call) before reply after) :
    after = { before with fs := after.fs } ∧
      ∀ path, ¬call.Touches path →
        after.fs.read path = before.fs.read path := by
  rcases fs_cases answered with ⟨-, rfl⟩ | ⟨error, -, rfl | torn⟩
  · exact ⟨rfl, fun path => FsCall.read_exec env before.fs⟩
  · exact ⟨rfl, fun _ _ => rfl⟩
  · obtain ⟨path, chunk, part, rfl, rfl⟩ := torn
    refine ⟨rfl, fun other untouched => ?_⟩
    have smaller : ¬(FsCall.appendFile path part).Touches other := untouched
    exact FsCall.read_exec env before.fs smaller

end Faulty

end Marmotte
