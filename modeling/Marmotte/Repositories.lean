import Marmotte.Db
import Mathlib.Algebra.Order.Ring.Int
import Mathlib.Data.List.Sort

/-!
# Repositories

The functions of the `db` modules.  Each one that writes is a single
transaction: it returns the new database, or an error and no database at all,
which is the rollback.  `now` is the clock read inside the call, and `scan` is
the order in which the engine happens to return the rows of a query that does
not ask for one.
-/

namespace Marmotte

open Tables

namespace Projects

/-- `map_unique`: a uniqueness violation is a conflict on the name. -/
def mapUnique (name : String) : CoreError → CoreError
  | .database .uniqueViolation =>
      .conflict s!"project name '{name}' already exists"
  | error => error

def create
    (now : Int) (db : Db)
    (name : String) (quotaBytes ttlSeconds : Option Int) :
    Except CoreError (Project × Db) :=
  match db.insertProject name quotaBytes ttlSeconds now with
  | .ok (id, db) => .ok (⟨id, name, quotaBytes, ttlSeconds, now⟩, db)
  | .error error => .error (mapUnique name error)

def get (db : Db) (id : Int) : Except CoreError Project :=
  match db.projects.find? fun project => decide (project.id = id) with
  | some project => .ok project
  | none => .error (.notFound s!"project {id}")

def getByName (db : Db) (name : String) : Except CoreError Project :=
  match db.projects.find? fun project => decide (project.name = name) with
  | some project => .ok project
  | none => .error (.notFound s!"project '{name}'")

/-- `SELECT ... ORDER BY id`. -/
def list (db : Db) : List Project :=
  db.projects.rows.insertionSort fun first second => first.id ≤ second.id

/-- One statement of `update`, for a column that is given. -/
def assignColumn
    (db : Db) (id : Int) (value : Option α)
    (assign : α → Project → Project)
    (keepsId : ∀ value project, (assign value project).id = project.id)
    (onError : α → CoreError → CoreError) : Except CoreError Db :=
  match value with
  | some value =>
      (db.updateProject id (assign value) (keepsId value)).mapError
        (onError value)
  | none => .ok db

/-- The transaction of `Projects::update`; the caller re-reads the row. -/
def update
    (db : Db) (id : Int)
    (newName : Option String)
    (quotaBytes ttlSeconds : Option (Option Int)) :
    Except CoreError (Unit × Db) := do
  let db ← assignColumn db id newName
    (fun name project => { project with name := name })
    (fun _ _ => rfl) mapUnique
  let db ← assignColumn db id quotaBytes
    (fun quota project => { project with quotaBytes := quota })
    (fun _ _ => rfl) fun _ error => error
  let db ← assignColumn db id ttlSeconds
    (fun ttl project => { project with ttlSeconds := ttl })
    (fun _ _ => rfl) fun _ error => error
  return ((), db)

def delete (db : Db) (id : Int) : Except CoreError (Unit × Db) :=
  let (affected, db) := db.deleteProject id
  if affected = 0 then .error (.notFound s!"project {id}")
  else .ok ((), db)

end Projects

namespace ApiKeys

def create
    (now : Int) (db : Db)
    (projectId : Int) (keyLookup keyHash : String) (role : Role)
    (label : Option String) : Except CoreError (ApiKey × Db) := do
  let (id, db) ← db.insertApiKey projectId keyLookup keyHash role label now
  return (⟨id, projectId, keyLookup, keyHash, role, label, now, none⟩, db)

def findActiveByLookup
    (db : Db) (projectId : Int) (keyLookup : String) : Option ApiKey :=
  db.apiKeys.find? fun key =>
    decide (key.projectId = projectId ∧ key.keyLookup = keyLookup ∧
      key.revokedAt = none)

def revoke
    (now : Int) (db : Db) (projectId id : Int) :
    Except CoreError (Unit × Db) :=
  let (affected, db) := db.revokeApiKey projectId id now
  if affected = 0 then .error (.notFound s!"api_key {id}")
  else .ok ((), db)

end ApiKeys

namespace AdminTokens

def create
    (now : Int) (db : Db)
    (tokenLookup tokenHash : String) (label : Option String) :
    Except CoreError (AdminToken × Db) := do
  let (id, db) ← db.insertAdminToken tokenLookup tokenHash label now
  return (⟨id, tokenLookup, tokenHash, label, now, none⟩, db)

def findActiveByLookup (db : Db) (lookup : String) : Option AdminToken :=
  db.adminTokens.find? fun token =>
    decide (token.tokenLookup = lookup ∧ token.revokedAt = none)

def revoke
    (now : Int) (db : Db) (id : Int) : Except CoreError (Unit × Db) :=
  let (affected, db) := db.revokeAdminToken id now
  if affected = 0 then .error (.notFound s!"admin_token {id}")
  else .ok ((), db)

end AdminTokens

namespace Blobs

def get (db : Db) (hash : String) : Option Blob :=
  db.blobs.find? fun blob => decide (blob.hash = hash)

/-- Inserts the blob if missing, else increments its refcount; returns whether
it existed. -/
def upsertIncr
    (now : Int) (db : Db) (hash : String) (sizeBytes : Int) : Bool × Db :=
  let db := db.upsertBlob hash sizeBytes now
  (((get db hash).map fun blob => decide (1 < blob.refcount)).getD false, db)

/-- Decrements the refcount and returns the new one. -/
def decr (db : Db) (hash : String) : Except CoreError (Int × Db) :=
  let db := db.addRefcount hash (-1)
  match get db hash with
  | some blob => .ok (blob.refcount, db)
  | none => .error (.notFound s!"blob {hash}")

/-- `SELECT hash FROM blobs WHERE refcount = 0 LIMIT ?`. -/
def zeroRefcount
    (scan : List Blob → List Blob) (db : Db) (limit : Nat) : List String :=
  (((scan db.blobs.rows).filter fun blob =>
    decide (blob.refcount = 0)).take limit).map Blob.hash

def delete (db : Db) (hash : String) : Except CoreError (Unit × Db) := do
  let db ← db.deleteBlob hash
  return ((), db)

/-- The sum of `size_bytes` over all blob rows. -/
def totalSize (db : Db) : Int :=
  (db.blobs.rows.map Blob.sizeBytes).sum

end Blobs

namespace Entries

/-- The part of `upsert` that maintains the refcounts: they are touched only
when the blob of the key changes. -/
def recount
    (now : Int) (db : Db)
    (key : Key) (newBlobHash : String) (sizeBytes : Int) :
    Except CoreError Db :=
  match db.entryAt key with
  | some prev =>
      if prev.blobHash ≠ newBlobHash then do
        let (_, db) ← Blobs.decr db prev.blobHash
        let (_, db) := Blobs.upsertIncr now db newBlobHash sizeBytes
        .ok db
      else .ok db
  | none =>
      let (_, db) := Blobs.upsertIncr now db newBlobHash sizeBytes
      .ok db

/-- Inserts or replaces an entry. -/
def upsert
    (now : Int) (db : Db)
    (projectId : Int) (kind : Kind) (path : String)
    (newBlobHash : String) (sizeBytes : Int) :
    Except CoreError (Entry × Db) := do
  let key : Key := ⟨projectId, kind, path⟩
  let db ← recount now db key newBlobHash sizeBytes
  let (id, db) ← db.upsertEntry key newBlobHash sizeBytes now
  return (⟨id, projectId, kind, path, newBlobHash, sizeBytes, now, now, false⟩,
    db)

def find
    (db : Db) (projectId : Int) (kind : Kind) (path : String) : Option Entry :=
  db.entryAt ⟨projectId, kind, path⟩

/-- `UPDATE entries SET last_accessed = ? WHERE id = ?`. -/
def touch (now : Int) (db : Db) (id : Int) : Db :=
  db.updateEntries (fun entry => decide (entry.id = id))
    (fun entry => { entry with lastAccessed := now })
    (fun _ => rfl) (fun _ => rfl) fun entry present _ =>
      db.entry_blob entry present

/-- Sets the `pinned` flag of an entry. -/
def setPinned
    (db : Db) (projectId id : Int) (pinned : Bool) :
    Except CoreError (Unit × Db) :=
  let selects : Entry → Bool := fun entry =>
    decide (entry.projectId = projectId ∧ entry.id = id)
  if (db.entries.rows.filter selects).length = 0 then
    .error (.notFound s!"entry {id}")
  else
    .ok ((), db.updateEntries selects
      (fun entry => { entry with pinned := pinned })
      (fun _ => rfl) (fun _ => rfl) fun entry present _ =>
        db.entry_blob entry present)

/-- The sum of `size_bytes` over the entries of a project. -/
def projectUsage (db : Db) (projectId : Int) : Int :=
  ((db.entries.rows.filter fun entry =>
    decide (entry.projectId = projectId)).map Entry.sizeBytes).sum

/-- Deletes an entry and decrements the refcount of its blob. -/
def delete
    (db : Db) (projectId id : Int) : Except CoreError (Unit × Db) :=
  match db.entries.find? fun entry =>
      decide (entry.projectId = projectId ∧ entry.id = id) with
  | none => .error (.notFound s!"entry {id}")
  | some entry => do
      let db := db.deleteEntries fun other => decide (other.id = id)
      let (_, db) ← Blobs.decr db entry.blobHash
      return ((), db)

end Entries

namespace Stats

/-- Bumps the counter of a project, or the global one, for the current day. -/
def bump
    (now : Int) (db : Db)
    (projectId : Option Int) (kind : String) (count bytes : Int) :
    Except CoreError (Unit × Db) := do
  let bucket := now.tdiv 86400
  let db ← db.upsertCounter projectId kind bucket count bytes
  return ((), db)

/-- The counters that `sum` adds up. -/
def sums
    (projectId : Option Int) (kind : String) (sinceDay : Int)
    (counter : StatsCounter) : Bool :=
  counter.kind = kind ∧ sinceDay ≤ counter.bucketDay ∧
    (projectId = none ∨ counter.projectId = projectId)

/-- Sums `(count, bytes)` over a kind for a project, or globally, since a
day. -/
def sum
    (db : Db) (projectId : Option Int) (kind : String) (sinceDay : Int) :
    Int × Int :=
  let counters := db.statsCounters.rows.filter (sums projectId kind sinceDay)
  ((counters.map StatsCounter.count).sum, (counters.map StatsCounter.bytes).sum)

end Stats

/-! ## Queries of the garbage collector -/

/-- What the eviction phases read of an entry. -/
structure Candidate where
  id : Int
  projectId : Int
  sizeBytes : Int
  deriving DecidableEq, Repr

def Entry.candidate (entry : Entry) : Candidate :=
  ⟨entry.id, entry.projectId, entry.sizeBytes⟩

/-- `ORDER BY last_accessed ASC, id ASC`. -/
def Entry.LruLe (first second : Entry) : Prop :=
  first.lastAccessed < second.lastAccessed ∨
    (first.lastAccessed = second.lastAccessed ∧ first.id ≤ second.id)

instance : DecidableRel Entry.LruLe := fun _ _ =>
  inferInstanceAs (Decidable (_ ∨ _))

namespace GcQueries

/-- The `WHERE` clause of the TTL query on an entry joined with its project. -/
def ttlSelects
    (kind : Kind) (now cutoffDefault : Int)
    (project : Project) (entry : Entry) : Bool :=
  entry.kind = kind ∧ entry.pinned = false ∧
    entry.lastAccessed < now - project.ttlSeconds.getD 0 ∧
    (project.ttlSeconds.isSome ∨ entry.lastAccessed < cutoffDefault)

/-- The entries that the TTL query returns. -/
def expired
    (db : Db) (kind : Kind) (now cutoffDefault : Int) : List Entry :=
  db.entries.rows.filter fun entry =>
    db.projects.rows.any fun project =>
      decide (project.id = entry.projectId) &&
        ttlSelects kind now cutoffDefault project entry

/-- The unpinned entries of a project, least recently used first. -/
def projectLru (db : Db) (projectId : Int) : List Entry :=
  (db.entries.rows.filter fun entry =>
    decide (entry.projectId = projectId ∧ entry.pinned = false)).insertionSort
      Entry.LruLe

/-- All unpinned entries, least recently used first. -/
def globalLru (db : Db) : List Entry :=
  (db.entries.rows.filter fun entry =>
    decide (entry.pinned = false)).insertionSort Entry.LruLe

/-- The transaction that `orphan_scan` runs on a row without a file. -/
def purge (db : Db) (hash : String) : Except CoreError (Unit × Db) := do
  let db := db.deleteEntries fun entry => decide (entry.blobHash = hash)
  let db ← db.deleteBlob hash
  return ((), db)

end GcQueries

end Marmotte
