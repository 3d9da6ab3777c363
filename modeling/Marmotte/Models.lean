import Marmotte.Tables.Table

/-!
# Domain types

The records stored by the server, with the uniqueness constraints that the
schema puts on their tables, and the error type of the core crate.  Signed
64-bit columns are integers.
-/

namespace Marmotte

open Tables

/-- File contents and request bodies. -/
abbrev Bytes := List UInt8

/-- Why the database engine refused a statement. -/
inductive SqlError
  | uniqueViolation
  | foreignKeyViolation
  | patternTooComplex
  | unavailable
  deriving DecidableEq, Repr

/-- The kinds of file-system errors that the code tells apart. -/
inductive IoError
  | notFound
  | other
  deriving DecidableEq, Repr

/-- Errors emitted by the core crate. -/
inductive CoreError
  | notFound (what : String)
  | forbidden (reason : String)
  | unauthorized
  | conflict (what : String)
  | invalidInput (message : String)
  | quota (message : String)
  | database (cause : SqlError)
  | migration
  | io (cause : IoError)
  | crypto (message : String)
  | config (message : String)
  | internal (message : String)
  deriving DecidableEq, Repr

/-- Permission level attached to an API key. -/
inductive Role
  | read
  | write
  deriving DecidableEq, Repr

namespace Role

/-- The text stored in the `role` column. -/
def asStr : Role → String
  | .read => "read"
  | .write => "write"

def fromStr (s : String) : Except CoreError Role :=
  if s = "read" then .ok .read
  else if s = "write" then .ok .write
  else .error (.invalidInput s!"unknown role: {s}")

@[simp] theorem fromStr_asStr (role : Role) :
    fromStr role.asStr = .ok role := by
  cases role <;> rfl

/-- Both roles allow reads. -/
def allowsRead : Role → Bool
  | .read => true
  | .write => true

/-- Only `write` allows writes. -/
def allowsWrite : Role → Bool
  | .read => false
  | .write => true

end Role

/-- Cache namespace. -/
inductive Kind
  | sstate
  | downloads
  deriving DecidableEq, Repr

namespace Kind

/-- The text used in URL paths and in the `kind` column. -/
def asStr : Kind → String
  | .sstate => "sstate"
  | .downloads => "downloads"

def fromStr (s : String) : Except CoreError Kind :=
  if s = "sstate" then .ok .sstate
  else if s = "downloads" then .ok .downloads
  else .error (.invalidInput s!"unknown kind: {s}")

@[simp] theorem fromStr_asStr (kind : Kind) :
    fromStr kind.asStr = .ok kind := by
  cases kind <;> rfl

end Kind

/-- A tenant. -/
structure Project where
  id : Int
  name : String
  quotaBytes : Option Int
  ttlSeconds : Option Int
  createdAt : Int
  deriving DecidableEq, Repr

/-- A project-scoped key for HTTP Basic authentication. -/
structure ApiKey where
  id : Int
  projectId : Int
  keyLookup : String
  keyHash : String
  role : Role
  label : Option String
  createdAt : Int
  revokedAt : Option Int
  deriving DecidableEq, Repr

/-- Bearer token for the admin API. -/
structure AdminToken where
  id : Int
  tokenLookup : String
  tokenHash : String
  label : Option String
  createdAt : Int
  revokedAt : Option Int
  deriving DecidableEq, Repr

/-- Content-addressed object stored on disk. -/
structure Blob where
  hash : String
  sizeBytes : Int
  refcount : Int
  createdAt : Int
  deriving DecidableEq, Repr

/-- What a request names: a project, a namespace and a path. -/
structure Key where
  projectId : Int
  kind : Kind
  path : String
  deriving DecidableEq, Repr

/-- Logical `(project, kind, path) → blob` mapping. -/
structure Entry where
  id : Int
  projectId : Int
  kind : Kind
  path : String
  blobHash : String
  sizeBytes : Int
  createdAt : Int
  lastAccessed : Int
  pinned : Bool
  deriving DecidableEq, Repr

/-- The key under which an entry is stored. -/
def Entry.key (entry : Entry) : Key :=
  ⟨entry.projectId, entry.kind, entry.path⟩

/-- A day-bucketed usage counter; `id` is the implicit row number. -/
structure StatsCounter where
  id : Int
  projectId : Option Int
  kind : String
  bucketDay : Int
  count : Int
  bytes : Int
  deriving DecidableEq, Repr

/-- The structured detail of an audited action. -/
inductive AuditDetail
  | name (name : String)
  | role (role : Role)
  | label (label : Option String)
  | dryRun (dryRun : Bool)
  deriving DecidableEq, Repr

/-- One row of the audit log. -/
structure AuditRow where
  id : Int
  timestamp : Int
  actorToken : Option String
  action : String
  target : Option String
  detail : Option AuditDetail
  deriving DecidableEq, Repr

/-! ## Uniqueness constraints of the schema -/

instance : Numbered Project where
  Clash first second := first.id = second.id ∨ first.name = second.name
  clash_decidable := fun _ _ => inferInstance
  clash_refl _ := .inl rfl
  clash_symm _ _ clash := clash.imp Eq.symm Eq.symm
  id := Project.id
  clash_of_id _ _ := .inl

instance : Numbered ApiKey where
  Clash first second :=
    first.id = second.id ∨ first.keyLookup = second.keyLookup
  clash_decidable := fun _ _ => inferInstance
  clash_refl _ := .inl rfl
  clash_symm _ _ clash := clash.imp Eq.symm Eq.symm
  id := ApiKey.id
  clash_of_id _ _ := .inl

instance : Numbered AdminToken where
  Clash first second :=
    first.id = second.id ∨ first.tokenLookup = second.tokenLookup
  clash_decidable := fun _ _ => inferInstance
  clash_refl _ := .inl rfl
  clash_symm _ _ clash := clash.imp Eq.symm Eq.symm
  id := AdminToken.id
  clash_of_id _ _ := .inl

instance : Row Blob where
  Clash first second := first.hash = second.hash
  clash_decidable := fun _ _ => inferInstance
  clash_refl _ := rfl
  clash_symm _ _ clash := clash.symm

instance : Numbered Entry where
  Clash first second := first.id = second.id ∨ first.key = second.key
  clash_decidable := fun _ _ => inferInstance
  clash_refl _ := .inl rfl
  clash_symm _ _ clash := clash.imp Eq.symm Eq.symm
  id := Entry.id
  clash_of_id _ _ := .inl

/- `NULL` project ids are distinct in the composite primary key. -/
instance : Numbered StatsCounter where
  Clash first second := first.id = second.id ∨
    (first.projectId.isSome ∧ first.projectId = second.projectId ∧
      first.kind = second.kind ∧ first.bucketDay = second.bucketDay)
  clash_decidable := fun _ _ => inferInstance
  clash_refl _ := .inl rfl
  clash_symm _ _ clash := by
    rcases clash with equal | ⟨present, project, kind, day⟩
    · exact .inl equal.symm
    · exact .inr ⟨project ▸ present, project.symm, kind.symm, day.symm⟩
  id := StatsCounter.id
  clash_of_id _ _ := .inl

instance : Numbered AuditRow where
  Clash first second := first.id = second.id
  clash_decidable := fun _ _ => inferInstance
  clash_refl _ := rfl
  clash_symm _ _ clash := clash.symm
  id := AuditRow.id
  clash_of_id _ _ clash := clash

end Marmotte
