import Marmotte.CallEffects
import Marmotte.Yocto

/-!
# Custody of blob files

The protocol that uploads, sweeps and orphan scans follow.  From the replies to
its own calls a program knows which temporary file is its own, which digest it
has a file for, which hashes its sweep has still to free, and which orphans its
scan has still to remove; and it touches a blob file or a blob row only on the
strength of that knowledge.
-/

namespace Marmotte

open Effects Program

namespace Custody

/-- The temporary file of an upload, with its content once it is created. -/
structure Upload where
  name : String
  content : Option Bytes
  deriving DecidableEq, Repr

/-- What a program knows from its own calls. -/
structure Local where
  /-- The temporary file that the program writes. -/
  upload : Option Upload
  /-- The digest whose file it found or put in place, before its upsert. -/
  held : Option String
  /-- The digest of its committed upsert. -/
  committed : Option String
  /-- The hashes that its sweep has queried and not yet freed. -/
  pending : List String
  /-- The result of its walk, until the query of the hashes; nothing if it did
  not find the directory. -/
  onDisk : Option (List String)
  /-- The files without a row that its scan has not yet removed. -/
  diskOrphans : List String
  /-- The rows without a file that its scan has not yet purged. -/
  dbOrphans : List String
  deriving DecidableEq, Repr

/-- The record of a program that has made no call. -/
def Local.idle : Local := ⟨none, none, none, [], none, [], []⟩

/-- The program neither writes a file nor holds a digest. -/
def Local.Rests (record : Local) : Prop :=
  record.upload = none ∧ record.held = none

/-- The program has nothing to free, remove or purge. -/
structure Local.CollectsNothing (record : Local) : Prop where
  pending : record.pending = []
  onDisk : record.onDisk = none
  diskOrphans : record.diskOrphans = []
  dbOrphans : record.dbOrphans = []

/-- The digest of the content of an upload. -/
def Local.digest (env : Env) (record : Local) : Option String :=
  (record.upload.bind Upload.content).map env.sha256

/-- The last component of a blob path. -/
def hashOf : FilePath → String
  | [_, _, _, hash] => hash
  | _ => ""

@[simp] theorem hashOf_blobPath (hash : String) :
    hashOf (blobPath hash) = hash := rfl

/-- What the protocol depends on: the bodies that are ever uploaded, whether
project deletes, sweeps and scans take part, and whether a scan that does not
find the directory overlooks nothing. -/
structure Setting where
  env : Env
  bodies : Set Bytes
  cascades : Prop
  sweeps : Prop
  scans : Prop
  sighted : Prop

/-! ## How replies extend a record -/

/-- The record after a system call. -/
def advanceFs
    (env : Env) (record : Local) :
    (call : FsCall) → Except CoreError call.Reply → Local
  | .createFile _, reply =>
      match reply with
      | .ok _ =>
          { record with
            upload := record.upload.map fun upload =>
              { upload with content := some [] } }
      | .error _ =>
          { record with
            upload := record.upload.map fun upload =>
              { upload with content := none } }
  | .appendFile _ chunk, reply =>
      match reply with
      | .ok _ =>
          { record with
            upload := record.upload.map fun upload =>
              { upload with content := upload.content.map (· ++ chunk) } }
      | .error _ =>
          { record with
            upload := record.upload.map fun upload =>
              { upload with content := none } }
  | .fileExists _, reply =>
      match reply with
      | .ok true => { record with held := record.digest env }
      | _ => record
  | .rename _ _, reply =>
      match reply with
      | .ok _ => { record with upload := none, held := record.digest env }
      | .error _ => record
  | .removeFile path, _ =>
      { record with
        upload := record.upload.filter fun upload =>
          decide (tmpPath upload.name ≠ path)
        diskOrphans := record.diskOrphans.erase (hashOf path) }
  | .blobsExists, reply =>
      match reply with
      | .ok true => record
      | _ => { record with onDisk := some [] }
  | .walkBlobs, reply =>
      match reply with
      | .ok names => { record with onDisk := some names }
      | .error _ => record
  | _, _ => record

/-- The record after a transaction. -/
def advanceDb
    (env : Env) (record : Local) :
    (call : DbCall) → Except CoreError call.Reply → Local
  | .entriesUpsert .., reply =>
      match reply with
      | .ok _ => { record with held := none, committed := record.held }
      | .error _ => { record with held := none }
  | .blobsZeroRefcount _, reply =>
      match reply with
      | .ok batch => { record with pending := batch }
      | .error _ => { record with pending := [] }
  | .blobsDelete hash, reply =>
      match reply with
      | .ok _ => { record with pending := record.pending.erase hash }
      | .error _ => { record with pending := [] }
  | .blobsHashes, reply =>
      match reply with
      | .ok hashes =>
          { record with
            onDisk := none
            diskOrphans :=
              GcSvc.difference env (record.onDisk.getD []) hashes
            dbOrphans :=
              GcSvc.difference env hashes (record.onDisk.getD []) }
      | .error _ => { record with onDisk := none }
  | .purge hash, reply =>
      match reply with
      | .ok _ => { record with dbOrphans := record.dbOrphans.erase hash }
      | .error _ => { record with dbOrphans := [] }
  | _, _ => record

/-- The record after a call. -/
def advance
    (env : Env) (record : Local) :
    (request : Call) → Except CoreError request.Reply → Local
  | .fs request, reply => advanceFs env record request reply
  | .db request, reply => advanceDb env record request reply
  | .newUuid, reply =>
      match reply with
      | .ok name => { Local.idle with upload := some ⟨name, none⟩ }
      | .error _ => record
  | _, _ => record

/-! ## Which calls a record permits -/

/-- The record holds the whole content of one of the bodies. -/
def Local.Holds
    (setting : Setting) (record : Local) (name : String) (content : Bytes) :
    Prop :=
  record.upload = some ⟨name, some content⟩ ∧ content ∈ setting.bodies

/-- The system calls that a record permits. -/
def permitsFs (setting : Setting) (record : Local) : FsCall → Prop
  | .createFile path =>
      ∃ upload, record.upload = some upload ∧ path = tmpPath upload.name
  | .appendFile path _ =>
      ∃ upload, record.upload = some upload ∧ path = tmpPath upload.name
  | .fileExists path =>
      ∃ name content, record.Holds setting name content ∧
        path = blobPath (setting.env.sha256 content)
  | .rename source target =>
      ∃ name content, record.Holds setting name content ∧
        source = tmpPath name ∧
          target = blobPath (setting.env.sha256 content)
  | .removeFile path =>
      (∃ upload, record.upload = some upload ∧ path = tmpPath upload.name) ∨
        ∃ hash, path = blobPath hash ∧
          (hash ∈ record.pending ∨ hash ∈ record.diskOrphans)
  | .blobsExists => setting.scans ∧ record.Rests
  | .walkBlobs => setting.scans ∧ record.Rests
  | _ => True

/-- The transactions that a record permits. -/
def permitsDb (setting : Setting) (record : Local) : DbCall → Prop
  | .entriesUpsert _ _ _ hash size =>
      record.held = some hash ∧
        ∃ content ∈ setting.bodies,
          setting.env.sha256 content = hash ∧ size = content.length
  | .blobsZeroRefcount _ => setting.sweeps ∧ record.Rests
  | .blobsDelete hash => hash ∈ record.pending
  | .blobsHashes => record.onDisk.isSome
  | .purge hash => hash ∈ record.dbOrphans
  | .projectsDelete _ => setting.cascades
  | _ => True

/-- The calls that a record permits. -/
def permits (setting : Setting) (record : Local) : Call → Prop
  | .fs request => permitsFs setting record request
  | .db request => permitsDb setting record request
  | _ => True

/-- The protocol of uploads, sweeps and scans. -/
def protocol (setting : Setting) : Protocol Call Call.Reply CoreError Local where
  permits := permits setting
  advance := advance setting.env

end Custody

end Marmotte
