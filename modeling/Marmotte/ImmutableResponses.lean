import Marmotte.Concurrency.Clients

/-!
# Immutable responses

Every download is answered with a one-year `immutable` lifetime, which its URL
deserves only as long as nobody stores another content under it.  Uploads do
store other contents under a key that exists, so responses for one URL agree in
every run in which no upload commits, under a key that was served, a digest
other than the one that was served.
-/

namespace Marmotte

open Effects Tables

namespace ImmutableResponses

/-! ## What a thread knows -/

/-- The temporary file of an upload, the entry that a download has looked up,
and the content of the file that it has opened. -/
structure Local where
  upload : Option Custody.Upload
  seen : Option (Key × String)
  opened : Option Bytes

/-- The record of a thread that has made no call. -/
def Local.idle : Local := ⟨none, none, none⟩

/-- The path is that of the thread's temporary file. -/
def Local.Writes (record : Local) (path : FilePath) : Prop :=
  ∃ upload, record.upload = some upload ∧ path = tmpPath upload.name

/-- A thread writes its own temporary file, moves whole bodies to the paths of
their digests, and opens the files of entries that it has looked up. -/
def permits (env : Env) (bodies : Set Bytes) (record : Local) : Call → Prop
  | .fs (.createFile path) => record.Writes path
  | .fs (.appendFile path _) => record.Writes path
  | .fs (.removeFile path) =>
      record.Writes path ∨ ∃ hash, path = blobPath hash
  | .fs (.rename source target) =>
      ∃ name content, record.upload = some ⟨name, some content⟩ ∧
        content ∈ bodies ∧ source = tmpPath name ∧
          target = blobPath (env.sha256 content)
  | .fs (.openFile path) =>
      ∃ key hash, record.seen = some (key, hash) ∧ path = blobPath hash
  | .db (.entriesUpsert ..) => record.seen = none
  | _ => True

def advance (record : Local) :
    (request : Call) → Except CoreError request.Reply → Local
  | .newUuid, reply =>
      match reply with
      | .ok name => { record with upload := some ⟨name, none⟩ }
      | .error _ => record
  | .fs (.createFile _), reply =>
      match reply with
      | .ok _ =>
          { record with
            upload := record.upload.map fun upload =>
              { upload with content := some [] } }
      | .error _ => record
  | .fs (.appendFile _ chunk), reply =>
      match reply with
      | .ok _ =>
          { record with
            upload := record.upload.map fun upload =>
              { upload with content := upload.content.map (· ++ chunk) } }
      | .error _ =>
          { record with
            upload := record.upload.map fun upload =>
              { upload with content := none } }
  | .fs (.rename ..), reply =>
      match reply with
      | .ok _ => { record with upload := none }
      | .error _ => record
  | .fs (.removeFile _), _ => { record with upload := none }
  | .db (.entriesFind projectId kind path), reply =>
      match reply with
      | .ok (some entry) =>
          { record with
            seen := some (⟨projectId, kind, path⟩, entry.blobHash)
            opened := none }
      | _ => record
  | .fs (.openFile _), reply =>
      match reply with
      | .ok content => { record with opened := some content }
      | .error _ =>
          { record with
            seen := none
            opened := none }
  | _, _ => record

def protocol (env : Env) (bodies : Set Bytes) :
    Protocol Call Call.Reply CoreError Local where
  permits := permits env bodies
  advance := advance

/-! ## What the records say about the world -/

/-- Every blob file holds a known body with the digest it is named after. -/
def Addressed (env : Env) (bodies : Set Bytes) (world : World) : Prop :=
  ∀ hash content, world.fs.read (blobPath hash) = some content →
    env.sha256 content = hash ∧ content ∈ bodies

/-- What a record claims is true. -/
structure Owned
    (env : Env) (bodies : Set Bytes) (record : Local) (world : World) :
    Prop where
  named : ∀ upload, record.upload = some upload →
    ∃ number < world.uuids, upload.name = env.uuid number
  written : ∀ name content, record.upload = some ⟨name, some content⟩ →
    world.fs.read (tmpPath name) = some content
  current : ∀ key hash, record.seen = some (key, hash) →
    ∀ entry ∈ world.db.entries.rows, entry.key = key →
      entry.blobHash = hash
  opened : ∀ content, record.opened = some content →
    content ∈ bodies ∧
      ∃ key, record.seen = some (key, env.sha256 content)

/-- Two threads write different files and have seen the same contents. -/
structure Apart (first second : Local) : Prop where
  names : ∀ upload other, first.upload = some upload →
    second.upload = some other → upload.name ≠ other.name
  agrees : ∀ key hash other, first.seen = some (key, hash) →
    second.seen = some (key, other) → hash = other

theorem Apart.symm
    {first second : Local} (apart : Apart first second) :
    Apart second first where
  names upload other uploading otherUploading :=
    (apart.names other upload otherUploading uploading).symm
  agrees key hash other seen otherSeen :=
    (apart.agrees key other hash otherSeen seen).symm

/-- The call does not store, under a key that the other thread has seen,
another digest than the one seen. -/
def Consistent
    (_ : World) (_ : Local) (request : Call) (other : Local) : Prop :=
  ∀ projectId kind path hash size,
    request = .db (.entriesUpsert projectId kind path hash size) →
      ∀ shown, other.seen = some (⟨projectId, kind, path⟩, shown) →
        hash = shown

section Steps

variable {env : Env} {bodies : Set Bytes} {config : Config}
variable {record other : Local} {request : Call} {before after : World}
variable {reply : Except CoreError request.Reply}

/-- A permitted system call touches no temporary file but its own. -/
theorem writes_of_touches
    {call : FsCall} {name : String}
    (permitted : permits env bodies record (.fs call))
    (touches : call.Touches (tmpPath name)) : record.Writes (tmpPath name) := by
  cases call with
  | createFile path =>
      cases touches
      exact permitted
  | appendFile path chunk =>
      cases touches
      exact permitted
  | removeFile path =>
      cases touches
      exact permitted.resolve_right fun ⟨_, impossible⟩ =>
        tmpPath_ne_blobPath _ _ impossible
  | rename source target =>
      obtain ⟨own, content, uploading, -, rfl, rfl⟩ := permitted
      rcases touches with same | impossible
      · exact ⟨_, uploading, same⟩
      · exact absurd impossible (tmpPath_ne_blobPath _ _)
  | _ => cases touches

/-- A blob file appears or changes only when a whole body is moved to its
path. -/
theorem addressed_step
    (addressed : Addressed env bodies before)
    (owned : Owned env bodies record before)
    (permitted : permits env bodies record request)
    (answered : Faulty env config request before reply after) :
    Addressed env bodies after := by
  cases request with
  | fs call =>
      intro hash content present
      by_cases touches : call.Touches (blobPath hash)
      swap
      · rw [(Faulty.fs_frame answered).2 _ touches] at present
        exact addressed hash content present
      cases call with
      | createFile path =>
          obtain ⟨upload, -, rfl⟩ := permitted
          exact absurd touches (blobPath_ne_tmpPath _ _)
      | appendFile path chunk =>
          obtain ⟨upload, -, rfl⟩ := permitted
          exact absurd touches (blobPath_ne_tmpPath _ _)
      | removeFile path =>
          cases touches
          rcases Faulty.fs_cases answered with ⟨-, rfl⟩ | ⟨_, -, rfl | torn⟩
          · simp only [FsCall.exec] at present
            split at present
            · rw [Fs.read_unlink_self] at present
              cases present
            · exact addressed hash content present
          · exact addressed hash content present
          · obtain ⟨_, _, _, impossible, -⟩ := torn
            cases impossible
      | rename source target =>
          obtain ⟨name, body, uploading, known, rfl, rfl⟩ := permitted
          have written := owned.written name body uploading
          rcases Faulty.fs_cases answered with ⟨-, rfl⟩ | ⟨_, -, rfl | torn⟩
          · have same := touches.resolve_left (blobPath_ne_tmpPath _ _)
            rw [blobPath_eq_iff] at same
            simp only [FsCall.exec, written, same, Fs.read_write_self,
              Option.some.injEq] at present
            exact ⟨by rw [same, present], present ▸ known⟩
          · exact addressed hash content present
          · obtain ⟨_, _, _, impossible, -⟩ := torn
            cases impossible
      | _ => cases touches
  | _ =>
      intro hash content present
      rw [Faulty.files (by simp) answered] at present
      exact addressed hash content present

/-- Where the temporary file of a thread is not written. -/
theorem written_kept
    {name : String}
    (permitted : permits env bodies record request)
    (others : ¬record.Writes (tmpPath name))
    (answered : Faulty env config request before reply after) :
    after.fs.read (tmpPath name) = before.fs.read (tmpPath name) := by
  cases request with
  | fs call =>
      exact (Faulty.fs_frame answered).2 _ fun touches =>
        others (writes_of_touches permitted touches)
  | _ => rw [Faulty.files (by simp) answered]

/-- Entries under a key keep the digest that was seen, unless an upsert stores
another one. -/
theorem current_kept
    {key : Key} {hash : String}
    (current : ∀ entry ∈ before.db.entries.rows, entry.key = key →
      entry.blobHash = hash)
    (agrees : ∀ projectId kind path stored size,
      request = .db (.entriesUpsert projectId kind path stored size) →
        key = ⟨projectId, kind, path⟩ → stored = hash)
    (answered : Faulty env config request before reply after) :
    ∀ entry ∈ after.db.entries.rows, entry.key = key →
      entry.blobHash = hash := by
  intro entry present keyed
  rcases Faulty.commits answered with same | ⟨call, value, rfl, ran⟩
  · rw [same] at present
    exact current entry present keyed
  · rcases DbCall.exec_entries ran present with
      ⟨old, oldPresent, same⟩ | ⟨projectId, kind, path, rfl, stored⟩
    · rw [← same.hash]
      exact current old oldPresent (same.key.trans keyed)
    · exact agrees _ _ _ _ _ rfl (keyed.symm.trans stored)

/-- What another thread knows stays true. -/
theorem owned_frame
    (owned : Owned env bodies other before)
    (apart : Apart record other)
    (permitted : permits env bodies record request)
    (consistent : Consistent before record request other)
    (answered : Faulty env config request before reply after) :
    Owned env bodies other after where
  named upload uploading := by
    obtain ⟨number, used, name⟩ := owned.named upload uploading
    exact ⟨number, used.trans_le (Faulty.uuids answered), name⟩
  written name content uploading := by
    rw [written_kept permitted ?_ answered]
    · exact owned.written name content uploading
    · rintro ⟨upload, writing, same⟩
      rw [tmpPath_eq_iff] at same
      exact apart.names _ _ writing uploading same.symm
  current key hash seen :=
    current_kept (owned.current key hash seen)
      (by
        rintro projectId kind path stored size rfl rfl
        exact consistent _ _ _ _ _ rfl _ seen)
      answered
  opened := owned.opened

/-- A thread stores nothing under a key that it has seen. -/
theorem own_current
    (owned : Owned env bodies record before)
    (permitted : permits env bodies record request)
    (answered : Faulty env config request before reply after) :
    ∀ key hash, record.seen = some (key, hash) →
      ∀ entry ∈ after.db.entries.rows, entry.key = key →
        entry.blobHash = hash := by
  intro key hash seen
  refine current_kept (owned.current key hash seen) ?_ answered
  rintro projectId kind path stored size rfl _
  have unseen : record.seen = none := permitted
  rw [seen] at unseen
  cases unseen

/-- A step of an upload. -/
theorem Owned.reupload
    (owned : Owned env bodies record before)
    (permitted : permits env bodies record request)
    (answered : Faulty env config request before reply after)
    (upload : Option Custody.Upload)
    (named : ∀ own, upload = some own →
      ∃ number < after.uuids, own.name = env.uuid number)
    (written : ∀ name content, upload = some ⟨name, some content⟩ →
      after.fs.read (tmpPath name) = some content) :
    Owned env bodies { record with upload := upload } after := by
  have current := own_current owned permitted answered
  exact ⟨named, written, current, owned.opened⟩

/-- A step that leaves the files alone teaches nothing of an upload. -/
theorem Owned.reread
    (owned : Owned env bodies record before)
    (permitted : permits env bodies record request)
    (answered : Faulty env config request before reply after)
    (untouched : ∀ path, after.fs.read path = before.fs.read path) :
    Owned env bodies record after :=
  owned.reupload permitted answered record.upload
    (fun upload uploading => by
      obtain ⟨number, used, name⟩ := owned.named upload uploading
      exact ⟨number, used.trans_le (Faulty.uuids answered), name⟩)
    fun name content uploading =>
      (untouched _).trans (owned.written name content uploading)

theorem owned_fs
    {call : FsCall} {reply : Except CoreError call.Reply}
    (addressed : Addressed env bodies before)
    (owned : Owned env bodies record before)
    (permitted : permits env bodies record (.fs call))
    (answered : Faulty env config (.fs call) before reply after) :
    Owned env bodies (advance record (.fs call) reply) after := by
  have uuids : after.uuids = before.uuids := by
    rw [(Faulty.fs_frame answered).1]
  have named : ∀ upload, record.upload = some upload →
      ∃ number < after.uuids, upload.name = env.uuid number :=
    uuids ▸ owned.named
  have plain (inert : ∀ path, ¬call.Touches path) :
      Owned env bodies record after :=
    owned.reread permitted answered fun path =>
      (Faulty.fs_frame answered).2 path (inert path)
  cases call with
  | createFile path =>
      have mine : record.Writes path := permitted
      obtain ⟨upload, uploading, rfl⟩ := mine
      rcases Faulty.fs_cases answered with ⟨rfl, rfl⟩ | ⟨_, rfl, rfl | torn⟩
      · refine owned.reupload permitted answered _ ?_ ?_
        · rintro own equal
          simp only [uploading, Option.map_some, Option.some.injEq] at equal
          subst equal
          exact named upload uploading
        · rintro name content equal
          simp only [uploading, Option.map_some, Option.some.injEq,
            Custody.Upload.mk.injEq] at equal
          obtain ⟨rfl, rfl⟩ := equal
          exact Fs.read_write_self _ _ _
      · exact owned
      · obtain ⟨_, _, _, impossible, -⟩ := torn
        cases impossible
  | appendFile path chunk =>
      have mine : record.Writes path := permitted
      obtain ⟨upload, uploading, rfl⟩ := mine
      rcases Faulty.fs_cases answered with ⟨rfl, rfl⟩ | ⟨_, rfl, -⟩
      · have replied : (FsCall.exec env
            (.appendFile (tmpPath upload.name) chunk) before.fs).1 =
              .ok () := by
          simp only [FsCall.exec]
          split <;> rfl
        rw [replied]
        refine owned.reupload permitted answered _ ?_ ?_
        · rintro own equal
          simp only [uploading, Option.map_some, Option.some.injEq] at equal
          subst equal
          exact named upload uploading
        · rintro name content equal
          simp only [uploading, Option.map_some, Option.some.injEq,
            Custody.Upload.mk.injEq, Option.map_eq_some_iff] at equal
          obtain ⟨rfl, old, same, rfl⟩ := equal
          have present := owned.written upload.name old
            (by rw [uploading, ← same])
          simp only [FsCall.exec, present, Fs.read_write_self]
      · refine owned.reupload permitted answered _ ?_ ?_
        · rintro own equal
          simp only [uploading, Option.map_some, Option.some.injEq] at equal
          subst equal
          exact named upload uploading
        · rintro name content equal
          simp [uploading] at equal
  | removeFile path =>
      exact owned.reupload permitted answered none (by simp) (by simp)
  | rename source target =>
      cases reply with
      | ok _ => exact owned.reupload permitted answered none (by simp) (by simp)
      | error _ =>
          rcases Faulty.fs_cases answered with ⟨done, -⟩ | ⟨_, -, rfl | torn⟩
          · obtain ⟨name, body, uploading, -, rfl, -⟩ := permitted
            have written := owned.written name body uploading
            simp [FsCall.exec, written] at done
          · exact owned
          · obtain ⟨_, _, _, impossible, -⟩ := torn
            cases impossible
  | openFile path =>
      have kept := plain fun _ => id
      cases reply with
      | ok content =>
          obtain ⟨key, hash, seen, rfl⟩ := permitted
          refine ⟨kept.named, kept.written, kept.current, ?_⟩
          rintro _ ⟨⟩
          rcases Faulty.fs_cases answered with ⟨read, -⟩ | ⟨_, failed, -⟩
          · simp only [FsCall.exec] at read
            split at read
            · rename_i found present
              cases read
              obtain ⟨same, known⟩ := addressed hash content present
              exact ⟨known, key, by rw [same]; exact seen⟩
            · cases read
          · cases failed
      | error _ =>
          refine ⟨kept.named, kept.written, ?_, ?_⟩
          · rintro _ _ ⟨⟩
          · rintro _ ⟨⟩
  | _ => exact plain fun _ => id

/-- A lookup returns the entry that is stored under the key. -/
theorem looked_up
    {projectId : Int} {kind : Kind} {path : String} {entry : Entry}
    (answered : Faulty env config (.db (.entriesFind projectId kind path))
      before (.ok (some entry)) after) :
    entry ∈ before.db.entries.rows ∧ entry.key = ⟨projectId, kind, path⟩ ∧
      after.db = before.db := by
  rcases Faulty.db_cases answered with
    ⟨value, db, ran, same, rfl⟩ | ⟨_, failed, -⟩
  · cases ran
    have found : before.db.entryAt ⟨projectId, kind, path⟩ = some entry :=
      (Except.ok.inj same).symm
    obtain ⟨present, keyed⟩ := Db.entryAt_eq_some.mp found
    exact ⟨present, keyed, rfl⟩
  · cases failed

theorem owned_db
    {call : DbCall} {reply : Except CoreError call.Reply}
    (owned : Owned env bodies record before)
    (permitted : permits env bodies record (.db call))
    (answered : Faulty env config (.db call) before reply after) :
    Owned env bodies (advance record (.db call) reply) after := by
  have kept : Owned env bodies record after :=
    owned.reread permitted answered fun path => by
      rw [Faulty.files (by simp) answered]
  cases call with
  | entriesFind projectId kind path =>
      match reply with
      | .error _ => exact kept
      | .ok none => exact kept
      | .ok (some entry) =>
          refine ⟨kept.named, kept.written, ?_, by rintro _ ⟨⟩⟩
          rintro _ _ ⟨⟩ other present keyed
          obtain ⟨found, foundKey, same⟩ := looked_up answered
          rw [same] at present
          rw [before.db.entries.eq_of_clash present found
            (.inr (keyed.trans foundKey.symm))]
  | _ => exact kept

/-- A thread's own step keeps what it knows. -/
theorem owned_step
    (addressed : Addressed env bodies before)
    (owned : Owned env bodies record before)
    (permitted : permits env bodies record request)
    (answered : Faulty env config request before reply after) :
    Owned env bodies (advance record request reply) after := by
  cases request with
  | fs call => exact owned_fs addressed owned permitted answered
  | db call => exact owned_db owned permitted answered
  | newUuid =>
      cases answered with
      | exact answered =>
          cases answered
          refine ⟨?_, ?_, owned.current, owned.opened⟩
          · rintro upload ⟨⟩
            exact ⟨before.uuids, Nat.lt_succ_self _, rfl⟩
          · rintro name content ⟨⟩
  | _ =>
      exact owned.reread permitted answered fun path => by
        rw [Faulty.files (by simp) answered]

/-- A thread that keeps or gives up its temporary file stays apart. -/
theorem Apart.reupload
    (apart : Apart record other) {upload : Option Custody.Upload}
    (names : ∀ own, upload = some own →
      ∃ old, record.upload = some old ∧ old.name = own.name) :
    Apart { record with upload := upload } other := by
  refine ⟨fun own theirs uploading otherUploading => ?_, apart.agrees⟩
  obtain ⟨old, oldUploading, same⟩ := names own uploading
  rw [← same]
  exact apart.names old theirs oldUploading otherUploading

/-- The records of two threads stay apart. -/
theorem apart_step
    (otherOwned : Owned env bodies other before)
    (apart : Apart record other)
    (answered : Faulty env config request before reply after) :
    Apart (advance record request reply) other := by
  have renamed (change : Custody.Upload → Custody.Upload)
      (keepsName : ∀ upload, (change upload).name = upload.name) :
      Apart { record with upload := record.upload.map change } other := by
    refine apart.reupload fun own uploading => ?_
    obtain ⟨old, oldUploading, rfl⟩ := Option.map_eq_some_iff.mp uploading
    exact ⟨old, oldUploading, (keepsName old).symm⟩
  have dropped : Apart { record with upload := none } other :=
    apart.reupload (by simp)
  cases request with
  | newUuid =>
      cases answered with
      | exact answered =>
          cases answered
          refine ⟨?_, apart.agrees⟩
          rintro upload theirs ⟨⟩ otherUploading same
          obtain ⟨number, used, name⟩ := otherOwned.named theirs otherUploading
          rw [name] at same
          exact used.ne (env.uuid_injective same).symm
  | fs call =>
      cases call with
      | createFile path =>
          cases reply with
          | ok _ => exact renamed _ fun _ => rfl
          | error _ => exact apart
      | appendFile path chunk =>
          cases reply with
          | ok _ => exact renamed _ fun _ => rfl
          | error _ => exact renamed _ fun _ => rfl
      | rename source target =>
          cases reply with
          | ok _ => exact dropped
          | error _ => exact apart
      | removeFile path => exact dropped
      | openFile path =>
          cases reply with
          | ok _ => exact ⟨apart.names, apart.agrees⟩
          | error _ => exact ⟨apart.names, by rintro _ _ _ ⟨⟩⟩
      | _ => exact apart
  | db call =>
      cases call with
      | entriesFind projectId kind path =>
          match reply with
          | .error _ => exact apart
          | .ok none => exact apart
          | .ok (some entry) =>
              obtain ⟨found, foundKey, -⟩ := looked_up answered
              refine ⟨apart.names, ?_⟩
              rintro _ _ shown ⟨⟩ otherSeen
              exact otherOwned.current _ _ otherSeen entry found foundKey
      | _ => exact apart
  | _ => exact apart

/-- The discipline of reads and uploads. -/
def discipline (env : Env) (config : Config) (bodies : Set Bytes) :
    Pool.Discipline (protocol env bodies) (Faulty env config) Consistent where
  shared := Addressed env bodies
  own := Owned env bodies
  pair := Apart
  step _ _ _ _ _ addressed owned permitted answered :=
    ⟨addressed_step addressed owned permitted answered,
      owned_step addressed owned permitted answered⟩
  frame _ _ _ _ _ _ _ _ otherOwned apart permitted consistent answered :=
    owned_frame otherOwned apart permitted consistent answered
  apart _ _ _ _ _ _ _ _ otherOwned apart _ _ answered :=
    apart_step otherOwned apart answered
  symm _ _ := Apart.symm

end Steps

/-! ## The clients -/

section Clients

variable {env : Env} {bodies : Set Bytes}

theorem writeChunks_follows
    (name : String) (body : Body) (hashed : Bytes) (total : Int)
    (record : Local)
    (writing : record.upload = some ⟨name, some hashed⟩)
    (unseen : record.seen = none) :
    (LocalFsStore.writeChunks (tmpPath name) body hashed total).Follows
      (protocol env bodies)
      (fun result last =>
        last.upload = some ⟨name, some (hashed ++ body.bytes)⟩ ∧
          last.seen = none ∧ result.1 = hashed ++ body.bytes)
      (fun _ _ => True) record := by
  induction body generalizing hashed total record with
  | nil => exact ⟨by simpa using writing, unseen, by simp⟩
  | cons chunk rest inductionHypothesis =>
      cases chunk with
      | error cause => trivial
      | ok chunk =>
          refine Program.follows_perform_then ⟨_, writing, rfl⟩ fun _ => ?_
          rw [Body.bytes_ok, ← List.append_assoc]
          refine inductionHypothesis _ _ _ ?_ unseen
          simp [protocol, advance, writing]

theorem writeStreamed_follows
    (body : Body) (known : body.bytes ∈ bodies) :
    (LocalFsStore.writeStreamed env body).Follows (protocol env bodies)
      (fun _ last => last.seen = none) (fun _ _ => True) .idle := by
  refine Program.follows_perform_then trivial fun name => ?_
  refine Program.follows_perform_then ⟨_, rfl, rfl⟩ fun _ => ?_
  refine Program.Follows.bind
    (writeChunks_follows name body [] 0 _ rfl rfl) ?_
  rintro ⟨_, total⟩ record ⟨writing, unseen, rfl⟩
  simp only [List.nil_append] at writing ⊢
  refine Program.follows_perform_then trivial fun _ => ?_
  refine Program.follows_perform_then trivial fun _ => ?_
  refine Program.follows_perform_then trivial fun _ => ?_
  refine ⟨trivial, fun answer => ?_⟩
  have moved (last : Local) (same : last = record) :
      (do
        syscall (.rename (tmpPath name) (blobPath (env.sha256 body.bytes)))
        pure ⟨env.sha256 body.bytes, total⟩ : App Written).Follows
          (protocol env bodies) (fun _ last => last.seen = none)
            (fun _ _ => True) last := by
    subst same
    exact Program.follows_perform_then ⟨name, _, writing, known, rfl, rfl⟩
      fun _ => unseen
  match answer with
  | .ok true => exact ⟨.inl ⟨_, writing, rfl⟩, fun _ => unseen⟩
  | .ok false => exact moved _ rfl
  | .error _ => exact moved _ rfl

theorem put_follows
    (config : Config) (request : PutRequest)
    (known : request.body.bytes ∈ bodies) :
    (request.program env config).Follows (protocol env bodies)
      (fun _ _ => True) (fun _ _ => True) .idle := by
  have stored : (Yocto.doPut env config request.auth request.kind
      request.project request.path request.body).Follows
        (protocol env bodies) (fun _ _ => True) (fun _ _ => True) .idle := by
    unfold Yocto.doPut Yocto.ensureProject
    split
    · trivial
    rw [Program.pure_eq, Program.done_bind]
    split
    · trivial
    refine (writeStreamed_follows request.body known).bind ?_
    intro written record unseen
    refine Program.follows_perform_then unseen fun _ => ?_
    refine Program.follows_perform_then trivial fun _ => ?_
    refine Program.follows_perform_then trivial fun total => ?_
    simp only
    split
    · exact Program.follows_perform_then trivial fun _ => trivial
    · trivial
  have handled : (Yocto.put env config request.auth request.kind
      request.project request.path request.body).Follows
        (protocol env bodies) (fun _ _ => True) (fun _ _ => True) .idle :=
    stored.catchError fun _ _ _ => trivial
  exact handled.bind fun _ _ _ => trivial

/-- The response may be kept for a year. -/
def Immutable (response : Response) : Prop :=
  response.status = 200 ∧
    response.header "cache-control" =
      some "public, immutable, max-age=31536000"

instance (response : Response) : Decidable (Immutable response) :=
  inferInstanceAs (Decidable (_ ∧ _))

/-- What a successful response to a read says about its record. -/
structure Shown
    (request : ReadRequest) (response : Response) (last : Local) : Prop where
  project : request.auth.projectName = request.project
  hash : ∃ hash, last.seen = some (request.key, hash) ∧
    response.header "etag" = some (quoted hash)
  body : ∀ content, response.payload = .stream content →
    last.opened = some content

theorem read_follows (request : ReadRequest) :
    request.program.Follows (protocol env bodies)
      (fun response last => response.status = 200 →
        Shown request response last) (fun _ _ => True) .idle := by
  refine @Program.Follows.catchError _ _ _ _ _ _ _ _ _ _ (fun _ _ => True) _
    ?_ ?_
  · unfold Yocto.getOne Yocto.ensureProject
    split
    · trivial
    rename_i named
    rw [Program.pure_eq, Program.done_bind]
    split
    · trivial
    refine Program.follows_perform_then trivial fun found => ?_
    split
    · trivial
    rename_i entry
    simp only
    split
    · intro _
      exact ⟨not_not.mp named, ⟨entry.blobHash, rfl, rfl⟩, by rintro _ ⟨⟩⟩
    · have opening : (LocalFsStore.readBlob entry.blobHash).Follows
          (protocol env bodies)
          (fun content last => last =
            ⟨none, some (request.key, entry.blobHash), some content⟩)
          (fun _ _ => True)
          ⟨none, some (request.key, entry.blobHash), none⟩ := by
        refine @Program.Follows.catchError _ _ _ _ _ _ _ _ _ _
          (fun _ _ => True) _
          (Program.follows_perform ⟨_, _, rfl, rfl⟩ (fun _ => rfl)
            fun _ => trivial) ?_
        intro error _ _
        split <;> trivial
      refine Program.Follows.bind opening ?_
      rintro content _ rfl
      refine Program.follows_perform_then trivial fun _ _ => ?_
      refine ⟨not_not.mp named, ⟨entry.blobHash, rfl, rfl⟩, ?_⟩
      rintro _ ⟨⟩
      rfl
  · intro error last _
    split
    · exact fun missed => by simp [Yocto.missResponse] at missed
    · exact fun succeeded =>
        absurd succeeded (CoreError.intoResponse_ne (by decide) _)

/-- The calls that leave a record without an upload as it is. -/
def Plain : Call → Prop
  | .fs (.removeFile path) => ∃ hash, path = blobPath hash
  | .fs _ => False
  | .newUuid => False
  | .db (.entriesUpsert ..) => False
  | .db (.entriesFind ..) => False
  | _ => True

theorem plain_of_sweep
    {request : Call} (used : sweepCalls request) : Plain request := by
  cases request with
  | fs request => cases request <;> exact used
  | db request => cases request <;> first | exact used | trivial
  | newUuid => exact used
  | _ => trivial

theorem plain_follows
    {program : App α} {post : α → Prop} (uses : program.Uses Plain post) :
    program.Follows (protocol env bodies) (fun value _ => post value)
      (fun _ _ => True) .idle := by
  refine (Program.Uses.follows uses ?_ ?_).mono (fun _ _ known => known.1)
    fun _ _ _ => trivial
  · intro request plain
    cases request with
    | fs request =>
        cases request <;> first | exact plain.elim | exact .inr plain
    | db request => cases request <;> first | exact plain.elim | trivial
    | _ => trivial
  · intro request plain reply
    cases request with
    | fs request => cases request <;> first | exact plain.elim | rfl
    | db request => cases request <;> first | exact plain.elim | rfl
    | newUuid => exact plain.elim
    | _ => rfl

/-- What a client's answer says about its record. -/
def Answered (client : Client) (answer : Option Response) (last : Local) :
    Prop :=
  ∀ request response, client = .read request → answer = some response →
    response.status = 200 → Shown request response last

theorem client_follows
    (config : Config) (budget : Nat) (client : Client)
    (known : ∀ request, client = .put request →
      request.body.bytes ∈ bodies) :
    (client.program env config budget).Follows (protocol env bodies)
      (Answered client) (fun _ _ => True) .idle := by
  cases client with
  | read request =>
      refine (read_follows request).bind ?_
      rintro response last shown _ _ ⟨⟩ ⟨⟩
      exact shown
  | put request =>
      refine (put_follows config request (known request rfl)).mono ?_
        fun _ _ _ => trivial
      rintro _ _ _ _ _ ⟨⟩
  | deleteEntry auth id eid =>
      have deletes : (Admin.deleteEntry auth id eid).Uses Plain
          fun _ => True :=
        Program.uses_perform_then trivial fun _ =>
          Program.uses_perform_then trivial fun _ =>
            Program.uses_perform trivial fun _ => trivial
      refine (plain_follows deletes).bind ?_
      rintro _ _ _ _ _ ⟨⟩
  | touch id =>
      refine Program.follows_perform_then trivial fun _ => ?_
      rintro _ _ ⟨⟩
  | gcRun =>
      have sweeps := (GcSvc.run_sweeps config.gc budget false).mono
        (fun _ => plain_of_sweep) fun _ => id
      refine (plain_follows sweeps).bind ?_
      rintro _ _ _ _ _ ⟨⟩
  | wait nanos =>
      refine Program.follows_perform_then trivial fun _ => ?_
      rintro _ _ ⟨⟩

end Clients

/-! ## Runs -/

/-- The path of a URL: its kind, project and path. -/
def url (request : ReadRequest) : Kind × String × String :=
  (request.kind, request.project, request.path)

/-- Any two responses for one URL that may be kept for a year have the same
entity tag and the same content. -/
def ResponsesAgree
    (clients : ι → Client)
    (pool : Pool ι Call Call.Reply CoreError (Option Response) World Local) :
    Prop :=
  ∀ first second firstRequest secondRequest firstResponse secondResponse,
    clients first = .read firstRequest →
    clients second = .read secondRequest →
    url firstRequest = url secondRequest →
    pool.threads first = .done (some firstResponse) →
    pool.threads second = .done (some secondResponse) →
    Immutable firstResponse → Immutable secondResponse →
      firstResponse.header "etag" = secondResponse.header "etag" ∧
      ∀ content other, firstResponse.payload = .stream content →
        secondResponse.payload = .stream other → content = other

/-- The contents that are uploaded or on the disk at the start. -/
def contents (clients : ι → Client) (start : World) : Set Bytes :=
  {content | (∃ thread request, clients thread = .put request ∧
      request.body.bytes = content) ∨
    ∃ hash, start.fs.read (blobPath hash) = some content}

/-- The clients, none of them started. -/
def launch
    (env : Env) (config : Config) (budget : Nat) (clients : ι → Client)
    (start : World) :
    Pool ι Call Call.Reply CoreError (Option Response) World Local :=
  .launch .idle (fun thread => (clients thread).program env config budget)
    start

/-- A state reached by steps none of which stores, under a key that a read has
seen, another digest than the one seen. -/
abbrev Reached
    [DecidableEq ι]
    (env : Env) (config : Config) (budget : Nat) (clients : ι → Client)
    (start : World)
    (pool : Pool ι Call Call.Reply CoreError (Option Response) World Local) :
    Prop :=
  Pool.Reaches (protocol env (contents clients start)) (Faulty env config)
    (fun pool thread request => pool.Exclusive Consistent thread request)
    (launch env config budget clients start) pool

section Runs

variable [DecidableEq ι]
variable {env : Env} {config : Config} {budget : Nat} {clients : ι → Client}
variable {start : World}
variable
  {pool : Pool ι Call Call.Reply CoreError (Option Response) World Local}

theorem disciplined_reached
    (addressed : ∀ hash content,
      start.fs.read (blobPath hash) = some content →
        env.sha256 content = hash)
    (reached : Reached env config budget clients start pool) :
    pool.Disciplined (discipline env config (contents clients start))
      (fun thread => Answered (clients thread)) := by
  refine Pool.Disciplined.reaches (Pool.disciplined_launch _ ?_ ?_ ?_ ?_)
    reached
  · exact fun hash content present =>
      ⟨addressed hash content present, .inr ⟨hash, present⟩⟩
  · constructor <;> simp [Local.idle]
  · constructor <;> simp [Local.idle]
  · exact fun thread => client_follows config budget _
      fun request uploads => .inl ⟨thread, request, uploads, rfl⟩

/-- Requests for one URL read one key, as long as every credential belongs to
the project of its name. -/
theorem key_of_url
    {first second : ReadRequest}
    (firstHosted : ∃ project ∈ start.db.projects.rows,
      project.id = first.auth.projectId ∧
        project.name = first.auth.projectName)
    (secondHosted : ∃ project ∈ start.db.projects.rows,
      project.id = second.auth.projectId ∧
        project.name = second.auth.projectName)
    (firstNamed : first.auth.projectName = first.project)
    (secondNamed : second.auth.projectName = second.project)
    (same : url first = url second) : first.key = second.key := by
  obtain ⟨firstProject, firstPresent, firstId, firstName⟩ := firstHosted
  obtain ⟨secondProject, secondPresent, secondId, secondName⟩ := secondHosted
  simp only [url, Prod.mk.injEq] at same
  have one : firstProject = secondProject := by
    refine start.db.projects.eq_of_clash firstPresent secondPresent (.inr ?_)
    rw [firstName, secondName, firstNamed, secondNamed, same.2.1]
  rw [ReadRequest.key, ReadRequest.key, ← firstId, ← secondId, one, same.1,
    same.2.2]

/-- While no upload stores, under a key that was served, another digest than
the one served, responses that may be kept for a year never differ. -/
theorem immutable_responses
    (env : Env) (config : Config) (budget : Nat) (clients : ι → Client)
    (start : World)
    (addressed : ∀ hash content,
      start.fs.read (blobPath hash) = some content →
        env.sha256 content = hash)
    (free : env.CollisionFree (contents clients start))
    (hosted : ∀ thread request, clients thread = .read request →
      ∃ project ∈ start.db.projects.rows,
        project.id = request.auth.projectId ∧
          project.name = request.auth.projectName)
    (pool : Pool ι Call Call.Reply CoreError (Option Response) World Local)
    (reached : Reached env config budget clients start pool) :
    ResponsesAgree clients pool := by
  intro first second firstRequest secondRequest firstResponse secondResponse
    firstReads secondReads sameUrl firstEnded secondEnded firstKept secondKept
  have disciplined := disciplined_reached addressed reached
  have firstShown := disciplined.ended firstEnded _ _ firstReads rfl
    firstKept.1
  have secondShown := disciplined.ended secondEnded _ _ secondReads rfl
    secondKept.1
  have sameKey := key_of_url (hosted _ _ firstReads) (hosted _ _ secondReads)
    firstShown.project secondShown.project sameUrl
  have firstLive : pool.Live first := by simp [Pool.Live, firstEnded]
  have secondLive : pool.Live second := by simp [Pool.Live, secondEnded]
  obtain ⟨hash, seen, tag⟩ := firstShown.hash
  obtain ⟨other, otherSeen, otherTag⟩ := secondShown.hash
  rw [← sameKey] at otherSeen
  have sameHash : hash = other := by
    by_cases one : first = second
    · subst one
      have equal := seen.symm.trans otherSeen
      simpa using equal
    · exact (disciplined.pair first second one firstLive secondLive).agrees
        _ _ _ seen otherSeen
  refine ⟨by rw [tag, otherTag, sameHash], fun content found streams finds => ?_⟩
  obtain ⟨known, key, digest⟩ := (disciplined.own first firstLive).opened _
    (firstShown.body content streams)
  obtain ⟨otherKnown, otherKey, otherDigest⟩ :=
    (disciplined.own second secondLive).opened _
      (secondShown.body found finds)
  refine free content known found otherKnown ?_
  rw [seen] at digest
  rw [otherSeen] at otherDigest
  simp only [Option.some.injEq, Prod.mk.injEq] at digest otherDigest
  rw [← digest.2, ← otherDigest.2, sameHash]

end Runs

/-! ## One upload read twice, and two uploads under one key -/

/-- A download of the path of the examples. -/
def readFirst : ReadRequest := ⟨acme, .sstate, "acme", "first", false⟩

/-- One byte is uploaded and read twice. -/
def readTwice : Fin 3 → Client
  | 0 => .put ⟨acme, .sstate, "acme", "first", [.ok [97]]⟩
  | _ => .read readFirst

/-- The client has downloaded this content. -/
def received (content : Bytes) : App (Option Response) → Bool
  | .done (some response) =>
      decide (Immutable response) && decide (response.payload = .stream content)
  | _ => false

theorem received_spec
    {content : Bytes} {program : App (Option Response)}
    (answered : received content program = true) :
    ∃ response, program = .done (some response) ∧ Immutable response ∧
      response.payload = .stream content := by
  unfold received at answered
  split at answered
  · simp only [Bool.and_eq_true, decide_eq_true_eq] at answered
    exact ⟨_, rfl, answered⟩
  · cases answered

theorem oneProject_fs (path : FilePath) : oneProject.fs.read path = none := by
  rw [Option.eq_none_iff_forall_ne_some]
  intro content present
  rw [Fs.read_eq_some_iff] at present
  cases present

theorem readTwice_contents :
    Sample.env.CollisionFree (contents readTwice oneProject) := by
  have only : ∀ content ∈ contents readTwice oneProject, content = [97] := by
    rintro content (⟨thread, request, uploads, rfl⟩ | ⟨hash, present⟩)
    · match thread with
      | 0 =>
          cases uploads
          rfl
      | 1 => cases uploads
      | 2 => cases uploads
    · rw [oneProject_fs] at present
      cases present
  intro first firstKnown second secondKnown _
  rw [only first firstKnown, only second secondKnown]

/-- An upload that commits before anything was seen, or another call. -/
def guard
    (pool : Pool (Fin 3) Call Call.Reply CoreError (Option Response) World
      Local) : Call → Bool
  | .db (.entriesUpsert ..) =>
      decide (∀ other, (pool.records other).seen = none)
  | _ => true

theorem guard_spec
    {pool : Pool (Fin 3) Call Call.Reply CoreError (Option Response) World
      Local}
    {thread : Fin 3} {request : Call} (passes : guard pool request = true) :
    pool.Exclusive Consistent thread request := by
  rintro other - - projectId kind path hash size rfl shown seen
  have unseen := of_decide_eq_true passes other
  rw [seen] at unseen
  cases unseen

theorem immutable_responses_twice :
    ∃ pool : Pool (Fin 3) Call Call.Reply CoreError (Option Response) World
        Local,
      received [97] (pool.threads 1) = true ∧ ResponsesAgree readTwice pool := by
  have ran : ((Pool.replay
      (protocol Sample.env (contents readTwice oneProject))
      (exec Sample.env (Sample.config 1024))
      (fun pool _ request => guard pool request)
      (List.replicate 11 0 ++ List.replicate 3 1 ++ List.replicate 3 2)
      (launch Sample.env (Sample.config 1024) 2 readTwice oneProject)).any
        fun pool => received [97] (pool.threads 1)) = true := by
    decide +kernel
  rw [Option.any_eq_true] at ran
  obtain ⟨pool, replayed, read⟩ := ran
  refine ⟨pool, read, ?_⟩
  refine immutable_responses Sample.env (Sample.config 1024) 2 readTwice
    oneProject ?_ readTwice_contents ?_ pool
    (Pool.reaches_of_replay (fun _ _ _ _ => .exact)
      (fun _ _ _ passes => guard_spec passes) .refl replayed)
  · intro hash content present
    rw [oneProject_fs] at present
    cases present
  · rintro thread request reads
    have mine : request.auth = acme := by
      match thread with
      | 0 => cases reads
      | 1 =>
          cases reads
          rfl
      | 2 =>
          cases reads
          rfl
    rw [mine]
    decide +kernel

/-- The path is read before and after its content is replaced. -/
def overwritten : Fin 4 → Client
  | 0 => .put ⟨acme, .sstate, "acme", "first", [.ok [97]]⟩
  | 2 => .put ⟨acme, .sstate, "acme", "first", [.ok [98]]⟩
  | _ => .read readFirst

/-- An upload changes what a URL serves after it was served for a year. -/
theorem overwrite_changes_response :
    ∃ pool,
      Pool.Reaches (protocol Sample.env (contents overwritten oneProject))
        (exec Sample.env (Sample.config 1024)).answers (fun _ _ _ => True)
        (launch Sample.env (Sample.config 1024) 2 overwritten oneProject)
        pool ∧
      ¬ResponsesAgree overwritten pool := by
  have ran : ((Pool.replay
      (protocol Sample.env (contents overwritten oneProject))
      (exec Sample.env (Sample.config 1024)) (fun _ _ _ => true)
      (List.replicate 11 0 ++ List.replicate 3 1 ++ List.replicate 11 2 ++
        List.replicate 3 3)
      (launch Sample.env (Sample.config 1024) 2 overwritten oneProject)).any
        fun pool =>
          received [97] (pool.threads 1) && received [98] (pool.threads 3)) =
      true := by
    decide +kernel
  rw [Option.any_eq_true] at ran
  obtain ⟨pool, replayed, outcome⟩ := ran
  rw [Bool.and_eq_true] at outcome
  obtain ⟨first, firstEnded, firstKept, firstStreams⟩ :=
    received_spec outcome.1
  obtain ⟨second, secondEnded, secondKept, secondStreams⟩ :=
    received_spec outcome.2
  refine ⟨pool, Pool.reaches_of_free_replay (fun _ _ _ _ => id) replayed,
    fun agree => ?_⟩
  have same := (agree 1 3 readFirst readFirst first second rfl rfl rfl
    firstEnded secondEnded firstKept secondKept).2 _ _ firstStreams
    secondStreams
  cases same

end ImmutableResponses

end Marmotte
