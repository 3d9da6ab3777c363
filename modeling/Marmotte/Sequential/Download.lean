import Marmotte.Lookups
import Marmotte.Yocto

/-!
# A download that runs alone

A `GET` that nothing interrupts reads the file that the entry of its key names,
or is a miss.
-/

namespace Marmotte

open Effects

/-- The response to a download of a stored content. -/
def hitResponse (hash : String) (size : Int) (content : Bytes) : Response :=
  ⟨200,
    [("content-length", toString size),
      ("etag", quoted hash),
      ("cache-control", "public, immutable, max-age=31536000")],
    .stream content⟩

section Download

variable {env : Env} {config : Config} {world : World}

theorem run_readBlob
    {hash : String} {content : Bytes}
    (present : world.fs.read (blobPath hash) = some content) :
    (LocalFsStore.readBlob hash).run (exec env config) world =
      (.done content, world) := by
  have opened : exec env config (.fs (.openFile (blobPath hash))) world =
      some (.ok content, world) := by
    simp only [exec, FsCall.exec, present]
  unfold LocalFsStore.readBlob
  rw [Program.run_catchError, Program.run_perform opened]

/-- A download by the owner of the key answers what `find` found. -/
theorem run_getOne
    (auth : ProjectAuth) (kind : Kind) (path : String) (world : World) :
    (Yocto.getOne auth kind auth.projectName path false).run
      (exec env config) world =
        match Entries.find world.db auth.projectId kind path with
        | none =>
            (.failed (.notFound s!"{kind.asStr} {path}"), world)
        | some entry =>
            (do
              let content ← LocalFsStore.readBlob entry.blobHash
              Program.perform (Call.spawn (.touch entry.id))
              pure (hitResponse entry.blobHash entry.sizeBytes content)
              : App Response).run (exec env config) world := by
  have readable : auth.role.allowsRead = true := by cases auth.role <;> rfl
  have searched : (transact (.entriesFind auth.projectId kind path)).run
      (exec env config) world =
        (.done (Entries.find world.db auth.projectId kind path), world) :=
    run_transact rfl
  unfold Yocto.getOne Yocto.ensureProject
  rw [if_neg (by simp), Program.pure_eq, Program.done_bind, readable]
  simp only [Bool.not_true, Bool.false_eq_true, if_false]
  rw [Program.run_bind_done searched]
  cases Entries.find world.db auth.projectId kind path with
  | none => rfl
  | some entry => rfl

theorem run_read_hit
    {auth : ProjectAuth} {kind : Kind} {path : String} {entry : Entry}
    {content : Bytes}
    (found : world.db.entryAt ⟨auth.projectId, kind, path⟩ = some entry)
    (present : world.fs.read (blobPath entry.blobHash) = some content) :
    (Yocto.read auth kind auth.projectName path false).run
      (exec env config) world =
        (.done (hitResponse entry.blobHash entry.sizeBytes content),
          world) := by
  have stored : Entries.find world.db auth.projectId kind path =
      some entry := found
  unfold Yocto.read
  rw [Program.run_catchError, run_getOne, stored]
  simp only
  rw [Program.run_bind_done (run_readBlob present)]
  rfl

theorem run_read_miss
    {auth : ProjectAuth} {kind : Kind} {path : String}
    (missing : world.db.entryAt ⟨auth.projectId, kind, path⟩ = none) :
    (Yocto.read auth kind auth.projectName path false).run
      (exec env config) world = (.done Yocto.missResponse, world) := by
  have absent : Entries.find world.db auth.projectId kind path = none :=
    missing
  unfold Yocto.read
  rw [Program.run_catchError, run_getOne, absent]
  rfl

theorem run_readBlob_missing
    {hash : String} (missing : world.fs.read (blobPath hash) = none) :
    (LocalFsStore.readBlob hash).run (exec env config) world =
      (.failed (.notFound s!"blob {hash}"), world) := by
  have refused : (syscall (.openFile (blobPath hash))).run
      (exec env config) world = (.failed (.io .notFound), world) := by
    have answered : exec env config (.fs (.openFile (blobPath hash))) world =
        some (.error (.io .notFound), world) := by
      simp only [exec, FsCall.exec, missing]
    exact Program.run_call answered Program.ofExcept
  unfold LocalFsStore.readBlob
  rw [Program.run_catchError, refused]
  rfl

/-- An entry without its file is a miss. -/
theorem run_read_lost
    {auth : ProjectAuth} {kind : Kind} {path : String} {entry : Entry}
    (found : world.db.entryAt ⟨auth.projectId, kind, path⟩ = some entry)
    (missing : world.fs.read (blobPath entry.blobHash) = none) :
    (Yocto.read auth kind auth.projectName path false).run
      (exec env config) world = (.done Yocto.missResponse, world) := by
  have stored : Entries.find world.db auth.projectId kind path =
      some entry := found
  unfold Yocto.read
  rw [Program.run_catchError, run_getOne, stored]
  simp only
  rw [Program.run_bind, run_readBlob_missing missing]
  rfl

/-- A `HEAD` by the owner of the key answers from the entry alone. -/
theorem run_read_head
    (auth : ProjectAuth) (kind : Kind) (path : String) (world : World) :
    (Yocto.read auth kind auth.projectName path true).run
      (exec env config) world =
        (.done (match world.db.entryAt ⟨auth.projectId, kind, path⟩ with
          | none => Yocto.missResponse
          | some entry =>
              { hitResponse entry.blobHash entry.sizeBytes [] with
                payload := .empty }), world) := by
  have readable : auth.role.allowsRead = true := by cases auth.role <;> rfl
  have searched : (transact (.entriesFind auth.projectId kind path)).run
      (exec env config) world =
        (.done (world.db.entryAt ⟨auth.projectId, kind, path⟩), world) :=
    run_transact rfl
  unfold Yocto.read Yocto.getOne Yocto.ensureProject
  rw [if_neg (by simp), Program.pure_eq, Program.done_bind, readable]
  simp only [Bool.not_true, Bool.false_eq_true, if_false, if_true]
  rw [Program.run_catchError, Program.run_bind_done searched]
  cases world.db.entryAt ⟨auth.projectId, kind, path⟩ with
  | none => rfl
  | some entry => rfl

/-- A read under the name of another project is refused. -/
theorem run_read_foreign
    {auth : ProjectAuth} {project : String}
    (foreign : auth.projectName ≠ project)
    (kind : Kind) (path : String) (headOnly : Bool) (world : World) :
    (Yocto.read auth kind project path headOnly).run (exec env config)
        world =
      (.done (CoreError.forbidden
        "url project does not match credential").intoResponse, world) := by
  unfold Yocto.read Yocto.getOne Yocto.ensureProject
  rw [if_pos foreign]
  rfl

end Download

end Marmotte
