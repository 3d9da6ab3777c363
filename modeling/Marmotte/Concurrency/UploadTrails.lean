import Marmotte.Concurrency.Requests

/-!
# Trails of uploads

What an upload knows of its own progress, beyond what it owns in the store:
which temporary file it still has to rename or to discard, where it found no
file, and whether its upsert has committed.
-/

namespace Marmotte

open Effects Custody

/-- What an upload has done so far. -/
structure Trail where
  /-- The key that it writes, with the content. -/
  target : Option (Key × Bytes)
  /-- The temporary file that it still has to rename or to discard. -/
  tmp : Option String
  /-- The path at which it found no file. -/
  missing : Option FilePath
  /-- Its upsert has committed. -/
  wrote : Bool
  deriving DecidableEq, Repr

namespace Trail

/-- The trail of a task that has made no call. -/
def start (target : Option (Key × Bytes)) : Trail := ⟨target, none, none, false⟩

/-- The path is that of the temporary file. -/
def Writes (trail : Trail) (path : FilePath) : Prop :=
  ∃ name, trail.tmp = some name ∧ path = tmpPath name

/-- The system calls that a trail permits. -/
def permitsFs (trail : Trail) : FsCall → Prop
  | .createFile path => trail.Writes path
  | .appendFile path _ => trail.Writes path
  | .removeFile path => trail.Writes path
  | .rename source target => trail.Writes source ∧ trail.missing = some target
  | _ => True

/-- The transactions that a trail permits. -/
def permitsDb (env : Env) (trail : Trail) : DbCall → Prop
  | .entriesUpsert projectId kind path hash size =>
      ∃ content, trail.target = some (⟨projectId, kind, path⟩, content) ∧
        hash = env.sha256 content ∧ size = content.length
  | .statsBump .. => True
  | .blobsTotalSize => True
  | _ => False

/-- The calls that a trail permits. -/
def permits (env : Env) (trail : Trail) : Call → Prop
  | .fs call => trail.permitsFs call
  | .db call => trail.permitsDb env call
  | .newUuid => trail.tmp = none
  | _ => True

/-- The trail after a call. -/
def advance
    (trail : Trail) :
    (request : Call) → Except CoreError request.Reply → Trail
  | .fs (.fileExists path), reply =>
      match reply with
      | .ok true => { trail with missing := none }
      | _ => { trail with missing := some path }
  | .fs (.removeFile _), _ => { trail with tmp := none }
  | .fs (.rename _ _), reply =>
      match reply with
      | .ok _ => { trail with tmp := none }
      | .error _ => trail
  | .newUuid, reply =>
      match reply with
      | .ok name => { trail with tmp := some name }
      | .error _ => trail
  | .db (.entriesUpsert ..), reply =>
      match reply with
      | .ok _ => { trail with wrote := true }
      | .error _ => trail
  | _, _ => trail

/-- The protocol of trails. -/
def protocol (env : Env) : Protocol Call Call.Reply CoreError Trail where
  permits := permits env
  advance := advance

/-- The upload has left nothing to do. -/
def Finished (trail : Trail) (target : Key × Bytes) : Prop :=
  trail.target = some target ∧ trail.tmp = none ∧ trail.wrote = true

/-! ## Uploads leave trails -/

section Uploads

variable {env : Env}

/-- The rule for a call that leaves the trail as it is. -/
theorem follows_neutral
    {request : Call} {next : request.Reply → App α}
    {post : α → Trail → Prop} {trail : Trail}
    (permitted : trail.permits env request)
    (neutral : ∀ reply, trail.advance request reply = trail)
    (rest : ∀ value, (next value).Follows (protocol env) post
      (fun _ _ => True) trail) :
    (Program.perform request >>= next).Follows (protocol env) post
      (fun _ _ => True) trail := by
  refine Program.follows_perform_then permitted fun value => ?_
  have same : (protocol env).advance trail request (.ok value) = trail :=
    neutral (.ok value)
  rw [same]
  exact rest value

theorem writeChunks_follows
    {name : String} (body : Body) (hashed : Bytes) (total : Int)
    {trail : Trail} (writing : trail.tmp = some name) :
    (LocalFsStore.writeChunks (tmpPath name) body hashed total).Follows
      (protocol env)
      (fun result last =>
        result = (hashed ++ body.bytes, total + body.bytes.length) ∧
          last = trail)
      (fun _ _ => True) trail := by
  induction body generalizing hashed total with
  | nil => simp [LocalFsStore.writeChunks]
  | cons chunk rest inductionHypothesis =>
      cases chunk with
      | error cause => trivial
      | ok chunk =>
          refine follows_neutral ⟨name, writing, rfl⟩ (fun _ => rfl)
            fun _ => ?_
          refine (inductionHypothesis (hashed ++ chunk)
            (total + chunk.length)).mono ?_ fun _ _ _ => trivial
          rintro _ _ ⟨rfl, rfl⟩
          refine ⟨?_, rfl⟩
          simp only [Body.bytes_ok, List.append_assoc, List.length_append]
          congr 1
          push_cast
          omega

theorem writeStreamed_follows
    (body : Body) (target : Option (Key × Bytes)) :
    (LocalFsStore.writeStreamed env body).Follows (protocol env)
      (fun written last =>
        written = ⟨env.sha256 body.bytes, body.bytes.length⟩ ∧
          last.target = target ∧ last.tmp = none)
      (fun _ _ => True) (.start target) := by
  refine Program.follows_perform_then rfl fun name => ?_
  refine follows_neutral ⟨name, rfl, rfl⟩ (fun _ => rfl) fun _ => ?_
  refine Program.Follows.bind (writeChunks_follows body [] 0 rfl) ?_
  rintro _ _ ⟨rfl, rfl⟩
  simp only [List.nil_append, Int.zero_add]
  refine follows_neutral trivial (fun _ => rfl) fun _ => ?_
  refine follows_neutral trivial (fun _ => rfl) fun _ => ?_
  refine follows_neutral trivial (fun _ => rfl) fun _ => ?_
  refine ⟨trivial, fun reply => ?_⟩
  have renamed :
      (do
        syscall (.rename (tmpPath name)
          (blobPath (env.sha256 body.bytes)))
        pure ⟨env.sha256 body.bytes, body.bytes.length⟩ :
          App Written).Follows (protocol env)
            (fun written last =>
              written = ⟨env.sha256 body.bytes, body.bytes.length⟩ ∧
                last.target = target ∧ last.tmp = none)
            (fun _ _ => True)
            ⟨target, some name, some (blobPath (env.sha256 body.bytes)),
              false⟩ :=
    Program.follows_perform_then ⟨⟨name, rfl, rfl⟩, rfl⟩
      fun _ => ⟨rfl, rfl, rfl⟩
  match reply with
  | .ok true =>
      exact ⟨⟨name, rfl, rfl⟩, fun _ => ⟨rfl, rfl, rfl⟩⟩
  | .ok false => exact renamed
  | .error error => exact renamed

theorem doPut_follows
    (config : Config) (auth : ProjectAuth) (kind : Kind)
    (project path : String) (body : Body) :
    (Yocto.doPut env config auth kind project path body).Follows
      (protocol env)
      (fun _ last =>
        last.Finished (⟨auth.projectId, kind, path⟩, body.bytes))
      (fun _ _ => True)
      (.start (some (⟨auth.projectId, kind, path⟩, body.bytes))) := by
  unfold Yocto.doPut Yocto.ensureProject
  by_cases named : auth.projectName ≠ project
  · rw [if_pos named]
    trivial
  rw [if_neg named, Program.pure_eq, Program.done_bind]
  cases auth.role.allowsWrite with
  | false => trivial
  | true =>
  simp only [Bool.not_true, Bool.false_eq_true, if_false]
  refine Program.Follows.bind (writeStreamed_follows body _) ?_
  rintro _ trail ⟨rfl, targeted, discarded⟩
  refine Program.follows_perform_then ⟨_, targeted, rfl, rfl⟩ fun entry => ?_
  have finished : (trail.advance
      (.db (.entriesUpsert auth.projectId kind path
        (env.sha256 body.bytes) body.bytes.length)) (.ok entry)).Finished
          (⟨auth.projectId, kind, path⟩, body.bytes) :=
    ⟨targeted, discarded, rfl⟩
  refine follows_neutral trivial (fun _ => rfl) fun _ => ?_
  refine follows_neutral trivial (fun _ => rfl) fun total => ?_
  split
  · exact follows_neutral trivial (fun _ => rfl) fun _ => finished
  · exact finished

end Uploads

end Trail

/-- A task that answers 201 has left nothing to do. -/
theorem PutRequest.program_trails
    (env : Env) (config : Config) (request : PutRequest) :
    (request.program env config).Follows (Trail.protocol env)
      (fun answer last => ∀ response, answer = some response →
        response.status = 201 →
          last.Finished (request.key, request.body.bytes))
      (fun _ _ => True)
      (.start (some (request.key, request.body.bytes))) := by
  have answered : (Yocto.put env config request.auth request.kind
      request.project request.path request.body).Follows (Trail.protocol env)
        (fun response last => response.status = 201 →
          last.Finished (request.key, request.body.bytes))
        (fun _ _ => True)
        (.start (some (request.key, request.body.bytes))) := by
    refine Program.Follows.catchError
      ((Trail.doPut_follows config request.auth request.kind request.project
        request.path request.body).mono ?_ fun _ _ => id) ?_
    · exact fun _ _ finished _ => finished
    · exact fun error _ _ accepted =>
        absurd accepted (intoResponse_status error)
  refine Program.Follows.bind answered ?_
  rintro response last finished _ ⟨⟩
  exact finished

end Marmotte
