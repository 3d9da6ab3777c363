import Marmotte.Custody.Intact
import Marmotte.Custody.Follows
import Marmotte.Effects.Rely
import Marmotte.Footprints
import Marmotte.Sample

/-!
# The directory of blobs

Any number of `write_streamed` and `delete_blob` calls on one store, each of
which may fail or be dropped at any step.  No file below `blobs` is ever seen
under another name than the digest of its content, and a writer that returns has
its bytes in place unless they were deleted under it.
-/

namespace Marmotte

open Effects

namespace BlobDirectory

open Custody

/-! ## The calls of the store -/

/-- A call of the store. -/
inductive StoreCall
  | writeStreamed (body : Body)
  | deleteBlob (hash : String)

/-- What a call runs; only a write returns something. -/
def StoreCall.program (env : Env) : StoreCall → App (Option Written)
  | .writeStreamed body => do
      let written ← LocalFsStore.writeStreamed env body
      pure (some written)
  | .deleteBlob hash => do
      LocalFsStore.deleteBlob hash
      pure none

/-- The bodies that the calls write. -/
def bodies (calls : ι → StoreCall) : Set Bytes :=
  { bytes | ∃ thread body,
      calls thread = .writeStreamed body ∧ body.bytes = bytes }

/-- There are these bodies, and no database to clean up. -/
def setting (env : Env) (known : Set Bytes) : Setting :=
  ⟨env, known, False, False, False, True⟩

/-- What a writer knows: its temporary file and, perhaps, a digest whose file
it relies on. -/
def writer (upload : Option Upload) (held : Option String) : Local :=
  { Local.idle with upload := upload, held := held }

/-- A writer keeps to its temporary file and to the path of its digest; a blob
file may be removed by anyone. -/
def permits (setting : Setting) (record : Local) : Call → Prop
  | .fs call =>
      permitsFs setting (writer record.upload none) call ∨
        ∃ hash, call = .removeFile (blobPath hash)
  | _ => True

def protocol (setting : Setting) :
    Protocol Call Call.Reply CoreError Local :=
  { Custody.protocol setting with permits := permits setting }

/-- A write that returns has read its stream to the end. -/
theorem writeChunks_arrives
    (tmp : FilePath) (body : Body) (hashed : Bytes) (total : Int) :
    (LocalFsStore.writeChunks tmp body hashed total).Uses (fun _ => True)
      fun _ => body.arrives = true := by
  induction body generalizing hashed total with
  | nil => rfl
  | cons chunk rest inductionHypothesis =>
      cases chunk with
      | error cause => trivial
      | ok chunk =>
          exact Program.uses_perform_then trivial fun _ =>
            inductionHypothesis _ _

theorem writeStreamed_arrives (env : Env) (body : Body) :
    (LocalFsStore.writeStreamed env body).Uses (fun _ => True)
      fun _ => body.arrives = true := by
  refine Program.uses_perform_then trivial fun name => ?_
  refine Program.uses_perform_then trivial fun _ => ?_
  refine (writeChunks_arrives _ body [] 0).bind fun result arrives => ?_
  exact (Program.uses_any (fun _ => trivial) _).mono (fun _ _ => trivial)
    fun _ _ => arrives

/-- What is known of a call that has returned. -/
def Returned (env : Env) (call : StoreCall) (result : Option Written)
    (record : Local) : Prop :=
  ∀ body written, call = .writeStreamed body → result = some written →
    Stored env body written record ∧ body.arrives = true

theorem permits_of_custody
    {env : Env} {known : Set Bytes} {record : Local} {request : Call}
    (permitted : Custody.permits (setting env known) record request) :
    permits (setting env known) record request := by
  cases request with
  | fs call =>
      cases call with
      | removeFile path =>
          rcases permitted with own | ⟨hash, same, -⟩
          · exact .inl (.inl own)
          · exact .inr ⟨hash, by rw [same]⟩
      | blobsExists | walkBlobs => exact permitted.1.elim
      | _ => exact .inl permitted
  | _ => trivial

theorem program_follows
    (env : Env) (calls : ι → StoreCall) (thread : ι) :
    ((calls thread).program env).Follows
      (protocol (setting env (bodies calls))) (Returned env (calls thread))
      (fun _ _ => True) .idle := by
  cases call : calls thread with
  | writeStreamed body =>
      have known : body.bytes ∈ bodies calls := ⟨thread, body, call, rfl⟩
      have written := (@writeStreamed_follows (setting env (bodies calls))
        body .idle known).permitting fun _ _ => permits_of_custody
      refine (written.returning (writeStreamed_arrives env body)).bind ?_
      rintro written record returned _ _ ⟨⟩ ⟨⟩
      exact returned
  | deleteBlob hash =>
      have unlinked : (syscall (.removeFile (blobPath hash))).Follows
          (protocol (setting env (bodies calls))) (fun _ _ => True)
          (fun _ _ => True) .idle :=
        Program.follows_perform (.inr ⟨hash, rfl⟩) (fun _ => trivial)
          fun _ => trivial
      have removed : (LocalFsStore.deleteBlob hash).Follows
          (protocol (setting env (bodies calls))) (fun _ _ => True)
          (fun _ _ => True) .idle := by
        refine unlinked.catchError fun error record _ => ?_
        split <;> trivial
      refine removed.bind ?_
      rintro _ _ _ _ _ ⟨⟩

/-! ## What a writer knows -/

/-- What a writer believes is true: its temporary file has a name of its own
and the content it has written, and the file it relies on is there. -/
structure Writing
    (env : Env) (upload : Option Upload) (held : Option String)
    (world : World) : Prop where
  named : ∀ own, upload = some own →
    ∃ number < world.uuids, own.name = env.uuid number
  written : ∀ name content, upload = some ⟨name, some content⟩ →
    world.fs.read (tmpPath name) = some content
  held : ∀ hash, held = some hash → HasFile world hash

section Steps

variable {env : Env} {known : Set Bytes} {config : Config}
variable {record other : Local} {held : Option String}
variable {request : Call} {reply : Except CoreError request.Reply}
variable {before after : World}

theorem Writing.owned
    {upload : Option Upload} {world : World}
    (writing : Writing env upload held world) :
    Owned (setting env known) (writer upload held) world :=
  { owned_idle (setting env known) world with
    named := writing.named
    written := writing.written
    held := writing.held
    apart := .inr ⟨rfl, rfl, rfl, rfl⟩ }

theorem Writing.forget
    {upload : Option Upload} {world : World}
    (writing : Writing env upload held world) :
    Writing env upload none world :=
  { writing with held := by rintro hash ⟨⟩ }

/-- What a reply teaches about the temporary file does not depend on the rest
of the record. -/
theorem upload_advance :
    (advance env (writer record.upload held) request reply).upload =
      (advance env record request reply).upload := by
  cases request with
  | fs call =>
      cases call with
      | fileExists | blobsExists =>
          rcases reply with error | present
          · rfl
          · cases present <;> rfl
      | _ => cases reply <;> rfl
  | db call => cases call <;> cases reply <;> rfl
  | newUuid => cases reply <;> rfl
  | _ => rfl

/-- What a reply teaches about the file to rely on does not depend on the file
that was relied on before. -/
theorem held_advance :
    (advance env record request reply).held = record.held ∧
        (advance env (writer record.upload held) request reply).held = held ∨
      (advance env (writer record.upload held) request reply).held =
        (advance env record request reply).held := by
  cases request with
  | fs call =>
      cases call with
      | fileExists path =>
          rcases reply with error | present
          · exact .inl ⟨rfl, rfl⟩
          · cases present with
            | true => exact .inr rfl
            | false => exact .inl ⟨rfl, rfl⟩
      | blobsExists =>
          rcases reply with error | present
          · exact .inl ⟨rfl, rfl⟩
          · cases present <;> exact .inl ⟨rfl, rfl⟩
      | rename source target =>
          cases reply with
          | ok value => exact .inr rfl
          | error error => exact .inl ⟨rfl, rfl⟩
      | _ => cases reply <;> exact .inl ⟨rfl, rfl⟩
  | db call =>
      cases call with
      | entriesUpsert => cases reply <;> exact .inr rfl
      | _ => cases reply <;> exact .inl ⟨rfl, rfl⟩
  | newUuid =>
      cases reply with
      | ok value => exact .inr rfl
      | error error => exact .inl ⟨rfl, rfl⟩
  | _ => exact .inl ⟨rfl, rfl⟩

/-- A reply gives the temporary file another name only with a new one. -/
theorem name_advance
    (old : request ≠ .newUuid) {own : Upload}
    (uploading : (advance env record request reply).upload = some own) :
    ∃ before, record.upload = some before ∧ own.name = before.name := by
  cases request with
  | fs call =>
      cases call with
      | createFile path | appendFile path chunk =>
          cases reply
          all_goals
            obtain ⟨before, named, rfl⟩ := Option.map_eq_some_iff.mp uploading
            exact ⟨before, named, rfl⟩
      | fileExists | blobsExists =>
          rcases reply with error | present
          · exact ⟨own, uploading, rfl⟩
          · cases present <;> exact ⟨own, uploading, rfl⟩
      | rename source target =>
          cases reply with
          | ok value => cases uploading
          | error error => exact ⟨own, uploading, rfl⟩
      | removeFile path =>
          exact ⟨own, (Option.filter_eq_some_iff.mp uploading).1, rfl⟩
      | _ => cases reply <;> exact ⟨own, uploading, rfl⟩
  | db call => cases call <;> cases reply <;> exact ⟨own, uploading, rfl⟩
  | newUuid => exact absurd rfl old
  | _ => exact ⟨own, uploading, rfl⟩

/-- The removal of a blob file teaches a writer nothing. -/
theorem advance_removed
    (upload : Option Upload) (hash : String) (reply : Except CoreError Unit) :
    advance env (writer upload held)
        (.fs (.removeFile (blobPath hash))) reply = writer upload held := by
  cases upload with
  | none => rfl
  | some own => simp [advance, advanceFs, writer, Local.idle]

/-- Another call leaves a writer's file alone and what it relies on. -/
theorem Writing.frame
    (writing : Writing env other.upload held before)
    (apart : ∀ own foreign, record.upload = some own →
      other.upload = some foreign → own.name ≠ foreign.name)
    (spared : ∀ hash, held = some hash →
      request ≠ .fs (.removeFile (blobPath hash)))
    (permitted : permits (setting env known) record request)
    (answered : Faulty env config request before reply after) :
    Writing env other.upload held after where
  named own uploading := by
    obtain ⟨number, used, named⟩ := writing.named own uploading
    exact ⟨number, Nat.lt_of_lt_of_le used (Faulty.uuids answered), named⟩
  written name content uploading := by
    refine Eq.trans ?_ (writing.written name content uploading)
    cases request with
    | fs call =>
        apply (Faulty.fs_frame answered).2
        intro touches
        rcases permitted with permitted | ⟨hash, rfl⟩
        · obtain ⟨own, ours, same⟩ := touches_tmpPath permitted touches
          exact apart own _ ours uploading same
        · exact tmpPath_ne_blobPath _ _ touches
    | _ => rw [Faulty.files (by rintro _ ⟨⟩) answered]
  held hash relies := by
    have present := writing.held hash relies
    cases request with
    | fs call =>
        rcases permitted with permitted | ⟨removed, rfl⟩
        · refine (hasFile_before permitted answered present).resolve_right ?_
          rintro rfl
          exact spared hash relies rfl
        · have untouched :
              ¬(FsCall.removeFile (blobPath removed)).Touches
                (blobPath hash) := by
            intro same
            rw [(blobPath_eq_iff _ _).mp same] at relies
            exact spared removed relies rfl
          rw [HasFile, Fs.has, (Faulty.fs_frame answered).2 _ untouched]
          exact present
    | _ =>
        rw [HasFile, Faulty.files (by rintro _ ⟨⟩) answered]
        exact present

/-- A permitted call keeps true what its own writer knows. -/
theorem Writing.step
    (writing : Writing env record.upload held before)
    (spared : ∀ hash, held = some hash →
      request ≠ .fs (.removeFile (blobPath hash)))
    (permitted : permits (setting env known) record request)
    (answered : Faulty env config request before reply after) :
    Writing env (advance env record request reply).upload
      (advance env (writer record.upload held) request reply).held after := by
  rw [← @upload_advance env record held request reply]
  have own (owned : Owned (setting env known)
      (advance env (writer record.upload held) request reply) after) :
      Writing env
        (advance env (writer record.upload held) request reply).upload
        (advance env (writer record.upload held) request reply).held after :=
    ⟨owned.named, owned.written, owned.held⟩
  cases request with
  | fs call =>
      rcases permitted with permitted | ⟨hash, rfl⟩
      · have permitted : permitsFs (setting env known)
            (writer record.upload held) call := by
          cases call with
          | blobsExists | walkBlobs => exact permitted.1.elim
          | _ => exact permitted
        exact own (own_fs writing.owned (fun scans => scans.elim)
          (fun scans => scans.elim) permitted answered)
      · rw [advance_removed]
        refine @Writing.frame env known config .idle
          (writer record.upload held) held _ reply before after writing ?_
          spared (.inr ⟨hash, rfl⟩) answered
        rintro own foreign ⟨⟩
  | newUuid =>
      exact own (own_step writing.owned (fun sweeps => sweeps.elim)
        (fun scans => scans.elim) (fun scans => scans.elim) trivial answered)
  | db call =>
      -- A transaction may end the reliance on a file, and does no more.
      have framed := @Writing.frame env known config .idle
        (writer record.upload held) held _ reply before after writing
        (by rintro own foreign ⟨⟩) spared trivial answered
      cases call with
      | entriesUpsert => cases reply <;> exact framed.forget
      | _ => cases reply <;> exact framed
  | _ =>
      exact @Writing.frame env known config .idle
        (writer record.upload held) held _ reply before after writing
        (by rintro own foreign ⟨⟩) spared trivial answered

/-! ## Where the files are -/

/-- Every file is a temporary one or sits at the path of its digest. -/
def Addressed (env : Env) (known : Set Bytes) (fs : Fs) : Prop :=
  ∀ path content, fs.read path = some content →
    Placed (setting env known) path content

/-- A permitted call puts no file in a wrong place. -/
theorem addressed_step
    (addressed : Addressed env known before.fs)
    (writing : Writing env record.upload none before)
    (permitted : permits (setting env known) record request)
    (answered : Faulty env config request before reply after) :
    Addressed env known after.fs := by
  cases request with
  | fs call =>
      intro path content present
      rcases permitted with permitted | ⟨hash, rfl⟩
      · exact @placed_fs _ (writer record.upload none) _ _ _ _ _ addressed
          writing.written permitted answered _ _ present
      · have permitted : permitsFs (setting env known) (.sweeping [hash])
            (.removeFile (blobPath hash)) :=
          .inr ⟨hash, rfl, .inl List.mem_cons_self⟩
        exact placed_fs addressed (by rintro name content ⟨⟩) permitted
          answered present
  | _ =>
      rw [Faulty.files (by rintro _ ⟨⟩) answered]
      exact addressed

end Steps

/-- Two writers have temporary files of their own. -/
def Apart (first second : Local) : Prop :=
  ∀ own foreign, first.upload = some own → second.upload = some foreign →
    own.name ≠ foreign.name

/-- The calls of the store never get in each other's way, as far as the places
of the files are concerned. -/
def discipline (env : Env) (config : Config) (known : Set Bytes) :
    Pool.Discipline (protocol (setting env known)) (Faulty env config)
      (fun _ _ _ _ => True) where
  shared world := Addressed env known world.fs
  own record world := Writing env record.upload none world
  pair := Apart
  step _ _ _ _ _ addressed writing permitted answered :=
    ⟨addressed_step addressed writing permitted answered,
      (writing.step (by rintro hash ⟨⟩) permitted answered).forget⟩
  frame _ _ _ _ _ _ _ _ foreign apart permitted _ answered :=
    foreign.frame apart (by rintro hash ⟨⟩) permitted answered
  apart record other request world reply after _ _ foreign apart _ _
      answered := by
    intro own theirs uploading theirUpload
    by_cases renamed : request = .newUuid
    · subst renamed
      cases answered with
      | exact answered =>
          cases answered
          cases uploading
          obtain ⟨number, used, named⟩ := foreign.named theirs theirUpload
          rw [named]
          intro same
          exact Nat.ne_of_gt used (env.uuid_injective same)
    · obtain ⟨old, wasUploading, same⟩ := name_advance renamed uploading
      rw [same]
      exact apart old theirs wasUploading theirUpload
  symm _ _ apart own foreign uploading theirs :=
    (apart foreign own theirs uploading).symm

/-! ## Runs -/

section Runs

variable [DecidableEq ι]

/-- The calls before the first step of any of them. -/
def launch
    (env : Env) (calls : ι → StoreCall) (start : World) :
    Pool ι Call Call.Reply CoreError (Option Written) World Local :=
  .launch .idle (fun thread => (calls thread).program env) start

/-- From the first step of this thread on, nobody removes the blob file. -/
def Undeleted
    (thread : ι) (hash : String)
    (pool : Pool ι Call Call.Reply CoreError (Option Written) World Local)
    (_ : ι) (request : Call) : Prop :=
  pool.records thread ≠ .idle →
    request ≠ .fs (.removeFile (blobPath hash))

variable {env : Env} {config : Config} {calls : ι → StoreCall}
variable {start : World}
variable {pool : Pool ι Call Call.Reply CoreError (Option Written) World Local}

theorem addressed_empty
    {known : Set Bytes} {fs : Fs} (empty : fs.rows = []) :
    Addressed env known fs := by
  intro path content present
  rw [Fs.read_eq_some_iff, empty] at present
  cases present

theorem writing_idle (env : Env) (world : World) :
    Writing env Local.idle.upload Local.idle.held world where
  named := by rintro own ⟨⟩
  written := by rintro name content ⟨⟩
  held := by rintro hash ⟨⟩

omit [DecidableEq ι] in
theorem disciplined_launch
    (env : Env) (config : Config) (calls : ι → StoreCall)
    (empty : start.fs.rows = []) :
    (launch env calls start).Disciplined
      (discipline env config (bodies calls))
      (fun thread => Returned env (calls thread)) :=
  Pool.disciplined_launch (discipline env config (bodies calls))
    (addressed_empty empty) (writing_idle env start)
    (by rintro own foreign ⟨⟩) (program_follows env calls)

theorem disciplined
    {allowed : Pool ι Call Call.Reply CoreError (Option Written) World Local →
      ι → Call → Prop}
    (empty : start.fs.rows = [])
    (reached : Pool.Reaches (protocol (setting env (bodies calls)))
      (Faulty env config) allowed (launch env calls start) pool) :
    pool.Disciplined (discipline env config (bodies calls))
      (fun thread => Returned env (calls thread)) :=
  (disciplined_launch env config calls empty).reaches
    (Pool.Reaches.mono reached fun _ _ _ _ _ _ _ => trivial)

/-- While it is not deleted, the file that a writer relies on stays. -/
theorem relies_on_file
    {thread : ι} {hash : String} (empty : start.fs.rows = [])
    (reached : Pool.Reaches (protocol (setting env (bodies calls)))
      (Faulty env config) (Undeleted thread hash)
      (launch env calls start) pool) :
    pool.Disciplined (discipline env config (bodies calls))
        (fun thread => Returned env (calls thread)) ∧
      ((pool.records thread).held = some hash → HasFile pool.world hash) := by
  refine @Pool.Reaches.preserves _ _ _ _ _ _ _ _ _ _ _ _ _ _
    (fun pool => pool.Disciplined (discipline env config (bodies calls))
        (fun thread => Returned env (calls thread)) ∧
      ((pool.records thread).held = some hash → HasFile pool.world hash))
    ?_ (program_follows env calls)
    ⟨disciplined_launch env config calls empty, by rintro ⟨⟩⟩ reached
  rintro pool actor request next reply after ⟨disciplined, relied⟩ undeleted
    waiting permitted answered
  refine ⟨disciplined.step (fun _ _ _ => trivial) (.call waiting answered),
    fun relies => ?_⟩
  have spared (already : (pool.records thread).held = some hash) :
      request ≠ .fs (.removeFile (blobPath hash)) := by
    refine undeleted fun idle => ?_
    rw [idle] at already
    cases already
  by_cases acts : thread = actor
  · subst acts
    have live : pool.Live thread := Pool.Issues.live ⟨next, waiting⟩
    -- Of what the writer relies on, only this file is known not to be removed.
    have writing : Writing env (pool.records thread).upload
        ((pool.records thread).held.filter fun other =>
          decide (other = hash)) pool.world :=
      { disciplined.own thread live with
        held := by
          intro other relies
          obtain ⟨already, same⟩ := Option.filter_eq_some_iff.mp relies
          rw [of_decide_eq_true same] at already ⊢
          exact relied already }
    have stepped := writing.step (fun other relies => ?_) permitted answered
    · simp only [Pool.resume, Function.update_self] at relies
      refine stepped.held hash ?_
      rcases @held_advance env (pool.records thread)
          ((pool.records thread).held.filter fun other =>
            decide (other = hash)) request reply with
        ⟨kept, unchanged⟩ | same
      · rw [unchanged, ← kept]
        rw [show (advance env (pool.records thread) request reply).held =
          some hash from relies]
        simp
      · exact same.trans relies
    · obtain ⟨already, same⟩ := Option.filter_eq_some_iff.mp relies
      rw [of_decide_eq_true same] at already ⊢
      exact spared already
  · simp only [Pool.resume, Function.update_of_ne acts] at relies
    have writing : Writing env Local.idle.upload (some hash) pool.world :=
      { writing_idle env pool.world with
        held := by
          rintro other ⟨⟩
          exact relied relies }
    refine (writing.frame (by rintro own foreign _ ⟨⟩) ?_ permitted
      answered).held hash rfl
    rintro other ⟨⟩
    exact spared relies

/-- Whatever the calls do and wherever they are dropped, every file below
`blobs` is named after the digest of its content; a write that returns tells the
digest and the length of the whole body; and if nobody has removed that file
since the write began, it holds the body. -/
theorem blobs_are_addressed
    (env : Env) (config : Config) (calls : ι → StoreCall) (start : World)
    (empty : start.fs.rows = []) :
    (∀ pool, Pool.Reaches (protocol (setting env (bodies calls)))
        (Faulty env config) (fun _ _ _ => True) (launch env calls start)
        pool →
      (∀ file ∈ pool.world.fs.rows, file.path.head? = some "blobs" →
        file.path = blobPath (env.sha256 file.content)) ∧
      ∀ thread body written, calls thread = .writeStreamed body →
        pool.threads thread = .done (some written) →
          body.arrives = true ∧
            written = ⟨env.sha256 body.bytes, body.bytes.length⟩) ∧
    (env.CollisionFree (bodies calls) →
      ∀ thread body, calls thread = .writeStreamed body →
      ∀ pool, Pool.Reaches (protocol (setting env (bodies calls)))
        (Faulty env config) (Undeleted thread (env.sha256 body.bytes))
        (launch env calls start) pool →
      ∀ written, pool.threads thread = .done (some written) →
        pool.world.fs.read (blobPath written.hash) = some body.bytes) := by
  refine ⟨fun pool reached => ⟨?_, ?_⟩, ?_⟩
  · intro file present below
    have addressed := (disciplined empty reached).shared file.path
      file.content (Fs.read_eq_some_iff.mpr present)
    rcases addressed with ⟨name, temporary⟩ | ⟨placed, -⟩
    · simp [temporary, tmpPath] at below
    · exact placed
  · intro thread body written call ended
    obtain ⟨⟨-, hash, size⟩, arrives⟩ :=
      (disciplined empty reached).ended ended body written call rfl
    obtain ⟨writtenHash, writtenSize⟩ := written
    cases hash
    cases size
    exact ⟨arrives, rfl⟩
  · intro free thread body call pool reached written ended
    obtain ⟨kept, relied⟩ := relies_on_file empty reached
    obtain ⟨⟨held, hash, -⟩, -⟩ := kept.ended ended body written call rfl
    rw [hash] at held ⊢
    obtain ⟨content, present⟩ := hasFile_iff.mp (relied held)
    have addressed := kept.shared _ _ present
    rcases addressed with ⟨name, impossible⟩ | ⟨same, known⟩
    · exact absurd impossible (blobPath_ne_tmpPath _ _)
    · have digests := (blobPath_eq_iff _ _).mp same
      rw [present, free content known body.bytes ⟨thread, body, call, rfl⟩
        digests.symm]

end Runs

/-! ## Two writers of one body -/

/-- Three bytes in two chunks. -/
def chunked : Body := [.ok [97], .ok [98, 99]]

/-- The digest of the three bytes. -/
def digest : String := Sample.env.sha256 chunked.bytes

/-- The same three bytes in two ways, and a removal of their file. -/
def racing : Fin 3 → StoreCall
  | 0 => .writeStreamed chunked
  | 1 => .writeStreamed [.ok [97, 98, 99]]
  | 2 => .deleteBlob digest

/-- The call removes this blob file. -/
def removes (hash : String) : Call → Bool
  | .fs (.removeFile path) => path = blobPath hash
  | _ => false

/-- This is what the write has returned. -/
def wrote (written : Written) : App (Option Written) → Bool
  | .done result => result = some written
  | _ => false

theorem wrote_spec
    {written : Written} {program : App (Option Written)}
    (ended : wrote written program = true) :
    program = .done (some written) := by
  unfold wrote at ended
  split at ended
  · rw [of_decide_eq_true ended]
  · cases ended

theorem racing_bodies : bodies racing ⊆ {chunked.bytes} := by
  rintro _ ⟨thread, body, call, rfl⟩
  match thread with
  | 0 =>
      cases call
      rfl
  | 1 =>
      cases call
      rfl
  | 2 => cases call

theorem racing_collisionFree :
    Sample.env.CollisionFree (bodies racing) := by
  intro first firstKnown second secondKnown _
  rw [racing_bodies firstKnown, racing_bodies secondKnown]

/-- Both writers find no file after a removal, and both put theirs in place. -/
theorem racing_ends :
    ∃ pool, Pool.Reaches (protocol (setting Sample.env (bodies racing)))
        (Faulty Sample.env (Sample.config 1024)) (Undeleted 0 digest)
        (launch Sample.env racing (.initial 0)) pool ∧
      wrote ⟨digest, 3⟩ (pool.threads 0) = true ∧
      wrote ⟨digest, 3⟩ (pool.threads 1) = true := by
  have ran : ((Pool.replay (protocol (setting Sample.env (bodies racing)))
      (exec Sample.env (Sample.config 1024))
      (fun pool _ request =>
        decide (pool.records 0 = .idle) || !removes digest request)
      (2 :: List.replicate 8 0 ++ List.replicate 7 1 ++ [0, 1])
      (launch Sample.env racing (.initial 0))).any fun pool =>
        wrote ⟨digest, 3⟩ (pool.threads 0) &&
        wrote ⟨digest, 3⟩ (pool.threads 1)) = true := by
    decide +kernel
  rw [Option.any_eq_true] at ran
  obtain ⟨pool, replayed, outcome⟩ := ran
  rw [Bool.and_eq_true] at outcome
  refine ⟨pool, ?_, outcome⟩
  refine Pool.reaches_of_replay (fun _ _ _ _ => .exact) ?_ .refl replayed
  rintro pool thread request passes begun rfl
  rw [Bool.or_eq_true, decide_eq_true_eq] at passes
  have spared := passes.resolve_left begun
  simp [removes] at spared

theorem blobs_are_addressed_racing :
    ∃ pool : Pool (Fin 3) Call Call.Reply CoreError (Option Written) World
        Local,
      wrote ⟨digest, 3⟩ (pool.threads 1) = true ∧
      pool.world.fs.read (blobPath digest) = some chunked.bytes := by
  obtain ⟨pool, reached, first, second⟩ := racing_ends
  exact ⟨pool, second,
    (blobs_are_addressed Sample.env (Sample.config 1024) racing (.initial 0)
      rfl).2 racing_collisionFree 0 chunked rfl pool reached ⟨digest, 3⟩
        (wrote_spec first)⟩

end BlobDirectory

end Marmotte
