import Marmotte.Custody.Protocol

/-!
# The programs follow the protocol

Uploads, sweeps and orphan scans follow the custody protocol whatever replies
they get.
-/

namespace Marmotte

open Effects

namespace Custody

variable {setting : Setting}

/-- A program that leaves the record as it is. -/
abbrev Keeps (setting : Setting) (program : App α) (record : Local) : Prop :=
  program.Follows (protocol setting) (fun _ last => last = record)
    (fun _ _ => True) record

/-- A call that the record permits and that teaches nothing. -/
theorem keeps_perform
    {setting : Setting} {request : Call} {record : Local}
    (permitted : permits setting record request)
    (neutral : ∀ reply, advance setting.env record request reply = record) :
    Keeps setting (Program.perform request) record :=
  Program.follows_perform permitted (fun reply => neutral (.ok reply))
    fun _ => trivial

/-- The same for a transaction that starts from an idle record. -/
theorem keeps_transact
    (setting : Setting) (call : DbCall)
    (permitted : permitsDb setting .idle call)
    (neutral : ∀ reply, advanceDb setting.env .idle call reply = .idle) :
    Keeps setting (transact call) .idle :=
  keeps_perform permitted neutral

/-- The rule for a call at the head of a program that hands its error on. -/
theorem follows_then
    {request : Call} {next : request.Reply → App α}
    {post : α → Local → Prop} {record : Local}
    (permitted : permits setting record request)
    (rest : ∀ value, (next value).Follows (protocol setting) post
      (fun _ _ => True) (advance setting.env record request (.ok value))) :
    (Program.perform request >>= next).Follows (protocol setting) post
      (fun _ _ => True) record :=
  Program.follows_perform_then permitted rest

/-- The same for a call that teaches nothing. -/
theorem follows_neutral
    {request : Call} {next : request.Reply → App α}
    {post : α → Local → Prop} {record : Local}
    (permitted : permits setting record request)
    (neutral : ∀ reply, advance setting.env record request reply = record)
    (rest : ∀ value, (next value).Follows (protocol setting) post
      (fun _ _ => True) record) :
    (Program.perform request >>= next).Follows (protocol setting) post
      (fun _ _ => True) record :=
  follows_then permitted fun value => (neutral (.ok value)).symm ▸ rest value

theorem Keeps.bind
    {first : App α} {next : α → App β} {post : β → Local → Prop}
    {record : Local}
    (keeps : Keeps setting first record)
    (rest : ∀ value, (next value).Follows (protocol setting) post
      (fun _ _ => True) record) :
    (first >>= next).Follows (protocol setting) post (fun _ _ => True)
      record :=
  Program.Follows.bind keeps fun value _ same => same ▸ rest value

/-! ## Uploads -/

theorem writeChunks_follows
    (name : String) (body : Body) (hashed : Bytes) (total : Int)
    (record : Local)
    (writing : record.upload = some ⟨name, some hashed⟩) :
    (LocalFsStore.writeChunks (tmpPath name) body hashed total).Follows
      (protocol setting)
      (fun result last =>
        last.upload = some ⟨name, some (hashed ++ body.bytes)⟩ ∧
          result = (hashed ++ body.bytes, total + body.bytes.length))
      (fun _ _ => True) record := by
  induction body generalizing hashed total record with
  | nil => simp [LocalFsStore.writeChunks, writing]
  | cons chunk rest inductionHypothesis =>
      cases chunk with
      | error cause => trivial
      | ok chunk =>
          refine ⟨⟨_, writing, rfl⟩, fun reply => ?_⟩
          cases reply with
          | error error => trivial
          | ok reply =>
              have grown : (advance setting.env record
                  (.fs (.appendFile (tmpPath name) chunk))
                    (.ok reply)).upload =
                  some ⟨name, some (hashed ++ chunk)⟩ := by
                simp [advance, advanceFs, writing]
              refine (inductionHypothesis _ _ _ grown).mono ?_
                fun _ _ _ => trivial
              intro result last written
              simp only [Body.bytes_ok, ← List.append_assoc, List.length_append]
              refine ⟨written.1, ?_⟩
              rw [written.2]
              congr 1
              push_cast
              omega

/-- What is known after a successful `write_streamed`. -/
def Stored
    (env : Env) (body : Body) (written : Written) (record : Local) : Prop :=
  record.held = some written.hash ∧
    written.hash = env.sha256 body.bytes ∧
      written.sizeBytes = body.bytes.length

theorem writeStreamed_follows
    (body : Body) (record : Local)
    (known : body.bytes ∈ setting.bodies) :
    (LocalFsStore.writeStreamed setting.env body).Follows (protocol setting)
      (Stored setting.env body) (fun _ _ => True) record := by
  refine follows_then trivial fun name => ?_
  refine follows_then ⟨_, rfl, rfl⟩ fun created => ?_
  refine Program.Follows.bind
    (writeChunks_follows name body [] 0 _ rfl) ?_
  rintro _ record ⟨writing, rfl⟩
  simp only [List.nil_append, Int.zero_add] at writing ⊢
  refine follows_neutral trivial (fun _ => rfl) fun _ => ?_
  refine follows_neutral trivial (fun _ => rfl) fun _ => ?_
  refine follows_neutral trivial (fun _ => rfl) fun _ => ?_
  have digest : record.digest setting.env =
      some (setting.env.sha256 body.bytes) := by
    simp [Local.digest, writing]
  have holds : record.Holds setting name body.bytes := ⟨writing, known⟩
  refine ⟨⟨name, body.bytes, holds, rfl⟩, fun reply => ?_⟩
  have renamed (last : Local) (same : last = record) :
      (do
        syscall (.rename (tmpPath name)
          (blobPath (setting.env.sha256 body.bytes)))
        pure ⟨setting.env.sha256 body.bytes, body.bytes.length⟩ :
          App Written).Follows (protocol setting) (Stored setting.env body)
            (fun _ _ => True) last := by
    subst same
    refine ⟨⟨name, body.bytes, holds, rfl, rfl⟩, fun reply => ?_⟩
    cases reply with
    | error error => trivial
    | ok reply => exact ⟨digest, rfl, rfl⟩
  match reply with
  | .ok true =>
      refine ⟨.inl ⟨_, writing, rfl⟩, fun reply => ?_⟩
      exact ⟨digest, rfl, rfl⟩
  | .ok false => exact renamed _ rfl
  | .error error => exact renamed _ rfl

/-- An error response is not a success. -/
theorem intoResponse_status (error : CoreError) :
    error.intoResponse.status ≠ 201 := by
  cases error <;> simp [CoreError.intoResponse, CoreError.statusAndTitle]

/-- A `PUT` answered 201 has committed the digest of its body. -/
def Acknowledged
    (env : Env) (body : Body) (response : Response) (record : Local) : Prop :=
  response.status = 201 → record.committed = some (env.sha256 body.bytes)

theorem doPut_follows
    (config : Config) (auth : ProjectAuth) (kind : Kind)
    (project path : String) (body : Body) (record : Local)
    (known : body.bytes ∈ setting.bodies) :
    (Yocto.doPut setting.env config auth kind project path body).Follows
      (protocol setting) (Acknowledged setting.env body) (fun _ _ => True)
      record := by
  unfold Yocto.doPut Yocto.ensureProject
  by_cases named : auth.projectName ≠ project
  · rw [if_pos named]
    trivial
  rw [if_neg named, Program.pure_eq, Program.done_bind]
  cases auth.role.allowsWrite with
  | false => trivial
  | true =>
  simp only [Bool.not_true, Bool.false_eq_true, if_false]
  refine Program.Follows.bind (writeStreamed_follows body record known) ?_
  rintro written record ⟨held, hashed, sized⟩
  refine follows_then ⟨held, body.bytes, known, hashed.symm, sized⟩
    fun entry => ?_
  have committed : (advance setting.env record
      (.db (.entriesUpsert auth.projectId kind path written.hash
        written.sizeBytes)) (.ok entry)).committed =
      some (setting.env.sha256 body.bytes) := by
    rw [← hashed]
    exact held
  refine follows_neutral trivial (fun _ => rfl) fun _ => ?_
  refine follows_neutral trivial (fun _ => rfl) fun total => ?_
  split
  · exact follows_neutral trivial (fun _ => rfl) fun _ _ => committed
  · exact fun _ => committed

theorem put_follows
    (config : Config) (auth : ProjectAuth) (kind : Kind)
    (project path : String) (body : Body) (record : Local)
    (known : body.bytes ∈ setting.bodies) :
    (Yocto.put setting.env config auth kind project path body).Follows
      (protocol setting) (Acknowledged setting.env body) (fun _ _ => True)
      record := by
  refine Program.Follows.catchError
    (doPut_follows config auth kind project path body record known) ?_
  intro error last _ created
  exact absurd created (intoResponse_status error)

/-! ## Sweeps -/

/-- The record of a sweep with hashes still to free. -/
def Local.sweeping (pending : List String) : Local :=
  { Local.idle with pending := pending }

theorem evict_keeps (dryRun : Bool) (candidate : Candidate) (record : Local) :
    Keeps setting (GcSvc.evict dryRun candidate) record := by
  cases dryRun with
  | true => rfl
  | false => exact keeps_perform trivial fun _ => rfl

theorem ttlLoop_keeps
    (dryRun : Bool) (candidates : List Candidate) (rep : GcReport)
    (record : Local) :
    Keeps setting (GcSvc.ttlLoop dryRun candidates rep) record := by
  induction candidates generalizing rep with
  | nil => rfl
  | cons candidate rest inductionHypothesis =>
      exact (evict_keeps dryRun candidate record).bind
        fun _ => inductionHypothesis _

theorem lruLoop_keeps
    (dryRun : Bool) (quota : Int) (candidates : List Candidate)
    (usage : Int) (rep : GcReport) (record : Local) :
    Keeps setting (GcSvc.lruLoop dryRun quota candidates usage rep)
      record := by
  induction candidates generalizing usage rep with
  | nil => rfl
  | cons candidate rest inductionHypothesis =>
      unfold GcSvc.lruLoop
      split
      · rfl
      · exact (evict_keeps dryRun candidate record).bind
          fun _ => inductionHypothesis _ _

theorem ttlPhase_keeps
    (config : GcConfig) (dryRun : Bool) (rep : GcReport) (record : Local) :
    Keeps setting (GcSvc.ttlPhase config dryRun rep) record := by
  refine follows_neutral trivial (fun _ => rfl) fun now => ?_
  have kind (kind : Kind) (rep : GcReport) :
      Keeps setting (GcSvc.ttlKind config dryRun now kind rep) record :=
    follows_neutral trivial (fun _ => rfl) fun candidates =>
      ttlLoop_keeps dryRun candidates rep record
  exact (kind .sstate rep).bind fun rep => kind .downloads rep

theorem quotaProject_keeps
    (dryRun : Bool) (project : Project) (rep : GcReport) (record : Local) :
    Keeps setting (GcSvc.quotaProject dryRun project rep) record := by
  unfold GcSvc.quotaProject
  split
  · rfl
  · refine follows_neutral trivial (fun _ => rfl) fun usage => ?_
    split
    · rfl
    · exact follows_neutral trivial (fun _ => rfl) fun candidates =>
        lruLoop_keeps dryRun _ candidates usage rep record

theorem quotaPhase_keeps
    (dryRun : Bool) (rep : GcReport) (record : Local) :
    Keeps setting (GcSvc.quotaPhase dryRun rep) record := by
  refine follows_neutral trivial (fun _ => rfl) fun projects => ?_
  change Keeps setting (GcSvc.quotaLoop dryRun projects rep) record
  generalize projects = remaining
  induction remaining generalizing rep with
  | nil => rfl
  | cons project rest inductionHypothesis =>
      exact (quotaProject_keeps dryRun project rep record).bind
        fun rep => inductionHypothesis rep

theorem globalPhase_keeps
    (config : GcConfig) (dryRun : Bool) (rep : GcReport) (record : Local) :
    Keeps setting (GcSvc.globalPhase config dryRun rep) record := by
  refine follows_neutral trivial (fun _ => rfl) fun usage => ?_
  simp only
  split
  · rfl
  · exact follows_neutral trivial (fun _ => rfl) fun candidates =>
      lruLoop_keeps dryRun _ candidates usage rep record

/-- Removing a blob file, with the error ignored. -/
theorem removeBlob_follows
    (setting : Setting) (hash : String) (record : Local)
    (idle : record.upload = none)
    (known : hash ∈ record.pending ∨ hash ∈ record.diskOrphans) :
    ((LocalFsStore.deleteBlob hash).catchError fun _ => pure ()).Follows
      (protocol setting)
      (fun _ last => last =
        { record with diskOrphans := record.diskOrphans.erase hash })
      (fun _ _ => True) record := by
  have learned (reply : Except CoreError Unit) :
      advance setting.env record (.fs (.removeFile (blobPath hash))) reply =
        { record with diskOrphans := record.diskOrphans.erase hash } := by
    simp [advance, advanceFs, idle]
  have removed : (syscall (.removeFile (blobPath hash))).Follows
      (protocol setting)
      (fun _ last => last =
        { record with diskOrphans := record.diskOrphans.erase hash })
      (fun _ last => last =
        { record with diskOrphans := record.diskOrphans.erase hash })
      record :=
    Program.follows_perform (.inr ⟨hash, rfl, known⟩)
      (fun reply => learned (.ok reply)) fun error => learned (.error error)
  have deleted : (LocalFsStore.deleteBlob hash).Follows (protocol setting)
      (fun _ last => last =
        { record with diskOrphans := record.diskOrphans.erase hash })
      (fun _ last => last =
        { record with diskOrphans := record.diskOrphans.erase hash })
      record := by
    refine removed.catchError fun error last same => ?_
    split
    · exact same
    · exact same
  exact deleted.catchError fun error last same => same

theorem freeBlob_follows (hash : String) (rest : List String) :
    (GcSvc.freeBlob false hash).Follows (protocol setting)
      (fun _ last => last = .sweeping rest) (fun _ _ => True)
      (.sweeping (hash :: rest)) := by
  have removed := removeBlob_follows setting hash
    (.sweeping (hash :: rest)) rfl (.inl List.mem_cons_self)
  refine Program.Follows.bind removed ?_
  rintro _ _ rfl
  refine Program.follows_perform List.mem_cons_self (fun reply => ?_)
    fun _ => trivial
  simp [protocol, advance, advanceDb, Local.sweeping, Local.idle]

theorem cleanupBatch_follows (batch : List String) (rep : GcReport) :
    (GcSvc.cleanupBatch false batch rep).Follows (protocol setting)
      (fun _ last => last = .idle) (fun _ _ => True)
      (.sweeping batch) := by
  induction batch generalizing rep with
  | nil => rfl
  | cons hash rest inductionHypothesis =>
      refine Program.Follows.bind (freeBlob_follows hash rest) ?_
      rintro _ _ rfl
      exact inductionHypothesis _

theorem cleanupBlobs_follows
    (budget : Nat) (rep : GcReport) (sweeps : setting.sweeps) :
    Keeps setting (GcSvc.cleanupBlobs false budget rep) .idle := by
  induction budget generalizing rep with
  | zero => trivial
  | succ budget inductionHypothesis =>
      refine follows_then ⟨sweeps, rfl, rfl⟩ fun batch => ?_
      cases batch with
      | nil => rfl
      | cons hash rest =>
          refine Program.Follows.bind
            (cleanupBatch_follows (hash :: rest) rep) ?_
          rintro rep _ rfl
          exact inductionHypothesis rep

theorem run_keeps
    (setting : Setting) (config : GcConfig) (budget : Nat)
    (sweeps : setting.sweeps) :
    (GcSvc.run config budget false).Follows (protocol setting)
      (fun _ last => last = .idle) (fun _ _ => True) .idle := by
  have swept : Keeps setting (GcSvc.sweep config budget false) .idle := by
    refine (ttlPhase_keeps config false _ _).bind fun rep => ?_
    refine (quotaPhase_keeps false rep _).bind fun rep => ?_
    refine (globalPhase_keeps config false rep _).bind fun rep => ?_
    refine (cleanupBlobs_follows budget rep sweeps).bind fun rep => ?_
    exact follows_neutral trivial (fun _ => rfl) fun usage => rfl
  refine follows_neutral trivial (fun _ => rfl) fun _ => ?_
  refine swept.ensuring ?_ ?_
  · intro rep last same
    exact Program.follows_perform trivial (fun _ => same) fun _ => trivial
  · intro error last _
    exact Program.follows_perform trivial (fun _ => trivial) fun _ => trivial

/-! ## Orphan scans -/

/-- The record of a scan with orphans still to remove. -/
def Local.scanning (disk db : List String) : Local :=
  { Local.idle with diskOrphans := disk, dbOrphans := db }

theorem removeDiskOrphans_follows
    (disk db : List String) (rep : OrphanReport) :
    (GcSvc.removeDiskOrphans false disk rep).Follows (protocol setting)
      (fun _ last => last = .scanning [] db) (fun _ _ => True)
      (.scanning disk db) := by
  induction disk generalizing rep with
  | nil => rfl
  | cons hash rest inductionHypothesis =>
      have removed := removeBlob_follows setting hash
        (.scanning (hash :: rest) db) rfl (.inr List.mem_cons_self)
      refine Program.Follows.bind removed ?_
      rintro _ _ rfl
      simp only [Local.scanning, List.erase_cons_head]
      exact inductionHypothesis _

theorem purgeDbOrphans_follows (db : List String) (rep : OrphanReport) :
    (GcSvc.purgeDbOrphans false db rep).Follows (protocol setting)
      (fun _ last => last = .idle) (fun _ _ => True) (.scanning [] db) := by
  induction db generalizing rep with
  | nil => rfl
  | cons hash rest inductionHypothesis =>
      refine follows_then List.mem_cons_self fun _ => ?_
      simp only [advance, advanceDb, Local.scanning, List.erase_cons_head]
      exact inductionHypothesis _

/-- A scan knows the names that it has walked, or none where it did not find
the directory. -/
theorem onDisk_follows (scans : setting.scans) :
    GcSvc.onDisk.Follows (protocol setting)
      (fun names last => last = { Local.idle with onDisk := some names })
      (fun _ _ => True) .idle := by
  refine ⟨⟨scans, rfl, rfl⟩, fun reply => ?_⟩
  match reply with
  | .ok true =>
      exact Program.follows_perform ⟨scans, rfl, rfl⟩ (fun _ => rfl)
        fun _ => trivial
  | .ok false | .error _ => rfl

theorem orphanScan_keeps (setting : Setting) (scans : setting.scans) :
    (GcSvc.orphanScan setting.env false).Follows (protocol setting)
      (fun _ last => last = .idle) (fun _ _ => True) .idle := by
  have scanned : Keeps setting (GcSvc.scan setting.env false) .idle := by
    refine (onDisk_follows scans).bind ?_
    rintro onDisk _ rfl
    refine follows_then rfl fun hashes => ?_
    refine Program.Follows.bind
      (removeDiskOrphans_follows _ _ ⟨0, 0⟩) ?_
    rintro rep _ rfl
    exact purgeDbOrphans_follows _ rep
  refine follows_neutral trivial (fun _ => rfl) fun _ => ?_
  refine scanned.ensuring ?_ ?_
  · intro rep last same
    exact Program.follows_perform trivial (fun _ => same) fun _ => trivial
  · intro error last _
    exact Program.follows_perform trivial (fun _ => trivial) fun _ => trivial

end Custody

end Marmotte
