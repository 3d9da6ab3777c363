import Marmotte.Concurrency.PushSession

/-!
# The requests for one file

Each request of a push succeeds on the replies that it can get, and so does the
push of the file, with an outcome that the state at the start decides.
-/

namespace Marmotte

open Effects Custody CacheMap

namespace Push

/-- The records are about the same file. -/
structure Record.SameFile (first second : Record) : Prop where
  key : first.key = second.key
  content : first.content = second.content
  before : first.before = second.before

namespace Session

/-- The server takes the key for a write key of the project. -/
structure Accepted (session : Session) : Prop where
  parsed : parseBasic session.setup.env (some session.setup.authorization) =
    some ⟨session.setup.project, session.setup.apiKey⟩
  verified : AuthSvc.verified session.setup.env session.base
    session.setup.project session.setup.apiKey = .ok session.auth
  writes : session.auth.role = .write

variable {session : Session} {record : Record}

/-- The program returns on all credible replies. -/
abbrev Returns
    (session : Session) (program : App α) (post : α → Record → Prop)
    (record : Record) : Prop :=
  program.Succeeds session.protocol session.credible post record

/-- Whatever is replied, the record stays one about its file. -/
theorem sameFile_advance
    {other : Record} (request : Call)
    (reply : Except CoreError request.Reply)
    (same : record.SameFile other) :
    (session.protocol.advance record request reply).SameFile other :=
  ⟨same.key, same.content, same.before⟩

/-! ## Authentication -/

theorem verifyProject_returns
    (accepted : session.Accepted) (record : Record) :
    session.Returns
      (AuthSvc.verifyProject session.setup.env session.setup.project
        session.setup.apiKey
        (lookupHash session.setup.env session.setup.apiKey))
      (fun auth last => auth = session.auth ∧ last = record) record := by
  obtain ⟨project, key, named, found, checked, same⟩ :=
    AuthSvc.verified_eq_ok accepted.verified
  unfold AuthSvc.verifyProject
  have looked : session.Returns
      ((transact (.projectsGetByName session.setup.project)).catchError
        fun _ => .fail .unauthorized)
      (fun value last => value = project ∧ last = record) record := by
    refine Program.Succeeds.catchError
      (Program.succeeds_perform trivial fun reply possible => ?_)
    exact ⟨project, possible.trans named, rfl, rfl⟩
  refine looked.bind ?_
  rintro value _ ⟨isProject, rfl⟩
  subst isProject
  refine Program.succeeds_perform_bind trivial
    (fun reply possible => ⟨_, possible⟩) ?_
  intro row possible
  have replied : (.ok row : Except CoreError (Option ApiKey)) =
      .ok (ApiKeys.findActiveByLookup session.base value.id
        (lookupHash session.setup.env session.setup.apiKey)) := possible
  rw [found] at replied
  cases replied
  simp only [checked]
  exact ⟨same.symm, rfl⟩

theorem authenticateProject_returns
    (accepted : session.Accepted) (record : Record) :
    session.Returns
      (AuthSvc.authenticateProject session.setup.env session.setup.project
        session.setup.apiKey)
      (fun auth last => auth = session.auth ∧ last = record) record := by
  unfold AuthSvc.authenticateProject
  refine Program.succeeds_perform_bind trivial ?_ ?_
  · rintro _ ⟨cached, rfl, -⟩
    exact ⟨cached, rfl⟩
  · intro cached possible
    obtain ⟨_, replied, known⟩ := possible
    have same := Except.ok.inj replied
    subst same
    cases cached with
    | some auth => exact ⟨known rfl rfl auth rfl, rfl⟩
    | none =>
        refine (verifyProject_returns accepted record).bind ?_
        rintro _ _ ⟨rfl, rfl⟩
        exact Program.succeeds_perform_bind rfl (fun _ => id)
          fun _ _ => ⟨rfl, rfl⟩

/-- The name of the key's project is that of the push. -/
theorem Accepted.named
    (accepted : session.Accepted) :
    session.auth.projectName = session.setup.project := by
  obtain ⟨project, key, named, -, -, same⟩ :=
    AuthSvc.verified_eq_ok accepted.verified
  rw [same]
  exact (Credentials.getByName_eq_ok.mp named).2

/-- A request behind the middleware. -/
theorem middleware_returns
    (accepted : session.Accepted) {next : ProjectAuth → App Response}
    {post : Response → Record → Prop}
    (rest : session.Returns (next session.auth) post record) :
    session.Returns
      (Yocto.middleware session.setup.env (some session.setup.authorization)
        next) post record := by
  unfold Yocto.middleware
  rw [accepted.parsed]
  refine (authenticateProject_returns accepted record).toExcept.bind ?_
  rintro _ _ ⟨_, rfl, rfl, rfl⟩
  exact rest

/-! ## The handlers -/

/-- The answer to a `HEAD` for a key that holds this. -/
def headAnswer : Option (String × Int) → Response
  | none => Yocto.missResponse
  | some (hash, size) => { hitResponse hash size [] with payload := .empty }

theorem head_returns
    (accepted : session.Accepted) {path : String}
    (keyed : record.key = ⟨session.auth.projectId, .sstate, path⟩) :
    session.Returns
      (Yocto.read session.auth .sstate session.setup.project path true)
      (fun response last =>
        response = headAnswer (record.holds session.setup.env) ∧
          last = record) record := by
  have readable : session.auth.role.allowsRead = true := by
    rw [accepted.writes]
    rfl
  unfold Yocto.read Yocto.getOne Yocto.ensureProject
  rw [if_neg (by simp [accepted.named]), Program.pure_eq, Program.done_bind,
    readable]
  simp only [Bool.not_true, Bool.false_eq_true, if_false, if_true]
  refine ⟨trivial, ?_⟩
  rintro _ ⟨found, rfl, known⟩
  have holds := known keyed
  cases found with
  | none =>
      refine ⟨?_, rfl⟩
      rw [← holds]
      rfl
  | some entry =>
      refine ⟨?_, rfl⟩
      rw [← holds]
      rfl

/-- The loop over the chunks of a body appends them to the file. -/
theorem writeChunks_returns
    (name : String) (body : Body) (hashed : Bytes) (total : Int)
    (arrives : ∀ chunk ∈ body, ∃ bytes, chunk = .ok bytes)
    (writing : record.custody.upload = some ⟨name, some hashed⟩) :
    session.Returns
      (LocalFsStore.writeChunks (tmpPath name) body hashed total)
      (fun result last => last.SameFile record ∧
        last.custody.upload = some ⟨name, some (hashed ++ body.bytes)⟩ ∧
          result = (hashed ++ body.bytes, total + body.bytes.length))
      record := by
  induction body generalizing hashed total record with
  | nil =>
      refine ⟨⟨rfl, rfl, rfl⟩, ?_⟩
      simp [writing]
  | cons chunk rest inductionHypothesis =>
      obtain ⟨chunk, rfl⟩ := arrives _ List.mem_cons_self
      refine Program.succeeds_perform_bind ⟨trivial, _, writing, rfl⟩
        (fun _ => id) fun _ _ => ?_
      refine (inductionHypothesis _ _
        (fun other later => arrives other (List.mem_cons_of_mem _ later))
        ?_).mono ?_
      · simp [protocol, advance, Custody.advance, Custody.advanceFs, writing]
      · rintro result last ⟨same, written, returned⟩
        refine ⟨⟨same.key, same.content, same.before⟩, ?_, ?_⟩
        · rw [Body.bytes_ok, ← List.append_assoc, written]
        · rw [returned, Body.bytes_ok, ← List.append_assoc,
            List.length_append]
          congr 1
          push_cast
          omega

/-- What is known after `write_streamed`. -/
structure Stored
    (session : Session) (record : Record) (body : Body) (written : Written)
    (last : Record) : Prop where
  same : last.SameFile record
  held : last.custody.held = some (session.setup.env.sha256 body.bytes)
  written : written =
    ⟨session.setup.env.sha256 body.bytes, body.bytes.length⟩

theorem writeStreamed_returns
    (body : Body) (arrives : ∀ chunk ∈ body, ∃ bytes, chunk = .ok bytes)
    (listed : body.bytes ∈ session.contents) (record : Record) :
    session.Returns (LocalFsStore.writeStreamed session.setup.env body)
      (session.Stored record body) record := by
  refine Program.succeeds_perform_bind trivial (fun _ => id) fun name _ => ?_
  refine Program.succeeds_perform_bind ⟨trivial, _, rfl, rfl⟩ (fun _ => id)
    fun _ _ => ?_
  refine (writeChunks_returns name body [] 0 arrives rfl).bind ?_
  rintro _ last ⟨⟨sameKey, sameContent, sameBefore⟩, writing, rfl⟩
  simp only [List.nil_append, Int.zero_add] at writing ⊢
  refine Program.succeeds_perform_bind ⟨trivial, trivial⟩ (fun _ => id)
    fun _ _ => ?_
  refine Program.succeeds_perform_bind ⟨trivial, trivial⟩ (fun _ => id)
    fun _ _ => ?_
  refine Program.succeeds_perform_bind ⟨trivial, trivial⟩ (fun _ => id)
    fun _ _ => ?_
  have digest : last.custody.digest session.setup.env =
      some (session.setup.env.sha256 body.bytes) := by
    simp [Local.digest, writing]
  have holds : last.custody.Holds session.custody name body.bytes :=
    ⟨writing, listed⟩
  refine ⟨⟨trivial, name, body.bytes, holds, rfl⟩, ?_⟩
  rintro _ ⟨present, rfl⟩
  cases present with
  | true =>
      refine ⟨⟨trivial, .inl ⟨_, writing, rfl⟩⟩, fun reply _ => ?_⟩
      exact ⟨⟨sameKey, sameContent, sameBefore⟩, digest, rfl⟩
  | false =>
      refine Program.succeeds_perform_bind
        ⟨trivial, name, body.bytes, holds, rfl, rfl⟩ (fun _ => id)
        fun _ _ => ?_
      exact ⟨⟨sameKey, sameContent, sameBefore⟩, digest, rfl⟩

theorem put_returns
    (accepted : session.Accepted) {path : String} {body : Body}
    (keyed : record.key = ⟨session.auth.projectId, .sstate, path⟩)
    (arrives : ∀ chunk ∈ body, ∃ bytes, chunk = .ok bytes)
    (whole : body.bytes = record.content)
    (listed : record.content ∈ session.contents) :
    session.Returns
      (Yocto.put session.setup.env session.setup.config session.auth .sstate
        session.setup.project path body)
      (fun response last => last.SameFile record ∧
        response.status = 201 ∧ last.wrote = true) record := by
  have writable : session.auth.role.allowsWrite = true := by
    rw [accepted.writes]
    rfl
  refine Program.Succeeds.catchError ?_
  unfold Yocto.doPut Yocto.ensureProject
  rw [if_neg (by simp [accepted.named]), Program.pure_eq, Program.done_bind,
    writable]
  simp only [Bool.not_true, Bool.false_eq_true, if_false]
  refine (writeStreamed_returns body arrives (whole ▸ listed) record).bind ?_
  rintro _ last ⟨same, held, rfl⟩
  rw [whole] at held ⊢
  rw [← same.content] at listed
  refine Program.succeeds_perform_bind
    ⟨same.key.trans keyed, by rw [same.content], by rw [same.content], held,
      listed⟩
    (fun _ => id) fun entry _ => ?_
  refine Program.succeeds_perform_bind rfl (fun _ => id) fun _ _ => ?_
  refine Program.succeeds_perform_bind trivial (fun _ => id) fun total _ => ?_
  split
  · refine Program.succeeds_perform_bind trivial (fun _ => id) fun _ _ => ?_
    exact ⟨⟨same.key, same.content, same.before⟩, rfl, rfl⟩
  · exact ⟨⟨same.key, same.content, same.before⟩, rfl, rfl⟩

/-! ## One file -/

/-- The key that a file is pushed to. -/
def keyOf (session : Session) (file : LocalFile) : Key :=
  ⟨session.auth.projectId, .sstate, relative file.name⟩

/-- The record is about this file. -/
structure About
    (session : Session) (file : LocalFile) (record : Record) : Prop where
  key : record.key = session.keyOf file
  content : record.content = file.content
  listed : record.content ∈ session.contents

theorem About.of_same
    {file : LocalFile} {last : Record}
    (about : session.About file record) (same : last.SameFile record) :
    session.About file last :=
  ⟨same.key.trans about.key, same.content.trans about.content,
    same.content ▸ about.listed⟩

/-- A request that is small enough reaches its handler. -/
theorem handle_eq
    {file : LocalFile} (fitting : session.setup.Fitting file)
    (method : Yocto.Method)
    (within : withinLimit session.setup.uploadMaxBytes method = true) :
    session.setup.handle file method =
      Yocto.serve session.setup.env session.setup.config
        ⟨some session.setup.authorization, method, .sstate,
          session.setup.project, relative file.name⟩ := by
  unfold Setup.handle
  rw [if_pos within, reaches_of_fits file.named fitting.fits]
  rfl

theorem arrives_chunked (sizes : List Nat) (content : Bytes) :
    ∀ chunk ∈ chunked sizes content, ∃ bytes, chunk = .ok bytes := by
  induction sizes generalizing content with
  | nil => simp [chunked]
  | cons size sizes inductionHypothesis =>
      intro chunk among
      rcases List.mem_cons.mp among with rfl | later
      · exact ⟨_, rfl⟩
      · exact inductionHypothesis _ chunk later

theorem handle_put_returns
    (accepted : session.Accepted) {file : LocalFile}
    (fitting : session.setup.Fitting file) (about : session.About file record)
    (sizes : List Nat) :
    session.Returns
      (session.setup.handle file (.put (chunked sizes file.content)))
      (fun response last => last.SameFile record ∧
        response.status = 201 ∧ last.wrote = true) record := by
  rw [handle_eq fitting]
  · refine middleware_returns accepted (put_returns accepted about.key
      (arrives_chunked sizes file.content) ?_ about.listed)
    rw [bytes_chunked, about.content]
  · rw [withinLimit, bytes_chunked]
    exact decide_eq_true fitting.small

theorem handle_head_returns
    (accepted : session.Accepted) {file : LocalFile}
    (fitting : session.setup.Fitting file) (about : session.About file record) :
    session.Returns (session.setup.handle file .head)
      (fun response last =>
        response = headAnswer (record.holds session.setup.env) ∧
          last = record) record := by
  rw [handle_eq fitting _ rfl]
  exact middleware_returns accepted (head_returns accepted about.key)

/-- A failed request leaves a record of its file. -/
theorem send_failure_returns
    {file : LocalFile} {method : Yocto.Method}
    {post : Response → Record → Prop}
    (handled : session.Returns (session.setup.handle file method) post record)
    (failure : Failure) :
    session.Returns (session.setup.send file method (some failure))
      (fun response last =>
        last.SameFile record ∧ response = ⟨failure.status, [], .empty⟩)
      record := by
  let about (last : Record) : Prop := last.SameFile record
  have initially : about record := ⟨rfl, rfl, rfl⟩
  have abandoned := handled.abandon
    (fun last request reply (same : about last) =>
      sameFile_advance request reply same) initially failure.calls
  refine abandoned.bind ?_
  exact fun _ last same => ⟨same, rfl⟩

/-- One attempt of the upload ends with a success, unless its answer is a
failure. -/
theorem attempt_returns
    (accepted : session.Accepted) {file : LocalFile}
    (fitting : session.setup.Fitting file) (about : session.About file record)
    (sizes : List Nat) (failure : Option Failure) :
    session.Returns
      (session.setup.send file (.put (chunked sizes file.content)) failure)
      (fun response last => last.SameFile record ∧
        match failure with
        | none => response.status = 201 ∧ last.wrote = true
        | some failure => response.status = failure.status) record := by
  have handled := handle_put_returns accepted fitting about sizes
  cases failure with
  | none => exact handled
  | some failure =>
      exact (send_failure_returns handled failure).mono
        fun response last known => ⟨known.1, by rw [known.2]⟩

/-- The loop ends with an upload, if it may go on for longer than the requests
fail. -/
theorem putLoop_returns
    (accepted : session.Accepted) {file : LocalFile}
    (fitting : session.setup.Fitting file) (about : session.About file record)
    (script : Script) (attempt left : Nat)
    (enough : script.puts.length ≤ attempt + left) :
    session.Returns (putLoop session.setup file script attempt left)
      (fun result last => last.SameFile record ∧ result = .ok .pushed ∧
        last.wrote = true) record := by
  induction left generalizing attempt record with
  | zero =>
      have answered : script.puts[attempt]? = none :=
        List.getElem?_eq_none enough
      unfold putLoop
      rw [answered]
      refine (attempt_returns accepted fitting about _ none).bind ?_
      rintro response last ⟨same, created, wrote⟩
      rw [if_pos (by omega)]
      exact ⟨same, rfl, wrote⟩
  | succ left inductionHypothesis =>
      unfold putLoop
      refine (attempt_returns accepted fitting about _ _).bind ?_
      rintro response last ⟨same, answered⟩
      cases failed : script.puts[attempt]? with
      | none =>
          rw [failed] at answered
          rw [if_pos (by omega)]
          exact ⟨same, rfl, answered.2⟩
      | some failure =>
          rw [failed] at answered
          rw [if_neg (by rw [answered]; exact failure.not_success)]
          simp only
          rw [if_pos (by rw [answered]; exact failure.retryable)]
          refine Program.succeeds_perform_bind trivial (fun _ => id)
            fun _ _ => ?_
          have later := inductionHypothesis (about.of_same same)
            (attempt + 1) (by omega)
          exact later.mono fun result final known =>
            ⟨⟨known.1.key.trans same.key, known.1.content.trans same.content,
              known.1.before.trans same.before⟩, known.2⟩

/-- What the push of a file finds at the server, by the digest that its key had
at the start. -/
def outcome (session : Session) (record : Record) : Outcome :=
  if record.before.map Prod.fst =
      some (session.setup.env.sha256 record.content) then .skipped
  else .pushed

/-- The `HEAD` tells whether the digest is there. -/
theorem checkHead_headAnswer (env : Env) (held : Option (String × Int))
    (content : Bytes) :
    checkHead (quoted (env.sha256 content)) (headAnswer held) =
      if held.map Prod.fst = some (env.sha256 content) then .skipped
      else .upload := by
  cases held with
  | none => rfl
  | some stored =>
      obtain ⟨hash, size⟩ := stored
      have success : (headAnswer (some (hash, size))).status = 200 := rfl
      have tag : (headAnswer (some (hash, size))).header "etag" =
          some (quoted hash) := rfl
      unfold checkHead
      rw [success, tag]
      simp [quoted_inj]

/-- The push of a file that is answered in time: a dry run finds out what a
real run does. -/
theorem pushOne_returns
    (accepted : session.Accepted) {file : LocalFile}
    (fitting : session.setup.Fitting file) (about : session.About file record)
    (unwritten : record.wrote = false) (dryRun : Bool) {script : Script}
    (answered : script.head = none)
    (enough : script.puts.length < maxRetries) :
    session.Returns (pushOne session.setup dryRun file script)
      (fun result last => last.SameFile record ∧
        result = .ok (session.outcome record) ∧
        (result = .ok .pushed → dryRun = false → last.wrote = true))
      record := by
  have holds : record.holds session.setup.env = record.before := by
    simp [Record.holds, unwritten]
  unfold pushOne
  rw [answered]
  refine (handle_head_returns accepted fitting about).bind ?_
  rintro _ _ ⟨rfl, rfl⟩
  rw [sha256File_eq, ← about.content, holds, checkHead_headAnswer]
  unfold outcome
  split
  · refine ⟨⟨rfl, rfl, rfl⟩, rfl, ?_⟩
    rintro ⟨⟩
  · cases dryRun with
    | true =>
        refine ⟨⟨rfl, rfl, rfl⟩, rfl, ?_⟩
        rintro - ⟨⟩
    | false =>
        have below : script.puts.length ≤ 0 + (maxRetries - 1) := by
          unfold maxRetries at enough ⊢
          omega
        exact (putLoop_returns accepted fitting about script 0 _ below).mono
          fun _ _ known => ⟨known.1, known.2.1, fun _ _ => known.2.2⟩

end Session

end Push

end Marmotte
