import Marmotte.Custody.Follows
import Marmotte.Custody.Intact
import Marmotte.Footprints
import Marmotte.Sequential.Evictions

/-!
# An upload that runs alone

A `PUT` that nothing interrupts either is answered 201 and has committed the
digest and the length of its body under its key, or leaves the database as it
is.
-/

namespace Marmotte

open Effects Tables

/-! ## Programs that only write files -/

/-- The calls that reach neither the database nor the sweep mutex. -/
def fileCalls : Protocol Call Call.Reply CoreError Unit where
  permits _ request :=
    match request with
    | .fs _ => True
    | .newUuid => True
    | _ => False
  advance _ _ _ := ()

/-- A program of such calls leaves the database as it is. -/
theorem run_fileCalls
    {env : Env} {config : Config} {program : App α}
    {before after : World} {outcome : Outcome CoreError α}
    (follows : program.Follows fileCalls (fun _ _ => True)
      (fun _ _ => True) ())
    (ran : program.run (exec env config) before = (outcome, after)) :
    after.db = before.db ∧ after.gcRunning = before.gcRunning ∧
      after.now = before.now := by
  have kept : ∀ (record : Unit) request world reply next,
      (world.db = before.db ∧ world.gcRunning = before.gcRunning ∧
        world.now = before.now) →
      fileCalls.permits record request →
      exec env config request world = some (reply, next) →
      next.db = before.db ∧ next.gcRunning = before.gcRunning ∧
        next.now = before.now := by
    intro record request world reply next same permitted answered
    cases request with
    | fs call =>
        cases answered
        exact same
    | newUuid =>
        cases answered
        exact same
    | _ => exact permitted.elim
  obtain ⟨_, same, -⟩ :=
    Program.Follows.run_keeps kept follows ⟨rfl, rfl, rfl⟩ ran
  exact same

theorem writeStreamed_fileCalls (env : Env) (body : Body) :
    (LocalFsStore.writeStreamed env body).Follows fileCalls
      (fun _ _ => True) (fun _ _ => True) () := by
  refine ((LocalFsStore.writeStreamed_uses env body).follows ?_
    fun _ _ _ => rfl).mono (fun _ _ _ => trivial) fun _ _ _ => trivial
  intro request used
  cases request with
  | fs call => trivial
  | newUuid => trivial
  | _ => exact used.elim

/-- Streaming a body that returns computes its digest and its length. -/
theorem run_writeStreamed
    {env : Env} {config : Config} {body : Body} {before after : World}
    {outcome : Outcome CoreError Written}
    (ran : (LocalFsStore.writeStreamed env body).run (exec env config)
      before = (outcome, after)) :
    after.db = before.db ∧ after.gcRunning = before.gcRunning ∧
      after.now = before.now ∧
      ∀ written, outcome = .done written →
        written = ⟨env.sha256 body.bytes, body.bytes.length⟩ := by
  obtain ⟨sameDb, sameLock, sameClock⟩ :=
    run_fileCalls (writeStreamed_fileCalls env body) ran
  refine ⟨sameDb, sameLock, sameClock, ?_⟩
  rintro written rfl
  let setting : Custody.Setting := ⟨env, Set.univ, True, True, True, False⟩
  have follows := @Custody.writeStreamed_follows setting body .idle trivial
  have kept : ∀ record request world reply next,
      True → (Custody.protocol setting).permits record request →
      exec env config request world = some (reply, next) → True :=
    fun _ _ _ _ _ _ _ _ => trivial
  obtain ⟨_, -, stored, -⟩ :=
    Program.Follows.run_keeps kept follows trivial ran
  obtain ⟨-, hashed, sized⟩ := stored written rfl
  rw [← hashed, ← sized]

/-- A stream that arrives is written to the end. -/
theorem run_writeChunks_done
    (env : Env) (config : Config) (tmp : FilePath) {body : Body}
    (hashed : Bytes) (total : Int) {world : World}
    (arrives : body.arrives = true) (created : world.fs.has tmp = true) :
    ∃ result after,
      (LocalFsStore.writeChunks tmp body hashed total).run (exec env config)
        world = (.done result, after) ∧ after.fs.has tmp = true := by
  induction body generalizing hashed total world with
  | nil => exact ⟨_, world, rfl, created⟩
  | cons chunk rest inductionHypothesis =>
      cases chunk with
      | error cause => cases arrives
      | ok chunk =>
          obtain ⟨content, found⟩ := Option.isSome_iff_exists.mp created
          have appends : (syscall (.appendFile tmp chunk)).run
              (exec env config) world = (.done (),
                { world with fs := world.fs.write tmp (content ++ chunk) }) :=
            Program.run_perform (by simp only [exec, FsCall.exec, found])
          have written :
              (world.fs.write tmp (content ++ chunk)).has tmp = true := by
            simp only [Fs.has, Fs.read_write_self, Option.isSome_some]
          obtain ⟨result, after, ran, kept⟩ :=
            @inductionHypothesis (hashed ++ chunk) (total + chunk.length)
              { world with fs := world.fs.write tmp (content ++ chunk) }
              arrives written
          exact ⟨result, after, (Program.run_bind_done appends _).trans ran,
            kept⟩

/-- A stream that breaks off is an error. -/
theorem run_writeChunks_failed
    (env : Env) (config : Config) (tmp : FilePath) {body : Body}
    (hashed : Bytes) (total : Int) (world : World)
    (breaks : body.arrives = false) :
    ∃ error after,
      (LocalFsStore.writeChunks tmp body hashed total).run (exec env config)
        world = (.failed error, after) := by
  induction body generalizing hashed total world with
  | nil => cases breaks
  | cons chunk rest inductionHypothesis =>
      cases chunk with
      | error cause => exact ⟨_, world, rfl⟩
      | ok chunk =>
          have appends : ∃ fs, (syscall (.appendFile tmp chunk)).run
              (exec env config) world = (.done (), { world with fs := fs }) := by
            cases found : world.fs.read tmp with
            | none =>
                exact ⟨_, Program.run_perform (by
                  simp only [exec, FsCall.exec, found]
                  rfl)⟩
            | some content =>
                exact ⟨_, Program.run_perform (by
                  simp only [exec, FsCall.exec, found]
                  rfl)⟩
          obtain ⟨fs, appends⟩ := appends
          obtain ⟨error, after, ran⟩ := inductionHypothesis (hashed ++ chunk)
            (total + chunk.length) { world with fs := fs } breaks
          exact ⟨error, after, (Program.run_bind_done appends _).trans ran⟩

/-- The world in which an upload has created its temporary file. -/
def World.opened (env : Env) (world : World) : World :=
  { world with
    uuids := world.uuids + 1
    fs := world.fs.write (tmpPath (env.uuid world.uuids)) [] }

theorem run_opened
    (env : Env) (config : Config) (world : World)
    (next : String → App α) :
    Program.run (exec env config) (do
      let name ← Program.perform Call.newUuid
      syscall (.createFile (tmpPath name))
      next name) world =
        (next (env.uuid world.uuids)).run (exec env config)
          (world.opened env) := rfl

/-- The store takes every body that arrives. -/
theorem run_writeStreamed_done
    (env : Env) (config : Config) {body : Body} (world : World)
    (arrives : body.arrives = true) :
    ∃ written after,
      (LocalFsStore.writeStreamed env body).run (exec env config) world =
        (.done written, after) := by
  let tmp := tmpPath (env.uuid world.uuids)
  have created : (world.opened env).fs.has tmp = true := by
    simp only [World.opened, tmp, Fs.has, Fs.read_write_self,
      Option.isSome_some]
  obtain ⟨⟨hashed, total⟩, streamed, ran, kept⟩ :=
    run_writeChunks_done env config tmp [] 0 arrives created
  obtain ⟨content, found⟩ := Option.isSome_iff_exists.mp kept
  let dest := blobPath (env.sha256 hashed)
  have checks : (trySyscall (.fileExists dest)).run (exec env config)
      streamed = (.done (.ok (streamed.fs.has dest)), streamed) := rfl
  rw [LocalFsStore.writeStreamed]
  simp only
  rw [run_opened, Program.run_bind_done ran]
  cases stored : streamed.fs.has dest with
  | true =>
      rw [stored] at checks
      exact ⟨_, _, Program.run_bind_done checks _⟩
  | false =>
      rw [stored] at checks
      have renames : (syscall (.rename tmp dest)).run (exec env config)
          streamed = (.done (), { streamed with
            fs := (streamed.fs.unlink tmp).write dest content }) :=
        Program.run_perform (by simp only [exec, FsCall.exec, found])
      exact ⟨_, _, (Program.run_bind_done checks _).trans
        (Program.run_bind_done renames _)⟩

/-- The store refuses every body that breaks off. -/
theorem run_writeStreamed_failed
    (env : Env) (config : Config) {body : Body} (world : World)
    (breaks : body.arrives = false) :
    ∃ error after,
      (LocalFsStore.writeStreamed env body).run (exec env config) world =
        (.failed error, after) := by
  obtain ⟨error, after, ran⟩ := run_writeChunks_failed env config
    (tmpPath (env.uuid world.uuids)) [] 0 (world.opened env) breaks
  refine ⟨error, after, ?_⟩
  rw [LocalFsStore.writeStreamed]
  simp only
  rw [run_opened, Program.run_bind, ran]

/-! ## The whole request -/

/-- Bumping a counter of a project that exists commits. -/
theorem statsBump_ok
    {db : Db} {projectId : Int}
    (now : Int) (kind : String) (count bytes : Int)
    (owned : db.HasProject projectId) :
    ∃ after, Stats.bump now db (some projectId) kind count bytes =
      .ok ((), after) := by
  have owner : ∀ id, some projectId = some id → db.HasProject id := by
    rintro id ⟨⟩
    exact owned
  unfold Stats.bump Db.upsertCounter
  simp only [dif_pos owner]
  split
  · exact ⟨_, rfl⟩
  · exact ⟨_, rfl⟩

/-- What a committed upload did to the database. -/
def Uploaded
    (env : Env) (before after : World) (key : Key) (content : Bytes) : Prop :=
  ∃ middle,
    Entries.Upserted before.now before.db middle key (env.sha256 content)
      content.length ∧ Db.SameStore middle after.db

/-- How an upload that runs alone ends. -/
structure PutEnds
    (env : Env) (before after : World) (key : Key) (content : Bytes)
    (created : Prop) : Prop where
  uploaded : created → Uploaded env before after key content
  refused : ¬created → after.db = before.db
  lock : after.gcRunning = before.gcRunning

/-- Everything after the body is stored. -/
theorem run_recordUpload
    {env : Env} {config : Config} {auth : ProjectAuth} {kind : Kind}
    {path : String} {world after : World} {content : Bytes}
    {outcome : Outcome CoreError Response}
    (ran : Program.run (exec env config) (do
      let _entry ← transact (.entriesUpsert auth.projectId kind path
        (env.sha256 content) content.length)
      transact (.statsBump (some auth.projectId) "put" 1 content.length)
      let threshold :=
        mulU64 config.gc.globalQuotaBytes config.gc.triggerThresholdPct / 100
      let total ← transact .blobsTotalSize
      let usage := total.toNat
      if threshold < usage then do
        Program.perform (Call.spawn .gcRun)
        pure ⟨201, [("etag", quoted (env.sha256 content))], .empty⟩
      else pure ⟨201, [("etag", quoted (env.sha256 content))], .empty⟩)
      world = (outcome, after)) :
    PutEnds env world after ⟨auth.projectId, kind, path⟩ content
      (∃ response, outcome = .done response ∧ response.status = 201) := by
  by_cases owned : world.db.HasProject auth.projectId
  · obtain ⟨entry, middle, upserts, upserted⟩ := Entries.upsert_ok world.now
      kind path (env.sha256 content) content.length owned
    obtain ⟨final, bumps⟩ := statsBump_ok world.now "put" 1 content.length
      (upserted.tenants.hasProject.mpr owned)
    have store : Db.SameStore middle final :=
      @DbCall.exec_inert env world.now
        (.statsBump (some auth.projectId) "put" 1 content.length) middle final
        () trivial bumps
    have ranUpsert : (transact (.entriesUpsert auth.projectId kind path
        (env.sha256 content) content.length)).run (exec env config) world =
          (.done entry, { world with db := middle }) :=
      run_transact upserts
    have ranBump : (transact (.statsBump (some auth.projectId) "put" 1
        content.length)).run (exec env config)
          { world with db := middle } =
            (.done (), { world with db := final }) :=
      run_transact bumps
    rw [Program.run_bind_done ranUpsert, Program.run_bind_done ranBump] at ran
    simp only at ran
    rw [Program.run_bind_done (run_transact rfl)] at ran
    have answered : outcome = .done
        ⟨201, [("etag", quoted (env.sha256 content))], .empty⟩ ∧
          after = { world with db := final } := by
      split at ran
      · cases ran
        exact ⟨rfl, rfl⟩
      · cases ran
        exact ⟨rfl, rfl⟩
    obtain ⟨rfl, rfl⟩ := answered
    exact
      { uploaded := fun _ => ⟨middle, upserted, store⟩
        refused := fun refused => absurd ⟨_, rfl, rfl⟩ refused
        lock := rfl }
  · have refuses := Entries.upsert_refused world.now kind path
      (env.sha256 content) content.length owned
    have ranUpsert : (transact (.entriesUpsert auth.projectId kind path
        (env.sha256 content) content.length)).run (exec env config) world =
          (.failed (.database .foreignKeyViolation), world) :=
      run_transact_error refuses
    rw [Program.run_bind, ranUpsert] at ran
    cases ran
    exact
      { uploaded := by rintro ⟨_, ⟨⟩, _⟩
        refused := fun _ => rfl
        lock := rfl }

/-- An upload that ends with an unchanged database and without a success. -/
theorem putEnds_of_unchanged
    {env : Env} {before after : World} {key : Key} {content : Bytes}
    {created : Prop} (refused : ¬created) (sameDb : after.db = before.db)
    (lock : after.gcRunning = before.gcRunning) :
    PutEnds env before after key content created where
  uploaded success := absurd success refused
  refused _ := sameDb
  lock := lock

theorem run_doPut
    {env : Env} {config : Config} {auth : ProjectAuth} {kind : Kind}
    {project path : String} {body : Body} {world after : World}
    {outcome : Outcome CoreError Response}
    (ran : (Yocto.doPut env config auth kind project path body).run
      (exec env config) world = (outcome, after)) :
    PutEnds env world after ⟨auth.projectId, kind, path⟩ body.bytes
      (∃ response, outcome = .done response ∧ response.status = 201) := by
  unfold Yocto.doPut Yocto.ensureProject at ran
  by_cases named : auth.projectName ≠ project
  · rw [if_pos named] at ran
    cases ran
    exact putEnds_of_unchanged (by rintro ⟨_, ⟨⟩, _⟩) rfl rfl
  rw [if_neg named, Program.pure_eq, Program.done_bind] at ran
  cases role : auth.role.allowsWrite with
  | false =>
      rw [role] at ran
      cases ran
      exact putEnds_of_unchanged (by rintro ⟨_, ⟨⟩, _⟩) rfl rfl
  | true =>
      simp only [role, Bool.not_true, Bool.false_eq_true, if_false] at ran
      rw [Program.run_bind] at ran
      match streams : (LocalFsStore.writeStreamed env body).run
          (exec env config) world with
      | (.done written, middle) =>
          obtain ⟨sameDb, lock, clock, computed⟩ := run_writeStreamed streams
          rw [streams, computed written rfl] at ran
          obtain ⟨uploaded, refused, kept⟩ := run_recordUpload ran
          rw [Uploaded, sameDb, clock] at uploaded
          rw [sameDb] at refused
          exact ⟨uploaded, refused, kept.trans lock⟩
      | (.failed error, middle) =>
          obtain ⟨sameDb, lock, -⟩ := run_writeStreamed streams
          rw [streams] at ran
          cases ran
          exact putEnds_of_unchanged (by rintro ⟨_, ⟨⟩, _⟩) sameDb lock
      | (.running, middle) =>
          obtain ⟨sameDb, lock, -⟩ := run_writeStreamed streams
          rw [streams] at ran
          cases ran
          exact putEnds_of_unchanged (by rintro ⟨_, ⟨⟩, _⟩) sameDb lock

/-- An upload that runs alone is answered 201 and has committed its content, or
leaves the database as it is. -/
theorem run_put
    {env : Env} {config : Config} {auth : ProjectAuth} {kind : Kind}
    {project path : String} {body : Body} {world after : World}
    {outcome : Outcome CoreError Response}
    (ran : (Yocto.put env config auth kind project path body).run
      (exec env config) world = (outcome, after)) :
    PutEnds env world after ⟨auth.projectId, kind, path⟩ body.bytes
      (∃ response, outcome = .done response ∧ response.status = 201) := by
  unfold Yocto.put at ran
  rw [Program.run_catchError] at ran
  match puts : (Yocto.doPut env config auth kind project path body).run
      (exec env config) world with
  | (.done response, final) =>
      rw [puts] at ran
      cases ran
      exact run_doPut puts
  | (.running, final) =>
      rw [puts] at ran
      cases ran
      exact run_doPut puts
  | (.failed error, final) =>
      rw [puts] at ran
      cases ran
      have ends := run_doPut puts
      refine putEnds_of_unchanged ?_ (ends.refused (by rintro ⟨_, ⟨⟩, _⟩))
        ends.lock
      rintro ⟨_, ⟨⟩, created⟩
      exact Custody.intoResponse_status error created

end Marmotte
