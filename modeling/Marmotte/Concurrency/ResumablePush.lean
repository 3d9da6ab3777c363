import Marmotte.Concurrency.PushRequests
import Mathlib.Data.Fintype.Card

/-!
# Pushes that are resumed

The files of a push, pushed side by side in any order of their steps, to a
server on which every entry has its file.  A file is skipped exactly if the
server has its content already, a dry run finds out the same, and a push that is
repeated skips everything.
-/

namespace Marmotte

open Effects Custody CacheMap

namespace Push

variable {ι : Type}

/-! ## The command -/

/-- The tasks of a push, one for each file. -/
abbrev Tasks (ι : Type) : Type :=
  Pool ι Call Call.Reply CoreError (Except CliError Outcome) World Unit

/-- The tasks at the start. -/
def launch
    (setup : Setup) (dryRun : Bool) (files : ι → LocalFile)
    (scripts : ι → Script) (world : World) : Tasks ι :=
  .launch ()
    (fun thread => pushOne setup dryRun (files thread) (scripts thread)) world

/-- The tasks make steps, in any order. -/
abbrev Runs
    [DecidableEq ι] (setup : Setup) (start pool : Tasks ι) : Prop :=
  Pool.Reaches (Program.within fun _ => True)
    (exec setup.env setup.config).answers (fun _ _ _ => True) start pool

/-- Some steps are made forever, and the steps of the thread among them. -/
abbrev RunsForever
    [DecidableEq ι] (setup : Setup) (start : Tasks ι) (thread : ι)
    (pools : Nat → Tasks ι) : Prop :=
  Pool.FairRun (Program.within fun _ => True)
    (exec setup.env setup.config).answers (fun _ _ _ => True) start thread
    pools

/-- What a task has returned without an error. -/
def returned : App (Except CliError Outcome) → Option Outcome
  | .done (.ok outcome) => some outcome
  | _ => none

/-- The number of files with this outcome. -/
def count [Fintype ι] (pool : Tasks ι) (outcome : Outcome) : Nat :=
  (Finset.univ.filter fun thread =>
    returned (pool.threads thread) = some outcome).card

/-- All tasks have returned. -/
def Finished (pool : Tasks ι) : Prop :=
  ∀ thread, ∃ result, pool.threads thread = .done result

/-! ## Identical and served files -/

/-- The `HEAD` is answered by its handler, and one of the `PUT`s as well. -/
structure Script.Timely (script : Script) : Prop where
  head : script.head = none
  puts : script.puts.length < maxRetries

/-- The entry of the file has the content of the file. -/
def Identical (auth : ProjectAuth) (file : LocalFile) (world : World) : Prop :=
  ∃ entry,
    world.db.entryAt ⟨auth.projectId, .sstate, relative file.name⟩ =
      some entry ∧
    world.fs.read (blobPath entry.blobHash) = some file.content

/-- A `GET` of the file is answered with its content. -/
def Served (setup : Setup) (file : LocalFile) (world : World) : Prop :=
  ∃ response,
    ((setup.handle file .get).run (exec setup.env setup.config) world).1 =
      .done response ∧
    response.status = 200 ∧ response.payload = .stream file.content

/-- The contents of the files and of the blob files. -/
def contents (files : ι → LocalFile) (world : World) : Set Bytes :=
  {content | (∃ thread, (files thread).content = content) ∨
    ∃ hash, world.fs.read (blobPath hash) = some content}

/-- The files can be pushed: the server takes the key for a write key of the
project, every entry has its file, and files that no entry refers to are not in
the way of an upload. -/
structure Ready
    (setup : Setup) (auth : ProjectAuth) (files : ι → LocalFile)
    (world : World) : Prop where
  fitting : ∀ thread, setup.Fitting (files thread)
  distinct : Function.Injective fun thread => (files thread).name
  parsed : parseBasic setup.env (some setup.authorization) =
    some ⟨setup.project, setup.apiKey⟩
  verified : AuthSvc.verified setup.env world.db setup.project setup.apiKey =
    .ok auth
  writes : auth.role = .write
  cached : ∀ cached ∈ world.projectCache,
    cached.scope = AuthSvc.projectScope setup.project →
      cached.lookup = lookupHash setup.env setup.apiKey → cached.value = auth
  intact : ∀ entry ∈ world.db.entries.rows, ∃ content,
    world.fs.read (blobPath entry.blobHash) = some content ∧
      setup.env.sha256 content = entry.blobHash
  unblocked : ∀ thread content,
    world.fs.read (blobPath (setup.env.sha256 (files thread).content)) =
      some content →
    setup.env.sha256 content = setup.env.sha256 (files thread).content
  free : setup.env.CollisionFree (contents files world)

/-- What holds of every push of the files from this state of the server. -/
structure Resumable
    [DecidableEq ι] [Fintype ι]
    (setup : Setup) (auth : ProjectAuth) (files : ι → LocalFile)
    (world : World) : Prop where
  /-- Every task returns. -/
  returns : ∀ dryRun scripts, (∀ thread, (scripts thread).Timely) →
    ∀ thread pools,
      RunsForever setup (launch setup dryRun files scripts world) thread
        pools →
      ∃ moment result, (pools moment).threads thread = .done result
  /-- A task skips its file if and only if the server has its content. -/
  skips : ∀ dryRun scripts, (∀ thread, (scripts thread).Timely) → ∀ pool,
    Runs setup (launch setup dryRun files scripts world) pool →
    ∀ thread result, pool.threads thread = .done result →
      (result = .ok .skipped ∧ Identical auth (files thread) world) ∨
        (result = .ok .pushed ∧ ¬Identical auth (files thread) world)
  /-- A file that was pushed can be downloaded. -/
  serves : ∀ scripts, (∀ thread, (scripts thread).Timely) → ∀ pool,
    Runs setup (launch setup false files scripts world) pool →
    ∀ thread, pool.threads thread = .done (.ok .pushed) →
      Served setup (files thread) pool.world
  /-- A dry run changes nothing but the caches of verified credentials. -/
  inert : ∀ scripts, (∀ thread, (scripts thread).Timely) → ∀ pool,
    Runs setup (launch setup true files scripts world) pool →
    pool.world =
      { world with
        projectCache := pool.world.projectCache
        adminCache := pool.world.adminCache }
  /-- A dry run counts what a real run counts. -/
  predicts : ∀ scripts dryScripts, (∀ thread, (scripts thread).Timely) →
    (∀ thread, (dryScripts thread).Timely) → ∀ real dry,
    Runs setup (launch setup false files scripts world) real →
    Runs setup (launch setup true files dryScripts world) dry →
    Finished real → Finished dry →
    ∀ outcome, count dry outcome = count real outcome
  /-- Every task of a push that is repeated returns. -/
  continues : ∀ scripts dryRun later, (∀ thread, (scripts thread).Timely) →
    (∀ thread, (later thread).Timely) → ∀ pool,
    Runs setup (launch setup false files scripts world) pool →
    ∀ thread pools,
      RunsForever setup (launch setup dryRun files later pool.world) thread
        pools →
      ∃ moment result, (pools moment).threads thread = .done result
  /-- A push that is repeated skips everything. -/
  repeats : ∀ scripts dryRun later, (∀ thread, (scripts thread).Timely) →
    (∀ thread, (later thread).Timely) → ∀ pool again,
    Runs setup (launch setup false files scripts world) pool →
    Finished pool →
    Runs setup (launch setup dryRun files later pool.world) again →
    ∀ thread result, again.threads thread = .done result →
      result = .ok .skipped

/-! ## What a dry run calls -/

/-- The calls of a request that looks up an entry. -/
def lookupCalls : Call → Prop
  | .db (.entriesFind ..) => True
  | request => authenticationCalls request

theorem authenticationCalls_lookup
    {request : Call} (authenticates : authenticationCalls request) :
    lookupCalls request := by
  unfold lookupCalls
  split
  · trivial
  · exact authenticates

theorem read_head_uses
    (auth : ProjectAuth) (kind : Kind) (project path : String) :
    (Yocto.read auth kind project path true).Uses lookupCalls
      fun _ => True := by
  refine Program.Uses.catchError ?_ fun error => by cases error <;> trivial
  have ensured : (Yocto.ensureProject auth project).Uses lookupCalls
      fun _ => True := by
    unfold Yocto.ensureProject
    split <;> trivial
  refine ensured.bind fun _ _ => ?_
  split
  · trivial
  · refine Program.uses_perform_then trivial fun found => ?_
    cases found <;> trivial

theorem handle_head_uses (setup : Setup) (file : LocalFile) :
    (setup.handle file .head).Uses lookupCalls fun _ => True := by
  unfold Setup.handle
  split
  · split
    · unfold Yocto.serve Yocto.middleware
      split
      · trivial
      · rename_i creds _
        have authenticates :=
          (AuthSvc.authenticateProject_uses setup.env creds.user
            creds.pass).mono
              (fun _ => authenticationCalls_lookup) fun _ known => known
        refine authenticates.toExcept.bind fun result _ => ?_
        split
        · exact read_head_uses _ _ _ _
        · trivial
        · trivial
    · trivial
  · trivial

theorem pushOne_dry_uses
    (setup : Setup) (file : LocalFile) {script : Script}
    (answered : script.head = none) :
    (pushOne setup true file script).Uses lookupCalls fun _ => True := by
  unfold pushOne
  rw [answered]
  refine (handle_head_uses setup file).bind fun response _ => ?_
  split <;> trivial

/-- These calls change nothing but the caches of verified credentials. -/
theorem exec_lookup
    {env : Env} {config : Config} {request : Call} {before after : World}
    {reply : Except CoreError request.Reply}
    (looks : lookupCalls request)
    (answered : exec env config request before = some (reply, after)) :
    after =
      { before with
        projectCache := after.projectCache
        adminCache := after.adminCache } := by
  cases request with
  | db call =>
      have same : after = before := by
        cases call with
        | projectsGetByName name =>
            simp only [exec, DbCall.exec] at answered
            cases named : Projects.getByName before.db name <;>
              rw [named] at answered <;> cases answered <;> rfl
        | apiKeysFindActive | adminTokensFindActive | entriesFind =>
            cases answered
            rfl
        | _ => exact looks.elim
      rw [same]
  | projectCacheGet | projectCacheInsert | adminCacheGet | adminCacheInsert =>
      cases answered
      rfl
  | _ => exact looks.elim

/-- A dry run changes nothing else. -/
theorem dry_run_inert
    [DecidableEq ι] {setup : Setup} {files : ι → LocalFile}
    {scripts : ι → Script} {world : World} {pool : Tasks ι}
    (timely : ∀ thread, (scripts thread).Timely)
    (reached : Runs setup (launch setup true files scripts world) pool) :
    pool.world =
      { world with
        projectCache := pool.world.projectCache
        adminCache := pool.world.adminCache } := by
  obtain ⟨last, observed⟩ :=
    reached.observed (Program.within lookupCalls) fun _ => ()
  have uses (thread : ι) := pushOne_dry_uses setup (files thread)
    (timely thread).head
  refine @Pool.Reaches.keeps _ _ _ _ _ _ _ _ _ _ _ _ _ _
    (fun later => later =
      { world with
        projectCache := later.projectCache
        adminCache := later.adminCache }) ?_ uses rfl observed
  intro pool thread request reply after held _ looks answered
  rw [exec_lookup looks answered, held]

/-! ## From a state that is ready -/

section Ready

variable {setup : Setup} {auth : ProjectAuth} {files : ι → LocalFile}
variable {world : World}

/-- The entry whose digest a key holds. -/
theorem contentAt_eq_some
    {key : Key} {hash : String}
    (stored : (contentAt world.db key).map Prod.fst = some hash) :
    ∃ entry, world.db.entryAt key = some entry ∧ entry.blobHash = hash := by
  unfold contentAt at stored
  rw [Option.map_map, Option.map_eq_some_iff] at stored
  exact stored

namespace Ready

/-- A blob file with the digest of a file is a copy of it. -/
theorem copied
    (ready : Ready setup auth files world) {thread : ι} {hash : String}
    {content : Bytes}
    (present : world.fs.read (blobPath hash) = some content)
    (same : setup.env.sha256 content =
      setup.env.sha256 (files thread).content) :
    content = (files thread).content :=
  ready.free content (.inr ⟨hash, present⟩) _ (.inl ⟨thread, rfl⟩) same

/-- Contents are compared by their digests. -/
theorem identical_iff
    (ready : Ready setup auth files world) (thread : ι) :
    Identical auth (files thread) world ↔
      (contentAt world.db
        ⟨auth.projectId, .sstate, relative (files thread).name⟩).map Prod.fst =
          some (setup.env.sha256 (files thread).content) := by
  constructor
  · rintro ⟨entry, found, present⟩
    obtain ⟨content, read, digest⟩ :=
      ready.intact entry (Db.entryAt_eq_some.mp found).1
    rw [present, Option.some.injEq] at read
    rw [contentAt, found, read]
    simp [digest]
  · intro stored
    obtain ⟨entry, found, digest⟩ := contentAt_eq_some stored
    obtain ⟨content, present, named⟩ :=
      ready.intact entry (Db.entryAt_eq_some.mp found).1
    refine ⟨entry, found, ?_⟩
    rw [present, ready.copied present (named.trans digest)]

/-- The server knows the project of the key. -/
theorem registered
    (ready : Ready setup auth files world) :
    world.db.HasProject auth.projectId := by
  obtain ⟨project, key, named, -, -, same⟩ :=
    AuthSvc.verified_eq_ok ready.verified
  rw [same]
  exact ⟨project, (Credentials.getByName_eq_ok.mp named).1, rfl⟩

/-- What the requests of the push share. -/
def session (ready : Ready setup auth files world) : Session where
  setup := setup
  auth := auth
  contents := contents files world
  base := world.db
  registered := ready.registered

/-- What the requests for a file know at the start. -/
def record (ready : Ready setup auth files world) (thread : ι) : Record where
  custody := .idle
  key := ready.session.keyOf (files thread)
  content := (files thread).content
  before := contentAt world.db (ready.session.keyOf (files thread))
  wrote := false

/-- The digests of the entries and of the files. -/
def hashes (_ : Ready setup auth files world) : Set String :=
  {hash | (∃ entry ∈ world.db.entries.rows, entry.blobHash = hash) ∨
    ∃ thread, setup.env.sha256 (files thread).content = hash}

theorem accepted (ready : Ready setup auth files world) :
    ready.session.Accepted :=
  ⟨ready.parsed, ready.verified, ready.writes⟩

theorem about (ready : Ready setup auth files world) (thread : ι) :
    ready.session.About (files thread) (ready.record thread) :=
  ⟨rfl, rfl, .inl ⟨thread, rfl⟩⟩

/-- Different files have different keys. -/
theorem record_key_inj
    (ready : Ready setup auth files world) {thread other : ι}
    (same : (ready.record thread).key = (ready.record other).key) :
    thread = other := by
  have paths : relative (files thread).name = relative (files other).name :=
    congrArg Key.path same
  refine ready.distinct (intended_injective (files thread).named
    (files other).named (ready.fitting thread).fits (ready.fitting other).fits
    ?_)
  rw [intended, intended, paths]

theorem shared (ready : Ready setup auth files world) :
    ready.session.Shared ready.hashes world where
  projects := rfl
  apiKeys := rfl
  cached := ready.cached
  files := by
    intro hash content present
    refine ⟨.inr ⟨hash, present⟩, ?_⟩
    rintro (⟨entry, among, rfl⟩ | ⟨thread, rfl⟩)
    · obtain ⟨kept, read, named⟩ := ready.intact entry among
      rw [present, Option.some.injEq] at read
      rw [read]
      exact named
    · exact ready.unblocked thread content present
  kept := by
    intro entry among
    obtain ⟨content, present, -⟩ := ready.intact entry among
    exact ⟨.inl ⟨entry, among, rfl⟩, hasFile_iff.mpr ⟨content, present⟩⟩

theorem own (ready : Ready setup auth files world) (thread : ι) :
    ready.session.Own ready.hashes (ready.record thread) world where
  custody := owned_idle _ _
  owner := rfl
  known := .inr ⟨thread, rfl⟩
  holds := rfl

/-- What is known of a task that has returned. -/
def Known
    (ready : Ready setup auth files world) (dryRun : Bool) (thread : ι)
    (result : Except CliError Outcome) (last : Record) : Prop :=
  last.SameFile (ready.record thread) ∧
    result = .ok (ready.session.outcome (ready.record thread)) ∧
      (result = .ok .pushed → dryRun = false → last.wrote = true)

/-- The tasks succeed. -/
theorem succeeding
    (ready : Ready setup auth files world) (dryRun : Bool)
    {scripts : ι → Script} (timely : ∀ thread, (scripts thread).Timely) :
    Pool.Succeeding (Session.discipline ready.session ready.hashes)
      ready.session.credible (ready.Known dryRun)
      ⟨world, (launch setup dryRun files scripts world).threads,
        ready.record⟩ where
  shared := ready.shared
  own := ready.own
  pair _ _ different :=
    ⟨apart_idle _, fun same => different (ready.record_key_inj same)⟩
  succeeds thread := Session.pushOne_returns ready.accepted
    (ready.fitting thread) (ready.about thread) rfl dryRun
    (timely thread).head (timely thread).puts

/-- The tasks go on to succeed. -/
theorem goes_on
    [DecidableEq ι] (ready : Ready setup auth files world) {dryRun : Bool}
    {scripts : ι → Script} (timely : ∀ thread, (scripts thread).Timely)
    {pool : Tasks ι}
    (reached : Runs setup (launch setup dryRun files scripts world) pool) :
    ∃ records : ι → Record,
      Pool.Succeeding (Session.discipline ready.session ready.hashes)
        ready.session.credible (ready.Known dryRun)
        ⟨pool.world, pool.threads, records⟩ := by
  obtain ⟨records, observed⟩ :=
    reached.observed ready.session.protocol ready.record
  exact ⟨records, (ready.succeeding dryRun timely).reaches
    (Session.grants ready.session ready.hashes) observed⟩

/-- The server stays ready. -/
theorem later
    [DecidableEq ι] (ready : Ready setup auth files world) {dryRun : Bool}
    {scripts : ι → Script} (timely : ∀ thread, (scripts thread).Timely)
    {pool : Tasks ι}
    (reached : Runs setup (launch setup dryRun files scripts world) pool) :
    Ready setup auth files pool.world := by
  obtain ⟨records, goes⟩ := ready.goes_on timely reached
  have shared := goes.shared
  exact
    { fitting := ready.fitting
      distinct := ready.distinct
      parsed := ready.parsed
      verified := by
        have verified := ready.verified
        unfold AuthSvc.verified Projects.getByName
          ApiKeys.findActiveByLookup at verified ⊢
        rwa [shared.projects, shared.apiKeys]
      writes := ready.writes
      cached := shared.cached
      intact := by
        intro entry among
        obtain ⟨known, present⟩ := shared.kept entry among
        obtain ⟨content, read⟩ := hasFile_iff.mp present
        exact ⟨content, read, (shared.files _ _ read).2 known⟩
      unblocked := fun thread content read =>
        (shared.files _ _ read).2 (.inr ⟨thread, rfl⟩)
      free := by
        have listed : contents files pool.world ⊆ contents files world := by
          rintro content (⟨thread, same⟩ | ⟨hash, present⟩)
          · exact .inl ⟨thread, same⟩
          · exact (shared.files _ _ present).1
        exact fun first firstIn second secondIn =>
          ready.free first (listed firstIn) second (listed secondIn) }

/-- What a task returns. -/
theorem skips
    [DecidableEq ι] (ready : Ready setup auth files world) {dryRun : Bool}
    {scripts : ι → Script} (timely : ∀ thread, (scripts thread).Timely)
    {pool : Tasks ι}
    (reached : Runs setup (launch setup dryRun files scripts world) pool)
    {thread : ι} {result : Except CliError Outcome}
    (ended : pool.threads thread = .done result) :
    (result = .ok .skipped ∧ Identical auth (files thread) world) ∨
      (result = .ok .pushed ∧ ¬Identical auth (files thread) world) := by
  obtain ⟨records, goes⟩ := ready.goes_on timely reached
  obtain ⟨-, decided, -⟩ := goes.ended ended
  rw [ready.identical_iff thread, decided]
  unfold Session.outcome
  split
  · rename_i same
    exact .inl ⟨rfl, same⟩
  · rename_i different
    exact .inr ⟨rfl, different⟩

/-- After a real run the server has the contents of the files that are done. -/
theorem identical_later
    [DecidableEq ι] (ready : Ready setup auth files world)
    {scripts : ι → Script} (timely : ∀ thread, (scripts thread).Timely)
    {pool : Tasks ι}
    (reached : Runs setup (launch setup false files scripts world) pool)
    {thread : ι} {result : Except CliError Outcome}
    (ended : pool.threads thread = .done result) :
    Identical auth (files thread) pool.world := by
  obtain ⟨records, goes⟩ := ready.goes_on timely reached
  obtain ⟨same, decided, wrote⟩ := goes.ended ended
  have holds := (goes.own thread).holds
  rw [same.key, Record.holds, same.content, same.before] at holds
  rw [(ready.later timely reached).identical_iff thread]
  refine (congrArg (Option.map Prod.fst) holds).trans ?_
  split
  · rfl
  · rename_i unwritten
    unfold Session.outcome at decided
    split at decided
    · rename_i known
      exact known
    · exact absurd (wrote decided rfl) unwritten

/-- A file whose content the server has is served. -/
theorem served
    (ready : Ready setup auth files world) {thread : ι}
    (identical : Identical auth (files thread) world) :
    Served setup (files thread) world := by
  obtain ⟨entry, found, present⟩ := identical
  have named : auth.projectName = setup.project := ready.accepted.named
  have allowed : AuthSvc.authenticated setup.env setup.config world
      setup.project setup.apiKey = .ok auth := by
    unfold AuthSvc.authenticated
    split
    · rename_i cached hit
      obtain ⟨held, among, scope, lookup, -, rfl⟩ := VerifyCache.mem_of_get hit
      rw [ready.cached held among scope lookup]
    · exact ready.verified
  obtain ⟨cache, answered⟩ := @HeadAgreement.answer_eq setup.env setup.config
    ⟨some setup.authorization, .sstate, setup.project,
      relative (files thread).name⟩ world _ ready.parsed .get
  let reader : World := { world with projectCache := cache }
  have read := @run_read_hit setup.env setup.config reader auth .sstate _ _ _
    found present
  have routed : setup.handle (files thread) .get = _ :=
    ready.session.handle_eq (ready.fitting thread) .get rfl
  simp only [allowed] at answered
  rw [← named, read, named] at answered
  exact ⟨_, by rw [routed]; exact answered, rfl, rfl⟩

/-- No task waits for another one. -/
theorem answered
    (ready : Ready setup auth files world) {record : Record} {request : Call}
    (permitted : ready.session.permits record request) (now : World) :
    ∃ reply after, (exec setup.env setup.config).answers request now reply
      after := by
  cases request with
  | db call =>
      cases ran : call.exec setup.env now.now now.db with
      | ok result =>
          exact ⟨_, _, by
            simp only [Handler.answers, exec, ran]
            rfl⟩
      | error error =>
          exact ⟨_, _, by
            simp only [Handler.answers, exec, ran]
            rfl⟩
  | gcLock => exact permitted.elim
  | _ => exact ⟨_, _, rfl⟩

/-- Every task returns. -/
theorem returns
    [DecidableEq ι] (ready : Ready setup auth files world) {dryRun : Bool}
    {scripts : ι → Script} (timely : ∀ thread, (scripts thread).Timely)
    {thread : ι} {pools : Nat → Tasks ι}
    (run : RunsForever setup (launch setup dryRun files scripts world) thread
      pools) :
    ∃ moment result, (pools moment).threads thread = .done result := by
  refine run.returns_of_live fun moment => ?_
  obtain ⟨records, goes⟩ := ready.goes_on timely (run.reaches moment)
  exact goes.live (fun _ _ now permitted => ready.answered permitted now)
    thread

/-- A finished run counts a skipped file for each that the server has. -/
theorem returned_eq
    [DecidableEq ι] (ready : Ready setup auth files world) {dryRun : Bool}
    {scripts : ι → Script} (timely : ∀ thread, (scripts thread).Timely)
    {pool : Tasks ι}
    (reached : Runs setup (launch setup dryRun files scripts world) pool)
    (finished : Finished pool) (thread : ι) :
    returned (pool.threads thread) =
      some (ready.session.outcome (ready.record thread)) := by
  obtain ⟨records, goes⟩ := ready.goes_on timely reached
  obtain ⟨result, ended⟩ := finished thread
  obtain ⟨-, decided, -⟩ := goes.ended ended
  rw [ended, decided]
  rfl

end Ready

end Ready

/-- Whatever state the server is in, if it can take the files, a push of them
can be resumed. -/
theorem push_resumes
    [DecidableEq ι] [Fintype ι]
    {setup : Setup} {auth : ProjectAuth} {files : ι → LocalFile}
    {world : World} (ready : Ready setup auth files world) :
    Resumable setup auth files world where
  returns _ _ timely _ _ run := ready.returns timely run
  skips _ _ timely _ reached _ _ ended := ready.skips timely reached ended
  serves _ timely _ reached _ ended :=
    (ready.later timely reached).served
      (ready.identical_later timely reached ended)
  inert _ timely _ reached := dry_run_inert timely reached
  predicts _ _ timely dryTimely _ _ reached dryReached finished dryFinished
      outcome := by
    unfold count
    congr 1
    ext thread
    rw [Finset.mem_filter, Finset.mem_filter,
      ready.returned_eq timely reached finished,
      ready.returned_eq dryTimely dryReached dryFinished]
  continues _ _ _ timely laterTimely _ reached _ _ run :=
    (ready.later timely reached).returns laterTimely run
  repeats _ _ _ timely laterTimely _ _ reached finished again thread result
      ended := by
    obtain ⟨first, returned⟩ := finished thread
    have identical := ready.identical_later timely reached returned
    rcases (ready.later timely reached).skips laterTimely again ended with
      ⟨skipped, -⟩ | ⟨-, different⟩
    · exact skipped
    · exact absurd identical different

/-! ## A server with one of two files -/

namespace Demo

/-- The names of two files. -/
def left : FileName where
  name := "left"
  written := by decide
  notSingle := by decide
  notDouble := by decide
  noSlash := by decide +kernel
  noNul := by decide +kernel

def right : FileName where
  name := "right"
  written := by decide
  notSingle := by decide
  notDouble := by decide
  noSlash := by decide +kernel
  noNul := by decide +kernel

/-- A file that one read returns. -/
def short (name : FileName) (content : Bytes)
    (some : content ≠ []) (fits : content.length ≤ bufferSize) :
    LocalFile where
  name := [name]
  content := content
  reads := [content]
  named := by simp
  reading := by simp [some, fits]
  complete := by simp

def files : Fin 2 → LocalFile
  | 0 => short left [97] (by decide) (by decide)
  | 1 => short right [98] (by decide) (by decide)

/-- A server that knows one key and takes two bytes. -/
def setup : Setup where
  env :=
    { Credentials.codec with
      verifyArgon2 := fun secret phc =>
        .ok (decide (secret = "k" ∧ phc = "phc")) }
  config := Sample.config 1024
  uploadMaxBytes := 2
  capturesEmpty := true
  mount := []
  encodeBase64 := Credentials.encodeBase64
  project := "acme"
  apiKey := "k"

/-- The server with its project, the key and the first file. -/
def stocked : World :=
  (Program.run (exec setup.env setup.config) (do
    let _ ← transact (.projectsCreate "acme" none none)
    let _ ← transact (.apiKeysCreate 1 (lookupHash setup.env "k") "phc" .write
      none)
    Yocto.put setup.env setup.config acme .sstate "acme" "left" [.ok [97]])
      (World.initial 1000)).2

/-- One upload is answered 503 while its temporary file is written. -/
def flaky (_ : Fin 2) : Script :=
  ⟨none, [⟨503, 3, by decide⟩], fun _ => [], fun _ => 1⟩

theorem flaky_timely (thread : Fin 2) : (flaky thread).Timely :=
  ⟨rfl, (by decide : 1 < maxRetries)⟩

theorem fitting_short
    (name : FileName) {content : Bytes} (some : content ≠ [])
    (fits : content.length ≤ bufferSize)
    (small : content.length ≤ setup.uploadMaxBytes)
    (plain : ¬Percent.LooksEncoded (utf8 name.name))
    (ordinary : ∀ byte ∈ utf8 "acme" ++ utf8 name.name,
      byte ∉ [9, 10, 13, 35, 63, Url.backslash])
    (ending : ∀ byte ∈ (utf8 name.name).getLast?, 32 < byte) :
    setup.Fitting (short name content some fits) where
  fits :=
    { captured := .inr rfl
      notDots := by decide
      oneSegment := by decide +kernel
      ordinary := ordinary
      plain := by
        refine ⟨by decide +kernel, fun other among => ?_⟩
        obtain rfl : other = name := List.mem_singleton.mp among
        exact plain
      ending := ending
      single := by rintro ⟨⟩ }
  small := small

theorem files_fitting : ∀ thread, setup.Fitting (files thread)
  | 0 => fitting_short left (by decide) (by decide) (by decide)
      (by decide +kernel) (by decide +kernel) (by decide +kernel)
  | 1 => fitting_short right (by decide) (by decide) (by decide)
      (by decide +kernel) (by decide +kernel) (by decide +kernel)

theorem mem_of_read
    {fs : Fs} {path : FilePath} {content : Bytes}
    (present : fs.read path = some content) :
    content ∈ fs.rows.map File.content := by
  obtain ⟨file, found, rfl⟩ := Option.map_eq_some_iff.mp present
  exact List.mem_map_of_mem (List.mem_of_find?_eq_some found)

/-- The contents that are involved have known digests. -/
theorem stocked_contents :
    contents files stocked ⊆
      {content | content ∈ [[], [97], [98], [97, 98, 99]]} := by
  rintro content (⟨thread, rfl⟩ | ⟨hash, present⟩)
  · revert thread
    decide
  · have stored : ∀ content ∈ stocked.fs.rows.map File.content,
        content ∈ [[], [97], [98], [97, 98, 99]] := by
      decide +kernel
    exact stored content (mem_of_read present)

theorem stocked_ready : Ready setup acme files stocked where
  fitting := files_fitting
  distinct first second same := by
    have texts : relative (files first).name = relative (files second).name :=
      congrArg relative same
    clear same
    revert first second
    decide
  parsed := by decide +kernel
  verified := by decide +kernel
  writes := rfl
  cached := by
    have empty : stocked.projectCache = [] := by decide +kernel
    rw [empty]
    rintro cached ⟨⟩
  intact entry among := by
    have whole : ∀ entry ∈ stocked.db.entries.rows,
        (stocked.fs.read (blobPath entry.blobHash)).any (fun content =>
          setup.env.sha256 content = entry.blobHash) = true := by
      decide +kernel
    have held := whole entry among
    rw [Option.any_eq_true] at held
    obtain ⟨content, read, digest⟩ := held
    exact ⟨content, read, of_decide_eq_true digest⟩
  unblocked thread content present := by
    have named : ∀ thread, (stocked.fs.read
        (blobPath (setup.env.sha256 (files thread).content))).all
          (fun content => setup.env.sha256 content =
            setup.env.sha256 (files thread).content) = true := by
      decide +kernel
    have held := named thread
    rw [present] at held
    exact of_decide_eq_true held
  free first firstIn second secondIn same :=
    Sample.collisionFree first (stocked_contents firstIn) second
      (stocked_contents secondIn) same

/-- A script in which everything is answered. -/
def calm : Script := ⟨none, [], fun _ => [], fun _ => 0⟩

/-- The `HEAD` is answered 503 by a gateway. -/
def unanswered : Script := { calm with head := some ⟨503, 0, by decide⟩ }

/-- A file of three bytes. -/
def large : LocalFile := short right [97, 98, 99] (by decide) (by decide)

/-- The server with a file that no entry refers to, where the second file is
about to be put. -/
def blocked : World :=
  { stocked with
    fs := stocked.fs.write (blobPath (setup.env.sha256 [98])) [97] }

/-- What a client reads. -/
def payload : Effects.Outcome CoreError Response → Option Payload
  | .done response => some response.payload
  | _ => none

/-- A push that runs alone. -/
def pushAlone (dryRun : Bool) (file : LocalFile) (script : Script) :=
  (pushOne setup dryRun file script).run (exec setup.env setup.config)

end Demo

theorem returned_spec
    {program : App (Except CliError Outcome)} {outcome : Outcome}
    (known : returned program = some outcome) :
    program = .done (.ok outcome) := by
  unfold returned at known
  split at known
  · rw [Option.some.inj known]
  · cases known

open Demo in
/-- The first file is looked up, and then the second one is pushed. -/
theorem push_resumes_acme :
    ∃ pool, Runs setup (launch setup false files flaky stocked) pool ∧
      pool.threads 0 = .done (.ok .skipped) ∧
      pool.threads 1 = .done (.ok .pushed) ∧
      Identical acme (files 0) stocked ∧
      ¬Identical acme (files 1) stocked ∧
      Served setup (files 1) pool.world := by
  have ran : ((Pool.replay (Program.within fun _ => True)
      (exec setup.env setup.config) (fun _ _ _ => true)
      (List.replicate 5 0 ++ List.replicate 18 1)
      (launch setup false files flaky stocked)).any fun pool =>
        returned (pool.threads 0) = some .skipped ∧
          returned (pool.threads 1) = some .pushed) = true := by
    decide +kernel
  rw [Option.any_eq_true] at ran
  obtain ⟨pool, replayed, ended⟩ := ran
  obtain ⟨first, second⟩ := of_decide_eq_true ended
  have reached : Runs setup (launch setup false files flaky stocked) pool :=
    Pool.reaches_of_free_replay (fun _ _ _ _ => id) replayed
  have resumes : Resumable setup acme files stocked :=
    push_resumes stocked_ready
  have skips := resumes.skips false flaky flaky_timely pool reached
  refine ⟨pool, reached, returned_spec first, returned_spec second, ?_, ?_,
    resumes.serves flaky flaky_timely pool reached 1 (returned_spec second)⟩
  · rcases skips 0 _ (returned_spec first) with ⟨-, there⟩ | ⟨impossible, -⟩
    · exact there
    · cases impossible
  · rcases skips 1 _ (returned_spec second) with ⟨impossible, -⟩ | ⟨-, missing⟩
    · cases impossible
    · exact missing

open Demo in
/-- A `HEAD` that is answered 503 is not repeated, although the server has the
file; a dry run counts a file as pushed that is too large for the server; and an
upload leaves a file in place that has its digest as a name and another
content. -/
theorem push_limits :
    (Identical acme (files 0) stocked ∧
      (pushAlone false (files 0) unanswered stocked).1 =
        .done (.error (.headReturned 503))) ∧
    ((pushAlone true large calm stocked).1 = .done (.ok .pushed) ∧
      (pushAlone false large calm stocked).1 =
        .done (.error (.putReturned 413))) ∧
    ((pushAlone false (files 1) calm blocked).1 = .done (.ok .pushed) ∧
      ¬Served setup (files 1)
        (pushAlone false (files 1) calm blocked).2) := by
  have there : (stocked.db.entryAt ⟨1, .sstate, "left"⟩).any (fun entry =>
      stocked.fs.read (blobPath entry.blobHash) = some [97]) = true := by
    decide +kernel
  rw [Option.any_eq_true] at there
  obtain ⟨entry, found, present⟩ := there
  have answer : payload ((setup.handle (files 1) .get).run
      (exec setup.env setup.config)
      (pushAlone false (files 1) calm blocked).2).1 =
        some (.stream [97]) := by
    decide +kernel
  refine ⟨⟨⟨entry, found, of_decide_eq_true present⟩, by decide +kernel⟩,
    ⟨by decide +kernel, by decide +kernel⟩, by decide +kernel, ?_⟩
  rintro ⟨response, answered, -, served⟩
  rw [answered] at answer
  exact absurd (served.symm.trans (Option.some.inj answer)) (by decide)

end Push

end Marmotte
