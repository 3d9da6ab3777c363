import Marmotte.Concurrency.Requests
import Marmotte.Admin
import Marmotte.Effects.Failing
import Marmotte.Footprints
import Marmotte.Frames
import Marmotte.Sequential.Upload

/-!
# Mutating requests and failing statements

Every mutating handler commits its mutation in one transaction and then goes on
with statements of their own: the audit row, a counter, a query, a re-read.  A
statement that fails after a mutation that changed something leaves a request
that is answered with an error, has taken effect and has no audit row; nothing
else can go wrong.
-/

namespace Marmotte

open Effects Tables

namespace AllOrNothing

/-! ## The requests -/

/-- A request to a mutating endpoint.  The secret and the hash of a key or a
token are those that its handler draws. -/
inductive Request
  | put (request : PutRequest)
  | createProject (name : String) (quotaBytes ttlSeconds : Option Int)
  | updateProject
      (id : Int) (newName : Option String)
      (quotaBytes ttlSeconds : Option (Option Int))
  | deleteProject (id : Int)
  | createKey
      (id : Int) (secret phc : String) (role : Role) (label : Option String)
  | revokeKey (id kid : Int)
  | createToken (secret phc : String) (label : Option String)
  | revokeToken (id : Int)
  | deleteEntry (id eid : Int)
  | pin (id eid : Int)
  | unpin (id eid : Int)

/-- The request goes to the admin API. -/
def Request.isAdmin : Request → Bool
  | .put _ => false
  | _ => true

/-- The handler of a request, up to the status of its response. -/
def handler
    (env : Env) (config : Config) (auth : AdminAuth) : Request → App Nat
  | .put request => do
      let response ← Yocto.doPut env config request.auth request.kind
        request.project request.path request.body
      pure response.status
  | .createProject name quotaBytes ttlSeconds => do
      let _ ← Admin.createProject auth name quotaBytes ttlSeconds
      pure 201
  | .updateProject id newName quotaBytes ttlSeconds => do
      let _ ← Admin.updateProject auth id newName quotaBytes ttlSeconds
      pure 200
  | .deleteProject id => do
      Admin.deleteProject auth id
      pure 204
  | .createKey id secret phc role label => do
      let _ ← Admin.createKey env auth id secret phc role label
      pure 201
  | .revokeKey id kid => do
      Admin.revokeKey auth id kid
      pure 204
  | .createToken secret phc label => do
      let _ ← Admin.createToken env auth secret phc label
      pure 201
  | .revokeToken id => do
      Admin.revokeToken auth id
      pure 204
  | .deleteEntry id eid => do
      Admin.deleteEntry auth id eid
      pure 204
  | .pin id eid => do
      Admin.pin auth id eid
      pure 204
  | .unpin id eid => do
      Admin.unpin auth id eid
      pure 204

/-- The status of the response to a request. -/
def respond
    (env : Env) (config : Config) (auth : AdminAuth) (request : Request) :
    App Nat :=
  (handler env config auth request).catchError fun error =>
    pure error.intoResponse.status

/-- The call is a transaction. -/
def isTransaction : Call → Bool
  | .db _ => true
  | _ => false

/-- The runtime in which one transaction fails, the one that a countdown
reaches. -/
def unreliable (env : Env) (config : Config) :
    Handler Call Call.Reply CoreError (World × Option Nat) :=
  (exec env config).failing isTransaction (.database .unavailable)

/-! ## What a failed request leaves -/

/-- The tables that hold the state of the cache. -/
structure SameTables (before after : Db) : Prop where
  projects : after.projects = before.projects
  apiKeys : after.apiKeys = before.apiKeys
  adminTokens : after.adminTokens = before.adminTokens
  entries : after.entries = before.entries
  blobs : after.blobs = before.blobs

theorem SameTables.refl (db : Db) : SameTables db db :=
  ⟨rfl, rfl, rfl, rfl, rfl⟩

theorem SameTables.trans
    {before middle after : Db}
    (left : SameTables before middle) (right : SameTables middle after) :
    SameTables before after :=
  ⟨right.projects.trans left.projects, right.apiKeys.trans left.apiKeys,
    right.adminTokens.trans left.adminTokens,
    right.entries.trans left.entries, right.blobs.trans left.blobs⟩

theorem SameTables.symm
    {before after : Db} (same : SameTables before after) :
    SameTables after before :=
  ⟨same.projects.symm, same.apiKeys.symm, same.adminTokens.symm,
    same.entries.symm, same.blobs.symm⟩

/-- An error leaves the tables as they were, and an admin request that succeeds
or changes a table has exactly one audit row. -/
structure Kept
    (auth : AdminAuth) (request : Request) (before after : Db)
    (status : Nat) : Prop where
  undone : 400 ≤ status → SameTables before after
  audited : request.isAdmin = true →
    status < 400 ∨ ¬SameTables before after →
      ∃ row, row.actorToken = auth.tokenLabel ∧
        after.auditLog.rows = before.auditLog.rows ++ [row]

/-- The request is answered, and it is all or nothing. -/
def Atomic
    (env : Env) (config : Config) (auth : AdminAuth) (request : Request)
    (world : World) (fault : Option Nat) : Prop :=
  ∃ status last,
    (respond env config auth request).run (unreliable env config)
      (world, fault) = (.done status, last) ∧
    Kept auth request world.db last.1.db status

/-- The transaction in which a request changes the tables, if it is one that
gets so far. -/
def Request.mutation (env : Env) : Request → Option DbCall
  | .put request =>
      if request.auth.projectName = request.project ∧
          request.auth.role.allowsWrite = true ∧
          request.body.arrives = true then
        some (.entriesUpsert request.auth.projectId request.kind request.path
          (env.sha256 request.body.bytes) request.body.bytes.length)
      else none
  | .createProject name quotaBytes ttlSeconds =>
      some (.projectsCreate name quotaBytes ttlSeconds)
  | .updateProject id newName quotaBytes ttlSeconds =>
      some (.projectsUpdate id newName quotaBytes ttlSeconds)
  | .deleteProject id => some (.projectsDelete id)
  | .createKey id secret phc role label =>
      some (.apiKeysCreate id (lookupHash env secret) phc role label)
  | .revokeKey id kid => some (.apiKeysRevoke id kid)
  | .createToken secret phc label =>
      some (.adminTokensCreate (lookupHash env secret) phc label)
  | .revokeToken id => some (.adminTokensRevoke id)
  | .deleteEntry id eid => some (.entriesDelete id eid)
  | .pin id eid => some (.entriesSetPinned id eid true)
  | .unpin id eid => some (.entriesSetPinned id eid false)

/-- The number of statements before the mutation. -/
def Request.position : Request → Nat
  | .createKey .. => 1
  | _ => 0

/-- The number of statements after the mutation. -/
def Request.followUps : Request → Nat
  | .put _ => 2
  | .updateProject .. => 2
  | _ => 1

/-- The transaction commits and changes the tables. -/
def Changes (env : Env) (world : World) (call : DbCall) : Prop :=
  ∃ reply db, call.exec env world.now world.db = .ok (reply, db) ∧
    ¬SameTables world.db db

/-- The failing statement comes after a mutation that changes the tables. -/
def Harmful
    (env : Env) (request : Request) (world : World) (fault : Option Nat) :
    Prop :=
  ∃ call count, request.mutation env = some call ∧ fault = some count ∧
    request.position < count ∧ count ≤ request.position + request.followUps ∧
    Changes env world call

/-! ## One transaction after the other -/

section Runs

variable {env : Env} {config : Config} {world : World}
variable {call : DbCall} {countdown : Option Nat}

theorem run_struck (next : call.Reply → App α) :
    (transact call >>= next).run (unreliable env config) (world, some 0) =
      (.failed (.database .unavailable), (world, none)) :=
  Program.run_call (Program.failing_struck rfl) _

theorem run_commits
    {reply : call.Reply} {db : Db}
    (spared : countdown ≠ some 0)
    (ran : call.exec env world.now world.db = .ok (reply, db))
    (next : call.Reply → App α) :
    (transact call >>= next).run (unreliable env config) (world, countdown) =
      (next reply).run (unreliable env config)
        ({ world with db := db }, countdown.map Nat.pred) := by
  have answered : unreliable env config (.db call) (world, countdown) =
      some (.ok reply,
        ({ world with db := db }, countdown.map Nat.pred)) :=
    Program.failing_spared rfl spared (by simp only [exec, ran])
  exact Program.run_call answered _

theorem run_refused
    {error : CoreError}
    (spared : countdown ≠ some 0)
    (ran : call.exec env world.now world.db = .error error)
    (next : call.Reply → App α) :
    (transact call >>= next).run (unreliable env config) (world, countdown) =
      (.failed error, (world, countdown.map Nat.pred)) := by
  have answered : unreliable env config (.db call) (world, countdown) =
      some (.error error, (world, countdown.map Nat.pred)) :=
    Program.failing_spared rfl spared (by simp only [exec, ran])
  exact Program.run_call answered _

/-- The world changes as in a runtime in which any transaction may fail. -/
theorem unreliable_faulty
    {request : Call} {before after : World × Option Nat}
    {reply : Except CoreError request.Reply}
    (answered : unreliable env config request before = some (reply, after)) :
    Faulty env config request before.1 reply after.1 := by
  simp only [unreliable, Handler.failing] at answered
  split at answered
  · rename_i counted _
    cases request with
    | db call =>
        cases answered
        exact .dbFault call _
    | _ => cases counted
  · obtain ⟨answer, ran, same⟩ := Option.map_eq_some_iff.mp answered
    cases same
    exact .exact ran
  · obtain ⟨answer, ran, same⟩ := Option.map_eq_some_iff.mp answered
    cases same
    exact .exact ran

end Runs

/-! ## Audit rows -/

/-- Every audit row names the token of the request; the record counts them. -/
def auditing (auth : AdminAuth) :
    Protocol Call Call.Reply CoreError Nat where
  permits _ request :=
    match request with
    | .db (.audit _ actorToken _ _ _) => actorToken = auth.tokenLabel
    | _ => True
  advance record request reply :=
    match request, reply with
    | .db (.audit ..), .ok _ => record + 1
    | _, _ => record

/-- The audit log has grown by this many rows of the token. -/
def Grown (auth : AdminAuth) (base : Db) (count : Nat) (db : Db) : Prop :=
  ∃ rows, db.auditLog.rows = base.auditLog.rows ++ rows ∧
    rows.length = count ∧ ∀ row ∈ rows, row.actorToken = auth.tokenLabel

theorem grown_step
    {env : Env} {config : Config} {auth : AdminAuth} {base : Db}
    {count : Nat} {request : Call} {before after : World}
    {reply : Except CoreError request.Reply}
    (grown : Grown auth base count before.db)
    (permitted : (auditing auth).permits count request)
    (answered : Faulty env config request before reply after) :
    Grown auth base ((auditing auth).advance count request reply)
      after.db := by
  have kept (same : after.db.auditLog = before.db.auditLog) :
      Grown auth base count after.db := by
    rw [Grown, same]
    exact grown
  cases request with
  | db call =>
      rcases Faulty.db_cases answered with
        ⟨value, db, ran, rfl, rfl⟩ | ⟨_, rfl, rfl⟩
      · cases call with
        | audit timestamp actorToken action target detail =>
            cases ran
            obtain ⟨rows, appended, length, named⟩ := grown
            have token : actorToken = auth.tokenLabel := permitted
            refine ⟨rows ++ [⟨before.db.auditLog.last + 1, timestamp,
              actorToken, action, target, detail⟩], ?_, ?_, ?_⟩
            · rw [← List.append_assoc, ← appended]
              rfl
            · rw [List.length_append, length]
              rfl
            · intro row present
              rcases List.mem_append.mp present with old | new
              · exact named row old
              · rw [List.mem_singleton.mp new]
                exact token
        | _ => exact kept ((DbCall.exec_frame ran).auditLog
            (by simp [DbCall.writes]))
      · cases call <;> exact grown
  | _ => exact kept (congrArg Db.auditLog (Faulty.database (by simp) answered))

/-- A program that ends with its only audit row. -/
abbrev Audits (auth : AdminAuth) (program : App α) : Prop :=
  program.Follows (auditing auth) (fun _ count => count = 1)
    (fun _ count => count = 0) 0

theorem audits_audit
    (auth : AdminAuth) (action : String) (target : Option Int)
    (detail : Option AuditDetail) :
    Audits auth (Admin.audit auth action target detail) :=
  Program.follows_perform_next trivial
    (fun _ => Program.follows_perform rfl (fun _ => rfl) fun _ => rfl)
    fun _ => rfl

/-- The handler of an admin request writes its audit row last. -/
theorem handler_audits
    (env : Env) (config : Config) (auth : AdminAuth) {request : Request}
    (admin : request.isAdmin = true) :
    (handler env config auth request).Follows (auditing auth)
      (fun status count => status < 400 ∧ count = 1)
      (fun _ count => count = 0) 0 := by
  have answers {α : Type} {program : App α} {status : Nat}
      (success : status < 400) (audits : Audits auth program) :
      (program >>= fun _ => pure status).Follows (auditing auth)
        (fun status count => status < 400 ∧ count = 1)
        (fun _ count => count = 0) 0 :=
    audits.bind fun _ _ same => ⟨success, same⟩
  have returns {α : Type} (value : α) (action : String)
      (target : Option Int) (detail : Option AuditDetail) :
      Audits auth (Admin.audit auth action target detail >>= fun _ =>
        pure value) :=
    (audits_audit auth action target detail).bind fun _ _ same => same
  cases request with
  | put request => cases admin
  | createProject name quotaBytes ttlSeconds =>
      exact answers (by decide) (Program.follows_perform_next trivial
        (fun p => returns p _ _ _) fun _ => rfl)
  | updateProject id newName quotaBytes ttlSeconds =>
      exact answers (by decide) (Program.follows_perform_next trivial
        (fun _ => Program.follows_perform_next trivial
          (fun p => returns p _ _ _) fun _ => rfl) fun _ => rfl)
  | createKey id secret phc role label =>
      exact answers (by decide) (Program.follows_perform_next trivial
        (fun _ => Program.follows_perform_next trivial
          (fun key => returns key _ _ _) fun _ => rfl) fun _ => rfl)
  | createToken secret phc label =>
      exact answers (by decide) (Program.follows_perform_next trivial
        (fun t => returns t _ _ _) fun _ => rfl)
  | _ =>
      exact answers (by decide) (Program.follows_perform_next trivial
        (fun _ => audits_audit auth _ _ _) fun _ => rfl)

/-! ## The statements after a mutation -/

/-- The countdown does not reach the next statements. -/
def Spares (statements : Nat) (countdown : Option Nat) : Prop :=
  ∀ count, countdown = some count → statements ≤ count

/-- A program of so many statements: it fails where one of them is struck, and
else it succeeds exactly in the worlds that are fine. -/
structure Closing
    (env : Env) (config : Config) (statements : Nat) (program : App Nat)
    (fine : World → Prop) : Prop where
  struck : ∀ world count, count < statements → ∃ error last,
    program.run (unreliable env config) (world, some count) =
      (.failed error, last)
  spared : ∀ world countdown, Spares statements countdown → fine world →
    ∃ status last,
      program.run (unreliable env config) (world, countdown) =
        (.done status, last)
  refused : ∀ world countdown, Spares statements countdown → ¬fine world →
    ∃ error last,
      program.run (unreliable env config) (world, countdown) =
        (.failed error, last)

section Closing

variable {env : Env} {config : Config} {call : DbCall}
variable {next : call.Reply → App Nat} {statements : Nat}
variable {fine : World → Prop}

theorem closing_done (status : Nat) :
    Closing env config 0 (.done status) fun _ => True where
  struck _ _ impossible := absurd impossible (Nat.not_lt_zero _)
  spared _ _ _ _ := ⟨_, _, rfl⟩
  refused _ _ _ impossible := absurd trivial impossible

theorem Closing.congr
    {program : App Nat} {other : World → Prop}
    (closing : Closing env config statements program fine)
    (same : ∀ world, fine world ↔ other world) :
    Closing env config statements program other where
  struck := closing.struck
  spared world countdown spares fit :=
    closing.spared world countdown spares ((same world).mpr fit)
  refused world countdown spares unfit :=
    closing.refused world countdown spares (mt (same world).mp unfit)

/-- A look at the clock in front. -/
theorem Closing.now
    {next : Int → App Nat}
    (closing : ∀ now, Closing env config statements (next now) fine) :
    Closing env config statements (Program.perform Call.now >>= next)
      fine where
  struck world := (closing world.now).struck world
  spared world := (closing world.now).spared world
  refused world := (closing world.now).refused world

/-- One more statement in front. -/
theorem Closing.transact
    (closing : ∀ reply, Closing env config statements (next reply) fine) :
    Closing env config (statements + 1) (transact call >>= next)
      fun world => ∃ reply db,
        call.exec env world.now world.db = .ok (reply, db) ∧
          fine { world with db := db } := by
  have passes {countdown : Option Nat}
      (spares : Spares (statements + 1) countdown) :
      countdown ≠ some 0 ∧ Spares statements (countdown.map Nat.pred) := by
    refine ⟨fun struck => absurd (spares 0 struck) (by omega), ?_⟩
    intro count reached
    obtain ⟨before, same, rfl⟩ := Option.map_eq_some_iff.mp reached
    have later := spares before same
    simp only [Nat.pred_eq_sub_one]
    omega
  constructor
  · intro world count early
    cases count with
    | zero => exact ⟨_, _, run_struck next⟩
    | succ count =>
        have spared : some (count + 1) ≠ some 0 := by simp
        cases ran : call.exec env world.now world.db with
        | error error => exact ⟨_, _, run_refused spared ran next⟩
        | ok answer =>
            rw [run_commits spared ran next]
            exact (closing answer.1).struck _ count (by omega)
  · rintro world countdown spares ⟨reply, db, ran, still⟩
    rw [run_commits (passes spares).1 ran next]
    exact (closing reply).spared _ _ (passes spares).2 still
  · intro world countdown spares notFine
    cases ran : call.exec env world.now world.db with
    | error error =>
        exact ⟨_, _, run_refused (passes spares).1 ran next⟩
    | ok answer =>
        rw [run_commits (passes spares).1 ran next]
        exact (closing answer.1).refused _ _ (passes spares).2
          fun still => notFine ⟨_, _, ran, still⟩

end Closing

/-- The calls that leave the tables of the cache alone. -/
def quietCalls : Call → Prop
  | .db call => call.writes ⊆ [.statsCounters, .auditLog]
  | _ => True

theorem sameTables_of_frame
    {writes : List TableName} {before after : Db}
    (frame : Db.Frame writes before after)
    (contained : writes ⊆ [.statsCounters, .auditLog]) :
    SameTables before after := by
  have wide := frame.mono contained
  exact ⟨wide.projects (by simp), wide.apiKeys (by simp),
    wide.adminTokens (by simp), wide.entries (by simp), wide.blobs (by simp)⟩

theorem sameTables_quiet
    {env : Env} {config : Config} {request : Call} {before after : World}
    {reply : Except CoreError request.Reply}
    (quiet : quietCalls request)
    (answered : Faulty env config request before reply after) :
    SameTables before.db after.db := by
  rcases Faulty.commits answered with same | ⟨call, value, rfl, ran⟩
  · rw [same]
    exact .refl _
  · exact sameTables_of_frame (DbCall.exec_frame ran) quiet

theorem run_quiet
    {env : Env} {config : Config} {program : App α} {post : α → Prop}
    {before last : World × Option Nat} {outcome : Outcome CoreError α}
    (uses : program.Uses quietCalls post)
    (ran : program.run (unreliable env config) before = (outcome, last)) :
    SameTables before.1.db last.1.db ∧
      ∀ value, outcome = .done value → post value := by
  have kept : ∀ (record : Unit) request world reply next,
      SameTables before.1.db world.1.db → quietCalls request →
      unreliable env config request world = some (reply, next) →
      SameTables before.1.db next.1.db :=
    fun _ _ _ _ _ same quiet answered =>
      same.trans (sameTables_quiet quiet (unreliable_faulty answered))
  obtain ⟨_, same, returned, -⟩ :=
    Program.Follows.run_keeps kept uses (.refl _) ran
  exact ⟨same, returned⟩

/-! ## How a handler ends -/

/-- A handler returns with a success, or it fails; it has changed the tables and
failed exactly in the case that is harmful. -/
def Settles
    (env : Env) (config : Config) (program : App Nat) (world : World)
    (fault : Option Nat) (harmful : Prop) : Prop :=
  ∃ last,
    (∃ status, program.run (unreliable env config) (world, fault) =
      (.done status, last) ∧ status < 400 ∧ ¬harmful) ∨
    (∃ error, program.run (unreliable env config) (world, fault) =
      (.failed error, last) ∧ (harmful ↔ ¬SameTables world.db last.1.db))

/-- The failing statement is one of those after the mutation. -/
def Strikes (position followUps : Nat) (fault : Option Nat) : Prop :=
  ∃ count, fault = some count ∧ position < count ∧
    count ≤ position + followUps

theorem harmful_iff
    {env : Env} {request : Request} {world : World} {fault : Option Nat}
    {call : DbCall} (mutates : request.mutation env = some call) :
    Harmful env request world fault ↔
      Strikes request.position request.followUps fault ∧
        Changes env world call := by
  constructor
  · rintro ⟨other, count, same, reached, late, early, changes⟩
    rw [mutates] at same
    cases same
    exact ⟨⟨count, reached, late, early⟩, changes⟩
  · rintro ⟨⟨count, reached, late, early⟩, changes⟩
    exact ⟨call, count, mutates, reached, late, early, changes⟩

section Settling

variable {env : Env} {config : Config} {world : World} {fault : Option Nat}

/-- A handler that fails before it has changed anything. -/
theorem settles_of_refused
    {program : App Nat} {error : CoreError} {last : World × Option Nat}
    {harmful : Prop}
    (ran : program.run (unreliable env config) (world, fault) =
      (.failed error, last))
    (same : SameTables world.db last.1.db) (harmless : ¬harmful) :
    Settles env config program world fault harmful :=
  ⟨last, .inr ⟨error, ran,
    fun harm => absurd harm harmless, fun changed => absurd same changed⟩⟩

/-- Statements in front of a handler that leave the tables alone. -/
theorem Settles.after
    {program rest : App Nat} {later : World} {countdown : Option Nat}
    {harmful harmfulLater : Prop}
    (settles : Settles env config rest later countdown harmfulLater)
    (ran : program.run (unreliable env config) (world, fault) =
      rest.run (unreliable env config) (later, countdown))
    (same : later.db = world.db) (agree : harmful ↔ harmfulLater) :
    Settles env config program world fault harmful := by
  rw [Settles, ran, agree, ← same]
  exact settles

/-- After a mutation that commits: if it changed the tables, then the quiet
statements that follow succeed unless one of them is struck. -/
theorem settles_committed
    {call : DbCall} {reply : call.Reply} {db : Db}
    {next : call.Reply → App Nat} {statements : Nat} {fine : World → Prop}
    (unstruck : fault ≠ some 0)
    (ran : call.exec env world.now world.db = .ok (reply, db))
    (closing : Closing env config statements (next reply) fine)
    (quiet : (next reply).Uses quietCalls fun status => status < 400)
    (goes : ¬SameTables world.db db → fine { world with db := db }) :
    Settles env config (transact call >>= next) world fault
      (Strikes 0 statements fault ∧ Changes env world call) := by
  have goesOn := @run_commits env config world call fault Nat reply db
    unstruck ran next
  have changes : Changes env world call ↔ ¬SameTables world.db db := by
    constructor
    · rintro ⟨_, _, committed, changed⟩
      rw [ran] at committed
      cases committed
      exact changed
    · exact fun changed => ⟨reply, db, ran, changed⟩
  have unmoved {outcome : Outcome CoreError Nat} {last : World × Option Nat}
      (ends : (next reply).run (unreliable env config)
        ({ world with db := db }, fault.map Nat.pred) = (outcome, last)) :
      Changes env world call ↔ ¬SameTables world.db last.1.db := by
    have same := (run_quiet quiet ends).1
    rw [changes, not_iff_not]
    exact ⟨fun kept => kept.trans same, fun kept => kept.trans same.symm⟩
  by_cases strikes : Strikes 0 statements fault
  · have late := strikes
    obtain ⟨count, rfl, positive, early⟩ := late
    obtain ⟨error, last, ends⟩ := closing.struck
      { world with db := db } (count - 1) (by omega)
    refine ⟨last, .inr ⟨error, goesOn.trans ends, ?_⟩⟩
    rw [← unmoved ends]
    exact and_iff_right strikes
  · have spares : Spares statements (fault.map Nat.pred) := by
      intro left reached
      obtain ⟨count, rfl, rfl⟩ := Option.map_eq_some_iff.mp reached
      have positive : count ≠ 0 := fun zero => unstruck (by rw [zero])
      by_contra early
      simp only [Nat.pred_eq_sub_one] at early
      exact strikes ⟨count, rfl, by omega, by omega⟩
    have harmless : ¬(Strikes 0 statements fault ∧
        Changes env world call) := fun harm => strikes harm.1
    by_cases fit : fine { world with db := db }
    · obtain ⟨status, last, ends⟩ := closing.spared _ _ spares fit
      exact ⟨last, .inl ⟨status, goesOn.trans ends,
        (run_quiet quiet ends).2 _ rfl, harmless⟩⟩
    · obtain ⟨error, last, ends⟩ := closing.refused _ _ spares fit
      refine settles_of_refused (goesOn.trans ends) ?_ harmless
      by_contra changed
      exact fit (goes (changes.mp ((unmoved ends).mpr changed)))

/-- A mutation followed by quiet statements. -/
theorem settles_mutation
    {call : DbCall} {next : call.Reply → App Nat} {statements : Nat}
    {fine : World → Prop}
    (closing : ∀ reply, Closing env config statements (next reply) fine)
    (quiet : ∀ reply, (next reply).Uses quietCalls fun status => status < 400)
    (goes : ∀ reply db, call.exec env world.now world.db = .ok (reply, db) →
      ¬SameTables world.db db → fine { world with db := db }) :
    Settles env config (transact call >>= next) world fault
      (Strikes 0 statements fault ∧ Changes env world call) := by
  by_cases struck : fault = some 0
  · subst struck
    refine settles_of_refused (run_struck next) (.refl _) ?_
    rintro ⟨⟨count, reached, late, -⟩, -⟩
    cases reached
    exact Nat.lt_irrefl 0 late
  · cases ran : call.exec env world.now world.db with
    | error error =>
        refine settles_of_refused (run_refused struck ran next) (.refl _) ?_
        rintro ⟨-, reply, db, committed, -⟩
        rw [ran] at committed
        cases committed
    | ok answer =>
        exact settles_committed struck ran (closing _) (quiet _)
          (goes _ _ ran)

end Settling

/-! ## The handlers -/

section Handlers

variable {env : Env} {config : Config} {auth : AdminAuth} {world : World}
variable {fault : Option Nat}

/-- The audit row and the status. -/
abbrev audited
    (auth : AdminAuth) (action : String) (target : Option Int)
    (detail : Option AuditDetail) (status : Nat) : App Nat :=
  Admin.audit auth action target detail >>= fun _ => .done status

theorem closing_audited
    (action : String) (target : Option Int) (detail : Option AuditDetail)
    (status : Nat) :
    Closing env config 1 (audited auth action target detail status)
      fun _ => True := by
  unfold audited Admin.audit Stats.audit
  rw [Program.bind_assoc]
  refine Closing.now fun now => ?_
  refine (Closing.transact fun _ => closing_done status).congr fun world => ?_
  exact iff_true_intro ⟨(), _, rfl, trivial⟩

theorem audited_quiet
    (action : String) (target : Option Int) (detail : Option AuditDetail)
    {status : Nat} (success : status < 400) :
    (audited auth action target detail status).Uses quietCalls
      fun status => status < 400 := by
  unfold audited Admin.audit Stats.audit
  rw [Program.bind_assoc]
  exact Program.uses_perform_then trivial fun _ =>
    Program.uses_perform_then (by simp [quietCalls, DbCall.writes])
      fun _ => success

/-- A mutation with its audit row. -/
theorem settles_audited
    (call : DbCall) (action : String) (target : call.Reply → Option Int)
    (detail : call.Reply → Option AuditDetail) {status : Nat}
    (success : status < 400) :
    Settles env config
      (transact call >>= fun reply =>
        audited auth action (target reply) (detail reply) status)
      world fault (Strikes 0 1 fault ∧ Changes env world call) :=
  settles_mutation (fun _ => closing_audited _ _ _ _)
    (fun _ => audited_quiet _ _ _ success) fun _ _ _ _ => trivial

theorem assignColumn_missing
    {id : Int} {before after : Db} {value : Option β}
    {assign : β → Project → Project} {keepsId} {onError}
    (ran : Projects.assignColumn before id value assign keepsId onError =
      .ok after)
    (missing : ∀ project ∈ before.projects.rows, project.id ≠ id) :
    after.projects = before.projects := by
  unfold Projects.assignColumn at ran
  split at ran
  · rename_i value
    cases updated : before.updateProject id (assign value) (keepsId value) with
    | error error =>
        rw [updated] at ran
        cases ran
    | ok middle =>
        rw [updated] at ran
        cases ran
        obtain ⟨-, -, last, rows⟩ := Db.updateProject_ok updated
        refine Series.ext ?_ last
        rw [rows, List.map_congr_left fun project present =>
          if_neg (missing project present), List.map_id']
  · cases ran
    rfl

/-- An update of a project that does not exist changes nothing. -/
theorem update_missing
    {id : Int} {newName : Option String}
    {quotaBytes ttlSeconds : Option (Option Int)} {before after : Db}
    {reply : Unit}
    (ran : Projects.update before id newName quotaBytes ttlSeconds =
      .ok (reply, after))
    (missing : ∀ project ∈ before.projects.rows, project.id ≠ id) :
    after.projects = before.projects := by
  simp only [Projects.update, bind, Except.bind] at ran
  split at ran
  · cases ran
  · rename_i first named
    have sameFirst := assignColumn_missing named missing
    rw [← sameFirst] at missing
    split at ran
    · cases ran
    · rename_i second limited
      have sameSecond := assignColumn_missing limited missing
      rw [← sameSecond] at missing
      split at ran
      · cases ran
      · rename_i third aged
        cases ran
        rw [assignColumn_missing aged missing, sameSecond, sameFirst]

theorem get_of_present
    {db : Db} {project : Project} (present : project ∈ db.projects.rows) :
    ∃ found, Projects.get db project.id = .ok found := by
  unfold Projects.get
  split
  · exact ⟨_, rfl⟩
  · rename_i missing
    have differs := Table.find?_eq_none.mp missing project present
    simp at differs

theorem get_of_update
    {id : Int} {newName : Option String}
    {quotaBytes ttlSeconds : Option (Option Int)} {before after : Db}
    {reply : Unit}
    (ran : Projects.update before id newName quotaBytes ttlSeconds =
      .ok (reply, after))
    (changed : ¬SameTables before after) :
    ∃ project, Projects.get after id = .ok project := by
  have frame := Projects.frame_update ran
  obtain ⟨change, updated⟩ := Projects.updated ran
  by_contra unfound
  have missing : ∀ project ∈ before.projects.rows, project.id ≠ id := by
    rintro project present rfl
    have kept : change project ∈ after.projects.rows := by
      rw [updated.rows]
      exact List.mem_map_of_mem present
    have found := get_of_present kept
    rw [updated.keepsId] at found
    exact unfound found
  exact changed ⟨update_missing ran missing, frame.apiKeys (by simp),
    frame.adminTokens (by simp), frame.entries (by simp),
    frame.blobs (by simp)⟩

theorem settles_updateProject
    (id : Int) (newName : Option String)
    (quotaBytes ttlSeconds : Option (Option Int)) :
    Settles env config
      (handler env config auth
        (.updateProject id newName quotaBytes ttlSeconds)) world fault
      (Strikes 0 2 fault ∧
        Changes env world (.projectsUpdate id newName quotaBytes ttlSeconds))
    := by
  simp only [handler, Admin.updateProject, Program.bind_assoc]
  have closing :
      Closing env config 2
        (transact (.projectsGet id) >>= fun _ =>
          audited auth "project.update" (some id) none 200)
        fun world => ∃ project, Projects.get world.db id = .ok project := by
    refine (Closing.transact fun _ =>
      closing_audited _ _ _ _).congr fun world => ?_
    constructor
    · rintro ⟨project, _, found, -⟩
      simp only [DbCall.exec, Except.map] at found
      split at found
      · cases found
      · exact ⟨_, by assumption⟩
    · rintro ⟨project, found⟩
      refine ⟨project, world.db, ?_, trivial⟩
      simp only [DbCall.exec, found, Except.map]
  refine settles_mutation (fun _ => closing) (fun _ => ?_) ?_
  · exact Program.uses_perform_then (by simp [quietCalls, DbCall.writes])
      fun _ => audited_quiet _ _ _ (by decide)
  · intro reply db ran changed
    exact get_of_update ran changed

/-- A key cannot be created for a project that does not exist. -/
theorem createKey_unowned
    {id : Int} {secret phc : String} {role : Role} {label : Option String}
    {error : CoreError} (unfound : Projects.get world.db id = .error error) :
    ¬Changes env world
      (.apiKeysCreate id (lookupHash env secret) phc role label) := by
  have unowned : ¬world.db.HasProject id := by
    rintro ⟨project, present, rfl⟩
    obtain ⟨_, found⟩ := get_of_present present
    rw [unfound] at found
    cases found
  rintro ⟨reply, db, ran, -⟩
  simp only [DbCall.exec, ApiKeys.create, Db.insertApiKey, dif_neg unowned,
    bind, Except.bind] at ran
  cases ran

theorem settles_createKey
    (id : Int) (secret phc : String) (role : Role) (label : Option String) :
    Settles env config
      (handler env config auth (.createKey id secret phc role label)) world
      fault
      (Strikes 1 1 fault ∧ Changes env world
        (.apiKeysCreate id (lookupHash env secret) phc role label)) := by
  simp only [handler, Admin.createKey, Program.bind_assoc]
  by_cases struck : fault = some 0
  · subst struck
    refine settles_of_refused (run_struck _) (.refl _) ?_
    rintro ⟨⟨count, reached, late, -⟩, -⟩
    cases reached
    omega
  · cases found : Projects.get world.db id with
    | error error =>
        have ran : DbCall.exec env world.now (.projectsGet id) world.db =
            .error error := by
          simp only [DbCall.exec, found, Except.map]
        exact settles_of_refused (run_refused struck ran _) (.refl _)
          fun harm => createKey_unowned found harm.2
    | ok project =>
        have ran : DbCall.exec env world.now (.projectsGet id) world.db =
            .ok (project, world.db) := by
          simp only [DbCall.exec, found, Except.map]
        have earlier : Strikes 1 1 fault ↔ Strikes 0 1 (fault.map Nat.pred) := by
          constructor
          · rintro ⟨count, rfl, late, early⟩
            exact ⟨count - 1, rfl, by omega, by omega⟩
          · rintro ⟨left, reached, late, early⟩
            obtain ⟨count, rfl, rfl⟩ := Option.map_eq_some_iff.mp reached
            simp only [Nat.pred_eq_sub_one] at late early
            exact ⟨count, rfl, by omega, by omega⟩
        have settles := @settles_audited env config auth world
          (fault.map Nat.pred)
          (.apiKeysCreate id (lookupHash env secret) phc role label)
          "key.create" (fun key => some key.id)
          (fun _ => some (.role role)) 201 (by decide)
        exact settles.after (run_commits struck ran _) rfl
          (and_congr_left' earlier)

/-! ### Uploads -/

/-- The response to an upload, and a sweep where the quota is nearly reached. -/
abbrev triggered
    (config : Config) (total : Int) (response : Response) : App Response :=
  if mulU64 config.gc.globalQuotaBytes config.gc.triggerThresholdPct / 100 <
      total.toNat then do
    Program.perform (Call.spawn .gcRun)
    .done response
  else .done response

/-- What `do_put` does after its mutation. -/
abbrev recordUpload
    (config : Config) (projectId size : Int) (response : Response) :
    App Nat := do
  transact (.statsBump (some projectId) "put" 1 size)
  let total ← transact .blobsTotalSize
  let response ← triggered config total response
  .done response.status

theorem triggered_closing (total : Int) (response : Response) :
    Closing env config 0
      (triggered config total response >>= fun response =>
        .done response.status) fun _ => True := by
  unfold triggered
  split
  · exact
      { struck := fun _ _ impossible => absurd impossible (Nat.not_lt_zero _)
        spared := fun _ _ _ _ => ⟨_, _, rfl⟩
        refused := fun _ _ _ impossible => absurd trivial impossible }
  · exact closing_done response.status

theorem triggered_quiet
    (total : Int) {response : Response} (success : response.status < 400) :
    (triggered config total response >>= fun response =>
      (.done response.status : App Nat)).Uses quietCalls
        fun status => status < 400 := by
  unfold triggered
  split
  · rw [Program.bind_assoc]
    exact Program.uses_perform_then trivial fun _ => success
  · exact success

theorem recordUpload_closing
    (projectId size : Int) (response : Response) :
    Closing env config 2 (recordUpload config projectId size response)
      fun world => world.db.HasProject projectId := by
  have totalled :=
    @Closing.transact env config .blobsTotalSize _ 0 _ fun total =>
      triggered_closing total response
  refine (Closing.transact fun _ => totalled).congr fun world => ?_
  constructor
  · rintro ⟨_, db, ran, -⟩
    by_contra unowned
    have refused : ¬∀ id, some projectId = some id →
        world.db.HasProject id := fun owner => unowned (owner _ rfl)
    simp only [DbCall.exec, Stats.bump, Db.upsertCounter, dif_neg refused,
      bind, Except.bind] at ran
    cases ran
  · intro owned
    obtain ⟨db, ran⟩ := statsBump_ok world.now "put" 1 size owned
    exact ⟨(), db, ran, _, _, rfl, trivial⟩

theorem recordUpload_quiet
    (projectId size : Int) {response : Response}
    (success : response.status < 400) :
    (recordUpload config projectId size response).Uses quietCalls
      fun status => status < 400 :=
  Program.uses_perform_then (by simp [quietCalls, DbCall.writes]) fun _ =>
    Program.uses_perform_then (by simp [quietCalls, DbCall.writes]) fun total =>
      triggered_quiet total success

theorem run_unreliable_writeStreamed
    {body : Body} {later : World} {outcome : Outcome CoreError Written}
    (ran : (LocalFsStore.writeStreamed env body).run (exec env config) world =
      (outcome, later)) :
    (LocalFsStore.writeStreamed env body).run (unreliable env config)
      (world, fault) = (outcome, (later, fault)) := by
  have uncounted : ∀ request, uploadCalls request →
      isTransaction request = false := by
    intro request used
    cases request with
    | db call => cases used
    | _ => rfl
  have uses := (LocalFsStore.writeStreamed_uses env body).mono uncounted
    fun _ => id
  rw [unreliable, Program.run_failing_of_uses uses, ran]

theorem settles_put (request : PutRequest) :
    Settles env config (handler env config auth (.put request)) world fault
      (Harmful env (.put request) world fault) := by
  have refused (other : ¬(request.auth.projectName = request.project ∧
      request.auth.role.allowsWrite = true ∧
        request.body.arrives = true)) :
      ¬Harmful env (.put request) world fault := by
    rintro ⟨call, _, mutates, -⟩
    rw [Request.mutation, if_neg other] at mutates
    cases mutates
  simp only [handler, Yocto.doPut, Yocto.ensureProject, Program.bind_assoc]
  by_cases named : request.auth.projectName ≠ request.project
  · rw [if_pos named]
    exact settles_of_refused rfl (.refl _) (refused fun all => named all.1)
  rw [if_neg named]
  cases role : request.auth.role.allowsWrite with
  | false =>
      refine settles_of_refused rfl (.refl _) (refused fun all => ?_)
      rw [role] at all
      cases all.2.1
  | true =>
      simp only [Bool.not_true, Bool.false_eq_true, if_false,
        Program.pure_eq, Program.done_bind, Program.bind_assoc]
      cases arrives : request.body.arrives with
      | false =>
          obtain ⟨error, later, ran⟩ :=
            run_writeStreamed_failed env config world arrives
          have same : SameTables world.db later.db := by
            rw [(run_writeStreamed ran).1]
            exact .refl _
          have fails := @run_unreliable_writeStreamed env config world fault
            _ _ _ ran
          refine settles_of_refused
            ((Program.run_bind _ _ _ _).trans (by rw [fails])) same
            (refused fun all => ?_)
          rw [arrives] at all
          cases all.2.2
      | true =>
          obtain ⟨written, later, ran⟩ :=
            run_writeStreamed_done env config world arrives
          obtain ⟨same, -, clock, computed⟩ := run_writeStreamed ran
          cases computed written rfl
          have goesOn := @run_unreliable_writeStreamed env config world fault
            _ _ _ ran
          have mutates : (Request.put request).mutation env = some
              (.entriesUpsert request.auth.projectId request.kind request.path
                (env.sha256 request.body.bytes) request.body.bytes.length) :=
            if_pos ⟨not_ne_iff.mp named, role, arrives⟩
          have agree : Harmful env (.put request) world fault ↔
              Strikes 0 2 fault ∧ Changes env later (.entriesUpsert
                request.auth.projectId request.kind request.path
                (env.sha256 request.body.bytes)
                request.body.bytes.length) := by
            rw [harmful_iff mutates, Changes, Changes, same, clock]
            rfl
          refine Settles.after ?_ (Program.run_bind_done goesOn _) same agree
          let response : Response :=
            ⟨201, [("etag", quoted (env.sha256 request.body.bytes))], .empty⟩
          exact settles_mutation
            (fun _ => recordUpload_closing request.auth.projectId
              request.body.bytes.length response)
            (fun _ => recordUpload_quiet _ _ (by simp))
            fun _ _ upserts _ =>
              have upserted := Entries.upserted upserts
              upserted.2.tenants.hasProject.mpr upserted.1

/-- Every handler returns with a success, or fails; it has changed the tables
and failed exactly in the harmful case. -/
theorem settles_handler (request : Request) :
    Settles env config (handler env config auth request) world fault
      (Harmful env request world fault) := by
  cases request with
  | put request => exact settles_put request
  | createProject name quotaBytes ttlSeconds =>
      rw [harmful_iff rfl]
      simp only [handler, Admin.createProject, Program.bind_assoc]
      exact settles_audited
        (.projectsCreate name quotaBytes ttlSeconds) "project.create"
        (fun p => some p.id) (fun p => some (.name p.name)) (by decide)
  | updateProject id newName quotaBytes ttlSeconds =>
      rw [harmful_iff rfl]
      exact settles_updateProject id newName quotaBytes ttlSeconds
  | deleteProject id =>
      rw [harmful_iff rfl]
      simp only [handler, Admin.deleteProject, Program.bind_assoc]
      exact settles_audited
        (.projectsDelete id) "project.delete"
        (fun _ => some id) (fun _ => none) (by decide)
  | createKey id secret phc role label =>
      rw [harmful_iff rfl]
      exact settles_createKey id secret phc role label
  | revokeKey id kid =>
      rw [harmful_iff rfl]
      simp only [handler, Admin.revokeKey, Program.bind_assoc]
      exact settles_audited
        (.apiKeysRevoke id kid) "key.revoke"
        (fun _ => some kid) (fun _ => none) (by decide)
  | createToken secret phc label =>
      rw [harmful_iff rfl]
      simp only [handler, Admin.createToken, Program.bind_assoc]
      exact settles_audited
        (.adminTokensCreate (lookupHash env secret) phc label) "token.create"
        (fun t => some t.id) (fun t => some (.label t.label)) (by decide)
  | revokeToken id =>
      rw [harmful_iff rfl]
      simp only [handler, Admin.revokeToken, Program.bind_assoc]
      exact settles_audited
        (.adminTokensRevoke id) "token.revoke"
        (fun _ => some id) (fun _ => none) (by decide)
  | deleteEntry id eid =>
      rw [harmful_iff rfl]
      simp only [handler, Admin.deleteEntry, Program.bind_assoc]
      exact settles_audited
        (.entriesDelete id eid) "entry.delete"
        (fun _ => some eid) (fun _ => none) (by decide)
  | pin id eid =>
      rw [harmful_iff rfl]
      simp only [handler, Admin.pin, Program.bind_assoc]
      exact settles_audited
        (.entriesSetPinned id eid true) "entry.pin"
        (fun _ => some eid) (fun _ => none) (by decide)
  | unpin id eid =>
      rw [harmful_iff rfl]
      simp only [handler, Admin.unpin, Program.bind_assoc]
      exact settles_audited
        (.entriesSetPinned id eid false) "entry.unpin"
        (fun _ => some eid) (fun _ => none) (by decide)

/-- An admin request that succeeds has written its audit row. -/
theorem audited_of_done
    {request : Request} {status : Nat} {last : World × Option Nat}
    (admin : request.isAdmin = true)
    (ran : (handler env config auth request).run (unreliable env config)
      (world, fault) = (.done status, last)) :
    ∃ row, row.actorToken = auth.tokenLabel ∧
      last.1.db.auditLog.rows = world.db.auditLog.rows ++ [row] := by
  have kept : ∀ count request (state : World × Option Nat) reply after,
      Grown auth world.db count state.1.db →
      (auditing auth).permits count request →
      unreliable env config request state = some (reply, after) →
      Grown auth world.db ((auditing auth).advance count request reply)
        after.1.db :=
    fun _ _ _ _ _ grown permitted answered =>
      grown_step grown permitted (unreliable_faulty answered)
  have start : Grown auth world.db 0 world.db :=
    ⟨[], (List.append_nil _).symm, rfl, by simp⟩
  obtain ⟨count, ⟨rows, appended, length, named⟩, returned, -⟩ :=
    Program.Follows.run_keeps kept (handler_audits env config auth admin)
      start ran
  have one : rows.length = 1 := length.trans (returned _ rfl).2
  obtain ⟨row, rfl⟩ := List.length_eq_one_iff.mp one
  exact ⟨row, named row (List.mem_singleton.mpr rfl), appended⟩

end Handlers

/-- A request is all or nothing unless a statement fails that follows a mutation
which has changed the tables. -/
theorem atomic_iff
    (env : Env) (config : Config) (auth : AdminAuth) (request : Request)
    (world : World) (fault : Option Nat) :
    Atomic env config auth request world fault ↔
      ¬Harmful env request world fault := by
  obtain ⟨last, ⟨status, ran, success, harmless⟩ | ⟨error, ran, harm⟩⟩ :=
    @settles_handler env config auth world fault request
  · have responds : (respond env config auth request).run
        (unreliable env config) (world, fault) = (.done status, last) := by
      rw [respond, Program.run_catchError, ran]
    refine iff_of_true ⟨status, last, responds, ?_, ?_⟩ harmless
    · intro refused
      omega
    · exact fun admin _ => audited_of_done admin ran
  · have responds : (respond env config auth request).run
        (unreliable env config) (world, fault) =
          (.done error.intoResponse.status, last) := by
      rw [respond, Program.run_catchError, ran]
      rfl
    have refused := error.intoResponse_status_ge
    rw [harm, not_not]
    constructor
    · rintro ⟨status, final, answered, kept⟩
      rw [responds] at answered
      cases answered
      exact kept.undone refused
    · intro same
      refine ⟨_, last, responds, fun _ => same, fun _ succeeded => ?_⟩
      rcases succeeded with success | changed
      · omega
      · exact absurd same changed

/-- A key is created, its audit row fails, and the secret is lost with the
response. -/
theorem unaudited_key :
    ¬Atomic Sample.env (Sample.config 1024) ⟨1, none⟩
      (.createKey 1 "secret" "phc" .write none) oneProject (some 2) := by
  rintro ⟨status, last, ran, kept⟩
  have answered :
      ((respond Sample.env (Sample.config 1024) ⟨1, none⟩
        (.createKey 1 "secret" "phc" .write none)).run
          (unreliable Sample.env (Sample.config 1024))
            (oneProject, some 2)).1 = .done 500 := by
    decide +kernel
  have created :
      ((respond Sample.env (Sample.config 1024) ⟨1, none⟩
        (.createKey 1 "secret" "phc" .write none)).run
          (unreliable Sample.env (Sample.config 1024))
            (oneProject, some 2)).2.1.db.apiKeys.rows.length = 1 := by
    decide +kernel
  have none : oneProject.db.apiKeys.rows.length = 0 := by
    decide +kernel
  rw [ran] at answered created
  cases answered
  rw [(kept.undone (by decide)).apiKeys, none] at created
  cases created

end AllOrNothing

end Marmotte
