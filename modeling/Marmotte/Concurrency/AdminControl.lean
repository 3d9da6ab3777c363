import Marmotte.AdminApi
import Marmotte.Concurrency.AccessControl
import Marmotte.OperationCalls

/-!
# Who may use the admin API

Requests to the admin API with arbitrary headers, interleaved with each other
and with anything that stores nothing in the verification cache of tokens: the
creation and revocation of tokens among them.  A request gets behind the
middleware only on the strength of a token that was active at some moment of the
history, and the audit rows that it writes name that token.
-/

namespace Marmotte

open Effects Tables

namespace AdminControl

open Admin

/-! ## The tasks -/

/-- The call stores nothing in the verification cache of tokens. -/
def Spares : Call → Prop
  | .adminCacheInsert .. => False
  | _ => True

/-- A program that stores nothing in the verification cache of tokens. -/
structure Bystander where
  program : App (Option Reply)
  spares : program.Uses Spares fun _ => True

/-- What runs next to each other. -/
inductive Task
  | admin (request : Request)
  | other (bystander : Bystander)

/-- The program of a task. -/
def Task.program
    (env : Env) (config : Config) (budget : Nat) : Task → App (Option Reply)
  | .admin request => do
      let reply ← serve env config budget request
      pure (some reply)
  | .other bystander => bystander.program

/-- The request that a task serves. -/
def Task.request : Task → Option Request
  | .admin request => some request
  | .other _ => none

/-- Tasks and the databases that they have gone through. -/
abbrev Tasks (ι : Type) : Type :=
  Pool ι Call Call.Reply CoreError (Option Reply) (Chronicle World Db) Unit

/-- The tasks at the start of the server. -/
def launch
    (env : Env) (config : Config) (budget : Nat) (tasks : ι → Task)
    (start : World) : Tasks ι :=
  .launch () (fun thread => (tasks thread).program env config budget)
    (.begin World.db start)

/-- The tasks make steps, in any order. -/
abbrev Runs
    [DecidableEq ι] (env : Env) (config : Config) (start pool : Tasks ι) :
    Prop :=
  Pool.Reaches (Program.within fun _ => True)
    (AccessControl.answers env config) (fun _ _ _ => True) start pool

/-! ## Entitled callers -/

/-- The token was active at some moment, under this number and label. -/
def Entitled
    (env : Env) (past : List Db) (token : String) (auth : AdminAuth) : Prop :=
  ∃ db ∈ past, ∃ row ∈ db.adminTokens.rows,
    row.tokenLookup = lookupHash env token ∧ row.revokedAt = none ∧
      env.verifyArgon2 token row.tokenHash = .ok true ∧
        auth = ⟨row.id, row.label⟩

/-- The request presents a token that was active at some moment. -/
def Authorized
    (env : Env) (past : List Db) (request : Request) (auth : AdminAuth) :
    Prop :=
  ∃ token, parseBearer request.authorization = some token ∧
    Entitled env past token auth

/-- The call is one of the middleware. -/
def authenticates : Call → Bool
  | .adminCacheGet .. => true
  | .adminCacheInsert .. => true
  | .db (.adminTokensFindActive _) => true
  | _ => false

/-- The secrets that the requests present. -/
def presented (tasks : ι → Task) : Set Bytes :=
  {secret | ∃ thread request token, tasks thread = .admin request ∧
    parseBearer request.authorization = some token ∧ secret = utf8 token}

theorem Entitled.mono
    {env : Env} {past later : List Db} {token : String} {auth : AdminAuth}
    (entitled : Entitled env past token auth) (grown : past ⊆ later) :
    Entitled env later token auth := by
  obtain ⟨db, among, row⟩ := entitled
  exact ⟨db, grown among, row⟩

/-! ## The protocol -/

/-- What a task knows from its own calls. -/
structure Local where
  /-- The request that the task serves. -/
  request : Option Request
  /-- The row that the token led to. -/
  row : Option AdminToken
  /-- What the cache held. -/
  cached : Option AdminAuth

/-- The record of a task that has made no call. -/
def Local.initial (request : Option Request) : Local := ⟨request, none, none⟩

/-- The credential comes from the cache or from the row. -/
def Vouches
    (env : Env) (token : String) (record : Local) (auth : AdminAuth) : Prop :=
  record.cached = some auth ∨
    ∃ row, record.row = some row ∧
      env.verifyArgon2 token row.tokenHash = .ok true ∧
        auth = ⟨row.id, row.label⟩

/-- The calls of a request with this token. -/
def permitsRequest (env : Env) (token : String) (record : Local) :
    Call → Prop
  | .adminCacheGet scope lookup =>
      scope = "admin" ∧ lookup = lookupHash env token
  | .db (.adminTokensFindActive lookup) => lookup = lookupHash env token
  | .adminCacheInsert _ lookup value =>
      lookup = lookupHash env token ∧ Vouches env token record value
  | .db (.audit _ actorToken _ _ _) =>
      ∃ auth, Vouches env token record auth ∧ actorToken = auth.tokenLabel
  | _ => ∃ auth, Vouches env token record auth

/-- The protocol of the tasks. -/
def protocol (env : Env) : Protocol Call Call.Reply CoreError Local where
  permits record call :=
    match record.request with
    | none => Spares call
    | some request =>
        ∃ token, parseBearer request.authorization = some token ∧
          permitsRequest env token record call
  advance record call reply :=
    match call, reply with
    | .db (.adminTokensFindActive _), .ok row => { record with row := row }
    | .adminCacheGet .., .ok cached => { record with cached := cached }
    | _, _ => record

/-! ## What the records say -/

/-- A record of a request is true of the history. -/
structure Justified
    (env : Env) (past : List Db) (token : String) (record : Local) :
    Prop where
  row : ∀ row, record.row = some row → ∃ db ∈ past,
    row ∈ db.adminTokens.rows ∧ row.tokenLookup = lookupHash env token ∧
      row.revokedAt = none
  cached : ∀ auth, record.cached = some auth → Entitled env past token auth

/-- What a task knows is true. -/
def Own
    (env : Env) (secrets : Set Bytes) (record : Local)
    (chronicle : Chronicle World Db) : Prop :=
  ∀ request token, record.request = some request →
    parseBearer request.authorization = some token →
      utf8 token ∈ secrets ∧ Justified env chronicle.past token record

/-- The present database is one of the past, and the cache holds only what the
history justifies for the tokens that are presented. -/
structure Shared
    (env : Env) (secrets : Set Bytes) (chronicle : Chronicle World Db) :
    Prop where
  current : chronicle.Current World.db
  cache : ∀ cached ∈ chronicle.world.adminCache, ∀ token,
    utf8 token ∈ secrets → cached.lookup = lookupHash env token →
      Entitled env chronicle.past token cached.value

section Records

variable {env : Env} {past later : List Db} {token : String}
variable {record : Local} {auth : AdminAuth}

/-- What a true record vouches for is justified. -/
theorem Justified.entitled
    (justified : Justified env past token record)
    (vouches : Vouches env token record auth) :
    Entitled env past token auth := by
  rcases vouches with hit | ⟨row, there, verified, rfl⟩
  · exact justified.cached auth hit
  · obtain ⟨db, among, stored, looked, active⟩ := justified.row row there
    exact ⟨db, among, row, stored, looked, active, verified, rfl⟩

theorem Justified.mono
    (justified : Justified env past token record) (grown : past ⊆ later) :
    Justified env later token record where
  row row there := by
    obtain ⟨db, among, known⟩ := justified.row row there
    exact ⟨db, grown among, known⟩
  cached auth there := (justified.cached auth there).mono grown

theorem request_advance
    (call : Call) (reply : Except CoreError call.Reply) :
    ((protocol env).advance record call reply).request = record.request := by
  unfold protocol
  simp only
  split <;> rfl

end Records

/-! ## Steps -/

section Steps

variable {env : Env} {config : Config} {secrets : Set Bytes}
variable {record : Local} {request : Call}
variable {before after : Chronicle World Db}
variable {reply : Except CoreError request.Reply}

theorem shared_step
    (free : env.CollisionFree secrets)
    (shared : Shared env secrets before) (own : Own env secrets record before)
    (permitted : (protocol env).permits record request)
    (answered : AccessControl.answers env config request before reply after) :
    Shared env secrets after where
  current := Chronicle.current_step answered
  cache := by
    intro cached present token listed lookup
    have grown := Chronicle.past_subset answered
    rcases Faulty.adminCache answered.1 present with
      old | ⟨scope, otherLookup, value, rfl, rfl⟩
    · exact (shared.cache cached old token listed lookup).mono grown
    · unfold protocol at permitted
      simp only at permitted
      split at permitted
      · exact permitted.elim
      · rename_i served isRequest
        obtain ⟨presenting, parsed, sameLookup, vouches⟩ := permitted
        obtain ⟨presentedIn, justified⟩ := own served presenting isRequest parsed
        have same : token = presenting :=
          AccessControl.pass_of_lookupHash free listed presentedIn
            (lookup.symm.trans sameLookup)
        rw [same]
        exact (justified.entitled vouches).mono grown

theorem own_step
    (shared : Shared env secrets before) (own : Own env secrets record before)
    (permitted : (protocol env).permits record request)
    (answered : AccessControl.answers env config request before reply after) :
    Own env secrets ((protocol env).advance record request reply) after := by
  have grown := Chronicle.past_subset answered
  intro served token isRequest parsed
  have isServed : record.request = some served :=
    (request_advance request reply).symm.trans isRequest
  obtain ⟨listed, earlier⟩ := own served token isServed parsed
  have justified := earlier.mono grown
  refine ⟨listed, ?_⟩
  simp only [protocol, isServed] at permitted
  obtain ⟨presenting, same, permitted⟩ := permitted
  rw [parsed, Option.some.injEq] at same
  subst same
  cases request with
  | db call =>
      cases call with
      | adminTokensFindActive lookup =>
          cases reply with
          | error error => exact justified
          | ok found =>
              have sameLookup : lookup = lookupHash env token := permitted
              rcases Faulty.db_cases answered.1 with
                ⟨result, db, ran, same, -⟩ | ⟨error, failed, -⟩
              · cases same
                cases ran
                refine ⟨fun row there => ?_, justified.cached⟩
                have answer := Table.mem_of_find? there
                obtain ⟨looked, active⟩ := of_decide_eq_true answer.2
                exact ⟨_, grown shared.current, answer.1,
                  looked.trans sameLookup, active⟩
              · cases failed
      | _ => exact justified
  | adminCacheGet scope lookup =>
      cases reply with
      | error error => exact justified
      | ok cached =>
          obtain ⟨rfl, rfl⟩ := permitted
          refine ⟨justified.row, fun auth hit => ?_⟩
          obtain ⟨looked⟩ := answered.1
          simp only [exec, Option.some.injEq, Prod.mk.injEq,
            Except.ok.injEq] at looked
          rw [← looked.1] at hit
          obtain ⟨held, among, -, lookup, -, rfl⟩ :=
            VerifyCache.mem_of_get hit
          exact (shared.cache held among token listed lookup).mono grown
  | _ => exact justified

end Steps

/-- What the tasks know of each other. -/
def discipline
    (env : Env) (config : Config) {secrets : Set Bytes}
    (free : env.CollisionFree secrets) :
    Pool.Discipline (protocol env) (AccessControl.answers env config)
      (fun _ _ _ _ => True) where
  shared := Shared env secrets
  own := Own env secrets
  pair _ _ := True
  step _ _ _ _ _ shared own permitted answered :=
    ⟨shared_step free shared own permitted answered,
      own_step shared own permitted answered⟩
  frame _ _ _ _ _ _ _ _ foreign _ _ _ answered served token isRequest
      parsed :=
    have known := foreign served token isRequest parsed
    ⟨known.1, known.2.mono (Chronicle.past_subset answered)⟩
  apart _ _ _ _ _ _ _ _ _ _ _ _ _ := trivial
  symm _ _ := id

/-! ## The calls of a handler -/

/-- The calls of a handler: none of the middleware, and audit rows only in the
name of the token. -/
def handlerCalls (auth : AdminAuth) (request : Call) : Prop :=
  authenticates request = false ∧
    ∀ timestamp actorToken action target detail,
      request = .db (.audit timestamp actorToken action target detail) →
        actorToken = auth.tokenLabel

section Handlers

variable {auth : AdminAuth}

theorem handlerCalls_of_silent
    {request : Call} (behind : authenticates request = false)
    (silent : ¬Audits request) : handlerCalls auth request :=
  ⟨behind, fun timestamp actorToken action target detail same =>
    absurd ⟨timestamp, actorToken, action, target, detail, same⟩ silent⟩

/-- A transaction other than an audit row and the lookup of a token. -/
theorem handlerCalls_db
    {call : DbCall} (behind : authenticates (.db call) = false)
    (silent : ∀ timestamp actorToken action target detail,
      call ≠ .audit timestamp actorToken action target detail) :
    handlerCalls auth (.db call) := by
  refine handlerCalls_of_silent behind ?_
  rintro ⟨timestamp, actorToken, action, target, detail, same⟩
  exact silent timestamp actorToken action target detail (Call.db.inj same)

theorem handlerCalls_of_sweep
    (request : Call) (used : sweepCalls request) :
    handlerCalls auth request := by
  cases request with
  | db call =>
      cases call <;> first
        | exact used.elim
        | exact handlerCalls_db rfl fun _ _ _ _ _ => nofun
  | adminCacheGet | adminCacheInsert => exact used.elim
  | _ =>
      exact handlerCalls_of_silent rfl
        fun ⟨_, _, _, _, _, same⟩ => nomatch same

theorem handlerCalls_of_scan
    (request : Call) (used : scanCalls request) :
    handlerCalls auth request := by
  cases request with
  | db call =>
      cases call <;> first
        | exact used.elim
        | exact handlerCalls_db rfl fun _ _ _ _ _ => nofun
  | adminCacheGet | adminCacheInsert => exact used.elim
  | _ =>
      exact handlerCalls_of_silent rfl
        fun ⟨_, _, _, _, _, same⟩ => nomatch same

theorem uses_audit
    (auth : AdminAuth) (action : String) (target : Option Int)
    (detail : Option AuditDetail) :
    (audit auth action target detail).Uses (handlerCalls auth)
      fun _ => True :=
  Program.uses_perform_then ⟨rfl, by rintro _ _ _ _ _ ⟨⟩⟩ fun _ =>
    Program.uses_perform ⟨rfl, by rintro _ _ _ _ _ ⟨⟩; rfl⟩
      fun _ => trivial

/-- An audit row of the handler, and what it answers after that. -/
theorem uses_audit_then
    (auth : AdminAuth) (action : String) (target : Option Int)
    (detail : Option AuditDetail) {next : Unit → App α}
    (rest : ∀ value, (next value).Uses (handlerCalls auth) fun _ => True) :
    (audit auth action target detail >>= next).Uses (handlerCalls auth)
      fun _ => True :=
  (uses_audit auth action target detail).bind fun value _ => rest value

/-- A transaction of the handler that is neither an audit row nor the lookup of
a token, and what comes after it. -/
theorem uses_transact_then
    {call : DbCall} {next : call.Reply → App α}
    (behind : authenticates (.db call) = false)
    (silent : ∀ timestamp actorToken action target detail,
      call ≠ .audit timestamp actorToken action target detail)
    (rest : ∀ value, (next value).Uses (handlerCalls auth) fun _ => True) :
    (transact call >>= next).Uses (handlerCalls auth) fun _ => True :=
  Program.uses_perform_then (handlerCalls_db behind silent) rest

/-- No handler makes calls of the middleware, and every row that it adds to the
audit log names its token. -/
theorem handle_uses
    (env : Env) (config : Config) (budget : Nat) (auth : AdminAuth)
    (route : Route) :
    (handle env config budget auth route).Uses (handlerCalls auth)
      fun _ => True := by
  cases route with
  | createProject name quotaBytes ttlSeconds =>
      refine Program.Uses.before ?_ fun _ => trivial
      refine uses_transact_then rfl (fun _ _ _ _ _ => nofun) fun project => ?_
      exact uses_audit_then _ _ _ _ fun _ => trivial
  | updateProject id newName quotaBytes ttlSeconds =>
      refine Program.Uses.before ?_ fun _ => trivial
      refine uses_transact_then rfl (fun _ _ _ _ _ => nofun) fun _ => ?_
      refine uses_transact_then rfl (fun _ _ _ _ _ => nofun) fun project => ?_
      exact uses_audit_then _ _ _ _ fun _ => trivial
  | createKey id secret phc role label =>
      refine Program.Uses.before ?_ fun _ => trivial
      refine uses_transact_then rfl (fun _ _ _ _ _ => nofun) fun _ => ?_
      refine uses_transact_then rfl (fun _ _ _ _ _ => nofun) fun key => ?_
      exact uses_audit_then _ _ _ _ fun _ => trivial
  | createToken secret phc label =>
      refine Program.Uses.before ?_ fun _ => trivial
      refine uses_transact_then rfl (fun _ _ _ _ _ => nofun) fun token => ?_
      exact uses_audit_then _ _ _ _ fun _ => trivial
  | deleteProject | revokeKey | revokeToken | deleteEntry | pin | unpin =>
      refine Program.Uses.before ?_ fun _ => trivial
      refine uses_transact_then rfl (fun _ _ _ _ _ => nofun) fun _ => ?_
      exact uses_audit _ _ _ _
  | listProjects | getProject =>
      exact uses_transact_then rfl (fun _ _ _ _ _ => nofun) fun _ => trivial
  | runGc dryRun =>
      refine Program.Uses.before ?_ fun _ => trivial
      have swept := (GcSvc.run_sweeps config.gc budget dryRun).mono
        (@handlerCalls_of_sweep auth) fun _ => id
      exact swept.before fun _ => uses_audit_then _ _ _ _ fun _ => trivial
  | orphanScan dryRun =>
      refine Program.Uses.before ?_ fun _ => trivial
      have scanned := (GcSvc.orphanScan_scans env dryRun).mono
        (@handlerCalls_of_scan auth) fun _ => id
      exact scanned.before fun _ => uses_audit_then _ _ _ _ fun _ => trivial
  | globalStats =>
      refine Program.Uses.before ?_ fun _ => trivial
      refine uses_transact_then rfl (fun _ _ _ _ _ => nofun) fun total => ?_
      exact uses_transact_then rfl (fun _ _ _ _ _ => nofun) fun _ => trivial
  | projectStats id =>
      refine Program.Uses.before ?_ fun _ => trivial
      refine uses_transact_then rfl (fun _ _ _ _ _ => nofun) fun project => ?_
      refine uses_transact_then rfl (fun _ _ _ _ _ => nofun) fun usage => ?_
      refine uses_transact_then rfl (fun _ _ _ _ _ => nofun) fun hits => ?_
      exact uses_transact_then rfl (fun _ _ _ _ _ => nofun) fun _ => trivial

end Handlers

/-! ## The requests -/

section Requests

variable {env : Env} {request : Request} {token : String} {record : Local}

/-- The record is one of a request with this token. -/
structure Serving
    (env : Env) (request : Request) (token : String) (record : Local) :
    Prop where
  isRequest : record.request = some request
  parsed : parseBearer request.authorization = some token

theorem Serving.permits
    {call : Call} (serving : Serving env request token record)
    (permitted : permitsRequest env token record call) :
    (protocol env).permits record call := by
  unfold protocol
  simp only [serving.isRequest]
  exact ⟨token, serving.parsed, permitted⟩

theorem Serving.advance
    (serving : Serving env request token record)
    (call : Call) (reply : Except CoreError call.Reply) :
    Serving env request token ((protocol env).advance record call reply) :=
  ⟨(request_advance call reply).trans serving.isRequest, serving.parsed⟩

/-- The record vouches for the credential. -/
structure Verified
    (env : Env) (request : Request) (token : String) (auth : AdminAuth)
    (record : Local) : Prop extends Serving env request token record where
  vouches : Vouches env token record auth

theorem verifyAdmin_follows (serving : Serving env request token record) :
    (AuthSvc.verifyAdmin env token (lookupHash env token)).Follows
      (protocol env) (Verified env request token) (fun _ _ => True)
      record := by
  unfold AuthSvc.verifyAdmin
  refine Program.follows_perform_then (serving.permits rfl) fun found => ?_
  cases found with
  | none => trivial
  | some row =>
      simp only
      split
      · trivial
      · trivial
      · rename_i verified
        exact ⟨serving.advance _ _, .inr ⟨row, rfl, verified, rfl⟩⟩

theorem authenticateAdmin_follows
    (serving : Serving env request token record) :
    (AuthSvc.authenticateAdmin env token).Follows (protocol env)
      (Verified env request token) (fun _ _ => True) record := by
  unfold AuthSvc.authenticateAdmin
  refine Program.follows_perform_then (serving.permits ⟨rfl, rfl⟩)
    fun cached => ?_
  cases cached with
  | some auth => exact ⟨serving.advance _ _, .inl rfl⟩
  | none =>
      refine (verifyAdmin_follows (serving.advance _ _)).bind ?_
      intro auth last verified
      exact Program.follows_perform_then
        (verified.permits ⟨rfl, verified.vouches⟩) fun _ => verified

/-- The calls of a handler are permitted to a record that vouches for its
token. -/
theorem Verified.permits_handler
    {auth : AdminAuth} (verified : Verified env request token auth record)
    {call : Call} (used : handlerCalls auth call) :
    (protocol env).permits record call := by
  refine verified.permits ?_
  cases call with
  | db transaction =>
      cases transaction with
      | adminTokensFindActive lookup => cases used.1
      | audit timestamp actorToken action target detail =>
          exact ⟨auth, verified.vouches,
            used.2 timestamp actorToken action target detail rfl⟩
      | _ => exact ⟨auth, verified.vouches⟩
  | adminCacheGet | adminCacheInsert => cases used.1
  | _ => exact ⟨auth, verified.vouches⟩

/-- A handler learns nothing about credentials. -/
theorem advance_handler
    {auth : AdminAuth} {call : Call} (used : handlerCalls auth call)
    (reply : Except CoreError call.Reply) :
    (protocol env).advance record call reply = record := by
  cases call with
  | db transaction =>
      cases transaction with
      | adminTokensFindActive lookup => cases used.1
      | _ => rfl
  | adminCacheGet | adminCacheInsert => cases used.1
  | _ => rfl

/-- What a response tells. -/
def Told
    (env : Env) (request : Request) (reply : Reply) (last : Local) : Prop :=
  reply.status < 400 → ∃ token auth,
    parseBearer request.authorization = some token ∧
      Vouches env token last auth

theorem told_of_refusal
    {reply : Reply} (last : Local) (refused : 400 ≤ reply.status) :
    Told env request reply last :=
  fun success => absurd success (Nat.not_lt.mpr refused)

theorem handle_follows
    {auth : AdminAuth} (config : Config) (budget : Nat) (route : Route)
    (verified : Verified env request token auth record) :
    ((handle env config budget auth route).catchError fun error =>
      pure (.ofError error)).Follows (protocol env) (Told env request)
        (fun _ _ => True) record := by
  have used : ((handle env config budget auth route).catchError fun error =>
      pure (.ofError error)).Uses (handlerCalls auth) fun _ => True :=
    (handle_uses env config budget auth route).catchError fun _ => trivial
  refine (used.follows (fun _ used => verified.permits_handler used)
    fun _ used reply => advance_handler used reply).mono ?_ fun _ _ _ => trivial
  rintro reply _ ⟨-, rfl⟩ -
  exact ⟨token, auth, verified.parsed, verified.vouches⟩

/-- Every request follows the protocol. -/
theorem serve_follows
    (env : Env) (config : Config) (budget : Nat) (request : Request) :
    (serve env config budget request).Follows (protocol env)
      (Told env request) (fun _ _ => True) (.initial (some request)) := by
  unfold serve middleware
  split
  · exact told_of_refusal _ (show 400 ≤ 401 by decide)
  · rename_i token parsed
    have serving : Serving env request token (.initial (some request)) :=
      ⟨rfl, parsed⟩
    refine (authenticateAdmin_follows serving).toExcept.bind ?_
    intro result last known
    split
    · exact handle_follows config budget request.route known
    · exact told_of_refusal _ (show 400 ≤ 401 by decide)
    · exact told_of_refusal _ (Reply.ofError_status_ge _)

end Requests

/-- A bystander may do what it does. -/
theorem bystander_follows
    {env : Env} {program : App (Option Reply)}
    (spares : program.Uses Spares fun _ => True) {record : Local}
    (serves : record.request = none) :
    program.Follows (protocol env) (fun _ _ => True) (fun _ _ => True)
      record := by
  induction program generalizing record with
  | done value => trivial
  | fail error => trivial
  | spin => trivial
  | call request next inductionHypothesis =>
      refine ⟨?_, fun reply => inductionHypothesis reply (spares.2 reply)
        ((request_advance request reply).trans serves)⟩
      unfold protocol
      simp only [serves]
      exact spares.1

/-! ## Runs -/

section Runs

variable {env : Env} {config : Config} {budget : Nat} {tasks : ι → Task}
variable {start : World}

/-- What is known when a task has returned. -/
def Ended
    (env : Env) (task : Task) (answer : Option Reply) (last : Local) : Prop :=
  ∀ request reply, task = .admin request → answer = some reply →
    Told env request reply last

theorem task_follows (task : Task) :
    (task.program env config budget).Follows (protocol env) (Ended env task)
      (fun _ _ => True) (.initial task.request) := by
  cases task with
  | admin request =>
      refine (serve_follows env config budget request).bind
        fun reply last told => ?_
      rintro _ _ ⟨⟩ ⟨⟩
      exact told
  | other bystander =>
      refine (bystander_follows bystander.spares rfl).mono ?_
        fun _ _ _ => trivial
      rintro answer last - request reply ⟨⟩

/-- The tasks are disciplined at the start. -/
theorem launch_disciplined
    [DecidableEq ι] (fresh : start.adminCache = [])
    (free : env.CollisionFree (presented tasks)) :
    Pool.Disciplined (discipline env config free)
      (fun thread => Ended env (tasks thread))
      ⟨.begin World.db start, (launch env config budget tasks start).threads,
        fun thread => .initial (tasks thread).request⟩ where
  shared :=
    { current := List.mem_cons_self
      cache := by
        intro cached present
        rw [Chronicle.begin, fresh] at present
        cases present }
  own := by
    intro thread _ request token isRequest parsed
    refine ⟨?_, ⟨by rintro _ ⟨⟩, by rintro _ ⟨⟩⟩⟩
    have serves : (tasks thread).request = some request := isRequest
    cases task : tasks thread with
    | admin served =>
        rw [task] at serves
        cases serves
        exact ⟨thread, request, token, task, parsed, rfl⟩
    | other bystander =>
        rw [task] at serves
        cases serves
  pair _ _ _ _ _ := trivial
  follows thread := task_follows (tasks thread)

/-- In every history a request to the admin API makes a call of its handler, or
is answered with success, only if it presents a token that was active at some
moment of the history, and it writes audit rows only under the label of that
token. -/
theorem admin_authorized
    [DecidableEq ι] (fresh : start.adminCache = [])
    (free : env.CollisionFree (presented tasks))
    {pool : Tasks ι}
    (reached : Runs env config (launch env config budget tasks start) pool)
    {thread : ι} {request : Request}
    (serves : tasks thread = .admin request) :
    (∀ call, pool.Issues thread call → authenticates call = false →
      ∃ auth, Authorized env pool.world.past request auth) ∧
    (∀ timestamp actorToken action target detail,
      pool.Issues thread
          (.db (.audit timestamp actorToken action target detail)) →
      ∃ auth, Authorized env pool.world.past request auth ∧
        actorToken = auth.tokenLabel) ∧
    ∀ reply, pool.threads thread = .done (some reply) → reply.status < 400 →
      ∃ auth, Authorized env pool.world.past request auth := by
  obtain ⟨records, observed⟩ := reached.observed (protocol env)
    fun thread => .initial (tasks thread).request
  have launched := @launch_disciplined _ env config budget tasks start _ fresh
    free
  have disciplined := launched.reaches
    (observed.mono fun _ _ _ _ _ _ _ => trivial)
  have kept : (records thread).request = (tasks thread).request :=
    observed.steady Local.request (fun _ => request_advance) thread
  have isRequest : (records thread).request = some request := by
    rw [kept, serves]
    rfl
  have permitted {call : Call} (issues : pool.Issues thread call) :
      ∃ token, parseBearer request.authorization = some token ∧
        Justified env pool.world.past token (records thread) ∧
          permitsRequest env token (records thread) call := by
    have allowed := disciplined.permits issues
    simp only [protocol, isRequest] at allowed
    obtain ⟨token, parsed, permitted⟩ := allowed
    have own := disciplined.own thread (Pool.Issues.live issues) request token
      isRequest parsed
    exact ⟨token, parsed, own.2, permitted⟩
  refine ⟨fun call issues behind => ?_,
    fun timestamp actorToken action target detail issues => ?_,
    fun reply ended success => ?_⟩
  · obtain ⟨token, parsed, justified, allowed⟩ := permitted issues
    have vouched : ∃ auth, Vouches env token (records thread) auth := by
      cases call with
      | db transaction =>
          cases transaction with
          | adminTokensFindActive lookup => cases behind
          | audit timestamp actorToken action target detail =>
              obtain ⟨auth, vouches, -⟩ := allowed
              exact ⟨auth, vouches⟩
          | _ => exact allowed
      | adminCacheGet | adminCacheInsert => cases behind
      | _ => exact allowed
    obtain ⟨auth, vouches⟩ := vouched
    exact ⟨auth, token, parsed, justified.entitled vouches⟩
  · obtain ⟨token, parsed, justified, auth, vouches, named⟩ :=
      permitted issues
    exact ⟨auth, ⟨token, parsed, justified.entitled vouches⟩, named⟩
  · obtain ⟨token, auth, parsed, vouches⟩ :=
      disciplined.ended ended request reply serves rfl success
    have own := disciplined.own thread (by simp [Pool.Live, ended]) request
      token isRequest parsed
    exact ⟨auth, token, parsed, own.2.entitled vouches⟩

end Runs

/-! ## A token that is revoked during a request -/

/-- An environment in which the hash of a token is the token. -/
def plain : Env :=
  { Sample.env with
    verifyArgon2 := fun secret phc => .ok (decide (secret = phc)) }

/-- Two tokens, and no project. -/
def staffed : World :=
  (Program.run (exec plain (Sample.config 1024)) (do
    let _ ← transact (.adminTokensCreate (lookupHash plain "a") "a"
      (some "root"))
    transact (.adminTokensCreate (lookupHash plain "b") "b" (some "ops")))
      (World.initial 1000)).2

/-- The holder of one token creates a project, and that of the other revokes
it. -/
def dismissal : Fin 2 → Task
  | 0 => .admin ⟨some "Bearer b".toUTF8.data.toList,
      .createProject "acme" none none⟩
  | 1 => .admin ⟨some "Bearer a".toUTF8.data.toList, .revokeToken 2⟩

/-- The task has answered with success. -/
def succeeded : App (Option Reply) → Bool
  | .done (some reply) => reply.status < 400
  | _ => false

theorem succeeded_spec
    {program : App (Option Reply)} (known : succeeded program = true) :
    ∃ reply, program = .done (some reply) ∧ reply.status < 400 := by
  unfold succeeded at known
  split at known
  · exact ⟨_, rfl, of_decide_eq_true known⟩
  · cases known

/-- The project is created although the token is revoked by then. -/
theorem admin_authorized_late :
    ∃ pool : Tasks (Fin 2),
      Runs plain (Sample.config 1024)
        (launch plain (Sample.config 1024) 10 dismissal staffed) pool ∧
      (∀ row ∈ pool.world.world.db.adminTokens.rows,
        row.label = some "ops" → row.revokedAt ≠ none) ∧
      pool.world.world.db.projects.rows ≠ [] ∧
      ∃ auth, Authorized plain pool.world.past
        ⟨some "Bearer b".toUTF8.data.toList, .createProject "acme" none none⟩
        auth := by
  have ran : ((Pool.replay (Program.within fun _ => True)
      (Chronicle.handler World.db (exec plain (Sample.config 1024)))
      (fun _ _ _ => true) [0, 0, 0, 1, 1, 1, 1, 1, 1, 0, 0, 0]
      (launch plain (Sample.config 1024) 10 dismissal staffed)).any
        fun pool =>
          succeeded (pool.threads 0) &&
            (pool.world.world.db.adminTokens.rows.all fun row =>
              decide (row.label = some "ops" → row.revokedAt ≠ none)) &&
            decide (pool.world.world.db.projects.rows ≠ [])) = true := by
    decide +kernel
  rw [Option.any_eq_true] at ran
  obtain ⟨pool, replayed, outcome⟩ := ran
  rw [Bool.and_eq_true, Bool.and_eq_true, List.all_eq_true] at outcome
  obtain ⟨reply, ended, success⟩ := succeeded_spec outcome.1.1
  have reached : Runs plain (Sample.config 1024)
      (launch plain (Sample.config 1024) 10 dismissal staffed) pool :=
    Pool.reaches_of_free_replay
      (fun _ _ _ _ => Chronicle.answers_of_handler fun _ _ _ _ => .exact)
      replayed
  have free : plain.CollisionFree (presented dismissal) := by
    have known : presented dismissal ⊆
        {content | content ∈ [[], [97], [98], [97, 98, 99]]} := by
      rintro secret ⟨thread, request, token, serves, parsed, rfl⟩
      match thread with
      | 0 =>
          cases serves
          have bearer : parseBearer (some "Bearer b".toUTF8.data.toList) =
            some "b" := by decide +kernel
          cases bearer.symm.trans parsed
          decide +kernel
      | 1 =>
          cases serves
          have bearer : parseBearer (some "Bearer a".toUTF8.data.toList) =
            some "a" := by decide +kernel
          cases bearer.symm.trans parsed
          decide +kernel
    intro first firstIn second secondIn
    exact Sample.collisionFree first (known firstIn) second (known secondIn)
  obtain ⟨-, -, answers⟩ := admin_authorized (by decide +kernel) free reached
    (show dismissal 0 = .admin _ from rfl)
  exact ⟨pool, reached,
    fun row among => of_decide_eq_true (outcome.1.2 row among),
    of_decide_eq_true outcome.2, answers reply ended success⟩

end AdminControl

end Marmotte
