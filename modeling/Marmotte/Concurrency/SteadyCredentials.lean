import Marmotte.Concurrency.AccessControl
import Marmotte.Effects.History
import Marmotte.OperationCalls
import Marmotte.RevocationLag

/-!
# Authentication without the caches

Where no credential is taken back, the verification caches cannot be seen:
whatever runs next to it, an authentication is answered as the rows of the
database decide at one moment of it, whether the answer comes from a cache or
from the rows.  Rows are only added, so what they accept once they accept ever
after, and the caches hold nothing else.
-/

namespace Marmotte

open Effects Tables

namespace AuthSvc

/-- The admin credential that the rows of a database verify. -/
def verifiedAdmin
    (env : Env) (db : Db) (token : String) : Except CoreError AdminAuth :=
  match AdminTokens.findActiveByLookup db (lookupHash env token) with
  | none => .error .unauthorized
  | some t =>
      match env.verifyArgon2 token t.tokenHash with
      | .error message => .error (.crypto message)
      | .ok false => .error .unauthorized
      | .ok true => .ok ⟨t.id, t.label⟩

end AuthSvc

namespace SteadyCredentials

open RevocationLag (Credential)

/-! ## Rows that stay -/

/-- The transaction takes no credential back. -/
def Keeps : DbCall → Prop
  | .projectsUpdate _ newName _ _ => newName = none
  | .projectsDelete _ => False
  | .apiKeysRevoke .. => False
  | .adminTokensRevoke _ => False
  | _ => True

/-- Every credential is still there. -/
structure More (before after : Db) : Prop where
  projects : ∀ project ∈ before.projects.rows, ∃ same ∈ after.projects.rows,
    same.id = project.id ∧ same.name = project.name
  apiKeys : ∀ key ∈ before.apiKeys.rows, key ∈ after.apiKeys.rows
  adminTokens : ∀ token ∈ before.adminTokens.rows,
    token ∈ after.adminTokens.rows

namespace More

variable {before middle after : Db}

theorem refl (db : Db) : More db db :=
  ⟨fun project stored => ⟨project, stored, rfl, rfl⟩, fun _ => id,
    fun _ => id⟩

theorem trans (left : More before middle) (right : More middle after) :
    More before after where
  projects project stored := by
    obtain ⟨same, there, sameId, sameName⟩ := left.projects project stored
    obtain ⟨last, present, lastId, lastName⟩ := right.projects same there
    exact ⟨last, present, lastId.trans sameId, lastName.trans sameName⟩
  apiKeys key stored := right.apiKeys key (left.apiKeys key stored)
  adminTokens token stored :=
    right.adminTokens token (left.adminTokens token stored)

end More

theorem more_of_frame
    {writes : List TableName} {before after : Db}
    (frame : Db.Frame writes before after)
    (apart : ∀ table ∈ writes,
      table ≠ .projects ∧ table ≠ .apiKeys ∧ table ≠ .adminTokens) :
    More before after where
  projects project stored := by
    rw [frame.projects fun written => (apart _ written).1 rfl]
    exact ⟨project, stored, rfl, rfl⟩
  apiKeys key stored := by
    rwa [frame.apiKeys fun written => (apart _ written).2.1 rfl]
  adminTokens token stored := by
    rwa [frame.adminTokens fun written => (apart _ written).2.2 rfl]

/-- A table keeps its rows when another gets more. -/
theorem more_of_projects
    {before after : Db} (frame : Db.Frame [.projects] before after)
    (projects : ∀ project ∈ before.projects.rows,
      ∃ same ∈ after.projects.rows,
        same.id = project.id ∧ same.name = project.name) :
    More before after where
  projects := projects
  apiKeys key stored := by rwa [frame.apiKeys (by simp)]
  adminTokens token stored := by rwa [frame.adminTokens (by simp)]

/-- A column other than the name. -/
theorem more_assignColumn
    {db after : Db} {id : Int} {value : Option α}
    {assign : α → Project → Project} {keepsId} {onError}
    (ran : Projects.assignColumn db id value assign keepsId onError =
      .ok after)
    (keepsName : ∀ value project,
      (assign value project).name = project.name) : More db after := by
  unfold Projects.assignColumn at ran
  split at ran
  · rename_i value
    cases updated : db.updateProject id (assign value) (keepsId value) with
    | error error =>
        rw [updated] at ran
        cases ran
    | ok middle =>
        rw [updated] at ran
        cases ran
        refine more_of_projects (Db.frame_updateProject updated)
          fun project stored => ?_
        obtain ⟨-, -, -, rows⟩ := Db.updateProject_ok updated
        rw [rows]
        refine ⟨_, List.mem_map_of_mem stored, ?_, ?_⟩
        · split
          · exact keepsId value project
          · rfl
        · split
          · exact keepsName value project
          · rfl
  · cases ran
    exact .refl _

/-- A transaction that takes no credential back loses none. -/
theorem more_of_exec
    {env : Env} {now : Int} {call : DbCall} {db after : Db}
    {reply : call.Reply} (keeps : Keeps call)
    (ran : call.exec env now db = .ok (reply, after)) : More db after := by
  have frame := DbCall.exec_frame ran
  cases call with
  | projectsDelete | apiKeysRevoke | adminTokensRevoke => exact keeps.elim
  | projectsCreate name quotaBytes ttlSeconds =>
      obtain ⟨-, -, -, -, -, rows⟩ := Projects.created ran
      refine more_of_projects frame fun project stored => ?_
      rw [rows]
      exact ⟨project, List.mem_append_left _ stored, rfl, rfl⟩
  | projectsUpdate id newName quotaBytes ttlSeconds =>
      have unnamed : newName = none := keeps
      subst unnamed
      simp only [DbCall.exec, Projects.update, bind, Except.bind] at ran
      split at ran
      · cases ran
      · rename_i first firstRan
        split at ran
        · cases ran
        · rename_i second secondRan
          split at ran
          · cases ran
          · rename_i third thirdRan
            cases ran
            have same : More db first := by
              cases firstRan
              exact .refl _
            exact (same.trans (more_assignColumn secondRan
              fun _ _ => rfl)).trans (more_assignColumn thirdRan
                fun _ _ => rfl)
  | apiKeysCreate projectId keyLookup keyHash role label =>
      simp only [DbCall.exec, ApiKeys.create, bind, Except.bind,
        Db.insertApiKey] at ran
      split at ran
      · cases ran
      · rename_i inserted
        split at inserted
        · split at inserted
          · cases inserted
          · rename_i keys added
            cases inserted
            cases ran
            refine ⟨fun project stored => ⟨project, stored, rfl, rfl⟩,
              fun key stored => ?_, fun _ => id⟩
            change key ∈ keys.rows
            rw [(Series.insert?_eq_some added).1]
            exact List.mem_append_left _ stored
        · cases inserted
  | adminTokensCreate tokenLookup tokenHash label =>
      simp only [DbCall.exec, AdminTokens.create, bind, Except.bind,
        Db.insertAdminToken] at ran
      split at ran
      · cases ran
      · rename_i inserted
        split at inserted
        · cases inserted
        · rename_i tokens added
          cases inserted
          cases ran
          refine ⟨fun project stored => ⟨project, stored, rfl, rfl⟩,
            fun _ => id, fun token stored => ?_⟩
          change token ∈ tokens.rows
          rw [(Series.insert?_eq_some added).1]
          exact List.mem_append_left _ stored
  | _ => exact more_of_frame frame (by simp [DbCall.writes])

/-! ## What the rows decide -/

/-- Who a credential belongs to. -/
inductive Identity
  | project (auth : ProjectAuth)
  | admin (auth : AdminAuth)
  deriving DecidableEq, Repr

/-- The authentication of a credential. -/
def identify (env : Env) : Credential → App Identity
  | .project name apiKey => do
      let auth ← AuthSvc.authenticateProject env name apiKey
      pure (.project auth)
  | .admin token => do
      let auth ← AuthSvc.authenticateAdmin env token
      pure (.admin auth)

/-- What the rows of a database decide about a credential. -/
def decided (env : Env) (db : Db) : Credential → Except CoreError Identity
  | .project name apiKey =>
      (AuthSvc.verified env db name apiKey).map .project
  | .admin token => (AuthSvc.verifiedAdmin env db token).map .admin

/-- What a verification of a secret decides. -/
def verdict (env : Env) (secret phc : String) (identity : Identity) :
    Except CoreError Identity :=
  match env.verifyArgon2 secret phc with
  | .error message => .error (.crypto message)
  | .ok false => .error .unauthorized
  | .ok true => .ok identity

section Decisions

variable {env : Env} {before after db : Db} {name apiKey token : String}

/-- What the rows of a project decide, once the name has led to it. -/
theorem decided_of_named
    {project : Project} (stored : project ∈ db.projects.rows)
    (named : project.name = name) :
    decided env db (.project name apiKey) =
      match ApiKeys.findActiveByLookup db project.id
          (lookupHash env apiKey) with
      | none => .error .unauthorized
      | some key =>
          verdict env apiKey key.keyHash
            (.project ⟨project.id, name, key.id, key.role⟩) := by
  subst named
  have found := Credentials.getByName_eq_ok.mpr ⟨stored, rfl⟩
  simp only [decided, AuthSvc.verified, verdict, found]
  cases ApiKeys.findActiveByLookup db project.id (lookupHash env apiKey) with
  | none => rfl
  | some key =>
      simp only
      cases env.verifyArgon2 apiKey key.keyHash with
      | error message => rfl
      | ok accepted => cases accepted <;> rfl

theorem decided_admin :
    decided env db (.admin token) =
      match AdminTokens.findActiveByLookup db (lookupHash env token) with
      | none => .error .unauthorized
      | some row =>
          verdict env token row.tokenHash (.admin ⟨row.id, row.label⟩) := by
  simp only [decided, AuthSvc.verifiedAdmin, verdict]
  cases AdminTokens.findActiveByLookup db (lookupHash env token) with
  | none => rfl
  | some row =>
      simp only
      cases env.verifyArgon2 token row.tokenHash with
      | error message => rfl
      | ok accepted => cases accepted <;> rfl

/-- A key that is found stays found. -/
theorem findActive_more
    {projectId : Int} {lookup : String} {key : ApiKey}
    (more : More before after)
    (found : ApiKeys.findActiveByLookup before projectId lookup = some key) :
    ApiKeys.findActiveByLookup after projectId lookup = some key := by
  have answer := Table.mem_of_find? found
  obtain ⟨owner, looked, active⟩ := of_decide_eq_true answer.2
  refine Table.find?_of_mem (more.apiKeys key answer.1) answer.2
    fun other same => .inr ?_
  exact (of_decide_eq_true same).2.1.trans looked.symm

theorem findActiveToken_more
    {lookup : String} {row : AdminToken} (more : More before after)
    (found : AdminTokens.findActiveByLookup before lookup = some row) :
    AdminTokens.findActiveByLookup after lookup = some row := by
  have answer := Table.mem_of_find? found
  obtain ⟨looked, active⟩ := of_decide_eq_true answer.2
  refine Table.find?_of_mem (more.adminTokens row answer.1) answer.2
    fun other same => .inr ?_
  exact (of_decide_eq_true same).1.trans looked.symm

/-- What is accepted once stays accepted. -/
theorem decided_more
    {credential : Credential} {identity : Identity}
    (more : More before after)
    (accepted : decided env before credential = .ok identity) :
    decided env after credential = .ok identity := by
  cases credential with
  | project name apiKey =>
      simp only [decided, Except.map] at accepted
      split at accepted
      · cases accepted
      rename_i auth verified
      cases accepted
      obtain ⟨project, key, named, found, verifies, rfl⟩ :=
        AuthSvc.verified_eq_ok verified
      obtain ⟨stored, rfl⟩ := Credentials.getByName_eq_ok.mp named
      obtain ⟨same, there, sameId, sameName⟩ := more.projects project stored
      have later := findActive_more more found
      rw [← sameId] at later
      rw [decided_of_named there sameName, later]
      simp only [verdict, verifies, sameId]
  | admin token =>
      rw [decided_admin] at accepted ⊢
      cases found : AdminTokens.findActiveByLookup before
          (lookupHash env token) with
      | none =>
          rw [found] at accepted
          cases accepted
      | some row =>
          rw [found] at accepted
          rw [findActiveToken_more more found]
          exact accepted

end Decisions

/-! ## The protocol -/

/-- What a task knows from its own calls. -/
structure Local where
  /-- The credential that the task authenticates. -/
  credential : Option Credential
  /-- The project that the name led to. -/
  led : Option Project
  /-- What the rows have shown. -/
  shown : Option Identity

/-- The record of a task that has made no call. -/
def Local.initial (credential : Option Credential) : Local :=
  ⟨credential, none, none⟩

/-- The call leaves the caches alone, or drops from them, and takes no
credential back. -/
def Spares : Call → Prop
  | .projectCacheInsert .. => False
  | .adminCacheInsert .. => False
  | .db call => Keeps call
  | _ => True

/-- The secret passes for the hash. -/
def passes (env : Env) (secret phc : String) : Bool :=
  match env.verifyArgon2 secret phc with
  | .ok accepted => accepted
  | .error _ => false

/-- The calls of the authentication of a credential. -/
def asks (env : Env) (record : Local) : Credential → Call → Prop
  | .project name apiKey, .projectCacheGet scope lookup =>
      scope = AuthSvc.projectScope name ∧ lookup = lookupHash env apiKey
  | .project name _, .db (.projectsGetByName asked) => asked = name
  | .project _ apiKey, .db (.apiKeysFindActive id lookup) =>
      record.led.map Project.id = some id ∧ lookup = lookupHash env apiKey
  | .project name apiKey, .projectCacheInsert scope lookup value =>
      scope = AuthSvc.projectScope name ∧ lookup = lookupHash env apiKey ∧
        record.shown = some (.project value)
  | .admin token, .adminCacheGet scope lookup =>
      scope = "admin" ∧ lookup = lookupHash env token
  | .admin token, .db (.adminTokensFindActive lookup) =>
      lookup = lookupHash env token
  | .admin token, .adminCacheInsert scope lookup value =>
      scope = "admin" ∧ lookup = lookupHash env token ∧
        record.shown = some (.admin value)
  | _, _ => False

/-- What the authentication of a credential learns from a reply. -/
def learns (env : Env) (record : Local) :
    Credential → (request : Call) → Except CoreError request.Reply → Local
  | .project _ _, .db (.projectsGetByName _), .ok project =>
      { record with led := some project }
  | .project _ apiKey, .db (.apiKeysFindActive ..), .ok (some key) =>
      if passes env apiKey key.keyHash then
        { record with
          shown := record.led.map fun project =>
            .project ⟨project.id, project.name, key.id, key.role⟩ }
      else record
  | .admin token, .db (.adminTokensFindActive _), .ok (some row) =>
      if passes env token row.tokenHash then
        { record with shown := some (.admin ⟨row.id, row.label⟩) }
      else record
  | _, _, _ => record

/-- The protocol of the tasks. -/
def protocol (env : Env) : Protocol Call Call.Reply CoreError Local where
  permits record request :=
    match record.credential with
    | none => Spares request
    | some credential => asks env record credential request
  advance record request reply :=
    match record.credential with
    | none => record
    | some credential => learns env record credential request reply

/-! ## What the records and the caches say -/

/-- What is secret about a credential. -/
def secret : Credential → String
  | .project _ apiKey => apiKey
  | .admin token => token

/-- What a task knows is true. -/
structure Own
    (env : Env) (secrets : Set Bytes) (record : Local) (world : World) :
    Prop where
  listed : ∀ credential, record.credential = some credential →
    utf8 (secret credential) ∈ secrets
  led : ∀ name apiKey project,
    record.credential = some (.project name apiKey) →
      record.led = some project → project.name = name ∧
        ∃ row ∈ world.db.projects.rows,
          row.id = project.id ∧ row.name = name
  shown : ∀ credential identity, record.credential = some credential →
    record.shown = some identity →
      decided env world.db credential = .ok identity

/-- The caches hold only what the rows decide. -/
structure Shared (env : Env) (secrets : Set Bytes) (world : World) :
    Prop where
  projects : ∀ cached ∈ world.projectCache, ∀ name apiKey,
    utf8 apiKey ∈ secrets → cached.scope = AuthSvc.projectScope name →
      cached.lookup = lookupHash env apiKey →
        decided env world.db (.project name apiKey) =
          .ok (.project cached.value)
  admins : ∀ cached ∈ world.adminCache, ∀ token, utf8 token ∈ secrets →
    cached.lookup = lookupHash env token →
      decided env world.db (.admin token) = .ok (.admin cached.value)

section Steps

variable {env : Env} {config : Config} {secrets : Set Bytes}
variable {record : Local} {request : Call} {before after : World}
variable {reply : Except CoreError request.Reply}

theorem Own.more
    (own : Own env secrets record before)
    (more : More before.db after.db) : Own env secrets record after where
  listed := own.listed
  led name apiKey project isTask led := by
    obtain ⟨named, row, stored, sameId, sameName⟩ :=
      own.led name apiKey project isTask led
    obtain ⟨later, there, laterId, laterName⟩ := more.projects row stored
    exact ⟨named, later, there, laterId.trans sameId,
      laterName.trans sameName⟩
  shown credential identity isTask shown :=
    decided_more more (own.shown credential identity isTask shown)

/-- A credential stays the same. -/
theorem credential_advance
    (call : Call) (reply : Except CoreError call.Reply) :
    ((protocol env).advance record call reply).credential =
      record.credential := by
  unfold protocol
  simp only
  split
  · rfl
  · unfold learns
    split <;> first | rfl | (split <;> rfl)

/-- The transactions of an authentication take nothing back. -/
theorem keeps_of_asks
    {credential : Credential} {call : DbCall}
    (asked : asks env record credential (.db call)) : Keeps call := by
  cases credential <;> cases call <;> trivial

/-- No permitted call loses a credential. -/
theorem more_step
    (permitted : (protocol env).permits record request)
    (answered : Faulty env config request before reply after) :
    More before.db after.db := by
  rcases Faulty.commits answered with same | ⟨call, value, rfl, ran⟩
  · rw [same]
    exact .refl _
  · unfold protocol at permitted
    simp only at permitted
    split at permitted
    · exact more_of_exec permitted ran
    · exact more_of_exec (keeps_of_asks permitted) ran

theorem shared_step
    (free : env.CollisionFree secrets)
    (shared : Shared env secrets before)
    (own : Own env secrets record before)
    (permitted : (protocol env).permits record request)
    (answered : Faulty env config request before reply after) :
    Shared env secrets after where
  projects := by
    intro cached present name apiKey among scope lookup
    have more := more_step permitted answered
    rcases Faulty.projectCache answered present with
      old | ⟨otherScope, otherLookup, value, rfl, rfl⟩
    · exact decided_more more
        (shared.projects cached old name apiKey among scope lookup)
    · unfold protocol at permitted
      simp only at permitted
      split at permitted
      · exact permitted.elim
      rename_i credential isTask
      cases credential with
      | admin token => exact permitted.elim
      | project otherName otherKey =>
          obtain ⟨sameScope, sameLookup, shown⟩ := permitted
          have sameName : name = otherName :=
            AuthSvc.projectScope_injective (scope.symm.trans sameScope)
          have sameKey : apiKey = otherKey :=
            AccessControl.pass_of_lookupHash free among
              (own.listed _ isTask) (lookup.symm.trans sameLookup)
          subst sameName sameKey
          exact decided_more more (own.shown _ _ isTask shown)
  admins := by
    intro cached present token among lookup
    have more := more_step permitted answered
    rcases Faulty.adminCache answered present with
      old | ⟨scope, otherLookup, value, rfl, rfl⟩
    · exact decided_more more (shared.admins cached old token among lookup)
    · unfold protocol at permitted
      simp only at permitted
      split at permitted
      · exact permitted.elim
      rename_i credential isTask
      cases credential with
      | project name apiKey => exact permitted.elim
      | admin otherToken =>
          obtain ⟨-, sameLookup, shown⟩ := permitted
          have sameToken : token = otherToken :=
            AccessControl.pass_of_lookupHash free among
              (own.listed _ isTask) (lookup.symm.trans sameLookup)
          subst sameToken
          exact decided_more more (own.shown _ _ isTask shown)

/-! ### What a query shows -/

/-- The name led to a row. -/
theorem named_of_answer
    {name : String} {project : Project}
    (answered : Faulty env config (.db (.projectsGetByName name)) before
      (.ok project) after) :
    project ∈ before.db.projects.rows ∧ project.name = name := by
  cases answered with
  | exact answered =>
      refine Credentials.getByName_eq_ok.mp ?_
      simp only [exec, DbCall.exec] at answered
      cases named : Projects.getByName before.db name with
      | error error =>
          rw [named] at answered
          cases answered
      | ok found =>
          rw [named] at answered
          cases answered
          rfl

/-- The key that was found is the one that the rows hold. -/
theorem found_of_answer
    {id : Int} {lookup : String} {found : Option ApiKey}
    (answered : Faulty env config (.db (.apiKeysFindActive id lookup)) before
      (.ok found) after) :
    ApiKeys.findActiveByLookup before.db id lookup = found := by
  cases answered with
  | exact answered =>
      cases answered
      rfl

theorem foundToken_of_answer
    {lookup : String} {found : Option AdminToken}
    (answered : Faulty env config (.db (.adminTokensFindActive lookup)) before
      (.ok found) after) :
    AdminTokens.findActiveByLookup before.db lookup = found := by
  cases answered with
  | exact answered =>
      cases answered
      rfl

/-- A secret that passes is accepted. -/
theorem verdict_of_passes
    {secret phc : String} {identity : Identity}
    (passing : passes env secret phc = true) :
    verdict env secret phc identity = .ok identity := by
  unfold passes at passing
  split at passing
  · rename_i same
    simp only [verdict, same, passing]
  · cases passing

/-- A permitted call keeps what its task knows true. -/
theorem own_step
    (own : Own env secrets record before)
    (permitted : (protocol env).permits record request)
    (answered : Faulty env config request before reply after) :
    Own env secrets ((protocol env).advance record request reply) after := by
  have more := more_step permitted answered
  have kept := own.more more
  cases isTask : record.credential with
  | none =>
      simp only [protocol, isTask]
      exact kept
  | some credential =>
      simp only [protocol, isTask] at permitted ⊢
      unfold learns
      split
      · rename_i name apiKey asked project
        obtain ⟨stored, named⟩ := named_of_answer answered
        have sameName : asked = name := permitted
        refine ⟨kept.listed, ?_, kept.shown⟩
        rintro otherName otherKey found same ⟨⟩
        rw [isTask] at same
        cases same
        obtain ⟨later, there, sameId, laterName⟩ :=
          more.projects project stored
        exact ⟨named.trans sameName, later, there, sameId,
          laterName.trans (named.trans sameName)⟩
      · rename_i name apiKey id lookup key
        split
        · rename_i passing
          obtain ⟨leads, rfl⟩ := permitted
          obtain ⟨project, led, rfl⟩ := Option.map_eq_some_iff.mp leads
          obtain ⟨named, row, stored, sameId, sameName⟩ :=
            own.led _ _ _ isTask led
          have found := found_of_answer answered
          rw [← sameId] at found
          have decides : decided env before.db (.project name apiKey) = _ :=
            decided_of_named stored sameName
          rw [found] at decides
          simp only [verdict_of_passes passing] at decides
          refine ⟨kept.listed, kept.led, ?_⟩
          intro credential identity same shown
          rw [isTask] at same
          cases same
          simp only [led, Option.map_some, Option.some.injEq] at shown
          rw [← shown, named, ← sameId]
          exact decided_more more decides
        · exact kept
      · rename_i token lookup row
        split
        · rename_i passing
          have sameLookup : lookup = lookupHash env token := permitted
          subst sameLookup
          refine ⟨kept.listed, kept.led, ?_⟩
          rintro credential identity same ⟨⟩
          rw [isTask] at same
          cases same
          refine decided_more more ?_
          rw [decided_admin, foundToken_of_answer answered]
          exact verdict_of_passes passing
        · exact kept
      · exact kept

end Steps

/-- What the tasks know of each other. -/
def discipline
    (env : Env) (config : Config) {secrets : Set Bytes}
    (free : env.CollisionFree secrets) :
    Pool.Discipline (protocol env) (Faulty env config)
      (fun _ _ _ _ => True) where
  shared := Shared env secrets
  own := Own env secrets
  pair _ _ := True
  step _ _ _ _ _ shared own permitted answered :=
    ⟨shared_step free shared own permitted answered,
      own_step own permitted answered⟩
  frame _ _ _ _ _ _ _ _ foreign _ permitted _ answered :=
    foreign.more (more_step permitted answered)
  apart _ _ _ _ _ _ _ _ _ _ _ _ _ := trivial
  symm _ _ := id

/-! ## Authentications -/

section Authentications

variable {env : Env} {record : Local} {name apiKey token : String}

/-- The record is one of the authentication of a credential. -/
def Asking (credential : Credential) (record : Local) : Prop :=
  record.credential = some credential

theorem Asking.permits
    {credential : Credential} {call : Call} (asking : Asking credential record)
    (asked : asks env record credential call) :
    (protocol env).permits record call := by
  have isTask : record.credential = some credential := asking
  unfold protocol
  simp only [isTask]
  exact asked

theorem Asking.advance
    {credential : Credential} (asking : Asking credential record)
    (call : Call) (reply : Except CoreError call.Reply) :
    Asking credential ((protocol env).advance record call reply) :=
  (credential_advance call reply).trans asking

/-- What is learned is what the authentication learns. -/
theorem Asking.learns
    {credential : Credential} (asking : Asking credential record)
    (call : Call) (reply : Except CoreError call.Reply) :
    (protocol env).advance record call reply =
      learns env record credential call reply := by
  have isTask : record.credential = some credential := asking
  unfold protocol
  simp only [isTask]

theorem verifyProject_follows
    (asking : Asking (.project name apiKey) record) :
    (AuthSvc.verifyProject env name apiKey (lookupHash env apiKey)).Follows
      (protocol env) (fun auth last => Asking (.project name apiKey) last ∧
        last.shown = some (.project auth)) (fun _ _ => True) record := by
  unfold AuthSvc.verifyProject
  have named : ((transact (.projectsGetByName name)).catchError
      fun _ => .fail .unauthorized : App Project).Follows (protocol env)
        (fun project last => Asking (.project name apiKey) last ∧
          last.led = some project) (fun _ _ => True) record := by
    refine @Program.Follows.catchError _ _ _ _ _ _ _ _ _ _ (fun _ _ => True)
      _ (Program.follows_perform (asking.permits rfl) (fun project => ?_)
        fun _ => trivial) fun _ _ _ => trivial
    refine ⟨asking.advance _ _, ?_⟩
    rw [asking.learns]
    rfl
  refine named.bind ?_
  rintro project led ⟨leads, there⟩
  refine Program.follows_perform_then
    (leads.permits ⟨by rw [there]; rfl, rfl⟩) fun row => ?_
  cases row with
  | none => trivial
  | some key =>
      simp only
      split
      · trivial
      · trivial
      · rename_i verified
        refine ⟨leads.advance _ _, ?_⟩
        rw [leads.learns]
        simp only [learns, passes, verified, if_true, there, Option.map_some]

theorem verifyAdmin_follows (asking : Asking (.admin token) record) :
    (AuthSvc.verifyAdmin env token (lookupHash env token)).Follows
      (protocol env) (fun auth last => Asking (.admin token) last ∧
        last.shown = some (.admin auth)) (fun _ _ => True) record := by
  unfold AuthSvc.verifyAdmin
  refine Program.follows_perform_then (asking.permits rfl) fun found => ?_
  cases found with
  | none => trivial
  | some row =>
      simp only
      split
      · trivial
      · trivial
      · rename_i verified
        refine ⟨asking.advance _ _, ?_⟩
        rw [asking.learns]
        simp only [learns, passes, verified, if_true]

/-- Every authentication follows the protocol. -/
theorem identify_follows (env : Env) (credential : Credential) :
    (identify env credential).Follows (protocol env) (fun _ _ => True)
      (fun _ _ => True) (.initial (some credential)) := by
  have asking : Asking credential (.initial (some credential)) := rfl
  cases credential with
  | project name apiKey =>
      suffices follows : (AuthSvc.authenticateProject env name apiKey).Follows
          (protocol env) (fun _ _ => True) (fun _ _ => True) _ from
        follows.bind fun _ _ _ => trivial
      unfold AuthSvc.authenticateProject
      refine Program.follows_perform_then (asking.permits ⟨rfl, rfl⟩)
        fun cached => ?_
      cases cached with
      | some auth => trivial
      | none =>
          refine (verifyProject_follows (asking.advance _ _)).bind ?_
          rintro auth last ⟨asking, shown⟩
          exact Program.follows_perform_then
            (asking.permits ⟨rfl, rfl, shown⟩) fun _ => trivial
  | admin token =>
      suffices follows : (AuthSvc.authenticateAdmin env token).Follows
          (protocol env) (fun _ _ => True) (fun _ _ => True) _ from
        follows.bind fun _ _ _ => trivial
      unfold AuthSvc.authenticateAdmin
      refine Program.follows_perform_then (asking.permits ⟨rfl, rfl⟩)
        fun cached => ?_
      cases cached with
      | some auth => trivial
      | none =>
          refine (verifyAdmin_follows (asking.advance _ _)).bind ?_
          rintro auth last ⟨asking, shown⟩
          exact Program.follows_perform_then
            (asking.permits ⟨rfl, rfl, shown⟩) fun _ => trivial

end Authentications

/-! ## What the replies decide -/

/-- What is seen of an authentication. -/
inductive Sign
  | settled (result : Except CoreError Identity)
  | named (project : Project)
  | keyed (projectId : Int) (key : ApiKey)
  | failed

/-- What is seen of a reply. -/
def signOf (env : Env) (credential : Credential) :
    (request : Call) → Except CoreError request.Reply → Option Sign
  | .db (.projectsGetByName _), .error (.notFound _) =>
      some (.settled (.error .unauthorized))
  | _, .error _ => some .failed
  | .projectCacheGet .., .ok (some auth) =>
      some (.settled (.ok (.project auth)))
  | .adminCacheGet .., .ok (some auth) => some (.settled (.ok (.admin auth)))
  | .db (.projectsGetByName _), .ok project => some (.named project)
  | .db (.apiKeysFindActive ..), .ok none =>
      some (.settled (.error .unauthorized))
  | .db (.apiKeysFindActive id _), .ok (some key) => some (.keyed id key)
  | .db (.adminTokensFindActive _), .ok none =>
      some (.settled (.error .unauthorized))
  | .db (.adminTokensFindActive _), .ok (some row) =>
      some (.settled (verdict env (secret credential) row.tokenHash
        (.admin ⟨row.id, row.label⟩)))
  | _, _ => none

/-- The result follows from what was seen. -/
inductive Explains
    (env : Env) (credential : Credential) (result : Except CoreError Identity)
    (seen : List Sign) : Prop
  | settled (among : .settled result ∈ seen)
  | keyed
      {project : Project} {key : ApiKey}
      (named : .named project ∈ seen) (found : .keyed project.id key ∈ seen)
      (same : result = verdict env (secret credential) key.keyHash
        (.project ⟨project.id, project.name, key.id, key.role⟩))
  | failed
      {error : CoreError} (refused : result = .error error)
      (among : .failed ∈ seen)

/-- What more is seen explains no less. -/
theorem Explains.more
    {env : Env} {credential : Credential} {result : Except CoreError Identity}
    {seen : List Sign} (explains : Explains env credential result seen)
    (later : List Sign) : Explains env credential result (seen ++ later) := by
  cases explains with
  | settled among => exact .settled (List.mem_append_left _ among)
  | keyed named found same =>
      exact .keyed (List.mem_append_left _ named)
        (List.mem_append_left _ found) same
  | failed refused among =>
      exact .failed refused (List.mem_append_left _ among)

section Seen

variable {env : Env} {credential : Credential} {seen : List Sign}

/-- What is watched of the authentication of a credential. -/
abbrev watching (env : Env) (credential : Credential) :
    Protocol Call Call.Reply CoreError (List Sign) :=
  observing (signOf env credential) fun _ => True

/-- A failure explains every refusal. -/
theorem explains_of_error
    {request : Call} {error refusal : CoreError}
    (sign : signOf env credential request (.error error) = some .failed) :
    Explains env credential (.error refusal)
      ((watching env credential).advance seen request (.error error)) := by
  refine .failed rfl (List.mem_append_right _ ?_)
  rw [sign]
  exact List.mem_cons_self

/-- The lookups of a verification explain its result. -/
theorem verifyProject_watched (name apiKey : String) :
    (AuthSvc.verifyProject env name apiKey (lookupHash env apiKey)).Follows
      (watching env (.project name apiKey))
      (fun auth seen => Explains env (.project name apiKey)
        (.ok (.project auth)) seen)
      (fun error seen => Explains env (.project name apiKey) (.error error)
        seen) seen := by
  unfold AuthSvc.verifyProject
  have named : ((transact (.projectsGetByName name)).catchError
      fun _ => .fail .unauthorized : App Project).Follows
        (watching env (.project name apiKey))
        (fun project seen => .named project ∈ seen)
        (fun error seen => Explains env (.project name apiKey) (.error error)
          seen) seen := by
    refine @Program.Follows.catchError _ _ _ _ _ _ _ _ _ _
      (fun _ seen => Explains env (.project name apiKey)
        (.error .unauthorized) seen) _
      (Program.follows_perform (fun _ => trivial) (fun project => ?_)
        fun error => ?_) fun _ _ explains => explains
    · exact List.mem_append_right _ List.mem_cons_self
    · cases error with
      | notFound what =>
          exact .settled (List.mem_append_right _ List.mem_cons_self)
      | _ => exact explains_of_error rfl
  refine named.bind ?_
  intro project seen among
  refine Program.follows_perform_next (fun _ => trivial) (fun row => ?_)
    fun error => explains_of_error rfl
  cases row with
  | none => exact .settled (List.mem_append_right _ List.mem_cons_self)
  | some key =>
      have keyed (result : Except CoreError Identity)
          (same : result = verdict env apiKey key.keyHash
            (.project ⟨project.id, project.name, key.id, key.role⟩)) :
          Explains env (.project name apiKey) result
            (seen ++ [.keyed project.id key]) :=
        .keyed (List.mem_append_left _ among)
          (List.mem_append_right _ List.mem_cons_self) same
      simp only
      split
      · rename_i verified
        exact keyed _ (by rw [verdict, verified])
      · rename_i verified
        exact keyed _ (by rw [verdict, verified])
      · rename_i verified
        exact keyed _ (by rw [verdict, verified])

theorem verifyAdmin_watched (token : String) :
    (AuthSvc.verifyAdmin env token (lookupHash env token)).Follows
      (watching env (.admin token))
      (fun auth seen => Explains env (.admin token) (.ok (.admin auth)) seen)
      (fun error seen => Explains env (.admin token) (.error error) seen)
      seen := by
  unfold AuthSvc.verifyAdmin
  refine Program.follows_perform_next (fun _ => trivial) (fun found => ?_)
    fun error => explains_of_error rfl
  cases found with
  | none => exact .settled (List.mem_append_right _ List.mem_cons_self)
  | some row =>
      have settled (result : Except CoreError Identity)
          (same : result = verdict env token row.tokenHash
            (.admin ⟨row.id, row.label⟩)) :
          Explains env (.admin token) result
            (seen ++ [.settled (verdict env token row.tokenHash
              (.admin ⟨row.id, row.label⟩))]) := by
        rw [same]
        exact .settled (List.mem_append_right _ List.mem_cons_self)
      simp only
      split
      · rename_i verified
        exact settled _ (by rw [verdict, verified])
      · rename_i verified
        exact settled _ (by rw [verdict, verified])
      · rename_i verified
        exact settled _ (by rw [verdict, verified])

/-- What is seen of an authentication explains its result. -/
theorem identify_watched (env : Env) (credential : Credential) :
    (identify env credential).Follows (watching env credential)
      (fun identity seen => Explains env credential (.ok identity) seen)
      (fun error seen => Explains env credential (.error error) seen) [] := by
  cases credential with
  | project name apiKey =>
      suffices follows : (AuthSvc.authenticateProject env name apiKey).Follows
          (watching env (.project name apiKey))
          (fun auth seen => Explains env (.project name apiKey)
            (.ok (.project auth)) seen)
          (fun error seen => Explains env (.project name apiKey)
            (.error error) seen) [] from
        follows.bind fun _ _ explains => explains
      unfold AuthSvc.authenticateProject
      refine Program.follows_perform_next (fun _ => trivial) (fun cached => ?_)
        fun error => explains_of_error rfl
      cases cached with
      | some auth =>
          exact .settled (List.mem_append_right _ List.mem_cons_self)
      | none =>
          refine (verifyProject_watched name apiKey).bind ?_
          intro auth seen explains
          exact Program.follows_perform_next (fun _ => trivial)
            (fun _ => explains.more _) fun error => explains_of_error rfl
  | admin token =>
      suffices follows : (AuthSvc.authenticateAdmin env token).Follows
          (watching env (.admin token))
          (fun auth seen => Explains env (.admin token) (.ok (.admin auth))
            seen)
          (fun error seen => Explains env (.admin token) (.error error)
            seen) [] from
        follows.bind fun _ _ explains => explains
      unfold AuthSvc.authenticateAdmin
      refine Program.follows_perform_next (fun _ => trivial) (fun cached => ?_)
        fun error => explains_of_error rfl
      cases cached with
      | some auth =>
          exact .settled (List.mem_append_right _ List.mem_cons_self)
      | none =>
          refine (verifyAdmin_watched token).bind ?_
          intro auth seen explains
          exact Program.follows_perform_next (fun _ => trivial)
            (fun _ => explains.more _) fun error => explains_of_error rfl

end Seen

/-! ## What a step of an authentication tells -/

/-- The database failed in this step. -/
def Fails (event : Event Call Call.Reply CoreError World) : Prop :=
  ∃ call, event = ⟨event.before, .db call,
    .error (.database .unavailable), event.after⟩

/-- What a sign says of the rows at its step. -/
def Sign.Tells
    (env : Env) (credential : Credential)
    (event : Event Call Call.Reply CoreError World) : Sign → Prop
  | .settled result => decided env event.before.db credential = result
  | .named project => ∃ apiKey, credential = .project project.name apiKey
  | .keyed id key => ∀ name apiKey, credential = .project name apiKey →
      decided env event.before.db credential =
        verdict env apiKey key.keyHash (.project ⟨id, name, key.id, key.role⟩)
  | .failed => Fails event

section Told

variable {env : Env} {config : Config} {secrets : Set Bytes}
variable {credential : Credential} {record : Local} {request : Call}
variable {before after : World}

theorem signOf_unavailable (call : DbCall) :
    signOf env credential (.db call) (.error (.database .unavailable)) =
      some .failed := by
  cases call <;> rfl

/-- A call of an authentication is only refused by the database, unless the
name of its project leads nowhere. -/
theorem refused_tells
    {error : CoreError} {sign : Sign}
    (asked : asks env record credential request)
    (answered : Faulty env config request before (.error error) after)
    (seen : signOf env credential request (.error error) = some sign) :
    sign.Tells env credential ⟨before, request, .error error, after⟩ := by
  cases answered with
  | dbFault call =>
      cases (signOf_unavailable call).symm.trans seen
      exact ⟨call, rfl⟩
  | fsFault | tornWrite => cases credential <;> exact asked.elim
  | exact answered =>
      unfold asks at asked
      split at asked
      case h_2 name apiKey asked =>
        simp only [exec, DbCall.exec] at answered
        cases named : Projects.getByName before.db name with
        | ok found =>
            rw [asked, named] at answered
            cases answered
        | error refusal =>
            have decides : decided env before.db (.project name apiKey) =
                .error .unauthorized := by
              simp only [decided, AuthSvc.verified, named]
              rfl
            rw [asked, named] at answered
            cases answered
            unfold Projects.getByName at named
            split at named
            · cases named
            · cases named
              cases seen
              exact decides
      all_goals first | exact asked.elim | cases answered

/-- What a cache answers is one of its entries. -/
theorem hit_of_answer
    {scope lookup : String} {auth : ProjectAuth}
    (answered : Faulty env config (.projectCacheGet scope lookup) before
      (.ok (some auth)) after) :
    ∃ cached ∈ before.projectCache, cached.scope = scope ∧
      cached.lookup = lookup ∧ cached.value = auth := by
  cases answered with
  | exact answered =>
      simp only [exec, Option.some.injEq, Prod.mk.injEq, Except.ok.injEq]
        at answered
      obtain ⟨cached, present, sameScope, sameLookup, -, same⟩ :=
        VerifyCache.mem_of_get answered.1
      exact ⟨cached, present, sameScope, sameLookup, same⟩

theorem adminHit_of_answer
    {scope lookup : String} {auth : AdminAuth}
    (answered : Faulty env config (.adminCacheGet scope lookup) before
      (.ok (some auth)) after) :
    ∃ cached ∈ before.adminCache, cached.lookup = lookup ∧
      cached.value = auth := by
  cases answered with
  | exact answered =>
      simp only [exec, Option.some.injEq, Prod.mk.injEq, Except.ok.injEq]
        at answered
      obtain ⟨cached, present, -, sameLookup, -, same⟩ :=
        VerifyCache.mem_of_get answered.1
      exact ⟨cached, present, sameLookup, same⟩

/-- The project that the name led to is in the rows. -/
theorem led_stored
    {name apiKey : String} {id : Int}
    (own : Own env secrets record before)
    (isTask : record.credential = some (.project name apiKey))
    (leads : record.led.map Project.id = some id) :
    ∃ row ∈ before.db.projects.rows, row.id = id ∧ row.name = name := by
  obtain ⟨project, led, rfl⟩ := Option.map_eq_some_iff.mp leads
  exact (own.led name apiKey project isTask led).2

/-- What is seen of a reply is so. -/
theorem sign_tells
    {reply : Except CoreError request.Reply} {sign : Sign}
    (shared : Shared env secrets before)
    (own : Own env secrets record before)
    (isTask : record.credential = some credential)
    (asked : asks env record credential request)
    (answered : Faulty env config request before reply after)
    (seen : signOf env credential request reply = some sign) :
    sign.Tells env credential ⟨before, request, reply, after⟩ := by
  cases reply with
  | error error => exact refused_tells asked answered seen
  | ok value =>
      unfold asks at asked
      split at asked
      case h_1 name apiKey scope lookup =>
        obtain ⟨rfl, rfl⟩ := asked
        cases value with
        | none => cases seen
        | some auth =>
            cases seen
            obtain ⟨cached, present, sameScope, sameLookup, rfl⟩ :=
              hit_of_answer answered
            exact shared.projects cached present name apiKey
              (own.listed _ isTask) sameScope sameLookup
      case h_2 name apiKey asked =>
        cases seen
        have named := (named_of_answer answered).2.trans asked
        exact ⟨apiKey, by rw [named]⟩
      case h_3 name apiKey id lookup =>
        obtain ⟨leads, rfl⟩ := asked
        obtain ⟨row, stored, rfl, named⟩ := led_stored own isTask leads
        have decides : decided env before.db (.project name apiKey) = _ :=
          decided_of_named stored named
        rw [found_of_answer answered] at decides
        cases value with
        | none =>
            cases seen
            exact decides
        | some key =>
            cases seen
            rintro _ _ ⟨⟩
            exact decides
      case h_4 => cases seen
      case h_5 token scope lookup =>
        obtain ⟨rfl, rfl⟩ := asked
        cases value with
        | none => cases seen
        | some auth =>
            cases seen
            obtain ⟨cached, present, sameLookup, rfl⟩ :=
              adminHit_of_answer answered
            exact shared.admins cached present token (own.listed _ isTask)
              sameLookup
      case h_6 token lookup =>
        have decides : decided env before.db (.admin token) = _ :=
          decided_admin
        rw [asked] at answered
        rw [foundToken_of_answer answered] at decides
        cases value with
        | none =>
            cases seen
            exact decides
        | some row =>
            cases seen
            exact decides
      case h_7 => cases seen
      case h_8 => exact asked.elim

end Told

/-! ## Runs -/

section Runs

variable {ι : Type}

/-- A program that leaves the caches alone and takes no credential back. -/
structure Bystander where
  program : App (Option (Except CoreError Identity))
  spares : program.Uses Spares fun _ => True

/-- What runs next to each other. -/
inductive Task
  | authenticate (credential : Credential)
  | other (bystander : Bystander)

/-- The program of a task. -/
def Task.program
    (env : Env) : Task → App (Option (Except CoreError Identity))
  | .authenticate credential => do
      let answer ← (identify env credential).toExcept
      pure (some answer)
  | .other bystander => bystander.program

/-- The credential that a task authenticates. -/
def Task.credential : Task → Option Credential
  | .authenticate credential => some credential
  | .other _ => none

abbrev Tasks (ι : Type) : Type :=
  Pool ι Call Call.Reply CoreError (Option (Except CoreError Identity)) World
    Unit

abbrev Steps (ι : Type) : Type :=
  List (Moment ι Call Call.Reply CoreError World)

/-- The tasks at the start. -/
def launch (env : Env) (tasks : ι → Task) (start : World) : Tasks ι :=
  .launch () (fun thread => (tasks thread).program env) start

/-- The tasks take these steps, one call at a time and in any order. -/
abbrev Ran
    [DecidableEq ι] (env : Env) (config : Config) (tasks : ι → Task)
    (start : World) (moments : Steps ι) (pool : Tasks ι) : Prop :=
  Pool.Run (Program.within fun _ => True) (Faulty env config)
    (launch env tasks start) moments pool

/-- The secrets that are presented. -/
def presented (tasks : ι → Task) : Set Bytes :=
  {content | ∃ thread credential,
    tasks thread = .authenticate credential ∧
      content = utf8 (secret credential)}

/-- The tasks with what they know. -/
abbrev Knowing (ι : Type) : Type :=
  Pool ι Call Call.Reply CoreError (Option (Except CoreError Identity)) World
    Local

/-- The tasks at the start, who know only what they have been given. -/
def knowing (env : Env) (tasks : ι → Task) (start : World) : Knowing ι where
  world := start
  threads thread := (tasks thread).program env
  records thread := .initial (tasks thread).credential

variable {env : Env} {config : Config} {tasks : ι → Task} {start : World}

/-- Every task follows the protocol. -/
theorem task_follows (env : Env) (task : Task) :
    (task.program env).Follows (protocol env) (fun _ _ => True)
      (fun _ _ => True) (.initial task.credential) := by
  cases task with
  | authenticate credential =>
      exact (identify_follows env credential).toExcept.bind
        fun _ _ _ => trivial
  | other bystander =>
      exact (bystander.spares.follows (fun _ spares => spares)
        fun _ _ _ => rfl).mono (fun _ _ _ => trivial) fun _ _ _ => trivial

/-- The tasks are disciplined at the start. -/
theorem knowing_disciplined
    (fresh : start.projectCache = [] ∧ start.adminCache = [])
    (free : env.CollisionFree (presented tasks)) :
    (knowing env tasks start).Disciplined (discipline env config free)
      fun _ _ _ => True where
  shared :=
    { projects := by
        intro cached present
        rw [knowing, fresh.1] at present
        cases present
      admins := by
        intro cached present
        rw [knowing, fresh.2] at present
        cases present }
  own thread _ :=
    { listed := by
        intro credential isTask
        refine ⟨thread, credential, ?_, rfl⟩
        have same : (tasks thread).credential = some credential := isTask
        cases task : tasks thread with
        | authenticate other =>
            rw [task] at same
            cases same
            rfl
        | other bystander =>
            rw [task] at same
            cases same
      led := by rintro _ _ _ - ⟨⟩
      shown := by rintro _ _ - ⟨⟩ }
  pair _ _ _ _ _ := trivial
  follows thread := task_follows env (tasks thread)

variable [DecidableEq ι]
variable {moments : Steps ι} {pool : Knowing ι}

/-- What holds of the tasks after any of their steps. -/
theorem knowing_run
    (fresh : start.projectCache = [] ∧ start.adminCache = [])
    (free : env.CollisionFree (presented tasks))
    (ran : Pool.Run (protocol env) (Faulty env config)
      (knowing env tasks start) moments pool) :
    pool.Disciplined (discipline env config free) (fun _ _ _ => True) ∧
      ∀ thread, (pool.records thread).credential =
        (tasks thread).credential := by
  have launched := @knowing_disciplined _ env config tasks start fresh free
  exact ⟨launched.reaches (ran.reaches.mono fun _ _ _ _ _ _ _ => trivial),
    ran.reaches.steady Local.credential fun _ => credential_advance⟩

/-- No credential is lost along a run. -/
theorem more_run
    {secrets : Set Bytes} {free : env.CollisionFree secrets}
    {source target : Knowing ι}
    (disciplined : source.Disciplined (discipline env config free)
      fun _ _ _ => True)
    (ran : Pool.Run (protocol env) (Faulty env config) source moments
      target) :
    More source.world.db target.world.db := by
  induction ran with
  | refl => exact .refl _
  | tail ran step inductionHypothesis =>
      have known := disciplined.reaches
        (ran.reaches.mono fun _ _ _ _ _ _ _ => trivial)
      obtain ⟨waiting, answered⟩ := step
      exact inductionHypothesis.trans
        (more_step (known.permits ⟨_, waiting⟩) answered)

/-- What is seen of a step of an authentication is so. -/
theorem moment_tells
    (fresh : start.projectCache = [] ∧ start.adminCache = [])
    (free : env.CollisionFree (presented tasks))
    (ran : Pool.Run (protocol env) (Faulty env config)
      (knowing env tasks start) moments pool)
    {moment : Moment ι Call Call.Reply CoreError World}
    (among : moment ∈ moments) {credential : Credential}
    (isTask : tasks moment.thread = .authenticate credential) {sign : Sign}
    (seen : signOf env credential moment.event.request moment.event.reply =
      some sign) :
    sign.Tells env credential moment.event := by
  obtain ⟨earlier, later, before, after, -, reached, step, sameBefore,
    sameAfter⟩ := ran.moment among
  obtain ⟨disciplined, about⟩ := knowing_run fresh free reached
  obtain ⟨thread, world, request, reply, last⟩ := moment
  cases sameBefore
  obtain ⟨waiting, answered⟩ := step
  cases sameAfter
  have issues : before.Issues thread request := ⟨_, waiting⟩
  have given : (before.records thread).credential = some credential := by
    rw [about thread, show tasks thread = .authenticate credential from isTask]
    rfl
  have permitted := disciplined.permits issues
  simp only [protocol, given] at permitted
  exact sign_tells disciplined.shared (disciplined.own thread issues.live)
    given permitted answered seen

/-- What is seen of a task explains its answer. -/
theorem answer_explained
    {pool : Tasks ι} (ran : Ran env config tasks start moments pool)
    {thread : ι} {credential : Credential}
    (isTask : tasks thread = .authenticate credential)
    {result : Except CoreError Identity}
    (ended : pool.threads thread = .done (some result)) :
    Explains env credential result (Pool.actionsOf thread
      (Pool.history (fun event => signOf env credential event.request
        event.reply) moments)) := by
  have follows : ((launch env tasks start).threads thread).Follows
      (watching env credential)
      (fun answer seen => ∀ result, answer = some result →
        Explains env credential result seen) (fun _ _ => True) [] := by
    change ((tasks thread).program env).Follows _ _ _ _
    rw [isTask]
    refine (identify_watched env credential).toExcept.bind ?_
    rintro (error | identity) seen explains result ⟨⟩
    · exact explains
    · exact explains
  exact (ran.observes (fun _ _ _ => rfl) trivial follows).2 _ ended result rfl

/-- Where no credential is taken back, the verification caches cannot be seen:
an authentication that the database did not fail is answered as the rows decide
right before one of its steps, and a credential that the rows accept before it
begins is accepted. -/
theorem caches_invisible
    (fresh : start.projectCache = [] ∧ start.adminCache = [])
    (free : env.CollisionFree (presented tasks))
    {pool : Tasks ι} (ran : Ran env config tasks start moments pool)
    {thread : ι} {credential : Credential}
    (isTask : tasks thread = .authenticate credential)
    {result : Except CoreError Identity}
    (ended : pool.threads thread = .done (some result)) :
    ((∃ error, result = .error error) ∧
      ∃ moment ∈ moments, moment.thread = thread ∧ Fails moment.event) ∨
    ((∃ moment ∈ moments, moment.thread = thread ∧
      decided env moment.event.before.db credential = result) ∧
    ∀ earlier first later identity, moments = earlier ++ first :: later →
      (∀ moment ∈ earlier, moment.thread ≠ thread) →
      decided env first.event.before.db credential = .ok identity →
        result = .ok identity) := by
  obtain ⟨records, observed⟩ := ran.observed (protocol env)
    fun thread => .initial (tasks thread).credential
  have tells {sign : Sign}
      (among : sign ∈ Pool.actionsOf thread
        (Pool.history (fun event => signOf env credential event.request
          event.reply) moments)) :
      ∃ moment ∈ moments, moment.thread = thread ∧
        sign.Tells env credential moment.event := by
    obtain ⟨moment, within, rfl, seen⟩ := Pool.mem_actionsOf.mp among
    exact ⟨moment, within, rfl,
      moment_tells fresh free observed within isTask seen⟩
  -- One step of the task decides, whichever way it went.
  have decisive : ((∃ error, result = .error error) ∧
      ∃ moment ∈ moments, moment.thread = thread ∧ Fails moment.event) ∨
      ∃ moment ∈ moments, moment.thread = thread ∧
        decided env moment.event.before.db credential = result := by
    cases answer_explained ran isTask ended with
    | settled among => exact .inr (tells among)
    | failed refused among => exact .inl ⟨⟨_, refused⟩, tells among⟩
    | @keyed project key named found same =>
        right
        obtain ⟨-, -, -, apiKey, rfl⟩ := tells named
        obtain ⟨moment, within, own, decides⟩ := tells found
        exact ⟨moment, within, own,
          (decides project.name apiKey rfl).trans same.symm⟩
  refine decisive.imp_right fun ⟨moment, within, own, decides⟩ =>
    ⟨⟨moment, within, own, decides⟩, ?_⟩
  rintro earlier first later identity rfl others accepted
  have among : moment ∈ first :: later :=
    (List.mem_append.mp within).resolve_left fun before =>
      others moment before own
  obtain ⟨middle, reached, rest⟩ := observed.split
  obtain ⟨part, -, target, -, -, onward, -, sameTarget, -⟩ :=
    rest.moment among
  have more := more_run (knowing_run fresh free reached).1 onward
  rw [rest.begins, sameTarget] at more
  exact decides.symm.trans (decided_more more accepted)

end Runs

/-! ## Two logins next to an operation -/

section Operations

/-- The operation takes no credential back. -/
def Harmless : Operation → Prop
  | .updateProject _ _ newName _ _ => newName = none
  | .deleteProject .. => False
  | _ => True

theorem spares_of_audit {request : Call} (audits : auditCalls request) :
    Spares request := by
  rcases audits with rfl | ⟨timestamp, actorToken, action, target, detail, rfl⟩
  · trivial
  · trivial

/-- An operation that takes no credential back is a bystander. -/
theorem operation_spares
    {operation : Operation} (harmless : Harmless operation) {request : Call}
    (called : operation.calls request) : Spares request := by
  cases operation with
  | put upload =>
      rcases called with written | recorded
      · cases request <;> trivial
      · cases request with
        | db call => cases call <;> trivial
        | _ => trivial
  | createProject | deleteEntry | pin | unpin =>
      rcases called with rfl | audits
      · trivial
      · exact spares_of_audit audits
  | updateProject auth id newName quotaBytes ttlSeconds =>
      rcases called with rfl | rfl | audits
      · exact harmless
      · trivial
      · exact spares_of_audit audits
  | deleteProject => exact harmless.elim
  | gcRun | orphanScan =>
      cases request with
      | db call => cases call <;> trivial
      | _ => trivial
  | touch | wait =>
      cases called
      trivial

/-- An operation as a bystander. -/
def Bystander.operation
    (env : Env) (config : Config) (budget : Nat) (operation : Operation)
    (harmless : Harmless operation) : Bystander where
  program := do
    let _ ← operation.program env config budget
    pure none
  spares :=
    ((Operation.program_uses env config budget operation).mono
      (fun _ => operation_spares harmless) fun _ => id).bind
        fun _ _ => trivial

end Operations

open RevocationLag (accepting keyed)

/-- Two logins with the key of a project, and the creation of another
project. -/
def returning : Fin 3 → Task
  | 0 => .authenticate (.project "acme" "a")
  | 1 => .authenticate (.project "acme" "a")
  | 2 => .other (.operation accepting (Sample.config 1024) 10
      (.createProject ⟨1, none⟩ "later" none none) trivial)

/-- Who a task has been identified as. -/
def identified :
    App (Option (Except CoreError Identity)) → Option Identity
  | .done (some (.ok identity)) => some identity
  | _ => none

theorem identified_spec
    {program : App (Option (Except CoreError Identity))} {identity : Identity}
    (known : identified program = some identity) :
    program = .done (some (.ok identity)) := by
  unfold identified at known
  split at known
  · cases known
    rfl
  · cases known

/-- The second login is answered from the cache, with what the rows decide. -/
theorem caches_invisible_hit :
    ∃ (moments : Steps (Fin 3)) (pool : Tasks (Fin 3)),
      Ran accepting (Sample.config 1024) returning keyed moments pool ∧
      pool.world.db.projects.rows.length = 2 ∧
      ∃ moment ∈ moments, moment.thread = 1 ∧
        decided accepting moment.event.before.db (.project "acme" "a") =
          .ok (.project ⟨1, "acme", 1, .write⟩) := by
  have ran : ((Pool.replay (Program.within fun _ => True)
      (exec accepting (Sample.config 1024)) (fun _ _ _ => true)
      [0, 0, 2, 0, 0, 1]
      (launch accepting returning keyed)).any fun pool =>
        decide (identified (pool.threads 1) =
          some (.project ⟨1, "acme", 1, .write⟩)) &&
          decide (pool.world.db.projects.rows.length = 2)) = true := by
    decide +kernel
  rw [Option.any_eq_true] at ran
  obtain ⟨pool, replayed, outcome⟩ := ran
  rw [Bool.and_eq_true, decide_eq_true_iff, decide_eq_true_iff] at outcome
  have reached : Pool.Reaches (Program.within fun _ => True)
      (Faulty accepting (Sample.config 1024)) (fun _ _ _ => True)
      (launch accepting returning keyed) pool :=
    Pool.reaches_of_free_replay (fun _ _ _ _ => .exact) replayed
  obtain ⟨moments, ran⟩ := reached.run
  have free : accepting.CollisionFree (presented returning) := by
    have known : presented returning ⊆ {utf8 "a"} := by
      rintro content ⟨thread, credential, isTask, rfl⟩
      match thread with
      | 0 =>
          cases isTask
          rfl
      | 1 =>
          cases isTask
          rfl
      | 2 => cases isTask
    intro first firstIn second secondIn _
    exact (known firstIn).trans (known secondIn).symm
  refine ⟨moments, pool, ran, outcome.2, ?_⟩
  rcases caches_invisible ⟨by decide +kernel, by decide +kernel⟩ free ran
    (show returning 1 = .authenticate _ from rfl)
    (identified_spec outcome.1) with
    ⟨⟨error, refused⟩, -⟩ | ⟨decided, -⟩
  · cases refused
  · exact decided

end SteadyCredentials

end Marmotte
