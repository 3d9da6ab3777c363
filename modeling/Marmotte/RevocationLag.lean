import Marmotte.Concurrency.Requests
import Marmotte.Footprints
import Marmotte.Frames

/-!
# How long a revoked credential is accepted

Authentications, revocations and deletions of projects, interleaved with the
passing of time.  A cached value lives as long as the cache says from the moment
of its insertion; so a credential is refused that long after its revocation,
provided that no verification which was under way at the revocation stores its
result at a later reading of the clock.
-/

namespace Marmotte

open Effects Tables

namespace RevocationLag

/-! ## Credentials and clients -/

/-- What a caller presents. -/
inductive Credential
  | project (name apiKey : String)
  | admin (token : String)

namespace Credential

/-- The key of a credential in its cache. -/
def scope : Credential → String
  | .project name _ => AuthSvc.projectScope name
  | .admin _ => "admin"

def lookup (env : Env) : Credential → String
  | .project _ apiKey => lookupHash env apiKey
  | .admin token => lookupHash env token

/-- No active row matches the credential. -/
def Revoked (env : Env) (credential : Credential) (db : Db) : Prop :=
  match credential with
  | .project name apiKey =>
      ∀ project ∈ db.projects.rows, project.name = name →
        ∀ key ∈ db.apiKeys.rows, key.projectId = project.id →
          key.keyLookup = lookupHash env apiKey → key.revokedAt ≠ none
  | .admin token =>
      ∀ row ∈ db.adminTokens.rows, row.tokenLookup = lookupHash env token →
        row.revokedAt ≠ none

/-- The authentication of a credential. -/
def authenticate (env : Env) : Credential → App Unit
  | .project name apiKey => do
      let _ ← AuthSvc.authenticateProject env name apiKey
      pure ()
  | .admin token => do
      let _ ← AuthSvc.authenticateAdmin env token
      pure ()

end Credential

/-- What runs next to each other.  A cache may drop a value at any time. -/
inductive Client
  | authenticate (credential : Credential)
  | revokeKey (projectId id : Int)
  | revokeToken (id : Int)
  | deleteProject (id : Int)
  | wait (nanos : Nat)
  | dropProject (scope lookup : String)
  | dropAdmin (scope lookup : String)

/-- The program of a client; only authentications have an answer. -/
def Client.program (env : Env) :
    Client → App (Option (Except CoreError Unit))
  | .authenticate credential => do
      let answer ← (credential.authenticate env).toExcept
      pure (some answer)
  | .revokeKey projectId id => do
      transact (.apiKeysRevoke projectId id)
      pure none
  | .revokeToken id => do
      transact (.adminTokensRevoke id)
      pure none
  | .deleteProject id => do
      transact (.projectsDelete id)
      pure none
  | .wait nanos => do
      Program.perform (Call.tick nanos)
      pure none
  | .dropProject scope lookup => do
      Program.perform (Call.projectCacheEvict scope lookup)
      pure none
  | .dropAdmin scope lookup => do
      Program.perform (Call.adminCacheEvict scope lookup)
      pure none

/-! ## The protocol -/

/-- What is recorded of a thread: whether it has made a call, the project that
the name of the watched credential led it to, and whether it got a reply that
the credential does not get once it is revoked. -/
structure Local where
  started : Bool
  project : Option Int
  astray : Bool

/-- No call has been made. -/
def Local.idle : Local := ⟨false, none, false⟩

/-- The reply is one that a revoked credential does not get. -/
def strays
    (env : Env) (watched : Credential) (record : Local) :
    (request : Call) → request.Reply → Bool
  | .projectCacheGet scope lookup, reply =>
      match watched with
      | .project .. => scope = watched.scope ∧ lookup = watched.lookup env ∧
          reply.isSome = true
      | .admin _ => false
  | .adminCacheGet scope lookup, reply =>
      match watched with
      | .project .. => false
      | .admin _ => scope = watched.scope ∧ lookup = watched.lookup env ∧
          reply.isSome = true
  | .db (.apiKeysFindActive id lookup), reply =>
      record.project = some id ∧ lookup = watched.lookup env ∧
        reply.isSome = true
  | .db (.adminTokensFindActive lookup), reply =>
      match watched with
      | .project .. => false
      | .admin _ => lookup = watched.lookup env ∧ reply.isSome = true
  | _, _ => false

/-- The project that a successful lookup of the watched name leads to. -/
def leads (watched : Credential) (record : Local) :
    (request : Call) → request.Reply → Option Int
  | .db (.projectsGetByName name), project =>
      match watched with
      | .project watchedName _ =>
          if name = watchedName then some project.id else none
      | .admin _ => none
  | _, _ => record.project

/-- The lookups that never fail. -/
def infallible : Call → Bool
  | .projectCacheGet .. => true
  | .adminCacheGet .. => true
  | .db (.apiKeysFindActive ..) => true
  | .db (.adminTokensFindActive _) => true
  | _ => false

/-- Authentications, revocations and deletions; every call marks its thread as
started. -/
def protocol (env : Env) (watched : Credential) :
    Protocol Call Call.Reply CoreError Local where
  permits _ request :=
    match request with
    | .db (.projectsGetByName _) => True
    | .db (.apiKeysFindActive ..) => True
    | .db (.adminTokensFindActive _) => True
    | .db (.apiKeysRevoke ..) => True
    | .db (.adminTokensRevoke _) => True
    | .db (.projectsDelete _) => True
    | .db _ => False
    | _ => True
  advance record request reply :=
    match reply with
    | .ok value =>
        ⟨true, leads watched record request value,
          record.astray || strays env watched record request value⟩
    | .error _ => ⟨true, record.project, record.astray || infallible request⟩

/-! ## Rows that go -/

/-- Every key of the project with this lookup is revoked. -/
def Barred (db : Db) (id : Int) (lookup : String) : Prop :=
  ∀ key ∈ db.apiKeys.rows, key.projectId = id → key.keyLookup = lookup →
    key.revokedAt ≠ none

/-- Rows may have gone and keys and tokens been revoked, and nothing else. -/
structure Fewer (before after : Db) : Prop where
  projects : ∀ project ∈ after.projects.rows, project ∈ before.projects.rows
  apiKeys : ∀ key ∈ after.apiKeys.rows, ∃ old ∈ before.apiKeys.rows,
    old.projectId = key.projectId ∧ old.keyLookup = key.keyLookup ∧
      (key.revokedAt = none → old.revokedAt = none)
  adminTokens : ∀ token ∈ after.adminTokens.rows,
    ∃ old ∈ before.adminTokens.rows, old.tokenLookup = token.tokenLookup ∧
      (token.revokedAt = none → old.revokedAt = none)

namespace Fewer

variable {env : Env} {before after : Db}

theorem refl (db : Db) : Fewer db db where
  projects _ := id
  apiKeys key present := ⟨key, present, rfl, rfl, id⟩
  adminTokens token present := ⟨token, present, rfl, id⟩

theorem barred
    {id : Int} {lookup : String}
    (fewer : Fewer before after) (barred : Barred before id lookup) :
    Barred after id lookup := by
  intro key present owned looked active
  obtain ⟨old, oldPresent, sameProject, sameLookup, wasActive⟩ :=
    fewer.apiKeys key present
  exact barred old oldPresent (sameProject.trans owned)
    (sameLookup.trans looked) (wasActive active)

/-- A credential stays revoked. -/
theorem revoked
    {credential : Credential}
    (fewer : Fewer before after) (revoked : credential.Revoked env before) :
    credential.Revoked env after := by
  cases credential with
  | project name apiKey =>
      intro project present named
      exact fewer.barred
        (revoked project (fewer.projects project present) named)
  | admin token =>
      intro row present looked active
      obtain ⟨old, oldPresent, sameLookup, wasActive⟩ :=
        fewer.adminTokens row present
      exact revoked old oldPresent (sameLookup.trans looked)
        (wasActive active)

end Fewer

theorem fewer_of_frame
    {writes : List TableName} {before after : Db}
    (frame : Db.Frame writes before after)
    (apart : ∀ table ∈ writes,
      table ≠ .projects ∧ table ≠ .apiKeys ∧ table ≠ .adminTokens) :
    Fewer before after where
  projects project present := by
    rwa [frame.projects fun written => (apart _ written).1 rfl] at present
  apiKeys key present := by
    rw [frame.apiKeys fun written => (apart _ written).2.1 rfl] at present
    exact ⟨key, present, rfl, rfl, id⟩
  adminTokens token present := by
    rw [frame.adminTokens fun written => (apart _ written).2.2 rfl] at present
    exact ⟨token, present, rfl, id⟩

theorem fewer_revokeKey
    {db after : Db} {now projectId keyId : Int} {reply : Unit}
    (ran : ApiKeys.revoke now db projectId keyId = .ok (reply, after)) :
    Fewer db after := by
  simp only [ApiKeys.revoke] at ran
  split at ran <;> cases ran
  refine ⟨fun _ => id, fun key present => ?_, (Fewer.refl db).adminTokens⟩
  simp only [Db.revokeApiKey, Series.update_rows, List.mem_map] at present
  obtain ⟨old, oldPresent, rfl⟩ := present
  refine ⟨old, oldPresent, ?_⟩
  split
  · exact ⟨rfl, rfl, by rintro ⟨⟩⟩
  · exact ⟨rfl, rfl, id⟩

theorem fewer_revokeToken
    {db after : Db} {now tokenId : Int} {reply : Unit}
    (ran : AdminTokens.revoke now db tokenId = .ok (reply, after)) :
    Fewer db after := by
  simp only [AdminTokens.revoke] at ran
  split at ran <;> cases ran
  refine ⟨fun _ => id, (Fewer.refl db).apiKeys, fun token present => ?_⟩
  simp only [Db.revokeAdminToken, Series.update_rows, List.mem_map] at present
  obtain ⟨old, oldPresent, rfl⟩ := present
  refine ⟨old, oldPresent, ?_⟩
  split
  · exact ⟨rfl, by rintro ⟨⟩⟩
  · exact ⟨rfl, id⟩

theorem fewer_deleteProject
    {db after : Db} {projectId : Int} {reply : Unit}
    (ran : Projects.delete db projectId = .ok (reply, after)) :
    Fewer db after := by
  simp only [Projects.delete] at ran
  split at ran <;> cases ran
  refine ⟨fun project present => ?_, fun key present => ?_,
    (Fewer.refl db).adminTokens⟩
  · exact ((db.projects.mem_delete _ project).mp present).1
  · exact ⟨key, ((db.apiKeys.mem_delete _ key).mp present).1, rfl, rfl, id⟩

section Steps

variable {env : Env} {config : Config} {watched : Credential}
variable {record : Local} {request : Call} {before after : World}
variable {reply : Except CoreError request.Reply}

/-- No permitted call adds a row or makes one active again. -/
theorem fewer_step
    (permitted : (protocol env watched).permits record request)
    (answered : exec env config request before = some (reply, after)) :
    Fewer before.db after.db := by
  rcases Faulty.commits (.exact answered) with same | ⟨call, value, rfl, ran⟩
  · rw [same]
    exact .refl _
  · cases call with
    | apiKeysRevoke projectId id => exact fewer_revokeKey ran
    | adminTokensRevoke id => exact fewer_revokeToken ran
    | projectsDelete id => exact fewer_deleteProject ran
    | projectsGetByName name =>
        exact fewer_of_frame (DbCall.exec_frame ran) (by simp [DbCall.writes])
    | apiKeysFindActive id lookup =>
        exact fewer_of_frame (DbCall.exec_frame ran) (by simp [DbCall.writes])
    | adminTokensFindActive lookup =>
        exact fewer_of_frame (DbCall.exec_frame ran) (by simp [DbCall.writes])
    | _ => exact permitted.elim

/-! ## Cached values that age -/

/-- No cached value was stored later than now. -/
def Punctual (world : World) : Prop :=
  (∀ cached ∈ world.projectCache, cached.insertedAt ≤ world.instant) ∧
    ∀ cached ∈ world.adminCache, cached.insertedAt ≤ world.instant

theorem punctual_step
    (punctual : Punctual before)
    (answered : exec env config request before = some (reply, after)) :
    Punctual after := by
  have clock := Faulty.instant (.exact answered)
  constructor
  · intro cached present
    rcases Faulty.projectCache (.exact answered) present with
      old | ⟨_, _, _, -, rfl⟩
    · exact (punctual.1 cached old).trans clock
    · exact clock
  · intro cached present
    rcases Faulty.adminCache (.exact answered) present with
      old | ⟨_, _, _, -, rfl⟩
    · exact (punctual.2 cached old).trans clock
    · exact clock

/-- What is cached for the credential was stored by this moment. -/
def StoredBy
    (env : Env) (credential : Credential) (moment : Int) (world : World) :
    Prop :=
  match credential with
  | .project name apiKey =>
      ∀ cached ∈ world.projectCache,
        cached.scope = AuthSvc.projectScope name →
          cached.lookup = lookupHash env apiKey → cached.insertedAt ≤ moment
  | .admin token =>
      ∀ cached ∈ world.adminCache, cached.scope = "admin" →
        cached.lookup = lookupHash env token → cached.insertedAt ≤ moment

theorem Punctual.storedBy
    {moment : Int} (punctual : Punctual before) (past : before.instant ≤ moment) :
    StoredBy env watched moment before := by
  cases watched with
  | project name apiKey =>
      exact fun cached present _ _ => (punctual.1 cached present).trans past
  | admin token =>
      exact fun cached present _ _ => (punctual.2 cached present).trans past

/-- The call stores a verification of the credential. -/
def Credential.Inserts (env : Env) (credential : Credential) : Call → Prop
  | .projectCacheInsert scope lookup _ =>
      match credential with
      | .project .. => scope = credential.scope ∧ lookup = credential.lookup env
      | .admin _ => False
  | .adminCacheInsert scope lookup _ =>
      match credential with
      | .project .. => False
      | .admin _ => scope = credential.scope ∧ lookup = credential.lookup env
  | _ => False

theorem storedBy_step
    {moment : Int}
    (stored : StoredBy env watched moment before)
    (prompt : watched.Inserts env request → before.instant ≤ moment)
    (answered : exec env config request before = some (reply, after)) :
    StoredBy env watched moment after := by
  cases watched with
  | project name apiKey =>
      intro cached present named looked
      rcases Faulty.projectCache (.exact answered) present with
        old | ⟨_, _, _, rfl, rfl⟩
      · exact stored cached old named looked
      · exact prompt ⟨named, looked⟩
  | admin token =>
      intro cached present named looked
      rcases Faulty.adminCache (.exact answered) present with
        old | ⟨_, _, _, rfl, rfl⟩
      · exact stored cached old named looked
      · exact prompt ⟨named, looked⟩

/-- A lookup in a cache does not find a value that is older than its time to
live. -/
theorem get_aged
    {V : Type} {cache : VerifyCache V} {scope lookup : String}
    {moment instant : Int} {ttl : Nat}
    (stored : ∀ cached ∈ cache, cached.scope = scope →
      cached.lookup = lookup → cached.insertedAt ≤ moment)
    (passed : moment + ttl * nanosPerSec ≤ instant) :
    VerifyCache.get cache scope lookup instant ttl = none := by
  rw [Option.eq_none_iff_forall_ne_some]
  intro value hit
  obtain ⟨cached, present, named, looked, alive, -⟩ :=
    VerifyCache.mem_of_get hit
  have early := stored cached present named looked
  omega

/-! ## What a late authentication knows -/

/-- Nothing spoke for the watched credential, and the project that its name led
to has no key for it. -/
structure Knows (env : Env) (watched : Credential) (record : Local) (db : Db) :
    Prop where
  onCourse : record.astray = false
  barred : ∀ id, record.project = some id →
    Barred db id (watched.lookup env)

theorem Knows.fewer
    {db after : Db}
    (knows : Knows env watched record db) (fewer : Fewer db after) :
    Knows env watched record after :=
  ⟨knows.onCourse, fun id led => fewer.barred (knows.barred id led)⟩

/-- No reply speaks for the credential. -/
theorem strays_eq_false
    {moment : Int} {value : request.Reply}
    (revoked : watched.Revoked env before.db)
    (stored : StoredBy env watched moment before)
    (late : moment + config.auth.verifyCacheTtlSecs * nanosPerSec ≤
      before.instant)
    (knows : Knows env watched record before.db)
    (answered : exec env config request before = some (.ok value, after)) :
    strays env watched record request value = false := by
  cases request with
  | projectCacheGet scope lookup =>
      cases answered
      cases watched with
      | admin token => rfl
      | project name apiKey =>
          simp only [strays, decide_eq_false_iff_not]
          rintro ⟨rfl, rfl, hit⟩
          have missed := get_aged stored late
          simp [Credential.scope, Credential.lookup, missed] at hit
  | adminCacheGet scope lookup =>
      cases answered
      cases watched with
      | project name apiKey => rfl
      | admin token =>
          simp only [strays, decide_eq_false_iff_not]
          rintro ⟨rfl, rfl, hit⟩
          have missed := get_aged stored late
          simp [Credential.scope, Credential.lookup, missed] at hit
  | db call =>
      cases call with
      | apiKeysFindActive id lookup =>
          cases answered
          simp only [strays, decide_eq_false_iff_not]
          rintro ⟨led, rfl, hit⟩
          obtain ⟨key, found⟩ := Option.isSome_iff_exists.mp hit
          obtain ⟨present, selected⟩ := Table.mem_of_find? found
          simp only [decide_eq_true_eq] at selected
          exact knows.barred id led key present selected.1 selected.2.1
            selected.2.2
      | adminTokensFindActive lookup =>
          cases answered
          cases watched with
          | project name apiKey => rfl
          | admin token =>
              simp only [strays, decide_eq_false_iff_not]
              rintro ⟨rfl, hit⟩
              obtain ⟨row, found⟩ := Option.isSome_iff_exists.mp hit
              obtain ⟨present, selected⟩ := Table.mem_of_find? found
              simp only [decide_eq_true_eq] at selected
              exact revoked row present selected.1 selected.2
      | _ => rfl
  | _ => rfl

/-- The watched name leads only to a project without a key for it. -/
theorem leads_barred
    {value : request.Reply} {id : Int}
    (revoked : watched.Revoked env before.db)
    (knows : Knows env watched record before.db)
    (answered : exec env config request before = some (.ok value, after))
    (led : leads watched record request value = some id) :
    Barred before.db id (watched.lookup env) := by
  cases request with
  | db call =>
      cases call with
      | projectsGetByName name =>
          cases watched with
          | admin token => cases led
          | project watchedName apiKey =>
              simp only [leads] at led
              split at led <;> cases led
              rename_i same
              subst same
              rcases Faulty.db_cases (.exact answered) with
                ⟨found, db, ran, same, -⟩ | ⟨error, failed, -⟩
              · cases same
                simp only [DbCall.exec, Projects.getByName, Except.map] at ran
                split at ran <;> cases ran
                rename_i selection
                split at selection <;> cases selection
                rename_i chosen
                obtain ⟨present, selected⟩ := Table.mem_of_find? chosen
                exact revoked _ present (of_decide_eq_true selected)
              · cases failed
      | _ => exact knows.barred id led
  | _ => exact knows.barred id led

/-- The lookups of an authentication do not fail. -/
theorem infallible_eq_false
    {error : CoreError}
    (answered : exec env config request before = some (.error error, after)) :
    infallible request = false := by
  cases request with
  | projectCacheGet _ _ => cases answered
  | adminCacheGet _ _ => cases answered
  | db call =>
      cases call with
      | apiKeysFindActive _ _ => cases answered
      | adminTokensFindActive _ => cases answered
      | _ => rfl
  | _ => rfl

theorem knows_step
    {moment : Int}
    (revoked : watched.Revoked env before.db)
    (stored : StoredBy env watched moment before)
    (late : moment + config.auth.verifyCacheTtlSecs * nanosPerSec ≤
      before.instant)
    (knows : Knows env watched record before.db)
    (permitted : (protocol env watched).permits record request)
    (answered : exec env config request before = some (reply, after)) :
    Knows env watched ((protocol env watched).advance record request reply)
      after.db := by
  refine Knows.fewer ?_ (fewer_step permitted answered)
  cases reply with
  | ok value =>
      refine ⟨?_, fun id led => leads_barred revoked knows answered led⟩
      have nothing := strays_eq_false revoked stored late knows answered
      simp [protocol, knows.onCourse, nothing]
  | error error =>
      refine ⟨?_, knows.barred⟩
      have fallible := infallible_eq_false answered
      simp [protocol, knows.onCourse, fallible]

end Steps

/-! ## The clients -/

section Clients

variable {env : Env} {watched : Credential}

/-- The credential is refused unless something spoke for it. -/
def Refused (error : CoreError) (last : Local) : Prop :=
  last.astray = false → error = .unauthorized

/-- What speaks for a credential is never forgotten. -/
theorem astray_advance
    {record : Local} (astray : record.astray = true)
    (request : Call) (reply : Except CoreError request.Reply) :
    ((protocol env watched).advance record request reply).astray = true := by
  cases reply <;> simp [protocol, astray]

theorem namedProject_follows (name apiKey : String) (record : Local) :
    ((transact (.projectsGetByName name)).catchError
      fun _ => .fail .unauthorized : App Project).Follows
        (protocol env (.project name apiKey))
        (fun project last => last.project = some project.id) Refused
        record := by
  refine @Program.Follows.catchError _ _ _ _ _ _ _ _ _ _ (fun _ _ => True) _
    (Program.follows_perform trivial (fun project => ?_) fun _ => trivial)
    fun _ _ _ _ => rfl
  simp [protocol, leads]

/-- A verification finds a key only if the key speaks for the credential. -/
theorem verifyProject_follows (name apiKey : String) (record : Local) :
    (AuthSvc.verifyProject env name apiKey (lookupHash env apiKey)).Follows
      (protocol env (.project name apiKey))
      (fun _ last => last.astray = true) Refused record := by
  refine (namedProject_follows name apiKey record).bind fun project led here => ?_
  refine Program.follows_perform_next trivial (fun row => ?_)
    fun _ calm => ?_
  · cases row with
    | none => exact fun _ => rfl
    | some key =>
        have spoken : ((protocol env (.project name apiKey)).advance led
            (.db (.apiKeysFindActive project.id (lookupHash env apiKey)))
              (.ok (some key))).astray = true := by
          simp [protocol, strays, here, Credential.lookup]
        simp only
        split
        · exact fun calm => absurd (calm.symm.trans spoken) (by simp)
        · exact fun _ => rfl
        · exact spoken
  · simp [protocol, infallible] at calm

/-- An authentication succeeds only if something spoke for the credential, and
is otherwise refused. -/
theorem authenticateProject_follows
    (name apiKey : String) (record : Local) :
    (AuthSvc.authenticateProject env name apiKey).Follows
      (protocol env (.project name apiKey))
      (fun _ last => last.astray = true) Refused record := by
  refine Program.follows_perform_next trivial (fun cached => ?_)
    fun _ calm => ?_
  · cases cached with
    | some auth =>
        simp [protocol, strays, Credential.scope, Credential.lookup]
    | none =>
        refine (verifyProject_follows name apiKey _).bind
          fun auth last astray => ?_
        refine Program.follows_perform_next trivial (fun _ => ?_)
          fun _ calm => ?_
        · exact astray_advance astray _ _
        · rw [astray_advance astray] at calm
          cases calm
  · simp [protocol, infallible] at calm

theorem verifyAdmin_follows (token : String) (record : Local) :
    (AuthSvc.verifyAdmin env token (lookupHash env token)).Follows
      (protocol env (.admin token))
      (fun _ last => last.astray = true) Refused record := by
  refine Program.follows_perform_next trivial (fun row => ?_)
    fun _ calm => ?_
  · cases row with
    | none => exact fun _ => rfl
    | some found =>
        have spoken : ((protocol env (.admin token)).advance record
            (.db (.adminTokensFindActive (lookupHash env token)))
              (.ok (some found))).astray = true := by
          simp [protocol, strays, Credential.lookup]
        simp only
        split
        · exact fun calm => absurd (calm.symm.trans spoken) (by simp)
        · exact fun _ => rfl
        · exact spoken
  · simp [protocol, infallible] at calm

theorem authenticateAdmin_follows (token : String) (record : Local) :
    (AuthSvc.authenticateAdmin env token).Follows
      (protocol env (.admin token))
      (fun _ last => last.astray = true) Refused record := by
  refine Program.follows_perform_next trivial (fun cached => ?_)
    fun _ calm => ?_
  · cases cached with
    | some auth =>
        simp [protocol, strays, Credential.scope, Credential.lookup]
    | none =>
        refine (verifyAdmin_follows token _).bind fun auth last astray => ?_
        refine Program.follows_perform_next trivial (fun _ => ?_)
          fun _ calm => ?_
        · exact astray_advance astray _ _
        · rw [astray_advance astray] at calm
          cases calm
  · simp [protocol, infallible] at calm

theorem authenticate_follows (record : Local) :
    (watched.authenticate env).Follows (protocol env watched)
      (fun _ last => last.astray = true) Refused record := by
  cases watched with
  | project name apiKey =>
      exact (authenticateProject_follows name apiKey record).bind
        fun _ _ astray => astray
  | admin token =>
      exact (authenticateAdmin_follows token record).bind
        fun _ _ astray => astray

/-- Any authentication may run. -/
theorem authenticate_uses (credential : Credential) :
    (credential.authenticate env).Uses authenticationCalls
      fun _ => True := by
  cases credential with
  | project name apiKey =>
      exact (AuthSvc.authenticateProject_uses env name apiKey).bind
        fun _ _ => trivial
  | admin token =>
      exact (AuthSvc.authenticateAdmin_uses env token).bind
        fun _ _ => trivial

theorem permits_authentication
    (record : Local) {request : Call} (used : authenticationCalls request) :
    (protocol env watched).permits record request := by
  cases request with
  | db call => cases call <;> first | exact used.elim | trivial
  | _ => trivial

/-- What the answer of a client says about its record. -/
def Answered
    (watched : Credential) (client : Client)
    (answer : Option (Except CoreError Unit)) (last : Local) : Prop :=
  client = .authenticate watched → last.astray = false →
    answer = some (.error .unauthorized)

theorem client_follows (client : Client) (record : Local) :
    (client.program env).Follows (protocol env watched)
      (Answered watched client) (fun _ _ => True) record := by
  cases client with
  | authenticate credential =>
      by_cases same : credential = watched
      · subst same
        refine ((authenticate_follows record).toExcept).bind ?_
        rintro answer last known - calm
        cases answer with
        | ok value => exact absurd (calm.symm.trans known) (by simp)
        | error error => rw [known calm]
      · refine Program.Follows.bind
          ((authenticate_uses credential).toExcept.anywhere
            (fun record _ => permits_authentication record) record) ?_
        rintro answer last - ⟨⟩
        exact absurd rfl same
  | wait nanos =>
      refine Program.follows_perform_then trivial fun _ => ?_
      rintro ⟨⟩
  | _ =>
      refine Program.follows_perform_then trivial fun _ => ?_
      rintro ⟨⟩

end Clients

/-! ## Runs -/

/-- Clients that run next to each other. -/
abbrev Clients (ι : Type) : Type :=
  Pool ι Call Call.Reply CoreError (Option (Except CoreError Unit)) World Local

/-- The clients, none of them started. -/
def launch (env : Env) (clients : ι → Client) (start : World) : Clients ι :=
  .launch .idle (fun thread => (clients thread).program env) start

/-- Which steps are considered from the revocation of a credential on. -/
abbrev Condition (ι : Type) : Type 1 :=
  Env → Credential → Int → Clients ι → ι → Call → Prop

/-- No verification of the credential is stored later than the revocation. -/
def Prompt {ι : Type} : Condition ι :=
  fun env credential revokedAt pool _ request =>
    credential.Inserts env request → pool.world.instant ≤ revokedAt

/-- An authentication that starts later than a time to live after the
revocation of its credential is refused. -/
def LagBounded
    [DecidableEq ι]
    (condition : Condition ι) (env : Env) (config : Config)
    (clients : ι → Client) (start : World) : Prop :=
  ∀ (credential : Credential) (thread : ι),
    clients thread = .authenticate credential →
  ∀ revoked : Clients ι,
    Pool.Reaches (protocol env credential) (exec env config).answers
      (fun _ _ _ => True) (launch env clients start) revoked →
    credential.Revoked env revoked.world.db →
  ∀ begun : Clients ι,
    Pool.Reaches (protocol env credential) (exec env config).answers
      (condition env credential revoked.world.instant) revoked begun →
    (begun.records thread).started = false →
    revoked.world.instant + config.auth.verifyCacheTtlSecs * nanosPerSec <
      begun.world.instant →
  ∀ final : Clients ι,
    Pool.Reaches (protocol env credential) (exec env config).answers
      (condition env credential revoked.world.instant) begun final →
    ∀ answer, final.threads thread = .done answer →
      answer = some (.error .unauthorized)

section Runs

variable [DecidableEq ι]
variable {env : Env} {config : Config} {watched : Credential}
variable {clients : ι → Client} {start : World}

/-- A thread that has not started has learned nothing. -/
def Unstarted (record : Local) : Prop :=
  record.started = false → record = .idle

theorem unstarted_advance
    (record : Local) (request : Call)
    (reply : Except CoreError request.Reply) :
    Unstarted ((protocol env watched).advance record request reply) := by
  cases reply <;> simp [Unstarted, protocol]

/-- From its revocation on, a credential stays revoked and no verification of
it is stored later. -/
structure Settled
    (env : Env) (watched : Credential) (revokedAt : Int) (world : World) :
    Prop where
  revoked : watched.Revoked env world.db
  stored : StoredBy env watched revokedAt world

omit [DecidableEq ι] in
theorem settled_step
    {revokedAt : Int} {pool : Clients ι} {thread : ι} {request : Call}
    {reply : Except CoreError request.Reply} {after : World}
    (settled : Settled env watched revokedAt pool.world)
    (prompt : Prompt env watched revokedAt pool thread request)
    (permitted : (protocol env watched).permits (pool.records thread) request)
    (answered : exec env config request pool.world = some (reply, after)) :
    Settled env watched revokedAt after :=
  ⟨(fewer_step permitted answered).revoked settled.revoked,
    storedBy_step settled.stored prompt answered⟩

/-- Every thread follows the protocol from where it is. -/
abbrev Following
    (env : Env) (watched : Credential) (clients : ι → Client)
    (pool : Clients ι) : Prop :=
  ∀ thread, (pool.threads thread).Follows (protocol env watched)
    (Answered watched (clients thread)) (fun _ _ => True)
    (pool.records thread)

/-- An authentication that starts late never learns anything that speaks for
its credential. -/
theorem late_knows
    {revokedAt : Int} {thread : ι} {begun final : Clients ι}
    (follows : Following env watched clients begun)
    (late : revokedAt + config.auth.verifyCacheTtlSecs * nanosPerSec <
      begun.world.instant)
    (settled : Settled env watched revokedAt begun.world)
    (idle : begun.records thread = .idle)
    (reached : Pool.Reaches (protocol env watched) (exec env config).answers
      (Prompt env watched revokedAt) begun final) :
    Knows env watched (final.records thread) final.world.db := by
  have initially : Knows env watched (begun.records thread) begun.world.db := by
    rw [idle]
    exact ⟨rfl, by rintro _ ⟨⟩⟩
  have known : revokedAt + config.auth.verifyCacheTtlSecs * nanosPerSec <
        final.world.instant ∧
      Settled env watched revokedAt final.world ∧
      Knows env watched (final.records thread) final.world.db := by
    refine @Pool.Reaches.preserves _ _ _ _ _ _ _ _ _ _ _ _ begun final
      (fun pool =>
        revokedAt + config.auth.verifyCacheTtlSecs * nanosPerSec <
            pool.world.instant ∧
          Settled env watched revokedAt pool.world ∧
          Knows env watched (pool.records thread) pool.world.db)
      ?_ follows ⟨late, settled, initially⟩ reached
    intro pool actor request next reply after ⟨late, settled, knows⟩ prompt
      _ permitted answered
    refine ⟨late.trans_le (Faulty.instant (.exact answered)),
      settled_step settled prompt permitted answered, ?_⟩
    by_cases same : thread = actor
    · subst same
      simpa [Pool.resume] using knows_step settled.revoked settled.stored
        late.le knows permitted answered
    · simpa [Pool.resume, same] using
        knows.fewer (fewer_step permitted answered)
  exact known.2.2

/-- While no verification that was under way at a revocation is stored after it,
the revocation takes effect within the time to live. -/
theorem lag_bounded
    (env : Env) (config : Config) (clients : ι → Client) (start : World)
    (punctual : Punctual start) :
    LagBounded Prompt env config clients start := by
  intro credential thread authenticates revoked untilRevoked gone begun
    untilBegun unstarted late final untilFinal answer ended
  have launched : Following env credential clients
      (launch env clients start) :=
    fun other => client_follows (clients other) .idle
  have revokedFollows := untilRevoked.follows launched
  have begunFollows := untilBegun.follows revokedFollows
  have onTime : Punctual revoked.world :=
    untilRevoked.keeps (fun _ _ _ _ _ held _ _ answered =>
      punctual_step held answered) launched punctual
  have settled : Settled env credential revoked.world.instant begun.world :=
    untilBegun.keeps (fun _ _ _ _ _ held prompt permitted answered =>
      settled_step held prompt permitted answered) revokedFollows
      ⟨gone, onTime.storedBy (Int.le_refl _)⟩
  have idle : ∀ other, Unstarted (begun.records other) :=
    untilBegun.records (fun _ _ _ _ _ _ _ _ _ => unstarted_advance _ _ _)
      revokedFollows
      (untilRevoked.records (fun _ _ _ _ _ _ _ _ _ => unstarted_advance _ _ _)
        launched fun _ _ => rfl)
  have knows := late_knows begunFollows late settled (idle thread unstarted)
    untilFinal
  have answers := untilFinal.follows begunFollows thread
  rw [ended] at answers
  exact answers authenticates knows.onCourse

end Runs

/-! ## A slow verification -/

/-- The sample environment with a verifier that accepts every secret. -/
def accepting : Env :=
  { Sample.env with verifyArgon2 := fun _ _ => .ok true }

/-- The project of the examples with one key. -/
def keyed : World :=
  ((transact (.apiKeysCreate 1 (lookupHash accepting "a") "hash" .write
    none)).run (exec accepting (Sample.config 1024)) oneProject).2

/-- Two authentications with a key, its revocation, and the passing of time. -/
def clients : Fin 4 → Client
  | 0 => .authenticate (.project "acme" "a")
  | 1 => .revokeKey 1 1
  | 2 => .wait (61 * nanosPerSec)
  | 3 => .authenticate (.project "acme" "a")

/-- The key of the project. -/
def key : Credential := .project "acme" "a"

instance (env : Env) (credential : Credential) (db : Db) :
    Decidable (credential.Revoked env db) :=
  match credential with
  | .project name apiKey =>
      inferInstanceAs (Decidable (∀ project ∈ db.projects.rows,
        project.name = name → ∀ key ∈ db.apiKeys.rows,
          key.projectId = project.id →
            key.keyLookup = lookupHash env apiKey → key.revokedAt ≠ none))
  | .admin token =>
      inferInstanceAs (Decidable (∀ row ∈ db.adminTokens.rows,
        row.tokenLookup = lookupHash env token → row.revokedAt ≠ none))

/-- Let the threads of a schedule take steps none of which stores a
verification, unless that is allowed. -/
def play
    (inserts : Bool) (schedule : List (Fin 4)) (pool : Clients (Fin 4)) :
    Option (Clients (Fin 4)) :=
  Pool.replay (protocol accepting key) (exec accepting (Sample.config 1024))
    (fun _ _ request =>
      match request with
      | .projectCacheInsert .. => inserts
      | .adminCacheInsert .. => inserts
      | _ => true)
    schedule pool

theorem reaches_of_play
    {schedule : List (Fin 4)} {start pool : Clients (Fin 4)}
    (played : play true schedule start = some pool) :
    Pool.Reaches (protocol accepting key)
      (exec accepting (Sample.config 1024)).answers (fun _ _ _ => True)
      start pool :=
  Pool.reaches_of_replay (fun _ _ _ _ => id) (fun _ _ _ _ => trivial) .refl
    played

theorem reaches_of_quiet_play
    {schedule : List (Fin 4)} {start pool : Clients (Fin 4)}
    {revokedAt : Int}
    (played : play false schedule start = some pool) :
    Pool.Reaches (protocol accepting key)
      (exec accepting (Sample.config 1024)).answers
      (Prompt accepting key revokedAt) start pool := by
  refine Pool.reaches_of_replay (fun _ _ _ _ => id) ?_ .refl played
  intro pool thread request quiet inserts
  cases request with
  | projectCacheInsert scope lookup value => cases quiet
  | adminCacheInsert scope lookup value => cases quiet
  | _ => cases inserts

/-- The client has ended with this answer. -/
def Answers
    (program : App (Option (Except CoreError Unit)))
    (expected : Except CoreError Unit → Bool) : Bool :=
  match program with
  | .done (some answer) => expected answer
  | _ => false

/-- Some steps up to the revocation of the key, more until the second
authentication starts, and its own steps. -/
def scene
    (observed : Fin 4) (inserts : Bool) (before between during : List (Fin 4))
    (expected : Except CoreError Unit → Bool) : Bool :=
  (play true before (launch accepting clients keyed)).any fun revoked =>
    decide (key.Revoked accepting revoked.world.db) &&
    (play inserts between revoked).any fun begun =>
      !(begun.records observed).started &&
      decide (revoked.world.instant + 60 * nanosPerSec < begun.world.instant) &&
      (play inserts during begun).any fun final =>
        Answers (final.threads observed) expected

theorem scene_spec
    {observed : Fin 4} {inserts : Bool} {before between during : List (Fin 4)}
    {expected : Except CoreError Unit → Bool}
    (played : scene observed inserts before between during expected = true) :
    ∃ revoked begun final : Clients (Fin 4),
      play true before (launch accepting clients keyed) = some revoked ∧
      key.Revoked accepting revoked.world.db ∧
      play inserts between revoked = some begun ∧
      (begun.records observed).started = false ∧
      revoked.world.instant + 60 * nanosPerSec < begun.world.instant ∧
      play inserts during begun = some final ∧
      ∃ answer, final.threads observed = .done (some answer) ∧
        expected answer = true := by
  simp only [scene, Option.any_eq_true, Bool.and_eq_true, decide_eq_true_eq,
    Bool.not_eq_true'] at played
  obtain ⟨revoked, first, gone, begun, second, ⟨unstarted, late⟩, final,
    third, ended⟩ := played
  refine ⟨revoked, begun, final, first, gone, second, unstarted, late, third,
    ?_⟩
  unfold Answers at ended
  split at ended
  · exact ⟨_, ‹_›, ended⟩
  · cases ended

theorem keyed_punctual : Punctual keyed := by
  constructor <;> rintro _ ⟨⟩

/-- A verification that was stored before the revocation is forgotten in
time. -/
theorem lag_bounded_prompt :
    ∃ revoked begun final : Clients (Fin 4),
      key.Revoked accepting revoked.world.db ∧
      revoked.world.instant + 60 * nanosPerSec < begun.world.instant ∧
      Pool.Reaches (protocol accepting key)
        (exec accepting (Sample.config 1024)).answers
        (Prompt accepting key revoked.world.instant) begun final ∧
      final.threads 3 = .done (some (.error .unauthorized)) := by
  have played : scene 3 false [0, 0, 0, 0, 1] [2] [3, 3, 3] (fun _ => true) =
      true := by decide +kernel
  obtain ⟨revoked, begun, final, first, gone, second, unstarted, late, third,
    answer, ended, -⟩ := scene_spec played
  have refused := lag_bounded accepting (Sample.config 1024) clients keyed
    keyed_punctual key 3 rfl revoked (reaches_of_play first) gone begun
    (reaches_of_quiet_play second) unstarted late final
    (reaches_of_quiet_play third) _ ended
  rw [refused] at ended
  exact ⟨revoked, begun, final, gone, late, reaches_of_quiet_play third,
    ended⟩

/-- A verification that outlasts the revocation is stored late, and is served
for a whole time to live from then on. -/
theorem slow_verification_outlives_revocation :
    Punctual keyed ∧
      ¬LagBounded (fun _ _ _ _ _ _ => True) accepting (Sample.config 1024)
        clients keyed := by
  refine ⟨keyed_punctual, fun bounded => ?_⟩
  have played : scene 3 true [0, 0, 0, 1] [2, 0] [3] (fun answer =>
      match answer with
      | .ok _ => true
      | .error _ => false) = true := by decide +kernel
  obtain ⟨revoked, begun, final, first, gone, second, unstarted, late, third,
    answer, ended, granted⟩ := scene_spec played
  have refused := bounded key 3 rfl revoked (reaches_of_play first) gone begun
    (reaches_of_play second) unstarted late final (reaches_of_play third) _
    ended
  cases refused
  cases granted

end RevocationLag

end Marmotte
