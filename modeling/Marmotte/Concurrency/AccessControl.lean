import Marmotte.AllOrNothing
import Marmotte.Credentials
import Marmotte.Effects.Chronicle
import Marmotte.Effects.Rely
import Marmotte.HeadAgreement

/-!
# Who may read and write entries

Requests with arbitrary headers and URLs, interleaved with each other and with
anything that stores nothing in the verification cache of projects: the creation
and revocation of keys, the creation, renaming and deletion of projects.  A
request touches the entries of a project only on the strength of a key that the
project had under the name in the URL.
-/

namespace Marmotte

open Effects Tables

namespace AccessControl

/-! ## The tasks -/

/-- The call stores nothing in the verification cache of projects. -/
def Spares : Call → Prop
  | .projectCacheInsert .. => False
  | _ => True

/-- A program that stores nothing in the verification cache of projects. -/
structure Bystander where
  program : App (Option Response)
  spares : program.Uses Spares fun _ => True

/-- What runs next to each other. -/
inductive Task
  | yocto (request : Yocto.Request)
  | other (bystander : Bystander)

/-- The program of a task. -/
def Task.program (env : Env) (config : Config) : Task → App (Option Response)
  | .yocto request => do
      let response ← Yocto.serve env config request
      pure (some response)
  | .other bystander => bystander.program

/-- Tasks and the databases that they have gone through. -/
abbrev Tasks (ι : Type) : Type :=
  Pool ι Call Call.Reply CoreError (Option Response) (Chronicle World Db) Unit

/-- The answers of a runtime in which any call of a transaction or to the file
system may fail. -/
abbrev answers
    (env : Env) (config : Config) :
    Answers Call Call.Reply CoreError (Chronicle World Db) :=
  Chronicle.answers World.db (Faulty env config)

/-- The tasks at the start of the server. -/
def launch
    (env : Env) (config : Config) (tasks : ι → Task) (start : World) :
    Tasks ι :=
  .launch () (fun thread => (tasks thread).program env config)
    (.begin World.db start)

/-- The tasks make steps, in any order. -/
abbrev Runs
    [DecidableEq ι] (env : Env) (config : Config) (start pool : Tasks ι) :
    Prop :=
  Pool.Reaches (Program.within fun _ => True) (answers env config)
    (fun _ _ _ => True) start pool

/-! ## Authorized requests -/

/-- The project had this name. -/
def Named (past : List Db) (projectId : Int) (name : String) : Prop :=
  ∃ db ∈ past, ∃ project ∈ db.projects.rows,
    project.id = projectId ∧ project.name = name

/-- The project had an active key with this secret and this role. -/
def Keyed
    (env : Env) (past : List Db) (projectId : Int) (secret : String)
    (role : Role) : Prop :=
  ∃ db ∈ past, ∃ key ∈ db.apiKeys.rows, key.projectId = projectId ∧
    key.keyLookup = lookupHash env secret ∧ key.revokedAt = none ∧
      env.verifyArgon2 secret key.keyHash = .ok true ∧ key.role = role

/-- The request may touch the entries of the project, with a key of this
role. -/
def Authorized
    (env : Env) (past : List Db) (request : Yocto.Request) (projectId : Int)
    (role : Role) : Prop :=
  ∃ basic, parseBasic env request.authorization = some basic ∧
    basic.user = request.project ∧ Named past projectId basic.user ∧
      Keyed env past projectId basic.pass role

/-- The secrets that the requests present. -/
def presented (env : Env) (tasks : ι → Task) : Set Bytes :=
  {secret | ∃ thread request basic, tasks thread = .yocto request ∧
    parseBasic env request.authorization = some basic ∧
      secret = utf8 basic.pass}

theorem Named.mono
    {past later : List Db} {projectId : Int} {name : String}
    (named : Named past projectId name) (grown : past ⊆ later) :
    Named later projectId name := by
  obtain ⟨db, among, project⟩ := named
  exact ⟨db, grown among, project⟩

theorem Keyed.mono
    {env : Env} {past later : List Db} {projectId : Int} {secret : String}
    {role : Role} (keyed : Keyed env past projectId secret role)
    (grown : past ⊆ later) : Keyed env later projectId secret role := by
  obtain ⟨db, among, key⟩ := keyed
  exact ⟨db, grown among, key⟩

/-! ## The protocol -/

/-- What a task knows from its own calls. -/
structure Local where
  /-- The request that the task serves. -/
  request : Option Yocto.Request
  /-- The project that the name in the header led to. -/
  project : Option Project
  /-- The key of that project that the secret led to. -/
  key : Option ApiKey
  /-- What the cache held. -/
  cached : Option ProjectAuth
  /-- The entry that was looked up. -/
  found : Option Entry

/-- The record of a task that has made no call. -/
def Local.initial (request : Option Yocto.Request) : Local :=
  ⟨request, none, none, none, none⟩

/-- The credential comes from the cache or from the rows. -/
def Vouches
    (env : Env) (basic : Basic) (record : Local) (auth : ProjectAuth) :
    Prop :=
  record.cached = some auth ∨
    ∃ project key, record.project = some project ∧ record.key = some key ∧
      env.verifyArgon2 basic.pass key.keyHash = .ok true ∧
        auth = ⟨project.id, project.name, key.id, key.role⟩

/-- The record vouches for a credential of the project in the URL. -/
def Grants
    (env : Env) (basic : Basic) (request : Yocto.Request) (record : Local)
    (auth : ProjectAuth) : Prop :=
  Vouches env basic record auth ∧ auth.projectName = request.project

/-- The calls of a request with these credentials. -/
def permitsRequest
    (env : Env) (basic : Basic) (request : Yocto.Request) (record : Local) :
    Call → Prop
  | .db (.projectsGetByName name) => name = basic.user
  | .db (.apiKeysFindActive id lookup) =>
      lookup = lookupHash env basic.pass ∧
        record.project.map Project.id = some id
  | .db (.entriesFind projectId kind path) =>
      ∃ auth, Grants env basic request record auth ∧
        projectId = auth.projectId ∧ kind = request.kind ∧
          path = request.path
  | .db (.entriesUpsert projectId kind path _ _) =>
      ∃ auth, Grants env basic request record auth ∧
        projectId = auth.projectId ∧ kind = request.kind ∧
          path = request.path ∧ auth.role = .write
  | .db (.statsBump ..) => True
  | .db .blobsTotalSize => True
  | .db _ => False
  | .projectCacheGet scope lookup =>
      scope = AuthSvc.projectScope basic.user ∧
        lookup = lookupHash env basic.pass
  | .projectCacheInsert scope lookup value =>
      scope = AuthSvc.projectScope basic.user ∧
        lookup = lookupHash env basic.pass ∧ Vouches env basic record value
  | _ => True

/-- The protocol of the tasks. -/
def protocol (env : Env) : Protocol Call Call.Reply CoreError Local where
  permits record call :=
    match record.request with
    | none => Spares call
    | some request =>
        ∃ basic, parseBasic env request.authorization = some basic ∧
          permitsRequest env basic request record call
  advance record call reply :=
    match call, reply with
    | .db (.projectsGetByName _), .ok project =>
        { record with project := some project, key := none }
    | .db (.apiKeysFindActive ..), .ok key => { record with key := key }
    | .projectCacheGet .., .ok cached => { record with cached := cached }
    | .db (.entriesFind ..), .ok found => { record with found := found }
    | _, _ => record

/-! ## What the records say -/

/-- The credential is one that the history justifies. -/
structure Entitled
    (env : Env) (past : List Db) (basic : Basic) (auth : ProjectAuth) :
    Prop where
  named : Named past auth.projectId basic.user
  keyed : Keyed env past auth.projectId basic.pass auth.role
  sameName : auth.projectName = basic.user

theorem Entitled.mono
    {env : Env} {past later : List Db} {basic : Basic} {auth : ProjectAuth}
    (entitled : Entitled env past basic auth) (grown : past ⊆ later) :
    Entitled env later basic auth :=
  ⟨entitled.named.mono grown, entitled.keyed.mono grown, entitled.sameName⟩

/-- A record of a request is true of the history. -/
structure Justified
    (env : Env) (past : List Db) (basic : Basic) (request : Yocto.Request)
    (record : Local) : Prop where
  project : ∀ project, record.project = some project →
    ∃ db ∈ past, project ∈ db.projects.rows ∧ project.name = basic.user
  key : ∀ key, record.key = some key → ∃ project,
    record.project = some project ∧
      ∃ db ∈ past, Credentials.Selects env db project basic.pass key
  cached : ∀ auth, record.cached = some auth → Entitled env past basic auth
  found : ∀ entry, record.found = some entry → ∃ auth,
    Entitled env past basic auth ∧ auth.projectName = request.project ∧
      (∃ db ∈ past, entry ∈ db.entries.rows) ∧
        entry.key = ⟨auth.projectId, request.kind, request.path⟩

/-- What a task knows is true. -/
def Own
    (env : Env) (secrets : Set Bytes) (record : Local)
    (chronicle : Chronicle World Db) : Prop :=
  ∀ request basic, record.request = some request →
    parseBasic env request.authorization = some basic →
      utf8 basic.pass ∈ secrets ∧
        Justified env chronicle.past basic request record

/-- The present database is one of the past, and the cache holds only what the
history justifies for the secrets that are presented. -/
structure Shared
    (env : Env) (secrets : Set Bytes) (chronicle : Chronicle World Db) :
    Prop where
  current : chronicle.Current World.db
  cache : ∀ cached ∈ chronicle.world.projectCache, ∀ basic : Basic,
    utf8 basic.pass ∈ secrets →
      cached.scope = AuthSvc.projectScope basic.user →
        cached.lookup = lookupHash env basic.pass →
          Entitled env chronicle.past basic cached.value

section Records

variable {env : Env} {past later : List Db} {basic : Basic}
variable {request : Yocto.Request} {record : Local} {auth : ProjectAuth}

/-- What a true record vouches for is justified. -/
theorem Justified.entitled
    (justified : Justified env past basic request record)
    (vouches : Vouches env basic record auth) :
    Entitled env past basic auth := by
  rcases vouches with hit | ⟨project, key, there, found, verified, rfl⟩
  · exact justified.cached auth hit
  · obtain ⟨db, among, stored, named⟩ := justified.project project there
    obtain ⟨owner, same, later, laterAmong, selected⟩ :=
      justified.key key found
    rw [there] at same
    cases same
    obtain ⟨present, owned, looked, active⟩ := selected
    exact
      { named := ⟨db, among, project, stored, rfl, named⟩
        keyed := ⟨later, laterAmong, key, present, owned, looked, active,
          verified, rfl⟩
        sameName := named }

theorem Justified.mono
    (justified : Justified env past basic request record)
    (grown : past ⊆ later) : Justified env later basic request record where
  project project there := by
    obtain ⟨db, among, known⟩ := justified.project project there
    exact ⟨db, grown among, known⟩
  key key there := by
    obtain ⟨project, same, db, among, selected⟩ := justified.key key there
    exact ⟨project, same, db, grown among, selected⟩
  cached auth there := (justified.cached auth there).mono grown
  found entry there := by
    obtain ⟨auth, entitled, named, ⟨db, among, stored⟩, keyed⟩ :=
      justified.found entry there
    exact ⟨auth, entitled.mono grown, named, ⟨db, grown among, stored⟩, keyed⟩

/-- A record that grants access to a project is authorized. -/
theorem Justified.authorized
    (justified : Justified env past basic request record)
    (parsed : parseBasic env request.authorization = some basic)
    (grants : Grants env basic request record auth) :
    Authorized env past request auth.projectId auth.role := by
  have entitled := justified.entitled grants.1
  exact ⟨basic, parsed, entitled.sameName.symm.trans grants.2, entitled.named,
    entitled.keyed⟩

end Records

/-! ## Steps -/

section Steps

variable {env : Env} {config : Config} {secrets : Set Bytes}
variable {record : Local} {request : Call}
variable {before after : Chronicle World Db}
variable {reply : Except CoreError request.Reply}

/-- Different secrets have different lookup hashes. -/
theorem pass_of_lookupHash
    (free : env.CollisionFree secrets) {first second : String}
    (firstIn : utf8 first ∈ secrets) (secondIn : utf8 second ∈ secrets)
    (same : lookupHash env first = lookupHash env second) :
    first = second :=
  utf8_inj.mp (free _ firstIn _ secondIn same)

theorem shared_step
    (free : env.CollisionFree secrets)
    (shared : Shared env secrets before) (own : Own env secrets record before)
    (permitted : (protocol env).permits record request)
    (answered : answers env config request before reply after) :
    Shared env secrets after where
  current := Chronicle.current_step answered
  cache := by
    intro cached present basic listed scope lookup
    have grown := Chronicle.past_subset answered
    rcases Faulty.projectCache answered.1 present with
      old | ⟨otherScope, otherLookup, value, rfl, rfl⟩
    · exact (shared.cache cached old basic listed scope lookup).mono grown
    · unfold protocol at permitted
      simp only at permitted
      split at permitted
      · exact permitted.elim
      · rename_i served isRequest
        obtain ⟨presenting, parsed, sameScope, sameLookup, vouches⟩ := permitted
        obtain ⟨presentedIn, justified⟩ := own served presenting isRequest parsed
        have sameUser : basic.user = presenting.user :=
          AuthSvc.projectScope_injective (scope.symm.trans sameScope)
        have samePass : basic.pass = presenting.pass :=
          pass_of_lookupHash free listed presentedIn
            (lookup.symm.trans sameLookup)
        have same : basic = presenting := by
          cases basic
          cases presenting
          simp only at sameUser samePass
          rw [sameUser, samePass]
        rw [same]
        exact (justified.entitled vouches).mono grown

theorem own_step
    (shared : Shared env secrets before) (own : Own env secrets record before)
    (permitted : (protocol env).permits record request)
    (answered : answers env config request before reply after) :
    Own env secrets ((protocol env).advance record request reply) after := by
  have grown := Chronicle.past_subset answered
  have kept : Own env secrets record after := fun served basic isRequest
      parsed =>
    ⟨(own served basic isRequest parsed).1,
      (own served basic isRequest parsed).2.mono grown⟩
  intro served basic isRequest parsed
  have isServed : record.request = some served := by
    rw [← isRequest]
    unfold protocol
    simp only
    split <;> rfl
  obtain ⟨listed, justified⟩ := kept served basic isServed parsed
  refine ⟨listed, ?_⟩
  simp only [protocol, isServed] at permitted
  obtain ⟨presenting, same, permitted⟩ := permitted
  rw [parsed, Option.some.injEq] at same
  subst same
  have now : before.world.db ∈ after.past := grown shared.current
  cases request with
  | db call =>
      have accepted {value : call.Reply} (isOk : reply = .ok value) :
          ∃ db, call.exec env before.world.now before.world.db =
            .ok (value, db) := by
        rcases Faulty.db_cases answered.1 with
          ⟨result, db, ran, same, -⟩ | ⟨error, failed, -⟩
        · rw [isOk, Except.ok.injEq] at same
          exact ⟨db, by rw [same]; exact ran⟩
        · rw [isOk] at failed
          cases failed
      cases call with
      | projectsGetByName name =>
          cases reply with
          | error error => exact justified
          | ok project =>
              obtain ⟨db, ran⟩ := accepted rfl
              have isUser : name = basic.user := permitted
              have named : Projects.getByName before.world.db basic.user =
                  .ok project := by
                rw [← isUser]
                simp only [DbCall.exec, Except.map] at ran
                split at ran <;> cases ran
                assumption
              refine ⟨?_, ?_, justified.cached, justified.found⟩
              · rintro other ⟨⟩
                exact ⟨_, now, Credentials.getByName_eq_ok.mp named⟩
              · rintro key ⟨⟩
      | apiKeysFindActive id lookup =>
          cases reply with
          | error error => exact justified
          | ok key =>
              obtain ⟨db, ran⟩ := accepted rfl
              obtain ⟨rfl, led⟩ := permitted
              obtain ⟨project, there, rfl⟩ := Option.map_eq_some_iff.mp led
              cases ran
              refine ⟨justified.project, fun key found => ?_, justified.cached,
                justified.found⟩
              exact ⟨project, there, _, now,
                Credentials.findActive_eq_some.mp found⟩
      | entriesFind projectId kind path =>
          cases reply with
          | error error => exact justified
          | ok found =>
              obtain ⟨db, ran⟩ := accepted rfl
              obtain ⟨auth, grants, rfl, rfl, rfl⟩ := permitted
              cases ran
              refine ⟨justified.project, justified.key, justified.cached,
                fun entry there => ?_⟩
              have stored := Db.entryAt_eq_some.mp there
              exact ⟨auth, justified.entitled grants.1, grants.2,
                ⟨_, now, stored.1⟩, stored.2⟩
      | _ => exact justified
  | projectCacheGet scope lookup =>
      cases reply with
      | error error => exact justified
      | ok cached =>
          obtain ⟨rfl, rfl⟩ := permitted
          refine ⟨justified.project, justified.key, fun auth hit => ?_,
            justified.found⟩
          obtain ⟨looked⟩ := answered.1
          simp only [exec, Option.some.injEq, Prod.mk.injEq,
            Except.ok.injEq] at looked
          rw [← looked.1] at hit
          obtain ⟨held, among, scope, lookup, -, rfl⟩ :=
            VerifyCache.mem_of_get hit
          exact (shared.cache held among basic listed scope lookup).mono grown
  | _ => exact justified

end Steps

/-- What the tasks know of each other. -/
def discipline
    (env : Env) (config : Config) {secrets : Set Bytes}
    (free : env.CollisionFree secrets) :
    Pool.Discipline (protocol env) (answers env config)
      (fun _ _ _ _ => True) where
  shared := Shared env secrets
  own := Own env secrets
  pair _ _ := True
  step _ _ _ _ _ shared own permitted answered :=
    ⟨shared_step free shared own permitted answered,
      own_step shared own permitted answered⟩
  frame _ _ _ _ _ _ _ _ foreign _ _ _ answered served basic isRequest
      parsed :=
    have known := foreign served basic isRequest parsed
    ⟨known.1, known.2.mono (Chronicle.past_subset answered)⟩
  apart _ _ _ _ _ _ _ _ _ _ _ _ _ := trivial
  symm _ _ := id

/-! ## The requests -/

section Requests

variable {env : Env} {basic : Basic} {request : Yocto.Request}
variable {record : Local}

theorem request_advance
    (call : Call) (reply : Except CoreError call.Reply) :
    ((protocol env).advance record call reply).request = record.request := by
  unfold protocol
  simp only
  split <;> rfl

/-- The record is one of a request with these credentials. -/
structure Serving
    (env : Env) (basic : Basic) (request : Yocto.Request) (record : Local) :
    Prop where
  isRequest : record.request = some request
  parsed : parseBasic env request.authorization = some basic

theorem Serving.permits
    {call : Call} (serving : Serving env basic request record)
    (permitted : permitsRequest env basic request record call) :
    (protocol env).permits record call := by
  unfold protocol
  simp only [serving.isRequest]
  exact ⟨basic, serving.parsed, permitted⟩

theorem Serving.advance
    (serving : Serving env basic request record)
    (call : Call) (reply : Except CoreError call.Reply) :
    Serving env basic request ((protocol env).advance record call reply) :=
  ⟨(request_advance call reply).trans serving.isRequest, serving.parsed⟩

/-- The record vouches for the credential. -/
structure Verified
    (env : Env) (basic : Basic) (request : Yocto.Request) (auth : ProjectAuth)
    (record : Local) : Prop extends Serving env basic request record where
  vouches : Vouches env basic record auth

theorem verifyProject_follows
    (serving : Serving env basic request record) :
    (AuthSvc.verifyProject env basic.user basic.pass
      (lookupHash env basic.pass)).Follows (protocol env)
        (Verified env basic request) (fun _ _ => True) record := by
  unfold AuthSvc.verifyProject
  have named : ((transact (.projectsGetByName basic.user)).catchError
      fun _ => .fail .unauthorized : App Project).Follows (protocol env)
        (fun project last => Serving env basic request last ∧
          last.project = some project) (fun _ _ => True) record := by
    refine @Program.Follows.catchError _ _ _ _ _ _ _ _ _ _ (fun _ _ => True)
      _ (Program.follows_perform (serving.permits rfl) (fun project => ?_)
        fun _ => trivial) fun _ _ _ => trivial
    exact ⟨serving.advance _ _, rfl⟩
  refine named.bind ?_
  rintro project led ⟨leads, there⟩
  refine Program.follows_perform_then
    (leads.permits ⟨rfl, by rw [there]; rfl⟩) fun row => ?_
  cases row with
  | none => trivial
  | some key =>
      simp only
      split
      · trivial
      · trivial
      · rename_i verified
        exact ⟨leads.advance _ _, .inr ⟨project, key, there, rfl, verified, rfl⟩⟩

theorem authenticateProject_follows
    (serving : Serving env basic request record) :
    (AuthSvc.authenticateProject env basic.user basic.pass).Follows
      (protocol env) (Verified env basic request) (fun _ _ => True)
      record := by
  unfold AuthSvc.authenticateProject
  refine Program.follows_perform_then (serving.permits ⟨rfl, rfl⟩)
    fun cached => ?_
  cases cached with
  | some auth => exact ⟨serving.advance _ _, .inl rfl⟩
  | none =>
      refine (verifyProject_follows (serving.advance _ _)).bind ?_
      intro auth last verified
      exact Program.follows_perform_then
        (verified.permits ⟨rfl, rfl, verified.vouches⟩) fun _ => verified

/-- What the response to a request tells. -/
def Told
    (env : Env) (request : Yocto.Request) (response : Response)
    (last : Local) : Prop :=
  response.status = 200 →
    ∃ basic entry, parseBasic env request.authorization = some basic ∧
      last.found = some entry ∧
        response.header "etag" = some (quoted entry.blobHash)

theorem told_of_status
    {response : Response} {last : Local} (failure : response.status ≠ 200) :
    Told env request response last :=
  fun success => absurd success failure

theorem told_of_error (error : CoreError) (last : Local) :
    Told env request error.intoResponse last :=
  told_of_status (CoreError.intoResponse_ne (by decide) error)

/-- The project in the URL is that of the credential. -/
theorem ensureProject_follows
    {auth : ProjectAuth} (verified : Verified env basic request auth record) :
    (Yocto.ensureProject auth request.project).Follows (protocol env)
      (fun _ last => Verified env basic request auth last ∧
        Grants env basic request last auth) (fun _ _ => True) record := by
  unfold Yocto.ensureProject
  split
  · trivial
  · rename_i same
    exact ⟨verified, verified.vouches, not_not.mp same⟩

theorem read_follows
    {auth : ProjectAuth} (verified : Verified env basic request auth record)
    (headOnly : Bool) :
    (Yocto.read auth request.kind request.project request.path
      headOnly).Follows (protocol env) (Told env request) (fun _ _ => True)
      record := by
  refine @Program.Follows.catchError _ _ _ _ _ _ _ _ _ _ (fun _ _ => True) _
    ?_ ?_
  · unfold Yocto.getOne
    refine (ensureProject_follows verified).bind ?_
    rintro _ last ⟨serving, grants⟩
    split
    · trivial
    refine Program.follows_perform_then
      (serving.permits ⟨auth, grants, rfl, rfl, rfl⟩) fun found => ?_
    have looked := serving.toServing.advance
      (.db (.entriesFind auth.projectId request.kind request.path)) (.ok found)
    cases found with
    | none => trivial
    | some entry =>
        simp only
        split
        · exact fun _ => ⟨basic, entry, serving.parsed, rfl, rfl⟩
        · have opened : (LocalFsStore.readBlob entry.blobHash).Follows
              (protocol env) (fun _ later => Serving env basic request later ∧
                later.found = some entry) (fun _ _ => True) _ :=
            @Program.Follows.catchError _ _ _ _ _ _ _ _ _ _ (fun _ _ => True)
              _ (Program.follows_perform (looked.permits trivial)
                (fun _ => ⟨looked.advance _ _, rfl⟩) fun _ => trivial)
              fun error _ _ => by split <;> trivial
          refine opened.bind ?_
          rintro content later ⟨streaming, here⟩
          exact Program.follows_perform_then (streaming.permits trivial)
            fun _ _ => ⟨basic, entry, streaming.parsed, here, rfl⟩
  · intro error last _
    cases error with
    | notFound what => exact told_of_status (by decide)
    | _ => exact told_of_error _ _

theorem writeStreamed_follows
    {auth : ProjectAuth} (body : Body)
    (verified : Verified env basic request auth record) :
    (LocalFsStore.writeStreamed env body).Follows (protocol env)
      (fun _ last => last = record) (fun _ _ => True) record := by
  have permitted : ∀ call, uploadCalls call →
      (protocol env).permits record call := by
    intro call used
    refine verified.permits ?_
    cases call <;> first | exact used.elim | trivial
  have neutral : ∀ call, uploadCalls call → ∀ reply,
      (protocol env).advance record call reply = record := by
    intro call used reply
    cases call <;> first | exact used.elim | rfl
  exact ((LocalFsStore.writeStreamed_uses env body).follows permitted
    neutral).mono (fun _ _ known => known.2) fun _ _ _ => trivial

theorem put_follows
    {auth : ProjectAuth} (config : Config) (body : Body)
    (verified : Verified env basic request auth record) :
    (Yocto.put env config auth request.kind request.project request.path
      body).Follows (protocol env) (Told env request) (fun _ _ => True)
      record := by
  refine @Program.Follows.catchError _ _ _ _ _ _ _ _ _ _ (fun _ _ => True) _
    ?_ fun error last _ => told_of_error error last
  unfold Yocto.doPut
  refine (ensureProject_follows verified).bind ?_
  rintro _ last ⟨serving, grants⟩
  split
  · trivial
  rename_i allowed
  have writes : auth.role = .write := by
    cases role : auth.role <;> simp_all [Role.allowsWrite]
  refine (writeStreamed_follows body serving).bind ?_
  rintro written _ rfl
  refine Program.follows_perform_then
    (serving.permits ⟨auth, grants, rfl, rfl, rfl, writes⟩) fun _ => ?_
  refine Program.follows_perform_then (serving.permits trivial) fun _ => ?_
  refine Program.follows_perform_then (serving.permits trivial)
    fun total => ?_
  have created : ∀ last, Told env request
      ⟨201, [("etag", quoted written.hash)], .empty⟩ last :=
    fun _ => told_of_status (show (201 : Nat) ≠ 200 by decide)
  simp only
  split
  · exact Program.follows_perform_then (serving.permits trivial)
      fun _ => created _
  · exact created _

/-- Every request follows the protocol. -/
theorem serve_follows
    (env : Env) (config : Config) (request : Yocto.Request) :
    (Yocto.serve env config request).Follows (protocol env)
      (Told env request) (fun _ _ => True) (.initial (some request)) := by
  unfold Yocto.serve Yocto.middleware
  split
  · exact told_of_status (by decide)
  · rename_i basic parsed
    have serving : Serving env basic request (.initial (some request)) :=
      ⟨rfl, parsed⟩
    refine (authenticateProject_follows serving).toExcept.bind ?_
    intro result last known
    split
    · rename_i auth
      split
      · exact read_follows known false
      · exact read_follows known true
      · exact put_follows config _ known
    · exact told_of_status (by decide)
    · exact told_of_error _ _

end Requests

/-! ## The other tasks -/

theorem audit_spares
    (auth : AdminAuth) (action : String) (target : Option Int)
    (detail : Option AuditDetail) :
    (Admin.audit auth action target detail).Uses Spares fun _ => True :=
  Program.uses_perform_then trivial fun _ =>
    Program.uses_perform trivial fun _ => trivial

theorem spares_then
    {first : App α} (spares : first.Uses Spares fun _ => True) (value : β) :
    (first >>= fun _ => pure value : App β).Uses Spares fun _ => True :=
  spares.bind fun _ _ => trivial

/-- No admin handler stores anything in the cache. -/
theorem handler_spares
    (env : Env) (config : Config) (auth : AdminAuth)
    {request : AllOrNothing.Request} (isAdmin : request.isAdmin = true) :
    (AllOrNothing.handler env config auth request).Uses Spares
      fun _ => True := by
  cases request with
  | put request => cases isAdmin
  | createProject | createToken =>
      refine spares_then ?_ _
      exact Program.uses_perform_then trivial fun _ =>
        (audit_spares _ _ _ _).bind fun _ _ => trivial
  | updateProject =>
      refine spares_then ?_ _
      exact Program.uses_perform_then trivial fun _ =>
        Program.uses_perform_then trivial fun _ =>
          (audit_spares _ _ _ _).bind fun _ _ => trivial
  | createKey =>
      refine spares_then ?_ _
      exact Program.uses_perform_then trivial fun _ =>
        Program.uses_perform_then trivial fun _ =>
          (audit_spares _ _ _ _).bind fun _ _ => trivial
  | deleteProject | revokeKey | revokeToken | deleteEntry | pin | unpin =>
      refine spares_then ?_ _
      exact Program.uses_perform_then trivial fun _ => audit_spares _ _ _ _

/-- An admin request is a bystander. -/
def Bystander.admin
    (env : Env) (config : Config) (auth : AdminAuth)
    (request : AllOrNothing.Request) (isAdmin : request.isAdmin = true) :
    Bystander where
  program := do
    let _ ← AllOrNothing.respond env config auth request
    pure none
  spares := by
    have responds : (AllOrNothing.respond env config auth request).Uses
        Spares fun _ => True :=
      (handler_spares env config auth isAdmin).catchError fun _ => trivial
    exact spares_then responds none

/-- A bystander may do what it does. -/
theorem bystander_follows
    {env : Env} {program : App (Option Response)}
    (spares : program.Uses Spares fun _ => True) {record : Local}
    (serves : record.request = none) :
    program.Follows (protocol env) (fun _ _ => True) (fun _ _ => True)
      record := by
  induction program generalizing record with
  | done value => trivial
  | fail error => trivial
  | spin => trivial
  | call request next inductionHypothesis =>
      refine ⟨?_, fun reply => inductionHypothesis reply (spares.2 reply)
        ((request_advance request reply).trans serves)⟩
      unfold protocol
      simp only [serves]
      exact spares.1

/-! ## Runs -/

section Runs

variable {env : Env} {config : Config} {tasks : ι → Task} {start : World}

/-- The request that a task serves. -/
def Task.request : Task → Option Yocto.Request
  | .yocto request => some request
  | .other _ => none

/-- What is known when a task has returned. -/
def Ended
    (env : Env) (task : Task) (answer : Option Response) (last : Local) :
    Prop :=
  ∀ request response, task = .yocto request → answer = some response →
    Told env request response last

theorem task_follows (task : Task) :
    (task.program env config).Follows (protocol env) (Ended env task)
      (fun _ _ => True) (.initial task.request) := by
  cases task with
  | yocto request =>
      refine (serve_follows env config request).bind fun response last told => ?_
      rintro _ _ ⟨⟩ ⟨⟩
      exact told
  | other bystander =>
      refine (bystander_follows bystander.spares rfl).mono ?_
        fun _ _ _ => trivial
      rintro answer last - request response ⟨⟩

/-- The tasks are disciplined at the start. -/
theorem launch_disciplined
    [DecidableEq ι] (fresh : start.projectCache = [])
    (free : env.CollisionFree (presented env tasks)) :
    Pool.Disciplined (discipline env config free)
      (fun thread => Ended env (tasks thread))
      ⟨.begin World.db start, (launch env config tasks start).threads,
        fun thread => .initial (tasks thread).request⟩ where
  shared :=
    { current := List.mem_cons_self
      cache := by
        intro cached present
        rw [Chronicle.begin, fresh] at present
        cases present }
  own := by
    intro thread _ request basic isRequest parsed
    refine ⟨?_, ⟨by rintro _ ⟨⟩, by rintro _ ⟨⟩, by rintro _ ⟨⟩,
      by rintro _ ⟨⟩⟩⟩
    have serves : (tasks thread).request = some request := isRequest
    cases task : tasks thread with
    | yocto served =>
        rw [task] at serves
        cases serves
        exact ⟨thread, request, basic, task, parsed, rfl⟩
    | other bystander =>
        rw [task] at serves
        cases serves
  pair _ _ _ _ _ := trivial
  follows thread := task_follows (tasks thread)

/-- In every history a request commits an entry of a project, looks one up or
is answered with one only if its credentials name the project in the URL, a name
that the project had, and show the secret of an active key that the project had;
and an upload only with a write key. -/
theorem access_authorized
    [DecidableEq ι] (fresh : start.projectCache = [])
    (free : env.CollisionFree (presented env tasks))
    {pool : Tasks ι}
    (reached : Runs env config (launch env config tasks start) pool)
    {thread : ι} {request : Yocto.Request}
    (serves : tasks thread = .yocto request) :
    (∀ projectId kind path hash size,
      pool.Issues thread
        (.db (.entriesUpsert projectId kind path hash size)) →
      kind = request.kind ∧ path = request.path ∧
        Authorized env pool.world.past request projectId .write) ∧
    (∀ projectId kind path,
      pool.Issues thread (.db (.entriesFind projectId kind path)) →
      kind = request.kind ∧ path = request.path ∧
        ∃ role, Authorized env pool.world.past request projectId role) ∧
    ∀ response, pool.threads thread = .done (some response) →
      response.status = 200 →
      ∃ entry role, (∃ db ∈ pool.world.past, entry ∈ db.entries.rows) ∧
        entry.kind = request.kind ∧ entry.path = request.path ∧
        response.header "etag" = some (quoted entry.blobHash) ∧
        Authorized env pool.world.past request entry.projectId role := by
  obtain ⟨records, observed⟩ := reached.observed (protocol env)
    fun thread => .initial (tasks thread).request
  have launched := @launch_disciplined _ env config tasks start _ fresh free
  have disciplined := launched.reaches
    (observed.mono fun _ _ _ _ _ _ _ => trivial)
  have kept : (records thread).request = (tasks thread).request :=
    observed.steady Local.request (fun _ => request_advance) thread
  have isRequest : (records thread).request = some request := by
    rw [kept, serves]
    rfl
  have permitted {call : Call} (issues : pool.Issues thread call) :
      ∃ basic, parseBasic env request.authorization = some basic ∧
        Justified env pool.world.past basic request (records thread) ∧
          permitsRequest env basic request (records thread) call := by
    have allowed := disciplined.permits issues
    simp only [protocol, isRequest] at allowed
    obtain ⟨basic, parsed, permitted⟩ := allowed
    have own := disciplined.own thread (Pool.Issues.live issues) request basic
      isRequest parsed
    exact ⟨basic, parsed, own.2, permitted⟩
  refine ⟨fun projectId kind path hash size issues => ?_,
    fun projectId kind path issues => ?_, fun response ended success => ?_⟩
  · obtain ⟨basic, parsed, justified, auth, grants, rfl, rfl, rfl, writes⟩ :=
      permitted issues
    have authorized := justified.authorized parsed grants
    rw [writes] at authorized
    exact ⟨rfl, rfl, authorized⟩
  · obtain ⟨basic, parsed, justified, auth, grants, rfl, rfl, rfl⟩ :=
      permitted issues
    exact ⟨rfl, rfl, _, justified.authorized parsed grants⟩
  · obtain ⟨basic, entry, parsed, found, tag⟩ :=
      disciplined.ended ended request response serves rfl success
    have own := disciplined.own thread (by simp [Pool.Live, ended]) request
      basic isRequest parsed
    obtain ⟨auth, entitled, named, stored, keyed⟩ :=
      own.2.found entry found
    refine ⟨entry, auth.role, stored, congrArg Key.kind keyed,
      congrArg Key.path keyed, tag, ?_⟩
    have owner : entry.projectId = auth.projectId :=
      congrArg Key.projectId keyed
    rw [owner]
    exact ⟨basic, parsed, entitled.sameName.symm.trans named, entitled.named,
      entitled.keyed⟩

end Runs

/-! ## A key that is revoked during a request -/

/-- A `HEAD` for the one entry. -/
def lookup : Yocto.Request :=
  ⟨HeadAgreement.credentials, .head, .sstate, "acme", "first"⟩

/-- The request and the revocation of its key. -/
def revocation : Fin 2 → Task
  | 0 => .yocto lookup
  | 1 => .other (.admin HeadAgreement.keyed (Sample.config 1024) ⟨1, "root"⟩
      (.revokeKey 1 1) rfl)

/-- The task has answered 200. -/
def succeeded : App (Option Response) → Bool
  | .done (some response) => response.status = 200
  | _ => false

theorem succeeded_spec
    {program : App (Option Response)} (known : succeeded program = true) :
    ∃ response, program = .done (some response) ∧ response.status = 200 := by
  unfold succeeded at known
  split at known
  · exact ⟨_, rfl, of_decide_eq_true known⟩
  · cases known

/-- The key is revoked after it was verified. -/
theorem access_authorized_late :
    ∃ pool : Tasks (Fin 2),
      Runs HeadAgreement.keyed (Sample.config 1024)
        (launch HeadAgreement.keyed (Sample.config 1024) revocation
          HeadAgreement.restored) pool ∧
      (∀ key ∈ pool.world.world.db.apiKeys.rows, key.revokedAt ≠ none) ∧
      ∃ projectId role,
        Authorized HeadAgreement.keyed pool.world.past lookup projectId
          role := by
  have ran : ((Pool.replay (Program.within fun _ => True)
      (Chronicle.handler World.db
        (exec HeadAgreement.keyed (Sample.config 1024)))
      (fun _ _ _ => true) [0, 0, 0, 0, 1, 1, 0]
      (launch HeadAgreement.keyed (Sample.config 1024) revocation
        HeadAgreement.restored)).any fun pool =>
          succeeded (pool.threads 0) &&
            pool.world.world.db.apiKeys.rows.all fun key =>
              decide (key.revokedAt ≠ none)) = true := by
    decide +kernel
  rw [Option.any_eq_true] at ran
  obtain ⟨pool, replayed, outcome⟩ := ran
  rw [Bool.and_eq_true, List.all_eq_true] at outcome
  obtain ⟨response, ended, success⟩ := succeeded_spec outcome.1
  have reached : Runs HeadAgreement.keyed (Sample.config 1024)
      (launch HeadAgreement.keyed (Sample.config 1024) revocation
        HeadAgreement.restored) pool :=
    Pool.reaches_of_free_replay
      (fun _ _ _ _ => Chronicle.answers_of_handler fun _ _ _ _ => .exact)
      replayed
  have free : HeadAgreement.keyed.CollisionFree
      (presented HeadAgreement.keyed revocation) := by
    have single : presented HeadAgreement.keyed revocation ⊆ {utf8 "k"} := by
      rintro secret ⟨thread, request, basic, serves, parsed, rfl⟩
      have secret : (parseBasic HeadAgreement.keyed lookup.authorization).map
          Basic.pass = some "k" := by decide +kernel
      match thread with
      | 0 =>
          cases serves
          rw [parsed] at secret
          rw [Set.mem_singleton_iff, Option.some.inj secret]
      | 1 => cases serves
    intro first firstIn second secondIn _
    rw [single firstIn, single secondIn]
  obtain ⟨-, -, answers⟩ := access_authorized (by decide +kernel) free reached
    (show revocation 0 = .yocto lookup from rfl)
  obtain ⟨entry, role, -, -, -, -, authorized⟩ :=
    answers response ended success
  exact ⟨pool, reached, fun key among =>
    of_decide_eq_true (outcome.2 key among), entry.projectId, role, authorized⟩

end AccessControl

end Marmotte
