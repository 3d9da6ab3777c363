import Marmotte.PushAddress
import Marmotte.Sample
import Marmotte.Sequential.Authentication
import Marmotte.Web.Base64

/-!
# Credentials

The header that `marmotte push` sends against the parser of the middleware, and
what an authentication returns for every state and every failing query.
-/

namespace Marmotte

open Effects Tables

namespace Push

/-- The `Authorization` header of `run`. -/
def authHeader
    (encodeBase64 : Bytes → String) (project apiKey : String) : String :=
  "Basic " ++ encodeBase64 (utf8 (project ++ ":" ++ apiKey))

end Push

/-- `generate_secret`, for the bytes that it draws. -/
def AuthSvc.generateSecret (bytes : Bytes) : String :=
  String.ofList (Base64Url.encode bytes)

namespace Credentials

/-! ## The header -/

theorem utf8_ofList_ascii
    {text : List Char} (ascii : ∀ c ∈ text, c.toNat < 127) :
    utf8 (String.ofList text) = text.map fun c => UInt8.ofNat c.toNat := by
  have flat : utf8 (String.ofList text) =
      text.flatMap String.utf8EncodeChar := by
    simp [utf8, List.utf8Encode]
  rw [flat]
  induction text with
  | nil => rfl
  | cons c rest inductionHypothesis =>
      have fits : c.val.toNat ≤ 127 := Nat.le_of_lt (ascii c List.mem_cons_self)
      have first : String.utf8EncodeChar c = [UInt8.ofNat c.toNat] :=
        if_pos fits
      rw [List.flatMap_cons, first, List.map_cons, List.singleton_append]
      congr 1
      refine inductionHypothesis
        (fun d member => ascii d (List.mem_cons_of_mem _ member)) ?_
      simp [utf8, List.utf8Encode]

/-- A header of visible characters is read as it was written. -/
theorem headerToStr_visible
    {text : List Char}
    (visible : ∀ c ∈ text, 32 ≤ c.toNat ∧ c.toNat < 127) :
    headerToStr (utf8 (String.ofList text)) = some (String.ofList text) := by
  have bytes (c : Char) (member : c ∈ text) :
      (UInt8.ofNat c.toNat).toNat = c.toNat := by
    have range := visible c member
    rw [UInt8.toNat_ofNat']
    omega
  have printable : ((text.map fun c => UInt8.ofNat c.toNat).all fun byte =>
      decide ((32 ≤ byte ∧ byte < 127) ∨ byte = 9)) = true := by
    simp only [List.all_map, List.all_eq_true, Function.comp_apply,
      decide_eq_true_eq]
    intro c member
    have range := visible c member
    left
    rw [UInt8.le_iff_toNat_le, UInt8.lt_iff_toNat_lt, bytes c member]
    exact range
  rw [utf8_ofList_ascii fun c member => (visible c member).2, headerToStr,
    if_pos printable, List.map_map]
  congr 2
  rw [List.map_congr_left, List.map_id]
  intro c member
  simp only [Function.comp_apply, bytes c member, id_eq]
  exact Char.ofNat_toNat c

theorem stripPrefix_append (start text : String) :
    stripPrefix (start ++ text) start = some text := by
  simp [stripPrefix]

/-- The first separator ends the name. -/
theorem splitOnce_iff (name key : String) :
    splitOnce (name ++ ":" ++ key) ':' = some (name, key) ↔
      ':' ∉ name.toList := by
  have text : (name ++ ":" ++ key).toList =
      name.toList ++ ':' :: key.toList := by
    simp
  constructor
  · intro divided inside
    simp only [splitOnce, text] at divided
    split at divided
    · cases divided
    · simp only [Option.some.injEq, Prod.mk.injEq] at divided
      rw [← divided.1, String.toList_ofList] at inside
      simpa using List.mem_takeWhile_imp inside
  · intro absent
    have before : (name.toList ++ ':' :: key.toList).takeWhile
        (fun c => decide (c ≠ ':')) = name.toList := by
      rw [List.takeWhile_append_of_pos]
      · simp
      · intro c member
        rw [decide_eq_true_eq]
        rintro rfl
        exact absent member
    simp only [splitOnce, text]
    rw [before, List.drop_left]
    simp

/-- What the middleware reads of the header of a push. -/
theorem parseBasic_authHeader
    {env : Env} {encodeBase64 : Bytes → String}
    (round : ∀ content, env.decodeBase64 (encodeBase64 content) = some content)
    (visible : ∀ content, ∀ c ∈ (encodeBase64 content).toList,
      32 ≤ c.toNat ∧ c.toNat < 127)
    (project apiKey : String) :
    parseBasic env
        (some (utf8 (Push.authHeader encodeBase64 project apiKey))) =
      (splitOnce (project ++ ":" ++ apiKey) ':').map fun parts =>
        ⟨parts.1, parts.2⟩ := by
  have text : Push.authHeader encodeBase64 project apiKey =
      String.ofList (Push.authHeader encodeBase64 project apiKey).toList :=
    String.ofList_toList.symm
  have read : headerToStr
      (utf8 (Push.authHeader encodeBase64 project apiKey)) =
        some (Push.authHeader encodeBase64 project apiKey) := by
    rw [text]
    refine headerToStr_visible fun c member => ?_
    simp only [Push.authHeader, String.toList_append, List.mem_append]
      at member
    rcases member with start | encoded
    · have spelled : "Basic ".toList.all (fun c =>
          32 ≤ c.toNat ∧ c.toNat < 127) = true := by
        decide +kernel
      exact of_decide_eq_true (List.all_eq_true.mp spelled c start)
    · exact visible _ c encoded
  have decoded : String.fromUTF8?
      ⟨(utf8 (project ++ ":" ++ apiKey)).toArray⟩ =
        some (project ++ ":" ++ apiKey) := fromUTF8_eq_some.mpr rfl
  simp only [parseBasic, bind, Option.bind, read]
  rw [Push.authHeader, stripPrefix_append]
  simp only [round, decoded]
  cases splitOnce (project ++ ":" ++ apiKey) ':' with
  | none => rfl
  | some parts => rfl

/-! ## The parsed header -/

/-- A row of `api_keys` that the key selects in this project. -/
def Selects
    (env : Env) (db : Db) (project : Project) (apiKey : String)
    (row : ApiKey) : Prop :=
  row ∈ db.apiKeys.rows ∧ row.projectId = project.id ∧
    row.keyLookup = lookupHash env apiKey ∧ row.revokedAt = none

section Rows

variable {env : Env} {db : Db} {name apiKey : String} {project : Project}
variable {row : ApiKey}

theorem getByName_eq_ok :
    Projects.getByName db name = .ok project ↔
      project ∈ db.projects.rows ∧ project.name = name := by
  constructor
  · intro named
    unfold Projects.getByName at named
    split at named
    · rename_i found
      cases named
      exact ⟨(Table.mem_of_find? found).1,
        of_decide_eq_true (Table.mem_of_find? found).2⟩
    · cases named
  · rintro ⟨stored, rfl⟩
    have found : db.projects.find?
        (fun other => decide (other.name = project.name)) = some project :=
      Table.find?_of_mem stored (by simp)
        fun other same => .inr (of_decide_eq_true same)
    rw [Projects.getByName, found]

theorem findActive_eq_some :
    ApiKeys.findActiveByLookup db project.id (lookupHash env apiKey) =
        some row ↔ Selects env db project apiKey row := by
  constructor
  · intro found
    have answer := Table.mem_of_find? found
    exact ⟨answer.1, of_decide_eq_true answer.2⟩
  · rintro ⟨stored, owner, keyed, active⟩
    exact Table.find?_of_mem stored (by simp [owner, keyed, active])
      fun other same =>
        .inr ((of_decide_eq_true same).2.1.trans keyed.symm)

end Rows

/-! ## What an authentication returns -/

/-- The runtime in which a pattern of database calls fails. -/
def failingQueries
    (env : Env) (config : Config) (fails : DbCall → Option SqlError) :
    Handler Call Call.Reply CoreError World
  | .db call, world =>
      match fails call with
      | some cause => some (.error (.database cause), world)
      | none => exec env config (.db call) world
  | request, world => exec env config request world

/-- What a cache miss leads to. -/
def attempted
    (env : Env) (fails : DbCall → Option SqlError) (db : Db)
    (name apiKey : String) : Except CoreError ProjectAuth :=
  match fails (.projectsGetByName name), Projects.getByName db name with
  | some _, _ => .error .unauthorized
  | none, .error _ => .error .unauthorized
  | none, .ok project =>
      match fails (.apiKeysFindActive project.id (lookupHash env apiKey)),
          ApiKeys.findActiveByLookup db project.id
            (lookupHash env apiKey) with
      | some cause, _ => .error (.database cause)
      | none, none => .error .unauthorized
      | none, some row =>
          match env.verifyArgon2 apiKey row.keyHash with
          | .error message => .error (.crypto message)
          | .ok false => .error .unauthorized
          | .ok true => .ok ⟨project.id, project.name, row.id, row.role⟩

section Runs

variable {env : Env} {config : Config} {fails : DbCall → Option SqlError}
variable {world : World}

theorem run_transact_spared
    {call : DbCall} {reply : call.Reply}
    (spared : fails call = none)
    (ran : call.exec env world.now world.db = .ok (reply, world.db)) :
    (transact call).run (failingQueries env config fails) world =
      (.done reply, world) := by
  refine Program.run_perform ?_
  simp only [failingQueries, spared, exec, ran]

theorem run_transact_struck
    {call : DbCall} {cause : SqlError} (struck : fails call = some cause) :
    (transact call).run (failingQueries env config fails) world =
      (.failed (.database cause), world) := by
  have answered : failingQueries env config fails (.db call) world =
      some (.error (.database cause), world) := by
    simp only [failingQueries, struck]
  exact Program.run_call answered Program.ofExcept

theorem run_transact_refused
    {call : DbCall} {error : CoreError} (spared : fails call = none)
    (ran : call.exec env world.now world.db = .error error) :
    (transact call).run (failingQueries env config fails) world =
      (.failed error, world) := by
  have answered : failingQueries env config fails (.db call) world =
      some (.error error, world) := by
    simp only [failingQueries, spared, exec, ran]
  exact Program.run_call answered Program.ofExcept

theorem run_verifyProject_failing (name apiKey : String) :
    (AuthSvc.verifyProject env name apiKey (lookupHash env apiKey)).run
        (failingQueries env config fails) world =
      (Outcome.ofExcept (attempted env fails world.db name apiKey),
        world) := by
  unfold AuthSvc.verifyProject attempted
  cases struck : fails (.projectsGetByName name) with
  | some cause =>
      have failed := @run_transact_struck env config fails world
        (.projectsGetByName name) cause struck
      rw [Program.run_bind, Program.run_catchError, failed]
      rfl
  | none =>
      cases named : Projects.getByName world.db name with
      | error error =>
          have missed := @run_transact_refused env config fails world
            (.projectsGetByName name) error struck
            (by simp only [DbCall.exec, named]; rfl)
          rw [Program.run_bind, Program.run_catchError, missed]
          rfl
      | ok project =>
          have found := @run_transact_spared env config fails world
            (.projectsGetByName name) project struck
            (by simp only [DbCall.exec, named]; rfl)
          have caught : ((transact (.projectsGetByName name)).catchError
              fun _ => .fail .unauthorized).run
                (failingQueries env config fails) world =
                  (.done project, world) := by
            rw [Program.run_catchError, found]
          rw [Program.run_bind_done caught]
          simp only
          cases keyStruck : fails (.apiKeysFindActive project.id
              (lookupHash env apiKey)) with
          | some cause =>
              have failed := @run_transact_struck env config fails world
                (.apiKeysFindActive project.id (lookupHash env apiKey)) cause
                keyStruck
              rw [Program.run_bind, failed]
              rfl
          | none =>
              have searched := @run_transact_spared env config fails world
                (.apiKeysFindActive project.id (lookupHash env apiKey))
                (ApiKeys.findActiveByLookup world.db project.id
                  (lookupHash env apiKey)) keyStruck rfl
              rw [Program.run_bind_done searched]
              cases ApiKeys.findActiveByLookup world.db project.id
                  (lookupHash env apiKey) with
              | none => rfl
              | some key =>
                  simp only
                  cases env.verifyArgon2 apiKey key.keyHash with
                  | error message => rfl
                  | ok accepted => cases accepted <;> rfl

/-- The cache after an authentication that missed it. -/
def cacheAfter
    (env : Env) (world : World) (name apiKey : String) :
    Except CoreError ProjectAuth → VerifyCache ProjectAuth
  | .ok auth =>
      VerifyCache.insert world.projectCache (AuthSvc.projectScope name)
        (lookupHash env apiKey) auth world.instant
  | .error _ => world.projectCache

/-- The cache does not answer this pair of a name and a key. -/
def Misses
    (env : Env) (config : Config) (world : World) (name apiKey : String) :
    Prop :=
  VerifyCache.get world.projectCache (AuthSvc.projectScope name)
    (lookupHash env apiKey) world.instant config.auth.verifyCacheTtlSecs = none

theorem run_authenticateProject_failing
    {name apiKey : String} (missed : Misses env config world name apiKey) :
    (AuthSvc.authenticateProject env name apiKey).run
        (failingQueries env config fails) world =
      (Outcome.ofExcept (attempted env fails world.db name apiKey),
        { world with
          projectCache := cacheAfter env world name apiKey
            (attempted env fails world.db name apiKey) }) := by
  have looked : failingQueries env config fails (.projectCacheGet
      (AuthSvc.projectScope name) (lookupHash env apiKey)) world =
        some (.ok none, world) := by
    simp only [failingQueries, exec]
    rw [missed]
  have ran := @run_verifyProject_failing env config fails world name apiKey
  unfold AuthSvc.authenticateProject
  simp only
  rw [Program.run_bind_done (Program.run_perform looked)]
  simp only
  rw [Program.run_bind, ran]
  cases attempted env fails world.db name apiKey with
  | error error => rfl
  | ok auth => rfl

end Runs

/-! ## Exact outcomes -/

/-- The project of this name, and a row that the key selects in it. -/
def Matches
    (env : Env) (db : Db) (name apiKey : String) (project : Project)
    (row : ApiKey) : Prop :=
  project ∈ db.projects.rows ∧ project.name = name ∧
    Selects env db project apiKey row

/-- No query that an authentication makes fails. -/
def QueriesSucceed
    (env : Env) (fails : DbCall → Option SqlError) (db : Db)
    (name apiKey : String) : Prop :=
  fails (.projectsGetByName name) = none ∧
    ∀ project ∈ db.projects.rows, project.name = name →
      fails (.apiKeysFindActive project.id (lookupHash env apiKey)) = none

section Outcomes

variable {env : Env} {fails : DbCall → Option SqlError} {db : Db}
variable {name apiKey : String} {project : Project} {row : ApiKey}

theorem project_unique
    {other : Project} (stored : project ∈ db.projects.rows)
    (named : project.name = name) (otherStored : other ∈ db.projects.rows)
    (otherNamed : other.name = name) : other = project :=
  db.projects.eq_of_clash otherStored stored
    (.inr (otherNamed.trans named.symm))

/-- What is attempted once the project is found. -/
theorem attempted_of_named
    (spared : fails (.projectsGetByName name) = none)
    (stored : project ∈ db.projects.rows) (named : project.name = name) :
    attempted env fails db name apiKey =
      match fails (.apiKeysFindActive project.id (lookupHash env apiKey)),
          ApiKeys.findActiveByLookup db project.id
            (lookupHash env apiKey) with
      | some cause, _ => .error (.database cause)
      | none, none => .error .unauthorized
      | none, some row =>
          match env.verifyArgon2 apiKey row.keyHash with
          | .error message => .error (.crypto message)
          | .ok false => .error .unauthorized
          | .ok true => .ok ⟨project.id, project.name, row.id, row.role⟩ := by
  rw [attempted, spared, getByName_eq_ok.mpr ⟨stored, named⟩]

/-- A failing query for the project is reported as wrong credentials. -/
theorem attempted_of_struck_project
    {cause : SqlError} (struck : fails (.projectsGetByName name) = some cause) :
    attempted env fails db name apiKey = .error .unauthorized := by
  rw [attempted, struck]

/-- A failing query for the key is reported as an error of the database. -/
theorem attempted_of_struck
    {cause : SqlError} (spared : fails (.projectsGetByName name) = none)
    (stored : project ∈ db.projects.rows) (named : project.name = name)
    (struck : fails (.apiKeysFindActive project.id (lookupHash env apiKey)) =
      some cause) :
    attempted env fails db name apiKey = .error (.database cause) := by
  rw [attempted_of_named spared stored named, struck]

/-- What is attempted once the key is found as well. -/
theorem attempted_of_matches
    (succeed : QueriesSucceed env fails db name apiKey)
    (isMatch : Matches env db name apiKey project row) :
    attempted env fails db name apiKey =
      match env.verifyArgon2 apiKey row.keyHash with
      | .error message => .error (.crypto message)
      | .ok false => .error .unauthorized
      | .ok true => .ok ⟨project.id, name, row.id, row.role⟩ := by
  obtain ⟨stored, rfl, selects⟩ := isMatch
  rw [attempted_of_named succeed.1 stored rfl, succeed.2 project stored rfl,
    findActive_eq_some.mpr selects]

theorem attempted_unnamed
    (absent : ∀ project ∈ db.projects.rows, project.name ≠ name) :
    attempted env fails db name apiKey = .error .unauthorized := by
  have missing : ∃ error, Projects.getByName db name = .error error := by
    cases named : Projects.getByName db name with
    | error error => exact ⟨error, rfl⟩
    | ok project =>
        obtain ⟨stored, same⟩ := getByName_eq_ok.mp named
        exact absurd same (absent project stored)
  obtain ⟨error, missing⟩ := missing
  rw [attempted, missing]
  cases fails (.projectsGetByName name) <;> rfl

theorem attempted_unkeyed
    (spared : fails (.projectsGetByName name) = none)
    (keySpared : fails (.apiKeysFindActive project.id
      (lookupHash env apiKey)) = none)
    (stored : project ∈ db.projects.rows) (named : project.name = name)
    (unkeyed : ∀ row, ¬Selects env db project apiKey row) :
    attempted env fails db name apiKey = .error .unauthorized := by
  have missing : ApiKeys.findActiveByLookup db project.id
      (lookupHash env apiKey) = none := by
    rw [Option.eq_none_iff_forall_ne_some]
    exact fun row found => unkeyed row (findActive_eq_some.mp found)
  rw [attempted_of_named spared stored named, keySpared, missing]

/-- The ways in which an attempt can go. -/
theorem attempted_cases (fails : DbCall → Option SqlError)
    (env : Env) (db : Db) (name apiKey : String) :
    (∃ cause, fails (.projectsGetByName name) = some cause) ∨
    (∀ project ∈ db.projects.rows, project.name ≠ name) ∨
    ∃ project ∈ db.projects.rows, project.name = name ∧
      ((∃ cause, fails (.apiKeysFindActive project.id
          (lookupHash env apiKey)) = some cause) ∨
        (∀ row, ¬Selects env db project apiKey row) ∨
          ∃ row, Matches env db name apiKey project row) := by
  by_cases struck : ∃ cause, fails (.projectsGetByName name) = some cause
  · exact .inl struck
  · right
    by_cases named : ∃ project ∈ db.projects.rows, project.name = name
    · right
      obtain ⟨project, stored, same⟩ := named
      refine ⟨project, stored, same, ?_⟩
      by_cases keyStruck : ∃ cause, fails (.apiKeysFindActive project.id
          (lookupHash env apiKey)) = some cause
      · exact .inl keyStruck
      · right
        by_cases keyed : ∃ row, Selects env db project apiKey row
        · obtain ⟨row, selects⟩ := keyed
          exact .inr ⟨row, stored, same, selects⟩
        · exact .inl (not_exists.mp keyed)
    · left
      exact fun project stored same => named ⟨project, stored, same⟩

theorem attempted_eq_ok
    {auth : ProjectAuth} :
    attempted env fails db name apiKey = .ok auth ↔
      QueriesSucceed env fails db name apiKey ∧
        ∃ project row, Matches env db name apiKey project row ∧
          env.verifyArgon2 apiKey row.keyHash = .ok true ∧
            auth = ⟨project.id, name, row.id, row.role⟩ := by
  constructor
  · intro accepted
    rcases attempted_cases fails env db name apiKey with
      ⟨cause, struck⟩ | absent | ⟨project, stored, named, keys⟩
    · rw [attempted_of_struck_project struck] at accepted
      cases accepted
    · rw [attempted_unnamed absent] at accepted
      cases accepted
    · cases spared : fails (.projectsGetByName name) with
      | some cause =>
          rw [attempted_of_struck_project spared] at accepted
          cases accepted
      | none =>
          cases keySpared : fails (.apiKeysFindActive project.id
              (lookupHash env apiKey)) with
          | some cause =>
              rw [attempted_of_struck spared stored named keySpared]
                at accepted
              cases accepted
          | none =>
              have succeed : QueriesSucceed env fails db name apiKey :=
                ⟨spared, fun other otherStored otherNamed => by
                  rw [project_unique stored named otherStored otherNamed]
                  exact keySpared⟩
              rcases keys with ⟨cause, struck⟩ | unkeyed | ⟨row, isMatch⟩
              · rw [keySpared] at struck
                cases struck
              · rw [attempted_unkeyed spared keySpared stored named unkeyed]
                  at accepted
                cases accepted
              · rw [attempted_of_matches succeed isMatch] at accepted
                refine ⟨succeed, project, row, isMatch, ?_⟩
                split at accepted
                · cases accepted
                · cases accepted
                · rename_i verified
                  cases accepted
                  exact ⟨verified, rfl⟩
  · rintro ⟨succeed, project, row, isMatch, verified, rfl⟩
    rw [attempted_of_matches succeed isMatch, verified]

/-- Every fact holds that an authentication asks for. -/
def Accepts (env : Env) (db : Db) (name apiKey : String) : Prop :=
  ∃ project row, Matches env db name apiKey project row ∧
    env.verifyArgon2 apiKey row.keyHash = .ok true

/-- The verifier of the row that the key selects cannot be parsed. -/
def Malformed (env : Env) (db : Db) (name apiKey : String) : Prop :=
  ∃ project row message, Matches env db name apiKey project row ∧
    env.verifyArgon2 apiKey row.keyHash = .error message

theorem matches_unique
    {other : Project} {otherRow : ApiKey}
    (first : Matches env db name apiKey project row)
    (second : Matches env db name apiKey other otherRow) :
    otherRow = row := by
  obtain ⟨stored, named, held, owner, keyed, active⟩ := first
  obtain ⟨otherStored, otherNamed, otherHeld, otherOwner, otherKeyed, _⟩ :=
    second
  have same := project_unique stored named otherStored otherNamed
  subst same
  exact db.apiKeys.eq_of_clash otherHeld held
    (.inr (otherKeyed.trans keyed.symm))

/-- Once the project query succeeds, the key is refused exactly if the other
query succeeds as well and a fact is missing. -/
theorem attempted_eq_unauthorized
    (spared : fails (.projectsGetByName name) = none) :
    attempted env fails db name apiKey = .error .unauthorized ↔
      QueriesSucceed env fails db name apiKey ∧
        ¬Accepts env db name apiKey ∧ ¬Malformed env db name apiKey := by
  rcases attempted_cases fails env db name apiKey with
    ⟨cause, struck⟩ | absent | ⟨project, stored, named, keys⟩
  · rw [spared] at struck
    cases struck
  · rw [attempted_unnamed absent]
    refine iff_of_true rfl ⟨⟨spared, fun other held same =>
      absurd same (absent other held)⟩, ?_, ?_⟩
    · rintro ⟨other, _, isMatch, _⟩
      exact absent other isMatch.1 isMatch.2.1
    · rintro ⟨other, _, _, isMatch, _⟩
      exact absent other isMatch.1 isMatch.2.1
  · cases keySpared : fails (.apiKeysFindActive project.id
        (lookupHash env apiKey)) with
    | some cause =>
        rw [attempted_of_struck spared stored named keySpared]
        refine iff_of_false (fun same => by cases same) fun right => ?_
        rw [right.1.2 project stored named] at keySpared
        cases keySpared
    | none =>
        have succeed : QueriesSucceed env fails db name apiKey := by
          refine ⟨spared, fun other otherStored otherNamed => ?_⟩
          rw [project_unique stored named otherStored otherNamed]
          exact keySpared
        rcases keys with ⟨cause, struck⟩ | unkeyed | ⟨row, isMatch⟩
        · rw [keySpared] at struck
          cases struck
        · rw [attempted_unkeyed spared keySpared stored named unkeyed]
          have unmatched (other : Project) (row : ApiKey) :
              ¬Matches env db name apiKey other row := by
            rintro ⟨otherStored, otherNamed, selects⟩
            rw [project_unique stored named otherStored otherNamed] at selects
            exact unkeyed row selects
          refine iff_of_true rfl ⟨succeed, ?_, ?_⟩
          · rintro ⟨other, row, isMatch, _⟩
            exact unmatched other row isMatch
          · rintro ⟨other, row, _, isMatch, _⟩
            exact unmatched other row isMatch
        · have accepts : Accepts env db name apiKey ↔
              env.verifyArgon2 apiKey row.keyHash = .ok true := by
            constructor
            · rintro ⟨other, otherRow, otherMatch, verified⟩
              rwa [matches_unique isMatch otherMatch] at verified
            · exact fun verified => ⟨project, row, isMatch, verified⟩
          have malformed : Malformed env db name apiKey ↔
              ∃ message, env.verifyArgon2 apiKey row.keyHash =
                .error message := by
            constructor
            · rintro ⟨other, otherRow, message, otherMatch, verified⟩
              rw [matches_unique isMatch otherMatch] at verified
              exact ⟨message, verified⟩
            · rintro ⟨message, verified⟩
              exact ⟨project, row, message, isMatch, verified⟩
          rw [attempted_of_matches succeed isMatch, accepts, malformed]
          cases env.verifyArgon2 apiKey row.keyHash with
          | error message => simp
          | ok accepted => cases accepted <;> simp [succeed]

end Outcomes

/-! ## The outcome of an authentication that misses the cache -/

/-- The outcome and the cache that a call leaves. -/
structure ExactOutcome
    (env : Env) (fails : DbCall → Option SqlError) (world : World)
    (name apiKey : String) (outcome : Outcome CoreError ProjectAuth)
    (after : World) : Prop where
  accepted : ∀ auth, outcome = .done auth ↔
    QueriesSucceed env fails world.db name apiKey ∧
      ∃ project row, Matches env world.db name apiKey project row ∧
        env.verifyArgon2 apiKey row.keyHash = .ok true ∧
          auth = ⟨project.id, name, row.id, row.role⟩
  refused : fails (.projectsGetByName name) = none →
    (outcome = .failed .unauthorized ↔
      QueriesSucceed env fails world.db name apiKey ∧
        ¬Accepts env world.db name apiKey ∧
          ¬Malformed env world.db name apiKey)
  failed : fails (.projectsGetByName name) = none →
    ∀ project ∈ world.db.projects.rows, project.name = name →
      ∀ cause, fails (.apiKeysFindActive project.id (lookupHash env apiKey)) =
        some cause → outcome = .failed (.database cause)
  malformed : QueriesSucceed env fails world.db name apiKey →
    ∀ project row message, Matches env world.db name apiKey project row →
      env.verifyArgon2 apiKey row.keyHash = .error message →
        outcome = .failed (.crypto message)
  cached : ∀ auth, outcome = .done auth → after =
    { world with
      projectCache := VerifyCache.insert world.projectCache
        (AuthSvc.projectScope name) (lookupHash env apiKey) auth world.instant }
  uncached : (∀ auth, outcome ≠ .done auth) → after = world

section Exact

variable {env : Env} {config : Config} {fails : DbCall → Option SqlError}
variable {world : World} {name apiKey : String}

theorem ofExcept_eq_done {result : Except CoreError α} {value : α} :
    Outcome.ofExcept result = .done value ↔ result = .ok value := by
  cases result <;> simp [Outcome.ofExcept]

theorem ofExcept_eq_failed
    {result : Except CoreError α} {error : CoreError} :
    Outcome.ofExcept result = .failed error ↔ result = .error error := by
  cases result <;> simp [Outcome.ofExcept]

/-- What an authentication returns and stores when the cache does not answer
it, for every state and every pattern of failing queries. -/
theorem authentication_exact
    (missed : Misses env config world name apiKey) :
    ExactOutcome env fails world name apiKey
      ((AuthSvc.authenticateProject env name apiKey).run
        (failingQueries env config fails) world).1
      ((AuthSvc.authenticateProject env name apiKey).run
        (failingQueries env config fails) world).2 := by
  rw [run_authenticateProject_failing missed]
  constructor
  case accepted =>
    intro auth
    rw [ofExcept_eq_done]
    exact attempted_eq_ok
  case refused =>
    intro spared
    rw [ofExcept_eq_failed]
    exact attempted_eq_unauthorized spared
  case failed =>
    intro spared project stored named cause struck
    rw [ofExcept_eq_failed]
    exact attempted_of_struck spared stored named struck
  case malformed =>
    intro succeed project row message isMatch verified
    rw [ofExcept_eq_failed, attempted_of_matches succeed isMatch, verified]
  case cached =>
    intro auth accepted
    rw [ofExcept_eq_done] at accepted
    rw [accepted]
    rfl
  case uncached =>
    intro unaccepted
    cases result : attempted env fails world.db name apiKey with
    | error error => rfl
    | ok auth =>
        rw [result] at unaccepted
        exact absurd rfl (unaccepted auth)

end Exact

/-- A project with a key whose verifier cannot be parsed. -/
def garbled : World :=
  (Program.run (exec Sample.env (Sample.config 1024)) (do
    let _ ← transact (.projectsCreate "acme" none none)
    transact (.apiKeysCreate 1 (lookupHash Sample.env "k") "garbled" .write
      none)) (World.initial 1000)).2

theorem authentication_exact_garbled :
    Misses Sample.env (Sample.config 1024) garbled "acme" "k" ∧
    ExactOutcome Sample.env (fun _ => none) garbled "acme" "k"
      ((AuthSvc.authenticateProject Sample.env "acme" "k").run
        (failingQueries Sample.env (Sample.config 1024) fun _ => none)
          garbled).1
      ((AuthSvc.authenticateProject Sample.env "acme" "k").run
        (failingQueries Sample.env (Sample.config 1024) fun _ => none)
          garbled).2 :=
  ⟨rfl, authentication_exact rfl⟩

/-- A key whose verifier cannot be parsed does not count as wrong. -/
theorem garbled_verifier_is_no_refusal :
    (match (AuthSvc.authenticateProject Sample.env "acme" "k").run
        (failingQueries Sample.env (Sample.config 1024) fun _ => none)
          garbled with
      | (.failed error, _) => decide (error = .unauthorized)
      | _ => true) = false ∧
    ¬∀ (config : Config) (fails : DbCall → Option SqlError) (world : World)
        (name apiKey : String),
      Misses Sample.env config world name apiKey →
      (((AuthSvc.authenticateProject Sample.env name apiKey).run
          (failingQueries Sample.env config fails) world).1 =
            .failed .unauthorized ↔
        QueriesSucceed Sample.env fails world.db name apiKey ∧
          ¬Accepts Sample.env world.db name apiKey) := by
  have ran : (match (AuthSvc.authenticateProject Sample.env "acme" "k").run
        (failingQueries Sample.env (Sample.config 1024) fun _ => none)
          garbled with
      | (.failed error, _) => decide (error = .unauthorized)
      | _ => true) = false := by decide +kernel
  refine ⟨ran, fun exact => ?_⟩
  have refused := (exact (Sample.config 1024) (fun _ => none) garbled "acme"
    "k" rfl).mpr ⟨⟨rfl, fun _ _ _ => rfl⟩, ?_⟩
  · generalize (AuthSvc.authenticateProject Sample.env "acme" "k").run
      (failingQueries Sample.env (Sample.config 1024) fun _ => none)
        garbled = result at ran refused
    obtain ⟨outcome, after⟩ := result
    simp only at refused
    rw [refused] at ran
    cases ran
  · rintro ⟨project, row, _, verified⟩
    cases verified

/-! ## The credentials of a push -/

section RoundTrip

variable {env : Env} {encodeBase64 : Bytes → String}

/-- The server reads the name and the key in the header of a push, and accepts
what it reads wherever an active row of the project verifies the key. -/
structure RoundTrips
    (env : Env) (encodeBase64 : Bytes → String) (name apiKey : String) :
    Prop where
  parsed :
    parseBasic env (some (utf8 (Push.authHeader encodeBase64 name apiKey))) =
      some ⟨name, apiKey⟩
  accepted : ∀ credentials,
    parseBasic env (some (utf8 (Push.authHeader encodeBase64 name apiKey))) =
      some credentials →
    ∀ config world project row,
      Matches env world.db name apiKey project row →
      env.verifyArgon2 apiKey row.keyHash = .ok true →
      ∃ auth cache,
        (AuthSvc.authenticateProject env credentials.user
            credentials.pass).run (exec env config) world =
          (.done auth, { world with projectCache := cache }) ∧
        (Misses env config world name apiKey →
          auth = ⟨project.id, name, row.id, row.role⟩)

theorem verified_eq_attempted (db : Db) (name apiKey : String) :
    AuthSvc.verified env db name apiKey =
      attempted env (fun _ => none) db name apiKey := by
  unfold AuthSvc.verified attempted
  cases Projects.getByName db name with
  | error error => rfl
  | ok project =>
      simp only
      cases ApiKeys.findActiveByLookup db project.id
          (lookupHash env apiKey) <;> rfl

/-- A matching row that verifies the key is accepted. -/
theorem authenticate_of_matches
    {config : Config} {world : World} {name apiKey : String}
    {project : Project} {row : ApiKey}
    (isMatch : Matches env world.db name apiKey project row)
    (verified : env.verifyArgon2 apiKey row.keyHash = .ok true) :
    ∃ auth cache,
      (AuthSvc.authenticateProject env name apiKey).run (exec env config)
          world = (.done auth, { world with projectCache := cache }) ∧
        (Misses env config world name apiKey →
          auth = ⟨project.id, name, row.id, row.role⟩) := by
  obtain ⟨cache, ran⟩ :=
    @AuthSvc.run_authenticateProject env config name apiKey world
  have fresh : AuthSvc.verified env world.db name apiKey =
      .ok ⟨project.id, name, row.id, row.role⟩ := by
    rw [verified_eq_attempted]
    exact attempted_eq_ok.mpr
      ⟨⟨rfl, fun _ _ _ => rfl⟩, project, row, isMatch, verified, rfl⟩
  unfold AuthSvc.authenticated at ran
  cases cached : VerifyCache.get world.projectCache
      (AuthSvc.projectScope name) (lookupHash env apiKey) world.instant
      config.auth.verifyCacheTtlSecs with
  | some auth =>
      rw [cached] at ran
      refine ⟨auth, cache, ran, fun missed => ?_⟩
      rw [Misses, cached] at missed
      cases missed
  | none =>
      rw [cached, fresh] at ran
      exact ⟨_, cache, ran, fun _ => rfl⟩

/-- Which names a push can authenticate under, for every base64 codec that
decodes what it encodes. -/
theorem credentials_round_trip_iff
    (round : ∀ content, env.decodeBase64 (encodeBase64 content) = some content)
    (visible : ∀ content, ∀ c ∈ (encodeBase64 content).toList,
      32 ≤ c.toNat ∧ c.toNat < 127)
    (name : String) :
    (∀ random : Bytes, random.length = 32 →
      RoundTrips env encodeBase64 name (AuthSvc.generateSecret random)) ↔
        ':' ∉ name.toList := by
  constructor
  · intro roundTrips
    have parsed := (roundTrips (List.replicate 32 0) (by simp)).parsed
    rw [parseBasic_authHeader round visible] at parsed
    obtain ⟨parts, divided, same⟩ := Option.map_eq_some_iff.mp parsed
    simp only [Basic.mk.injEq] at same
    rw [← splitOnce_iff name, divided, ← same.1, ← same.2]
  · intro absent random _
    have divided := (splitOnce_iff name (AuthSvc.generateSecret random)).mpr
      absent
    have parsed : parseBasic env (some (utf8 (Push.authHeader encodeBase64
        name (AuthSvc.generateSecret random)))) =
          some ⟨name, AuthSvc.generateSecret random⟩ := by
      rw [parseBasic_authHeader round visible, divided]
      rfl
    refine ⟨parsed, ?_⟩
    intro credentials read config world project row isMatch verified
    rw [parsed, Option.some.injEq] at read
    subst read
    exact authenticate_of_matches isMatch verified

end RoundTrip

/-- The sample environment with base64 of the standard alphabet. -/
def codec : Env :=
  { Sample.env with decodeBase64 := fun text => Base64.decode text.toList }

def encodeBase64 (content : Bytes) : String :=
  String.ofList (Base64.encode content)

theorem credentials_round_trip_acme :
    (∀ random : Bytes, random.length = 32 →
      RoundTrips codec encodeBase64 "acme" (AuthSvc.generateSecret random)) ↔
        ':' ∉ "acme".toList := by
  refine credentials_round_trip_iff (fun content => ?_) (fun content => ?_)
    "acme"
  · simp only [codec, encodeBase64, String.toList_ofList]
    exact Base64.decode_encode content
  · simp only [encodeBase64, String.toList_ofList]
    exact fun c => Base64.encode_visible

/-- A project with a colon in its name is created, but the header of a push to
it is read as another name and another key. -/
theorem colon_splits_name :
    (Projects.create 1000 Db.empty "a:b" none none).toOption.isSome = true ∧
    parseBasic codec (some (utf8 (Push.authHeader encodeBase64 "a:b"
      (AuthSvc.generateSecret (List.replicate 32 0))))) =
        some ⟨"a", "b:AAAAAAAAAAAAAAAAAAAAAAAAAAAAAAAAAAAAAAAAAAA"⟩ ∧
    ¬RoundTrips codec encodeBase64 "a:b"
      (AuthSvc.generateSecret (List.replicate 32 0)) := by
  have read : parseBasic codec (some (utf8 (Push.authHeader encodeBase64 "a:b"
      (AuthSvc.generateSecret (List.replicate 32 0))))) =
        some ⟨"a", "b:AAAAAAAAAAAAAAAAAAAAAAAAAAAAAAAAAAAAAAAAAAA"⟩ := by
    decide +kernel
  refine ⟨by decide +kernel, read, fun roundTrips => ?_⟩
  have parsed := roundTrips.parsed
  rw [read] at parsed
  exact absurd parsed (by decide)

end Credentials

end Marmotte
