import Marmotte.PushAddress
import Marmotte.Sample
import Marmotte.Sequential.Authentication
import Marmotte.Sequential.Download

/-!
# HEAD against GET

The two methods share the lookup of the entry; only `GET` opens the blob file.
They agree exactly on the requests whose entry, if there is one, has a file of
the recorded size.
-/

namespace Marmotte

open Effects

namespace HeadAgreement

/-- What both requests name. -/
structure Target where
  authorization : Option Bytes
  kind : Kind
  project : String
  path : String

/-- The outcome of a request to the target. -/
def answer
    (env : Env) (config : Config) (target : Target) (world : World)
    (method : Yocto.Method) : Outcome CoreError Response :=
  ((Yocto.serve env config ⟨target.authorization, method, target.kind,
    target.project, target.path⟩).run (exec env config) world).1

/-- The number of bytes that the body of a response streams. -/
def bodyLength (response : Response) : Nat :=
  match response.payload with
  | .stream content => content.length
  | _ => 0

/-- The two responses agree, and a client that decides by the first one does
not skip an upload that the second one does not serve. -/
structure Agree (head get : Response) : Prop where
  success : head.status = 200 ↔ get.status = 200
  tag : get.status = 200 → head.header "etag" = get.header "etag"
  length : get.status = 200 →
    head.header "content-length" = get.header "content-length" ∧
      get.header "content-length" = some (toString (bodyLength get))
  failure : get.status ≠ 200 → head.status = get.status
  skips : ∀ etag, Push.checkHead etag head = .skipped → get.status = 200

/-- The server answers both requests, and the answers agree. -/
def Agrees
    (env : Env) (config : Config) (target : Target) (world : World) : Prop :=
  ∃ head get,
    answer env config target world .head = .done head ∧
      answer env config target world .get = .done get ∧ Agree head get

/-- The entry that an authorised request names, if there is one, has a file of
the recorded size. -/
def Served
    (env : Env) (config : Config) (target : Target) (world : World) : Prop :=
  ∀ basic auth entry,
    parseBasic env target.authorization = some basic →
    AuthSvc.authenticated env config world basic.user basic.pass =
      .ok auth →
    auth.projectName = target.project →
    world.db.entryAt ⟨auth.projectId, target.kind, target.path⟩ =
      some entry →
    ∃ content, world.fs.read (blobPath entry.blobHash) = some content ∧
      entry.sizeBytes = content.length

/-- A response that is not a success agrees with itself. -/
theorem agree_self
    {response : Response} (failure : response.status ≠ 200)
    (changed : response.status ≠ 304) : Agree response response where
  success := Iff.rfl
  tag success := absurd success failure
  length success := absurd success failure
  failure _ := rfl
  skips etag skipped := by
    unfold Push.checkHead at skipped
    rw [if_neg changed] at skipped
    split at skipped
    · rename_i found
      exact absurd found.1 failure
    · split at skipped
      · cases skipped
      · split at skipped <;> cases skipped

theorem intoResponse_fails (error : CoreError) :
    error.intoResponse.status ≠ 200 ∧ error.intoResponse.status ≠ 304 := by
  cases error <;> simp [CoreError.intoResponse, CoreError.statusAndTitle]

/-- A size is the length that is written like it. -/
theorem eq_of_toString
    {size : Int} {length : Nat} (same : toString size = toString length) :
    size = length := by
  have digits : toString length = Nat.repr length := rfl
  rw [Int.toString_eq_repr, Int.repr_eq_if, digits] at same
  split at same
  · have written := congrArg String.toList same
    rw [Nat.toList_repr, Nat.toList_repr] at written
    have read := congrArg (Nat.ofDigitChars 10 · 0) written
    simp only [Nat.ofDigitChars_ten_toDigits] at read
    omega
  · have sign : '-' ∈ (Nat.repr length).toList := by
      rw [← same, String.toList_append]
      exact List.mem_append_left _ (by decide)
    rw [Nat.toList_repr] at sign
    have digit := Nat.isDigit_of_mem_toDigits (by omega) (by omega) sign
    cases digit

/-- The responses for a stored entry agree if and only if its size is that of
the content. -/
theorem agree_hit_iff (entry : Entry) (content : Bytes) :
    Agree { hitResponse entry.blobHash entry.sizeBytes [] with
        payload := .empty }
      (hitResponse entry.blobHash entry.sizeBytes content) ↔
        entry.sizeBytes = content.length := by
  constructor
  · intro agree
    have same : some (toString entry.sizeBytes) =
        some (toString content.length) := (agree.length rfl).2
    exact eq_of_toString (Option.some.inj same)
  · intro same
    refine ⟨Iff.rfl, fun _ => rfl, fun _ => ⟨rfl, ?_⟩, fun failure => ?_,
      fun _ _ => rfl⟩
    · change some (toString entry.sizeBytes) = some (toString content.length)
      rw [same]
      rfl
    · exact absurd rfl failure

/-- A found entry does not agree with a miss. -/
theorem not_agree_lost (entry : Entry) :
    ¬Agree { hitResponse entry.blobHash entry.sizeBytes [] with
        payload := .empty } Yocto.missResponse := by
  intro agree
  have impossible : Yocto.missResponse.status = 200 := agree.success.mp rfl
  cases impossible

section Serving

variable {env : Env} {config : Config} {target : Target} {world : World}

/-- The part of a request behind the authentication. -/
theorem answer_eq
    {basic : Basic}
    (parsed : parseBasic env target.authorization = some basic)
    (method : Yocto.Method) :
    ∃ cache : VerifyCache ProjectAuth,
      answer env config target world method =
        match AuthSvc.authenticated env config world basic.user
            basic.pass with
        | .ok auth =>
            ((match method with
              | .get => Yocto.read auth target.kind target.project
                  target.path false
              | .head => Yocto.read auth target.kind target.project
                  target.path true
              | .put body => Yocto.put env config auth target.kind
                  target.project target.path body).run (exec env config)
                    { world with projectCache := cache }).1
        | .error .unauthorized => .done Yocto.unauthorized
        | .error error => .done error.intoResponse := by
  obtain ⟨cache, ran⟩ := @AuthSvc.run_authenticateProject env config
    basic.user basic.pass world
  refine ⟨cache, ?_⟩
  unfold answer Yocto.serve Yocto.middleware
  rw [parsed]
  simp only
  rw [Program.run_bind, Program.run_toExcept, ran]
  cases AuthSvc.authenticated env config world basic.user basic.pass with
  | ok auth => cases method <;> rfl
  | error error => cases error <;> rfl

theorem agrees_iff
    {head get : Response}
    (ranHead : answer env config target world .head = .done head)
    (ranGet : answer env config target world .get = .done get) :
    Agrees env config target world ↔ Agree head get := by
  constructor
  · rintro ⟨head', get', sameHead, sameGet, agree⟩
    rw [ranHead] at sameHead
    rw [ranGet] at sameGet
    cases sameHead
    cases sameGet
    exact agree
  · intro agree
    exact ⟨head, get, ranHead, ranGet, agree⟩

/-- Both requests are answered alike before any entry is looked up. -/
theorem agrees_of_refused
    {response : Response}
    (ranHead : answer env config target world .head = .done response)
    (ranGet : answer env config target world .get = .done response)
    (failure : response.status ≠ 200) (changed : response.status ≠ 304) :
    Agrees env config target world :=
  (agrees_iff ranHead ranGet).mpr (agree_self failure changed)

/-- What an authorised request asks of the files. -/
theorem served_iff
    {basic : Basic} {auth : ProjectAuth}
    (parsed : parseBasic env target.authorization = some basic)
    (allowed : AuthSvc.authenticated env config world basic.user
      basic.pass = .ok auth) :
    Served env config target world ↔
      (auth.projectName = target.project → ∀ entry,
        world.db.entryAt ⟨auth.projectId, target.kind, target.path⟩ =
          some entry →
        ∃ content, world.fs.read (blobPath entry.blobHash) = some content ∧
          entry.sizeBytes = content.length) := by
  constructor
  · intro served named entry found
    exact served basic auth entry parsed allowed named found
  · intro served basic' auth' entry there accepted named found
    rw [parsed] at there
    cases there
    rw [allowed] at accepted
    cases accepted
    exact served named entry found

/-- The requests of an authorised client under its own project. -/
theorem agrees_iff_filed
    {basic : Basic} {auth : ProjectAuth}
    (parsed : parseBasic env target.authorization = some basic)
    (allowed : AuthSvc.authenticated env config world basic.user
      basic.pass = .ok auth)
    (named : auth.projectName = target.project) :
    Agrees env config target world ↔ ∀ entry,
      world.db.entryAt ⟨auth.projectId, target.kind, target.path⟩ =
        some entry →
      ∃ content, world.fs.read (blobPath entry.blobHash) = some content ∧
        entry.sizeBytes = content.length := by
  obtain ⟨cache, head⟩ :=
    @answer_eq env config target world basic parsed .head
  obtain ⟨cache', get⟩ :=
    @answer_eq env config target world basic parsed .get
  rw [allowed, ← named] at head get
  simp only at head get
  rw [run_read_head] at head
  let reader : World := { world with projectCache := cache' }
  cases found : world.db.entryAt
      ⟨auth.projectId, target.kind, target.path⟩ with
  | none =>
      rw [found] at head
      rw [@run_read_miss env config reader _ _ _ found] at get
      refine iff_of_true
        (agrees_of_refused head get (by decide) (by decide)) ?_
      rintro entry ⟨⟩
  | some entry =>
      rw [found] at head
      simp only [Option.some.injEq, forall_eq']
      cases filed : world.fs.read (blobPath entry.blobHash) with
      | none =>
          rw [@run_read_lost env config reader _ _ _ _ found filed] at get
          rw [agrees_iff head get]
          exact iff_of_false (not_agree_lost entry) (by simp)
      | some content =>
          rw [@run_read_hit env config reader _ _ _ _ _ found filed] at get
          rw [agrees_iff head get, agree_hit_iff]
          simp

end Serving

/-- `HEAD` and `GET` agree exactly on the requests that name no entry or one
with a file of the recorded size. -/
theorem head_agrees_iff
    (env : Env) (config : Config) (target : Target) (world : World) :
    Agrees env config target world ↔ Served env config target world := by
  cases parsed : parseBasic env target.authorization with
  | none =>
      have refused (method : Yocto.Method) :
          answer env config target world method =
            .done Yocto.unauthorized := by
        unfold answer Yocto.serve Yocto.middleware
        rw [parsed]
        rfl
      refine iff_of_true (agrees_of_refused (refused .head) (refused .get)
        (by decide) (by decide)) ?_
      intro basic auth entry there
      rw [parsed] at there
      cases there
  | some basic =>
      cases allowed : AuthSvc.authenticated env config world basic.user
          basic.pass with
      | error error =>
          obtain ⟨cache, head⟩ :=
            @answer_eq env config target world basic parsed .head
          obtain ⟨cache', get⟩ :=
            @answer_eq env config target world basic parsed .get
          rw [allowed] at head get
          have agrees : Agrees env config target world := by
            cases error with
            | unauthorized =>
                exact agrees_of_refused head get (by decide) (by decide)
            | _ =>
                exact agrees_of_refused head get (intoResponse_fails _).1
                  (intoResponse_fails _).2
          refine iff_of_true agrees ?_
          intro basic' auth entry there accepted
          rw [parsed] at there
          cases there
          rw [allowed] at accepted
          cases accepted
      | ok auth =>
          rw [served_iff parsed allowed]
          by_cases named : auth.projectName = target.project
          · rw [agrees_iff_filed parsed allowed named]
            simp only [named, true_implies]
          · obtain ⟨cache, head⟩ :=
              @answer_eq env config target world basic parsed .head
            obtain ⟨cache', get⟩ :=
              @answer_eq env config target world basic parsed .get
            rw [allowed] at head get
            simp only at head get
            rw [run_read_foreign named] at head get
            refine iff_of_true (agrees_of_refused head get (by decide)
              (by decide)) ?_
            intro impossible
            exact absurd impossible named

/-! ## An entry without its file -/

/-- An environment that knows one header and one key. -/
def keyed : Env :=
  { Sample.env with
    verifyArgon2 := fun secret phc => .ok (decide (secret = "k" ∧ phc = "phc"))
    decodeBase64 := fun text =>
      -- the base64 text of "acme:k"
      if text = "YWNtZTpr" then some [97, 99, 109, 101, 58, 107] else none }

/-- `Basic` credentials of the user `acme` with the secret `k`. -/
def credentials : Option Bytes :=
  some "Basic YWNtZTpr".toUTF8.data.toList

/-- A project with a key and an entry whose blob file was never written, as a
backup of the database without the blobs leaves it. -/
def restored : World :=
  (Program.run (exec keyed (Sample.config 1024)) (do
    let _ ← transact (.projectsCreate "acme" none none)
    let _ ← transact (.apiKeysCreate 1 (lookupHash keyed "k") "phc" .write
      none)
    transact (.entriesUpsert 1 .sstate "first" (Sample.sha256 [97]) 1))
      (World.initial 1000)).2

/-- `HEAD` is answered 200 and `GET` 404, and a push skips the upload. -/
theorem head_sees_lost_entry :
    (match answer keyed (Sample.config 1024)
        ⟨credentials, .sstate, "acme", "first"⟩ restored .head with
      | .done response => some (response.status,
          Push.checkHead (quoted (Sample.sha256 [97])) response)
      | _ => none) = some (200, .skipped) ∧
    (match answer keyed (Sample.config 1024)
        ⟨credentials, .sstate, "acme", "first"⟩ restored .get with
      | .done response => some response.status
      | _ => none) = some 404 ∧
    ¬Agrees keyed (Sample.config 1024)
      ⟨credentials, .sstate, "acme", "first"⟩ restored := by
  have head : (match answer keyed (Sample.config 1024)
        ⟨credentials, .sstate, "acme", "first"⟩ restored .head with
      | .done response => some (response.status,
          Push.checkHead (quoted (Sample.sha256 [97])) response)
      | _ => none) = some (200, .skipped) := by decide +kernel
  have get : (match answer keyed (Sample.config 1024)
        ⟨credentials, .sstate, "acme", "first"⟩ restored .get with
      | .done response => some response.status
      | _ => none) = some 404 := by decide +kernel
  refine ⟨head, get, ?_⟩
  rintro ⟨first, second, ranHead, ranGet, agree⟩
  rw [ranHead] at head
  rw [ranGet] at get
  simp only [Option.some.injEq, Prod.mk.injEq] at head get
  have success := agree.success.mp head.1
  rw [success] at get
  exact absurd get (by decide)

end HeadAgreement

end Marmotte
