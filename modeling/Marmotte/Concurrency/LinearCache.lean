import Marmotte.CacheMap
import Marmotte.Concurrency.BlobDirectory
import Marmotte.Concurrency.Clients
import Marmotte.Effects.History
import Marmotte.OperationCalls

/-!
# The cache is linearizable

Downloads, probes, uploads, the deletions of the admin API, sweeps and orphan
scans run in any interleaving, and any of their calls may fail.  Each acts on
the cache at single instants between its first and its last step: a read at the
query for its key, an upload at the commit of its entry, and a removal at each
deletion.  A map from keys to contents allows these actions in their order.  A
hit is answered with what the map held, and a miss of a probe means that it held
nothing; a download may also miss because it lost the file of what it found.
-/

namespace Marmotte

open Effects Tables

namespace LinearCache

open Custody Db

/-! ## A map from keys to values -/

/-- What happens to the cache in one instant. -/
inductive Action (V : Type)
  | find (key : Key) (found : Option V)
  | store (key : Key) (value : V)
  | erase (keys : Key → Bool)

namespace Action

variable {V W : Type}

/-- The action on values that are represented in another way. -/
def map (represent : V → W) : Action V → Action W
  | .find key found => .find key (found.map represent)
  | .store key value => .store key (represent value)
  | .erase keys => .erase keys

end Action

/-! ## The actions of the server -/

/-- The digest and the size of a content. -/
abbrev Digest : Type := String × Int

/-- What an entry says of its content. -/
def digest (entry : Entry) : Digest := (entry.blobHash, entry.sizeBytes)

/-- What the replies to its own calls tell a task of its actions. -/
def observe :
    (request : Call) → Except CoreError request.Reply →
      Option (Action Digest)
  | .db (.entriesFind projectId kind path), .ok found =>
      some (.find ⟨projectId, kind, path⟩ (found.map digest))
  | .db (.entriesUpsert projectId kind path hash size), .ok _ =>
      some (.store ⟨projectId, kind, path⟩ (hash, size))
  | _, _ => none

/-- The keys that a transaction removes from the cache. -/
def erases (db : Db) : DbCall → Option (Key → Bool)
  | .entriesDelete projectId id => some fun key =>
      (db.entryAt key).any fun entry =>
        entry.projectId = projectId ∧ entry.id = id
  | .projectsDelete id => some fun key => key.projectId = id
  | .purge hash => some fun key =>
      (db.entryAt key).any fun entry => entry.blobHash = hash
  | _ => none

/-- The action of a transaction that commits. -/
def committed (db : Db) (call : DbCall) (reply : call.Reply) :
    Option (Action Digest) :=
  match erases db call with
  | some keys => some (.erase keys)
  | none => observe (.db call) (.ok reply)

/-- The action on the cache that a step is. -/
def act : Event Call Call.Reply CoreError World → Option (Action Digest)
  | ⟨before, .db call, .ok reply, _⟩ => committed before.db call reply
  | _ => none

/-- What the cache holds under each key. -/
def contents (world : World) : Key → Option Digest :=
  CacheMap.contentAt world.db

section Steps

variable {env : Env} {config : Config}

end Steps

/-! ## Clients -/

/-- What runs next to each other. -/
inductive Client
  | read (request : ReadRequest)
  | operation (operation : Operation)

/-- The program of a client; only requests have a response. -/
def Client.program
    (env : Env) (config : Config) (budget : Nat) :
    Client → App (Option Response)
  | .read request => do
      let response ← request.program
      pure (some response)
  | .operation task => task.program env config budget

/-- The contents that clients upload. -/
def uploaded (clients : ι → Client) : Set Bytes :=
  {content | ∃ thread request,
    clients thread = .operation (.put request) ∧
      request.body.bytes = content}

/-- The response to a download or a probe of a stored content. -/
def hit (env : Env) (headOnly : Bool) (content : Bytes) : Response :=
  let response := hitResponse (env.sha256 content) content.length content
  if headOnly then { response with payload := .empty } else response

/-- The response to an upload. -/
def accepted (env : Env) (content : Bytes) : Response :=
  ⟨201, [("etag", quoted (env.sha256 content))], .empty⟩

/-- The actions of a client, and its response if it has returned: a read that
is a hit found the content that it answers with; a read that is a miss found
nothing, or a `GET` found a content and lost its file; an upload answered 201
stored its body; and each removal is one that the client was told to make. -/
def Explains
    (env : Env) (client : Client) (actions : List (Action Bytes))
    (task : App (Option Response)) : Prop :=
  match client with
  | .read request =>
      (actions = [] ∨ ∃ found, actions = [.find request.key found]) ∧
      ∀ response, task = .done (some response) →
        (response.status = 200 → ∃ content,
          actions = [.find request.key (some content)] ∧
            response = hit env request.headOnly content) ∧
        (response.status = 404 →
          actions = [.find request.key none] ∨
            request.headOnly = false ∧ ∃ content,
              actions = [.find request.key (some content)])
  | .operation (.put request) =>
      (actions = [] ∨ actions = [.store request.key request.body.bytes]) ∧
      ∀ response, task = .done (some response) → response.status = 201 →
        actions = [.store request.key request.body.bytes] ∧
          response = accepted env request.body.bytes
  | .operation (.deleteEntry _ id _) => ∀ action ∈ actions, ∃ keys,
      action = .erase keys ∧
        (∀ key, keys key = true → key.projectId = id) ∧
        ∀ first second, keys first = true → keys second = true →
          first = second
  | .operation (.deleteProject _ id) => ∀ action ∈ actions,
      action = .erase fun key => key.projectId = id
  | .operation .gcRun => ∀ action ∈ actions, ∃ keys,
      action = .erase keys ∧
        ∀ first second, keys first = true → keys second = true →
          first = second
  | .operation .orphanScan => ∀ action ∈ actions, ∃ keys,
      action = .erase keys
  | .operation _ => actions = []

/-! ## One action for each request -/

/-- The handlers' answer to an error: what is not found is a miss. -/
def respond : CoreError → Response
  | .notFound _ => Yocto.missResponse
  | error => error.intoResponse

/-- What `read_blob` makes of the error of its system call. -/
def unread (hash : String) : CoreError → CoreError
  | .io .notFound => .notFound s!"blob {hash}"
  | error => error

/-- What a task has been answered. -/
abbrev Past := List (Answer Call Call.Reply CoreError)

/-- The task has found this entry. -/
def HasFound (past : Past) (entry : Entry) : Prop :=
  ∃ projectId kind path,
    ⟨.db (.entriesFind projectId kind path), .ok (some entry)⟩ ∈ past

/-- A task opens only the files of entries that it has found. -/
def looking : Protocol Call Call.Reply CoreError Past where
  permits past request := ∀ path, request = .fs (.openFile path) →
    ∃ entry, HasFound past entry ∧ path = blobPath entry.blobHash
  advance past request reply := past ++ [⟨request, reply⟩]

/-- The answers that a read has got, with its response. -/
inductive Reads (request : ReadRequest) : Past → Response → Prop
  | refused (reason : String) :
      Reads request [] (respond (.forbidden reason))
  | unavailable (error : CoreError) :
      Reads request
        [⟨.db (.entriesFind request.auth.projectId request.kind request.path),
          .error error⟩] (respond error)
  | absent :
      Reads request
        [⟨.db (.entriesFind request.auth.projectId request.kind request.path),
          .ok none⟩] Yocto.missResponse
  | probed (entry : Entry) (head : request.headOnly = true) :
      Reads request
        [⟨.db (.entriesFind request.auth.projectId request.kind request.path),
          .ok (some entry)⟩]
        { hitResponse entry.blobHash entry.sizeBytes [] with payload := .empty }
  | unreadable
      (entry : Entry) (full : request.headOnly = false)
      (cause : CoreError) :
      Reads request
        [⟨.db (.entriesFind request.auth.projectId request.kind request.path),
          .ok (some entry)⟩,
        ⟨.fs (.openFile (blobPath entry.blobHash)), .error cause⟩]
        (respond (unread entry.blobHash cause))
  | unspawned (entry : Entry) (content : Bytes) (error : CoreError) :
      Reads request
        [⟨.db (.entriesFind request.auth.projectId request.kind request.path),
          .ok (some entry)⟩,
        ⟨.fs (.openFile (blobPath entry.blobHash)), .ok content⟩,
        ⟨.spawn (.touch entry.id), .error error⟩]
        (respond error)
  | served
      (entry : Entry) (full : request.headOnly = false) (content : Bytes) :
      Reads request
        [⟨.db (.entriesFind request.auth.projectId request.kind request.path),
          .ok (some entry)⟩,
        ⟨.fs (.openFile (blobPath entry.blobHash)), .ok content⟩,
        ⟨.spawn (.touch entry.id), .ok ()⟩]
        (hitResponse entry.blobHash entry.sizeBytes content)

theorem read_looks (request : ReadRequest) :
    request.program.Follows looking
      (fun response past => Reads request past response) (fun _ _ => True)
      [] := by
  suffices body : (Yocto.getOne request.auth request.kind request.project
      request.path request.headOnly).Follows looking
        (fun response past => Reads request past response)
        (fun error past => Reads request past (respond error)) [] by
    refine body.catchError fun error past known => ?_
    cases error <;> exact known
  unfold Yocto.getOne Yocto.ensureProject
  by_cases named : request.auth.projectName ≠ request.project
  · rw [if_pos named]
    exact .refused _
  rw [if_neg named, Program.pure_eq, Program.done_bind]
  cases request.auth.role.allowsRead with
  | false => exact .refused _
  | true =>
  simp only [Bool.not_true, Bool.false_eq_true, if_false]
  refine Program.follows_perform_next (by rintro path ⟨⟩) (fun found => ?_)
    fun error => .unavailable error
  cases found with
  | none => exact .absent
  | some entry =>
      simp only
      cases head : request.headOnly with
      | true => exact .probed entry head
      | false =>
          simp only [Bool.false_eq_true, if_false]
          refine ⟨?_, fun opened => ?_⟩
          · rintro path ⟨⟩
            exact ⟨entry, ⟨_, _, _, List.mem_cons_self⟩, rfl⟩
          cases opened with
          | error cause =>
              simp only [Program.ofExcept_error, Program.catchError]
              have known := Reads.unreadable entry head cause
              split
              · exact known
              · rename_i error other
                rw [unread] at known
                · exact known
                · exact other
          | ok content =>
              refine ⟨by rintro path ⟨⟩, fun spawned => ?_⟩
              cases spawned with
              | error error => exact .unspawned entry content error
              | ok _ => exact .served entry head content

/-- The calls that look at the blob directory. -/
def lists : FsCall → Prop
  | .blobsExists | .walkBlobs => True
  | _ => False

/-- A task keeps to its own temporary file and to the path of its digest, and
records only what it has put in place; a blob file may be removed by anyone. -/
def permits (env : Env) (known : Set Bytes) (record : Local) : Call → Prop
  | .fs call =>
      lists call ∨
        BlobDirectory.permits (BlobDirectory.setting env known) record
          (.fs call)
  | .db call => permitsDb (Operation.setting env known) record call
  | _ => True

def protocol (env : Env) (known : Set Bytes) :
    Protocol Call Call.Reply CoreError Local :=
  { Custody.protocol (Operation.setting env known) with
    permits := permits env known }

theorem permits_of_custody
    {env : Env} {known : Set Bytes} {record : Local} {request : Call}
    (permitted : Custody.permits (Operation.setting env known) record
      request) :
    permits env known record request := by
  cases request with
  | fs call =>
      cases call with
      | removeFile path =>
          rcases permitted with own | ⟨hash, same, -⟩
          · exact .inr (.inl (.inl own))
          · exact .inr (.inr ⟨hash, by rw [same]⟩)
      | blobsExists | walkBlobs => exact .inl trivial
      | _ => exact .inr (.inl permitted)
  | db call => exact permitted
  | _ => trivial

theorem permits_read
    {env : Env} {known : Set Bytes} {record : Local} {request : Call}
    (reads : readCalls request) : permits env known record request := by
  cases request with
  | fs call => cases call <;> first
      | exact .inr (.inl trivial)
      | cases reads
  | db call => cases call <;> trivial
  | _ => trivial

theorem client_follows
    (env : Env) (config : Config) (budget : Nat) (clients : ι → Client)
    (thread : ι) :
    ((clients thread).program env config budget).Follows
      (protocol env (uploaded clients)) (fun _ _ => True) (fun _ _ => True)
      .idle := by
  cases client : clients thread with
  | operation task =>
      have within : task.Within
          (Operation.setting env (uploaded clients)) := by
        cases task with
        | put request => exact ⟨thread, request, client, rfl⟩
        | _ => trivial
      exact (Operation.program_follows _ config budget task within).permitting
        fun _ _ => permits_of_custody
  | read request =>
      have reads : request.program.Follows
          (protocol env (uploaded clients)) (fun _ _ => True)
          (fun _ _ => True) .idle :=
        (Yocto.read_uses _ _ _ _ _).anywhere
          (fun _ _ => permits_read) Local.idle
      exact reads.bind fun _ _ _ => trivial

/-- What holds of the store at every moment. -/
structure Shared (env : Env) (known : Set Bytes) (world : World) : Prop where
  addressed : BlobDirectory.Addressed env known world.fs
  tallied : Tallied (Operation.setting env known) world.db

section Store

variable {env : Env} {known : Set Bytes} {config : Config}
variable {record other : Local} {request : Call}
variable {reply : Except CoreError request.Reply} {before after : World}

/-- A permitted call looks at the blobs, which changes nothing, or is one of
those that the blob directory permits. -/
theorem permits_cases (permitted : permits env known record request) :
    (∃ call, lists call ∧ request = .fs call) ∨
      BlobDirectory.permits (BlobDirectory.setting env known) record
        request := by
  cases request with
  | fs call => exact permitted.imp_left fun listing => ⟨call, listing, rfl⟩
  | _ => exact .inr trivial

/-- A look at the blobs leaves every file alone. -/
theorem listing_reads
    {call : FsCall} {reply : Except CoreError (Call.fs call).Reply}
    (listing : lists call)
    (answered : Faulty env config (.fs call) before reply after)
    (path : FilePath) : after.fs.read path = before.fs.read path := by
  refine (Faulty.fs_frame answered).2 path ?_
  cases call <;> first
    | exact id
    | cases listing

/-- A look at the blobs leaves every upload alone. -/
theorem listing_upload
    {call : FsCall} (listing : lists call)
    (reply : Except CoreError (Call.fs call).Reply) :
    (advance env record (.fs call) reply).upload = record.upload := by
  cases call with
  | blobsExists =>
      cases reply with
      | error error => rfl
      | ok found => cases found <;> rfl
  | walkBlobs => cases reply <;> rfl
  | _ => cases listing

theorem writing_listing
    {call : FsCall} {reply : Except CoreError (Call.fs call).Reply}
    {upload : Option Upload} (listing : lists call)
    (writing : BlobDirectory.Writing env upload none before)
    (answered : Faulty env config (.fs call) before reply after) :
    BlobDirectory.Writing env upload none after where
  named own uploading := by
    obtain ⟨number, used, named⟩ := writing.named own uploading
    exact ⟨number, Nat.lt_of_lt_of_le used (Faulty.uuids answered), named⟩
  written name content uploading := by
    rw [listing_reads listing answered]
    exact writing.written name content uploading
  held := by rintro hash ⟨⟩

theorem shared_step
    (shared : Shared env known before)
    (writing : BlobDirectory.Writing env record.upload none before)
    (permitted : permits env known record request)
    (answered : Faulty env config request before reply after) :
    Shared env known after where
  addressed := by
    rcases permits_cases permitted with ⟨call, listing, rfl⟩ | within
    · intro path content present
      rw [listing_reads listing answered] at present
      exact shared.addressed path content present
    · exact BlobDirectory.addressed_step shared.addressed writing within
        answered
  tallied := by
    rcases Faulty.commits answered with same | ⟨call, value, rfl, ran⟩
    · rw [same]
      exact shared.tallied
    · exact tallied_db shared.tallied (describes_of_permitted permitted) ran

/-- Whatever the tasks do, no blob file is in a wrong place and no entry says
something wrong of its content. -/
def discipline (env : Env) (config : Config) (known : Set Bytes) :
    Pool.Discipline (protocol env known) (Faulty env config)
      (fun _ _ _ _ => True) where
  shared := Shared env known
  own record world := BlobDirectory.Writing env record.upload none world
  pair := BlobDirectory.Apart
  step record request world reply after shared writing permitted answered := by
    refine ⟨shared_step shared writing permitted answered, ?_⟩
    rcases permits_cases permitted with ⟨call, listing, rfl⟩ | within
    · change BlobDirectory.Writing env (advance env _ _ _).upload none after
      rw [listing_upload listing]
      exact writing_listing listing writing answered
    · exact (writing.step (by rintro hash ⟨⟩) within answered).forget
  frame record other request world reply after shared _ foreign apart permitted
      _ answered := by
    rcases permits_cases permitted with ⟨call, listing, rfl⟩ | within
    · exact writing_listing listing foreign answered
    · exact foreign.frame apart (by rintro hash ⟨⟩) within answered
  apart record other request world reply after shared writing foreign apart
      permitted _ answered := by
    rcases permits_cases permitted with ⟨call, listing, rfl⟩ | within
    · intro own theirs uploading
      change (advance env _ _ _).upload = _ at uploading
      rw [listing_upload listing] at uploading
      exact apart own theirs uploading
    · exact (BlobDirectory.discipline env config known).apart record other
        request world reply after shared.addressed writing foreign apart within
        trivial answered
  symm := (BlobDirectory.discipline env config known).symm

end Store

/-! ## Runs -/

section Runs

variable [DecidableEq ι]

/-- Any number of clients with the server that they share. -/
abbrev Tasks (ι : Type) : Type :=
  Pool ι Call Call.Reply CoreError (Option Response) World Unit

/-- The steps of a run. -/
abbrev Steps (ι : Type) : Type :=
  List (Moment ι Call Call.Reply CoreError World)

/-- The clients of a fresh server, none of them started. -/
def launch
    (env : Env) (config : Config) (budget : Nat) (now : Int)
    (clients : ι → Client) : Tasks ι :=
  .launch () (fun thread => (clients thread).program env config budget)
    (World.initial now)

/-- The clients take these steps, one call at a time and in any order. -/
abbrev Ran
    (env : Env) (config : Config) (budget : Nat) (now : Int)
    (clients : ι → Client) (moments : Steps ι) (pool : Tasks ι) : Prop :=
  Pool.Run (Program.within fun _ => True) (Faulty env config)
    (launch env config budget now clients) moments pool

/-- The calls of a client. -/
def Client.calls (client : Client) (request : Call) : Prop :=
  match client with
  | .read _ => readCalls request
  | .operation task => task.calls request

variable {env : Env} {config : Config} {budget : Nat} {now : Int}
variable {clients : ι → Client} {moments : Steps ι} {pool : Tasks ι}

theorem client_uses
    (env : Env) (config : Config) (budget : Nat) (client : Client) :
    (client.program env config budget).Uses client.calls fun _ => True := by
  cases client with
  | read request =>
      have reads : request.program.Uses readCalls fun _ => True :=
        Yocto.read_uses _ _ _ _ _
      exact reads.bind fun _ _ => trivial
  | operation task => exact task.program_uses env config budget

theorem ran_calls
    (ran : Ran env config budget now clients moments pool)
    {moment : Moment ι Call Call.Reply CoreError World}
    (among : moment ∈ moments) :
    (clients moment.thread).calls moment.event.request := by
  have footed : (launch env config budget now clients).Footed
      fun thread => (clients thread).calls :=
    fun thread => client_uses env config budget (clients thread)
  exact ran.footed footed among

/-- A step that removes nothing is seen by its task for what it is. -/
theorem act_eq_observe
    {request : Call} {before after : World}
    {reply : Except CoreError request.Reply}
    (spares : ∀ call, request = .db call → erases before.db call = none) :
    act ⟨before, request, reply, after⟩ = observe request reply := by
  cases request with
  | db call =>
      cases reply with
      | error error => cases call <;> rfl
      | ok value => simp only [act, committed, spares call rfl]
  | _ => rfl

/-- Neither a read nor an upload removes anything. -/
theorem seen
    (ran : Ran env config budget now clients moments pool) {thread : ι}
    (requests : (∃ request, clients thread = .read request) ∨
      ∃ request, clients thread = .operation (.put request))
    (moment : Moment ι Call Call.Reply CoreError World)
    (among : moment ∈ moments) (own : moment.thread = thread) :
    act moment.event = observe moment.event.request moment.event.reply := by
  have used := ran_calls ran among
  rw [own] at used
  refine act_eq_observe fun call same => ?_
  rw [same] at used
  rcases requests with ⟨request, client⟩ | ⟨request, client⟩
  · rw [client] at used
    cases call <;> first | rfl | cases used
  · rw [client] at used
    rcases used with used | used
    · cases used
    · cases call <;> first | rfl | cases used

/-- A query for a key is refused only when the database fails. -/
theorem find_refused
    {projectId : Int} {kind : Kind} {path : String} {error : CoreError}
    {before after : World}
    (answered : Faulty env config (.db (.entriesFind projectId kind path))
      before (.error error) after) : error = .database .unavailable := by
  cases answered with
  | dbFault => rfl
  | exact answered => cases answered

theorem find_found
    {projectId : Int} {kind : Kind} {path : String} {entry : Entry}
    {before after : World}
    (answered : Faulty env config (.db (.entriesFind projectId kind path))
      before (.ok (some entry)) after) : entry ∈ before.db.entries.rows := by
  cases answered with
  | exact answered =>
      have found : before.db.entryAt ⟨projectId, kind, path⟩ = some entry := by
        simp only [exec, DbCall.exec] at answered
        exact Except.ok.inj (Prod.mk.inj (Option.some.inj answered)).1
      exact (entryAt_eq_some.mp found).1

theorem find_absent
    {projectId : Int} {kind : Kind} {path : String} {before after : World}
    (answered : Faulty env config (.db (.entriesFind projectId kind path))
      before (.ok none) after) :
    before.db.entryAt ⟨projectId, kind, path⟩ = none := by
  cases answered with
  | exact answered =>
      simp only [exec, DbCall.exec] at answered
      exact Except.ok.inj (Prod.mk.inj (Option.some.inj answered)).1

/-- A file cannot be opened because of a failure of the file system. -/
theorem open_refused
    {path : FilePath} {error : CoreError} {before after : World}
    (answered : Faulty env config (.fs (.openFile path)) before (.error error)
      after) : ∃ cause, error = .io cause := by
  cases answered with
  | fsFault _ cause => exact ⟨cause, rfl⟩
  | exact answered =>
      have same : (FsCall.exec env (.openFile path) before.fs).1 =
          .error error := (Prod.mk.inj (Option.some.inj answered)).1
      simp only [FsCall.exec] at same
      split at same
      · cases same
      · exact ⟨_, (Except.error.inj same).symm⟩

open Classical in
/-- The known content with this digest and size. -/
noncomputable def contentOf
    (env : Env) (known : Set Bytes) (value : Digest) : Bytes :=
  if described : ∃ content ∈ known, CacheMap.recorded env content = value then
    described.choose
  else []

section Explained

variable {thread : ι}

/-- The actions of a thread, on contents. -/
noncomputable def actions
    (env : Env) (known : Set Bytes) (moments : Steps ι) (thread : ι) :
    List (Action Bytes) :=
  (Pool.actionsOf thread (Pool.history act moments)).map
    (Action.map (contentOf env known))

/-- An action of a thread is a step that the client may make. -/
theorem acted
    (ran : Ran env config budget now clients moments pool)
    {action : Action Bytes}
    (among : action ∈ actions env (uploaded clients) moments thread) :
    ∃ before request reply after original,
      (clients thread).calls request ∧
      act ⟨before, request, reply, after⟩ = some original ∧
      action = original.map (contentOf env (uploaded clients)) := by
  obtain ⟨original, performed, rfl⟩ := List.mem_map.mp among
  obtain ⟨moment, within, own, acts⟩ := Pool.mem_actionsOf.mp performed
  have used := ran_calls ran within
  rw [own] at used
  exact ⟨_, _, _, _, original, used, acts, rfl⟩

end Explained

end Runs

/-! ## A download during an upload -/

/-- A project, an upload to it and a download of what is uploaded. -/
def overlapping : Fin 3 → Client
  | 0 => .operation (.createProject Operation.root "acme" none none)
  | 1 => .operation (.put ⟨acme, .sstate, "acme", "first", [.ok [97]]⟩)
  | 2 => .read ⟨acme, .sstate, "acme", "first", false⟩

/-- The task has answered 200. -/
def downloaded : App (Option Response) → Bool
  | .done (some response) => response.status = 200
  | _ => false

end LinearCache

end Marmotte
