import Marmotte.CacheMap
import Marmotte.Custody.Interference
import Marmotte.Footprints
import Marmotte.Frames
import Marmotte.HeadAgreement
import Marmotte.PushRun

/-!
# Files pushed side by side

The protocol that the requests of a push follow: each writes one key, with the
content of one file, and reads what authenticates it.  While nothing else
writes, the replies to these calls are known from the state in which the push
began and from what each request has written itself.
-/

namespace Marmotte

open Effects Tables Custody CacheMap

namespace Push

/-- What all requests of a push share: the command, what the server knows its
key as, the contents of the files and of the blob files, and the database at the
start. -/
structure Session where
  setup : Setup
  auth : ProjectAuth
  contents : Set Bytes
  base : Db
  registered : base.HasProject auth.projectId

/-- What the requests for one file know. -/
structure Record where
  custody : Custody.Local
  key : Key
  content : Bytes
  /-- What the key held at the start. -/
  before : Option (String × Int)
  /-- An upload of the file has committed. -/
  wrote : Bool

/-- What the key holds. -/
def Record.holds (env : Env) (record : Record) : Option (String × Int) :=
  if record.wrote then some (env.sha256 record.content, record.content.length)
  else record.before

namespace Session

variable (session : Session)

/-- Nothing but uploads of these contents. -/
abbrev custody : Custody.Setting :=
  ⟨session.setup.env, session.contents, True, False, False, True⟩

/-- The transactions of the requests for a file. -/
def permitsDb (record : Record) : DbCall → Prop
  | .projectsGetByName _ => True
  | .apiKeysFindActive _ _ => True
  | .entriesFind _ _ _ => True
  | .entriesUpsert projectId kind path hash size =>
      record.key = ⟨projectId, kind, path⟩ ∧
        hash = session.setup.env.sha256 record.content ∧
        size = record.content.length ∧ record.custody.held = some hash ∧
        record.content ∈ session.contents
  | .statsBump owner _ _ _ => owner = some session.auth.projectId
  | .blobsTotalSize => True
  | _ => False

/-- The calls of the requests for a file. -/
def permits (record : Record) : Call → Prop
  | .db call => session.permitsDb record call
  | .fs call =>
      uploadCalls (.fs call) ∧
        Custody.permitsFs session.custody record.custody call
  | .newUuid => True
  | .spawn _ => True
  | .tick _ => True
  | .projectCacheGet _ _ => True
  | .projectCacheInsert _ _ value => value = session.auth
  | _ => False

/-- The record after a call. -/
def advance
    (record : Record) (request : Call)
    (reply : Except CoreError request.Reply) : Record :=
  { record with
    custody := Custody.advance session.setup.env record.custody request reply
    wrote :=
      match request, reply with
      | .db (.entriesUpsert ..), .ok _ => true
      | _, _ => record.wrote }

/-- The protocol of the requests for a file. -/
def protocol : Protocol Call Call.Reply CoreError Record where
  permits := session.permits
  advance := session.advance

/-- The replies that the requests for a file can get. -/
def credible : Credible Call Call.Reply CoreError Record
  | _, .db (.projectsGetByName name), reply =>
      reply = Projects.getByName session.base name
  | _, .db (.apiKeysFindActive id lookup), reply =>
      reply = .ok (ApiKeys.findActiveByLookup session.base id lookup)
  | record, .db (.entriesFind projectId kind path), reply =>
      ∃ found : Option Entry, reply = .ok found ∧
        (record.key = ⟨projectId, kind, path⟩ →
          found.map (fun entry => (entry.blobHash, entry.sizeBytes)) =
            record.holds session.setup.env)
  | _, .projectCacheGet scope lookup, reply =>
      ∃ cached : Option ProjectAuth, reply = .ok cached ∧
        (scope = AuthSvc.projectScope session.setup.project →
          lookup = lookupHash session.setup.env session.setup.apiKey →
            ∀ auth, cached = some auth → auth = session.auth)
  | _, .fs (.removeFile _), _ => True
  | _, _, reply => ∃ value, reply = .ok value

/-- What the requests of a push keep: nobody is registered or removed, the
cache knows the key as the tables do, and the blob files of these digests have
the content they are named after, those of the entries among them. -/
structure Shared (hashes : Set String) (world : World) : Prop where
  projects : world.db.projects = session.base.projects
  apiKeys : world.db.apiKeys = session.base.apiKeys
  cached : ∀ cached ∈ world.projectCache,
    cached.scope = AuthSvc.projectScope session.setup.project →
      cached.lookup = lookupHash session.setup.env session.setup.apiKey →
        cached.value = session.auth
  files : ∀ hash content, world.fs.read (blobPath hash) = some content →
    content ∈ session.contents ∧
      (hash ∈ hashes → session.setup.env.sha256 content = hash)
  kept : ∀ entry ∈ world.db.entries.rows,
    entry.blobHash ∈ hashes ∧ HasFile world entry.blobHash

/-- What a record says is true. -/
structure Own
    (hashes : Set String) (record : Record) (world : World) : Prop where
  custody : Owned session.custody record.custody world
  owner : record.key.projectId = session.auth.projectId
  known : session.setup.env.sha256 record.content ∈ hashes
  holds : contentAt world.db record.key = record.holds session.setup.env

/-- The records of the requests for two files. -/
structure Separate (first second : Record) : Prop where
  custody : Apart first.custody second.custody
  keys : first.key ≠ second.key

/-! ## Steps -/

section Steps

variable {session : Session} {hashes : Set String}
variable {record other : Record} {before after : World}
variable {request : Call} {reply : Except CoreError request.Reply}

/-- What the protocol permits, the custody protocol permits. -/
theorem custody_permits
    (permitted : session.permits record request) :
    Custody.permits session.custody record.custody request := by
  cases request with
  | fs call => exact permitted.2
  | db call =>
      cases call with
      | entriesUpsert projectId kind path hash size =>
          obtain ⟨-, hashed, sized, held, listed⟩ := permitted
          exact ⟨held, record.content, listed, hashed.symm, sized⟩
      | projectsDelete id => exact permitted.elim
      | blobsZeroRefcount limit => exact permitted.elim
      | blobsDelete hash => exact permitted.elim
      | blobsHashes => exact permitted.elim
      | purge hash => exact permitted.elim
      | _ => trivial
  | _ => trivial

/-- The transactions leave the projects and their keys alone. -/
theorem writes_of_permitted
    {call : DbCall} (permitted : session.permitsDb record call) :
    .projects ∉ call.writes ∧ .apiKeys ∉ call.writes := by
  cases call <;> first | exact permitted.elim | simp [DbCall.writes]

/-- A transaction changes what a key holds only as an upsert of the record. -/
theorem contentAt_exec
    {env : Env} {now : Int} {call : DbCall} {db final : Db}
    {value : call.Reply} {key : Key}
    (permitted : session.permitsDb record call)
    (ran : call.exec env now db = .ok (value, final)) :
    contentAt final key = contentAt db key ∨
      (key = record.key ∧ (∃ projectId kind path hash size,
        call = .entriesUpsert projectId kind path hash size) ∧
        contentAt final key =
          some (session.setup.env.sha256 record.content,
            (record.content.length : Int))) := by
  by_cases inert : call.Inert
  · exact .inl (contentAt_of_sameStore (DbCall.exec_inert inert ran) key)
  cases call with
  | entriesUpsert projectId kind path hash size =>
      obtain ⟨keyed, rfl, rfl, -⟩ := permitted
      have changed := contentAt_of_upserted (Entries.upserted ran).2 key
      by_cases same : key = ⟨projectId, kind, path⟩
      · rw [if_pos same] at changed
        exact .inr ⟨same.trans keyed.symm, ⟨_, _, _, _, _, rfl⟩, changed⟩
      · rw [if_neg same] at changed
        exact .inl changed
  | projectsDelete id => exact permitted.elim
  | blobsDelete hash => exact permitted.elim
  | entriesTouch id => exact permitted.elim
  | entriesDelete projectId id => exact permitted.elim
  | entriesSetPinned projectId id pinned => exact permitted.elim
  | purge hash => exact permitted.elim
  | _ => exact absurd trivial inert

/-- A system call of an upload puts only files in place that are named after
their content. -/
theorem read_blob_after
    {config : Config} {call : FsCall} {reply : Except CoreError call.Reply}
    (own : Owned session.custody record.custody before)
    (permitted : Custody.permitsFs session.custody record.custody call)
    (answered : Faulty session.setup.env config (.fs call) before reply after)
    {hash : String} {content : Bytes}
    (present : after.fs.read (blobPath hash) = some content) :
    before.fs.read (blobPath hash) = some content ∨
      content ∈ session.contents ∧
        session.setup.env.sha256 content = hash := by
  by_cases touches : call.Touches (blobPath hash)
  · rcases touches_blobPath permitted touches with ⟨source, rfl⟩ | rfl
    · obtain ⟨name, body, ⟨uploading, listed⟩, rfl, same⟩ := permitted
      have written := own.written name body uploading
      rcases Faulty.fs_cases answered with ⟨-, rfl⟩ | ⟨_, -, rfl | torn⟩
      · simp only [FsCall.exec, written, Fs.read_write_self,
          Option.some.injEq] at present
        rw [blobPath_eq_iff] at same
        exact .inr (by rw [← present, same]; exact ⟨listed, rfl⟩)
      · exact .inl present
      · obtain ⟨_, _, _, impossible, -⟩ := torn
        cases impossible
    · rcases Faulty.fs_cases answered with ⟨-, rfl⟩ | ⟨_, -, rfl | torn⟩
      · simp only [FsCall.exec] at present
        split at present
        · rw [Fs.read_unlink_self] at present
          cases present
        · exact .inl present
      · exact .inl present
      · obtain ⟨_, _, _, impossible, -⟩ := torn
        cases impossible
  · left
    rwa [(Faulty.fs_frame answered).2 _ touches] at present

/-- Nor does it remove a blob file. -/
theorem hasFile_stays
    {config : Config} {call : FsCall} {reply : Except CoreError call.Reply}
    (own : Owned session.custody record.custody before)
    (permitted : Custody.permitsFs session.custody record.custody call)
    (answered : Faulty session.setup.env config (.fs call) before reply after)
    {hash : String} (present : HasFile before hash) : HasFile after hash := by
  refine (hasFile_before permitted answered present).resolve_right ?_
  rintro rfl
  rcases permitted with ⟨upload, -, impossible⟩ | ⟨_, -, waiting | orphaned⟩
  · exact blobPath_ne_tmpPath _ _ impossible
  · rw [own.sweeping.resolve_left id] at waiting
    cases waiting
  · rw [(own.scanning.resolve_left id).2.1] at orphaned
    cases orphaned

theorem Shared.step
    {config : Config}
    (shared : session.Shared hashes before)
    (own : session.Own hashes record before)
    (permitted : session.permits record request)
    (answered : Faulty session.setup.env config request before reply after) :
    session.Shared hashes after := by
  have cached : ∀ cached ∈ after.projectCache,
      cached.scope = AuthSvc.projectScope session.setup.project →
        cached.lookup = lookupHash session.setup.env session.setup.apiKey →
          cached.value = session.auth := by
    intro cached present
    rcases Faulty.projectCache answered present with old | ⟨_, _, _, rfl, rfl⟩
    · exact shared.cached cached old
    · exact fun _ _ => permitted
  cases request with
  | fs call =>
      have same : after.db = before.db := by
        rw [(Faulty.fs_frame answered).1]
      constructor
      case cached => exact cached
      case projects => rw [same, shared.projects]
      case apiKeys => rw [same, shared.apiKeys]
      case files =>
        intro hash content present
        rcases read_blob_after own.custody permitted.2 answered present with
          old | ⟨listed, named⟩
        · exact shared.files hash content old
        · exact ⟨listed, fun _ => named⟩
      case kept =>
        intro entry present
        rw [same] at present
        have known := shared.kept entry present
        exact ⟨known.1, hasFile_stays own.custody permitted.2 answered known.2⟩
  | db call =>
      have files := Faulty.files (by simp) answered
      rcases Faulty.commits answered with same | ⟨call', value, isDb, ran⟩
      · exact
          { projects := by rw [same, shared.projects]
            apiKeys := by rw [same, shared.apiKeys]
            cached := cached
            files := by rw [files]; exact shared.files
            kept := by simp only [same, HasFile, files]; exact shared.kept }
      · cases isDb
        have untouched := writes_of_permitted permitted
        have frame := DbCall.exec_frame ran
        constructor
        case cached => exact cached
        case projects => rw [frame.projects untouched.1, shared.projects]
        case apiKeys => rw [frame.apiKeys untouched.2, shared.apiKeys]
        case files =>
          rw [files]
          exact shared.files
        case kept =>
          intro entry present
          rw [HasFile, files]
          rcases DbCall.exec_entries ran present with
            ⟨old, oldPresent, same⟩ | ⟨projectId, kind, path, rfl, -⟩
          · rw [← same.hash]
            exact shared.kept old oldPresent
          · obtain ⟨-, hashed, -, held, -⟩ := permitted
            rw [hashed]
            exact ⟨own.known, hashed ▸ own.custody.held _ held⟩
  | _ =>
      have files := Faulty.files (by simp) answered
      have same := Faulty.database (by simp) answered
      exact
        { projects := by rw [same, shared.projects]
          apiKeys := by rw [same, shared.apiKeys]
          cached := cached
          files := by rw [files]; exact shared.files
          kept := by simp only [same, HasFile, files]; exact shared.kept }

/-- A call of one request keeps what the record of another one says. -/
theorem contentAt_step
    {config : Config} {key : Key} (different : key ≠ record.key)
    (permitted : session.permits record request)
    (answered : Faulty session.setup.env config request before reply after) :
    contentAt after.db key = contentAt before.db key := by
  rcases Faulty.commits answered with same | ⟨call, value, rfl, ran⟩
  · rw [same]
  · rcases contentAt_exec permitted ran with same | ⟨same, -⟩
    · exact same
    · exact absurd same different

theorem holds_step
    {config : Config}
    (holds : contentAt before.db record.key = record.holds session.setup.env)
    (permitted : session.permits record request)
    (answered : Faulty session.setup.env config request before reply after) :
    contentAt after.db record.key =
      (session.advance record request reply).holds session.setup.env := by
  cases request with
  | db call =>
      have allowed : session.permitsDb record call := permitted
      rcases Faulty.db_cases answered with
        ⟨value, db, ran, rfl, rfl⟩ | ⟨error, rfl, rfl⟩
      · cases call with
        | entriesUpsert projectId kind path hash size =>
            obtain ⟨keyed, rfl, rfl, -⟩ := permitted
            have changed := contentAt_of_upserted (Entries.upserted ran).2
              record.key
            rw [if_pos keyed] at changed
            exact changed
        | _ =>
            rcases contentAt_exec allowed ran with same | ⟨-, ⟨_, _, _, _, _,
              impossible⟩, -⟩
            · exact same.trans holds
            · cases impossible
      · cases call <;> exact holds
  | fs call =>
      rw [Faulty.database (by simp) answered]
      exact holds
  | _ =>
      rw [Faulty.database (by simp) answered]
      exact holds

theorem Own.step
    {config : Config}
    (own : session.Own hashes record before)
    (permitted : session.permits record request)
    (answered : Faulty session.setup.env config request before reply after) :
    session.Own hashes (session.advance record request reply) after where
  custody := own_step own.custody (fun swept => absurd swept id)
    (fun scanned => absurd scanned id) (fun scanned => absurd scanned id)
    (custody_permits permitted) answered
  owner := own.owner
  known := own.known
  holds := holds_step own.holds permitted answered

theorem Own.frame
    {config : Config}
    (own : session.Own hashes record before)
    (foreign : session.Own hashes other before)
    (separate : Separate record other)
    (permitted : session.permits record request)
    (answered : Faulty session.setup.env config request before reply after) :
    session.Own hashes other after where
  custody := foreign.custody.stable
    (undisturbed own.custody foreign.custody separate.custody
      (custody_permits permitted)
      (sparesSweeps_of_none id id own.custody foreign.custody
        (custody_permits permitted))
      (sparesScans_of_none id own.custody foreign.custody) answered)
  owner := foreign.owner
  known := foreign.known
  holds := (contentAt_step separate.keys.symm permitted answered).trans
    foreign.holds

theorem Separate.step
    {config : Config}
    (own : session.Own hashes record before)
    (foreign : session.Own hashes other before)
    (separate : Separate record other)
    (permitted : session.permits record request)
    (answered : Faulty session.setup.env config request before reply after) :
    Separate (session.advance record request reply) other where
  custody := apart_step foreign.custody separate.custody
    (custody_permits permitted)
    (sparesScans_of_none id own.custody foreign.custody) answered
  keys := separate.keys

/-- The discipline of the requests of a push. -/
def discipline (session : Session) (hashes : Set String) :
    Pool.Discipline session.protocol
      (exec session.setup.env session.setup.config).answers
      (fun _ _ _ _ => True) where
  shared := session.Shared hashes
  own := session.Own hashes
  pair := Separate
  step _ _ _ _ _ shared own permitted answered :=
    ⟨shared.step own permitted (.exact answered),
      own.step permitted (.exact answered)⟩
  frame _ _ _ _ _ _ _ own foreign separate permitted _ answered :=
    own.frame foreign separate permitted (.exact answered)
  apart _ _ _ _ _ _ _ own foreign separate permitted _ answered :=
    separate.step own foreign permitted (.exact answered)
  symm _ _ separate := ⟨separate.custody.symm, separate.keys.symm⟩

/-- The project of the key is still registered. -/
theorem Shared.registered
    (shared : session.Shared hashes before) :
    before.db.HasProject session.auth.projectId := by
  have registered := session.registered
  unfold Db.HasProject at registered ⊢
  rwa [shared.projects]

/-- The reply to a transaction of a push is credible. -/
theorem credible_db
    {call : DbCall} {reply : Except CoreError call.Reply}
    (shared : session.Shared hashes before)
    (own : session.Own hashes record before)
    (permitted : session.permitsDb record call)
    (answered : exec session.setup.env session.setup.config (.db call) before =
      some (reply, after)) :
    session.credible record (.db call) reply := by
  have accepted {value : call.Reply} {db : Db}
      (ran : call.exec session.setup.env before.now before.db =
        .ok (value, db)) : reply = .ok value := by
    simp only [exec, ran, Option.some.injEq, Prod.mk.injEq] at answered
    exact answered.1.symm
  cases call with
  | projectsGetByName name =>
      have same : Projects.getByName session.base name =
          Projects.getByName before.db name := by
        unfold Projects.getByName
        rw [shared.projects]
      change reply = Projects.getByName session.base name
      rw [same]
      cases found : Projects.getByName before.db name with
      | ok project =>
          exact accepted (by simp only [DbCall.exec, found]; rfl)
      | error error =>
          simp only [exec, DbCall.exec, found, Except.map,
            Option.some.injEq, Prod.mk.injEq] at answered
          exact answered.1.symm
  | apiKeysFindActive id lookup =>
      have same : ApiKeys.findActiveByLookup session.base id lookup =
          ApiKeys.findActiveByLookup before.db id lookup := by
        unfold ApiKeys.findActiveByLookup
        rw [shared.apiKeys]
      change reply = .ok (ApiKeys.findActiveByLookup session.base id lookup)
      rw [same]
      exact accepted rfl
  | entriesFind projectId kind path =>
      refine ⟨_, accepted rfl, fun keyed => ?_⟩
      rw [← own.holds, keyed]
      rfl
  | entriesUpsert projectId kind path hash size =>
      have registered : before.db.HasProject projectId := by
        have owner : projectId = session.auth.projectId := by
          rw [← own.owner, permitted.1]
        rw [owner]
        exact shared.registered
      obtain ⟨entry, db, ran, -⟩ := Entries.upsert_ok before.now kind path hash
        size registered
      exact ⟨entry, accepted ran⟩
  | statsBump owner kind count bytes =>
      have isOwner : owner = some session.auth.projectId := permitted
      subst isOwner
      obtain ⟨db, ran⟩ := statsBump_ok before.now kind count bytes
        shared.registered
      exact ⟨(), accepted ran⟩
  | blobsTotalSize => exact ⟨_, accepted rfl⟩
  | _ => exact permitted.elim

/-- The reply to a system call of a push is credible. -/
theorem credible_fs
    {call : FsCall} {reply : Except CoreError call.Reply}
    (own : session.Own hashes record before)
    (permitted : session.permits record (.fs call))
    (answered : exec session.setup.env session.setup.config (.fs call) before =
      some (reply, after)) :
    session.credible record (.fs call) reply := by
  simp only [exec, Option.some.injEq, Prod.mk.injEq] at answered
  obtain ⟨rfl, -⟩ := answered
  cases call with
  | createFile path => exact ⟨_, rfl⟩
  | appendFile path chunk =>
      simp only [FsCall.exec]
      split <;> exact ⟨_, rfl⟩
  | flushFile path => exact ⟨_, rfl⟩
  | syncFile path => exact ⟨_, rfl⟩
  | createDirAll path => exact ⟨_, rfl⟩
  | fileExists path => exact ⟨_, rfl⟩
  | removeFile path => trivial
  | rename source target =>
      obtain ⟨-, name, content, ⟨uploading, -⟩, rfl, -⟩ := permitted
      simp only [FsCall.exec, own.custody.written name content uploading]
      exact ⟨_, rfl⟩
  | openFile path => exact permitted.1.elim
  | blobsExists | walkBlobs => exact permitted.2.1.elim
  | readTmp => exact ⟨_, rfl⟩

/-- A reply to a request of a push is credible. -/
theorem credible_of_answered
    (shared : session.Shared hashes before)
    (own : session.Own hashes record before)
    (permitted : session.permits record request)
    (answered : exec session.setup.env session.setup.config request before =
      some (reply, after)) :
    session.credible record request reply := by
  cases request with
  | db call => exact credible_db shared own permitted answered
  | fs call => exact credible_fs own permitted answered
  | projectCacheGet scope lookup =>
      cases answered
      refine ⟨_, rfl, ?_⟩
      rintro rfl rfl auth hit
      obtain ⟨cached, present, scope, lookup, -, rfl⟩ :=
        VerifyCache.mem_of_get hit
      exact shared.cached cached present scope lookup
  | newUuid | spawn | tick | projectCacheInsert =>
      cases answered
      exact ⟨_, rfl⟩
  | _ => exact permitted.elim

theorem grants (session : Session) (hashes : Set String) :
    Pool.Grants (discipline session hashes) session.credible where
  credible _ _ _ _ _ shared own permitted answered :=
    credible_of_answered shared own permitted answered
  compatible _ _ _ _ _ _ _ := trivial

end Steps

end Session

end Push

end Marmotte
