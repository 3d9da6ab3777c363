import Marmotte.CacheMap
import Marmotte.Concurrency.UploadTrails
import Marmotte.Custody.Interference
import Marmotte.Effects.Rely
import Marmotte.Frames
import Mathlib.Data.Fintype.Basic
import Mathlib.Tactic.FinCases

/-!
# Uploads that converge

Any number of `PUT` requests, in any order of their steps and with any of them
repeated.  When all of them have succeeded, what the store holds is determined
by the state in which they began and by which key got which body.
-/

namespace Marmotte

open Effects Tables Custody CacheMap

namespace Db

/-- An entry of this key is pinned. -/
def pinnedAt (db : Db) (key : Key) : Bool := (db.entryAt key).any Entry.pinned

/-- The keys whose entries refer to a hash. -/
def keysTo (db : Db) (hash : String) : Finset Key :=
  ((db.entries.rows.filter fun entry =>
    decide (entry.blobHash = hash)).map Entry.key).toFinset

theorem mem_keysTo {db : Db} {hash : String} {key : Key} :
    key ∈ db.keysTo hash ↔
      (contentAt db key).map Prod.fst = some hash := by
  simp only [keysTo, List.mem_toFinset, List.mem_map, List.mem_filter,
    decide_eq_true_eq, contentAt, Option.map_map, Option.map_eq_some_iff,
    entryAt_eq_some, Function.comp_apply]
  constructor
  · rintro ⟨entry, ⟨present, points⟩, keyed⟩
    exact ⟨entry, ⟨present, keyed⟩, points⟩
  · rintro ⟨entry, ⟨present, keyed⟩, points⟩
    exact ⟨entry, ⟨present, points⟩, keyed⟩

/-- A key has one entry, so keys are counted as entries are. -/
theorem card_keysTo (db : Db) (hash : String) :
    (db.keysTo hash).card = db.pointersTo hash := by
  have distinct : (db.entries.rows.map Entry.key).Nodup := by
    refine List.Pairwise.map _ (fun first second apart same => ?_)
      db.entries.distinct
    exact apart (.inr same)
  have filtered : ((db.entries.rows.filter fun entry =>
      decide (entry.blobHash = hash)).map Entry.key).Nodup :=
    distinct.sublist (List.filter_sublist.map _)
  rw [keysTo, List.toFinset_card_of_nodup filtered, List.length_map,
    pointersTo, pointers, List.countP_eq_length_filter]

theorem pinnedAt_of_upserted
    {now size : Int} {before after : Db} {key : Key} {hash : String}
    (upserted : Entries.Upserted now before after key hash size)
    (other : Key) : after.pinnedAt other = before.pinnedAt other := by
  by_cases same : other = key
  · subst same
    rw [pinnedAt, pinnedAt, upserted.entryAt_self, storedEntry]
    cases before.entryAt other <;> rfl
  · rw [pinnedAt, upserted.entryAt_of_ne same, pinnedAt]

end Db

/-! ## What a store holds -/

/-- What a store holds, up to row ids and timestamps. -/
structure Holdings where
  /-- The digest and the size under each key. -/
  contents : Key → Option (String × Int)
  pinned : Key → Bool
  /-- The size and the reference count of each blob row. -/
  blobs : String → Option (Int × Int)
  /-- The content of each blob file. -/
  files : String → Option Bytes

/-- What the store of a world holds. -/
def World.holdings (world : World) : Holdings where
  contents := contentAt world.db
  pinned := world.db.pinnedAt
  blobs hash := (world.db.storedSize hash).map fun size =>
    (size, world.db.refcount hash)
  files hash := world.fs.read (blobPath hash)

namespace ConvergingPuts

/-- The digest is that of a body that is put under some key. -/
def Brings
    (env : Env) (puts : Contents) (hash : String) (content : Bytes) : Prop :=
  env.sha256 content = hash ∧ ∃ key, puts key = some content

/-- The bodies that are put. -/
def bodies (puts : Contents) : Set Bytes :=
  {content | ∃ key, puts key = some content}

/-- The state in which uploads end that have all succeeded. -/
structure Converged
    (env : Env) (start : World) (puts : Contents) (final : World) : Prop where
  /-- Each key maps to the digest of its body. -/
  written : ∀ key content, puts key = some content →
    contentAt final.db key = some (recorded env content)
  /-- Each entry is pinned as it was, and new ones are not. -/
  pinned : ∀ key, final.db.pinnedAt key = start.db.pinnedAt key
  /-- All other entries are untouched. -/
  others : ∀ key, puts key = none →
    final.db.entryAt key = start.db.entryAt key
  /-- Each count is the number of keys that refer to the blob. -/
  counted : ∀ hash, final.db.refcount hash = (final.db.keysTo hash).card
  /-- A blob lost one reference for each key in which it was replaced, and got
  one for each key that it was put under. -/
  replaced : ∀ hash,
    final.db.refcount hash +
        ((start.db.keysTo hash).filter fun key => (puts key).isSome).card =
      start.db.refcount hash +
        ((final.db.keysTo hash).filter fun key => (puts key).isSome).card
  /-- Each content has one row, with its length unless it had a row before. -/
  rows : ∀ hash content, Brings env puts hash content →
    (∃! blob, blob ∈ final.db.blobs.rows ∧ blob.hash = hash) ∧
      final.db.storedSize hash =
        some ((start.db.storedSize hash).getD content.length)
  /-- Each content has one file, which is not written again. -/
  files : ∀ hash content, Brings env puts hash content →
    (∃! file, file ∈ final.fs.rows ∧ file.path = blobPath hash) ∧
      final.fs.read (blobPath hash) =
        some ((start.fs.read (blobPath hash)).getD content)
  /-- Nothing else is added or removed. -/
  kept : ∀ hash, (∀ content, ¬Brings env puts hash content) →
    final.db.storedSize hash = start.db.storedSize hash ∧
      final.fs.read (blobPath hash) = start.fs.read (blobPath hash)
  /-- None of the temporary files of the uploads is left. -/
  discarded : ∀ number, start.uuids ≤ number → number < final.uuids →
    final.fs.has (tmpPath (env.uuid number)) = false
  /-- All other files are untouched. -/
  elsewhere : ∀ path, (∀ hash, path ≠ blobPath hash) →
    (∀ number, start.uuids ≤ number → path ≠ tmpPath (env.uuid number)) →
      final.fs.read path = start.fs.read path
  /-- Only entries, blobs and usage counters are written. -/
  frame : Db.Frame [.entries, .blobs, .statsCounters] start.db final.db

/-! ## While the uploads run -/

/-- Only the bodies that are put, and nothing else. -/
abbrev setting (env : Env) (puts : Contents) : Custody.Setting :=
  ⟨env, bodies puts, False, False, False, True⟩

/-- What a task knows: what it owns, and its trail. -/
abbrev Record : Type := Custody.Local × Trail

/-- The protocol of the uploads. -/
def protocol (env : Env) (puts : Contents) :
    Protocol Call Call.Reply CoreError Record :=
  (Custody.protocol (setting env puts)).both (Trail.protocol env)

/-- What every step keeps. -/
structure Merging
    (env : Env) (start : World) (puts : Contents) (world : World) : Prop where
  exact : world.db.Exact
  others : ∀ key, puts key = none →
    world.db.entryAt key = start.db.entryAt key
  pinned : ∀ key, world.db.pinnedAt key = start.db.pinnedAt key
  /-- A size is new only where there was no row. -/
  sizes : ∀ hash, world.db.storedSize hash = start.db.storedSize hash ∨
    start.db.storedSize hash = none ∧ ∃ content,
      Brings env puts hash content ∧
        world.db.storedSize hash = some (content.length : Int)
  /-- A content is new only where there was no file. -/
  files : ∀ hash,
    world.fs.read (blobPath hash) = start.fs.read (blobPath hash) ∨
      start.fs.read (blobPath hash) = none ∧ ∃ content,
        Brings env puts hash content ∧
          world.fs.read (blobPath hash) = some content
  elsewhere : ∀ path, (∀ hash, path ≠ blobPath hash) →
    (∀ number, start.uuids ≤ number → path ≠ tmpPath (env.uuid number)) →
      world.fs.read path = start.fs.read path
  uuids : start.uuids ≤ world.uuids
  frame : Db.Frame [.entries, .blobs, .statsCounters] start.db world.db

/-- What a trail claims is true. -/
structure Tracked
    (env : Env) (start : World) (puts : Contents) (trail : Trail)
    (world : World) : Prop where
  known : ∀ key content, trail.target = some (key, content) →
    puts key = some content
  drawn : ∀ name, trail.tmp = some name →
    ∃ number, start.uuids ≤ number ∧ number < world.uuids ∧
      name = env.uuid number
  missing : ∀ path, trail.missing = some path →
    start.fs.read path = none
  wrote : trail.wrote = true → ∀ key content,
    trail.target = some (key, content) →
      contentAt world.db key = some (recorded env content)

/-- What a record claims is true. -/
structure Own
    (env : Env) (start : World) (puts : Contents) (record : Record)
    (world : World) : Prop where
  custody : Owned (setting env puts) record.1 world
  trail : Tracked env start puts record.2 world

section Steps

variable {env : Env} {config : Config} {start : World} {puts : Contents}
variable {record other : Record} {before after : World}
variable {request : Call} {reply : Except CoreError request.Reply}

/-- A transaction of an upload writes neither projects nor credentials. -/
theorem writes_of_permitted
    {trail : Trail} {call : DbCall} (permitted : trail.permitsDb env call) :
    call.writes ⊆ [.entries, .blobs, .statsCounters] := by
  cases call <;> first | exact permitted.elim | simp [DbCall.writes]

/-- It is the upsert of the target, or writes neither entries nor blobs. -/
theorem upsert_or_inert
    {trail : Trail} {call : DbCall} (permitted : trail.permitsDb env call) :
    call.Inert ∨ ∃ key content, trail.target = some (key, content) ∧
      call = .entriesUpsert key.projectId key.kind key.path
        (env.sha256 content) content.length := by
  cases call with
  | entriesUpsert projectId kind path hash size =>
      obtain ⟨content, targeted, rfl, rfl⟩ := permitted
      exact .inr ⟨⟨projectId, kind, path⟩, content, targeted, rfl⟩
  | statsBump | blobsTotalSize => exact .inl trivial
  | _ => exact permitted.elim

/-- What a committed upsert of a body keeps. -/
theorem Merging.upserted
    {now : Int} {db : Db} {key : Key} {content : Bytes}
    (merging : Merging env start puts before)
    (known : puts key = some content)
    (upserted : Entries.Upserted now before.db db key (env.sha256 content)
      content.length) (hash : String) :
    db.storedSize hash = start.db.storedSize hash ∨
      start.db.storedSize hash = none ∧ ∃ content,
        Brings env puts hash content ∧
          db.storedSize hash = some (content.length : Int) := by
  rw [upserted.storedSize hash]
  by_cases same : hash = env.sha256 content
  · subst same
    rw [if_pos rfl]
    rcases merging.sizes (env.sha256 content) with old | ⟨new, body, brings,
      sized⟩
    · rw [old]
      cases stored : start.db.storedSize (env.sha256 content) with
      | some size => exact .inl rfl
      | none => exact .inr ⟨rfl, content, ⟨rfl, key, known⟩, rfl⟩
    · exact .inr ⟨new, body, brings, by rw [sized]; rfl⟩
  · rw [if_neg same]
    exact merging.sizes hash

/-- A transaction of an upload keeps the invariant. -/
theorem Merging.db
    {now : Int} {call : DbCall} {db : Db} {value : call.Reply} {trail : Trail}
    (merging : Merging env start puts before)
    (tracked : Tracked env start puts trail before)
    (permitted : trail.permitsDb env call)
    (ran : call.exec env now before.db = .ok (value, db)) :
    Merging env start puts { before with db := db } := by
  have frame : Db.Frame [.entries, .blobs, .statsCounters] start.db db :=
    merging.frame.trans
      ((DbCall.exec_frame ran).mono (writes_of_permitted permitted))
  rcases upsert_or_inert permitted with inert | ⟨key, content, targeted, rfl⟩
  · have same := DbCall.exec_inert inert ran
    exact
      { exact := fun hash => (same.surplus hash).trans (merging.exact hash)
        others := fun key unput =>
          (same.entryAt key).trans (merging.others key unput)
        pinned := fun key => by
          have kept := merging.pinned key
          rw [Db.pinnedAt] at kept ⊢
          rw [same.entryAt, kept]
        sizes := fun hash => by
          have sameSize : db.storedSize hash = before.db.storedSize hash := by
            rw [Db.storedSize, same.get, Db.storedSize]
          rw [sameSize]
          exact merging.sizes hash
        files := merging.files
        elsewhere := merging.elsewhere
        uuids := merging.uuids
        frame := frame }
  · have upserted := (Entries.upserted ran).2
    have known := tracked.known key content targeted
    exact
      { exact := fun hash =>
          (upserted.exchange.surplus hash).trans (merging.exact hash)
        others := fun other unput => by
          have different : other ≠ key := by
            rintro rfl
            rw [known] at unput
            cases unput
          exact (upserted.entryAt_of_ne different).trans
            (merging.others other unput)
        pinned := fun other =>
          (Db.pinnedAt_of_upserted upserted other).trans
            (merging.pinned other)
        sizes := merging.upserted known upserted
        files := merging.files
        elsewhere := merging.elsewhere
        uuids := merging.uuids
        frame := frame }

/-- A system call of an upload touches its temporary file, or puts a file in
place where none was at the start. -/
theorem touches_cases
    {call : FsCall} {path : FilePath} {trail : Trail} {custody : Local}
    (tracked : Tracked env start puts trail before)
    (permitted : permitsFs (setting env puts) custody call)
    (trailed : trail.permitsFs call) (touches : call.Touches path) :
    (∃ name, trail.tmp = some name ∧ path = tmpPath name) ∨
      ∃ source hash, call = .rename source (blobPath hash) ∧
        path = blobPath hash ∧ start.fs.read path = none := by
  cases call with
  | createFile other =>
      obtain ⟨name, writing, rfl⟩ := trailed
      exact .inl ⟨name, writing, touches⟩
  | appendFile other chunk =>
      obtain ⟨name, writing, rfl⟩ := trailed
      exact .inl ⟨name, writing, touches⟩
  | removeFile other =>
      obtain ⟨name, writing, rfl⟩ := trailed
      exact .inl ⟨name, writing, touches⟩
  | rename source target =>
      obtain ⟨⟨name, writing, rfl⟩, missing⟩ := trailed
      obtain ⟨_, content, -, -, rfl⟩ := permitted
      rcases touches with rfl | rfl
      · exact .inl ⟨name, writing, rfl⟩
      · exact .inr ⟨_, _, rfl, rfl, tracked.missing _ missing⟩
  | _ => cases touches

/-- What is in a blob file after a system call of an upload. -/
theorem Merging.read_after
    {call : FsCall} {answer : Except CoreError call.Reply}
    (merging : Merging env start puts before)
    (own : Own env start puts record before)
    (permitted : permitsFs (setting env puts) record.1 call)
    (trailed : record.2.permitsFs call)
    (answered : Faulty env config (.fs call) before answer after)
    (hash : String) :
    after.fs.read (blobPath hash) = start.fs.read (blobPath hash) ∨
      start.fs.read (blobPath hash) = none ∧ ∃ content,
        Brings env puts hash content ∧
          after.fs.read (blobPath hash) = some content := by
  by_cases touches : call.Touches (blobPath hash)
  · rcases touches_cases own.trail permitted trailed touches with
      ⟨name, -, impossible⟩ | ⟨source, _, rfl, same, unread⟩
    · exact absurd impossible (blobPath_ne_tmpPath _ _)
    · rw [blobPath_eq_iff] at same
      subst same
      obtain ⟨name, body, ⟨uploading, listed⟩, rfl, placed⟩ := permitted
      rw [blobPath_eq_iff] at placed
      have written := own.custody.written name body uploading
      rcases Faulty.fs_cases answered with ⟨-, rfl⟩ | ⟨_, -, rfl | torn⟩
      · refine .inr ⟨unread, body, ⟨placed.symm, listed⟩, ?_⟩
        simp only [FsCall.exec, written, Fs.read_write_self]
      · exact merging.files hash
      · obtain ⟨_, _, _, impossible, -⟩ := torn
        cases impossible
  · rw [(Faulty.fs_frame answered).2 _ touches]
    exact merging.files hash

/-- A system call of an upload keeps the invariant. -/
theorem Merging.fs
    {call : FsCall} {answer : Except CoreError call.Reply}
    (merging : Merging env start puts before)
    (own : Own env start puts record before)
    (permitted : permitsFs (setting env puts) record.1 call)
    (trailed : record.2.permitsFs call)
    (answered : Faulty env config (.fs call) before answer after) :
    Merging env start puts after := by
  have frame := Faulty.fs_frame answered
  have sameDb : after.db = before.db := by rw [frame.1]
  have sameUuids : after.uuids = before.uuids := by rw [frame.1]
  constructor
  case exact => exact sameDb ▸ merging.exact
  case others => exact sameDb ▸ merging.others
  case pinned => exact sameDb ▸ merging.pinned
  case sizes => exact sameDb ▸ merging.sizes
  case files => exact merging.read_after own permitted trailed answered
  case elsewhere =>
      intro path unblob untmp
      rw [frame.2 path]
      · exact merging.elsewhere path unblob untmp
      intro touches
      rcases touches_cases own.trail permitted trailed touches with
        ⟨name, writing, rfl⟩ | ⟨_, hash, -, rfl, -⟩
      · obtain ⟨number, drawn, -, rfl⟩ := own.trail.drawn name writing
        exact untmp number drawn rfl
      · exact unblob hash rfl
  case uuids => exact sameUuids ▸ merging.uuids
  case frame => exact sameDb ▸ merging.frame

/-- Every permitted call keeps the invariant. -/
theorem Merging.step
    (merging : Merging env start puts before)
    (own : Own env start puts record before)
    (permitted : (protocol env puts).permits record request)
    (answered : Faulty env config request before reply after) :
    Merging env start puts after := by
  cases request with
  | fs call => exact merging.fs own permitted.1 permitted.2 answered
  | db call =>
      rcases Faulty.db_cases answered with
        ⟨value, db, ran, -, rfl⟩ | ⟨_, -, rfl⟩
      · exact merging.db own.trail permitted.2 ran
      · exact merging
  | _ =>
      have sameDb := Faulty.database (by simp) answered
      have sameFs := Faulty.files (by simp) answered
      exact
        { exact := sameDb ▸ merging.exact
          others := sameDb ▸ merging.others
          pinned := sameDb ▸ merging.pinned
          sizes := sameDb ▸ merging.sizes
          files := sameFs ▸ merging.files
          elsewhere := sameFs ▸ merging.elsewhere
          uuids := merging.uuids.trans (Faulty.uuids answered)
          frame := sameDb ▸ merging.frame }

/-- What a step of one task leaves under the key of another one. -/
theorem Tracked.wrote_after
    {trail foreign : Trail}
    (tracked : Tracked env start puts trail before)
    (other : Tracked env start puts foreign before)
    (permitted : trail.permits env request)
    (answered : Faulty env config request before reply after)
    (written : foreign.wrote = true) :
    ∀ key content, foreign.target = some (key, content) →
      contentAt after.db key = some (recorded env content) := by
  intro key content targeted
  have holds := other.wrote written key content targeted
  rcases Faulty.commits answered with same | ⟨call, value, rfl, ran⟩
  · rw [same]
    exact holds
  rcases upsert_or_inert permitted with inert | ⟨own, body, mine, rfl⟩
  · rw [contentAt_of_sameStore (DbCall.exec_inert inert ran)]
    exact holds
  · rw [contentAt_of_upserted (Entries.upserted ran).2]
    split
    · rename_i same
      subst same
      have sameBody := (tracked.known own body mine).symm.trans
        (other.known own content targeted)
      cases sameBody
      rfl
    · exact holds

/-- Another task's call leaves a trail true. -/
theorem Tracked.frame
    {trail foreign : Trail}
    (tracked : Tracked env start puts trail before)
    (other : Tracked env start puts foreign before)
    (permitted : trail.permits env request)
    (answered : Faulty env config request before reply after) :
    Tracked env start puts foreign after where
  known := other.known
  drawn name writing := by
    obtain ⟨number, first, last, same⟩ := other.drawn name writing
    exact ⟨number, first, Nat.lt_of_lt_of_le last (Faulty.uuids answered),
      same⟩
  missing := other.missing
  wrote := tracked.wrote_after other permitted answered

/-- A call extends the trail of its own task by what is true. -/
theorem Tracked.step
    (merging : Merging env start puts before)
    (tracked : Tracked env start puts record.2 before)
    (permitted : (protocol env puts).permits record request)
    (answered : exec env config request before = some (reply, after)) :
    Tracked env start puts (record.2.advance request reply) after := by
  have kept := tracked.frame tracked permitted.2 (.exact answered)
  cases request with
  | newUuid =>
      cases answered
      refine { kept with drawn := ?_ }
      rintro name ⟨⟩
      exact ⟨before.uuids, merging.uuids, Nat.lt_succ_self _, rfl⟩
  | fs call =>
      cases call with
      | fileExists path =>
          obtain ⟨name, content, -, rfl⟩ := permitted.1
          cases answered
          simp only [Trail.advance]
          split
          · exact { kept with missing := by rintro _ ⟨⟩ }
          · rename_i unfound
            refine { kept with missing := ?_ }
            rintro _ ⟨⟩
            rcases merging.files (env.sha256 content) with same | new
            · have gone : before.fs.has
                  (blobPath (env.sha256 content)) = false := by
                simpa using unfound
              rw [← same]
              simpa [Fs.has] using gone
            · exact new.1
      | removeFile path => exact { kept with drawn := by rintro _ ⟨⟩ }
      | rename source target =>
          cases reply with
          | ok value => exact { kept with drawn := by rintro _ ⟨⟩ }
          | error error => exact kept
      | _ => exact kept
  | db call =>
      cases call with
      | entriesUpsert projectId kind path hash size =>
          cases reply with
          | error error => exact kept
          | ok entry =>
              obtain ⟨content, targeted, rfl, rfl⟩ := permitted.2
              rcases Faulty.db_cases (.exact answered) with
                ⟨_, db, ran, -, rfl⟩ | ⟨_, impossible, -⟩
              · refine { kept with wrote := fun _ key body same => ?_ }
                have once := targeted.symm.trans same
                cases once
                rw [contentAt_of_upserted (Entries.upserted ran).2, if_pos rfl]
                rfl
              · cases impossible
      | _ => exact kept
  | _ => exact kept

/-- The uploads of one store, each with what it knows. -/
def discipline
    (env : Env) (config : Config) (start : World) (puts : Contents) :
    Pool.Discipline (protocol env puts) (exec env config).answers
      (fun _ _ _ _ => True) where
  shared := Merging env start puts
  own := Own env start puts
  pair first second := Apart first.1 second.1
  step _ _ _ _ _ merging own permitted answered :=
    ⟨merging.step own permitted (.exact answered),
      ⟨own_step own.custody (fun swept => absurd swept id)
        (fun scanned => absurd scanned id) (fun scanned => absurd scanned id)
        permitted.1 (.exact answered),
        own.trail.step merging permitted answered⟩⟩
  frame _ _ _ _ _ _ _ own foreign apart permitted _ answered :=
    ⟨foreign.custody.stable
      (undisturbed own.custody foreign.custody apart permitted.1
        (sparesSweeps_of_none id id own.custody foreign.custody permitted.1)
        (sparesScans_of_none id own.custody foreign.custody)
        (.exact answered)),
      own.trail.frame foreign.trail permitted.2 (.exact answered)⟩
  apart _ _ _ _ _ _ _ own foreign apart permitted _ answered :=
    apart_step foreign.custody apart permitted.1
      (sparesScans_of_none id own.custody foreign.custody) (.exact answered)
  symm _ _ := Apart.symm

/-! ## Temporary files -/

/-- The upload that writes a temporary file still knows of it, or has renamed or
removed it. -/
theorem tmp_own
    {name : String}
    (permitted : (protocol env puts).permits record request)
    (answered : exec env config request before = some (reply, after))
    (writing : record.2.tmp = some name)
    (present : after.fs.has (tmpPath name) = true) :
    (record.2.advance request reply).tmp = some name := by
  cases request with
  | newUuid =>
      have idle : record.2.tmp = none := permitted.2
      rw [idle] at writing
      cases writing
  | db call => cases call <;> cases reply <;> exact writing
  | fs call =>
      have effect : reply = (call.exec env before.fs).1 ∧
          after.fs = (call.exec env before.fs).2 := by
        cases answered
        exact ⟨rfl, rfl⟩
      cases call with
      | fileExists path =>
          simp only [Trail.advance]
          split <;> exact writing
      | removeFile path =>
          obtain ⟨own, same, rfl⟩ := permitted.2
          have once := writing.symm.trans same
          cases once
          rw [effect.2, FsCall.exec] at present
          split at present
          · simp [Fs.has] at present
          · contradiction
      | rename source target =>
          obtain ⟨⟨own, same, rfl⟩, -⟩ := permitted.2
          obtain ⟨_, content, -, -, rfl⟩ := permitted.1
          have once := writing.symm.trans same
          cases once
          rw [effect.2, FsCall.exec] at present
          rw [effect.1, FsCall.exec]
          split at present
          · simp [Fs.has, Fs.read_write_of_ne] at present
          · exact writing
      | _ => exact writing
  | _ => exact writing

/-- A temporary file is there because its upload knows of it or because it was
there before and is not that of this upload. -/
theorem tmp_after
    {number : Nat}
    (tracked : Tracked env start puts record.2 before)
    (permitted : (protocol env puts).permits record request)
    (answered : exec env config request before = some (reply, after))
    (drawn : number < after.uuids)
    (present : after.fs.has (tmpPath (env.uuid number)) = true) :
    (record.2.advance request reply).tmp = some (env.uuid number) ∨
      number < before.uuids ∧
        before.fs.has (tmpPath (env.uuid number)) = true ∧
          record.2.tmp ≠ some (env.uuid number) := by
  by_cases mine : record.2.tmp = some (env.uuid number)
  · exact .inl (tmp_own permitted answered mine present)
  cases request with
  | newUuid =>
      cases answered
      rcases Nat.lt_succ_iff_lt_or_eq.mp drawn with old | rfl
      · exact .inr ⟨old, present, mine⟩
      · exact .inl rfl
  | fs call =>
      have frame := Faulty.fs_frame (.exact answered)
      have sameUuids : after.uuids = before.uuids := by rw [frame.1]
      refine .inr ⟨sameUuids ▸ drawn, ?_, mine⟩
      rw [Fs.has, ← frame.2]
      · exact present
      intro touches
      rcases touches_cases tracked permitted.1 permitted.2 touches with
        ⟨name, writing, same⟩ | ⟨_, _, -, impossible, -⟩
      · rw [tmpPath_eq_iff] at same
        exact mine (same ▸ writing)
      · exact tmpPath_ne_blobPath _ _ impossible
  | _ =>
      have sameFs := Faulty.files (by simp) (.exact answered)
      refine .inr ⟨?_, sameFs ▸ present, mine⟩
      simp only [exec] at answered
      first
      | cases answered
      | split at answered <;> cases answered
      all_goals exact drawn

end Steps

/-! ## Runs -/

/-- Time that passes next to the uploads. -/
def clock : List Nat → App (Option Response)
  | [] => pure none
  | nanos :: rest => do
      Program.perform (Call.tick nanos)
      clock rest

/-- The tasks: a clock and the requests. -/
def tasks
    (env : Env) (config : Config) (requests : ι → PutRequest)
    (nanos : List Nat) : Option ι → App (Option Response)
  | none => clock nanos
  | some thread => (requests thread).program env config

/-- The start of a run. -/
def launch
    (env : Env) (config : Config) (start : World) (requests : ι → PutRequest)
    (nanos : List Nat) :
    Pool (Option ι) Call Call.Reply CoreError (Option Response) World Unit :=
  .launch () (tasks env config requests nanos) start

/-- A world in which uploads end that put these bodies under these keys, each
at least once, when all of them have succeeded. -/
inductive Completes
    (env : Env) (config : Config) (start : World) (puts : Contents) :
    World → Prop
  | intro
      {ι : Type} [DecidableEq ι] (requests : ι → PutRequest)
      (nanos : List Nat)
      (pool : Pool (Option ι) Call Call.Reply CoreError (Option Response)
        World Unit)
      (serves : ∀ key content, puts key = some content ↔
        ∃ thread, (requests thread).key = key ∧
          (requests thread).body.bytes = content)
      (reached : Pool.Reaches (Program.within fun _ => True)
        (exec env config).answers (fun _ _ _ => True)
        (launch env config start requests nanos) pool)
      (stopped : pool.threads none = .done none)
      (succeeded : ∀ thread, ∃ response,
        pool.threads (some thread) = .done (some response) ∧
          response.status = 201) :
      Completes env config start puts pool.world

/-- What each task writes. -/
def target (requests : ι → PutRequest) : Option ι → Option (Key × Bytes)
  | none => none
  | some thread =>
      some ((requests thread).key, (requests thread).body.bytes)

/-- What is known of a task that has ended. -/
def Ended
    (env : Env) (requests : ι → PutRequest) :
    Option ι → Option Response → Record → Prop
  | none, _, last => last.2.tmp = none
  | some thread, answer, last => ∀ response, answer = some response →
      response.status = 201 →
        last.1.committed = some (env.sha256 (requests thread).body.bytes) ∧
          last.2.Finished
            ((requests thread).key, (requests thread).body.bytes)

section Runs

variable {env : Env} {config : Config} {start : World} {puts : Contents}
variable {ι : Type} {requests : ι → PutRequest} {nanos : List Nat}

theorem clock_follows
    {post : Option Response → Record → Prop} {record : Record}
    (nanos : List Nat) (known : post none record) :
    (clock nanos).Follows (protocol env puts) post (fun _ _ => True)
      record := by
  induction nanos with
  | nil => exact known
  | cons first rest inductionHypothesis =>
      exact Program.follows_perform_then ⟨trivial, trivial⟩
        fun _ => inductionHypothesis

theorem task_follows
    (serves : ∀ thread,
      puts (requests thread).key = some (requests thread).body.bytes)
    (thread : Option ι) :
    (tasks env config requests nanos thread).Follows (protocol env puts)
      (Ended env requests thread) (fun _ _ => True)
      (.idle, .start (target requests thread)) := by
  cases thread with
  | none => exact clock_follows nanos rfl
  | some thread =>
      have owns := (requests thread).program_follows (setting env puts) config
        .idle ⟨_, serves thread⟩
      have leaves := (requests thread).program_trails env config
      refine (owns.both leaves).mono ?_ fun _ _ _ => trivial
      intro answer last known response answered accepted
      exact ⟨known.1 response answered accepted,
        known.2 response answered accepted⟩

/-- Each temporary file of the uploads is known to one of them. -/
def Accounted
    (env : Env) (start : World)
    (pool : Pool (Option ι) Call Call.Reply CoreError (Option Response) World
      Record) : Prop :=
  ∀ number, start.uuids ≤ number → number < pool.world.uuids →
    pool.world.fs.has (tmpPath (env.uuid number)) = true →
      ∃ thread, (pool.records thread).2.tmp = some (env.uuid number)

/-- The uploads as they know themselves. -/
theorem disciplined_launch
    (exact : start.db.Exact)
    (serves : ∀ thread,
      puts (requests thread).key = some (requests thread).body.bytes) :
    (⟨start, tasks env config requests nanos,
        fun thread => (.idle, .start (target requests thread))⟩ :
      Pool (Option ι) Call Call.Reply CoreError (Option Response) World
        Record).Disciplined (discipline env config start puts)
          (Ended env requests) where
  shared :=
    { exact := exact
      others := fun _ _ => rfl
      pinned := fun _ => rfl
      sizes := fun _ => .inl rfl
      files := fun _ => .inl rfl
      elsewhere := fun _ _ _ => rfl
      uuids := Nat.le_refl _
      frame := .refl _ _ }
  own thread _ :=
    { custody := owned_idle _ _
      trail :=
        { known := by
            intro key content targeted
            cases thread with
            | none => cases targeted
            | some thread =>
                cases targeted
                exact serves thread
          drawn := by rintro _ ⟨⟩
          missing := by rintro _ ⟨⟩
          wrote := by rintro ⟨⟩ } }
  pair _ _ _ _ _ := apart_idle _
  follows := task_follows serves

variable [DecidableEq ι]

theorem Accounted.resume
    {pool : Pool (Option ι) Call Call.Reply CoreError (Option Response) World
      Record}
    {thread : Option ι} {request : Call}
    {next : Except CoreError request.Reply → App (Option Response)}
    {reply : Except CoreError request.Reply} {after : World}
    (accounted : Accounted env start pool)
    (tracked : Tracked env start puts (pool.records thread).2 pool.world)
    (permitted : (protocol env puts).permits (pool.records thread) request)
    (answered : exec env config request pool.world = some (reply, after)) :
    Accounted env start
      (pool.resume (protocol env puts) thread request next reply after) := by
  intro number first last present
  rcases tmp_after tracked permitted answered last present with
    mine | ⟨earlier, there, foreign⟩
  · refine ⟨thread, ?_⟩
    simp only [Pool.resume, Function.update_self]
    exact mine
  · obtain ⟨other, writing⟩ := accounted number first earlier there
    have different : other ≠ thread := by
      rintro rfl
      exact foreign writing
    refine ⟨other, ?_⟩
    simp only [Pool.resume, Function.update_of_ne different]
    exact writing

/-- What is known of the world and of the records throughout a run. -/
theorem observed
    {pool : Pool (Option ι) Call Call.Reply CoreError (Option Response) World
      Unit}
    (exact : start.db.Exact)
    (serves : ∀ thread,
      puts (requests thread).key = some (requests thread).body.bytes)
    (reached : Pool.Reaches (Program.within fun _ => True)
      (exec env config).answers (fun _ _ _ => True)
      (launch env config start requests nanos) pool) :
    ∃ records : Option ι → Record,
      (⟨pool.world, pool.threads, records⟩ :
        Pool (Option ι) Call Call.Reply CoreError (Option Response) World
          Record).Disciplined (discipline env config start puts)
            (Ended env requests) ∧
        Accounted env start
          (⟨pool.world, pool.threads, records⟩ :
            Pool (Option ι) Call Call.Reply CoreError (Option Response) World
              Record) := by
  obtain ⟨records, known⟩ := reached.observed (protocol env puts)
    fun thread => (.idle, .start (target requests thread))
  refine ⟨records, ?_⟩
  have launched := @disciplined_launch env config start puts ι requests
    nanos exact serves
  have exclusive : Pool.Reaches (protocol env puts) (exec env config).answers
      (fun pool thread request =>
        pool.Exclusive (fun _ _ _ _ => True) thread request)
      _ ⟨pool.world, pool.threads, records⟩ :=
    known.mono fun _ _ _ _ _ _ _ => trivial
  refine ⟨launched.reaches exclusive, ?_⟩
  generalize (⟨pool.world, pool.threads, records⟩ :
    Pool (Option ι) Call Call.Reply CoreError (Option Response) World
      Record) = final at exclusive
  induction exclusive with
  | refl =>
      intro number first last
      exact absurd last (Nat.not_lt.mpr first)
  | tail before _ step inductionHypothesis =>
      have disciplined := launched.reaches before
      obtain ⟨waiting, answered⟩ := step
      have live := Pool.Issues.live ⟨_, waiting⟩
      exact inductionHypothesis.resume (disciplined.own _ live).trail
        (disciplined.permits ⟨_, waiting⟩) answered

end Runs

/-! ## The final state -/

section Final

variable {env : Env} {start final : World} {puts : Contents}

/-- What the uploads have left when all of them have succeeded. -/
structure Settled
    (env : Env) (start : World) (puts : Contents) (final : World) : Prop
    extends Merging env start puts final where
  written : ∀ key content, puts key = some content →
    contentAt final.db key = some (recorded env content)
  stored : ∀ hash content, Brings env puts hash content →
    final.db.HasBlob hash ∧ HasFile final hash
  discarded : ∀ number, start.uuids ≤ number → number < final.uuids →
    final.fs.has (tmpPath (env.uuid number)) = false

/-- Under every key that was not put, the content is the same. -/
theorem Settled.contentAt_of_unput
    (settled : Settled env start puts final) {key : Key}
    (unput : puts key = none) :
    contentAt final.db key = contentAt start.db key := by
  rw [contentAt, settled.others key unput, contentAt]

/-- With exact counts each count is the number of keys. -/
theorem refcount_eq_card
    {db : Db} (exact : db.Exact) (hash : String) :
    db.refcount hash = (db.keysTo hash).card := by
  have balanced := exact hash
  rw [Db.surplus] at balanced
  rw [Db.card_keysTo]
  omega

/-- A blob has lost the references of the keys that were put, and got those of
the bodies. -/
theorem Settled.replaced
    (settled : Settled env start puts final) (exact : start.db.Exact)
    (hash : String) :
    final.db.refcount hash +
        ((start.db.keysTo hash).filter fun key => (puts key).isSome).card =
      start.db.refcount hash +
        ((final.db.keysTo hash).filter fun key => (puts key).isSome).card := by
  have sameRest : (final.db.keysTo hash).filter (fun key =>
        ¬(puts key).isSome = true) =
      (start.db.keysTo hash).filter fun key => ¬(puts key).isSome = true := by
    ext key
    simp only [Finset.mem_filter, Db.mem_keysTo]
    refine and_congr_left fun unput => ?_
    rw [settled.contentAt_of_unput (by simpa using unput)]
  have split (db : Db) :
      ((db.keysTo hash).filter fun key => (puts key).isSome = true).card +
          ((db.keysTo hash).filter fun key =>
            ¬(puts key).isSome = true).card =
        (db.keysTo hash).card :=
    Finset.card_filter_add_card_filter_not _
  have splitStart := split start.db
  have splitFinal := split final.db
  rw [sameRest] at splitFinal
  rw [refcount_eq_card settled.exact, refcount_eq_card exact]
  omega

/-- Two bodies with one digest are the same. -/
theorem Brings.unique
    {hash : String} {first second : Bytes}
    (collisionFree : env.CollisionFree (bodies puts))
    (brings : Brings env puts hash first)
    (other : Brings env puts hash second) : first = second :=
  collisionFree first brings.2 second other.2 (brings.1.trans other.1.symm)

/-- A value that was there stays, and a new one is that of the body. -/
theorem getD_of_kept
    {old new : Option α} {value : α} (present : new.isSome = true)
    (kept : new = old ∨ old = none ∧ new = some value) :
    new = some (old.getD value) := by
  rcases kept with rfl | ⟨rfl, rfl⟩
  · obtain ⟨found, rfl⟩ := Option.isSome_iff_exists.mp present
    rfl
  · rfl

theorem Settled.rows
    (settled : Settled env start puts final)
    (collisionFree : env.CollisionFree (bodies puts))
    {hash : String} {content : Bytes}
    (brings : Brings env puts hash content) :
    (∃! blob, blob ∈ final.db.blobs.rows ∧ blob.hash = hash) ∧
      final.db.storedSize hash =
        some ((start.db.storedSize hash).getD content.length) := by
  obtain ⟨blob, present, named⟩ := (settled.stored hash content brings).1
  refine ⟨⟨blob, ⟨present, named⟩, fun other row => ?_⟩, ?_⟩
  · exact final.db.blobs.eq_of_clash row.1 present (row.2.trans named.symm)
  apply getD_of_kept
  · obtain ⟨size, sized⟩ := Db.hasBlob_iff_storedSize.mp
      ⟨blob, present, named⟩
    rw [sized]
    rfl
  · refine (settled.sizes hash).imp_right fun ⟨new, body, other, sized⟩ => ?_
    rw [brings.unique collisionFree other]
    exact ⟨new, sized⟩

theorem Settled.blobFiles
    (settled : Settled env start puts final)
    (collisionFree : env.CollisionFree (bodies puts))
    {hash : String} {content : Bytes}
    (brings : Brings env puts hash content) :
    (∃! file, file ∈ final.fs.rows ∧ file.path = blobPath hash) ∧
      final.fs.read (blobPath hash) =
        some ((start.fs.read (blobPath hash)).getD content) := by
  have there := (settled.stored hash content brings).2
  obtain ⟨found, read⟩ := hasFile_iff.mp there
  have present := Fs.read_eq_some_iff.mp read
  refine ⟨⟨_, ⟨present, rfl⟩, fun other row => ?_⟩, ?_⟩
  · exact final.fs.eq_of_clash row.1 present row.2
  apply getD_of_kept there
  refine (settled.files hash).imp_right fun ⟨new, body, other, placed⟩ => ?_
  rw [brings.unique collisionFree other]
  exact ⟨new, placed⟩

theorem Settled.converged
    (settled : Settled env start puts final) (exact : start.db.Exact)
    (collisionFree : env.CollisionFree (bodies puts)) :
    Converged env start puts final where
  written := settled.written
  pinned := settled.pinned
  others := settled.others
  counted := refcount_eq_card settled.exact
  replaced := settled.replaced exact
  rows _ _ := settled.rows collisionFree
  files _ _ := settled.blobFiles collisionFree
  kept hash foreign :=
    ⟨(settled.sizes hash).resolve_right fun ⟨_, content, brings, _⟩ =>
        foreign content brings,
      (settled.files hash).resolve_right fun ⟨_, content, brings, _⟩ =>
        foreign content brings⟩
  discarded := settled.discarded
  elsewhere := settled.elsewhere
  frame := settled.frame

/-- The description leaves no choice. -/
theorem Converged.determines
    {other : World}
    (converged : Converged env start puts final)
    (alsoConverged : Converged env start puts other) :
    other.holdings = final.holdings := by
  have contents (key : Key) :
      contentAt other.db key = contentAt final.db key := by
    cases put : puts key with
    | some content =>
        rw [converged.written key content put,
          alsoConverged.written key content put]
    | none =>
        rw [contentAt, contentAt, converged.others key put,
          alsoConverged.others key put]
  have counts (hash : String) :
      other.db.refcount hash = final.db.refcount hash := by
    rw [converged.counted, alsoConverged.counted]
    congr 2
    ext key
    rw [Db.mem_keysTo, Db.mem_keysTo, contents]
  have stores (hash : String) :
      other.db.storedSize hash = final.db.storedSize hash ∧
        other.fs.read (blobPath hash) = final.fs.read (blobPath hash) := by
    by_cases brought : ∃ content, Brings env puts hash content
    · obtain ⟨content, brings⟩ := brought
      rw [(converged.rows hash content brings).2,
        (alsoConverged.rows hash content brings).2,
        (converged.files hash content brings).2,
        (alsoConverged.files hash content brings).2]
      exact ⟨rfl, rfl⟩
    · have foreign := not_exists.mp brought
      rw [(converged.kept hash foreign).1, (converged.kept hash foreign).2,
        (alsoConverged.kept hash foreign).1,
        (alsoConverged.kept hash foreign).2]
      exact ⟨rfl, rfl⟩
  simp only [World.holdings, Holdings.mk.injEq]
  refine ⟨funext contents, ?_, ?_, ?_⟩
  · funext key
    rw [converged.pinned, alsoConverged.pinned]
  · funext hash
    rw [(stores hash).1, counts]
  · funext hash
    exact (stores hash).2

end Final

/-- Uploads that have all succeeded have settled. -/
theorem Completes.settled
    {env : Env} {config : Config} {start final : World} {puts : Contents}
    (exact : start.db.Exact)
    (completes : Completes env config start puts final) :
    Settled env start puts final := by
  obtain ⟨requests, nanos, pool, serves, reached, stopped, succeeded⟩ :=
    completes
  have each (thread) :
      puts (requests thread).key = some (requests thread).body.bytes :=
    (serves _ _).mpr ⟨thread, rfl, rfl⟩
  obtain ⟨records, disciplined, accounted⟩ := observed exact each reached
  have merging : Merging env start puts pool.world := disciplined.shared
  have own (thread) : Own env start puts (records (some thread)) pool.world := by
    obtain ⟨response, ended, -⟩ := succeeded thread
    apply disciplined.own (some thread)
    simp [Pool.Live, ended]
  have knows (thread) :
      (records (some thread)).1.committed =
          some (env.sha256 (requests thread).body.bytes) ∧
        (records (some thread)).2.Finished
          ((requests thread).key, (requests thread).body.bytes) := by
    obtain ⟨response, ended, accepted⟩ := succeeded thread
    have known : Ended env requests (some thread) (some response)
        (records (some thread)) := disciplined.ended ended
    exact known response rfl accepted
  refine { merging with written := ?_, stored := ?_, discarded := ?_ }
  · intro key content put
    obtain ⟨thread, rfl, rfl⟩ := (serves key content).mp put
    obtain ⟨targeted, -, wrote⟩ := (knows thread).2
    exact (own thread).trail.wrote wrote _ _ targeted
  · rintro hash content ⟨rfl, key, put⟩
    obtain ⟨thread, rfl, rfl⟩ := (serves key content).mp put
    exact (own thread).custody.committed id trivial _ (knows thread).1
  · intro number first last
    rw [Bool.eq_false_iff]
    intro present
    obtain ⟨thread, writing⟩ := accounted number first last present
    have finished : (records thread).2.tmp = none := by
      cases thread with
      | none => exact disciplined.ended stopped
      | some thread => exact (knows thread).2.2.1
    simp only [finished] at writing
    cases writing

/-- Uploads that all succeed converge: whatever their order and however often
each of them is made, the store ends in the same state. -/
theorem puts_converge
    (env : Env) (config : Config) (start final : World) (puts : Contents)
    (exact : start.db.Exact)
    (collisionFree : env.CollisionFree (bodies puts))
    (completes : Completes env config start puts final) :
    Converged env start puts final ∧
      ∀ other, Completes env config start puts other →
        other.holdings = final.holdings := by
  have converged := (completes.settled exact).converged exact collisionFree
  refine ⟨converged, fun other alsoCompletes => ?_⟩
  exact converged.determines
    ((alsoCompletes.settled exact).converged exact collisionFree)

/-! ## A retry -/

/-- One byte is put under two keys. -/
def twoKeys : Contents := fun key =>
  if key ∈ [⟨1, .sstate, "first"⟩, ⟨1, .sstate, "second"⟩] then some [97]
  else none

/-- The first of the uploads is made twice. -/
def retried : Fin 3 → PutRequest
  | 0 => ⟨acme, .sstate, "acme", "first", [.ok [97]]⟩
  | 1 => ⟨acme, .sstate, "acme", "second", [.ok [97]]⟩
  | 2 => ⟨acme, .sstate, "acme", "first", [.ok [97]]⟩

theorem retried_serves (key : Key) (content : Bytes) :
    twoKeys key = some content ↔
      ∃ thread, (retried thread).key = key ∧
        (retried thread).body.bytes = content := by
  simp only [twoKeys, List.mem_cons, List.not_mem_nil, or_false,
    Option.ite_none_right_eq_some, Option.some.injEq]
  constructor
  · rintro ⟨rfl | rfl, rfl⟩
    · exact ⟨0, rfl, rfl⟩
    · exact ⟨1, rfl, rfl⟩
  · rintro ⟨thread, rfl, rfl⟩
    match thread with
    | 0 => exact ⟨.inl rfl, rfl⟩
    | 1 => exact ⟨.inr rfl, rfl⟩
    | 2 => exact ⟨.inl rfl, rfl⟩

/-- The clock has run to its end. -/
def stopped : App (Option Response) → Bool
  | .done none => true
  | _ => false

theorem stopped_spec
    {program : App (Option Response)} (known : stopped program = true) :
    program = .done none := by
  unfold stopped at known
  split at known
  · rfl
  · cases known

theorem puts_converge_retried :
    ∃ final, Completes Sample.env (Sample.config 1024) oneProject twoKeys
        final ∧
      Converged Sample.env oneProject twoKeys final := by
  have ran : ((Pool.replay (Program.within fun _ => True)
      (exec Sample.env (Sample.config 1024)) (fun _ _ _ => true)
      (none :: (List.replicate 11 [some 0, some 1, some 2]).flatten)
      (launch Sample.env (Sample.config 1024) oneProject retried [5])).any
        fun pool =>
          stopped (pool.threads none) &&
          created (pool.threads (some 0)) &&
          created (pool.threads (some 1)) &&
          created (pool.threads (some 2))) = true := by
    decide +kernel
  rw [Option.any_eq_true] at ran
  obtain ⟨pool, replayed, outcome⟩ := ran
  simp only [Bool.and_eq_true] at outcome
  obtain ⟨⟨⟨clock, first⟩, second⟩, third⟩ := outcome
  have completes : Completes Sample.env (Sample.config 1024) oneProject
      twoKeys pool.world := by
    refine .intro retried [5] pool retried_serves
      (Pool.reaches_of_free_replay (fun _ _ _ _ => id) replayed) ?_ ?_
    · exact stopped_spec clock
    · intro thread
      fin_cases thread
      · exact created_spec first
      · exact created_spec second
      · exact created_spec third
  have collisionFree : Sample.env.CollisionFree (bodies twoKeys) := by
    rintro first ⟨key, put⟩ second ⟨other, alsoPut⟩ -
    simp only [twoKeys, Option.ite_none_right_eq_some,
      Option.some.injEq] at put alsoPut
    rw [← put.2, ← alsoPut.2]
  have exact : oneProject.db.Exact :=
    (oneProject_intact (setting Sample.env twoKeys) rfl).exact id
  exact ⟨pool.world, completes,
    (puts_converge Sample.env (Sample.config 1024) oneProject pool.world
      twoKeys exact collisionFree completes).1⟩

end ConvergingPuts

end Marmotte
