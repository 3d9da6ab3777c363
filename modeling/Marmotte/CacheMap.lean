import Marmotte.Recovery
import Marmotte.Sequential.Download
import Marmotte.Sequential.Upload

/-!
# The cache as a finite map

Histories of operations that run one after the other to their ends.  A map from
keys to contents that only follows the acknowledged uploads and the removals of
entries predicts the answer to every download.
-/

namespace Marmotte

open Effects Tables

namespace CacheMap

open Custody Operation GcSvc Db

/-! ## Operations in sequence -/

/-- Run an operation to its end; a cleanup never needs more rounds than there
are blob rows. -/
def perform
    (env : Env) (config : Config) (operation : Operation) (world : World) :
    Outcome CoreError (Option Response) × World :=
  (operation.program env config (world.db.blobs.rows.length + 1)).run
    (exec env config) world

/-- What the cache is meant to hold under each key. -/
abbrev Contents := Key → Option Bytes

/-- The operation was answered 201. -/
def answered201 : Outcome CoreError (Option Response) → Bool
  | .done (some response) => response.status = 201
  | _ => false

/-- The effect of an operation on the map: an upload that was answered 201 sets
its key, a removal unsets the key of the entry or the keys of the project, and
a sweep unsets the keys of the entries that it evicted. -/
def effect
    (operation : Operation) (outcome : Outcome CoreError (Option Response))
    (before after : World) (contents : Contents) : Contents :=
  match operation with
  | .put request =>
      if answered201 outcome then
        Function.update contents request.key (some request.body.bytes)
      else contents
  | .deleteEntry _ id eid => fun key =>
      if (before.db.entryAt key).any fun entry =>
        entry.projectId = id ∧ entry.id = eid then none
      else contents key
  | .deleteProject _ id => fun key =>
      if key.projectId = id then none else contents key
  | .gcRun => fun key =>
      if (before.db.entryAt key).any fun entry =>
        !after.db.entries.rows.contains entry then none
      else contents key
  | _ => contents

/-- Follow an operation in the world and on the map. -/
def advance
    (env : Env) (config : Config)
    (state : World × Contents) (operation : Operation) : World × Contents :=
  let (outcome, after) := perform env config operation state.1
  (after, effect operation outcome state.1 after state.2)

/-- The world and the map after a history on a fresh server. -/
def play
    (env : Env) (config : Config) (now : Int) (operations : List Operation) :
    World × Contents :=
  operations.foldl (advance env config) (World.initial now, fun _ => none)

/-! ## What is stored under a key -/

/-- The digest and the size of the entry of a key. -/
def contentAt (db : Db) (key : Key) : Option (String × Int) :=
  (db.entryAt key).map fun entry => (entry.blobHash, entry.sizeBytes)

theorem entryAt_filter
    {before after : Db} {keeps : Entry → Bool}
    (rows : after.entries.rows = before.entries.rows.filter keeps)
    (key : Key) :
    after.entryAt key = (before.entryAt key).filter keeps := by
  apply Option.ext
  intro entry
  rw [entryAt_eq_some, Option.filter_eq_some_iff, entryAt_eq_some, rows,
    List.mem_filter]
  tauto

theorem contentAt_of_sameStore
    {before after : Db} (same : SameStore before after) (key : Key) :
    contentAt after key = contentAt before key := by
  rw [contentAt, contentAt, same.entryAt]

theorem contentAt_of_adjusted
    {before after : Db} {assign : Entry → Entry}
    (adjusted : Entries.Adjusted before after assign) (key : Key) :
    contentAt after key = contentAt before key := by
  rw [contentAt, contentAt, adjusted.entryAt, Option.map_map]
  congr 1
  funext entry
  simp only [Function.comp_apply, adjusted.keepsHash, adjusted.keepsSize]

theorem contentAt_of_upserted
    {now size : Int} {before after : Db} {key : Key} {hash : String}
    (upserted : Entries.Upserted now before after key hash size)
    (other : Key) :
    contentAt after other =
      if other = key then some (hash, size) else contentAt before other := by
  by_cases same : other = key
  · subst same
    rw [contentAt, upserted.entryAt_self, if_pos rfl]
    simp
  · rw [if_neg same, contentAt, contentAt, upserted.entryAt_of_ne same]

/-! ## Operations that change no content -/

/-- The transactions that change nothing that is stored under a key. -/
def QuietDb (call : DbCall) : Prop :=
  call.Inert ∨ (∃ id, call = .entriesTouch id) ∨
    ∃ projectId id pinned, call = .entriesSetPinned projectId id pinned

/-- The calls that change neither what is stored under a key nor the sweep
mutex. -/
def quietCalls : Protocol Call Call.Reply CoreError Unit where
  permits _ request :=
    match request with
    | .db call => QuietDb call
    | .now => True
    | .tick _ => True
    | _ => False
  advance _ _ _ := ()

/-- What quiet calls keep. -/
structure Quiet (before after : World) : Prop where
  contents : ∀ key, contentAt after.db key = contentAt before.db key
  lock : after.gcRunning = before.gcRunning

theorem quiet_step
    {env : Env} {config : Config} {request : Call} {before after : World}
    {reply : Except CoreError request.Reply}
    (permitted : quietCalls.permits () request)
    (answered : exec env config request before = some (reply, after)) :
    Quiet before after := by
  cases request with
  | db call =>
      have same : (∀ key, contentAt after.db key = contentAt before.db key) ∧
          after.gcRunning = before.gcRunning := by
        simp only [exec] at answered
        split at answered
        · rename_i value db ran
          cases answered
          refine ⟨fun key => ?_, rfl⟩
          rcases permitted with
            inert | ⟨id, rfl⟩ | ⟨projectId, id, pinned, rfl⟩
          · exact contentAt_of_sameStore (DbCall.exec_inert inert ran) key
          · cases ran
            exact contentAt_of_adjusted
              (Entries.touch_adjusts before.now before.db id) key
          · exact contentAt_of_adjusted (Entries.setPinned_adjusts ran) key
        · cases answered
          exact ⟨fun _ => rfl, rfl⟩
      exact ⟨same.1, same.2⟩
  | now | tick nanos =>
      cases answered
      exact ⟨fun _ => rfl, rfl⟩
  | _ => exact permitted.elim

theorem quiet_run
    {env : Env} {config : Config} {program : App α} {before : World}
    (follows : program.Follows quietCalls (fun _ _ => True)
      (fun _ _ => True) ()) :
    Quiet before (program.run (exec env config) before).2 := by
  have kept : ∀ (record : Unit) request world reply next,
      Quiet before world → quietCalls.permits record request →
        exec env config request world = some (reply, next) →
          Quiet before next := by
    intro record request world reply next quiet permitted answered
    have step := quiet_step permitted answered
    exact ⟨fun key => (step.contents key).trans (quiet.contents key),
      step.lock.trans quiet.lock⟩
  obtain ⟨_, quiet, -⟩ := Program.Follows.run_keeps kept follows
    ⟨fun _ => rfl, rfl⟩ rfl
  exact quiet

theorem audit_quiet
    (auth : AdminAuth) (action : String) (target : Option Int)
    (detail : Option AuditDetail) :
    (Admin.audit auth action target detail).Follows quietCalls
      (fun _ _ => True) (fun _ _ => True) () :=
  Program.follows_perform_then trivial fun _ =>
    Program.follows_perform (.inl trivial) (fun _ => trivial)
      fun _ => trivial

/-- The operations that are made of such calls. -/
def QuietOperation : Operation → Prop
  | .put _ | .deleteProject _ _ | .deleteEntry _ _ _ => False
  | .gcRun | .orphanScan => False
  | _ => True

theorem quiet_operation
    {operation : Operation} (quiet : QuietOperation operation)
    (env : Env) (config : Config) (budget : Nat) :
    (operation.program env config budget).Follows quietCalls
      (fun _ _ => True) (fun _ _ => True) () := by
  cases operation with
  | touch id =>
      exact Program.follows_perform_then (.inr (.inl ⟨id, rfl⟩))
        fun _ => trivial
  | createProject auth name quotaBytes ttlSeconds =>
      have created : (Admin.createProject auth name quotaBytes
          ttlSeconds).Follows quietCalls (fun _ _ => True)
            (fun _ _ => True) () :=
        Program.follows_perform_then (.inl trivial) fun _ =>
          (audit_quiet _ _ _ _).bind fun _ _ _ => trivial
      exact created.bind fun _ _ _ => trivial
  | updateProject auth id newName quotaBytes ttlSeconds =>
      have updated : (Admin.updateProject auth id newName quotaBytes
          ttlSeconds).Follows quietCalls (fun _ _ => True)
            (fun _ _ => True) () :=
        Program.follows_perform_then (.inl trivial) fun _ =>
          Program.follows_perform_then (.inl trivial) fun _ =>
            (audit_quiet _ _ _ _).bind fun _ _ _ => trivial
      exact updated.bind fun _ _ _ => trivial
  | pin auth id eid =>
      have pinned : (Admin.pin auth id eid).Follows quietCalls
          (fun _ _ => True) (fun _ _ => True) () :=
        Program.follows_perform_then (.inr (.inr ⟨id, eid, true, rfl⟩))
          fun _ => audit_quiet _ _ _ _
      exact pinned.bind fun _ _ _ => trivial
  | unpin auth id eid =>
      have unpinned : (Admin.unpin auth id eid).Follows quietCalls
          (fun _ _ => True) (fun _ _ => True) () :=
        Program.follows_perform_then (.inr (.inr ⟨id, eid, false, rfl⟩))
          fun _ => audit_quiet _ _ _ _
      exact unpinned.bind fun _ _ _ => trivial
  | wait nanos =>
      exact Program.follows_perform_then trivial fun _ => trivial
  | put | deleteProject | deleteEntry | gcRun | orphanScan => cases quiet

/-! ## The other operations -/

section Effects

variable {env : Env} {config : Config} {world : World}

/-- A removal by an administrator: refused without effect, or committed. -/
theorem run_audited
    {call : DbCall} {auth : AdminAuth} {action : String}
    {target : Option Int} {detail : Option AuditDetail} {final : World}
    (ends : ((transact call >>= fun _ =>
      Admin.audit auth action target detail).run (exec env config)
        world).2 = final) :
    final.gcRunning = world.gcRunning ∧
      ((∃ error, call.exec env world.now world.db = .error error ∧
          final.db = world.db) ∨
        ∃ reply db, call.exec env world.now world.db = .ok (reply, db) ∧
          SameStore db final.db) := by
  subst ends
  cases ran : call.exec env world.now world.db with
  | error error =>
      rw [Program.run_bind, run_transact_error ran]
      exact ⟨rfl, .inl ⟨error, rfl, rfl⟩⟩
  | ok result =>
      obtain ⟨reply, db⟩ := result
      have audited : (Admin.audit auth action target detail).run
          (exec env config) { world with db := db } =
            (.done (), { world with
              db := db.insertAudit world.now auth.tokenLabel action
                (target.map toString) detail }) := by
        have clock : exec env config .now { world with db := db } =
            some (.ok world.now, { world with db := db }) := rfl
        unfold Admin.audit Stats.audit
        rw [Program.run_bind_done (Program.run_perform clock)]
        exact run_transact rfl
      rw [Program.run_bind_done (run_transact ran), audited]
      exact ⟨rfl, .inr ⟨reply, db, rfl, rfl, rfl⟩⟩

theorem put_ends (request : PutRequest) (world : World) :
    PutEnds env world (perform env config (.put request) world).2
      request.key request.body.bytes
      (answered201 (perform env config (.put request) world).1 = true) := by
  unfold perform Operation.program PutRequest.program
  rw [Program.run_bind]
  match puts : (Yocto.put env config request.auth request.kind
      request.project request.path request.body).run (exec env config)
        world with
  | (.done response, after) =>
      obtain ⟨uploaded, refused, lock⟩ := run_put puts
      refine ⟨fun created => uploaded ⟨response, rfl, ?_⟩,
        fun failed => refused ?_, lock⟩
      · simpa [answered201] using created
      · rintro ⟨_, ⟨⟩, created⟩
        exact failed (by simp [answered201, created])
  | (.failed error, after) =>
      obtain ⟨-, refused, lock⟩ := run_put puts
      exact putEnds_of_unchanged (by simp [answered201])
        (refused (by rintro ⟨_, ⟨⟩, _⟩)) lock
  | (.running, after) =>
      obtain ⟨-, refused, lock⟩ := run_put puts
      exact putEnds_of_unchanged (by simp [answered201])
        (refused (by rintro ⟨_, ⟨⟩, _⟩)) lock

end Effects

/-! ## The simulation -/

/-- The digest and the size under which a content is recorded. -/
def recorded (env : Env) (content : Bytes) : String × Int :=
  (env.sha256 content, content.length)

/-- The world holds exactly these contents. -/
structure Represents
    (setting : Setting) (contents : Contents) (world : World) : Prop where
  intact : Intact setting world
  unlocked : world.gcRunning = false
  known : ∀ key content, contents key = some content →
    content ∈ setting.bodies
  stored : ∀ key,
    contentAt world.db key = (contents key).map (recorded setting.env)

theorem represents_initial (setting : Setting) (now : Int) :
    Represents setting (fun _ => none) (World.initial now) where
  intact := intact_initial setting now
  unlocked := rfl
  known := by rintro key content ⟨⟩
  stored _ := rfl

section Simulation

variable {setting : Setting} {config : Config}
variable {contents : Contents} {world : World}

/-- The map does not learn contents that nobody uploaded. -/
theorem effect_known
    {operation : Operation} {outcome : Outcome CoreError (Option Response)}
    {after : World}
    (known : ∀ key content, contents key = some content →
      content ∈ setting.bodies)
    (allowed : operation.Within setting)
    (key : Key) (content : Bytes)
    (holds : effect operation outcome world after contents key =
      some content) : content ∈ setting.bodies := by
  cases operation with
  | put request =>
      simp only [effect] at holds
      split at holds
      · by_cases same : key = request.key
        · subst same
          rw [Function.update_self, Option.some.injEq] at holds
          exact holds ▸ allowed
        · rw [Function.update_of_ne same] at holds
          exact known key content holds
      · exact known key content holds
  | deleteEntry auth id eid =>
      simp only [effect] at holds
      split at holds
      · cases holds
      · exact known key content holds
  | deleteProject auth id =>
      simp only [effect] at holds
      split at holds
      · cases holds
      · exact known key content holds
  | gcRun =>
      simp only [effect] at holds
      split at holds
      · cases holds
      · exact known key content holds
  | _ => exact known key content holds

/-- Where entries were only removed, the contents of the others stay. -/
theorem contentAt_of_filter
    {before after : Db} {keeps : Entry → Bool}
    (rows : after.entries.rows = before.entries.rows.filter keeps)
    (key : Key) :
    contentAt after key =
      if (before.entryAt key).any fun entry => !keeps entry then none
      else contentAt before key := by
  rw [contentAt, contentAt, entryAt_filter rows]
  cases before.entryAt key with
  | none => rfl
  | some entry => cases kept : keeps entry <;> simp [kept]

theorem stored_put
    (represents : Represents setting contents world)
    (request : PutRequest) (key : Key) :
    contentAt (perform setting.env config (.put request) world).2.db key =
      (effect (.put request)
        (perform setting.env config (.put request) world).1 world
        (perform setting.env config (.put request) world).2 contents key).map
          (recorded setting.env) := by
  have ends := @put_ends setting.env config request world
  simp only [effect]
  split
  · rename_i created
    obtain ⟨middle, upserted, same⟩ := ends.uploaded created
    rw [contentAt_of_sameStore same, contentAt_of_upserted upserted]
    by_cases keyed : key = request.key
    · subst keyed
      rw [if_pos rfl, Function.update_self]
      rfl
    · rw [if_neg keyed, Function.update_of_ne keyed]
      exact represents.stored key
  · rename_i failed
    rw [ends.refused failed]
    exact represents.stored key

theorem stored_deleteEntry
    (represents : Represents setting contents world)
    (auth : AdminAuth) (id eid : Int) :
    let after :=
      (perform setting.env config (.deleteEntry auth id eid) world).2
    after.gcRunning = false ∧
      ∀ key, contentAt after.db key =
        (if (world.db.entryAt key).any fun entry =>
            entry.projectId = id ∧ entry.id = eid then none
          else contents key).map (recorded setting.env) := by
  intro after
  have ends : ((Admin.deleteEntry auth id eid).run
      (exec setting.env config) world).2 = after :=
    (Program.run_bind_done_world _ _ (fun _ => none) _).symm
  obtain ⟨lock, refused | committed⟩ := run_audited ends
  all_goals refine ⟨lock.trans represents.unlocked, fun key => ?_⟩
  · obtain ⟨error, refused, sameDb⟩ := refused
    have missing : ¬(world.db.entryAt key).any fun entry =>
        decide (entry.projectId = id ∧ entry.id = eid) := by
      intro selected
      cases found : world.db.entryAt key with
      | none =>
          rw [found] at selected
          cases selected
      | some entry =>
          rw [found] at selected
          obtain ⟨rfl, rfl⟩ := of_decide_eq_true selected
          obtain ⟨db, ran, -⟩ :=
            Entries.delete_ok (entryAt_eq_some.mp found).1
          rw [DbCall.exec, ran] at refused
          cases refused
    rw [if_neg missing, sameDb]
    exact represents.stored key
  · obtain ⟨reply, db, ran, store⟩ := committed
    obtain ⟨entry, rfl, rfl, deleted⟩ := Entries.deleted ran
    rw [contentAt_of_sameStore store, contentAt_of_filter deleted.rows,
      represents.stored]
    have selection : ((world.db.entryAt key).any fun other =>
          !!decide (other.id = entry.id)) =
        (world.db.entryAt key).any fun other =>
          decide (other.projectId = entry.projectId ∧
            other.id = entry.id) := by
      cases found : world.db.entryAt key with
      | none => rfl
      | some other =>
          have present := (entryAt_eq_some.mp found).1
          have only : other.id = entry.id →
              other.projectId = entry.projectId := fun equal => by
            rw [world.db.entries.eq_of_id present deleted.present equal]
          simp only [Option.any_some, Bool.not_not]
          exact decide_eq_decide.mpr ⟨fun equal => ⟨only equal, equal⟩,
            And.right⟩
    rw [selection]
    split <;> rfl

theorem stored_deleteProject
    (represents : Represents setting contents world)
    (auth : AdminAuth) (id : Int) :
    let after := (perform setting.env config (.deleteProject auth id) world).2
    after.gcRunning = false ∧
      ∀ key, contentAt after.db key =
        (if key.projectId = id then none
          else contents key).map (recorded setting.env) := by
  intro after
  have ends : ((Admin.deleteProject auth id).run
      (exec setting.env config) world).2 = after :=
    (Program.run_bind_done_world _ _ (fun _ => none) _).symm
  obtain ⟨lock, refused | committed⟩ := run_audited ends
  all_goals refine ⟨lock.trans represents.unlocked, fun key => ?_⟩
  · obtain ⟨error, refused, sameDb⟩ := refused
    rw [sameDb, represents.stored]
    split
    · rename_i owned
      -- a project that cannot be deleted has no entries
      have absent : world.db.entryAt key = none := by
        rw [Option.eq_none_iff_forall_ne_some]
        intro entry found
        obtain ⟨present, rfl⟩ := entryAt_eq_some.mp found
        obtain ⟨project, row, same⟩ :=
          world.db.entry_project entry present
        have accepted : ∃ reply, DbCall.exec setting.env world.now
            (.projectsDelete id) world.db = .ok reply :=
          Projects.delete_accepted ⟨project, row, same.trans owned⟩
        rw [refused] at accepted
        obtain ⟨_, ⟨⟩⟩ := accepted
      rw [← represents.stored, contentAt, absent]
      rfl
    · rfl
  · obtain ⟨reply, db, ran, store⟩ := committed
    have deleted := Projects.deleted ran
    rw [contentAt_of_sameStore store, contentAt_of_filter deleted.2.1,
      represents.stored]
    by_cases owned : key.projectId = id
    · rw [if_pos owned]
      cases found : world.db.entryAt key with
      | none =>
          rw [if_neg (by simp), ← represents.stored, contentAt, found]
          rfl
      | some entry =>
          obtain ⟨-, rfl⟩ := entryAt_eq_some.mp found
          have matched : entry.projectId = id := owned
          simp [matched]
    · rw [if_neg owned]
      cases found : world.db.entryAt key with
      | none => simp
      | some entry =>
          obtain ⟨-, rfl⟩ := entryAt_eq_some.mp found
          have unmatched : entry.projectId ≠ id := owned
          simp [unmatched]

theorem stored_gcRun
    (represents : Represents setting contents world) :
    let after := (perform setting.env config .gcRun world).2
    after.gcRunning = false ∧
      ∀ key, contentAt after.db key =
        (if (world.db.entryAt key).any fun entry =>
            !after.db.entries.rows.contains entry then none
          else contents key).map (recorded setting.env) := by
  intro after
  obtain ⟨rep, swept, ran, cleaned, -⟩ := @run_run setting.env config
    (world.db.blobs.rows.length + 1) world represents.unlocked
    represents.intact.covered (Nat.lt_succ_self _)
  have ends : after = swept := by
    refine (Program.run_bind_done_world _ _ (fun _ => none) _).trans ?_
    rw [ran]
  rw [ends]
  obtain ⟨victims, valid, left⟩ :=
    evictedDb_evictedFrom setting.env config.gc world.now world.db
  have evicted := evicting_spec valid
  rw [← left] at evicted
  have rows : swept.db.entries.rows = world.db.entries.rows.filter fun entry =>
      !victims.contains entry := by
    rw [cleaned.entries]
    exact evicted.rows
  refine ⟨?_, fun key => ?_⟩
  · rw [cleaned.rest]
    exact represents.unlocked
  · rw [contentAt_of_filter rows, represents.stored, rows]
    cases found : world.db.entryAt key with
    | none => simp
    | some entry =>
        have present := (entryAt_eq_some.mp found).1
        by_cases waiting : entry ∈ victims
        · simp [waiting]
        · simp [waiting, present]

theorem stored_orphanScan
    (represents : Represents setting contents world) :
    let after := (perform setting.env config .orphanScan world).2
    after.gcRunning = false ∧
      ∀ key, contentAt after.db key =
        (contents key).map (recorded setting.env) := by
  intro after
  obtain ⟨rep, scanned, ran, changes⟩ :=
    @run_orphanScan setting.env config world represents.unlocked
  have ends : after = scanned := by
    refine (Program.run_bind_done_world _ _ (fun _ => none) _).trans ?_
    rw [ran]
  rw [ends]
  have reconciled :=
    Recovery.reconciled_of_scanned represents.intact changes
  refine ⟨?_, fun key => ?_⟩
  · rw [changes.rest]
    exact represents.unlocked
  · rw [← represents.stored, contentAt, contentAt, entryAt, entryAt,
      Table.find?, Table.find?, reconciled.entries]

/-- One operation: the world goes on holding what the map says. -/
theorem represents_advance
    (represents : Represents setting contents world)
    {operation : Operation} (allowed : operation.Within setting) :
    Represents setting
      (advance setting.env config (world, contents) operation).2
      (advance setting.env config (world, contents) operation).1 := by
  have intact : Intact setting
      (perform setting.env config operation world).2 :=
    intact_run config
      (operation.program_follows setting config _ allowed)
      represents.intact
  have stays : QuietOperation operation →
      (perform setting.env config operation world).2.gcRunning = false ∧
        ∀ key, contentAt (perform setting.env config operation world).2.db
          key = (contents key).map (recorded setting.env) := by
    intro quiet
    have follows := quiet_operation quiet setting.env config
      (world.db.blobs.rows.length + 1)
    have unchanged := @quiet_run _ setting.env config _ world follows
    exact ⟨unchanged.lock.trans represents.unlocked, fun key =>
      (unchanged.contents key).trans (represents.stored key)⟩
  have follows :
      (perform setting.env config operation world).2.gcRunning = false ∧
        ∀ key, contentAt (perform setting.env config operation world).2.db
          key = (effect operation
            (perform setting.env config operation world).1 world
            (perform setting.env config operation world).2 contents key).map
              (recorded setting.env) := by
    cases operation with
    | put request =>
        have ends := @put_ends setting.env config request world
        exact ⟨ends.lock.trans represents.unlocked,
          stored_put represents request⟩
    | deleteEntry auth id eid => exact stored_deleteEntry represents auth id eid
    | deleteProject auth id => exact stored_deleteProject represents auth id
    | gcRun => exact stored_gcRun represents
    | orphanScan => exact stored_orphanScan represents
    | _ => exact stays trivial
  exact
    { intact := intact
      unlocked := follows.1
      known := effect_known represents.known allowed
      stored := follows.2 }

/-- Any history, from any world that holds what the map says. -/
theorem represents_foldl
    (represents : Represents setting contents world)
    {operations : List Operation}
    (allowed : ∀ operation ∈ operations, operation.Within setting) :
    Represents setting
      (operations.foldl (advance setting.env config) (world, contents)).2
      (operations.foldl (advance setting.env config) (world, contents)).1 := by
  induction operations generalizing world contents with
  | nil => exact represents
  | cons operation rest inductionHypothesis =>
      exact inductionHypothesis
        (represents_advance represents (allowed _ List.mem_cons_self))
        fun other later => allowed other (List.mem_cons_of_mem _ later)

end Simulation

/-! ## Downloads -/

/-- The outcome of a download with a credential of the project. -/
def download
    (env : Env) (config : Config) (auth : ProjectAuth) (kind : Kind)
    (path : String) (world : World) : Outcome CoreError Response :=
  ((Yocto.read auth kind auth.projectName path false).run
    (exec env config) world).1

/-- The answer to a download that a content under the key predicts. -/
def Predicted
    (env : Env) (expected : Option Bytes) (response : Response) : Prop :=
  match expected with
  | some content =>
      response.status = 200 ∧
        response.payload = .stream content ∧
        response.header "content-length" = some (toString content.length) ∧
        response.header "etag" = some (quoted (env.sha256 content))
  | none => response.status = 404

section Downloads

variable {setting : Setting} {config : Config}
variable {contents : Contents} {world : World}

/-- The answer to a download depends on the map alone. -/
theorem download_eq
    (represents : Represents setting contents world)
    (free : setting.env.CollisionFree setting.bodies)
    (auth : ProjectAuth) (kind : Kind) (path : String) :
    download setting.env config auth kind path world =
      .done (match contents ⟨auth.projectId, kind, path⟩ with
        | some content =>
            hitResponse (setting.env.sha256 content) content.length content
        | none => Yocto.missResponse) := by
  have stored := represents.stored ⟨auth.projectId, kind, path⟩
  cases holds : contents ⟨auth.projectId, kind, path⟩ with
  | none =>
      rw [holds, contentAt, Option.map_none, Option.map_eq_none_iff]
        at stored
      rw [download, run_read_miss stored]
  | some content =>
      rw [holds, contentAt, Option.map_some, Option.map_eq_some_iff]
        at stored
      obtain ⟨entry, found, same⟩ := stored
      obtain ⟨sameHash, sameSize⟩ := Prod.mk.inj same
      obtain ⟨filed, present⟩ := hasFile_iff.mp
        (represents.intact.kept entry (entryAt_eq_some.mp found).1)
      have digest := represents.intact.content present
      have equal : filed = content :=
        free filed digest.2 content
          (represents.known _ content holds) (digest.1.trans sameHash)
      rw [download, run_read_hit found present, equal, sameHash, sameSize]

/-- An operation leaves what the map says under a key, unless it is an upload
to the key or leaves nothing there. -/
theorem effect_of_survivor
    {operation : Operation} {outcome : Outcome CoreError (Option Response)}
    {before after : World} {key : Key} {content : Bytes}
    (elsewhere : ∀ request, operation = .put request → request.key ≠ key)
    (survives : effect operation outcome before after contents key =
      some content) : contents key = some content := by
  cases operation with
  | put request =>
      simp only [effect] at survives
      split at survives
      · rw [Function.update_of_ne (elsewhere request rfl).symm] at survives
        exact survives
      · exact survives
  | deleteEntry auth id eid =>
      simp only [effect] at survives
      split at survives
      · cases survives
      · exact survives
  | deleteProject auth id =>
      simp only [effect] at survives
      split at survives
      · cases survives
      · exact survives
  | gcRun =>
      simp only [effect] at survives
      split at survives
      · cases survives
      · exact survives
  | _ => exact survives

end Downloads

/-- The world and the map agree after every history. -/
theorem represents_play
    (env : Env) (config : Config) (now : Int) (operations : List Operation)
    {bodies : Set Bytes} (contained : uploaded operations.get ⊆ bodies) :
    Represents (setting env bodies) (play env config now operations).2
      (play env config now operations).1 := by
  refine represents_foldl (represents_initial (setting env bodies) now) ?_
  intro operation member
  cases operation with
  | put request =>
      obtain ⟨thread, same⟩ := List.get_of_mem member
      exact contained ⟨thread, request, same, rfl⟩
  | _ => trivial

/-- After every history, a download is answered with the content that the map
holds under its key, or with 404 if it holds none; and the last operation of
the history did not change the answer for a key that still has an entry, unless
it was an upload to that key. -/
theorem downloads_follow_map
    (env : Env) (config : Config) (now : Int) (operations : List Operation)
    (free : env.CollisionFree (uploaded operations.get))
    (auth : ProjectAuth) (kind : Kind) (path : String) :
    (∃ response,
      download env config auth kind path
        (play env config now operations).1 = .done response ∧
      Predicted env ((play env config now operations).2
        ⟨auth.projectId, kind, path⟩) response) ∧
    ∀ earlier operation, operations = earlier ++ [operation] →
      (∀ request, operation = .put request →
        request.key ≠ ⟨auth.projectId, kind, path⟩) →
      ((play env config now operations).1.db.entryAt
        ⟨auth.projectId, kind, path⟩).isSome →
      download env config auth kind path
          (play env config now operations).1 =
        download env config auth kind path
          (play env config now earlier).1 := by
  have represents := represents_play env config now operations
    (Set.Subset.refl _)
  have answer := @download_eq _ config _ _ represents free auth kind path
  constructor
  · refine ⟨_, answer, ?_⟩
    cases (play env config now operations).2
        ⟨auth.projectId, kind, path⟩ with
    | none => rfl
    | some content => exact ⟨rfl, rfl, rfl, rfl⟩
  · rintro earlier operation rfl elsewhere present
    have before := @represents_play env config now earlier
      (uploaded (earlier ++ [operation]).get) (by
        rintro content ⟨thread, request, same, rfl⟩
        obtain ⟨later, equal⟩ := List.get_of_mem
          (List.mem_append_left [operation] (List.get_mem earlier thread))
        exact ⟨later, request, equal.trans same, rfl⟩)
    have holds := represents.stored ⟨auth.projectId, kind, path⟩
    obtain ⟨entry, found⟩ := Option.isSome_iff_exists.mp present
    rw [contentAt, found, Option.map_some, eq_comm,
      Option.map_eq_some_iff] at holds
    obtain ⟨content, after, -⟩ := holds
    have played : play env config now (earlier ++ [operation]) =
        advance env config (play env config now earlier) operation :=
      List.foldl_concat ..
    have unchanged : (play env config now earlier).2
        ⟨auth.projectId, kind, path⟩ = some content := by
      rw [played] at after
      exact effect_of_survivor elsewhere after
    have answerBefore :=
      @download_eq _ config _ _ before free auth kind path
    rw [unchanged] at answerBefore
    rw [after] at answer
    exact answer.trans answerBefore.symm

/-- Two uploads of one body, the first of which is deleted, and a sweep. -/
def sharing : List Operation :=
  [.createProject root "acme" none none,
    .put ⟨acme, .sstate, "acme", "first", [.ok [97]]⟩,
    .put ⟨acme, .sstate, "acme", "second", [.ok [97]]⟩,
    .deleteEntry root 1 1,
    .gcRun]

theorem downloads_follow_map_sharing :
    (∃ response,
      download Sample.env (Sample.config 1024) acme .sstate "second"
        (play Sample.env (Sample.config 1024) 1000 sharing).1 =
          .done response ∧
      response.status = 200 ∧ response.payload = .stream [97]) ∧
    ∃ response,
      download Sample.env (Sample.config 1024) acme .sstate "first"
        (play Sample.env (Sample.config 1024) 1000 sharing).1 =
          .done response ∧
      response.status = 404 := by
  have free : Sample.env.CollisionFree (uploaded sharing.get) := by
    have known : uploaded sharing.get ⊆
        {content | content ∈ [[], [97], [98], [97, 98, 99]]} := by
      rintro content ⟨thread, request, same, rfl⟩
      have member := List.get_mem sharing thread
      rw [same] at member
      simp only [sharing, List.mem_cons, Operation.put.injEq, reduceCtorEq,
        List.not_mem_nil, or_false, false_or] at member
      rcases member with rfl | rfl
      · decide
      · decide
    exact fun first firstIn second secondIn =>
      Sample.collisionFree first (known firstIn) second (known secondIn)
  have kept : (play Sample.env (Sample.config 1024) 1000 sharing).2
      ⟨1, .sstate, "second"⟩ = some [97] := by decide +kernel
  have gone : (play Sample.env (Sample.config 1024) 1000 sharing).2
      ⟨1, .sstate, "first"⟩ = none := by decide +kernel
  obtain ⟨⟨response, answered, predicted⟩, -⟩ := downloads_follow_map
    Sample.env (Sample.config 1024) 1000 sharing free acme .sstate "second"
  obtain ⟨⟨missed, refused, unpredicted⟩, -⟩ := downloads_follow_map
    Sample.env (Sample.config 1024) 1000 sharing free acme .sstate "first"
  rw [show (⟨acme.projectId, .sstate, "second"⟩ : Key) =
    ⟨1, .sstate, "second"⟩ from rfl, kept] at predicted
  rw [show (⟨acme.projectId, .sstate, "first"⟩ : Key) =
    ⟨1, .sstate, "first"⟩ from rfl, gone] at unpredicted
  exact ⟨⟨response, answered, predicted.1, predicted.2.1⟩,
    missed, refused, unpredicted⟩

end CacheMap

end Marmotte
