import Marmotte.Operations
import Marmotte.Sequential.Scan

/-!
# Crash safety and recovery

Histories in which every operation may be abandoned between any two of its
calls, with failing statements and system calls.  The store invariant survives
all of them, and a scan followed by a sweep brings files, rows and references
back to agreement.
-/

namespace Marmotte

open Effects

namespace Recovery

open Custody Operation GcSvc

/-! ## Interrupted histories -/

/-- A history of operations, each of which may be cut short, with restarts that
may be cut short as well.  An abandoned operation drops the guard of the sweep
mutex. -/
inductive Interrupted (env : Env) (config : Config) :
    List Operation → World → Prop
  | fresh (now : Int) : Interrupted env config [] (World.initial now)
  | operation
      {past : List Operation} {before after : World}
      (operation : Operation) (budget : Nat)
      (history : Interrupted env config past before)
      (cut : Program.Cut (Faulty env config)
        (operation.program env config budget) before after) :
      Interrupted env config (past ++ [operation])
        { after with gcRunning := false }
  | restart
      {past : List Operation} {before after : World}
      (history : Interrupted env config past before)
      (cut : Program.Cut (Faulty env config) LocalFsStore.openStore
        { before with
          projectCache := []
          adminCache := [] } after) :
      Interrupted env config past after

/-- The calls of opening the store: only temporary files are removed. -/
def tidying : Protocol Call Call.Reply CoreError Unit where
  permits _ request :=
    match request with
    | .fs (.createDirAll _) => True
    | .fs .readTmp => True
    | .fs (.removeFile path) => ∃ name, path = tmpPath name
    | _ => False
  advance _ _ _ := ()

theorem openStore_follows :
    LocalFsStore.openStore.Follows tidying (fun _ _ => True)
      (fun _ _ => True) () := by
  have purges (names : List String) :
      (LocalFsStore.purgeTmp names).Follows tidying (fun _ _ => True)
        (fun _ _ => True) () := by
    induction names with
    | nil => trivial
    | cons name rest inductionHypothesis =>
        exact ⟨⟨name, rfl⟩, fun _ => inductionHypothesis⟩
  refine ⟨trivial, fun reply => ?_⟩
  cases reply with
  | error error => trivial
  | ok reply =>
      refine ⟨trivial, fun reply => ?_⟩
      cases reply with
      | error error => trivial
      | ok reply =>
          refine ⟨trivial, fun reply => ?_⟩
          cases reply with
          | error error => trivial
          | ok names => exact purges names

section Invariant

variable {setting : Setting} {config : Config} {before after : World}

/-- A system call that changes only temporary files keeps a world intact. -/
theorem intact_tidy
    {call : FsCall} {reply : Except CoreError call.Reply}
    (intact : Intact setting before)
    (temporary : ∀ path, call.Touches path → ∃ name, path = tmpPath name)
    (answered : Faulty setting.env config (.fs call) before reply after) :
    Intact setting after := by
  have frame := Faulty.fs_frame answered
  have sameDb : after.db = before.db := by rw [frame.1]
  refine ⟨?_, ?_, ?_, ?_⟩
  · rw [sameDb]
    exact intact.toTallied
  · rw [sameDb]
    exact intact.exact
  · intro path content present
    by_cases touches : call.Touches path
    · exact .inl (temporary path touches)
    · rw [frame.2 path touches] at present
      exact intact.addressed path content present
  · intro entry present
    rw [sameDb] at present
    have untouched : ¬call.Touches (blobPath entry.blobHash) := by
      intro touches
      obtain ⟨name, impossible⟩ := temporary _ touches
      exact blobPath_ne_tmpPath _ _ impossible
    rw [HasFile, Fs.has, frame.2 _ untouched]
    exact intact.kept entry present

theorem intact_tidying
    {request : Call} {reply : Except CoreError request.Reply}
    (intact : Intact setting before)
    (permitted : tidying.permits () request)
    (answered : Faulty setting.env config request before reply after) :
    Intact setting after := by
  cases request with
  | fs call =>
      refine intact_tidy intact ?_ answered
      cases call with
      | createDirAll path | readTmp => rintro _ ⟨⟩
      | removeFile path =>
          rintro _ rfl
          exact permitted
      | _ => exact permitted.elim
  | _ => exact permitted.elim

/-- The store invariant holds wherever a history is interrupted. -/
theorem intact_interrupted
    {past : List Operation} {world : World}
    (history : Interrupted setting.env config past world)
    (within : ∀ operation ∈ past, operation.Within setting) :
    Intact setting world := by
  induction history with
  | fresh now => exact intact_initial setting now
  | operation operation budget _ cut inductionHypothesis =>
      have earlier := inductionHypothesis fun other present =>
        within other (List.mem_append_left _ present)
      have follows := operation.program_follows setting config budget
        (within operation (by simp))
      exact (intact_cut follows earlier cut).of_same rfl rfl
  | @restart past stopped final _ cut inductionHypothesis =>
      have reopened : Intact setting
          { stopped with
            projectCache := []
            adminCache := [] } :=
        (inductionHypothesis within).of_same rfl rfl
      have kept : ∀ (record : Unit) request before reply after,
          Intact setting before → tidying.permits record request →
            Faulty setting.env config request before reply after →
              Intact setting after :=
        fun _ _ _ _ _ => intact_tidying
      obtain ⟨_, intact⟩ := Program.Cut.keeps kept openStore_follows
        reopened cut
      exact intact

end Invariant

/-- Nothing holds the sweep mutex between operations. -/
theorem unlocked_interrupted
    {env : Env} {config : Config} {past : List Operation} {world : World}
    (history : Interrupted env config past world) :
    world.gcRunning = false := by
  induction history with
  | fresh now => rfl
  | operation => rfl
  | @restart past stopped final _ cut inductionHypothesis =>
      have reopened :
          { stopped with
            projectCache := []
            adminCache := [] : World }.gcRunning = false :=
        inductionHypothesis
      have kept : ∀ (record : Unit) request before reply after,
          before.gcRunning = false → tidying.permits record request →
            Faulty env config request before reply after →
              after.gcRunning = false := by
        intro record request before reply after unlocked permitted answered
        cases request with
        | fs call =>
            rw [(Faulty.fs_frame answered).1]
            exact unlocked
        | _ => exact permitted.elim
      obtain ⟨_, unlocked⟩ := Program.Cut.keeps kept openStore_follows
        reopened cut
      exact unlocked

/-! ## Recovery -/

/-- In an intact world a walk lists the hashes that have a file. -/
theorem mem_walk_iff
    {setting : Setting} {world : World} {hash : String}
    (intact : Intact setting world) :
    hash ∈ FsCall.walk setting.env world.fs ↔ HasFile world hash := by
  constructor
  · intro listed
    simp only [FsCall.walk, Env.mem_scan, List.mem_dedup, List.mem_filter,
      List.mem_filterMap, decide_eq_true_eq] at listed
    obtain ⟨⟨file, ⟨present, below⟩, named⟩, -⟩ := listed
    have readable : world.fs.read file.path = some file.content :=
      Fs.read_eq_some_iff.mpr present
    rcases intact.addressed _ _ readable with ⟨name, temporary⟩ | ⟨same, -⟩
    · rw [temporary] at below
      simp [tmpPath] at below
    · rw [same] at named readable
      have equal : setting.env.sha256 file.content = hash := by
        simpa [blobPath] using named
      rw [hasFile_iff, ← equal]
      exact ⟨_, readable⟩
  · intro present
    obtain ⟨content, readable⟩ := hasFile_iff.mp present
    refine FsCall.mem_walk setting.env present ?_
    rw [← (intact.content readable).1]
    exact setting.env.sha256_hex content

/-- After a scan of an intact world the entries are as before, and a hash has a
file exactly if it has a row. -/
structure Reconciled (before after : World) : Prop where
  entries : after.db.entries.rows = before.db.entries.rows
  agree : ∀ hash, HasFile after hash ↔ after.db.HasBlob hash

theorem reconciled_of_scanned
    {setting : Setting} {before after : World}
    (intact : Intact setting before)
    (scanned : Scanned before after (unknownFiles setting.env before)
      (missingFiles setting.env before)) : Reconciled before after := by
  have stored (hash : String) :
      hash ∈ setting.env.scan (before.db.blobs.rows.map Blob.hash) ↔
        before.db.HasBlob hash := by
    rw [Env.mem_scan, List.mem_map]
    rfl
  have purged (hash : String) :
      hash ∈ missingFiles setting.env before ↔
        before.db.HasBlob hash ∧ ¬HasFile before hash := by
    rw [missingFiles, mem_difference, stored, mem_walk_iff intact]
  have removed (hash : String) :
      hash ∈ unknownFiles setting.env before ↔
        HasFile before hash ∧ ¬before.db.HasBlob hash := by
    rw [unknownFiles, mem_difference, stored, mem_walk_iff intact]
  constructor
  · rw [scanned.entries, List.filter_eq_self]
    intro entry present
    have kept := intact.kept entry present
    have spared : entry.blobHash ∉ missingFiles setting.env before :=
      fun missing => ((purged _).mp missing).2 kept
    simp [spared]
  · intro hash
    have row := @Blobs.hasBlob_iff before.db hash
    rw [Blobs.hasBlob_iff, scanned.blobs, HasFile, Fs.has, scanned.files]
    by_cases filed : HasFile before hash
    · by_cases rowed : before.db.HasBlob hash
      · have file := filed
        rw [HasFile, Fs.has] at file
        simp [purged, removed, filed, rowed, ← row, file]
      · simp [removed, filed, rowed, ← row]
    · by_cases rowed : before.db.HasBlob hash
      · have file := filed
        rw [HasFile, Fs.has] at file
        simp [purged, removed, filed, rowed, file]
      · have file := filed
        rw [HasFile, Fs.has] at file
        simp [purged, removed, filed, rowed, ← row, file]

/-- The blob files. -/
def blobFiles (fs : Fs) : Set FilePath :=
  {path | fs.has path = true ∧ path.head? = some "blobs"}

/-- Files, rows and references agree. -/
structure Agreed (world : World) : Prop where
  files : blobFiles world.fs = blobPath '' {hash | world.db.HasBlob hash}
  rows : {hash | world.db.HasBlob hash} = {hash | world.db.References hash}

theorem blobFiles_eq_image
    {setting : Setting} {world : World}
    (intact : Intact setting world)
    (agree : ∀ hash, HasFile world hash ↔ world.db.HasBlob hash) :
    blobFiles world.fs = blobPath '' {hash | world.db.HasBlob hash} := by
  ext path
  constructor
  · rintro ⟨present, below⟩
    obtain ⟨content, readable⟩ := Option.isSome_iff_exists.mp present
    rcases intact.addressed _ _ readable with ⟨name, rfl⟩ | ⟨rfl, -⟩
    · simp [tmpPath] at below
    · exact ⟨_, (agree _).mp present, rfl⟩
  · rintro ⟨hash, stored, rfl⟩
    exact ⟨(agree hash).mpr stored, rfl⟩

/-- A sweep of a reconciled world with exact counts brings it to agreement. -/
theorem agreed_of_swept
    {setting : Setting} {config : Config} {middle after : World}
    (exact : middle.db.Exact)
    (agree : ∀ hash, HasFile middle hash ↔ middle.db.HasBlob hash)
    (cleaned : Cleaned
      { middle with
        db := evictedDb setting.env config.gc middle.now middle.db } after)
    (intact : Intact setting after) : Agreed after := by
  obtain ⟨victims, valid, left⟩ :=
    evictedDb_evictedFrom setting.env config.gc middle.now middle.db
  have evicted := Db.evicting_spec valid
  rw [← left] at evicted
  have balanced := evicted.exact exact
  have rows (hash : String) :
      after.db.HasBlob hash ↔ after.db.References hash := by
    rw [cleaned.hasBlob, cleaned.references, ne_eq,
      balanced.refcount_eq_zero_iff, not_not]
    exact and_iff_right_of_imp Db.References.hasBlob
  refine ⟨blobFiles_eq_image intact fun hash => ?_, Set.ext rows⟩
  rw [cleaned.hasBlob, HasFile, Fs.has, cleaned.read_blobPath]
  have before := agree hash
  rw [← evicted.hasBlob, HasFile, Fs.has] at before
  split
  · rename_i dead
    simp [dead.2]
  · rename_i alive
    rw [before]
    exact ⟨fun stored => ⟨stored, fun zero => alive ⟨stored, zero⟩⟩,
      And.left⟩

/-! ## The two guarantees -/

/-- However a history is interrupted, every entry has a row with a sufficient
count and a file with the content that its hash names; and if no project was
deleted, a scan followed by a sweep makes the blob files, the blob rows and the
references agree. -/
theorem interrupted_recovers
    (env : Env) (config : Config)
    (past : List Operation) (world : World)
    (history : Interrupted env config past world) :
    (∀ entry ∈ world.db.entries.rows,
      (∃ blob ∈ world.db.blobs.rows, blob.hash = entry.blobHash ∧
        (world.db.pointersTo entry.blobHash : Int) ≤ blob.refcount) ∧
      ∃ content,
        world.fs.read (blobPath entry.blobHash) = some content ∧
        env.sha256 content = entry.blobHash) ∧
    ((∀ auth id, .deleteProject auth id ∉ past) →
      ∃ scanned middle,
        (orphanScan env false).run (exec env config) world =
          (.done scanned, middle) ∧
        ∀ rounds, middle.db.blobs.rows.length < rounds →
          ∃ swept after,
            (GcSvc.run config.gc rounds false).run (exec env config) middle =
              (.done swept, after) ∧
            Agreed after) := by
  have unlocked := unlocked_interrupted history
  constructor
  · have intact : Intact (setting env Set.univ) world :=
      intact_interrupted history fun operation _ => by
        cases operation <;> trivial
    intro entry present
    obtain ⟨blob, stored, same⟩ := world.db.entry_blob entry present
    have covered := Db.covered_iff.mp intact.covered blob stored
    obtain ⟨content, readable⟩ := hasFile_iff.mp (intact.kept entry present)
    rw [same] at covered
    exact ⟨⟨blob, stored, same, covered⟩, content, readable,
      (intact.content readable).1⟩
  · intro noDelete
    let kept : Setting := ⟨env, Set.univ, False, True, True, False⟩
    have intact : Intact kept world :=
      intact_interrupted history fun operation member => by
        cases operation with
        | deleteProject auth id => exact noDelete auth id member
        | _ => trivial
    obtain ⟨report, middle, ranScan, scanned⟩ :=
      @run_orphanScan env config world unlocked
    have intactMiddle := intact_run config
      (orphanScan_keeps kept trivial) intact
    rw [ranScan] at intactMiddle
    have unlockedMiddle : middle.gcRunning = false := by
      rw [scanned.rest]
      exact unlocked
    refine ⟨report, middle, ranScan, fun rounds enough => ?_⟩
    obtain ⟨rep, after, ran, cleaned, -⟩ := @run_run env config rounds
      middle unlockedMiddle intactMiddle.covered enough
    have intactAfter := intact_run config
      (run_keeps kept config.gc rounds trivial) intactMiddle
    rw [ran] at intactAfter
    exact ⟨rep, after, ran, agreed_of_swept (intactMiddle.exact id)
      (reconciled_of_scanned intact scanned).agree cleaned intactAfter⟩

/-! ## An upload that is cut short -/

/-- A project, and an upload under it. -/
def creating : Operation := .createProject root "acme" none none

def uploading : Operation :=
  .put ⟨acme, .sstate, "acme", "first", [.ok [97]]⟩

/-- The world when an operation was abandoned after so many calls. -/
def abandoned (operation : Operation) (calls : Nat) (world : World) : World :=
  { (operation.program Sample.env (Sample.config 1024) 2).runFor
      (exec Sample.env (Sample.config 1024)) calls world with
    gcRunning := false }

/-- The upload renamed its file and did not get to its transaction. -/
def halfUploaded : World :=
  abandoned uploading 8 (abandoned creating 2 (World.initial 1000))

theorem halfUploaded_interrupted :
    Interrupted Sample.env (Sample.config 1024) [creating, uploading]
      halfUploaded := by
  have created : Interrupted Sample.env (Sample.config 1024) [creating]
      (abandoned creating 2 (World.initial 1000)) :=
    .operation creating 2 (.fresh 1000)
      (Program.cut_runFor (fun _ _ _ _ => .exact) 2 _ _)
  exact .operation uploading 2 created
    (Program.cut_runFor (fun _ _ _ _ => .exact) 8 _ _)

theorem interrupted_recovers_upload :
    HasFile halfUploaded (Sample.sha256 [97]) ∧
    ¬halfUploaded.db.HasBlob (Sample.sha256 [97]) ∧
    ∃ scanned middle,
      (orphanScan Sample.env false).run
        (exec Sample.env (Sample.config 1024)) halfUploaded =
          (.done scanned, middle) ∧
      ∃ swept after,
        (GcSvc.run (Sample.config 1024).gc
          (middle.db.blobs.rows.length + 1) false).run
            (exec Sample.env (Sample.config 1024)) middle =
              (.done swept, after) ∧
        Agreed after := by
  refine ⟨by decide +kernel, by decide +kernel, ?_⟩
  obtain ⟨scanned, middle, ranScan, sweeps⟩ :=
    (interrupted_recovers Sample.env (Sample.config 1024)
      [creating, uploading] halfUploaded halfUploaded_interrupted).2 (by
        intro auth id member
        simp [creating, uploading] at member)
  exact ⟨scanned, middle, ranScan, sweeps _ (Nat.lt_succ_self _)⟩

end Recovery

end Marmotte
