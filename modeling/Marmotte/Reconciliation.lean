import Marmotte.Custody.Ownership
import Marmotte.Sample
import Marmotte.Sequential.Scan

/-!
# What a scan reconciles

The walk collects the names of files wherever they lie below `blobs`, in either
letter case; files are read and removed at the path of their name.  A scan
reconciles the store with the database exactly if names and paths agree.
-/

namespace Marmotte

open Effects Tables

namespace Reconciliation

open GcSvc Custody

/-! ## What a scan is for -/

/-- A file below `blobs` has this name. -/
def Named (path : FilePath) (hash : String) : Prop :=
  path.head? = some "blobs" ∧ path.tail.getLast? = some hash

/-- The digest of a file or of a row. -/
def Digest (world : World) (hash : String) : Prop :=
  isHex64 hash = true ∨ world.db.HasBlob hash

/-- What two scans, one after the other, do and report. -/
structure Reconciles
    (before after : World) (rep again : OrphanReport) : Prop where
  agree : ∀ hash, Digest before hash →
    (after.db.HasBlob hash ↔ after.fs.has (blobPath hash) = true)
  entries : after.db.entries.rows = before.db.entries.rows.filter
    fun entry => before.fs.has (blobPath entry.blobHash)
  spared : ∀ hash, after.db.HasBlob hash →
    before.fs.has (blobPath hash) = true →
      after.fs.has (blobPath hash) = true
  disk : rep.diskOrphansRemoved =
    (before.fs.rows.filter fun file => !after.fs.has file.path).length
  db : rep.dbOrphansRemoved =
    (before.db.blobs.rows.filter fun row =>
      (Blobs.get after.db row.hash).isNone).length
  again : again = ⟨0, 0⟩

/-- A scan of this world, and another one behind it, return and reconcile. -/
def ScanReconciles
    (env : Env) (config : Config) (before : World) : Prop :=
  ∃ rep after again last,
    (orphanScan env false).run (exec env config) before = (.done rep, after) ∧
    (orphanScan env false).run (exec env config) after = (.done again, last) ∧
    Reconciles before after rep again

/-- Names and paths agree: a file of the name of a row lies at its path, no
file lies at the path of a row that is no digest, and a digest without a row
has its files at its path alone. -/
structure WellPlaced (world : World) : Prop where
  kept : ∀ hash, world.db.HasBlob hash → isHex64 hash = true →
    (∃ file ∈ world.fs.rows, Named file.path hash) →
      world.fs.has (blobPath hash) = true
  foreign : ∀ hash, world.db.HasBlob hash → isHex64 hash = false →
    world.fs.has (blobPath hash) = false
  strays : ∀ file ∈ world.fs.rows, ∀ hash, Named file.path hash →
    isHex64 hash = true → ¬world.db.HasBlob hash →
      file.path = blobPath hash

/-! ## What a scan does -/

section Scans

variable {env : Env} {config : Config} {world before after : World}
variable {hash : String}

theorem mem_walk_iff_named {fs : Fs} :
    hash ∈ FsCall.walk env fs ↔
      (∃ file ∈ fs.rows, Named file.path hash) ∧ isHex64 hash = true := by
  simp only [FsCall.walk, Env.mem_scan, List.mem_dedup, List.mem_filter,
    List.mem_filterMap, decide_eq_true_eq]
  constructor
  · rintro ⟨⟨file, ⟨stored, below⟩, named⟩, digest⟩
    exact ⟨⟨file, stored, below, named⟩, digest⟩
  · rintro ⟨⟨file, stored, below, named⟩, digest⟩
    exact ⟨⟨file, ⟨stored, below⟩, named⟩, digest⟩

theorem named_blobPath {other : String} :
    Named (blobPath hash) other ↔ hash = other := by
  simp [Named, blobPath]

theorem mem_unknownFiles :
    hash ∈ unknownFiles env world ↔
      (∃ file ∈ world.fs.rows, Named file.path hash) ∧ isHex64 hash = true ∧
        ¬world.db.HasBlob hash := by
  rw [unknownFiles, mem_difference, mem_walk_iff_named, Env.mem_scan,
    List.mem_map, and_assoc]
  rfl

theorem mem_missingFiles :
    hash ∈ missingFiles env world ↔ world.db.HasBlob hash ∧
      ¬((∃ file ∈ world.fs.rows, Named file.path hash) ∧
        isHex64 hash = true) := by
  rw [missingFiles, mem_difference, mem_walk_iff_named, Env.mem_scan,
    List.mem_map]
  rfl

theorem exists_named_of_has {fs : Fs} (present : fs.has (blobPath hash) = true) :
    ∃ file ∈ fs.rows, Named file.path hash := by
  obtain ⟨content, found⟩ := Option.isSome_iff_exists.mp present
  exact ⟨⟨blobPath hash, content⟩, Fs.read_eq_some_iff.mp found,
    named_blobPath.mpr rfl⟩

section After

variable (scanned : Scanned before after (unknownFiles env before)
  (missingFiles env before))

include scanned

theorem hasBlob_after :
    after.db.HasBlob hash ↔ before.db.HasBlob hash ∧
      (∃ file ∈ before.fs.rows, Named file.path hash) ∧
        isHex64 hash = true := by
  rw [Blobs.hasBlob_iff, scanned.blobs]
  have row := @Blobs.hasBlob_iff before.db hash
  have missing := @mem_missingFiles env before hash
  by_cases purged : hash ∈ missingFiles env before
  · rw [if_pos purged]
    have gone := missing.mp purged
    refine iff_of_false (by simp) ?_
    exact fun kept => gone.2 kept.2
  · rw [if_neg purged, ← row]
    constructor
    · intro stored
      refine ⟨stored, ?_⟩
      by_contra unwalked
      exact purged (missing.mpr ⟨stored, unwalked⟩)
    · exact fun kept => kept.1

theorem mem_after {file : File} :
    file ∈ after.fs.rows ↔ file ∈ before.fs.rows ∧
      ∀ hash ∈ unknownFiles env before, file.path ≠ blobPath hash := by
  rw [← Fs.read_eq_some_iff, ← Fs.read_eq_some_iff, scanned.files]
  by_cases removed : ∃ hash ∈ unknownFiles env before,
      file.path = blobPath hash
  · rw [if_pos removed]
    obtain ⟨hash, unknown, same⟩ := removed
    refine iff_of_false (fun none => by cases none) ?_
    exact fun kept => kept.2 hash unknown same
  · rw [if_neg removed]
    constructor
    · exact fun found => ⟨found, fun hash unknown same =>
        removed ⟨hash, unknown, same⟩⟩
    · exact fun kept => kept.1

theorem has_after {path : FilePath} :
    after.fs.has path = true ↔ before.fs.has path = true ∧
      ∀ hash ∈ unknownFiles env before, path ≠ blobPath hash := by
  rw [Fs.has, scanned.files]
  by_cases removed : ∃ hash ∈ unknownFiles env before, path = blobPath hash
  · rw [if_pos removed]
    obtain ⟨hash, unknown, same⟩ := removed
    refine iff_of_false (fun none => by cases none) ?_
    exact fun kept => kept.2 hash unknown same
  · rw [if_neg removed]
    constructor
    · exact fun found => ⟨found, fun hash unknown same =>
        removed ⟨hash, unknown, same⟩⟩
    · exact fun kept => kept.1

end After

end Scans

/-! ## When names and paths agree -/

section Reconciled

variable {env : Env} {config : Config} {before after : World}

theorem unlocked_after
    {removed purged : List String} (unlocked : before.gcRunning = false)
    (scanned : Scanned before after removed purged) :
    after.gcRunning = false := by
  rw [scanned.rest]
  exact unlocked

theorem wellPlaced_of_reconciles
    (scanned : Scanned before after (unknownFiles env before)
      (missingFiles env before))
    (quiet : unknownFiles env after = [])
    (reconciles : ∀ hash, Digest before hash →
      (after.db.HasBlob hash ↔ after.fs.has (blobPath hash) = true)) :
    WellPlaced before where
  kept := by
    intro hash stored digest walked
    have survives := (hasBlob_after scanned).mpr ⟨stored, walked, digest⟩
    exact ((has_after scanned).mp
      ((reconciles hash (.inl digest)).mp survives)).1
  foreign := by
    intro hash stored noDigest
    rw [← Bool.not_eq_true]
    intro present
    have remains : after.fs.has (blobPath hash) = true := by
      refine (has_after scanned).mpr ⟨present, fun other unknown same => ?_⟩
      rw [blobPath_injective same] at noDigest
      rw [(mem_unknownFiles.mp unknown).2.1] at noDigest
      cases noDigest
    have survives := (reconciles hash (.inr stored)).mpr remains
    rw [((hasBlob_after scanned).mp survives).2.2] at noDigest
    cases noDigest
  strays := by
    intro file found hash named digest unrowed
    by_contra elsewhere
    have remains : file ∈ after.fs.rows := by
      refine (mem_after scanned).mpr ⟨found, fun other _ same => elsewhere ?_⟩
      rw [same] at named ⊢
      rw [named_blobPath.mp named]
    have unknown : hash ∈ unknownFiles env after := by
      refine mem_unknownFiles.mpr ⟨⟨file, remains, named⟩, digest, ?_⟩
      exact fun stored => unrowed ((hasBlob_after scanned).mp stored).1
    rw [quiet] at unknown
    cases unknown

/-- Lists of distinct members with the same members are as long. -/
theorem length_eq_of_mem
    {first second : List α} (firstNodup : first.Nodup)
    (secondNodup : second.Nodup) (same : ∀ item, item ∈ first ↔ item ∈ second) :
    first.length = second.length :=
  ((List.perm_ext_iff_of_nodup firstNodup secondNodup).mpr same).length_eq

theorem nodup_difference
    (env : Env) {first second : List String} (nodup : first.Nodup) :
    (difference env first second).Nodup :=
  (env.scan_perm _).nodup_iff.mpr (nodup.filter _)

theorem nodup_hashes (env : Env) (db : Db) :
    (env.scan (db.blobs.rows.map Blob.hash)).Nodup := by
  rw [(env.scan_perm _).nodup_iff, List.nodup_iff_pairwise_ne, List.pairwise_map]
  exact db.blobs.distinct

theorem nodup_walk (env : Env) (fs : Fs) : (FsCall.walk env fs).Nodup :=
  (env.scan_perm _).nodup_iff.mpr (List.nodup_dedup _)

theorem nodup_paths (fs : Fs) : (fs.rows.map File.path).Nodup := by
  rw [List.nodup_iff_pairwise_ne, List.pairwise_map]
  exact fs.distinct

theorem spared_of_scanned
    {hash : String}
    (scanned : Scanned before after (unknownFiles env before)
      (missingFiles env before))
    (stored : before.db.HasBlob hash)
    (present : before.fs.has (blobPath hash) = true) :
    after.fs.has (blobPath hash) = true := by
  refine (has_after scanned).mpr ⟨present, fun other unknown same => ?_⟩
  rw [blobPath_injective same] at stored
  exact (mem_unknownFiles.mp unknown).2.2 stored

/-- The rows that are removed are those of the digests without a file. -/
theorem db_of_scanned
    (scanned : Scanned before after (unknownFiles env before)
      (missingFiles env before)) :
    (missingFiles env before).length =
      (before.db.blobs.rows.filter fun row =>
        (Blobs.get after.db row.hash).isNone).length := by
  have hashes : (missingFiles env before).length =
      ((before.db.blobs.rows.filter fun row =>
        (Blobs.get after.db row.hash).isNone).map Blob.hash).length := by
    refine length_eq_of_mem
      (nodup_difference env (nodup_hashes env before.db)) ?_ fun hash => ?_
    · refine List.Nodup.sublist (List.filter_sublist.map Blob.hash) ?_
      rw [List.nodup_iff_pairwise_ne, List.pairwise_map]
      exact before.db.blobs.distinct
    · simp only [List.mem_map, List.mem_filter, Option.isNone_iff_eq_none]
      constructor
      · intro missing
        obtain ⟨row, stored, rfl⟩ := (mem_missingFiles.mp missing).1
        exact ⟨row, ⟨stored, by rw [scanned.blobs, if_pos missing]⟩, rfl⟩
      · rintro ⟨row, ⟨stored, gone⟩, rfl⟩
        by_contra present
        rw [scanned.blobs, if_neg present] at gone
        obtain ⟨blob, found⟩ := Blobs.hasBlob_iff.mp ⟨row, stored, rfl⟩
        rw [gone] at found
        cases found
  simpa using hashes

section Tidy

variable (wellPlaced : WellPlaced before)
variable (scanned : Scanned before after (unknownFiles env before)
  (missingFiles env before))

include wellPlaced

theorem mem_missingFiles_iff_absent
    {hash : String} (stored : before.db.HasBlob hash) :
    hash ∈ missingFiles env before ↔
      before.fs.has (blobPath hash) = false := by
  rw [mem_missingFiles]
  constructor
  · rintro ⟨-, unwalked⟩
    rw [← Bool.not_eq_true]
    intro present
    cases digest : isHex64 hash with
    | true => exact unwalked ⟨exists_named_of_has present, digest⟩
    | false =>
        rw [wellPlaced.foreign hash stored digest] at present
        cases present
  · intro absent
    refine ⟨stored, fun walked => ?_⟩
    rw [wellPlaced.kept hash stored walked.2 walked.1] at absent
    cases absent

include scanned

theorem agree_of_wellPlaced
    {hash : String} (isDigest : Digest before hash) :
    after.db.HasBlob hash ↔ after.fs.has (blobPath hash) = true := by
  rw [hasBlob_after scanned]
  constructor
  · rintro ⟨stored, walked, digest⟩
    exact spared_of_scanned scanned stored
      (wellPlaced.kept hash stored digest walked)
  · intro remains
    obtain ⟨present, unremoved⟩ := (has_after scanned).mp remains
    have walked := exists_named_of_has present
    have stored : before.db.HasBlob hash := by
      by_contra unrowed
      rcases isDigest with digest | stored
      · exact unremoved hash (mem_unknownFiles.mpr ⟨walked, digest, unrowed⟩)
          rfl
      · exact unrowed stored
    refine ⟨stored, walked, ?_⟩
    by_contra noDigest
    rw [wellPlaced.foreign hash stored (Bool.eq_false_iff.mpr noDigest)]
      at present
    cases present

theorem entries_of_wellPlaced :
    after.db.entries.rows = before.db.entries.rows.filter
      fun entry => before.fs.has (blobPath entry.blobHash) := by
  rw [scanned.entries]
  refine List.filter_congr fun entry present => ?_
  have missing := @mem_missingFiles_iff_absent env before wellPlaced
    entry.blobHash (before.db.entry_blob entry present)
  cases had : before.fs.has (blobPath entry.blobHash) with
  | true =>
      rw [had] at missing
      have unpurged : entry.blobHash ∉ missingFiles env before :=
        fun purged => absurd (missing.mp purged) (by decide)
      simp [unpurged]
  | false =>
      rw [had] at missing
      simp [missing.mpr rfl]

/-- The files that are removed are those of the digests without a row. -/
theorem disk_of_wellPlaced :
    (unknownFiles env before).length =
      (before.fs.rows.filter fun file => !after.fs.has file.path).length := by
  have paths : ((unknownFiles env before).map blobPath).length =
      ((before.fs.rows.filter fun file =>
        !after.fs.has file.path).map File.path).length := by
    refine length_eq_of_mem ?_ ?_ fun path => ?_
    · exact (nodup_difference env (nodup_walk env before.fs)).map
        blobPath_injective
    · exact (nodup_paths before.fs).sublist
        (List.filter_sublist.map File.path)
    · simp only [List.mem_map, List.mem_filter, Bool.not_eq_true']
      constructor
      · rintro ⟨hash, unknown, rfl⟩
        obtain ⟨⟨file, found, named⟩, digest, unrowed⟩ :=
          mem_unknownFiles.mp unknown
        have placed := wellPlaced.strays file found hash named digest unrowed
        refine ⟨file, ⟨found, ?_⟩, placed⟩
        rw [← Bool.not_eq_true, has_after scanned]
        exact fun remains => remains.2 hash unknown placed
      · rintro ⟨file, ⟨found, gone⟩, rfl⟩
        rw [← Bool.not_eq_true, has_after scanned] at gone
        have present : before.fs.has file.path = true := by
          rw [Fs.has, Fs.read_eq_some_iff.mpr found]
          rfl
        by_contra unlisted
        refine gone ⟨present, fun hash unknown same => ?_⟩
        exact unlisted ⟨hash, unknown, same.symm⟩
  simpa using paths

/-- A second scan finds nothing. -/
theorem quiet_of_wellPlaced :
    unknownFiles env after = [] ∧ missingFiles env after = [] := by
  constructor
  · rw [List.eq_nil_iff_forall_not_mem]
    intro hash again
    obtain ⟨⟨file, remains, named⟩, digest, unrowed⟩ := mem_unknownFiles.mp again
    obtain ⟨found, unremoved⟩ := (mem_after scanned).mp remains
    by_cases stored : before.db.HasBlob hash
    · exact unrowed ((hasBlob_after scanned).mpr
        ⟨stored, ⟨file, found, named⟩, digest⟩)
    · exact unremoved hash
        (mem_unknownFiles.mpr ⟨⟨file, found, named⟩, digest, stored⟩)
        (wellPlaced.strays file found hash named digest stored)
  · rw [List.eq_nil_iff_forall_not_mem]
    intro hash again
    obtain ⟨survives, unwalked⟩ := mem_missingFiles.mp again
    obtain ⟨stored, ⟨file, found, named⟩, digest⟩ :=
      (hasBlob_after scanned).mp survives
    refine unwalked ⟨⟨file, (mem_after scanned).mpr ⟨found, ?_⟩, named⟩, digest⟩
    intro other unknown same
    rw [same] at named
    rw [named_blobPath.mp named] at unknown
    exact (mem_unknownFiles.mp unknown).2.2 stored

end Tidy

/-- A scan and another one behind it reconcile exactly the worlds in which
names and paths agree. -/
theorem scan_reconciles_iff (unlocked : before.gcRunning = false) :
    ScanReconciles env config before ↔ WellPlaced before := by
  obtain ⟨middle, ran, scanned⟩ :=
    @run_orphanScan_counted env config before unlocked
  obtain ⟨final, ranAgain, -⟩ :=
    @run_orphanScan_counted env config middle (unlocked_after unlocked scanned)
  constructor
  · rintro ⟨rep, after, again, last, first, second, reconciles⟩
    rw [ran] at first
    cases first
    rw [ranAgain] at second
    cases second
    have quiet := congrArg OrphanReport.diskOrphansRemoved reconciles.again
    exact wellPlaced_of_reconciles scanned (List.eq_nil_of_length_eq_zero quiet)
      reconciles.agree
  · intro wellPlaced
    have quiet := quiet_of_wellPlaced wellPlaced scanned
    rw [quiet.1, quiet.2] at ranAgain
    exact ⟨_, middle, _, final, ran, ranAgain,
      { agree := fun hash => agree_of_wellPlaced wellPlaced scanned
        entries := entries_of_wellPlaced wellPlaced scanned
        spared := fun hash survives =>
          spared_of_scanned scanned ((hasBlob_after scanned).mp survives).1
        disk := disk_of_wellPlaced wellPlaced scanned
        db := db_of_scanned scanned
        again := rfl }⟩

end Reconciled

/-- Names and paths agree where every file is at the path of a blob and every
row is named by a digest. -/
theorem wellPlaced_of_own
    {world : World}
    (files : ∀ file ∈ world.fs.rows, ∃ hash, file.path = blobPath hash)
    (rows : ∀ blob ∈ world.db.blobs.rows, isHex64 blob.hash = true) :
    WellPlaced world where
  kept := by
    rintro hash - - ⟨file, present, named⟩
    obtain ⟨own, same⟩ := files file present
    rw [same] at named
    rw [← named_blobPath.mp named, ← same, Fs.has,
      Fs.read_eq_some_iff.mpr present]
    rfl
  foreign := by
    rintro hash ⟨blob, stored, rfl⟩ noDigest
    rw [rows blob stored] at noDigest
    cases noDigest
  strays := by
    intro file present hash named _ _
    obtain ⟨own, same⟩ := files file present
    rw [same] at named
    rw [same, named_blobPath.mp named]

/-! ## A restored backup, and a file in a wrong directory -/

/-- One entry has its file, another one has lost it, and an empty file belongs
to no entry. -/
def restored : World :=
  (Program.run (exec Sample.env (Sample.config 1024)) (do
    let _ ← transact (.projectsCreate "acme" none none)
    let written ← LocalFsStore.writeStreamed Sample.env [.ok [97]]
    let _ ← transact
      (.entriesUpsert 1 .sstate "first" written.hash written.sizeBytes)
    let _ ← transact
      (.entriesUpsert 1 .sstate "second" (Sample.sha256 [98]) 1)
    let _ ← LocalFsStore.writeStreamed Sample.env []
    pure ()) (World.initial 1000)).2

/-- A file below another directory than that of its name. -/
def misplaced : World :=
  { World.initial 1000 with
    fs := Fs.write (World.initial 1000).fs
      ["blobs", "00", "00", Sample.sha256 [97]] [97] }

/-- The first world is reconciled and the second is not. -/
theorem scan_reconciles_iff_restored :
    (ScanReconciles Sample.env (Sample.config 1024) restored ∧
      WellPlaced restored) ∧
    ¬ScanReconciles Sample.env (Sample.config 1024) misplaced ∧
      ¬WellPlaced misplaced := by
  have placed : WellPlaced restored := by
    refine wellPlaced_of_own ?_ (by decide +kernel)
    intro file present
    have paths : file.path ∈ [blobPath (Sample.sha256 [97]),
        blobPath (Sample.sha256 [])] := by
      have all : ∀ file ∈ restored.fs.rows, file.path ∈
          [blobPath (Sample.sha256 [97]), blobPath (Sample.sha256 [])] := by
        decide +kernel
      exact all file present
    simp only [List.mem_cons, List.not_mem_nil, or_false] at paths
    rcases paths with path | path
    · exact ⟨_, path⟩
    · exact ⟨_, path⟩
  have displaced : ¬WellPlaced misplaced := by
    intro placed
    have there := placed.strays ⟨["blobs", "00", "00", Sample.sha256 [97]],
      [97]⟩ (by decide +kernel) (Sample.sha256 [97]) ⟨rfl, rfl⟩
      (by decide +kernel) (by decide +kernel)
    exact absurd there (by decide +kernel)
  exact ⟨⟨(scan_reconciles_iff (by decide +kernel)).mpr placed, placed⟩,
    fun reconciles => displaced ((scan_reconciles_iff rfl).mp reconciles),
    displaced⟩

/-- It is reported as removed, and again by the next scan, but it stays. -/
theorem misplaced_file_stays :
    (match (orphanScan Sample.env false).run
        (exec Sample.env (Sample.config 1024)) misplaced with
      | (.done rep, after) =>
          match (orphanScan Sample.env false).run
              (exec Sample.env (Sample.config 1024)) after with
          | (.done again, last) => some (rep, again, last.fs.rows)
          | _ => none
      | _ => none) = some (⟨1, 0⟩, ⟨1, 0⟩, misplaced.fs.rows) ∧
    ¬ScanReconciles Sample.env (Sample.config 1024) misplaced := by
  have reported : (match (orphanScan Sample.env false).run
        (exec Sample.env (Sample.config 1024)) misplaced with
      | (.done rep, after) =>
          match (orphanScan Sample.env false).run
              (exec Sample.env (Sample.config 1024)) after with
          | (.done again, last) => some (rep, again, last.fs.rows)
          | _ => none
      | _ => none) = some (⟨1, 0⟩, ⟨1, 0⟩, misplaced.fs.rows) := by
    decide +kernel
  refine ⟨reported, ?_⟩
  rintro ⟨rep, after, again, last, first, second, reconciles⟩
  rw [first] at reported
  simp only [second, reconciles.again] at reported
  cases reported

end Reconciliation

end Marmotte
