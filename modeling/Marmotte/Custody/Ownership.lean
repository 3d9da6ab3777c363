import Marmotte.Custody.Protocol

/-!
# What a record says about the world

A record of the custody protocol is owned in a world when everything it claims
is true there.  A permitted call keeps the ownership of its own record, and it
keeps that of another program's record unless it interferes with it.
-/

namespace Marmotte

open Effects Tables

namespace Custody

/-- A blob file with this name exists. -/
abbrev HasFile (world : World) (hash : String) : Prop :=
  world.fs.has (blobPath hash) = true

theorem hasFile_iff {world : World} {hash : String} :
    HasFile world hash ↔
      ∃ content, world.fs.read (blobPath hash) = some content := by
  simp [HasFile, Fs.has, Option.isSome_iff_exists]

/-- Every blob row is named by a digest. -/
def Digested (db : Db) : Prop :=
  ∀ hash, db.HasBlob hash → isHex64 hash = true

/-- What a record claims is true. -/
structure Owned
    (setting : Setting) (record : Local) (world : World) : Prop where
  named : ∀ upload, record.upload = some upload →
    ∃ number < world.uuids, upload.name = setting.env.uuid number
  written : ∀ name content, record.upload = some ⟨name, some content⟩ →
    world.fs.read (tmpPath name) = some content
  held : ∀ hash, record.held = some hash → HasFile world hash
  committed : ¬setting.sweeps → setting.sighted →
    ∀ hash, record.committed = some hash →
      world.db.HasBlob hash ∧ HasFile world hash
  pending : ∀ hash ∈ record.pending, ¬world.db.References hash
  onDisk : setting.sighted → ∀ names, record.onDisk = some names →
    ∀ hash, world.db.HasBlob hash → HasFile world hash → hash ∈ names
  diskOrphans : ∀ hash ∈ record.diskOrphans, ¬world.db.HasBlob hash
  dbOrphans : setting.sighted → ∀ hash ∈ record.dbOrphans, ¬HasFile world hash
  apart : record.Rests ∨ record.CollectsNothing
  sweeping : setting.sweeps ∨ record.pending = []
  scanning : setting.scans ∨
    record.onDisk = none ∧ record.diskOrphans = [] ∧ record.dbOrphans = []

theorem owned_idle (setting : Setting) (world : World) :
    Owned setting .idle world := by
  constructor <;> simp [Local.idle, Local.Rests]

/-! ## What another program's call leaves alone -/

/-- The parts of the world that a record speaks about did not get worse. -/
structure Undisturbed
    (setting : Setting) (record : Local) (before after : World) : Prop where
  uuids : before.uuids ≤ after.uuids
  written : ∀ upload, record.upload = some upload →
    after.fs.read (tmpPath upload.name) = before.fs.read (tmpPath upload.name)
  held : ∀ hash, record.held = some hash →
    HasFile before hash → HasFile after hash
  committed : ¬setting.sweeps → setting.sighted →
    ∀ hash, record.committed = some hash →
      before.db.HasBlob hash → HasFile before hash →
        after.db.HasBlob hash ∧ HasFile after hash
  pending : ∀ hash ∈ record.pending,
    after.db.References hash → before.db.References hash
  onDisk : ∀ names, record.onDisk = some names → ∀ hash ∉ names,
    after.db.HasBlob hash → HasFile after hash →
      before.db.HasBlob hash ∧ HasFile before hash
  diskOrphans : ∀ hash ∈ record.diskOrphans,
    after.db.HasBlob hash → before.db.HasBlob hash
  dbOrphans : ∀ hash ∈ record.dbOrphans,
    HasFile after hash → HasFile before hash

theorem Owned.stable
    {setting : Setting} {record : Local} {before after : World}
    (owned : Owned setting record before)
    (undisturbed : Undisturbed setting record before after) :
    Owned setting record after where
  named upload uploading := by
    obtain ⟨number, used, name⟩ := owned.named upload uploading
    exact ⟨number, Nat.lt_of_lt_of_le used undisturbed.uuids, name⟩
  written name content uploading :=
    (undisturbed.written _ uploading).trans
      (owned.written name content uploading)
  held hash holding := undisturbed.held hash holding (owned.held hash holding)
  committed steady sighted hash committing := by
    have known := owned.committed steady sighted hash committing
    exact undisturbed.committed steady sighted hash committing known.1 known.2
  pending hash waiting references :=
    owned.pending hash waiting (undisturbed.pending hash waiting references)
  onDisk sighted names walked hash stored present := by
    by_contra missing
    have known := undisturbed.onDisk names walked hash missing stored present
    exact missing (owned.onDisk sighted names walked hash known.1 known.2)
  diskOrphans hash orphaned stored :=
    owned.diskOrphans hash orphaned
      (undisturbed.diskOrphans hash orphaned stored)
  dbOrphans sighted hash orphaned present :=
    owned.dbOrphans sighted hash orphaned
      (undisturbed.dbOrphans hash orphaned present)
  apart := owned.apart
  sweeping := owned.sweeping
  scanning := owned.scanning

theorem Undisturbed.refl
    (setting : Setting) (record : Local) (world : World) :
    Undisturbed setting record world world := by
  constructor <;> simp_all

/-! ## What the calls do to the blob files -/

section Files

variable {setting : Setting} {record : Local} {call : FsCall}

/-- A permitted system call touches a blob file only to put it in place or to
remove it. -/
theorem touches_blobPath
    {hash : String}
    (permitted : permitsFs setting record call)
    (touches : call.Touches (blobPath hash)) :
    (∃ source, call = .rename source (blobPath hash)) ∨
      call = .removeFile (blobPath hash) := by
  cases call with
  | createFile path =>
      obtain ⟨upload, -, rfl⟩ := permitted
      exact absurd touches (blobPath_ne_tmpPath _ _)
  | appendFile path chunk =>
      obtain ⟨upload, -, rfl⟩ := permitted
      exact absurd touches (blobPath_ne_tmpPath _ _)
  | removeFile path =>
      right
      rw [touches]
  | rename source target =>
      obtain ⟨name, content, -, rfl, rfl⟩ := permitted
      rcases touches with impossible | same
      · exact absurd impossible (blobPath_ne_tmpPath _ _)
      · exact .inl ⟨tmpPath name, by rw [same]⟩
  | flushFile | syncFile | createDirAll | fileExists | openFile | blobsExists
  | walkBlobs | readTmp => cases touches

/-- A permitted system call touches no temporary file but its own. -/
theorem touches_tmpPath
    {name : String}
    (permitted : permitsFs setting record call)
    (touches : call.Touches (tmpPath name)) :
    ∃ upload, record.upload = some upload ∧ upload.name = name := by
  cases call with
  | createFile path =>
      obtain ⟨upload, uploading, rfl⟩ := permitted
      exact ⟨upload, uploading, ((tmpPath_eq_iff _ _).mp touches).symm⟩
  | appendFile path chunk =>
      obtain ⟨upload, uploading, rfl⟩ := permitted
      exact ⟨upload, uploading, ((tmpPath_eq_iff _ _).mp touches).symm⟩
  | removeFile path =>
      rcases permitted with ⟨upload, uploading, rfl⟩ | ⟨hash, rfl, -⟩
      · exact ⟨upload, uploading, ((tmpPath_eq_iff _ _).mp touches).symm⟩
      · exact absurd touches (tmpPath_ne_blobPath _ _)
  | rename source target =>
      obtain ⟨own, content, ⟨uploading, -⟩, rfl, rfl⟩ := permitted
      rcases touches with same | impossible
      · exact ⟨_, uploading, ((tmpPath_eq_iff _ _).mp same).symm⟩
      · exact absurd impossible (tmpPath_ne_blobPath _ _)
  | flushFile | syncFile | createDirAll | fileExists | openFile | blobsExists
  | walkBlobs | readTmp => cases touches

variable {env : Env} {config : Config} {before after : World}
variable {reply : Except CoreError call.Reply} {hash : String}

/-- Only `rename` makes a blob file appear. -/
theorem hasFile_after
    (permitted : permitsFs setting record call)
    (answered : Faulty env config (.fs call) before reply after)
    (present : HasFile after hash) :
    HasFile before hash ∨ ∃ source, call = .rename source (blobPath hash) := by
  by_cases touches : call.Touches (blobPath hash)
  · rcases touches_blobPath permitted touches with placed | rfl
    · exact .inr placed
    · left
      rcases Faulty.fs_cases answered with ⟨-, rfl⟩ | ⟨_, -, rfl | torn⟩
      · by_contra missing
        have same : before.fs.has (blobPath hash) = false := by
          simpa using missing
        simp [HasFile, FsCall.exec, same] at present
      · exact present
      · obtain ⟨_, _, _, impossible, -⟩ := torn
        cases impossible
  · left
    rw [HasFile, Fs.has, ← (Faulty.fs_frame answered).2 _ touches]
    exact present

/-- Only an unlink makes a blob file disappear. -/
theorem hasFile_before
    (permitted : permitsFs setting record call)
    (answered : Faulty env config (.fs call) before reply after)
    (present : HasFile before hash) :
    HasFile after hash ∨ call = .removeFile (blobPath hash) := by
  by_cases touches : call.Touches (blobPath hash)
  · rcases touches_blobPath permitted touches with ⟨source, rfl⟩ | removed
    · left
      rcases Faulty.fs_cases answered with ⟨-, rfl⟩ | ⟨_, -, rfl | torn⟩
      · simp only [HasFile, FsCall.exec]
        split
        · simp [Fs.has]
        · exact present
      · exact present
      · obtain ⟨_, _, _, impossible, -⟩ := torn
        cases impossible
    · exact .inr removed
  · left
    rw [HasFile, Fs.has, (Faulty.fs_frame answered).2 _ touches]
    exact present

end Files

/-! ## A program's own calls -/

section Own

variable {setting : Setting} {record : Local}
variable {config : Config} {before after : World}

theorem Owned.collectsNothing_of_upload
    (owned : Owned setting record before) {upload : Upload}
    (uploading : record.upload = some upload) : record.CollectsNothing := by
  refine owned.apart.resolve_left fun rests => ?_
  rw [rests.1] at uploading
  cases uploading

theorem Owned.collectsNothing_of_held
    (owned : Owned setting record before) {hash : String}
    (holding : record.held = some hash) : record.CollectsNothing := by
  refine owned.apart.resolve_left fun rests => ?_
  rw [rests.2] at holding
  cases holding

/-- A step of an upload that leaves the blob files and the database alone. -/
theorem Owned.reupload
    (owned : Owned setting record before) (after : World)
    (sameDb : after.db = before.db)
    (sameFiles : ∀ hash, HasFile after hash ↔ HasFile before hash)
    (collectsNothing : record.CollectsNothing)
    {upload : Option Upload} {held : Option String}
    (named : ∀ other, upload = some other →
      ∃ number < after.uuids, other.name = setting.env.uuid number)
    (written : ∀ name content, upload = some ⟨name, some content⟩ →
      after.fs.read (tmpPath name) = some content)
    (holds : ∀ hash, held = some hash → HasFile before hash) :
    Owned setting { record with upload := upload, held := held } after where
  named := named
  written := written
  held hash holding := (sameFiles hash).mpr (holds hash holding)
  committed steady sighted hash committing := by
    rw [sameDb, sameFiles]
    exact owned.committed steady sighted hash committing
  pending := by
    rw [sameDb]
    exact owned.pending
  onDisk := by
    simp only [sameDb, sameFiles]
    exact owned.onDisk
  diskOrphans := by
    rw [sameDb]
    exact owned.diskOrphans
  dbOrphans := by
    simp only [sameFiles]
    exact owned.dbOrphans
  apart := .inr ⟨collectsNothing.1, collectsNothing.2, collectsNothing.3,
    collectsNothing.4⟩
  sweeping := owned.sweeping
  scanning := owned.scanning

/-- Writing a temporary file leaves the blob files as they are. -/
theorem hasFile_write
    (world : World) (name hash : String) (content : Bytes) :
    HasFile { world with fs := world.fs.write (tmpPath name) content } hash ↔
      HasFile world hash := by
  simp only [HasFile, Fs.has]
  rw [Fs.read_write_of_ne _ _ (blobPath_ne_tmpPath hash name)]

theorem own_createFile
    {path : FilePath} {reply : Except CoreError Unit}
    (owned : Owned setting record before)
    (permitted : permitsFs setting record (.createFile path))
    (answered : Faulty setting.env config (.fs (.createFile path)) before
      reply after) :
    Owned setting (advanceFs setting.env record (.createFile path) reply)
      after := by
  obtain ⟨upload, uploading, rfl⟩ := permitted
  have collects := owned.collectsNothing_of_upload uploading
  have name := owned.named upload uploading
  rcases Faulty.fs_cases answered with ⟨rfl, rfl⟩ | ⟨_, rfl, rfl | torn⟩
  · refine owned.reupload _ ?_ (fun hash => hasFile_write before _ _ [])
      collects ?_ ?_ owned.held
    · rfl
    · rintro other equal
      simp only [uploading, Option.map_some, Option.some.injEq] at equal
      subst equal
      exact name
    · rintro other content equal
      simp only [uploading, Option.map_some, Option.some.injEq,
        Upload.mk.injEq] at equal
      obtain ⟨rfl, rfl⟩ := equal
      exact Fs.read_write_self _ _ _
  · refine owned.reupload _ rfl (fun hash => Iff.rfl) collects ?_ ?_ owned.held
    · rintro other equal
      simp only [uploading, Option.map_some, Option.some.injEq] at equal
      subst equal
      exact name
    · rintro other content equal
      simp [uploading] at equal
  · obtain ⟨_, _, _, impossible, -⟩ := torn
    cases impossible

theorem own_appendFile
    {path : FilePath} {chunk : Bytes} {reply : Except CoreError Unit}
    (owned : Owned setting record before)
    (permitted : permitsFs setting record (.appendFile path chunk))
    (answered : Faulty setting.env config (.fs (.appendFile path chunk))
      before reply after) :
    Owned setting
      (advanceFs setting.env record (.appendFile path chunk) reply)
      after := by
  have frame := Faulty.fs_frame answered
  obtain ⟨upload, uploading, rfl⟩ := permitted
  have collects := owned.collectsNothing_of_upload uploading
  have name := owned.named upload uploading
  have sameUuids : after.uuids = before.uuids := by rw [frame.1]
  have sameFiles (hash : String) :
      HasFile after hash ↔ HasFile before hash := by
    rw [HasFile, HasFile, Fs.has, Fs.has, frame.2 _ (blobPath_ne_tmpPath _ _)]
  rcases Faulty.fs_cases answered with ⟨rfl, effect⟩ | ⟨_, rfl, -⟩
  · have succeeds : (FsCall.exec setting.env
        (.appendFile (tmpPath upload.name) chunk) before.fs).1 = .ok () := by
      simp only [FsCall.exec]
      split <;> rfl
    rw [succeeds]
    refine owned.reupload _ (by rw [frame.1]) sameFiles collects ?_ ?_
      owned.held
    · rintro other equal
      simp only [uploading, Option.map_some, Option.some.injEq] at equal
      subst equal
      rw [sameUuids]
      exact name
    · rintro other content equal
      simp only [uploading, Option.map_some, Option.some.injEq,
        Upload.mk.injEq, Option.map_eq_some_iff] at equal
      obtain ⟨rfl, old, oldContent, rfl⟩ := equal
      have present := owned.written upload.name old
        (by rw [uploading, ← oldContent])
      rw [effect]
      simp only [FsCall.exec, present]
      exact Fs.read_write_self _ _ _
  · refine owned.reupload _ (by rw [frame.1]) sameFiles collects ?_ ?_
      owned.held
    · rintro other equal
      simp only [uploading, Option.map_some, Option.some.injEq] at equal
      subst equal
      rw [sameUuids]
      exact name
    · rintro other content equal
      simp [uploading] at equal

theorem own_fileExists
    {path : FilePath} {reply : Except CoreError Bool}
    (owned : Owned setting record before)
    (permitted : permitsFs setting record (.fileExists path))
    (answered : Faulty setting.env config (.fs (.fileExists path)) before
      reply after) :
    Owned setting (advanceFs setting.env record (.fileExists path) reply)
      after := by
  obtain ⟨name, content, ⟨uploading, -⟩, rfl⟩ := permitted
  have collects := owned.collectsNothing_of_upload uploading
  rcases Faulty.fs_cases answered with ⟨rfl, rfl⟩ | ⟨_, rfl, rfl | torn⟩
  · simp only [FsCall.exec]
    cases present : before.fs.has (blobPath (setting.env.sha256 content)) with
    | false => exact owned
    | true =>
        refine owned.reupload _ rfl (fun hash => Iff.rfl) collects
          owned.named owned.written fun hash holding => ?_
        simp only [Local.digest, uploading, Option.bind_some, Option.map_some,
          Option.some.injEq] at holding
        rw [← holding]
        exact present
  · exact owned
  · obtain ⟨_, _, _, impossible, -⟩ := torn
    cases impossible

theorem own_rename
    {source target : FilePath} {reply : Except CoreError Unit}
    (owned : Owned setting record before)
    (permitted : permitsFs setting record (.rename source target))
    (answered : Faulty setting.env config (.fs (.rename source target)) before
      reply after) :
    Owned setting (advanceFs setting.env record (.rename source target) reply)
      after := by
  have kept {hash : String} (present : HasFile before hash) :=
    hasFile_before permitted answered present
  obtain ⟨name, content, ⟨uploading, -⟩, rfl, rfl⟩ := permitted
  have collects := owned.collectsNothing_of_upload uploading
  have present := owned.written name content uploading
  rcases Faulty.fs_cases answered with ⟨rfl, effect⟩ | ⟨_, rfl, rfl | torn⟩
  · simp only [FsCall.exec, present] at effect ⊢
    have stays (hash : String) (had : HasFile before hash) :
        HasFile after hash :=
      (kept had).resolve_right fun impossible => by cases impossible
    subst effect
    constructor
    · rintro upload ⟨⟩
    · rintro name content ⟨⟩
    · intro hash holding
      simp only [advanceFs, Local.digest, uploading, Option.bind_some,
        Option.map_some, Option.some.injEq] at holding
      simp [HasFile, Fs.has, ← holding]
    · intro steady sighted hash committing
      have known := owned.committed steady sighted hash committing
      exact ⟨known.1, stays hash known.2⟩
    · exact owned.pending
    · intro _ names walked
      exact absurd (collects.onDisk.symm.trans walked) (by simp)
    · exact owned.diskOrphans
    · intro _ hash orphaned
      exact absurd (collects.dbOrphans ▸ orphaned) List.not_mem_nil
    · exact .inr ⟨collects.1, collects.2, collects.3, collects.4⟩
    · exact owned.sweeping
    · exact owned.scanning
  · exact owned
  · obtain ⟨_, _, _, impossible, -⟩ := torn
    cases impossible

theorem own_removeFile
    {path : FilePath} {reply : Except CoreError Unit}
    (owned : Owned setting record before)
    (permitted : permitsFs setting record (.removeFile path))
    (answered : Faulty setting.env config (.fs (.removeFile path)) before
      reply after) :
    Owned setting (advanceFs setting.env record (.removeFile path) reply)
      after := by
  have frame := Faulty.fs_frame answered
  have appears {hash : String} (present : HasFile after hash) :
      HasFile before hash :=
    (hasFile_after permitted answered present).resolve_right
      fun ⟨_, impossible⟩ => by cases impossible
  have sameDb : after.db = before.db := by rw [frame.1]
  have sameUuids : after.uuids = before.uuids := by rw [frame.1]
  -- a blob file is only removed by a program that collects
  have removes {hash : String} (same : FsCall.removeFile path =
      .removeFile (blobPath hash)) :
      hash ∈ record.pending ∨ hash ∈ record.diskOrphans := by
    injection same with same
    rcases permitted with ⟨upload, -, rfl⟩ | ⟨other, rfl, known⟩
    · exact absurd same (tmpPath_ne_blobPath _ _)
    · rw [blobPath_eq_iff] at same
      exact same ▸ known
  have kept {hash : String} (present : HasFile before hash)
      (unclaimed : ¬(hash ∈ record.pending ∨ hash ∈ record.diskOrphans)) :
      HasFile after hash :=
    (hasFile_before permitted answered present).resolve_right
      fun same => unclaimed (removes same)
  have uploading {upload : Upload}
      (filtered : (record.upload.filter fun upload =>
        decide (tmpPath upload.name ≠ path)) = some upload) :
      record.upload = some upload ∧ tmpPath upload.name ≠ path := by
    simpa [Option.filter_eq_some_iff] using filtered
  constructor
  · intro upload filtered
    rw [sameUuids]
    exact owned.named upload (uploading filtered).1
  · intro name content filtered
    have known := uploading filtered
    rw [frame.2 _ known.2]
    exact owned.written name content known.1
  · intro hash holding
    have collects := owned.collectsNothing_of_held holding
    refine kept (owned.held hash holding) ?_
    simp [collects.pending, collects.diskOrphans]
  · intro steady sighted hash committing
    have known := owned.committed steady sighted hash committing
    rw [sameDb]
    refine ⟨known.1, kept known.2 ?_⟩
    rintro (waiting | orphaned)
    · rw [owned.sweeping.resolve_left steady] at waiting
      cases waiting
    · exact owned.diskOrphans hash orphaned known.1
  · intro hash waiting
    rw [sameDb]
    exact owned.pending hash waiting
  · intro sighted names walked hash stored present
    rw [sameDb] at stored
    exact owned.onDisk sighted names walked hash stored (appears present)
  · intro hash orphaned
    rw [sameDb]
    exact owned.diskOrphans hash (List.mem_of_mem_erase orphaned)
  · intro sighted hash orphaned present
    exact owned.dbOrphans sighted hash orphaned (appears present)
  · rcases owned.apart with rests | collects
    · refine .inl ⟨?_, rests.2⟩
      simp [advanceFs, rests.1]
    · refine .inr ⟨collects.pending, collects.onDisk, ?_, collects.dbOrphans⟩
      simp [advanceFs, collects.diskOrphans]
  · exact owned.sweeping
  · refine owned.scanning.imp_right fun idle => ⟨idle.1, ?_, idle.2.2⟩
    simp [advanceFs, idle.2.1]

theorem own_walkBlobs
    {reply : Except CoreError (List String)}
    (owned : Owned setting record before)
    (digested : setting.scans → Digested before.db)
    (permitted : permitsFs setting record .walkBlobs)
    (answered : Faulty setting.env config (.fs .walkBlobs) before reply
      after) :
    Owned setting (advanceFs setting.env record .walkBlobs reply) after := by
  obtain ⟨scans, rests⟩ := permitted
  rcases Faulty.fs_cases answered with ⟨rfl, rfl⟩ | ⟨_, rfl, rfl | torn⟩
  · refine
      { owned with
        onDisk := ?_
        apart := .inl rests
        scanning := .inl scans }
    rintro - names ⟨⟩ hash stored present
    exact FsCall.mem_walk setting.env present (digested scans hash stored)
  · exact owned
  · obtain ⟨_, _, _, impossible, -⟩ := torn
    cases impossible

/-- A scan that does not find the directory overlooks no file of a row. -/
def Sees (world : World) :
    (request : Call) → Except CoreError request.Reply → Prop
  | .fs .blobsExists, .ok true => True
  | .fs .blobsExists, _ => ∀ hash, world.db.HasBlob hash → ¬HasFile world hash
  | _, _ => True

theorem own_blobsExists
    {reply : Except CoreError Bool}
    (owned : Owned setting record before)
    (sees : setting.scans → setting.sighted →
      Sees before (.fs .blobsExists) reply)
    (permitted : permitsFs setting record .blobsExists)
    (answered : Faulty setting.env config (.fs .blobsExists) before reply
      after) :
    Owned setting (advanceFs setting.env record .blobsExists reply) after := by
  obtain ⟨scans, rests⟩ := permitted
  rcases Faulty.fs_cases answered with ⟨rfl, rfl⟩ | ⟨_, rfl, rfl | torn⟩
  · exact owned
  · refine
      { owned with
        onDisk := ?_
        apart := .inl rests
        scanning := .inl scans }
    rintro sighted names ⟨⟩ hash stored present
    exact absurd present (sees scans sighted hash stored)
  · obtain ⟨_, _, _, impossible, -⟩ := torn
    cases impossible

/-- A permitted system call keeps the ownership of its own record. -/
theorem own_fs
    {call : FsCall} {reply : Except CoreError call.Reply}
    (owned : Owned setting record before)
    (digested : setting.scans → Digested before.db)
    (sees : setting.scans → setting.sighted → Sees before (.fs call) reply)
    (permitted : permitsFs setting record call)
    (answered : Faulty setting.env config (.fs call) before reply after) :
    Owned setting (advanceFs setting.env record call reply) after := by
  cases call with
  | createFile path => exact own_createFile owned permitted answered
  | appendFile path chunk => exact own_appendFile owned permitted answered
  | fileExists path => exact own_fileExists owned permitted answered
  | rename source target => exact own_rename owned permitted answered
  | removeFile path => exact own_removeFile owned permitted answered
  | blobsExists => exact own_blobsExists owned sees permitted answered
  | walkBlobs => exact own_walkBlobs owned digested permitted answered
  | flushFile path | syncFile path | createDirAll path | openFile path
  | readTmp =>
      have frame := Faulty.fs_frame answered
      have sameFs : after.fs = before.fs := by
        rcases Faulty.fs_cases answered with ⟨-, rfl⟩ | ⟨_, -, rfl | torn⟩
        · first
          | rfl
          | simp only [FsCall.exec]
            split <;> rfl
        · rfl
        · obtain ⟨_, _, _, impossible, -⟩ := torn
          cases impossible
      have same : after = before := by rw [frame.1, sameFs]
      rw [same]
      exact owned

/-! ### Transactions -/

/-- A transaction whose record stays as it is. -/
theorem own_of_rows
    {call : DbCall} {value : call.Reply} {db : Db}
    (owned : Owned setting record before)
    (ran : call.exec setting.env before.now before.db = .ok (value, db))
    (adds : call.stores = none) (drops : call.drops = none) :
    Owned setting record { before with db := db } := by
  have rows (hash : String) := DbCall.exec_rows ran hash
  have stored {hash : String} (after : db.HasBlob hash) :
      before.db.HasBlob hash :=
    ((rows hash).1 after).resolve_right (by simp [adds])
  refine owned.stable ⟨Nat.le_refl _, fun _ _ => rfl, fun _ _ => id, ?_, ?_,
    ?_, fun _ _ => stored, fun _ _ => id⟩
  · intro _ _ hash _ had present
    exact ⟨((rows hash).2.1 had).resolve_right (by simp [drops]), present⟩
  · intro hash _ references
    exact ((rows hash).2.2.1 references).resolve_right (by simp [adds])
  · intro _ _ hash _ after present
    exact ⟨stored after, present⟩

theorem own_entriesUpsert
    {projectId size : Int} {kind : Kind} {path hash : String}
    {reply : Except CoreError Entry}
    (owned : Owned setting record before)
    (permitted : permitsDb setting record
      (.entriesUpsert projectId kind path hash size))
    (answered : Faulty setting.env config
      (.db (.entriesUpsert projectId kind path hash size)) before reply
      after) :
    Owned setting
      (advanceDb setting.env record
        (.entriesUpsert projectId kind path hash size) reply)
      after := by
  obtain ⟨holding, -⟩ := permitted
  have collects := owned.collectsNothing_of_held holding
  have present := owned.held hash holding
  rcases Faulty.db_cases answered with ⟨entry, db, ran, rfl, rfl⟩ | ⟨_, rfl, rfl⟩
  · have stored := (DbCall.exec_rows ran hash).2.2.2 rfl
    constructor
    · exact owned.named
    · exact owned.written
    · rintro other ⟨⟩
    · intro _ _ other committing
      have same : some hash = some other := holding.symm.trans committing
      rw [Option.some.injEq] at same
      subst same
      exact ⟨stored, present⟩
    · intro other waiting
      exact absurd (collects.pending ▸ waiting) List.not_mem_nil
    · intro _ names walked
      exact absurd (collects.onDisk.symm.trans walked) (by simp)
    · intro other orphaned
      exact absurd (collects.diskOrphans ▸ orphaned) List.not_mem_nil
    · exact owned.dbOrphans
    · exact .inr ⟨collects.1, collects.2, collects.3, collects.4⟩
    · exact owned.sweeping
    · exact owned.scanning
  · exact
      { owned with
        held := by rintro other ⟨⟩
        apart := .inr ⟨collects.1, collects.2, collects.3, collects.4⟩ }

theorem own_blobsZeroRefcount
    {limit : Nat} {reply : Except CoreError (List String)}
    (owned : Owned setting record before)
    (covered : setting.sweeps → before.db.Covered)
    (permitted : permitsDb setting record (.blobsZeroRefcount limit))
    (answered : Faulty setting.env config
      (.db (.blobsZeroRefcount limit)) before reply after) :
    Owned setting
      (advanceDb setting.env record (.blobsZeroRefcount limit) reply)
      after := by
  obtain ⟨sweeps, rests⟩ := permitted
  rcases Faulty.db_cases answered with ⟨batch, db, ran, rfl, rfl⟩ | ⟨_, rfl, rfl⟩
  · cases ran
    refine
      { owned with
        pending := ?_
        apart := .inl rests
        sweeping := .inl sweeps }
    intro hash listed
    have dead := Blobs.mem_zeroRefcount
      (fun blobs blob => (setting.env.mem_scan blobs blob).mp) listed
    exact (covered sweeps).unreferenced dead.2.le
  · refine
      { owned with
        pending := ?_
        apart := .inl rests
        sweeping := .inl sweeps }
    rintro hash ⟨⟩

theorem own_blobsDelete
    {hash : String} {reply : Except CoreError Unit}
    (owned : Owned setting record before)
    (permitted : permitsDb setting record (.blobsDelete hash))
    (answered : Faulty setting.env config (.db (.blobsDelete hash)) before
      reply after) :
    Owned setting (advanceDb setting.env record (.blobsDelete hash) reply)
      after := by
  have apart (pending : List String) (smaller : pending ⊆ record.pending) :
      ({ record with pending := pending } : Local).Rests ∨
        ({ record with pending := pending } : Local).CollectsNothing := by
    refine owned.apart.imp id fun collects => ?_
    rw [collects.pending, List.subset_nil] at smaller
    exact ⟨smaller, collects.2, collects.3, collects.4⟩
  have sweeps : setting.sweeps := by
    refine owned.sweeping.resolve_right fun idle => ?_
    have known : hash ∈ record.pending := permitted
    rw [idle] at known
    cases known
  rcases Faulty.db_cases answered with ⟨_, db, ran, rfl, rfl⟩ | ⟨_, rfl, rfl⟩
  · have rows (other : String) := DbCall.exec_rows ran other
    have stored {other : String} (had : db.HasBlob other) :
        before.db.HasBlob other :=
      ((rows other).1 had).resolve_right (by simp [DbCall.stores])
    constructor
    · exact owned.named
    · exact owned.written
    · exact owned.held
    · exact fun steady => absurd sweeps steady
    · intro other waiting references
      refine owned.pending other (List.mem_of_mem_erase waiting) ?_
      exact ((rows other).2.2.1 references).resolve_right
        (by simp [DbCall.stores])
    · intro sighted names walked other had present
      exact owned.onDisk sighted names walked other (stored had) present
    · intro other orphaned had
      exact owned.diskOrphans other orphaned (stored had)
    · exact owned.dbOrphans
    · exact apart _ List.erase_subset
    · exact .inl sweeps
    · exact owned.scanning
  · exact
      { owned with
        pending := by rintro other ⟨⟩
        apart := apart [] (List.nil_subset _)
        sweeping := .inl sweeps }

theorem mem_difference
    {env : Env} {first second : List String} {hash : String} :
    hash ∈ GcSvc.difference env first second ↔
      hash ∈ first ∧ hash ∉ second := by
  simp [GcSvc.difference]

theorem own_blobsHashes
    {reply : Except CoreError (List String)}
    (owned : Owned setting record before)
    (permitted : permitsDb setting record .blobsHashes)
    (answered : Faulty setting.env config (.db .blobsHashes) before reply
      after) :
    Owned setting (advanceDb setting.env record .blobsHashes reply)
      after := by
  obtain ⟨names, walked⟩ := Option.isSome_iff_exists.mp permitted
  have rests : record.Rests := by
    refine owned.apart.resolve_right fun collects => ?_
    rw [collects.onDisk] at walked
    cases walked
  have scans : setting.scans := by
    refine owned.scanning.resolve_right fun idle => ?_
    rw [idle.1] at walked
    cases walked
  rcases Faulty.db_cases answered with ⟨hashes, db, ran, rfl, rfl⟩ | ⟨_, rfl, rfl⟩
  · cases ran
    have listed (hash : String) :
        hash ∈ setting.env.scan (before.db.blobs.rows.map Blob.hash) ↔
          before.db.HasBlob hash := by
      simp [Db.HasBlob]
    refine
      { owned with
        onDisk := ?_
        diskOrphans := ?_
        dbOrphans := ?_
        apart := .inl rests
        scanning := .inl scans }
    · rintro - names ⟨⟩
    · intro hash orphaned stored
      rw [advanceDb, walked, mem_difference, listed] at orphaned
      exact orphaned.2 stored
    · intro sighted hash orphaned present
      rw [advanceDb, walked, mem_difference, listed] at orphaned
      exact orphaned.2
        (owned.onDisk sighted names walked hash orphaned.1 present)
  · refine
      { owned with
        onDisk := ?_
        apart := .inl rests
        scanning := .inl scans }
    rintro - names ⟨⟩

theorem own_purge
    {hash : String} {reply : Except CoreError Unit}
    (owned : Owned setting record before)
    (permitted : permitsDb setting record (.purge hash))
    (answered : Faulty setting.env config (.db (.purge hash)) before reply
      after) :
    Owned setting (advanceDb setting.env record (.purge hash) reply)
      after := by
  have missing (sighted : setting.sighted) : ¬HasFile before hash :=
    owned.dbOrphans sighted hash permitted
  have apart (orphans : List String) (smaller : orphans ⊆ record.dbOrphans) :
      ({ record with dbOrphans := orphans } : Local).Rests ∨
        ({ record with dbOrphans := orphans } : Local).CollectsNothing := by
    refine owned.apart.imp id fun collects => ?_
    rw [collects.dbOrphans, List.subset_nil] at smaller
    exact ⟨collects.1, collects.2, collects.3, smaller⟩
  have scans : setting.scans := by
    refine owned.scanning.resolve_right fun idle => ?_
    have known : hash ∈ record.dbOrphans := permitted
    rw [idle.2.2] at known
    cases known
  rcases Faulty.db_cases answered with ⟨_, db, ran, rfl, rfl⟩ | ⟨_, rfl, rfl⟩
  · have rows (other : String) := DbCall.exec_rows ran other
    have stored {other : String} (had : db.HasBlob other) :
        before.db.HasBlob other :=
      ((rows other).1 had).resolve_right (by simp [DbCall.stores])
    constructor
    · exact owned.named
    · exact owned.written
    · exact owned.held
    · intro steady sighted other committing
      have known := owned.committed steady sighted other committing
      refine ⟨((rows other).2.1 known.1).resolve_right fun same => ?_, known.2⟩
      simp only [DbCall.drops, Option.some.injEq] at same
      exact missing sighted (same ▸ known.2)
    · intro other waiting references
      refine owned.pending other waiting ?_
      exact ((rows other).2.2.1 references).resolve_right
        (by simp [DbCall.stores])
    · intro sighted names walked other had present
      exact owned.onDisk sighted names walked other (stored had) present
    · intro other orphaned had
      exact owned.diskOrphans other orphaned (stored had)
    · intro sighted other orphaned
      exact owned.dbOrphans sighted other (List.mem_of_mem_erase orphaned)
    · exact apart _ List.erase_subset
    · exact owned.sweeping
    · exact .inl scans
  · exact
      { owned with
        dbOrphans := by rintro - other ⟨⟩
        apart := apart [] (List.nil_subset _)
        scanning := .inl scans }

/-- A permitted transaction keeps the ownership of its own record. -/
theorem own_db
    {call : DbCall} {reply : Except CoreError call.Reply}
    (owned : Owned setting record before)
    (covered : setting.sweeps → before.db.Covered)
    (permitted : permitsDb setting record call)
    (answered : Faulty setting.env config (.db call) before reply after) :
    Owned setting (advanceDb setting.env record call reply) after := by
  cases call with
  | entriesUpsert projectId kind path hash size =>
      exact own_entriesUpsert owned permitted answered
  | blobsZeroRefcount limit =>
      exact own_blobsZeroRefcount owned covered permitted answered
  | blobsDelete hash => exact own_blobsDelete owned permitted answered
  | blobsHashes => exact own_blobsHashes owned permitted answered
  | purge hash => exact own_purge owned permitted answered
  | _ =>
      rcases Faulty.db_cases answered with
        ⟨_, db, ran, rfl, rfl⟩ | ⟨_, rfl, rfl⟩
      · exact own_of_rows owned ran rfl rfl
      · exact owned

/-- A permitted call keeps the ownership of its own record. -/
theorem own_step
    {request : Call} {reply : Except CoreError request.Reply}
    (owned : Owned setting record before)
    (covered : setting.sweeps → before.db.Covered)
    (digested : setting.scans → Digested before.db)
    (sees : setting.scans → setting.sighted → Sees before request reply)
    (permitted : permits setting record request)
    (answered : Faulty setting.env config request before reply after) :
    Owned setting (advance setting.env record request reply) after := by
  cases request with
  | fs call => exact own_fs owned digested sees permitted answered
  | db call => exact own_db owned covered permitted answered
  | newUuid =>
      cases answered with
      | exact answered =>
          cases answered
          have idle := owned_idle setting
            { before with uuids := before.uuids + 1 }
          refine
            { idle with
              named := ?_
              written := ?_
              apart := .inr ⟨rfl, rfl, rfl, rfl⟩ }
          · rintro upload ⟨⟩
            exact ⟨before.uuids, Nat.lt_succ_self _, rfl⟩
          · rintro name content ⟨⟩
  | now | gcLock | gcUnlock | spawn | projectCacheGet | projectCacheInsert
  | projectCacheEvict | adminCacheGet | adminCacheInsert | adminCacheEvict
  | tick =>
      cases answered with
      | exact answered =>
          simp only [exec] at answered
          first
          | cases answered
          | split at answered <;> cases answered
          all_goals
            exact owned.stable
              { Undisturbed.refl setting record before with }

end Own

end Custody

end Marmotte
