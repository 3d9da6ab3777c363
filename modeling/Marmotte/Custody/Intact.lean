import Marmotte.Custody.Ownership

/-!
# The store invariant

In an intact world every entry has its blob file, every file below the storage
root is a temporary file or sits at the path of its own digest, the stored
counts cover the entries, and stored sizes are those of the contents.  Every
permitted call of a program that owns its record keeps a world intact.
-/

namespace Marmotte

open Effects Tables

namespace Custody

/-- Some known body has this digest and this size. -/
def Describes
    (setting : Setting) (hash : String) (size : Int) : Prop :=
  ∃ content ∈ setting.bodies,
    setting.env.sha256 content = hash ∧ size = content.length

/-- The part of the store invariant that is about the database. -/
structure Tallied (setting : Setting) (db : Db) : Prop where
  covered : db.Covered
  blobs : ∀ hash size, db.storedSize hash = some size →
    Describes setting hash size
  entries : ∀ entry ∈ db.entries.rows,
    Describes setting entry.blobHash entry.sizeBytes

/-- The store invariant. -/
structure Intact (setting : Setting) (world : World) : Prop
    extends Tallied setting world.db where
  exact : ¬setting.cascades → world.db.Exact
  addressed : ∀ path content, world.fs.read path = some content →
    (∃ name, path = tmpPath name) ∨
      path = blobPath (setting.env.sha256 content) ∧
        content ∈ setting.bodies
  kept : ∀ entry ∈ world.db.entries.rows, HasFile world entry.blobHash

theorem exact_empty : Db.empty.Exact := fun _ => rfl

theorem tallied_empty (setting : Setting) : Tallied setting .empty where
  covered := exact_empty.covered
  blobs := by rintro hash size ⟨⟩
  entries := by rintro entry ⟨⟩

theorem intact_initial (setting : Setting) (now : Int) :
    Intact setting (.initial now) :=
  { tallied_empty setting with
    exact := fun _ => exact_empty
    addressed := by rintro path content ⟨⟩
    kept := by rintro entry ⟨⟩ }

namespace Intact

variable {setting : Setting} {world : World}

theorem digested (intact : Intact setting world) : Digested world.db := by
  intro hash stored
  obtain ⟨size, sized⟩ := Db.hasBlob_iff_storedSize.mp stored
  obtain ⟨content, -, rfl, -⟩ := intact.blobs hash size sized
  exact setting.env.sha256_hex content

/-- A blob file holds a known body with the digest it is named after. -/
theorem content
    (intact : Intact setting world) {hash : String} {content : Bytes}
    (present : world.fs.read (blobPath hash) = some content) :
    setting.env.sha256 content = hash ∧ content ∈ setting.bodies := by
  rcases intact.addressed _ _ present with ⟨name, impossible⟩ | ⟨same, known⟩
  · exact absurd impossible (blobPath_ne_tmpPath _ _)
  · exact ⟨((blobPath_eq_iff _ _).mp same).symm, known⟩

/-- The database, the files and the clock are all that matters. -/
theorem of_same
    {other : World} (intact : Intact setting world)
    (sameDb : other.db = world.db) (sameFs : other.fs = world.fs) :
    Intact setting other := by
  refine ⟨?_, ?_, ?_, ?_⟩
  · rw [sameDb]
    exact intact.toTallied
  · rw [sameDb]
    exact intact.exact
  · rw [sameFs]
    exact intact.addressed
  · simp only [HasFile, sameDb, sameFs]
    exact intact.kept

end Intact

/-! ## Steps -/

section Steps

variable {setting : Setting} {record : Local}
variable {config : Config} {before after : World}

/-- The file is a temporary one, or a known body at the path of its digest. -/
def Placed (setting : Setting) (path : FilePath) (content : Bytes) : Prop :=
  (∃ name, path = tmpPath name) ∨
    path = blobPath (setting.env.sha256 content) ∧ content ∈ setting.bodies

/-- Where the files are after a permitted system call. -/
theorem placed_fs
    {call : FsCall} {reply : Except CoreError call.Reply}
    (addressed : ∀ path content, before.fs.read path = some content →
      Placed setting path content)
    (written : ∀ name content, record.upload = some ⟨name, some content⟩ →
      before.fs.read (tmpPath name) = some content)
    (permitted : permitsFs setting record call)
    (answered : Faulty setting.env config (.fs call) before reply after)
    {path : FilePath} {content : Bytes}
    (present : after.fs.read path = some content) :
    Placed setting path content := by
  by_cases touches : call.Touches path
  · cases call with
    | createFile other =>
        obtain ⟨upload, -, rfl⟩ := permitted
        exact .inl ⟨_, touches⟩
    | appendFile other chunk =>
        obtain ⟨upload, -, rfl⟩ := permitted
        exact .inl ⟨_, touches⟩
    | removeFile other =>
        rcases Faulty.fs_cases answered with ⟨-, rfl⟩ | ⟨_, -, rfl | torn⟩
        · simp only [FsCall.exec] at present
          split at present
          · rw [touches, Fs.read_unlink_self] at present
            cases present
          · exact addressed path content present
        · exact addressed path content present
        · obtain ⟨_, _, _, impossible, -⟩ := torn
          cases impossible
    | rename source target =>
        obtain ⟨name, body, ⟨uploading, known⟩, rfl, rfl⟩ := permitted
        have source := written name body uploading
        rcases touches with rfl | rfl
        · exact .inl ⟨name, rfl⟩
        · rcases Faulty.fs_cases answered with ⟨-, rfl⟩ | ⟨_, -, rfl | torn⟩
          · simp only [FsCall.exec, source, Fs.read_write_self,
              Option.some.injEq] at present
            exact .inr ⟨by rw [present], present ▸ known⟩
          · exact addressed _ content present
          · obtain ⟨_, _, _, impossible, -⟩ := torn
            cases impossible
    | _ => cases touches
  · rw [(Faulty.fs_frame answered).2 path touches] at present
    exact addressed path content present

theorem intact_fs
    {call : FsCall} {reply : Except CoreError call.Reply}
    (intact : Intact setting before)
    (owned : Owned setting record before)
    (permitted : permitsFs setting record call)
    (answered : Faulty setting.env config (.fs call) before reply after) :
    Intact setting after := by
  have sameDb : after.db = before.db := by
    rw [(Faulty.fs_frame answered).1]
  refine
    { covered := sameDb ▸ intact.covered
      exact := sameDb ▸ intact.exact
      addressed := fun path content =>
        placed_fs intact.addressed owned.written permitted answered
      kept := ?_
      blobs := sameDb ▸ intact.blobs
      entries := sameDb ▸ intact.entries }
  intro entry present
  rw [sameDb] at present
  refine (hasFile_before permitted answered (intact.kept entry present)
    ).resolve_right ?_
  rintro rfl
  have references : before.db.References entry.blobHash :=
    ⟨entry, present, rfl⟩
  rcases permitted with ⟨upload, -, impossible⟩ | ⟨hash, same, known⟩
  · exact blobPath_ne_tmpPath _ _ impossible
  · rw [blobPath_eq_iff] at same
    subst same
    rcases known with waiting | orphaned
    · exact owned.pending _ waiting references
    · exact owned.diskOrphans _ orphaned references.hasBlob

/-- A transaction keeps the tallies, whoever runs it, if an upsert states the
digest and the length of a known body. -/
theorem tallied_db
    {env : Env} {now : Int} {call : DbCall} {db after : Db}
    {value : call.Reply}
    (tallied : Tallied setting db)
    (known : ∀ projectId kind path hash size,
      call = .entriesUpsert projectId kind path hash size →
        Describes setting hash size)
    (ran : call.exec env now db = .ok (value, after)) :
    Tallied setting after := by
  constructor
  · intro hash
    have covered := tallied.covered hash
    rcases DbCall.exec_surplus ran hash with same | zero | ⟨id, -, more⟩
    · exact same ▸ covered
    · exact zero.ge
    · rw [more]
      omega
  · intro hash size sized
    rcases DbCall.exec_storedSize ran sized with
      old | ⟨projectId, kind, path, same⟩
    · exact tallied.blobs hash size old
    · exact known _ _ _ _ _ same
  · intro entry present
    rcases DbCall.exec_entries ran present with
      ⟨old, oldPresent, same⟩ | ⟨projectId, kind, path, same, -⟩
    · have described := tallied.entries old oldPresent
      rw [same.hash, same.size] at described
      exact described
    · exact known _ _ _ _ _ same

/-- What a permitted upsert states. -/
theorem describes_of_permitted
    {call : DbCall} (permitted : permitsDb setting record call) :
    ∀ projectId kind path hash size,
      call = .entriesUpsert projectId kind path hash size →
        Describes setting hash size := by
  rintro projectId kind path hash size rfl
  exact permitted.2

theorem intact_db
    {call : DbCall} {reply : Except CoreError call.Reply}
    (intact : Intact setting before)
    (owned : Owned setting record before)
    (permitted : permitsDb setting record call)
    (answered : Faulty setting.env config (.db call) before reply after) :
    Intact setting after := by
  rcases Faulty.db_cases answered with ⟨value, db, ran, -, rfl⟩ | ⟨_, -, rfl⟩
  swap
  · exact intact
  constructor
  · exact tallied_db intact.toTallied (describes_of_permitted permitted) ran
  · intro noCascade hash
    have exact := intact.exact noCascade hash
    rcases DbCall.exec_surplus ran hash with same | zero | ⟨id, rfl, _⟩
    · exact same.trans exact
    · exact zero
    · exact absurd permitted noCascade
  · exact intact.addressed
  · intro entry present
    rcases DbCall.exec_entries ran present with
      ⟨old, oldPresent, same⟩ | ⟨projectId, kind, path, rfl, -⟩
    · have file := intact.kept old oldPresent
      rw [same.hash] at file
      exact file
    · exact owned.held _ permitted.1

/-- A permitted call of a program that owns its record keeps the world
intact. -/
theorem intact_step
    {request : Call} {reply : Except CoreError request.Reply}
    (intact : Intact setting before)
    (owned : Owned setting record before)
    (permitted : permits setting record request)
    (answered : Faulty setting.env config request before reply after) :
    Intact setting after := by
  cases request with
  | fs call => exact intact_fs intact owned permitted answered
  | db call => exact intact_db intact owned permitted answered
  | _ =>
      exact intact.of_same (Faulty.database (by simp) answered)
        (Faulty.files (by simp) answered)

/-- The same, with scans that may overlook the directory. -/
abbrev Setting.blind (setting : Setting) : Setting :=
  { setting with sighted := False }

/-- What holds of a program that runs alone: the world is intact and its
record is true. -/
def Sound (setting : Setting) (record : Local) (world : World) : Prop :=
  Intact setting world ∧ Owned setting.blind record world

theorem sound_step
    {record : Local} {request : Call} {before : World}
    {reply : Except CoreError request.Reply} {after : World}
    (sound : Sound setting record before)
    (permitted : permits setting record request)
    (answered : Faulty setting.env config request before reply after) :
    Sound setting (advance setting.env record request reply) after :=
  have intact : Intact setting.blind before :=
    ⟨⟨sound.1.covered, sound.1.blobs, sound.1.entries⟩, sound.1.exact,
      sound.1.addressed, sound.1.kept⟩
  have kept : Intact setting.blind after :=
    intact_step intact sound.2 permitted answered
  ⟨⟨⟨kept.covered, kept.blobs, kept.entries⟩, kept.exact, kept.addressed,
      kept.kept⟩,
    own_step sound.2 (fun _ => sound.1.covered) (fun _ => sound.1.digested)
      (fun _ sighted => sighted.elim) permitted answered⟩

end Steps

/-- A program that follows the protocol from an idle record keeps the world
intact wherever it is cut. -/
theorem intact_cut
    {setting : Setting} {config : Config} {program : App α}
    {post : α → Local → Prop} {failed : CoreError → Local → Prop}
    {before after : World}
    (follows : program.Follows (protocol setting) post failed .idle)
    (intact : Intact setting before)
    (cut : Program.Cut (Faulty setting.env config) program before after) :
    Intact setting after := by
  obtain ⟨last, sound⟩ := Program.Cut.keeps
    (fun _ _ _ _ _ => sound_step) follows
    ⟨intact, owned_idle setting.blind before⟩ cut
  exact sound.1

/-- The same for a program that runs to its end. -/
theorem intact_run
    {setting : Setting} {program : App α}
    {post : α → Local → Prop} {failed : CoreError → Local → Prop}
    {world : World}
    (config : Config)
    (follows : program.Follows (protocol setting) post failed .idle)
    (intact : Intact setting world) :
    Intact setting (program.run (exec setting.env config) world).2 :=
  intact_cut follows intact
    (Program.cut_run (fun _ _ _ _ => .exact) program world)

end Custody

end Marmotte
