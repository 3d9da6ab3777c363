import Marmotte.Lookups

/-!
# What the transactions do

One theorem for each repository function that writes to `entries` or `blobs`:
which entries it takes out and puts in, and what becomes of the stored counts
and sizes.  Everything proved later about these functions rests on these
theorems alone.
-/

namespace Marmotte

open Tables

namespace Db

/-- The tables that authenticate requests are the same. -/
structure SameTenants (before after : Db) : Prop where
  projects : after.projects = before.projects
  apiKeys : after.apiKeys = before.apiKeys

theorem SameTenants.refl (db : Db) : SameTenants db db := ⟨rfl, rfl⟩

theorem SameTenants.trans
    {first second third : Db}
    (left : SameTenants first second) (right : SameTenants second third) :
    SameTenants first third :=
  ⟨right.projects.trans left.projects, right.apiKeys.trans left.apiKeys⟩

theorem SameTenants.hasProject
    {before after : Db} (same : SameTenants before after) {id : Int} :
    after.HasProject id ↔ before.HasProject id := by
  rw [HasProject, HasProject, same.projects]

/-- An unreferenced blob row can be deleted. -/
theorem deleteBlob_ok
    {db : Db} {hash : String} (unreferenced : ¬db.References hash) :
    ∃ after, db.deleteBlob hash = .ok after ∧
      after.entries = db.entries ∧
      after.blobs = db.blobs.delete (fun blob => decide (blob.hash = hash)) ∧
      SameTenants db after := by
  unfold deleteBlob
  rw [dif_neg unreferenced]
  exact ⟨_, rfl, rfl, rfl, rfl, rfl⟩

/-- The entries `taken` were replaced by the entries `put`, and the stored
counts followed. -/
structure Exchange (before after : Db) (taken put : List Entry) : Prop where
  rows : ∃ rest, before.entries.rows.Perm (taken ++ rest) ∧
    after.entries.rows.Perm (put ++ rest)
  refcount : ∀ hash,
    after.refcount hash + pointers taken hash =
      before.refcount hash + pointers put hash

namespace Exchange

variable {before after : Db} {taken put : List Entry}

theorem surplus
    (exchange : Exchange before after taken put) (hash : String) :
    after.surplus hash = before.surplus hash := by
  obtain ⟨rest, beforeRows, afterRows⟩ := exchange.rows
  have stored := exchange.refcount hash
  have beforeCount : before.pointersTo hash =
      pointers taken hash + pointers rest hash := by
    rw [pointersTo, pointers_perm beforeRows, pointers_append]
  have afterCount : after.pointersTo hash =
      pointers put hash + pointers rest hash := by
    rw [pointersTo, pointers_perm afterRows, pointers_append]
  rw [Db.surplus, Db.surplus, beforeCount, afterCount]
  push_cast
  omega

theorem mem_after
    (exchange : Exchange before after taken put) {entry : Entry}
    (present : entry ∈ after.entries.rows) :
    entry ∈ put ∨ entry ∈ before.entries.rows := by
  obtain ⟨rest, beforeRows, afterRows⟩ := exchange.rows
  rw [afterRows.mem_iff, List.mem_append] at present
  exact present.imp_right fun kept =>
    beforeRows.mem_iff.mpr (List.mem_append_right _ kept)

theorem mem_before
    (exchange : Exchange before after taken put) {entry : Entry}
    (present : entry ∈ before.entries.rows) :
    entry ∈ taken ∨ entry ∈ after.entries.rows := by
  obtain ⟨rest, beforeRows, afterRows⟩ := exchange.rows
  rw [beforeRows.mem_iff, List.mem_append] at present
  exact present.imp_right fun kept =>
    afterRows.mem_iff.mpr (List.mem_append_right _ kept)

/-- An entry that was not taken out under its key is still there. -/
theorem entryAt_of_ne
    (exchange : Exchange before after taken put) {key : Key}
    (notTaken : ∀ entry ∈ taken, entry.key ≠ key)
    (notPut : ∀ entry ∈ put, entry.key ≠ key) :
    after.entryAt key = before.entryAt key := by
  apply Option.ext
  intro entry
  rw [entryAt_eq_some, entryAt_eq_some]
  constructor
  · rintro ⟨present, keyed⟩
    have source := exchange.mem_after present
    exact ⟨source.resolve_left fun new => notPut entry new keyed, keyed⟩
  · rintro ⟨present, keyed⟩
    have target := exchange.mem_before present
    exact ⟨target.resolve_left fun old => notTaken entry old keyed, keyed⟩

end Exchange

/-! ## The entry upsert statement -/

/-- The row that an upsert leaves under its key. -/
def storedEntry
    (db : Db) (key : Key) (blobHash : String) (sizeBytes now : Int) : Entry :=
  match db.entryAt key with
  | some prev =>
      { prev with
        blobHash := blobHash
        sizeBytes := sizeBytes
        lastAccessed := now }
  | none =>
      ⟨db.entries.last + 1, key.projectId, key.kind, key.path, blobHash,
        sizeBytes, now, now, false⟩

@[simp] theorem storedEntry_key
    (db : Db) (key : Key) (hash : String) (size now : Int) :
    (db.storedEntry key hash size now).key = key := by
  unfold storedEntry
  split
  · rename_i prev found
    exact (entryAt_eq_some.mp found).2
  · rfl

@[simp] theorem storedEntry_blobHash
    (db : Db) (key : Key) (hash : String) (size now : Int) :
    (db.storedEntry key hash size now).blobHash = hash := by
  unfold storedEntry
  split <;> rfl

@[simp] theorem storedEntry_sizeBytes
    (db : Db) (key : Key) (hash : String) (size now : Int) :
    (db.storedEntry key hash size now).sizeBytes = size := by
  unfold storedEntry
  split <;> rfl

@[simp] theorem storedEntry_lastAccessed
    (db : Db) (key : Key) (hash : String) (size now : Int) :
    (db.storedEntry key hash size now).lastAccessed = now := by
  unfold storedEntry
  split <;> rfl

theorem upsertEntry_ok
    {db : Db} {hash : String} (key : Key) (size now : Int)
    (owned : db.HasProject key.projectId) (stored : db.HasBlob hash) :
    ∃ id after,
      db.upsertEntry key hash size now = .ok (id, after) ∧
      (∃ rest,
        db.entries.rows.Perm ((db.entryAt key).toList ++ rest) ∧
        after.entries.rows.Perm
          (db.storedEntry key hash size now :: rest)) ∧
      after.blobs = db.blobs ∧
      db.entries.last ≤ after.entries.last ∧
      SameTenants db after := by
  unfold upsertEntry
  rw [dif_pos owned, dif_pos stored]
  split
  · rename_i entry found
    obtain ⟨present, keyed⟩ := entryAt_eq_some.mp found
    have only : ∀ other ∈ db.entries.rows,
        decide (other.key = key) = true ↔ other = entry := by
      intro other otherPresent
      rw [decide_eq_true_eq]
      constructor
      · intro otherKeyed
        exact db.entries.eq_of_clash otherPresent present
          (.inr (otherKeyed.trans keyed.symm))
      · rintro rfl
        exact keyed
    refine ⟨_, _, rfl, ⟨(db.entries.toTable.delete
      fun other => decide (other.key = key)).rows, ?_, ?_⟩, rfl,
      Int.le_add_one (Int.le_refl _), ⟨rfl, rfl⟩⟩
    · rw [found]
      exact Table.perm_delete _ _ present only
    · have replaced := Table.perm_update db.entries.toTable
        (fun other => decide (other.key = key))
        (fun other =>
          { other with
            blobHash := hash
            sizeBytes := size
            lastAccessed := now })
        (by
          intro first second clash
          split at clash <;> split at clash <;> exact clash)
        present only
      have isStored : db.storedEntry key hash size now =
          { entry with
            blobHash := hash
            sizeBytes := size
            lastAccessed := now } := by
        simp only [storedEntry, found]
      rw [isStored]
      exact replaced
  · rename_i missing
    refine ⟨_, _, rfl, ⟨db.entries.rows, ?_, ?_⟩, rfl, ?_, ⟨rfl, rfl⟩⟩
    · rw [missing]
      exact List.Perm.refl _
    · have isStored : db.storedEntry key hash size now =
          ⟨db.entries.last + 1, key.projectId, key.kind, key.path, hash,
            size, now, now, false⟩ := by
        simp only [storedEntry, missing]
      rw [isStored]
      exact List.perm_append_singleton _ _
    · simp only [Series.insert_last]
      omega

end Db

namespace Entries

open Db

/-! ## `Entries::upsert` -/

/-- What a committed upsert did. -/
structure Upserted
    (now : Int) (before after : Db) (key : Key) (hash : String) (size : Int) :
    Prop where
  exchange : Exchange before after (before.entryAt key).toList
    [before.storedEntry key hash size now]
  storedSize : ∀ other, after.storedSize other =
    if other = hash then some ((before.storedSize hash).getD size)
    else before.storedSize other
  last : before.entries.last ≤ after.entries.last
  tenants : SameTenants before after

/-- The entry under the key of the upsert. -/
theorem Upserted.entryAt_self
    {now size : Int} {before after : Db} {key : Key} {hash : String}
    (upserted : Upserted now before after key hash size) :
    after.entryAt key = some (before.storedEntry key hash size now) := by
  obtain ⟨rest, -, rows⟩ := upserted.exchange.rows
  rw [entryAt_eq_some]
  exact ⟨rows.mem_iff.mpr List.mem_cons_self, by simp⟩

/-- The entries under other keys are those that were there. -/
theorem Upserted.entryAt_of_ne
    {now size : Int} {before after : Db} {key other : Key} {hash : String}
    (upserted : Upserted now before after key hash size)
    (different : other ≠ key) :
    after.entryAt other = before.entryAt other := by
  apply upserted.exchange.entryAt_of_ne
  · intro entry taken keyed
    rw [Option.mem_toList, entryAt_eq_some] at taken
    exact different (keyed.symm.trans taken.2)
  · intro entry put keyed
    rw [List.mem_singleton] at put
    rw [put, storedEntry_key] at keyed
    exact different keyed.symm

/-- Before the entry is written the counts already follow the exchange. -/
theorem recount_ok
    (now : Int) (db : Db) (key : Key) (hash : String) (size : Int) :
    ∃ middle, recount now db key hash size = .ok middle ∧
      middle.entries = db.entries ∧ SameTenants db middle ∧
      (∀ other, middle.refcount other +
        pointers (db.entryAt key).toList other =
          db.refcount other + if other = hash then 1 else 0) ∧
      (∀ other, middle.storedSize other =
        if other = hash then some ((db.storedSize hash).getD size)
        else db.storedSize other) := by
  have bump : ∀ db : Db, SameTenants db (db.upsertBlob hash size now) := by
    intro db
    unfold upsertBlob
    split <;> exact ⟨rfl, rfl⟩
  unfold recount
  cases found : db.entryAt key with
  | none =>
      refine ⟨db.upsertBlob hash size now, rfl, by simp, bump db, ?_, ?_⟩
      · intro other
        simp
      · intro other
        simp
  | some prev =>
      obtain ⟨present, -⟩ := entryAt_eq_some.mp found
      have prevStored : db.HasBlob prev.blobHash :=
        db.entry_blob prev present
      by_cases same : prev.blobHash = hash
      · subst same
        obtain ⟨size', sized⟩ := hasBlob_iff_storedSize.mp prevStored
        refine ⟨db, by simp, rfl, .refl db, ?_, ?_⟩
        · intro other
          simp [@eq_comm _ other]
        · intro other
          by_cases equal : other = prev.blobHash
          · subst equal
            simp [sized]
          · simp [equal]
      · obtain ⟨blob, row⟩ := Blobs.hasBlob_iff.mp prevStored
        have decremented : Blobs.decr db prev.blobHash =
            .ok (blob.refcount - 1, db.addRefcount prev.blobHash (-1)) := by
          have rowHash := (Blobs.get_eq_some.mp row).2
          simp [Blobs.decr, Blobs.get_addRefcount, row, rowHash]
          rfl
        refine ⟨(db.addRefcount prev.blobHash (-1)).upsertBlob hash size now,
          ?_, by simp, ?_, ?_, ?_⟩
        · simp only [ne_eq, same, not_false_eq_true, if_true, decremented]
          rfl
        · have decremented : SameTenants db (db.addRefcount prev.blobHash (-1)) :=
            ⟨rfl, rfl⟩
          exact decremented.trans (bump _)
        · intro other
          simp only [refcount_upsertBlob, refcount_addRefcount, prevStored,
            and_true, Option.toList_some, pointers_singleton]
          by_cases equal : other = prev.blobHash
          · subst equal
            rw [if_pos rfl, if_neg same, if_pos rfl]
            omega
          · simp [equal, Ne.symm equal]
        · intro other
          simp

theorem upsert_ok
    {db : Db} {projectId : Int}
    (now : Int) (kind : Kind) (path hash : String) (size : Int)
    (owned : db.HasProject projectId) :
    ∃ entry after,
      upsert now db projectId kind path hash size = .ok (entry, after) ∧
      Upserted now db after ⟨projectId, kind, path⟩ hash size := by
  obtain ⟨middle, prepared, sameEntries, tenants, counts, sizes⟩ :=
    recount_ok now db ⟨projectId, kind, path⟩ hash size
  have stored : middle.HasBlob hash := by
    rw [hasBlob_iff_storedSize]
    exact ⟨_, by rw [sizes hash, if_pos rfl]⟩
  have sameEntry : middle.entryAt ⟨projectId, kind, path⟩ =
      db.entryAt ⟨projectId, kind, path⟩ := by
    rw [entryAt, sameEntries]
    rfl
  have sameStored :
      middle.storedEntry ⟨projectId, kind, path⟩ hash size now =
        db.storedEntry ⟨projectId, kind, path⟩ hash size now := by
    rw [storedEntry, sameEntry, sameEntries]
    rfl
  obtain ⟨id, after, written, ⟨rest, before, afterRows⟩, blobs, last, kept⟩ :=
    upsertEntry_ok ⟨projectId, kind, path⟩ size now
      (tenants.hasProject.mpr owned) stored
  rw [sameEntry, sameEntries] at before
  rw [sameStored] at afterRows
  have sameGet : ∀ other, Blobs.get after other = Blobs.get middle other := by
    intro other
    rw [Blobs.get, blobs]
    rfl
  refine ⟨⟨id, projectId, kind, path, hash, size, now, now, false⟩, after,
    ?_, ?_⟩
  · simp only [upsert, prepared, bind, Except.bind, written]
    rfl
  · refine ⟨⟨⟨rest, before, afterRows⟩, ?_⟩, ?_, ?_, tenants.trans kept⟩
    · intro other
      rw [refcount, sameGet other]
      have counted := counts other
      rw [refcount] at counted
      simpa [@eq_comm _ hash] using counted
    · intro other
      rw [storedSize, sameGet other]
      exact sizes other
    · rw [sameEntries] at last
      exact last

theorem upsert_refused
    {db : Db} {projectId : Int}
    (now : Int) (kind : Kind) (path hash : String) (size : Int)
    (unowned : ¬db.HasProject projectId) :
    upsert now db projectId kind path hash size =
      .error (.database .foreignKeyViolation) := by
  obtain ⟨middle, prepared, -, tenants, -⟩ :=
    recount_ok now db ⟨projectId, kind, path⟩ hash size
  have refused : ¬middle.HasProject projectId := fun owned =>
    unowned (tenants.hasProject.mp owned)
  simp only [upsert, prepared, bind, Except.bind, upsertEntry]
  rw [dif_neg refused]

/-- Every upsert that returns did what it promises. -/
theorem upserted
    {db after : Db} {projectId now : Int} {kind : Kind} {path hash : String}
    {size : Int} {entry : Entry}
    (ran : upsert now db projectId kind path hash size = .ok (entry, after)) :
    db.HasProject projectId ∧
      Upserted now db after ⟨projectId, kind, path⟩ hash size := by
  by_cases owned : db.HasProject projectId
  · obtain ⟨entry', after', same, done⟩ :=
      upsert_ok now kind path hash size owned
    rw [same] at ran
    cases ran
    exact ⟨owned, done⟩
  · rw [upsert_refused now kind path hash size owned] at ran
    cases ran

/-! ## `Entries::delete` -/

/-- What a committed delete did. -/
structure Deleted (before after : Db) (entry : Entry) : Prop where
  present : entry ∈ before.entries.rows
  rows : after.entries.rows =
    before.entries.rows.filter fun other => !decide (other.id = entry.id)
  blobs : after.blobs.rows = before.blobs.rows.map fun blob =>
    if blob.hash = entry.blobHash then
      { blob with refcount := blob.refcount - 1 }
    else blob
  exchange : Exchange before after [entry] []
  storedSize : ∀ hash, after.storedSize hash = before.storedSize hash
  last : after.entries.last = before.entries.last
  tenants : SameTenants before after

/-- The entry that a delete looks for. -/
theorem find?_id
    {db : Db} {projectId id : Int} {entry : Entry} :
    db.entries.find? (fun entry =>
        decide (entry.projectId = projectId ∧ entry.id = id)) = some entry ↔
      entry ∈ db.entries.rows ∧ entry.projectId = projectId ∧
        entry.id = id := by
  constructor
  · intro found
    have row := Table.mem_of_find? found
    exact ⟨row.1, by simpa using row.2⟩
  · rintro ⟨present, rfl, rfl⟩
    refine Table.find?_of_mem present (by simp) fun other answer => ?_
    exact .inl (of_decide_eq_true answer).2

theorem delete_ok
    {db : Db} {entry : Entry} (present : entry ∈ db.entries.rows) :
    ∃ after,
      delete db entry.projectId entry.id = .ok ((), after) ∧
      Deleted db after entry := by
  have found := find?_id.mpr ⟨present, rfl, rfl⟩
  have only : ∀ other ∈ db.entries.rows,
      decide (other.id = entry.id) = true ↔ other = entry := by
    intro other otherPresent
    rw [decide_eq_true_eq]
    constructor
    · exact db.entries.eq_of_id otherPresent present
    · rintro rfl
      rfl
  obtain ⟨blob, row⟩ := Blobs.hasBlob_iff.mp (db.entry_blob entry present)
  have rowHash := (Blobs.get_eq_some.mp row).2
  have rowKept :
      Blobs.get (db.deleteEntries fun other => decide (other.id = entry.id))
        entry.blobHash = some blob := row
  refine ⟨(db.deleteEntries
    fun other => decide (other.id = entry.id)).addRefcount
      entry.blobHash (-1), ?_, ⟨present, rfl, ?_, ⟨⟨_,
        Table.perm_delete _ _ present only, List.Perm.refl _⟩, ?_⟩, ?_, rfl,
        ⟨rfl, rfl⟩⟩⟩
  · rw [delete, found]
    simp [Blobs.decr, Blobs.get_addRefcount, rowKept, rowHash, bind,
      Except.bind]
    rfl
  · simp [addRefcount, Db.deleteEntries, Int.sub_eq_add_neg]
  · intro hash
    have stored : (db.deleteEntries
        fun other => decide (other.id = entry.id)).HasBlob entry.blobHash :=
      db.entry_blob entry present
    have before : (db.deleteEntries
        fun other => decide (other.id = entry.id)).refcount hash =
          db.refcount hash := rfl
    rw [refcount_addRefcount, before]
    by_cases same : hash = entry.blobHash
    · subst same
      rw [if_pos ⟨rfl, stored⟩, pointers_singleton, if_pos rfl,
        pointers_nil]
      omega
    · simp [same, Ne.symm same]
  · intro hash
    rw [storedSize_addRefcount]
    rfl

theorem deleted
    {db after : Db} {projectId id : Int} {reply : Unit}
    (ran : delete db projectId id = .ok (reply, after)) :
    ∃ entry, entry.projectId = projectId ∧ entry.id = id ∧
      Deleted db after entry := by
  cases found : db.entries.find? fun entry =>
      decide (entry.projectId = projectId ∧ entry.id = id) with
  | none =>
      rw [delete, found] at ran
      cases ran
  | some entry =>
      obtain ⟨present, rfl, rfl⟩ := find?_id.mp found
      obtain ⟨after', same, done⟩ := delete_ok present
      rw [same] at ran
      cases ran
      exact ⟨entry, rfl, rfl, done⟩

theorem delete_missing
    {db : Db} {projectId id : Int}
    (missing : ∀ entry ∈ db.entries.rows,
      ¬(entry.projectId = projectId ∧ entry.id = id)) :
    delete db projectId id = .error (.notFound s!"entry {id}") := by
  have none : db.entries.find? (fun entry =>
      decide (entry.projectId = projectId ∧ entry.id = id)) = none := by
    rw [Table.find?_eq_none]
    intro entry present
    exact decide_eq_false (missing entry present)
  rw [delete, none]

/-! ## `Entries::touch` and `Entries::set_pinned` -/

/-- The entries were changed in place, outside their keys and their blobs. -/
structure Adjusted
    (before after : Db) (assign : Entry → Entry) : Prop where
  rows : after.entries.rows = before.entries.rows.map assign
  keepsId : ∀ entry, (assign entry).id = entry.id
  keepsKey : ∀ entry, (assign entry).key = entry.key
  keepsHash : ∀ entry, (assign entry).blobHash = entry.blobHash
  keepsSize : ∀ entry, (assign entry).sizeBytes = entry.sizeBytes
  blobs : after.blobs = before.blobs
  last : after.entries.last = before.entries.last
  tenants : SameTenants before after

theorem Adjusted.surplus
    {before after : Db} {assign : Entry → Entry}
    (adjusted : Adjusted before after assign) (hash : String) :
    after.surplus hash = before.surplus hash := by
  have sameRefcount : after.refcount hash = before.refcount hash := by
    rw [Db.refcount, Db.refcount, Blobs.get, Blobs.get, adjusted.blobs]
  have sameCount : after.pointersTo hash = before.pointersTo hash := by
    rw [pointersTo, adjusted.rows, pointers, List.countP_map]
    apply List.countP_congr
    intro entry _
    simp [adjusted.keepsHash]
  rw [Db.surplus, Db.surplus, sameRefcount, sameCount]

theorem Adjusted.entryAt
    {before after : Db} {assign : Entry → Entry}
    (adjusted : Adjusted before after assign) (key : Key) :
    after.entryAt key = (before.entryAt key).map assign := by
  rw [Db.entryAt, Db.entryAt, Table.find?, Table.find?, adjusted.rows,
    List.find?_map]
  simp only [Function.comp_def, adjusted.keepsKey]

/-- The assignment of `touch`. -/
def touched (now id : Int) (entry : Entry) : Entry :=
  if entry.id = id then { entry with lastAccessed := now } else entry

theorem touch_adjusts (now : Int) (db : Db) (id : Int) :
    Adjusted db (touch now db id) (touched now id) := by
  refine ⟨?_, ?_, ?_, ?_, ?_, rfl, rfl, ⟨rfl, rfl⟩⟩
  · simp [touch, Db.updateEntries, touched]
  all_goals
    intro entry
    unfold touched
    split <;> rfl

/-- The assignment of `set_pinned`. -/
def repinned
    (projectId id : Int) (pinned : Bool) (entry : Entry) : Entry :=
  if entry.projectId = projectId ∧ entry.id = id then
    { entry with pinned := pinned }
  else entry

theorem setPinned_adjusts
    {db after : Db} {projectId id : Int} {pinned : Bool} {reply : Unit}
    (ran : setPinned db projectId id pinned = .ok (reply, after)) :
    Adjusted db after (repinned projectId id pinned) := by
  unfold setPinned at ran
  simp only at ran
  split at ran
  · cases ran
  · cases ran
    refine ⟨?_, ?_, ?_, ?_, ?_, rfl, rfl, ⟨rfl, rfl⟩⟩
    · simp [Db.updateEntries, repinned]
    all_goals
      intro entry
      unfold repinned
      split <;> rfl

/-- An entry that is there can be pinned and unpinned. -/
theorem setPinned_accepted
    {db : Db} {entry : Entry} (present : entry ∈ db.entries.rows)
    (pinned : Bool) :
    ∃ after,
      setPinned db entry.projectId entry.id pinned = .ok ((), after) := by
  have some_selected : (db.entries.rows.filter fun other =>
      decide (other.projectId = entry.projectId ∧
        other.id = entry.id)).length ≠ 0 := by
    rw [ne_eq, List.length_eq_zero_iff, List.filter_eq_nil_iff]
    intro none
    exact none entry present (by simp)
  unfold setPinned
  simp only
  rw [if_neg some_selected]
  exact ⟨_, rfl⟩

end Entries

/-! ## Statements that remove rows without touching the counts -/

namespace Projects

/-- Deleting a project removes its entries and leaves the blob rows as they
are. -/
theorem deleted
    {db after : Db} {id : Int} {reply : Unit}
    (ran : delete db id = .ok (reply, after)) :
    db.HasProject id ∧
      after.entries.rows = (db.entries.rows.filter fun entry =>
        !decide (entry.projectId = id)) ∧
      after.entries.last = db.entries.last ∧
      after.blobs = db.blobs ∧
      after.projects.rows = (db.projects.rows.filter fun project =>
        !decide (project.id = id)) ∧
      after.projects.last = db.projects.last ∧
      after.apiKeys.rows = (db.apiKeys.rows.filter fun key =>
        !decide (key.projectId = id)) := by
  unfold delete at ran
  simp only at ran
  split at ran
  · cases ran
  · rename_i affected
    cases ran
    refine ⟨?_, rfl, rfl, rfl, rfl, rfl, rfl⟩
    simp only [Db.deleteProject, List.length_eq_zero_iff,
      List.filter_eq_nil_iff, decide_eq_true_eq, not_forall, not_not]
      at affected
    obtain ⟨project, present, equal⟩ := affected
    exact ⟨project, present, equal⟩

/-- A project that exists can be deleted. -/
theorem delete_accepted
    {db : Db} {id : Int} (owned : db.HasProject id) :
    ∃ result, delete db id = .ok result := by
  obtain ⟨project, present, same⟩ := owned
  have counted : (db.deleteProject id).1 ≠ 0 := by
    rw [Db.deleteProject, ne_eq, List.length_eq_zero_iff,
      List.filter_eq_nil_iff]
    intro none
    exact none project present (decide_eq_true same)
  unfold delete
  simp only
  split
  · rename_i affected
    exact absurd affected counted
  · exact ⟨_, rfl⟩

end Projects

namespace Db

/-- The entries of a project. -/
def entriesOf (db : Db) (projectId : Int) : List Entry :=
  db.entries.rows.filter fun entry => decide (entry.projectId = projectId)

/-- When the blob rows stay and entries are only removed, no count falls below
the number of entries. -/
theorem surplus_of_filter
    {before after : Db} {keeps : Entry → Bool}
    (rows : after.entries.rows = before.entries.rows.filter keeps)
    (blobs : after.blobs = before.blobs) (hash : String) :
    after.surplus hash = before.surplus hash +
      pointers (before.entries.rows.filter fun entry => !keeps entry) hash := by
  have sameRefcount : after.refcount hash = before.refcount hash := by
    rw [refcount, refcount, Blobs.get, Blobs.get, blobs]
  have split := pointers_perm
    (List.filter_append_perm keeps before.entries.rows) hash
  rw [pointers_append] at split
  rw [surplus, surplus, sameRefcount, pointersTo, pointersTo, rows, ← split]
  push_cast
  omega

end Db

namespace GcQueries

open Db

/-- The purge of a hash always commits, and removes its row and every entry
that points to it. -/
theorem purge_ok (db : Db) (hash : String) :
    ∃ after, purge db hash = .ok ((), after) ∧
      after.entries.rows = (db.entries.rows.filter fun entry =>
        !decide (entry.blobHash = hash)) ∧
      after.entries.last = db.entries.last ∧
      (∀ other, Blobs.get after other =
        if other = hash then none else Blobs.get db other) ∧
      SameTenants db after := by
  have free : ¬(db.deleteEntries
      fun entry => decide (entry.blobHash = hash)).References hash := by
    rintro ⟨entry, present, equal⟩
    simp only [deleteEntries, Series.delete_rows, List.mem_filter] at present
    simp [equal] at present
  obtain ⟨after, ran, entries, -, tenants⟩ := deleteBlob_ok free
  refine ⟨after, ?_, ?_, ?_, fun other => ?_, ?_⟩
  · simp only [purge, bind, Except.bind, ran]
    rfl
  · rw [entries]
    rfl
  · rw [entries]
    rfl
  · rw [(Blobs.get_deleteBlob ran).2.2 other]
    rfl
  · exact ⟨tenants.projects, tenants.apiKeys⟩

end GcQueries

end Marmotte
