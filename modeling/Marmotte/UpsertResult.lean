import Marmotte.Runtime
import Marmotte.Sample
import Marmotte.Transactions

/-!
# The entry that an upsert returns

`Entries::upsert` puts its result together from its arguments, while the
conflict clause keeps some columns of the row that is already there.
-/

namespace Marmotte

open Effects Tables

namespace UpsertResult

open Db

section Results

variable {db after : Db} {projectId now : Int} {kind : Kind}
variable {path hash : String} {size : Int} {entry : Entry}

theorem upsertEntry_id
    {key : Key} {id : Int}
    (ran : db.upsertEntry key hash size now = .ok (id, after)) :
    id = (db.storedEntry key hash size now).id := by
  unfold upsertEntry at ran
  split at ran
  · split at ran
    · split at ran
      · rename_i prev found
        cases ran
        simp only [storedEntry, found]
      · rename_i missing
        cases ran
        simp only [storedEntry, missing]
    · cases ran
  · cases ran

/-- The result differs from the row that is left in the columns that the
conflict clause keeps. -/
theorem upsert_result
    (ran : Entries.upsert now db projectId kind path hash size =
      .ok (entry, after)) :
    entry =
      { db.storedEntry ⟨projectId, kind, path⟩ hash size now with
        createdAt := now
        pinned := false } := by
  obtain ⟨middle, prepared, sameEntries, -⟩ :=
    Entries.recount_ok now db ⟨projectId, kind, path⟩ hash size
  have sameStored :
      middle.storedEntry ⟨projectId, kind, path⟩ hash size now =
        db.storedEntry ⟨projectId, kind, path⟩ hash size now := by
    rw [storedEntry, storedEntry, entryAt, entryAt, sameEntries]
  simp only [Entries.upsert, prepared, bind, Except.bind] at ran
  split at ran
  · cases ran
  · rename_i written stored
    have id := upsertEntry_id stored
    have keyed := storedEntry_key db ⟨projectId, kind, path⟩ hash size now
    rw [sameStored] at id
    cases ran
    simp only [Entry.key, Key.mk.injEq] at keyed
    simp [id, keyed]

/-- The row that is left under the key. -/
theorem find_upserted
    (ran : Entries.upsert now db projectId kind path hash size =
      .ok (entry, after)) :
    Entries.find after projectId kind path =
      some (db.storedEntry ⟨projectId, kind, path⟩ hash size now) := by
  obtain ⟨rest, -, rows⟩ := (Entries.upserted ran).2.exchange.rows
  rw [Entries.find, entryAt_eq_some, rows.mem_iff]
  exact ⟨List.mem_cons_self, storedEntry_key _ _ _ _ _⟩

theorem others_kept
    (ran : Entries.upsert now db projectId kind path hash size =
      .ok (entry, after))
    {other : Entry} (apart : other.key ≠ ⟨projectId, kind, path⟩) :
    other ∈ after.entries.rows ↔ other ∈ db.entries.rows := by
  have exchange := (Entries.upserted ran).2.exchange
  constructor
  · intro present
    rcases exchange.mem_after present with new | old
    · rw [List.mem_singleton] at new
      rw [new, storedEntry_key] at apart
      exact absurd rfl apart
    · exact old
  · intro present
    rcases exchange.mem_before present with taken | kept
    · rw [Option.mem_toList] at taken
      exact absurd (entryAt_eq_some.mp taken).2 apart
    · exact kept

end Results

/-! ## The result and the row -/

/-- An upsert that succeeds returns the row that is then found under the key,
and changes no other row. -/
def ReturnsStored
    (now : Int) (db : Db) (projectId : Int) (kind : Kind)
    (path hash : String) (size : Int) : Prop :=
  ∀ entry after,
    Entries.upsert now db projectId kind path hash size =
      .ok (entry, after) →
    Entries.find after projectId kind path = some entry ∧
      ∀ other : Entry, other.key ≠ ⟨projectId, kind, path⟩ →
        (other ∈ after.entries.rows ↔ other ∈ db.entries.rows)

/-- The result is the stored row exactly when the key is new, or its entry is
not pinned and was created in the same second. -/
theorem returns_stored_iff
    (now : Int) (db : Db) (projectId : Int) (kind : Kind)
    (path hash : String) (size : Int) :
    ReturnsStored now db projectId kind path hash size ↔
      ∀ prev, Entries.find db projectId kind path = some prev →
        prev.createdAt = now ∧ prev.pinned = false := by
  constructor
  · intro returns prev found
    obtain ⟨present, keyed⟩ := entryAt_eq_some.mp found
    have owned : db.HasProject projectId := by
      have project := db.entry_project prev present
      rw [show prev.projectId = projectId from
        congrArg Key.projectId keyed] at project
      exact project
    obtain ⟨entry, after, ran, -⟩ :=
      Entries.upsert_ok now kind path hash size owned
    have same := (returns entry after ran).1
    rw [find_upserted ran, upsert_result ran, Option.some.injEq] at same
    rw [Entries.find] at found
    simp only [storedEntry, found] at same
    exact ⟨congrArg Entry.createdAt same, congrArg Entry.pinned same⟩
  · intro fresh entry after ran
    refine ⟨?_, fun other apart => others_kept ran apart⟩
    rw [find_upserted ran, upsert_result ran, Option.some.injEq, storedEntry]
    split
    · rename_i prev found
      obtain ⟨created, unpinned⟩ := fresh prev found
      cases prev
      cases created
      cases unpinned
      rfl
    · rfl

/-- A database with one entry, which is pinned. -/
def pinned : Db :=
  (Program.run (exec Sample.env (Sample.config 1024)) (do
    let _ ← transact (.projectsCreate "acme" none none)
    let _ ← transact (.entriesUpsert 1 .sstate "first" (Sample.sha256 [97]) 1)
    transact (.entriesSetPinned 1 1 true)) (World.initial 1000)).2.db

/-- A pinned entry stays pinned when it is replaced, but the result says that it
is not. -/
theorem replaced_entry_misreported :
    ¬ReturnsStored 2000 pinned 1 .sstate "first" (Sample.sha256 [98]) 1 := by
  intro returns
  obtain ⟨entry, after, ran, -⟩ := Entries.upsert_ok 2000 .sstate "first"
    (Sample.sha256 [98]) 1 (show pinned.HasProject 1 by decide +kernel)
  have same := (returns entry after ran).1
  rw [find_upserted ran, upsert_result ran, Option.some.injEq] at same
  exact absurd (congrArg Entry.pinned same) (by decide +kernel)

end UpsertResult

end Marmotte
