import Marmotte.Repositories

/-!
# What the statements do to the rows under a key

The tables as functions of their keys: the blob row of a hash, the entry of a
key, and the number of entries that point to a hash.  Each writing statement
gets one equation for each of these functions.
-/

namespace Marmotte

open Tables

/-! ## Blob rows by hash -/

namespace Blobs

variable {db : Db} {hash other : String}

theorem get_eq_some {blob : Blob} :
    get db hash = some blob ↔
      blob ∈ db.blobs.rows ∧ blob.hash = hash := by
  constructor
  · intro found
    have row := Table.mem_of_find? found
    exact ⟨row.1, by simpa using row.2⟩
  · rintro ⟨present, rfl⟩
    exact Table.find?_of_mem present (by simp) fun _ => of_decide_eq_true

theorem get_eq_none : get db hash = none ↔ ¬db.HasBlob hash := by
  rw [Option.eq_none_iff_forall_ne_some]
  simp only [ne_eq, get_eq_some, Db.HasBlob, not_exists]

theorem hasBlob_iff : db.HasBlob hash ↔ ∃ blob, get db hash = some blob := by
  simp only [get_eq_some]
  rfl

theorem get_addRefcount (db : Db) (hash other : String) (change : Int) :
    get (db.addRefcount hash change) other =
      (get db other).map fun blob =>
        if blob.hash = hash then
          { blob with refcount := blob.refcount + change }
        else blob := by
  have updated := Table.find?_update db.blobs
    (fun blob => decide (blob.hash = hash))
    (fun blob => { blob with refcount := blob.refcount + change }) (by
      intro first second clash
      split at clash <;> split at clash <;> exact clash)
    (fun blob => decide (blob.hash = other)) (by
      intro blob
      split <;> rfl)
  simpa [get, Db.addRefcount] using updated

/-- The blob row that `upsert_incr` leaves under its hash. -/
def bumped (db : Db) (hash : String) (sizeBytes now : Int) : Blob :=
  match get db hash with
  | some blob => { blob with refcount := blob.refcount + 1 }
  | none => ⟨hash, sizeBytes, 1, now⟩

theorem get_upsertBlob
    (db : Db) (hash other : String) (sizeBytes now : Int) :
    get (db.upsertBlob hash sizeBytes now) other =
      if other = hash then some (bumped db hash sizeBytes now)
      else get db other := by
  unfold Db.upsertBlob
  split
  · rename_i absent
    have missing : get db hash = none := by
      rw [get_eq_none]
      rintro ⟨blob, present, equal⟩
      exact absent blob present equal
    have inserted := Table.find?_insert db.blobs ⟨hash, sizeBytes, 1, now⟩
      absent fun blob => decide (blob.hash = other)
    by_cases same : other = hash
    · subst same
      simp only [get] at missing
      simpa [get, bumped, missing] using inserted
    · simpa [get, same, Ne.symm same] using inserted
  · rename_i stored
    simp only [not_forall, not_not] at stored
    obtain ⟨blob, present, equal⟩ := stored
    have found : get db hash = some blob := get_eq_some.mpr ⟨present, equal⟩
    rw [get_addRefcount]
    by_cases same : other = hash
    · subst same
      simp [bumped, found, equal]
    · rw [if_neg same]
      cases otherFound : get db other with
      | none => rfl
      | some row =>
          have rowHash := (get_eq_some.mp otherFound).2
          simp [rowHash, same]

theorem get_deleteBlob
    {after : Db} (deleted : db.deleteBlob hash = .ok after) :
    ¬db.References hash ∧ after.entries = db.entries ∧
      ∀ other, get after other =
        if other = hash then none else get db other := by
  unfold Db.deleteBlob at deleted
  split at deleted
  · cases deleted
  · rename_i free
    cases deleted
    refine ⟨free, rfl, fun other => ?_⟩
    by_cases same : other = hash
    · subst same
      rw [if_pos rfl]
      exact Table.find?_delete_of_deleted fun _ _ answer => answer
    · rw [if_neg same]
      apply Table.find?_delete_of_kept
      intro blob _ answer
      simp only [decide_eq_true_eq] at answer
      simp [answer, same]

end Blobs

/-! ## Reference counts -/

namespace Db

/-- How many of these entries point to a hash. -/
def pointers (rows : List Entry) (hash : String) : Nat :=
  rows.countP fun entry => decide (entry.blobHash = hash)

@[simp] theorem pointers_nil (hash : String) : pointers [] hash = 0 := rfl

theorem pointers_cons (entry : Entry) (rows : List Entry) (hash : String) :
    pointers (entry :: rows) hash =
      pointers rows hash + if entry.blobHash = hash then 1 else 0 := by
  simp [pointers, List.countP_cons]

@[simp] theorem pointers_singleton (entry : Entry) (hash : String) :
    (pointers [entry] hash : Int) =
      if entry.blobHash = hash then 1 else 0 := by
  rw [pointers_cons]
  split <;> rfl

theorem pointers_append (first second : List Entry) (hash : String) :
    pointers (first ++ second) hash =
      pointers first hash + pointers second hash := by
  simp [pointers]

theorem pointers_perm
    {first second : List Entry} (permuted : first.Perm second)
    (hash : String) : pointers first hash = pointers second hash :=
  permuted.countP_eq _

/-- How many entries point to a hash. -/
def pointersTo (db : Db) (hash : String) : Nat :=
  pointers db.entries.rows hash

/-- The stored reference count of a hash, zero if it has no row. -/
def refcount (db : Db) (hash : String) : Int :=
  ((Blobs.get db hash).map Blob.refcount).getD 0

/-- The stored size of a hash. -/
def storedSize (db : Db) (hash : String) : Option Int :=
  (Blobs.get db hash).map Blob.sizeBytes

/-- By how much the stored count exceeds the number of entries. -/
def surplus (db : Db) (hash : String) : Int :=
  db.refcount hash - db.pointersTo hash

theorem references_iff {db : Db} {hash : String} :
    db.References hash ↔ 0 < db.pointersTo hash := by
  simp [References, pointersTo, pointers, List.countP_pos_iff]

theorem hasBlob_iff_storedSize {db : Db} {hash : String} :
    db.HasBlob hash ↔ ∃ size, db.storedSize hash = some size := by
  simp [Blobs.hasBlob_iff, storedSize]

/-- Every stored count is the number of entries. -/
def Exact (db : Db) : Prop := ∀ hash, db.surplus hash = 0

/-- No stored count is below the number of entries. -/
def Covered (db : Db) : Prop := ∀ hash, 0 ≤ db.surplus hash

theorem Exact.covered {db : Db} (exact : db.Exact) : db.Covered :=
  fun hash => (exact hash).ge

/-- In terms of rows: the counts are exact when every blob row has the number
of entries that point to it. -/
theorem exact_iff {db : Db} :
    db.Exact ↔
      ∀ blob ∈ db.blobs.rows, blob.refcount = db.pointersTo blob.hash := by
  constructor
  · intro exact blob present
    have balanced := exact blob.hash
    rw [surplus, refcount, Blobs.get_eq_some.mpr ⟨present, rfl⟩] at balanced
    exact Int.sub_eq_zero.mp balanced
  · intro rows hash
    cases found : Blobs.get db hash with
    | some blob =>
        obtain ⟨present, rfl⟩ := Blobs.get_eq_some.mp found
        simp [surplus, refcount, found, rows blob present]
    | none =>
        have unreferenced : ¬db.References hash := fun references =>
          Blobs.get_eq_none.mp found references.hasBlob
        rw [references_iff] at unreferenced
        simp [surplus, refcount, found]
        omega

theorem covered_iff {db : Db} :
    db.Covered ↔
      ∀ blob ∈ db.blobs.rows,
        (db.pointersTo blob.hash : Int) ≤ blob.refcount := by
  constructor
  · intro covered blob present
    have balanced := covered blob.hash
    rw [surplus, refcount, Blobs.get_eq_some.mpr ⟨present, rfl⟩] at balanced
    simpa using balanced
  · intro rows hash
    cases found : Blobs.get db hash with
    | some blob =>
        obtain ⟨present, rfl⟩ := Blobs.get_eq_some.mp found
        simpa [surplus, refcount, found] using rows blob present
    | none =>
        have unreferenced : ¬db.References hash := fun references =>
          Blobs.get_eq_none.mp found references.hasBlob
        rw [references_iff] at unreferenced
        simp [surplus, refcount, found]
        omega

/-- With exact counts a referenced hash is one whose count is not zero. -/
theorem Exact.refcount_eq_zero_iff
    {db : Db} {hash : String} (exact : db.Exact) :
    db.refcount hash = 0 ↔ ¬db.References hash := by
  have balanced := exact hash
  rw [surplus] at balanced
  rw [references_iff]
  omega

theorem Covered.unreferenced
    {db : Db} {hash : String} (covered : db.Covered)
    (dead : db.refcount hash ≤ 0) : ¬db.References hash := by
  rw [references_iff]
  have balanced := covered hash
  rw [surplus] at balanced
  omega

@[simp] theorem refcount_addRefcount
    (db : Db) (hash other : String) (change : Int) :
    (db.addRefcount hash change).refcount other =
      db.refcount other +
        if other = hash ∧ db.HasBlob hash then change else 0 := by
  rw [refcount, Blobs.get_addRefcount, refcount]
  cases found : Blobs.get db other with
  | none =>
      have absent := Blobs.get_eq_none.mp found
      have untouched : ¬(other = hash ∧ db.HasBlob hash) := by
        rintro ⟨rfl, stored⟩
        exact absent stored
      simp [untouched]
  | some blob =>
      obtain ⟨present, rfl⟩ := Blobs.get_eq_some.mp found
      have stored : db.HasBlob blob.hash := ⟨blob, present, rfl⟩
      by_cases same : blob.hash = hash
      · simp [same, same ▸ stored]
      · simp [same]

@[simp] theorem storedSize_addRefcount
    (db : Db) (hash other : String) (change : Int) :
    (db.addRefcount hash change).storedSize other = db.storedSize other := by
  rw [storedSize, Blobs.get_addRefcount, storedSize, Option.map_map]
  congr 1
  funext blob
  simp only [Function.comp_apply]
  split <;> rfl

@[simp] theorem refcount_upsertBlob
    (db : Db) (hash other : String) (size now : Int) :
    (db.upsertBlob hash size now).refcount other =
      db.refcount other + if other = hash then 1 else 0 := by
  rw [refcount, Blobs.get_upsertBlob, refcount]
  by_cases same : other = hash
  · subst same
    simp only [if_true, Blobs.bumped]
    cases Blobs.get db other <;> simp
  · simp [same]

@[simp] theorem storedSize_upsertBlob
    (db : Db) (hash other : String) (size now : Int) :
    (db.upsertBlob hash size now).storedSize other =
      if other = hash then some ((db.storedSize hash).getD size)
      else db.storedSize other := by
  rw [storedSize, Blobs.get_upsertBlob, storedSize]
  by_cases same : other = hash
  · subst same
    simp only [if_true, Blobs.bumped, storedSize]
    cases Blobs.get db other <;> simp
  · simp [same, storedSize]

@[simp] theorem addRefcount_entries (db : Db) (hash : String) (change : Int) :
    (db.addRefcount hash change).entries = db.entries := rfl

@[simp] theorem upsertBlob_entries
    (db : Db) (hash : String) (size now : Int) :
    (db.upsertBlob hash size now).entries = db.entries := by
  unfold upsertBlob
  split <;> rfl

theorem refcount_of_mem
    {db : Db} {blob : Blob} (present : blob ∈ db.blobs.rows) :
    db.refcount blob.hash = blob.refcount := by
  rw [refcount, Blobs.get_eq_some.mpr ⟨present, rfl⟩]
  rfl

/-! ## Entries by key -/

theorem entryAt_eq_some {db : Db} {key : Key} {entry : Entry} :
    db.entryAt key = some entry ↔
      entry ∈ db.entries.rows ∧ entry.key = key := by
  constructor
  · intro found
    have row := Table.mem_of_find? found
    exact ⟨row.1, by simpa using row.2⟩
  · rintro ⟨present, rfl⟩
    exact Table.find?_of_mem present (by simp)
      fun _ answer => .inr (of_decide_eq_true answer)

end Db

namespace Blobs

variable {scan : List Blob → List Blob} {db : Db} {limit : Nat}

/-- The hashes that a cleanup frees are those of dead rows. -/
theorem mem_zeroRefcount
    {hash : String}
    (subset : ∀ blobs blob, blob ∈ scan blobs → blob ∈ blobs)
    (listed : hash ∈ zeroRefcount scan db limit) :
    db.HasBlob hash ∧ db.refcount hash = 0 := by
  simp only [zeroRefcount, List.mem_map] at listed
  obtain ⟨blob, taken, rfl⟩ := listed
  have kept := List.mem_filter.mp (List.mem_of_mem_take taken)
  have present := subset _ _ kept.1
  refine ⟨⟨blob, present, rfl⟩, ?_⟩
  rw [Db.refcount_of_mem present]
  simpa using kept.2

/-- No hash is listed twice. -/
theorem zeroRefcount_nodup
    (permuted : ∀ blobs, (scan blobs).Perm blobs) :
    (zeroRefcount scan db limit).Nodup := by
  have apart : (scan db.blobs.rows).Pairwise fun first second =>
      first.hash ≠ second.hash :=
    ((permuted _).pairwise_iff fun different => different.symm).mpr
      db.blobs.distinct
  refine List.Pairwise.map _ (fun _ _ different => different) ?_
  exact (apart.sublist List.filter_sublist).sublist (List.take_sublist _ _)

/-- A query that returns nothing means that no row is dead. -/
theorem live_of_zeroRefcount_nil
    (permuted : ∀ blobs, (scan blobs).Perm blobs) (positive : 0 < limit)
    (nothing : zeroRefcount scan db limit = []) :
    ∀ blob ∈ db.blobs.rows, blob.refcount ≠ 0 := by
  intro blob present dead
  have listed : blob ∈ (scan db.blobs.rows).filter
      fun blob => decide (blob.refcount = 0) :=
    List.mem_filter.mpr
      ⟨(permuted _).mem_iff.mpr present, decide_eq_true dead⟩
  simp only [zeroRefcount, List.map_eq_nil_iff, List.take_eq_nil_iff]
    at nothing
  rcases nothing with zero | empty
  · omega
  · rw [empty] at listed
    cases listed

end Blobs

end Marmotte
