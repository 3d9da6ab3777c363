import Mathlib.Data.List.Find
import Mathlib.Data.List.Nodup
import Mathlib.Data.List.Pairwise
import Mathlib.Data.List.Perm.Basic

/-!
# Tables with uniqueness constraints

A table is a list of rows no two of which clash, where a row type says once
which pairs of rows its `PRIMARY KEY` and `UNIQUE` constraints forbid.  The
constraint is carried by the table, so a table that violates it cannot be
built; statements that could violate it are checked and fail.
-/

namespace Tables

/-- Rows with a decidable clash relation: two rows clash when a uniqueness
constraint forbids them to be in one table. -/
class Row (ρ : Type) where
  Clash : ρ → ρ → Prop
  clash_decidable : DecidableRel Clash
  clash_refl : ∀ row, Clash row row
  clash_symm : ∀ first second, Clash first second → Clash second first

instance [Row ρ] : DecidableRel (Row.Clash (ρ := ρ)) :=
  Row.clash_decidable

/-- A list of rows no two of which clash. -/
structure Table (ρ : Type) [Row ρ] where
  rows : List ρ
  distinct : rows.Pairwise fun first second => ¬Row.Clash first second

namespace Table

variable {ρ : Type} [Row ρ]

@[ext] theorem ext
    {first second : Table ρ}
    (equal : first.rows = second.rows) : first = second := by
  cases first
  cases second
  cases equal
  rfl

/-- The table without rows. -/
def empty : Table ρ := ⟨[], .nil⟩

@[simp] theorem empty_rows : (empty : Table ρ).rows = [] := rfl

/-- Two rows of one table that clash are the same row. -/
theorem eq_of_clash
    (table : Table ρ)
    {first second : ρ}
    (firstPresent : first ∈ table.rows)
    (secondPresent : second ∈ table.rows)
    (clash : Row.Clash first second) : first = second := by
  by_contra different
  have symmetric : Std.Symm
      fun first second : ρ => ¬Row.Clash first second :=
    ⟨fun _ _ apart back => apart (Row.clash_symm _ _ back)⟩
  exact table.distinct.forall firstPresent secondPresent different clash

theorem nodup (table : Table ρ) : table.rows.Nodup := by
  refine table.distinct.imp fun {first second} apart equal => ?_
  exact apart (equal ▸ Row.clash_refl first)

/-- `DELETE ... WHERE`. -/
def delete (table : Table ρ) (selects : ρ → Bool) : Table ρ where
  rows := table.rows.filter fun row => !selects row
  distinct := table.distinct.filter _

@[simp] theorem delete_rows (table : Table ρ) (selects : ρ → Bool) :
    (table.delete selects).rows =
      table.rows.filter fun row => !selects row := rfl

@[simp] theorem mem_delete
    (table : Table ρ) (selects : ρ → Bool) (row : ρ) :
    row ∈ (table.delete selects).rows ↔
      row ∈ table.rows ∧ selects row = false := by
  simp

/-- `UPDATE ... WHERE` with an assignment that keeps the constrained columns
apart. -/
def update
    (table : Table ρ)
    (selects : ρ → Bool)
    (assign : ρ → ρ)
    (keeps : ∀ first second,
      Row.Clash
        (if selects first then assign first else first)
        (if selects second then assign second else second) →
          Row.Clash first second) : Table ρ where
  rows := table.rows.map fun row => if selects row then assign row else row
  distinct := by
    rw [List.pairwise_map]
    exact table.distinct.imp fun apart clash => apart (keeps _ _ clash)

@[simp] theorem update_rows
    (table : Table ρ) (selects : ρ → Bool) (assign : ρ → ρ) (keeps) :
    (table.update selects assign keeps).rows =
      table.rows.map fun row =>
        if selects row then assign row else row := rfl

/-- `INSERT` of a row that clashes with no row of the table. -/
def insert
    (table : Table ρ)
    (row : ρ)
    (apart : ∀ other ∈ table.rows, ¬Row.Clash other row) : Table ρ where
  rows := table.rows ++ [row]
  distinct := by
    rw [List.pairwise_append]
    refine ⟨table.distinct, List.pairwise_singleton _ _, ?_⟩
    intro other present last lastPresent
    rw [List.mem_singleton] at lastPresent
    subst lastPresent
    exact apart other present

@[simp] theorem insert_rows (table : Table ρ) (row : ρ) (apart) :
    (table.insert row apart).rows = table.rows ++ [row] := rfl

/-- The row a statement selects, when it can select at most one. -/
def find? (table : Table ρ) (selects : ρ → Bool) : Option ρ :=
  table.rows.find? selects

theorem mem_of_find?
    {table : Table ρ} {selects : ρ → Bool} {row : ρ}
    (found : table.find? selects = some row) :
    row ∈ table.rows ∧ selects row = true :=
  ⟨List.mem_of_find?_eq_some found, List.find?_some found⟩

theorem find?_eq_none
    {table : Table ρ} {selects : ρ → Bool} :
    table.find? selects = none ↔
      ∀ row ∈ table.rows, selects row = false := by
  simp [find?, List.find?_eq_none]

/-- Selecting by a clashing key finds the row that is there. -/
theorem find?_of_mem
    {table : Table ρ} {selects : ρ → Bool} {row : ρ}
    (present : row ∈ table.rows)
    (selected : selects row = true)
    (only : ∀ other, selects other = true → Row.Clash other row) :
    table.find? selects = some row := by
  cases found : table.find? selects with
  | none =>
      have missing := find?_eq_none.mp found row present
      simp [selected] at missing
  | some other =>
      have otherFound := mem_of_find? found
      rw [table.eq_of_clash otherFound.1 present
        (only other otherFound.2)]

/-! ## Selecting after a statement -/

theorem find?_update
    (table : Table ρ) (selects : ρ → Bool) (assign : ρ → ρ) (keeps)
    (query : ρ → Bool)
    (keepsQuery : ∀ row,
      query (if selects row then assign row else row) = query row) :
    (table.update selects assign keeps).find? query =
      (table.find? query).map fun row =>
        if selects row then assign row else row := by
  simp only [find?, update_rows, List.find?_map]
  congr 2
  exact funext keepsQuery

theorem find?_insert
    (table : Table ρ) (row : ρ) (apart) (query : ρ → Bool) :
    (table.insert row apart).find? query =
      (table.find? query).or (if query row then some row else none) := by
  simp only [find?, insert_rows, List.find?_append, List.find?_singleton]

theorem find?_delete_of_kept
    {table : Table ρ} {selects query : ρ → Bool}
    (kept : ∀ row ∈ table.rows, query row = true → selects row = false) :
    (table.delete selects).find? query = table.find? query := by
  simp only [find?, delete_rows, List.find?_filter]
  apply List.find?_congr
  intro row present
  cases answer : query row with
  | false => simp
  | true => simp [kept row present answer]

theorem find?_delete_of_deleted
    {table : Table ρ} {selects query : ρ → Bool}
    (deleted : ∀ row ∈ table.rows, query row = true → selects row = true) :
    (table.delete selects).find? query = none := by
  rw [find?_eq_none]
  intro row present
  rw [mem_delete] at present
  by_contra answer
  rw [Bool.not_eq_false] at answer
  have selected := deleted row present.1 answer
  rw [present.2] at selected
  cases selected

/-! ## Counting after a statement on one row -/

/-- Deleting the only selected row takes that row out. -/
theorem perm_delete
    (table : Table ρ) (selects : ρ → Bool) {row : ρ}
    (present : row ∈ table.rows)
    (only : ∀ other ∈ table.rows, selects other = true ↔ other = row) :
    table.rows.Perm (row :: (table.delete selects).rows) := by
  classical
  have erased : table.rows.erase row = (table.delete selects).rows := by
    rw [table.nodup.erase_eq_filter, delete_rows]
    apply List.filter_congr
    intro other otherPresent
    have selection := only other otherPresent
    by_cases equal : other = row
    · simp [equal, (only row present).mpr rfl]
    · have unselected : selects other = false := by
        simpa [equal] using selection
      simp [equal, unselected]
  rw [← erased]
  exact List.perm_cons_erase present

/-- Updating the only selected row replaces that row. -/
theorem perm_update
    (table : Table ρ) (selects : ρ → Bool) (assign : ρ → ρ) (keeps)
    {row : ρ}
    (present : row ∈ table.rows)
    (only : ∀ other ∈ table.rows, selects other = true ↔ other = row) :
    (table.update selects assign keeps).rows.Perm
      (assign row :: (table.delete selects).rows) := by
  have selected := (only row present).mpr rfl
  have permuted := (table.perm_delete selects present only).map
    fun other => if selects other then assign other else other
  rw [List.map_cons, selected, if_pos rfl] at permuted
  have kept : (table.delete selects).rows.map
      (fun other => if selects other then assign other else other) =
        (table.delete selects).rows := by
    conv_rhs => rw [← List.map_id (table.delete selects).rows]
    apply List.map_congr_left
    intro other otherPresent
    have unselected := ((table.mem_delete selects other).mp otherPresent).2
    simp [unselected]
  rw [kept] at permuted
  exact permuted

end Table

/-! ## Tables with automatic row numbers -/

/-- Rows with an integer primary key. -/
class Numbered (ρ : Type) extends Row ρ where
  id : ρ → Int
  clash_of_id : ∀ first second, id first = id second → Clash first second

/-- A table whose row numbers are handed out in order and never reused:
`last` is the largest number ever used. -/
structure Series (ρ : Type) [Numbered ρ] extends Table ρ where
  last : Int
  bounded : ∀ row ∈ rows, Numbered.id row ≤ last

namespace Series

variable {ρ : Type} [Numbered ρ]

@[ext] theorem ext
    {first second : Series ρ}
    (equal : first.rows = second.rows)
    (equalLast : first.last = second.last) : first = second := by
  obtain ⟨⟨rows, distinct⟩, last, bounded⟩ := first
  cases equal
  cases equalLast
  rfl

/-- The series without rows. -/
def empty : Series ρ where
  toTable := Table.empty
  last := 0
  bounded := by simp

@[simp] theorem empty_rows : (empty : Series ρ).rows = [] := rfl

/-- `DELETE ... WHERE`; the numbers of deleted rows stay used. -/
def delete (series : Series ρ) (selects : ρ → Bool) : Series ρ where
  toTable := series.toTable.delete selects
  last := series.last
  bounded := fun row present =>
    series.bounded row ((series.mem_delete selects row).mp present).1

@[simp] theorem delete_rows (series : Series ρ) (selects : ρ → Bool) :
    (series.delete selects).rows =
      series.rows.filter fun row => !selects row := rfl

@[simp] theorem delete_last (series : Series ρ) (selects : ρ → Bool) :
    (series.delete selects).last = series.last := rfl

/-- `UPDATE ... WHERE` with an assignment that keeps the row number and the
constrained columns. -/
def update
    (series : Series ρ)
    (selects : ρ → Bool)
    (assign : ρ → ρ)
    (keepsId : ∀ row, Numbered.id (assign row) = Numbered.id row)
    (keeps : ∀ first second,
      Row.Clash
        (if selects first then assign first else first)
        (if selects second then assign second else second) →
          Row.Clash first second) : Series ρ where
  toTable := series.toTable.update selects assign keeps
  last := series.last
  bounded := by
    intro row present
    simp only [Table.update_rows, List.mem_map] at present
    obtain ⟨source, sourcePresent, rfl⟩ := present
    have sourceBounded := series.bounded source sourcePresent
    split
    · rw [keepsId]
      exact sourceBounded
    · exact sourceBounded

@[simp] theorem update_rows
    (series : Series ρ) (selects : ρ → Bool) (assign : ρ → ρ)
    (keepsId) (keeps) :
    (series.update selects assign keepsId keeps).rows =
      series.rows.map fun row =>
        if selects row then assign row else row := rfl

@[simp] theorem update_last
    (series : Series ρ) (selects : ρ → Bool) (assign : ρ → ρ)
    (keepsId) (keeps) :
    (series.update selects assign keepsId keeps).last = series.last := rfl

/-- `UPDATE ... WHERE` that may violate a uniqueness constraint. -/
def update?
    (series : Series ρ)
    (selects : ρ → Bool)
    (assign : ρ → ρ)
    (keepsId : ∀ row, Numbered.id (assign row) = Numbered.id row) :
    Option (Series ρ) :=
  let rows := series.rows.map fun row =>
    if selects row then assign row else row
  if distinct : rows.Pairwise fun first second => ¬Row.Clash first second then
    some
      { rows := rows
        distinct := distinct
        last := series.last
        bounded := by
          intro row present
          simp only [rows, List.mem_map] at present
          obtain ⟨source, sourcePresent, rfl⟩ := present
          have sourceBounded := series.bounded source sourcePresent
          split
          · rw [keepsId]
            exact sourceBounded
          · exact sourceBounded }
  else none

theorem update?_eq_some
    {series final : Series ρ} {selects : ρ → Bool} {assign : ρ → ρ}
    {keepsId : ∀ row, Numbered.id (assign row) = Numbered.id row}
    (updated : series.update? selects assign keepsId = some final) :
    final.rows = (series.rows.map fun row =>
      if selects row then assign row else row) ∧
      final.last = series.last := by
  unfold update? at updated
  simp only at updated
  split at updated
  · cases updated
    exact ⟨rfl, rfl⟩
  · cases updated

/-- `INSERT` of a row, under the next row number, that clashes with no row of
the table. -/
def insert
    (series : Series ρ)
    (make : Int → ρ)
    (numbered : ∀ number, Numbered.id (make number) = number)
    (apart : ∀ other ∈ series.rows,
      ¬Row.Clash other (make (series.last + 1))) : Series ρ where
  toTable := series.toTable.insert (make (series.last + 1)) apart
  last := series.last + 1
  bounded := by
    intro row present
    simp only [Table.insert_rows, List.mem_append, List.mem_singleton]
      at present
    rcases present with old | rfl
    · have oldBounded := series.bounded row old
      omega
    · exact Int.le_of_eq (numbered _)

@[simp] theorem insert_rows
    (series : Series ρ) (make : Int → ρ) (numbered) (apart) :
    (series.insert make numbered apart).rows =
      series.rows ++ [make (series.last + 1)] := rfl

@[simp] theorem insert_last
    (series : Series ρ) (make : Int → ρ) (numbered) (apart) :
    (series.insert make numbered apart).last = series.last + 1 := rfl

/-- The series after an `INSERT` that turned into an `UPDATE`: the number that
was taken for the row stays used. -/
def skip (series : Series ρ) : Series ρ where
  toTable := series.toTable
  last := series.last + 1
  bounded := fun row present =>
    (series.bounded row present).trans (Int.le_add_one (Int.le_refl _))

@[simp] theorem skip_rows (series : Series ρ) :
    series.skip.rows = series.rows := rfl

@[simp] theorem skip_last (series : Series ρ) :
    series.skip.last = series.last + 1 := rfl

/-- `INSERT` of a row under the next row number, which fails on a clash. -/
def insert?
    (series : Series ρ)
    (make : Int → ρ)
    (numbered : ∀ number, Numbered.id (make number) = number) :
    Option (Series ρ) :=
  if apart : ∀ other ∈ series.rows,
      ¬Row.Clash other (make (series.last + 1)) then
    some (series.insert make numbered apart)
  else none

theorem insert?_eq_some
    {series final : Series ρ} {make : Int → ρ}
    {numbered : ∀ number, Numbered.id (make number) = number}
    (inserted : series.insert? make numbered = some final) :
    final.rows = series.rows ++ [make (series.last + 1)] ∧
      final.last = series.last + 1 := by
  unfold insert? at inserted
  split at inserted
  · cases inserted
    exact ⟨rfl, rfl⟩
  · cases inserted

/-- A new row has a number that no row of the series has. -/
theorem id_ne_next
    (series : Series ρ) {row : ρ} (present : row ∈ series.rows) :
    Numbered.id row ≠ series.last + 1 := by
  have bounded := series.bounded row present
  omega

theorem eq_of_id
    (series : Series ρ) {first second : ρ}
    (firstPresent : first ∈ series.rows)
    (secondPresent : second ∈ series.rows)
    (equal : Numbered.id first = Numbered.id second) : first = second :=
  series.eq_of_clash firstPresent secondPresent
    (Numbered.clash_of_id _ _ equal)

end Series

end Tables
