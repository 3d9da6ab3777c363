import Mathlib.Data.List.Sort
import Mathlib.Order.Defs.LinearOrder
import Mathlib.Tactic.Linarith

/-!
# Keyset pagination

A table is read page by page: a page holds the first rows, in the order of
their keys, whose key is behind a cursor, and its own cursor is the key of its
last row.  The table may be a different one at each page.  A row that is there
throughout, under one key, is read exactly once.
-/

namespace Paging

variable {α κ : Type} [LinearOrder κ]

/-- A key is behind a cursor; without a cursor every key is. -/
def Behind : Option κ → κ → Prop
  | none, _ => True
  | some cursor, key => cursor < key

instance : DecidableRel (Behind (κ := κ))
  | none, _ => inferInstanceAs (Decidable True)
  | some _, _ => inferInstanceAs (Decidable (_ < _))

theorem Behind.trans
    {cursor : Option κ} {first second : κ}
    (behind : Behind cursor first) (less : first < second) :
    Behind cursor second := by
  cases cursor with
  | none => trivial
  | some cursor => exact lt_trans behind less

/-- A page of rows, and the cursor for the next one unless it is the last. -/
structure Page (α κ : Type) where
  items : List α
  next : Option κ

section Pages

variable (key : α → κ)

/-- The rows behind a cursor, in the order of their keys. -/
def remaining (cursor : Option κ) (rows : List α) : List α :=
  (rows.filter fun row => decide (Behind cursor (key row))).insertionSort
    fun first second => key first ≤ key second

/-- The first page behind a cursor. -/
def page (limit : Nat) (cursor : Option κ) (rows : List α) : Page α κ :=
  let fetched := (remaining key cursor rows).take (limit + 1)
  if limit < fetched.length then
    ⟨fetched.take limit, (fetched.take limit).getLast?.map key⟩
  else ⟨fetched, none⟩

/-- Page after page, one table for each, up to the last page. -/
def walk (limit : Nat) : Option κ → List (List α) → List (Page α κ)
  | _, [] => []
  | cursor, rows :: later =>
      let first := page key limit cursor rows
      first ::
        match first.next with
        | none => []
        | some next => walk limit (some next) later

variable {key : α → κ} {limit : Nat} {cursor : Option κ} {rows : List α}

@[simp] theorem mem_remaining {row : α} :
    row ∈ remaining key cursor rows ↔ row ∈ rows ∧ Behind cursor (key row) := by
  simp [remaining]

theorem remaining_sorted :
    (remaining key cursor rows).Pairwise fun first second =>
      key first ≤ key second := by
  have total : Std.Total fun first second : α => key first ≤ key second :=
    ⟨fun first second => le_total (key first) (key second)⟩
  have transitive : IsTrans α fun first second => key first ≤ key second :=
    ⟨fun _ _ _ => le_trans⟩
  exact List.pairwise_insertionSort _ _

/-- Rows with distinct keys are read in strictly increasing order. -/
theorem remaining_increasing (distinct : (rows.map key).Nodup) :
    (remaining key cursor rows).Pairwise fun first second =>
      key first < key second := by
  have kept : ((remaining key cursor rows).map key).Nodup := by
    have shorter : ((rows.filter fun row =>
        decide (Behind cursor (key row))).map key).Nodup :=
      distinct.sublist (List.filter_sublist.map key)
    exact ((List.perm_insertionSort _ _).map key).nodup_iff.mpr shorter
  rw [List.Nodup, List.pairwise_map] at kept
  exact remaining_sorted.imp₂ (fun _ _ le ne => lt_of_le_of_ne le ne) kept

theorem page_items :
    (page key limit cursor rows).items =
      (remaining key cursor rows).take limit := by
  unfold page
  simp only
  split
  · rw [List.take_take, Nat.min_eq_left (Nat.le_succ limit)]
  · rename_i short
    rw [List.length_take] at short
    rw [List.take_of_length_le (by omega), List.take_of_length_le (by omega)]

theorem page_next :
    (page key limit cursor rows).next =
      if limit < (remaining key cursor rows).length then
        ((remaining key cursor rows).take limit).getLast?.map key
      else none := by
  unfold page
  simp only [List.length_take]
  split
  · rw [if_pos (by omega), List.take_take,
      Nat.min_eq_left (Nat.le_succ limit)]
  · rw [if_neg (by omega)]

/-- A page with a cursor ends with the row that the cursor is of. -/
theorem page_next_some
    {next : κ} (more : (page key limit cursor rows).next = some next) :
    limit < (remaining key cursor rows).length ∧
      ∃ last, ((remaining key cursor rows).take limit).getLast? = some last ∧
        key last = next := by
  rw [page_next] at more
  split at more
  · rename_i long
    exact ⟨long, Option.map_eq_some_iff.mp more⟩
  · cases more

/-- A page without a cursor holds all that was left. -/
theorem page_next_none
    (positive : 0 < limit) (last : (page key limit cursor rows).next = none) :
    (page key limit cursor rows).items = remaining key cursor rows := by
  rw [page_items]
  rw [page_next] at last
  split at last
  · rename_i long
    rw [Option.map_eq_none_iff, List.getLast?_eq_none_iff,
      List.take_eq_nil_iff] at last
    rcases last with zero | empty
    · omega
    · rw [empty] at long
      cases long
  · rename_i short
    exact List.take_of_length_le (not_lt.mp short)

/-- The rows of a page are not behind its cursor, and the rows that follow
are not before it. -/
theorem page_splits
    {next : κ} (more : (page key limit cursor rows).next = some next) :
    (∀ row ∈ (remaining key cursor rows).take limit, key row ≤ next) ∧
      ∀ row ∈ (remaining key cursor rows).drop limit, next ≤ key row := by
  obtain ⟨-, last, ends, rfl⟩ := page_next_some more
  have sorted : (remaining key cursor rows).Pairwise fun first second =>
      key first ≤ key second := remaining_sorted
  rw [← List.take_append_drop limit (remaining key cursor rows),
    List.pairwise_append] at sorted
  obtain ⟨front, -, across⟩ := sorted
  refine ⟨fun row present => ?_, fun row present =>
    across last (List.mem_of_getLast? ends) row present⟩
  obtain ⟨before, same⟩ := List.getLast?_eq_some_iff.mp ends
  rw [same, List.mem_append, List.mem_singleton] at present
  rw [same, List.pairwise_append] at front
  rcases present with earlier | rfl
  · exact front.2.2 row earlier last (List.mem_singleton_self last)
  · exact le_rfl

theorem walk_cons_last
    {later : List (List α)}
    (last : (page key limit cursor rows).next = none) :
    walk key limit cursor (rows :: later) = [page key limit cursor rows] := by
  rw [walk]
  simp only [last]

theorem walk_cons_next
    {later : List (List α)} {next : κ}
    (more : (page key limit cursor rows).next = some next) :
    walk key limit cursor (rows :: later) =
      page key limit cursor rows :: walk key limit (some next) later := by
  rw [walk]
  simp only [more]

/-! ## Tables that change -/

/-- A walk visits pages. -/
theorem walk_pages
    (tables : List (List α)) :
    ∀ visited ∈ walk key limit cursor tables,
      ∃ cursor rows, visited = page key limit cursor rows := by
  induction tables generalizing cursor with
  | nil => simp [walk]
  | cons rows later inductionHypothesis =>
      cases more : (page key limit cursor rows).next with
      | none =>
          rw [walk_cons_last more, List.forall_mem_singleton]
          exact ⟨cursor, rows, rfl⟩
      | some next =>
          rw [walk_cons_next more, List.forall_mem_cons]
          exact ⟨⟨cursor, rows, rfl⟩, inductionHypothesis⟩

/-- What a walk reads is behind its cursor and was in a table that it
visited. -/
theorem walk_reads_from
    (tables : List (List α)) :
    ∀ row ∈ (walk key limit cursor tables).flatMap Page.items,
      Behind cursor (key row) ∧
        ∃ rows ∈ tables.take (walk key limit cursor tables).length,
          row ∈ rows := by
  induction tables generalizing cursor with
  | nil => simp [walk]
  | cons rows later inductionHypothesis =>
      intro row read
      have here (present : row ∈ (page key limit cursor rows).items) :
          row ∈ rows ∧ Behind cursor (key row) := by
        rw [page_items] at present
        exact mem_remaining.mp (List.mem_of_mem_take present)
      cases more : (page key limit cursor rows).next with
      | none =>
          rw [walk_cons_last more] at read ⊢
          simp only [List.flatMap_singleton] at read
          exact ⟨(here read).2, rows, by simp, (here read).1⟩
      | some next =>
          rw [walk_cons_next more] at read ⊢
          rw [List.flatMap_cons, List.mem_append] at read
          rw [List.length_cons, List.take_succ_cons]
          rcases read with now | then'
          · exact ⟨(here now).2, rows, List.mem_cons_self, (here now).1⟩
          · obtain ⟨behind, found⟩ := inductionHypothesis row then'
            obtain ⟨-, last, ends, rfl⟩ := page_next_some more
            have lastBehind := (mem_remaining.mp (List.mem_of_mem_take
              (List.mem_of_getLast? ends))).2
            obtain ⟨table, visited, present⟩ := found
            exact ⟨lastBehind.trans behind, table,
              List.mem_cons_of_mem _ visited, present⟩

/-- Keys are read in strictly increasing order. -/
theorem walk_increasing
    (tables : List (List α))
    (distinct : ∀ rows ∈ tables, (rows.map key).Nodup) :
    ((walk key limit cursor tables).flatMap Page.items).Pairwise
      fun first second => key first < key second := by
  induction tables generalizing cursor with
  | nil => simp [walk]
  | cons rows later inductionHypothesis =>
      rw [List.forall_mem_cons] at distinct
      have here : (page key limit cursor rows).items.Pairwise
          fun first second => key first < key second := by
        rw [page_items]
        exact (remaining_increasing distinct.1).sublist
          (List.take_sublist limit _)
      cases more : (page key limit cursor rows).next with
      | none =>
          rw [walk_cons_last more, List.flatMap_singleton]
          exact here
      | some next =>
          rw [walk_cons_next more, List.flatMap_cons, List.pairwise_append]
          refine ⟨here, inductionHypothesis distinct.2, ?_⟩
          intro first firstRead second secondRead
          rw [page_items] at firstRead
          exact lt_of_le_of_lt ((page_splits more).1 first firstRead)
            (walk_reads_from later second secondRead).1

/-- A key that is behind the cursor and in every table visited is read by a
walk that gets to its last page. -/
theorem walk_reads_all
    (positive : 0 < limit) (tables : List (List α)) {value : κ}
    (ended : ∃ visited ∈ walk key limit cursor tables, visited.next = none)
    (behind : Behind cursor value)
    (throughout : ∀ rows ∈ tables.take (walk key limit cursor tables).length,
      ∃ row ∈ rows, key row = value) :
    ∃ row ∈ (walk key limit cursor tables).flatMap Page.items,
      key row = value := by
  induction tables generalizing cursor with
  | nil => simp [walk] at ended
  | cons rows later inductionHypothesis =>
      cases more : (page key limit cursor rows).next with
      | none =>
          rw [walk_cons_last more] at throughout ⊢
          obtain ⟨row, present, rfl⟩ := throughout rows (by simp)
          rw [List.flatMap_singleton, page_next_none positive more]
          exact ⟨row, mem_remaining.mpr ⟨present, behind⟩, rfl⟩
      | some next =>
          rw [walk_cons_next more] at throughout ended ⊢
          rw [List.length_cons, List.take_succ_cons, List.forall_mem_cons]
            at throughout
          rw [List.flatMap_cons]
          by_cases later' : next < value
          · rw [List.exists_mem_cons_iff, more] at ended
            obtain ⟨row, read, same⟩ := inductionHypothesis
              (ended.resolve_left (by simp)) later' throughout.2
            exact ⟨row, List.mem_append_right _ read, same⟩
          · obtain ⟨row, present, rfl⟩ := throughout.1
            have left := mem_remaining.mpr ⟨present, behind⟩
            rw [← List.take_append_drop limit (remaining key cursor rows),
              List.mem_append] at left
            rw [page_items]
            rcases left with read | skipped
            · exact ⟨row, List.mem_append_left _ read, rfl⟩
            · -- The row has the key of the cursor, as the page's last row.
              obtain ⟨-, last, ends, same⟩ := page_next_some more
              have least := (page_splits more).2 row skipped
              exact ⟨last, List.mem_append_left _ (List.mem_of_getLast? ends),
                same.trans (le_antisymm least (not_lt.mp later'))⟩

/-! ## A table that stays the same -/

/-- The cursor of a page leaves what the page did not hold. -/
theorem remaining_next
    {next : κ} (distinct : (rows.map key).Nodup)
    (more : (page key limit cursor rows).next = some next) :
    remaining key (some next) rows =
      (remaining key cursor rows).drop limit := by
  have split : (remaining key cursor rows).Pairwise fun first second =>
      key first < key second := remaining_increasing distinct
  rw [← List.take_append_drop limit (remaining key cursor rows),
    List.pairwise_append] at split
  obtain ⟨-, last, ends, rfl⟩ := page_next_some more
  have lastRead := List.mem_of_getLast? ends
  have lastBehind := (mem_remaining.mp (List.mem_of_mem_take lastRead)).2
  have members (row : α) :
      row ∈ remaining key (some (key last)) rows ↔
        row ∈ (remaining key cursor rows).drop limit := by
    constructor
    · intro present
      obtain ⟨stored, after⟩ := mem_remaining.mp present
      have left : row ∈ remaining key cursor rows :=
        mem_remaining.mpr ⟨stored, lastBehind.trans after⟩
      rw [← List.take_append_drop limit (remaining key cursor rows),
        List.mem_append] at left
      exact left.resolve_left fun read =>
        absurd after (not_lt.mpr ((page_splits more).1 row read))
    · intro skipped
      have stored := (mem_remaining.mp (List.mem_of_mem_drop skipped)).1
      exact mem_remaining.mpr
        ⟨stored, split.2.2 last lastRead row skipped⟩
  have apart {front back : α} (less : key front < key back) : front ≠ back :=
    fun same => absurd less (same ▸ lt_irrefl _)
  refine @List.Perm.eq_of_pairwise α
    (fun first second => key first < key second) _ _
    (fun first second _ _ less greater => absurd greater (lt_asymm less))
    (remaining_increasing distinct) split.2.1 ?_
  rw [List.perm_ext_iff_of_nodup]
  · exact members
  · exact (remaining_increasing distinct).imp apart
  · exact split.2.1.imp apart

/-- The number of pages for so many rows; an empty result has one page. -/
def pageCount (limit count : Nat) : Nat :=
  max 1 ((count + limit - 1) / limit)

theorem pageCount_last {limit count : Nat} (short : count ≤ limit) :
    pageCount limit count = 1 := by
  unfold pageCount
  have few : (count + limit - 1) / limit ≤ 1 := by
    rcases Nat.eq_zero_or_pos limit with rfl | positive
    · simp
    · rw [Nat.div_le_iff_le_mul_add_pred positive]
      omega
  omega

theorem pageCount_next
    {limit count : Nat} (positive : 0 < limit) (long : limit < count) :
    pageCount limit count = pageCount limit (count - limit) + 1 := by
  unfold pageCount
  have fewer : (count + limit - 1) / limit =
      (count - limit + limit - 1) / limit + 1 := by
    rw [← Nat.add_div_right _ positive]
    congr 1
    omega
  have some : 1 ≤ (count - limit + limit - 1) / limit := by
    rw [Nat.one_le_div_iff positive]
    omega
  omega

/-- A table that stays the same is read in order, on as many pages as it
takes. -/
theorem walk_same
    (positive : 0 < limit) (distinct : (rows.map key).Nodup)
    (count : Nat)
    (enough : pageCount limit (remaining key cursor rows).length ≤ count) :
    (walk key limit cursor (List.replicate count rows)).flatMap Page.items =
        remaining key cursor rows ∧
      (walk key limit cursor (List.replicate count rows)).length =
        pageCount limit (remaining key cursor rows).length ∧
      ∃ visited ∈ walk key limit cursor (List.replicate count rows),
        visited.next = none := by
  induction count generalizing cursor with
  | zero =>
      have one : 1 ≤ pageCount limit (remaining key cursor rows).length :=
        le_max_left _ _
      omega
  | succ count inductionHypothesis =>
      rw [List.replicate_succ]
      cases more : (page key limit cursor rows).next with
      | none =>
          have all := page_next_none positive more
          have short : (remaining key cursor rows).length ≤ limit := by
            rw [← all, page_items]
            exact List.length_take_le limit _
          rw [walk_cons_last more, List.flatMap_singleton,
            pageCount_last short]
          exact ⟨all, rfl, _, List.mem_singleton_self _, more⟩
      | some next =>
          have long := (page_next_some more).1
          have rest := remaining_next distinct more
          have counted : pageCount limit (remaining key cursor rows).length =
              pageCount limit (remaining key (some next) rows).length + 1 := by
            rw [rest, List.length_drop, ← pageCount_next positive long]
          have fewer : pageCount limit
              (remaining key (some next) rows).length ≤ count := by omega
          obtain ⟨read, pages, visited, present, final⟩ :=
            inductionHypothesis fewer
          rw [walk_cons_next more, List.flatMap_cons, read, page_items, rest,
            List.take_append_drop, List.length_cons, pages, counted]
          exact ⟨rfl, rfl, visited, List.mem_cons_of_mem _ present, final⟩

end Pages

end Paging
