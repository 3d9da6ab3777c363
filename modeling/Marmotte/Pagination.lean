import Marmotte.Listing
import Marmotte.Paging.Base64Url
import Marmotte.Paging.FlatJson
import Marmotte.Paging.Keyset
import Mathlib.Data.Prod.Lex
import Mathlib.Data.String.Basic
import Mathlib.Data.Sum.Order

/-!
# Pagination

A caller who asks for page after page of a listing, while the entries change,
is given every entry that keeps its place once, in order.  A prefix of tens of
kilobytes is the exception: SQLite does not take the pattern.
-/

namespace Marmotte

open Tables

namespace Entries

/-! ## What a cursor goes through -/

section Cursors

variable {env : ListingEnv}

/-- A cursor with a text or a 64-bit integer survives its way through the
client. -/
theorem Cursor.decode_encode
    {cursor : Cursor} (plain : cursor.sv.Plain)
    (fits : fitsI64 cursor.id = true) :
    Cursor.decode env (cursor.encode env) = .ok cursor := by
  have read := env.json_round [("sv", cursor.sv), ("id", .integer cursor.id)]
    (by simp) (by
      rw [List.forall_mem_cons, List.forall_mem_singleton]
      exact ⟨plain, fits⟩)
  have parsed : (env.jsonParse
      (env.jsonText cursor.serialize).toUTF8.data.toList).bind
        Cursor.deserialize = some cursor := by
    rw [Cursor.serialize, read]
    simp [Cursor.deserialize, Cursor.deserializeI64, fits]
  rw [Cursor.decode, Cursor.encode, env.base64_round]
  simp only [parsed]

/-- The 64-bit columns of an entry. -/
def FitsI64 (entry : Entry) : Prop :=
  fitsI64 entry.id = true ∧ fitsI64 entry.lastAccessed = true ∧
    fitsI64 entry.sizeBytes = true

theorem sortValueOf_plain
    {entry : Entry} (fits : FitsI64 entry) (sort : SortField) :
    (sortValueOf entry sort).Plain := by
  cases sort with
  | path => trivial
  | lastAccessed => exact fits.2.1
  | size => exact fits.2.2
  | createdAt => exact fits.1

/-- The value in a cursor is bound as the value of its column. -/
theorem bindJson_sortValueOf
    {entry : Entry} (fits : FitsI64 entry) (sort : SortField) :
    bindJson env (sortValueOf entry sort) = sort.column entry := by
  cases sort with
  | path => rfl
  | lastAccessed => simp [bindJson, sortValueOf, SortField.column, fits.2.1]
  | size => simp [bindJson, sortValueOf, SortField.column, fits.2.2]
  | createdAt => simp [bindJson, sortValueOf, SortField.column, fits.1]

theorem column_swap (sort : SortField) (first second : Entry) :
    (sort.column second).compare env (sort.column first) =
      ((sort.column first).compare env (sort.column second)).swap := by
  cases sort <;> exact (cmp_swap _ _).symm

theorem SortOrder_cmp_swap (order : SortOrder) (ordering : Ordering) :
    order.cmp ordering.swap = order.precedes ordering := by
  cases order <;> cases ordering <;> rfl

/-- The cursor of an entry. -/
def cursorOf (sort : SortField) (entry : Entry) : Cursor :=
  ⟨sortValueOf entry sort, entry.id⟩

/-- The entries past the cursor of an entry are those that it precedes. -/
theorem isPast_cursorOf
    {last : Entry} (fits : FitsI64 last) (sort : SortField) (order : SortOrder)
    (entry : Entry) :
    isPast env sort order (cursorOf sort last) entry =
      decide (Precedes env sort order last entry) := by
  have ids : cmp entry.id last.id = (cmp last.id entry.id).swap :=
    (cmp_swap _ _).symm
  rw [Bool.eq_iff_iff, decide_eq_true_iff, isPast, cursorOf,
    bindJson_sortValueOf fits, Precedes, column_swap sort last entry, ids,
    SortOrder_cmp_swap, SortOrder_cmp_swap, Bool.or_eq_true,
    Bool.and_eq_true, decide_eq_true_eq, Ordering.swap_eq_eq]

end Cursors

/-! ## Sort keys -/

/-- The sort column and the row number, compared one after the other. -/
abbrev SortKey : Type := (Int ⊕ₗ List Nat) ×ₗ Int

def sortValue : SortField → Entry → Int ⊕ₗ List Nat
  | .path, entry => toLex (.inr (collated entry.path))
  | .lastAccessed, entry => toLex (.inl entry.lastAccessed)
  | .size, entry => toLex (.inl entry.sizeBytes)
  | .createdAt, entry => toLex (.inl entry.id)

def sortKey (sort : SortField) (entry : Entry) : SortKey :=
  toLex (sortValue sort entry, entry.id)

section Keys

variable {env : ListingEnv}

theorem compare_column (sort : SortField) (first second : Entry) :
    (sort.column first).compare env (sort.column second) =
      cmp (sortValue sort first) (sortValue sort second) := by
  cases sort with
  | path =>
      simp [SortField.column, SqlValue.compare, sortValue, cmp, cmpUsing]
  | lastAccessed =>
      simp [SortField.column, SqlValue.compare, sortValue, cmp, cmpUsing]
  | size =>
      simp [SortField.column, SqlValue.compare, sortValue, cmp, cmpUsing]
  | createdAt =>
      simp [SortField.column, SqlValue.compare, sortValue, cmp, cmpUsing]

theorem precedes_asc (sort : SortField) (first second : Entry) :
    Precedes env sort .asc first second ↔
      sortKey sort first < sortKey sort second := by
  rw [Precedes, compare_column, SortOrder.precedes, SortOrder.precedes,
    decide_eq_true_iff, decide_eq_true_iff, cmp_eq_lt_iff, cmp_eq_eq_iff,
    cmp_eq_lt_iff, sortKey, sortKey, Prod.Lex.toLex_lt_toLex]

theorem precedes_desc (sort : SortField) (first second : Entry) :
    Precedes env sort .desc first second ↔
      sortKey sort second < sortKey sort first := by
  rw [Precedes, compare_column, SortOrder.precedes, SortOrder.precedes,
    decide_eq_true_iff, decide_eq_true_iff, cmp_eq_gt_iff, cmp_eq_eq_iff,
    cmp_eq_gt_iff, eq_comm, sortKey, sortKey, Prod.Lex.toLex_lt_toLex]

/-- Either order is the order of a key that identifies what the sort key
identifies. -/
theorem precedes_by_key (sort : SortField) (order : SortOrder) :
    ∃ (κ : Type) (_ : LinearOrder κ) (key : Entry → κ),
      (∀ first second,
        Precedes env sort order first second ↔ key first < key second) ∧
      ∀ first second, key first = key second ↔
        sortKey sort first = sortKey sort second := by
  cases order with
  | asc =>
      exact ⟨SortKey, inferInstance, sortKey sort, precedes_asc sort,
        fun _ _ => Iff.rfl⟩
  | desc =>
      exact ⟨SortKeyᵒᵈ, inferInstance, OrderDual.toDual ∘ sortKey sort,
        precedes_desc sort, fun _ _ => Iff.rfl⟩

end Keys

/-! ## Pages -/

section Pages

variable {env : ListingEnv} {projectId : Int} {f : ListFilter}
variable {κ : Type} [LinearOrder κ] {key : Entry → κ} {db : Db}

/-- The page that a caller gets. -/
def pageOf
    (env : ListingEnv) (sort : SortField) (page : Paging.Page Entry κ) : Page :=
  ⟨page.items,
    page.next.bind fun _ =>
      page.items.getLast?.map fun entry => (cursorOf sort entry).encode env,
    page.next.isSome⟩

/-- The entries of a project that a filter selects. -/
def matching (db : Db) (projectId : Int) (f : ListFilter) : List Entry :=
  db.entries.rows.filter (f.selects projectId)

/-- The cursor of the filter stands behind a key. -/
def Resumes
    (env : ListingEnv) (key : Entry → κ) (f : ListFilter) :
    Option κ → Prop
  | none => f.cursor = none
  | some position => ∃ last, FitsI64 last ∧ key last = position ∧
      f.cursor = some ((cursorOf f.sortField last).encode env)

theorem pastCursor_eq
    (ordered : ∀ first second,
      Precedes env f.sortField f.sortOrder first second ↔
        key first < key second)
    {cursor : Option κ} (resumes : Resumes env key f cursor) :
    pastCursor env f =
      .ok fun entry => decide (Paging.Behind cursor (key entry)) := by
  cases cursor with
  | none =>
      have fresh : f.cursor = none := resumes
      simp only [pastCursor, fresh]
      rfl
  | some position =>
      obtain ⟨last, fits, rfl, resumed⟩ := resumes
      have decoded := @Cursor.decode_encode env (cursorOf f.sortField last)
        (sortValueOf_plain fits _) fits.1
      have same : isPast env f.sortField f.sortOrder
          (cursorOf f.sortField last) =
            fun entry => decide (key last < key entry) := by
        funext entry
        rw [isPast_cursorOf fits]
        exact decide_eq_decide.mpr (ordered last entry)
      simp only [pastCursor, resumed, decoded, bind, Except.bind, same]
      rfl

/-- The rows that the query returns. -/
theorem selected_eq
    (ordered : ∀ first second,
      Precedes env f.sortField f.sortOrder first second ↔
        key first < key second)
    (cursor : Option κ) :
    ((db.entries.rows.filter fun entry => f.selects projectId entry &&
        decide (Paging.Behind cursor (key entry))).insertionSort
      fun first second =>
        ¬Precedes env f.sortField f.sortOrder second first) =
      Paging.remaining key cursor (matching db projectId f) := by
  have relation : (fun first second : Entry =>
      ¬Precedes env f.sortField f.sortOrder second first) =
        fun first second => key first ≤ key second := by
    funext first second
    rw [ordered, not_lt]
  rw [Paging.remaining, matching, List.filter_filter]
  simp only [Bool.and_comm]
  congr 1

/-- A listing is a page of the matching entries in the order of their keys,
unless the pattern is refused. -/
theorem list_eq_page
    (ordered : ∀ first second,
      Precedes env f.sortField f.sortOrder first second ↔
        key first < key second)
    {cursor : Option κ} (resumes : Resumes env key f cursor) :
    list env db projectId f =
      if refused env db projectId f
          (fun entry => decide (Paging.Behind cursor (key entry))) then
        .error (.database .patternTooComplex)
      else .ok (pageOf env f.sortField (Paging.page key f.pageSize.toNat cursor
        (matching db projectId f))) := by
  have past := pastCursor_eq ordered resumes
  have rows := @selected_eq env projectId f κ _ key db ordered cursor
  obtain ⟨low, -⟩ := f.pageSize_bounds
  obtain ⟨limit, size⟩ := Int.eq_ofNat_of_zero_le (by omega : 0 ≤ f.pageSize)
  have successor : ((limit : Int) + 1).toNat = limit + 1 := by omega
  simp only [list, past, bind, Except.bind, rows, size, successor,
    Int.toNat_natCast, pure, Except.pure, Paging.page, pageOf, Nat.cast_lt]
  split
  · rfl
  · generalize (Paging.remaining key cursor (matching db projectId f)).take
      (limit + 1) = fetched
    by_cases more : limit < fetched.length
    · have full : fetched.take limit ≠ [] := by
        rw [ne_eq, List.take_eq_nil_iff]
        rintro (zero | rfl)
        · omega
        · cases more
      have last := List.getLast?_eq_some_getLast full
      simp [more, last, cursorOf]
    · simp [more]

/-- A pattern that is not overlong is never refused. -/
theorem refused_of_short
    (short : f.overlong = false) (past : Entry → Bool) :
    refused env db projectId f past = false := by
  rw [refused, short, Bool.false_and]

/-- A caller walks through the pages of the matching entries, unless the
pattern is refused. -/
theorem traverse_eq_walk
    (ordered : ∀ first second,
      Precedes env f.sortField f.sortOrder first second ↔
        key first < key second)
    {dbs : List Db}
    (fits : ∀ db ∈ dbs, ∀ entry ∈ db.entries.rows, FitsI64 entry)
    {cursor : Option κ} (resumes : Resumes env key f cursor) :
    traverse env projectId f dbs = .ok
        ((Paging.walk key f.pageSize.toNat cursor
          (dbs.map fun db => matching db projectId f)).map
            (pageOf env f.sortField)) ∨
      f.overlong = true ∧
        traverse env projectId f dbs = .error (.database .patternTooComplex) := by
  induction dbs generalizing f cursor with
  | nil => exact .inl rfl
  | cons db later inductionHypothesis =>
      rw [List.forall_mem_cons] at fits
      have listed := @list_eq_page env projectId f κ _ key db ordered cursor
        resumes
      split at listed
      · rename_i struck
        rw [refused, Bool.and_eq_true] at struck
        refine .inr ⟨struck.1, ?_⟩
        simp only [traverse, listed, bind, Except.bind]
      rw [List.map_cons]
      cases more : (Paging.page key f.pageSize.toNat cursor
          (matching db projectId f)).next with
      | none =>
          rw [Paging.walk_cons_last more]
          refine .inl ?_
          simp [traverse, listed, bind, Except.bind, pageOf, more, pure,
            Except.pure]
      | some position =>
          rw [Paging.walk_cons_next more]
          obtain ⟨-, last, ends, same⟩ := Paging.page_next_some more
          have stored : last ∈ db.entries.rows := by
            have present := List.mem_of_mem_take (List.mem_of_getLast? ends)
            exact (List.mem_filter.mp (Paging.mem_remaining.mp present).1).1
          rw [← Paging.page_items] at ends
          have rest := @inductionHypothesis
            { f with cursor := some ((cursorOf f.sortField last).encode env) }
            ordered fits.2 (some position)
            ⟨last, fits.1 last stored, same, rfl⟩
          have cursors : (pageOf env f.sortField
              (Paging.page key f.pageSize.toNat cursor
                (matching db projectId f))).nextCursor =
                  some ((cursorOf f.sortField last).encode env) := by
            simp [pageOf, more, ends]
          rcases rest with rest | ⟨overlong, rest⟩
          · refine .inl ?_
            simp only [traverse, listed, bind, Except.bind, cursors, rest]
            rfl
          · refine .inr ⟨overlong, ?_⟩
            simp only [traverse, listed, bind, Except.bind, cursors, rest]

/-- With a pattern that SQLite takes the caller is refused nothing. -/
theorem traverse_short
    (ordered : ∀ first second,
      Precedes env f.sortField f.sortOrder first second ↔
        key first < key second)
    (short : f.overlong = false) {dbs : List Db}
    (fits : ∀ db ∈ dbs, ∀ entry ∈ db.entries.rows, FitsI64 entry)
    {cursor : Option κ} (resumes : Resumes env key f cursor) :
    traverse env projectId f dbs = .ok
      ((Paging.walk key f.pageSize.toNat cursor
        (dbs.map fun db => matching db projectId f)).map
          (pageOf env f.sortField)) := by
  rcases traverse_eq_walk ordered fits resumes with walked | ⟨overlong, -⟩
  · exact walked
  · rw [short] at overlong
    cases overlong

end Pages

/-! ## Exactness -/

/-- The entries that a caller is given, in order. -/
def returned (pages : List Page) : List Entry := pages.flatMap Page.entries

/-- The caller has got to the last page. -/
def Ended (pages : List Page) : Prop :=
  ∃ page ∈ pages, page.nextCursor = none

/-- An entry exists, satisfies the filter and keeps its sort value in each of
these states. -/
def Steady
    (projectId : Int) (f : ListFilter) (dbs : List Db) (id : Int) : Prop :=
  ∃ value, ∀ db ∈ dbs, ∃ entry ∈ matching db projectId f,
    entry.id = id ∧ f.sortField.column entry = value

/-- What a caller may rely on, whatever happens between the calls. -/
structure Exact
    (env : ListingEnv) (projectId : Int) (f : ListFilter) (dbs : List Db)
    (pages : List Page) : Prop where
  bounded : ∀ page ∈ pages, (page.entries.length : Int) ≤ f.pageSize
  cursors : ∀ page ∈ pages, page.nextCursor.isSome = page.hasMore
  ordered : (returned pages).Pairwise
    (Precedes env f.sortField f.sortOrder)
  once : ∀ id, Steady projectId f (dbs.take pages.length) id →
    ((returned pages).countP fun entry => entry.id = id) ≤ 1
  found : ∀ id, Steady projectId f (dbs.take pages.length) id →
    Ended pages → ∃ entry ∈ returned pages, entry.id = id

section Exactness

variable {env : ListingEnv} {projectId : Int} {f : ListFilter}

theorem column_eq_iff (sort : SortField) (first second : Entry) :
    sort.column first = sort.column second ↔
      sortValue sort first = sortValue sort second := by
  cases sort with
  | path =>
      simp [SortField.column, sortValue, collated_injective.eq_iff]
  | lastAccessed => simp [SortField.column, sortValue]
  | size => simp [SortField.column, sortValue]
  | createdAt => simp [SortField.column, sortValue]

theorem sortKey_eq_iff (sort : SortField) (first second : Entry) :
    sortKey sort first = sortKey sort second ↔
      sort.column first = sort.column second ∧ first.id = second.id := by
  rw [column_eq_iff]
  exact Prod.ext_iff

variable {κ : Type} [LinearOrder κ] {key : Entry → κ}

omit [LinearOrder κ] in
/-- Matching entries of one state have distinct keys. -/
theorem matching_nodup
    (same : ∀ first second, key first = key second ↔
      sortKey f.sortField first = sortKey f.sortField second)
    (db : Db) : ((matching db projectId f).map key).Nodup := by
  rw [List.Nodup, List.pairwise_map]
  have rows : (matching db projectId f).Nodup :=
    db.entries.nodup.sublist List.filter_sublist
  refine List.Pairwise.imp_of_mem ?_ rows
  intro first second firstPresent secondPresent different equal
  refine different (db.entries.eq_of_id (List.mem_filter.mp firstPresent).1
    (List.mem_filter.mp secondPresent).1 ?_)
  exact ((sortKey_eq_iff _ _ _).mp ((same first second).mp equal)).2

/-- A page has a cursor for the caller if and only if it has one. -/
theorem pageOf_nextCursor
    {visited : Paging.Page Entry κ}
    (isPage : ∃ limit cursor rows,
      visited = Paging.page key limit cursor rows) (sort : SortField) :
    (pageOf env sort visited).nextCursor.isSome = visited.next.isSome := by
  obtain ⟨limit, cursor, rows, rfl⟩ := isPage
  cases more : (Paging.page key limit cursor rows).next with
  | none => simp [pageOf, more]
  | some position =>
      obtain ⟨-, last, ends, -⟩ := Paging.page_next_some more
      rw [← Paging.page_items] at ends
      simp [pageOf, more, ends]

/-- Entries that are read in increasing order and of which those with one
number have one key are given once. -/
theorem countP_le_one
    {entries : List Entry} {id : Int}
    (increasing : entries.Pairwise fun first second => key first < key second)
    (one : ∀ first ∈ entries, ∀ second ∈ entries, first.id = id →
      second.id = id → key first = key second) :
    (entries.countP fun entry => entry.id = id) ≤ 1 := by
  induction entries with
  | nil => simp
  | cons entry rest inductionHypothesis =>
      rw [List.pairwise_cons] at increasing
      have fewer := inductionHypothesis increasing.2
        fun first firstPresent second secondPresent =>
          one first (List.mem_cons_of_mem _ firstPresent) second
            (List.mem_cons_of_mem _ secondPresent)
      by_cases numbered : entry.id = id
      · have others : (rest.countP fun other => other.id = id) = 0 := by
          rw [List.countP_eq_zero]
          intro other present otherNumbered
          have less := increasing.1 other present
          rw [one entry List.mem_cons_self other
            (List.mem_cons_of_mem _ present) numbered
            (of_decide_eq_true otherNumbered)] at less
          exact lt_irrefl _ less
        rw [List.countP_cons, others]
        split <;> omega
      · rw [List.countP_cons_of_neg (by simpa using numbered)]
        exact fewer

/-- The pages of the matching entries. -/
def visits
    (key : Entry → κ) (projectId : Int) (f : ListFilter) (dbs : List Db) :
    List (Paging.Page Entry κ) :=
  Paging.walk key f.pageSize.toNat none
    (dbs.map fun db => matching db projectId f)

theorem returned_visits (sort : SortField) (dbs : List Db) :
    returned ((visits key projectId f dbs).map (pageOf env sort)) =
      (visits key projectId f dbs).flatMap Paging.Page.items := by
  simp [returned, List.flatMap_map, pageOf]

theorem visits_pageOf (dbs : List Db) :
    ∀ visited ∈ visits key projectId f dbs, ∃ limit cursor rows,
      visited = Paging.page key limit cursor rows := by
  intro visited present
  obtain ⟨cursor, rows, same⟩ := Paging.walk_pages _ visited present
  exact ⟨f.pageSize.toNat, cursor, rows, same⟩

theorem visits_increasing
    (same : ∀ first second, key first = key second ↔
      sortKey f.sortField first = sortKey f.sortField second)
    (dbs : List Db) :
    ((visits key projectId f dbs).flatMap Paging.Page.items).Pairwise
      fun first second => key first < key second := by
  refine Paging.walk_increasing _ ?_
  intro rows present
  obtain ⟨db, -, rfl⟩ := List.mem_map.mp present
  exact matching_nodup same db

/-- What is given of a steady entry has the sort value that it keeps. -/
theorem visits_steady
    {dbs : List Db} {id : Int} {value : SqlValue}
    (steady : ∀ db ∈ dbs.take (visits key projectId f dbs).length,
      ∃ entry ∈ matching db projectId f,
        entry.id = id ∧ f.sortField.column entry = value) :
    ∀ entry ∈ (visits key projectId f dbs).flatMap Paging.Page.items,
      entry.id = id → f.sortField.column entry = value := by
  intro entry given numbered
  obtain ⟨-, rows, visited, present⟩ :=
    Paging.walk_reads_from _ entry given
  rw [← List.map_take, List.mem_map] at visited
  obtain ⟨db, dbVisited, rfl⟩ := visited
  obtain ⟨other, otherPresent, otherNumbered, kept⟩ := steady db dbVisited
  rw [← kept, db.entries.eq_of_id (List.mem_filter.mp present).1
    (List.mem_filter.mp otherPresent).1 (numbered.trans otherNumbered.symm)]

/-- A steady entry is given by a caller who gets to the last page. -/
theorem visits_found
    (same : ∀ first second, key first = key second ↔
      sortKey f.sortField first = sortKey f.sortField second)
    {dbs : List Db} {id : Int} {value : SqlValue}
    (steady : ∀ db ∈ dbs.take (visits key projectId f dbs).length,
      ∃ entry ∈ matching db projectId f,
        entry.id = id ∧ f.sortField.column entry = value)
    (ended : ∃ visited ∈ visits key projectId f dbs, visited.next = none) :
    ∃ entry ∈ (visits key projectId f dbs).flatMap Paging.Page.items,
      entry.id = id := by
  obtain ⟨low, -⟩ := f.pageSize_bounds
  cases dbs with
  | nil => simp [visits, Paging.walk] at ended
  | cons db later =>
      have first : db ∈ (db :: later).take
          (visits key projectId f (db :: later)).length := by
        obtain ⟨visited, present, -⟩ := ended
        have some : 0 < (visits key projectId f (db :: later)).length :=
          List.length_pos_of_mem present
        obtain ⟨count, counted⟩ := Nat.exists_eq_add_of_lt some
        rw [counted, Nat.zero_add, List.take_succ_cons]
        exact List.mem_cons_self
      obtain ⟨entry, -, numbered, kept⟩ := steady db first
      have throughout : ∀ rows ∈ ((db :: later).map fun db =>
          matching db projectId f).take
            (visits key projectId f (db :: later)).length,
          ∃ row ∈ rows, key row = key entry := by
        intro rows visited
        rw [← List.map_take, List.mem_map] at visited
        obtain ⟨other, otherVisited, rfl⟩ := visited
        obtain ⟨row, present, rowNumbered, rowKept⟩ :=
          steady other otherVisited
        refine ⟨row, present, (same row entry).mpr ?_⟩
        rw [sortKey_eq_iff]
        exact ⟨rowKept.trans kept.symm, rowNumbered.trans numbered.symm⟩
      obtain ⟨row, read, equal⟩ := Paging.walk_reads_all (by omega) _ ended
        trivial throughout
      have keys := (sortKey_eq_iff _ _ _).mp ((same row entry).mp equal)
      exact ⟨row, read, keys.2.trans numbered⟩

theorem exact_of_walk
    (ordered : ∀ first second,
      Precedes env f.sortField f.sortOrder first second ↔
        key first < key second)
    (same : ∀ first second, key first = key second ↔
      sortKey f.sortField first = sortKey f.sortField second)
    (dbs : List Db) :
    Exact env projectId f dbs
      ((visits key projectId f dbs).map (pageOf env f.sortField)) where
  bounded := by
    rw [List.forall_mem_map]
    intro visited present
    obtain ⟨cursor, rows, rfl⟩ := Paging.walk_pages _ visited present
    have short := List.length_take_le f.pageSize.toNat
      (Paging.remaining key cursor rows)
    rw [← Paging.page_items] at short
    have low := f.pageSize_bounds.1
    simp only [pageOf]
    omega
  cursors := by
    rw [List.forall_mem_map]
    intro visited present
    exact pageOf_nextCursor (visits_pageOf dbs visited present) _
  ordered := by
    rw [returned_visits]
    exact (visits_increasing same dbs).imp
      fun {first second} less => (ordered first second).mpr less
  once := by
    rintro id ⟨value, steady⟩
    rw [List.length_map] at steady
    rw [returned_visits]
    refine countP_le_one (visits_increasing same dbs) ?_
    intro first firstGiven second secondGiven numbered secondNumbered
    rw [same, sortKey_eq_iff,
      visits_steady steady first firstGiven numbered,
      visits_steady steady second secondGiven secondNumbered]
    exact ⟨rfl, numbered.trans secondNumbered.symm⟩
  found := by
    rintro id ⟨value, steady⟩ ⟨page, present, last⟩
    rw [List.length_map] at steady
    rw [returned_visits]
    obtain ⟨visited, visitedPresent, rfl⟩ := List.mem_map.mp present
    refine visits_found same steady ⟨visited, visitedPresent, ?_⟩
    have cursors : (pageOf env f.sortField visited).nextCursor.isSome =
        visited.next.isSome :=
      pageOf_nextCursor (visits_pageOf dbs visited visitedPresent) _
    rw [last, Option.isSome_none] at cursors
    exact Option.not_isSome_iff_eq_none.mp (by simp [← cursors])

/-- In a state that stays the same the matching entries are listed, on as many
pages as they take. -/
theorem listed_of_walk
    (same : ∀ first second, key first = key second ↔
      sortKey f.sortField first = sortKey f.sortField second)
    (db : Db) {count : Nat}
    (enough : Paging.pageCount f.pageSize.toNat
      (matching db projectId f).length ≤ count) :
    let pages := (visits key projectId f (List.replicate count db)).map
      (pageOf env f.sortField)
    Ended pages ∧
      pages.length = Paging.pageCount f.pageSize.toNat
        (matching db projectId f).length ∧
      (returned pages).Perm (matching db projectId f) := by
  have low := f.pageSize_bounds.1
  have sorted : (Paging.remaining key none (matching db projectId f)).Perm
      (matching db projectId f) := by
    have all : (matching db projectId f).filter
        (fun entry => decide (Paging.Behind none (key entry))) =
          matching db projectId f :=
      List.filter_eq_self.mpr fun _ _ => decide_eq_true trivial
    rw [Paging.remaining, all]
    exact List.perm_insertionSort _ _
  rw [← sorted.length_eq] at enough
  obtain ⟨read, counted, visited, present, last⟩ := Paging.walk_same
    (show 0 < f.pageSize.toNat by omega) (matching_nodup same db) count enough
  have tables : List.replicate count (matching db projectId f) =
      (List.replicate count db).map fun db => matching db projectId f := by
    rw [List.map_replicate]
  rw [tables] at read counted present
  refine ⟨⟨_, List.mem_map_of_mem present, by simp [pageOf, last]⟩, ?_, ?_⟩
  · rw [List.length_map, ← sorted.length_eq]
    exact counted
  · rw [returned_visits, visits, read]
    exact sorted

end Exactness

/-- An overlong pattern is spared only where it has nothing to match. -/
theorem matching_of_spared
    {env : ListingEnv} {db : Db} {projectId : Int} {f : ListFilter}
    (overlong : f.overlong = true)
    (spared : refused env db projectId f (fun _ => true) = false) :
    matching db projectId f = [] := by
  rw [refused, overlong, Bool.true_and] at spared
  rw [matching, List.filter_eq_nil_iff]
  intro entry present selected
  rw [ListFilter.selects, Bool.and_eq_true] at selected
  have compared := env.compares_row f db.entries.rows
    (fun entry => f.equals projectId entry && true)
    ⟨entry, present, by rw [Bool.and_true]; exact selected.1⟩
  rw [spared] at compared
  cases compared

/-- A caller with enough calls walks through all of a state that stays the
same, if its first call is not refused. -/
theorem traverse_complete
    (env : ListingEnv) (projectId : Int) {f : ListFilter}
    (fresh : f.cursor = none) {db : Db}
    (spared : refused env db projectId f (fun _ => true) = false)
    (fits : ∀ entry ∈ db.entries.rows, FitsI64 entry) {count : Nat}
    (enough : Paging.pageCount f.pageSize.toNat
      (matching db projectId f).length ≤ count) :
    ∃ pages,
      traverse env projectId f (List.replicate count db) = .ok pages ∧
      Ended pages ∧
      pages.length = Paging.pageCount f.pageSize.toNat
        (matching db projectId f).length ∧
      (returned pages).Perm (matching db projectId f) := by
  obtain ⟨κ, _, key, ordered, same⟩ :=
    @precedes_by_key env f.sortField f.sortOrder
  have all : ∀ state ∈ List.replicate count db,
      ∀ entry ∈ state.entries.rows, FitsI64 entry := by
    intro state present
    rw [List.eq_of_mem_replicate present]
    exact fits
  have unread : Resumes env key f none := fresh
  have walked : traverse env projectId f (List.replicate count db) = .ok
      ((visits key projectId f (List.replicate count db)).map
        (pageOf env f.sortField)) := by
    cases overlong : f.overlong with
    | false => exact traverse_short ordered overlong all unread
    | true =>
        have nothing := matching_of_spared overlong spared
        obtain ⟨later, rfl⟩ : ∃ later, count = later + 1 :=
          Nat.exists_eq_add_one.mpr ((le_max_left _ _).trans enough)
        have all : (fun entry => decide (Paging.Behind none (key entry))) =
            fun _ => true := rfl
        have listed := @list_eq_page env projectId f κ _ key db ordered none
          unread
        rw [all, spared, if_neg Bool.false_ne_true, nothing] at listed
        have last : (Paging.page key f.pageSize.toNat none
            ([] : List Entry)).next = none := rfl
        rw [List.replicate_succ, visits, List.map_cons, nothing,
          Paging.walk_cons_last last]
        simp [traverse, listed, bind, Except.bind, pageOf, last, pure,
          Except.pure]
  exact ⟨_, walked, listed_of_walk same db enough⟩

/-- A listing is walked through exactly, whatever happens between the calls,
and only an overlong prefix can be refused; without changes the listing is
walked through in full, and the cursors come back as they were. -/
theorem pagination_exact
    (env : ListingEnv) (projectId : Int) (f : ListFilter)
    (fresh : f.cursor = none) :
    (∀ dbs : List Db,
      (∀ db ∈ dbs, ∀ entry ∈ db.entries.rows, FitsI64 entry) →
        (∃ pages, traverse env projectId f dbs = .ok pages ∧
          Exact env projectId f dbs pages) ∨
        f.overlong = true ∧
          traverse env projectId f dbs =
            .error (.database .patternTooComplex)) ∧
    (∀ (db : Db) (count : Nat), f.overlong = false →
      (∀ entry ∈ db.entries.rows, FitsI64 entry) →
      max 1 (((matching db projectId f).length + f.pageSize.toNat - 1) /
        f.pageSize.toNat) ≤ count →
        ∃ pages,
          traverse env projectId f (List.replicate count db) = .ok pages ∧
          Ended pages ∧
          pages.length = max 1 (((matching db projectId f).length +
            f.pageSize.toNat - 1) / f.pageSize.toNat) ∧
          (returned pages).Perm (matching db projectId f)) ∧
    ∀ id : Int, fitsI64 id = true →
      (∀ text : String,
        Cursor.decode env (Cursor.encode env ⟨.string text, id⟩) =
          .ok ⟨.string text, id⟩ ∧
        bindJson env (.string text) = .text text) ∧
      ∀ value : Int, fitsI64 value = true →
        Cursor.decode env (Cursor.encode env ⟨.integer value, id⟩) =
          .ok ⟨.integer value, id⟩ ∧
        bindJson env (.integer value) = .integer value := by
  obtain ⟨κ, _, key, ordered, same⟩ :=
    @precedes_by_key env f.sortField f.sortOrder
  have unread : Resumes env key f none := fresh
  refine ⟨fun dbs fits => ?_, fun db count short fits enough => ?_,
    fun id idFits => ⟨fun text => ⟨?_, rfl⟩, fun value valueFits => ⟨?_, ?_⟩⟩⟩
  · exact (traverse_eq_walk ordered fits unread).imp_left fun walked =>
      ⟨_, walked, exact_of_walk ordered same dbs⟩
  · exact traverse_complete env projectId fresh (refused_of_short short _)
      fits enough
  · exact Cursor.decode_encode trivial idFits
  · exact Cursor.decode_encode valueFits idFits
  · simp [bindJson, valueFits]

end Entries

/-! ## A concrete environment -/

namespace Sample

/-- A member of a flat object; other values are not written. -/
def scalar : Json → FlatJson.Scalar
  | .integer value => .integer value
  | .string value => .text value
  | _ => .text ""

def ofScalar : FlatJson.Scalar → Json
  | .integer value => .integer value
  | .text value => .string value

theorem ofScalar_scalar {value : Json} (plain : value.Plain) :
    ofScalar (scalar value) = value := by
  cases value <;> first | rfl | exact plain.elim

/-- The text of an object of texts and integers. -/
def jsonText : Json → String
  | .object members =>
      String.ofList (FlatJson.writeObject
        (members.map fun member => (member.1, scalar member.2)))
  | value => String.ofList (FlatJson.writeScalar (scalar value))

def jsonParse (content : Bytes) : Option Json := do
  let text ← String.fromUTF8? ⟨content.toArray⟩
  let members ← FlatJson.readObject text.toList
  some (.object (members.map fun member => (member.1, ofScalar member.2)))

theorem fromUTF8_bytes (text : String) :
    String.fromUTF8? ⟨text.toUTF8.data.toList.toArray⟩ = some text := by
  have valid : (⟨text.toUTF8.data⟩ : ByteArray).IsValidUTF8 :=
    text.isValidUTF8
  rw [Array.toArray_toList, String.fromUTF8?, dif_pos valid]
  rfl

theorem json_round
    (members : List (String × Json))
    (plain : ∀ member ∈ members, member.2.Plain) :
    jsonParse (jsonText (.object members)).toUTF8.data.toList =
      some (.object members) := by
  have back : (members.map fun member => (member.1, scalar member.2)).map
      (fun member => (member.1, ofScalar member.2)) = members := by
    rw [List.map_map]
    conv_rhs => rw [← List.map_id members]
    apply List.map_congr_left
    intro member present
    simp [ofScalar_scalar (plain member present)]
  rw [jsonParse, fromUTF8_bytes]
  simp only [jsonText, bind, Option.bind, String.toList_ofList,
    FlatJson.readObject_write, back]

/-- Base64url and JSON for cursors; the rows that fulfil the other conditions
are compared with the pattern. -/
def listing : ListingEnv where
  base64Encode content := String.ofList (Base64Url.encode content)
  base64Decode text :=
    match Base64Url.decode text.toList with
    | some content => .ok content
    | none => .error "Invalid input."
  base64_round content := by
    rw [String.toList_ofList, Base64Url.decode_encode]
  jsonText := jsonText
  jsonParse := jsonParse
  jsonError _ := "expected value at line 1 column 1"
  json_round members _ plain := json_round members plain
  asF64 value := value
  mixedCompare
    | .text _, _ => .gt
    | _, .text _ => .lt
    | _, _ => .eq
  comparesPath _ rows others := rows.any others
  compares_row _ _ _ found := List.any_eq_true.mpr found

/-- A project with three entries of one age. -/
def tied : Db :=
  let created :=
    match Projects.create 1000 .empty "acme" none none with
    | .ok (_, db) => db
    | .error _ => .empty
  ["a", "b", "c"].foldl
    (fun db path =>
      match Entries.upsert 1000 db 1 .sstate path "hash" 1 with
      | .ok (_, db) => db
      | .error _ => db) created

/-- Two entries on a page, by age. -/
def byAge : ListFilter where
  kind := none
  pinned := none
  pathPrefix := none
  sort := none
  order := none
  limit := some 2
  cursor := none

/-- The same under a prefix. -/
def byAgeUnder (start : String) : ListFilter :=
  { byAge with pathPrefix := some start }

end Sample

namespace Entries

/-- Three entries of one age are listed on two pages. -/
theorem pagination_exact_ties :
    ∃ pages,
      traverse Sample.listing 1 Sample.byAge [Sample.tied, Sample.tied] =
        .ok pages ∧
      Ended pages ∧ pages.length = 2 ∧
      (returned pages).Perm Sample.tied.entries.rows := by
  have fits : ∀ entry ∈ Sample.tied.entries.rows, FitsI64 entry := by
    unfold FitsI64
    decide +kernel
  have all : matching Sample.tied 1 Sample.byAge =
      Sample.tied.entries.rows := by
    decide +kernel
  have listed := (pagination_exact Sample.listing 1 Sample.byAge rfl).2.1
    Sample.tied 2 rfl fits
  rw [all] at listed
  exact listed (by decide +kernel)

/-- A project that has an entry is not listed under an overlong prefix. -/
theorem list_overlong
    {start : String} (overlong : (Sample.byAgeUnder start).overlong = true) :
    list Sample.listing Sample.tied 1 (Sample.byAgeUnder start) =
      .error (.database .patternTooComplex) := by
  obtain ⟨entry, present, owned⟩ :
      ∃ entry ∈ Sample.tied.entries.rows, entry.projectId = 1 := by
    decide +kernel
  have compared := Sample.listing.compares_row (Sample.byAgeUnder start)
    Sample.tied.entries.rows
    (fun entry => (Sample.byAgeUnder start).equals 1 entry && true)
    ⟨entry, present, by
      simp [ListFilter.equals, Sample.byAgeUnder, Sample.byAge, owned]⟩
  have struck : refused Sample.listing Sample.tied 1 (Sample.byAgeUnder start)
      (fun _ => true) = true := by
    rw [refused, overlong, compared, Bool.true_and]
  have fresh : pastCursor Sample.listing (Sample.byAgeUnder start) =
      .ok fun _ => true := rfl
  simp only [list, fresh, bind, Except.bind, struck, if_true]
  rfl

theorem utf8Len_replicate (count : Nat) :
    String.utf8Len (List.replicate count 'a') = count := by
  induction count with
  | zero => rfl
  | succ count inductionHypothesis =>
      rw [List.replicate_succ, String.utf8Len_cons, inductionHypothesis]
      rfl

theorem overlong_replicate {count : Nat} (long : maxLikePattern ≤ count) :
    (Sample.byAgeUnder (String.ofList (List.replicate count 'a'))).overlong =
      true := by
  have size : (String.ofList (List.replicate count 'a') ++ "%").utf8ByteSize =
      count + 1 := by
    rw [String.utf8ByteSize_append, String.utf8ByteSize_ofList,
      utf8Len_replicate]
    rfl
  simp only [ListFilter.overlong, Sample.byAgeUnder, Option.any_some, size,
    decide_eq_true_eq]
  omega

theorem traverse_overlong
    {start : String} (overlong : (Sample.byAgeUnder start).overlong = true) :
    traverse Sample.listing 1 (Sample.byAgeUnder start) [Sample.tied] =
        .error (.database .patternTooComplex) ∧
      ¬∃ count pages,
        traverse Sample.listing 1 (Sample.byAgeUnder start)
          (List.replicate count Sample.tied) = .ok pages ∧ Ended pages := by
  have fails (later : List Db) :
      traverse Sample.listing 1 (Sample.byAgeUnder start)
          (Sample.tied :: later) = .error (.database .patternTooComplex) := by
    simp only [traverse, list_overlong overlong, bind, Except.bind]
  refine ⟨fails [], ?_⟩
  rintro ⟨count, pages, read, page, present, -⟩
  cases count with
  | zero =>
      cases read
      cases present
  | succ count =>
      rw [List.replicate_succ, fails] at read
      cases read

/-- Under a prefix of 50000 bytes no number of calls lists the entries of a
project, not even that there are none: the first is refused. -/
theorem overlong_prefix_is_refused :
    traverse Sample.listing 1
        (Sample.byAgeUnder (String.ofList (List.replicate 50000 'a')))
        [Sample.tied] = .error (.database .patternTooComplex) ∧
      ¬∃ count pages,
        traverse Sample.listing 1
          (Sample.byAgeUnder (String.ofList (List.replicate 50000 'a')))
          (List.replicate count Sample.tied) = .ok pages ∧ Ended pages :=
  traverse_overlong (overlong_replicate (Nat.le_refl maxLikePattern))

example :
    Cursor.encode Sample.listing ⟨.string "a", 1⟩ =
      "eyJzdiI6ImEiLCJpZCI6MX0" := by
  decide +kernel

end Entries

end Marmotte
