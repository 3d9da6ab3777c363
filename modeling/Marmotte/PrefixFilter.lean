import Marmotte.Pagination
import Mathlib.Data.List.Infix

/-!
# The prefix filter

`path_prefix` is put in front of `%` and matched with `LIKE`, whose wildcards
are not escaped and which does not tell the case of ASCII letters.  SQLite reads
both texts up to the first NUL, takes two noncharacters for the replacement
character, and refuses a pattern of more than 50000 bytes.
-/

namespace Marmotte

open Tables

/-! ## What `LIKE` matches -/

/-- The text that is read is matched by the pattern that is read. -/
inductive Like : List Char → List Char → Prop
  | nil : Like [] []
  | many
      (skipped : List Char) (divided : text = skipped ++ rest)
      (matched : Like pattern rest) : Like ('%' :: pattern) text
  | one (d : Char) (matched : Like pattern text) :
      Like ('_' :: pattern) (d :: text)
  | same
      (plain : c ≠ '%') (folded : foldCase c = foldCase d)
      (matched : Like pattern text) : Like (c :: pattern) (d :: text)

theorem patternCompare_iff {pattern text : List Char} :
    patternCompare pattern text = true ↔ Like pattern text := by
  induction pattern generalizing text with
  | nil =>
      constructor
      · intro matched
        rw [patternCompare, List.isEmpty_iff] at matched
        exact matched ▸ .nil
      · rintro ⟨⟩
        rfl
  | cons c pattern inductionHypothesis =>
      by_cases wild : c = '%'
      · subst wild
        simp only [patternCompare, if_true, List.any_eq_true, List.mem_tails]
        constructor
        · rintro ⟨rest, ⟨skipped, rfl⟩, matched⟩
          exact .many skipped rfl (inductionHypothesis.mp matched)
        · intro matched
          cases matched with
          | many skipped divided matched =>
              subst divided
              exact ⟨_, List.suffix_append _ _, inductionHypothesis.mpr matched⟩
          | same plain => exact absurd rfl plain
      · cases text with
        | nil =>
            simp only [patternCompare, if_neg wild, Bool.false_eq_true, false_iff]
            intro matched
            cases matched with
            | many => exact wild rfl
        | cons d text =>
            simp only [patternCompare, if_neg wild, Bool.and_eq_true,
              Bool.or_eq_true, decide_eq_true_eq]
            constructor
            · rintro ⟨rfl | folded, matched⟩
              · exact .one d (inductionHypothesis.mp matched)
              · exact .same wild folded (inductionHypothesis.mp matched)
            · intro matched
              cases matched with
              | many => exact absurd rfl wild
              | one _ matched => exact ⟨.inl rfl, inductionHypothesis.mpr matched⟩
              | same plain folded matched =>
                  exact ⟨.inr folded, inductionHypothesis.mpr matched⟩

namespace Like

theorem refl (pattern : List Char) : Like pattern pattern := by
  induction pattern with
  | nil => exact .nil
  | cons c pattern inductionHypothesis =>
      by_cases wild : c = '%'
      · subst wild
        exact .many ['%'] rfl inductionHypothesis
      · exact .same wild rfl inductionHypothesis

/-- A pattern that ends in `%` matches the texts that start with a match. -/
theorem append_many {pattern text : List Char} :
    Like (pattern ++ ['%']) text ↔
      ∃ taken rest, text = taken ++ rest ∧ Like pattern taken := by
  induction pattern generalizing text with
  | nil =>
      constructor
      · exact fun _ => ⟨[], text, rfl, .nil⟩
      · intro _
        exact .many text (List.append_nil text).symm .nil
  | cons c pattern inductionHypothesis =>
      constructor
      · intro matched
        cases matched with
        | many skipped divided matched =>
            subst divided
            obtain ⟨taken, rest, rfl, start⟩ := inductionHypothesis.mp matched
            exact ⟨skipped ++ taken, rest, by simp, .many skipped rfl start⟩
        | one d matched =>
            obtain ⟨taken, rest, rfl, start⟩ := inductionHypothesis.mp matched
            exact ⟨d :: taken, rest, rfl, .one d start⟩
        | @same _ d _ _ plain folded matched =>
            obtain ⟨taken, rest, rfl, start⟩ := inductionHypothesis.mp matched
            exact ⟨d :: taken, rest, rfl, .same plain folded start⟩
      · rintro ⟨taken, rest, rfl, start⟩
        cases start with
        | many skipped divided start =>
            subst divided
            exact .many skipped (List.append_assoc _ _ _)
              (inductionHypothesis.mpr ⟨_, rest, rfl, start⟩)
        | one d start =>
            exact .one d (inductionHypothesis.mpr ⟨_, rest, rfl, start⟩)
        | same plain folded start =>
            exact .same plain folded
              (inductionHypothesis.mpr ⟨_, rest, rfl, start⟩)

end Like

/-! ## What `LIKE` reads -/

theorem likeText_cons_nul
    {c : Char} (nul : c.toNat = 0) (rest : List Char) :
    likeText (c :: rest) = [] := by
  simp [likeText, nul]

theorem likeText_cons
    {c : Char} (some : c.toNat ≠ 0) (rest : List Char) :
    likeText (c :: rest) = utf8Read c :: likeText rest := by
  simp [likeText, some]

/-- Only the replacement character is read in place of others. -/
theorem utf8Read_cases (c : Char) :
    utf8Read c = c ∨ (utf8Read c).toNat = 0xFFFD := by
  rw [utf8Read]
  split
  · exact .inr (by decide)
  · exact .inl rfl

/-- Only `%` is read as `%`. -/
theorem utf8Read_ne_many {c : Char} (plain : c ≠ '%') : utf8Read c ≠ '%' := by
  rcases utf8Read_cases c with own | replaced
  · rw [own]
    exact plain
  · intro many
    rw [many] at replaced
    exact absurd replaced (by decide)

/-- A text that starts with another is matched by that and `%`. -/
theorem like_of_starts {start text : List Char} (starts : start <+: text) :
    Like (likeText (start ++ ['%'])) (likeText text) := by
  induction start generalizing text with
  | nil => exact .many (likeText text) (List.append_nil _).symm .nil
  | cons c start inductionHypothesis =>
      obtain ⟨rest, rfl⟩ := starts
      rw [List.cons_append, List.cons_append]
      by_cases nul : c.toNat = 0
      · rw [likeText_cons_nul nul, likeText_cons_nul nul]
        exact .nil
      · rw [likeText_cons nul, likeText_cons nul]
        have later := inductionHypothesis (List.prefix_append start rest)
        by_cases many : utf8Read c = '%'
        · rw [many]
          exact .many ['%'] rfl later
        · exact .same many rfl later

/-! ## Literal patterns -/

/-- An ASCII letter. -/
def isLetter (c : Char) : Prop :=
  ('A' ≤ c ∧ c ≤ 'Z') ∨ ('a' ≤ c ∧ c ≤ 'z')

/-- The replacement character or one of those that are read as it. -/
def isReplacement (c : Char) : Prop := 0xFFFD ≤ c.toNat ∧ c.toNat ≤ 0xFFFF

/-- Every character of the pattern stands for itself alone. -/
def Literal (pattern : List Char) : Prop :=
  ∀ c ∈ pattern, c ≠ '%' ∧ c ≠ '_' ∧ ¬isLetter c ∧ c.toNat ≠ 0 ∧
    ¬isReplacement c

theorem isLetter_iff {c : Char} :
    isLetter c ↔ c.toNat ∈ List.range' 65 26 ∨ c.toNat ∈ List.range' 97 26 := by
  have upper : ('A' ≤ c ∧ c ≤ 'Z') ↔ 65 ≤ c.toNat ∧ c.toNat ≤ 90 := Iff.rfl
  have lower : ('a' ≤ c ∧ c ≤ 'z') ↔ 97 ≤ c.toNat ∧ c.toNat ≤ 122 := Iff.rfl
  rw [isLetter, upper, lower]
  simp only [List.mem_range'_1]
  omega

theorem upper_all :
    ∀ number ∈ List.range' 65 26,
      (Char.ofNat (number + 32)).toNat ∈ List.range' 97 26 ∧
      Char.ofNat (number + 32) ≠ Char.ofNat number ∧
        foldCase (Char.ofNat number) = foldCase (Char.ofNat (number + 32)) := by
  decide

theorem lower_all :
    ∀ number ∈ List.range' 97 26,
      (Char.ofNat (number - 32)).toNat ∈ List.range' 65 26 ∧
      Char.ofNat (number - 32) ≠ Char.ofNat number ∧
        foldCase (Char.ofNat number) = foldCase (Char.ofNat (number - 32)) := by
  decide

/-- A character that is no letter shares its folded form with none. -/
theorem eq_of_foldCase
    {c d : Char} (noLetter : ¬isLetter c) (folded : foldCase c = foldCase d) :
    d = c := by
  have kept : foldCase c = c := if_neg fun upper => noLetter (.inl upper)
  by_cases upper : 'A' ≤ d ∧ d ≤ 'Z'
  · have range : d.toNat ∈ List.range' 65 26 := by
      have bounds : 65 ≤ d.toNat ∧ d.toNat ≤ 90 := upper
      rw [List.mem_range'_1]
      omega
    rw [kept, foldCase, if_pos upper] at folded
    rw [isLetter_iff, folded] at noLetter
    exact absurd (.inr (upper_all d.toNat range).1) noLetter
  · rw [kept, foldCase, if_neg upper] at folded
    exact folded.symm

/-- A letter has the same folded form in the other case. -/
theorem exists_other_case {c : Char} (letter : isLetter c) :
    ∃ d, isLetter d ∧ d ≠ c ∧ foldCase c = foldCase d := by
  rcases isLetter_iff.mp letter with upper | lower
  · obtain ⟨other, differs, folded⟩ := upper_all c.toNat upper
    rw [Char.ofNat_toNat] at differs folded
    exact ⟨_, isLetter_iff.mpr (.inr other), differs, folded⟩
  · obtain ⟨other, differs, folded⟩ := lower_all c.toNat lower
    rw [Char.ofNat_toNat] at differs folded
    exact ⟨_, isLetter_iff.mpr (.inl other), differs, folded⟩

/-- A letter is read as it is. -/
theorem utf8Read_letter {c : Char} (letter : isLetter c) :
    c.toNat ≠ 0 ∧ utf8Read c = c := by
  have small : 65 ≤ c.toNat ∧ c.toNat ≤ 122 := by
    have range := isLetter_iff.mp letter
    simp only [List.mem_range'_1] at range
    omega
  exact ⟨by omega, if_neg (by omega)⟩

theorem like_of_literal
    {pattern text : List Char} (literal : Literal pattern)
    (matched : Like pattern text) : text = pattern := by
  induction matched with
  | nil => rfl
  | many => exact absurd rfl (literal '%' List.mem_cons_self).1
  | one => exact absurd rfl (literal '_' List.mem_cons_self).2.1
  | same plain folded _ inductionHypothesis =>
      rw [eq_of_foldCase (literal _ List.mem_cons_self).2.2.1 folded,
        inductionHypothesis fun d member =>
          literal d (List.mem_cons_of_mem _ member)]

/-- A literal text is read as it is, and so is what follows it. -/
theorem likeText_literal
    {start : List Char} (literal : Literal start) (rest : List Char) :
    likeText (start ++ rest) = start ++ likeText rest := by
  induction start with
  | nil => rfl
  | cons c start inductionHypothesis =>
      obtain ⟨-, -, -, some, kept⟩ := literal c List.mem_cons_self
      have own : utf8Read c = c :=
        if_neg fun replaced => kept (by unfold isReplacement; omega)
      rw [List.cons_append, likeText_cons some, own,
        inductionHypothesis fun d member =>
          literal d (List.mem_cons_of_mem _ member)]
      rfl

/-- What is read to start with a literal text starts with it. -/
theorem starts_of_likeText
    {start text : List Char} (literal : Literal start)
    (starts : start <+: likeText text) : start <+: text := by
  induction start generalizing text with
  | nil => exact List.nil_prefix
  | cons c start inductionHypothesis =>
      cases text with
      | nil => exact starts
      | cons d text =>
          by_cases nul : d.toNat = 0
          · rw [likeText_cons_nul nul] at starts
            cases List.prefix_nil.mp starts
          · rw [likeText_cons nul, List.cons_prefix_cons] at starts
            obtain ⟨first, later⟩ := starts
            obtain ⟨-, -, -, -, kept⟩ := literal c List.mem_cons_self
            have same : c = d := by
              rcases utf8Read_cases d with own | replaced
              · exact first.trans own
              · rw [← first] at replaced
                exact absurd (by unfold isReplacement; omega) kept
            rw [same, List.cons_prefix_cons]
            exact ⟨rfl, inductionHypothesis (fun e member =>
              literal e (List.mem_cons_of_mem _ member)) later⟩

/-- After a literal text and `%` exactly the texts that start with it are
matched. -/
theorem starts_of_like
    {start text : List Char} (literal : Literal start)
    (matched : Like (likeText (start ++ ['%'])) (likeText text)) :
    start <+: text := by
  rw [likeText_literal literal] at matched
  obtain ⟨taken, rest, divided, same⟩ := Like.append_many.mp matched
  rw [like_of_literal literal same] at divided
  exact starts_of_likeText literal ⟨rest, divided.symm⟩

/-- A replacement character is read like another one. -/
theorem exists_other_replacement {c : Char} (replaced : isReplacement c) :
    ∃ d, d ≠ c ∧ d.toNat ≠ 0 ∧ utf8Read c = utf8Read d := by
  have read : utf8Read c = Char.ofNat 0xFFFD := by
    rw [utf8Read]
    split
    · rfl
    · rename_i kept
      have number : c.toNat = 0xFFFD := by
        obtain ⟨low, high⟩ := replaced
        omega
      rw [← number, Char.ofNat_toNat]
  by_cases own : c = Char.ofNat 0xFFFD
  · exact ⟨Char.ofNat 0xFFFE, own ▸ by decide, by decide, read⟩
  · exact ⟨Char.ofNat 0xFFFD, fun same => own same.symm, by decide, read⟩

/-- A character that does not stand for itself alone is matched by another. -/
theorem exists_other
    {c : Char} (some : c.toNat ≠ 0)
    (wild : ¬(c ≠ '%' ∧ c ≠ '_' ∧ ¬isLetter c ∧ c.toNat ≠ 0 ∧
      ¬isReplacement c)) :
    ∃ d, d ≠ c ∧ d.toNat ≠ 0 ∧ ∀ pattern text, Like pattern text →
      Like (utf8Read c :: pattern) (utf8Read d :: text) := by
  by_cases many : c = '%'
  · subst many
    exact ⟨'/', by decide, by decide, fun _ _ => .many ['/'] rfl⟩
  by_cases one : c = '_'
  · subst one
    exact ⟨'/', by decide, by decide, fun _ _ => .one '/'⟩
  by_cases replaced : isReplacement c
  · obtain ⟨d, differs, other, same⟩ := exists_other_replacement replaced
    exact ⟨d, differs, other, fun _ _ =>
      .same (utf8Read_ne_many many) (by rw [same])⟩
  have letter : isLetter c := by
    by_contra noLetter
    exact wild ⟨many, one, noLetter, some, replaced⟩
  obtain ⟨d, otherLetter, differs, folded⟩ := exists_other_case letter
  obtain ⟨other, kept⟩ := utf8Read_letter otherLetter
  refine ⟨d, differs, other, fun _ _ => .same (utf8Read_ne_many many) ?_⟩
  rw [(utf8Read_letter letter).2, kept, folded]

/-- After a text that is not literal, `%` matches some text that does not start
with it. -/
theorem exists_confused {start : List Char} (wild : ¬Literal start) :
    ∃ text, ¬start <+: text ∧
      Like (likeText (start ++ ['%'])) (likeText text) := by
  induction start with
  | nil => exact absurd (by simp [Literal]) wild
  | cons c start inductionHypothesis =>
      by_cases nul : c.toNat = 0
      · refine ⟨[], by simp, ?_⟩
        rw [List.cons_append, likeText_cons_nul nul]
        exact .nil
      by_cases first : c ≠ '%' ∧ c ≠ '_' ∧ ¬isLetter c ∧ c.toNat ≠ 0 ∧
          ¬isReplacement c
      · have later : ¬Literal start := by
          intro literal
          refine wild fun d member => ?_
          rcases List.mem_cons.mp member with rfl | member
          · exact first
          · exact literal d member
        obtain ⟨text, other, matched⟩ := inductionHypothesis later
        refine ⟨c :: text, fun starts => ?_, ?_⟩
        · exact other (List.cons_prefix_cons.mp starts).2
        · rw [List.cons_append, likeText_cons nul, likeText_cons nul]
          exact .same (utf8Read_ne_many first.1) rfl matched
      · obtain ⟨d, differs, some, step⟩ := exists_other nul first
        refine ⟨d :: start, fun starts => ?_, ?_⟩
        · exact differs (List.cons_prefix_cons.mp starts).1.symm
        · rw [List.cons_append, likeText_cons nul, likeText_cons some]
          exact step _ _ (like_of_starts (List.prefix_refl start))

/-! ## Listings under a prefix -/

namespace Entries

/-- The entries of a project whose path starts with a text. -/
def startingWith (db : Db) (projectId : Int) (start : String) : List Entry :=
  db.entries.rows.filter fun entry =>
    entry.projectId = projectId ∧ start.toList <+: entry.path.toList

/-- A caller with enough calls is given these entries, each once. -/
def Enumerates
    (env : ListingEnv) (db : Db) (projectId : Int) (f : ListFilter)
    (entries : List Entry) : Prop :=
  ∃ enough, ∀ count ≥ enough, ∃ pages,
    traverse env projectId f (List.replicate count db) = .ok pages ∧
    Ended pages ∧ (returned pages).Perm entries

/-- A filter on the path alone. -/
def byPrefix
    (start : String) (sort : Option SortField) (order : Option SortOrder)
    (limit : Option Int) : ListFilter :=
  ⟨none, none, some start, sort, order, limit, none⟩

section Prefixes

variable {env : ListingEnv} {db : Db} {projectId : Int} {start : String}
variable {sort : Option SortField} {order : Option SortOrder}
variable {limit : Option Int}

theorem Enumerates.perm
    {f : ListFilter} {first second : List Entry}
    (one : Enumerates env db projectId f first)
    (other : Enumerates env db projectId f second) : first.Perm second := by
  obtain ⟨enough, firstPages⟩ := one
  obtain ⟨also, secondPages⟩ := other
  obtain ⟨pages, read, -, given⟩ :=
    firstPages (max enough also) (le_max_left _ _)
  obtain ⟨same, readAgain, -, givenAgain⟩ :=
    secondPages (max enough also) (le_max_right _ _)
  rw [read] at readAgain
  cases readAgain
  exact given.symm.trans givenAgain

/-- The first query under a prefix is refused. -/
def prefixRefused
    (env : ListingEnv) (db : Db) (projectId : Int) (f : ListFilter) : Bool :=
  refused env db projectId f fun _ => true

theorem enumerates_matching
    (fits : ∀ entry ∈ db.entries.rows, FitsI64 entry)
    (spared : prefixRefused env db projectId
      (byPrefix start sort order limit) = false) :
    Enumerates env db projectId (byPrefix start sort order limit)
      (matching db projectId (byPrefix start sort order limit)) := by
  let f := byPrefix start sort order limit
  refine ⟨Paging.pageCount f.pageSize.toNat (matching db projectId f).length,
    fun count enough => ?_⟩
  obtain ⟨pages, read, ended, -, given⟩ :=
    traverse_complete env projectId rfl spared fits enough
  exact ⟨pages, read, ended, given⟩

/-- Who is refused the first page is given nothing. -/
theorem spared_of_enumerates
    {entries : List Entry}
    (listed : Enumerates env db projectId (byPrefix start sort order limit)
      entries) :
    prefixRefused env db projectId (byPrefix start sort order limit) =
      false := by
  obtain ⟨enough, calls⟩ := listed
  obtain ⟨pages, read, -⟩ := calls (enough + 1) (Nat.le_succ enough)
  rw [← Bool.not_eq_true]
  intro struck
  rw [prefixRefused] at struck
  have fresh : pastCursor env (byPrefix start sort order limit) =
      .ok fun _ => true := rfl
  simp only [List.replicate_succ, traverse, list, fresh, bind, Except.bind,
    struck, if_true] at read
  cases read

theorem mem_matching {entry : Entry} :
    entry ∈ matching db projectId (byPrefix start sort order limit) ↔
      entry ∈ db.entries.rows ∧ entry.projectId = projectId ∧
        like (start ++ "%") entry.path = true := by
  rw [matching, List.mem_filter]
  simp [ListFilter.selects, ListFilter.equals, byPrefix]

theorem mem_startingWith {entry : Entry} :
    entry ∈ startingWith db projectId start ↔
      entry ∈ db.entries.rows ∧ entry.projectId = projectId ∧
        start.toList <+: entry.path.toList := by
  simp [startingWith]

theorem like_iff {path : String} :
    like (start ++ "%") path = true ↔
      Like (likeText (start.toList ++ ['%'])) (likeText path.toList) := by
  rw [like, patternCompare_iff, String.toList_append]
  rfl

/-- The listing is right exactly if it is not refused and nothing else is
listed. -/
theorem enumerates_iff
    (fits : ∀ entry ∈ db.entries.rows, FitsI64 entry) :
    Enumerates env db projectId (byPrefix start sort order limit)
        (startingWith db projectId start) ↔
      prefixRefused env db projectId (byPrefix start sort order limit) =
          false ∧
        ∀ entry ∈ db.entries.rows, entry.projectId = projectId →
          like (start ++ "%") entry.path = true →
            start.toList <+: entry.path.toList := by
  constructor
  · intro exact
    have spared := spared_of_enumerates exact
    refine ⟨spared, fun entry stored owned matched => ?_⟩
    have present := ((enumerates_matching fits spared).perm exact).mem_iff.mp
      (mem_matching.mpr ⟨stored, owned, matched⟩)
    exact (mem_startingWith.mp present).2.2
  · rintro ⟨spared, only⟩
    have same : startingWith db projectId start =
        matching db projectId (byPrefix start sort order limit) := by
      rw [startingWith, matching]
      refine List.filter_congr fun entry stored => Bool.eq_iff_iff.mpr ?_
      have given := @mem_matching db projectId start sort order limit entry
      rw [matching, List.mem_filter] at given
      rw [decide_eq_true_eq]
      constructor
      · rintro ⟨owned, starts⟩
        exact (given.mpr
          ⟨stored, owned, like_iff.mpr (like_of_starts starts)⟩).2
      · intro selected
        obtain ⟨-, owned, matched⟩ := given.mp ⟨stored, selected⟩
        exact ⟨owned, only entry stored owned matched⟩
    rw [same]
    exact enumerates_matching fits spared

end Prefixes

/-- A project with one entry. -/
def single (path : String) : Db :=
  match Projects.create 1000 .empty "acme" none none with
  | .error _ => .empty
  | .ok (_, created) =>
      match Entries.upsert 1000 created 1 .sstate path "hash" 1 with
      | .error _ => created
      | .ok (_, db) => db

theorem single_rows (path : String) :
    (single path).entries.rows =
      [⟨1, 1, .sstate, path, "hash", 1, 1000, 1000, false⟩] := rfl

/-- Who is not refused in a project with one entry asks with a pattern that
SQLite takes. -/
theorem short_of_spared
    {env : ListingEnv} {start path : String} {sort : Option SortField}
    {order : Option SortOrder} {limit : Option Int}
    (spared : prefixRefused env (single path) 1
      (byPrefix start sort order limit) = false) :
    (start ++ "%").utf8ByteSize ≤ maxLikePattern := by
  by_contra long
  have overlong : (byPrefix start sort order limit).overlong = true :=
    decide_eq_true (not_le.mp long)
  have compared := env.compares_row (byPrefix start sort order limit)
    (single path).entries.rows (fun entry =>
      (byPrefix start sort order limit).equals 1 entry && true)
    ⟨_, by rw [single_rows]; exact List.mem_singleton_self _, rfl⟩
  rw [prefixRefused, refused, overlong, compared] at spared
  cases spared

/-- A listing under a text is right exactly if it is not refused and no other
path of the project is matched.  It is right in every state exactly if SQLite
takes the pattern and the text has no character that stands for others. -/
theorem prefix_exact_iff
    (env : ListingEnv) (start : String) (sort : Option SortField)
    (order : Option SortOrder) (limit : Option Int) :
    (∀ (db : Db) (projectId : Int),
      (∀ entry ∈ db.entries.rows, FitsI64 entry) →
        (Enumerates env db projectId (byPrefix start sort order limit)
            (startingWith db projectId start) ↔
          prefixRefused env db projectId (byPrefix start sort order limit) =
              false ∧
            ∀ entry ∈ db.entries.rows, entry.projectId = projectId →
              like (start ++ "%") entry.path = true →
                start.toList <+: entry.path.toList)) ∧
    ((∀ (db : Db) (projectId : Int),
      (∀ entry ∈ db.entries.rows, FitsI64 entry) →
        Enumerates env db projectId (byPrefix start sort order limit)
          (startingWith db projectId start)) ↔
      (start ++ "%").utf8ByteSize ≤ maxLikePattern ∧
        Literal start.toList) := by
  refine ⟨fun db projectId fits => enumerates_iff fits, ?_, ?_⟩
  · intro all
    have exact (path : String) :
        Enumerates env (single path) 1 (byPrefix start sort order limit)
          (startingWith (single path) 1 start) := by
      refine all _ 1 ?_
      rw [single_rows, List.forall_mem_singleton]
      exact ⟨rfl, rfl, rfl⟩
    refine ⟨short_of_spared (spared_of_enumerates (exact "a")), ?_⟩
    by_contra wild
    obtain ⟨text, other, matched⟩ := exists_confused wild
    have fits : ∀ entry ∈ (single (String.ofList text)).entries.rows,
        FitsI64 entry := by
      rw [single_rows, List.forall_mem_singleton]
      exact ⟨rfl, rfl, rfl⟩
    have starts := ((enumerates_iff fits).mp (exact (String.ofList text))).2
    rw [single_rows, List.forall_mem_singleton] at starts
    have found := starts rfl (like_iff.mpr (by
      rw [String.toList_ofList]
      exact matched))
    rw [String.toList_ofList] at found
    exact other found
  · rintro ⟨short, literal⟩ db projectId fits
    have taken : (byPrefix start sort order limit).overlong = false :=
      decide_eq_false (not_lt.mpr short)
    refine (enumerates_iff fits).mpr
      ⟨refused_of_short taken _, fun entry _ _ matched => ?_⟩
    exact starts_of_like literal (like_iff.mp matched)

/-- Of two releases the one that is not asked for is listed as well. -/
def releases : Db :=
  match Entries.upsert 1000 (single "release_1/a") 1 .sstate "release-1/a"
    "hash" 1 with
  | .error _ => .empty
  | .ok (_, db) => db

theorem releases_fit : ∀ entry ∈ releases.entries.rows, FitsI64 entry := by
  unfold FitsI64
  decide +kernel

/-- Under `release-` the other release is not listed. -/
theorem prefix_exact_iff_releases :
    Enumerates Sample.listing releases 1 (byPrefix "release-" none none none)
        (startingWith releases 1 "release-") ∧
      (startingWith releases 1 "release-").map Entry.path = ["release-1/a"] := by
  refine ⟨((prefix_exact_iff Sample.listing "release-" none none none).1
    releases 1 releases_fit).mpr ?_, ?_⟩ <;> decide +kernel

/-- The underscore of `release_` matches the hyphen of `release-`. -/
theorem underscore_lists_another_release :
    (match list Sample.listing releases 1
        (byPrefix "release_" none none none) with
      | .ok page => page.entries.map Entry.path
      | .error _ => []) = ["release-1/a", "release_1/a"] ∧
    (startingWith releases 1 "release_").map Entry.path = ["release_1/a"] ∧
    ¬Enumerates Sample.listing releases 1 (byPrefix "release_" none none none)
      (startingWith releases 1 "release_") := by
  refine ⟨by decide +kernel, by decide +kernel, fun exact => ?_⟩
  have lengths := (enumerates_matching releases_fit
    (spared_of_enumerates exact)).perm exact |>.length_eq
  exact absurd lengths (by decide +kernel)

end Entries

end Marmotte
