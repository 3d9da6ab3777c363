import Marmotte.Environment
import Marmotte.Repositories
import Mathlib.Data.List.Lex
import Mathlib.Order.Compare

/-!
# Listing entries

`Entries::list` with its filters, its four sort columns and its cursor, which
travels as JSON in base64url.  The two formats are those of third-party crates;
what the cursor goes through on the way is here, and so is what SQLite's `LIKE`
makes of a prefix.
-/

namespace Marmotte

open Tables

/-- A JSON value; a number that is not an integer is a finite double. -/
inductive Json
  | null
  | bool (value : Bool)
  | integer (value : Int)
  | float (value : Rat)
  | string (value : String)
  | array (items : List Json)
  | object (members : List (String × Json))

/-- The integer fits `i64`. -/
def fitsI64 (value : Int) : Bool := -2 ^ 63 ≤ value ∧ value < 2 ^ 63

/-- A text, or an integer of 64 bits. -/
def Json.Plain : Json → Prop
  | .integer value => fitsI64 value = true
  | .string _ => True
  | _ => False

/-- A value of a column or of a bound parameter. -/
inductive SqlValue
  | integer (value : Int)
  | real (value : Rat)
  | text (value : String)
  deriving DecidableEq

/-! ## `LIKE` -/

/-- Lowercase for ASCII letters, as `LIKE` compares them. -/
def foldCase (c : Char) : Char :=
  if 'A' ≤ c ∧ c ≤ 'Z' then Char.ofNat (c.toNat + 32) else c

/-- A character as `LIKE` reads it: two noncharacters become the replacement
character. -/
def utf8Read (c : Char) : Char :=
  if c.toNat = 0xFFFE ∨ c.toNat = 0xFFFF then Char.ofNat 0xFFFD else c

/-- What `LIKE` reads of a text: it stops at the first NUL. -/
def likeText (text : List Char) : List Char :=
  (text.takeWhile fun c => c.toNat ≠ 0).map utf8Read

/-- `%` stands for any text and `_` for any character. -/
def patternCompare : List Char → List Char → Bool
  | [], text => text.isEmpty
  | c :: pattern, text =>
      if c = '%' then text.tails.any fun rest => patternCompare pattern rest
      else
        match text with
        | [] => false
        | d :: text =>
            (c = '_' || foldCase c = foldCase d) && patternCompare pattern text

/-- `text LIKE pattern`. -/
def like (pattern text : String) : Bool :=
  patternCompare (likeText pattern.toList) (likeText text.toList)

/-- The bytes of the longest pattern that SQLite takes. -/
def maxLikePattern : Nat := 50000

/-! ## Filters -/

/-- Sort field for entry listing. -/
inductive SortField
  | path
  | lastAccessed
  | size
  | createdAt
  deriving DecidableEq, Repr

/-- The column of the field. -/
def SortField.column : SortField → Entry → SqlValue
  | .path, entry => .text entry.path
  | .lastAccessed, entry => .integer entry.lastAccessed
  | .size, entry => .integer entry.sizeBytes
  | .createdAt, entry => .integer entry.id

/-- Sort order for entry listing. -/
inductive SortOrder
  | asc
  | desc
  deriving DecidableEq, Repr

/-- The first of two values that compare so comes first. -/
def SortOrder.precedes : SortOrder → Ordering → Bool
  | .asc, ordering => ordering = .lt
  | .desc, ordering => ordering = .gt

/-- `cmp_sql`: `>` in ascending and `<` in descending order. -/
def SortOrder.cmp : SortOrder → Ordering → Bool
  | .asc, ordering => ordering = .gt
  | .desc, ordering => ordering = .lt

/-- Filters, cursor, and sort parameters. -/
structure ListFilter where
  kind : Option Kind
  pinned : Option Bool
  pathPrefix : Option String
  sort : Option SortField
  order : Option SortOrder
  limit : Option Int
  cursor : Option String

namespace ListFilter

/-- The conditions on an entry without the prefix and the cursor. -/
def equals (projectId : Int) (filter : ListFilter) (entry : Entry) : Bool :=
  entry.projectId = projectId &&
    (filter.kind.all fun kind => entry.kind = kind) &&
    filter.pinned.all fun pinned => entry.pinned = pinned

/-- The conditions on an entry without the cursor. -/
def selects (projectId : Int) (filter : ListFilter) (entry : Entry) : Bool :=
  filter.equals projectId entry &&
    filter.pathPrefix.all fun start => like (start ++ "%") entry.path

/-- The pattern is longer than SQLite takes. -/
def overlong (filter : ListFilter) : Bool :=
  filter.pathPrefix.any fun start =>
    maxLikePattern < (start ++ "%").utf8ByteSize

def sortField (filter : ListFilter) : SortField :=
  filter.sort.getD .lastAccessed

def sortOrder (filter : ListFilter) : SortOrder := filter.order.getD .desc

/-- The page size. -/
def pageSize (filter : ListFilter) : Int :=
  max 1 (min (filter.limit.getD 100) 1000)

theorem pageSize_bounds (filter : ListFilter) :
    1 ≤ filter.pageSize ∧ filter.pageSize ≤ 1000 := by
  unfold pageSize
  omega

end ListFilter

/-! ## The environment of a listing -/

/-- The third-party functions that a listing uses: base64url without padding,
JSON, the rounding of large integers, the conversions with which SQLite
compares values of different types, and the plan of its query. -/
structure ListingEnv where
  base64Encode : Bytes → String
  base64Decode : String → Except String Bytes
  base64_round : ∀ content, base64Decode (base64Encode content) = .ok content
  jsonText : Json → String
  jsonParse : Bytes → Option Json
  jsonError : Bytes → String
  /-- An object of texts and integers survives being written and read. -/
  json_round : ∀ members : List (String × Json),
    (members.map Prod.fst).Nodup → (∀ member ∈ members, member.2.Plain) →
      jsonParse (jsonText (.object members)).toUTF8.data.toList =
        some (.object members)
  asF64 : Int → Rat
  mixedCompare : SqlValue → SqlValue → Ordering
  /-- The query gets to compare the path of some row with the pattern. -/
  comparesPath : ListFilter → List Entry → (Entry → Bool) → Bool
  /-- A row that fulfils the other conditions is compared. -/
  compares_row : ∀ (filter : ListFilter) (rows : List Entry)
    (others : Entry → Bool), (∃ entry ∈ rows, others entry = true) →
      comparesPath filter rows others = true

/-- The bytes of a text, in which the `BINARY` collation compares it. -/
def collated (text : String) : List Nat :=
  text.toUTF8.data.toList.map UInt8.toNat

theorem collated_injective : Function.Injective collated := by
  intro first second same
  have bytes := List.map_injective_iff.mpr
    (fun _ _ => UInt8.toNat_inj.mp) same
  rw [← String.toByteArray_inj]
  exact ByteArray.ext (Array.toList_inj.mp bytes)

/-- How SQLite compares two values. -/
def SqlValue.compare (env : ListingEnv) : SqlValue → SqlValue → Ordering
  | .integer first, .integer second => cmp first second
  | .text first, .text second => cmp (collated first) (collated second)
  | first, second => env.mixedCompare first second

namespace Entries

/-! ## Cursors -/

/-- Cursor payload. -/
structure Cursor where
  sv : Json
  id : Int

/-- A page of entries. -/
structure Page where
  entries : List Entry
  nextCursor : Option String
  hasMore : Bool
  deriving DecidableEq, Repr

namespace Cursor

/-- The derived serialization. -/
def serialize (cursor : Cursor) : Json :=
  .object [("sv", cursor.sv), ("id", .integer cursor.id)]

/-- An `i64` in JSON. -/
def deserializeI64 : Json → Option Int
  | .integer value => if fitsI64 value then some value else none
  | _ => none

/-- The derived deserialization: no field twice, none missing, others ignored;
a sequence of the two fields is accepted as well. -/
def deserialize : Json → Option Cursor
  | .object members =>
      match members.filter fun member => member.1 = "sv",
        members.filter fun member => member.1 = "id" with
      | [(_, sv)], [(_, id)] => (deserializeI64 id).map fun id => ⟨sv, id⟩
      | _, _ => none
  | .array [sv, id] => (deserializeI64 id).map fun id => ⟨sv, id⟩
  | _ => none

/-- Encodes the cursor to a base64url-no-pad string. -/
def encode (env : ListingEnv) (cursor : Cursor) : String :=
  env.base64Encode (env.jsonText cursor.serialize).toUTF8.data.toList

/-- Decodes a cursor from a base64url-no-pad string. -/
def decode (env : ListingEnv) (s : String) : Except CoreError Cursor :=
  match env.base64Decode s with
  | .error e => .error (.invalidInput s!"bad cursor: {e}")
  | .ok content =>
      match (env.jsonParse content).bind deserialize with
      | some cursor => .ok cursor
      | none =>
          .error (.invalidInput s!"bad cursor: {env.jsonError content}")

end Cursor

/-- Binds a JSON value by its runtime type. -/
def bindJson (env : ListingEnv) : Json → SqlValue
  | .integer value =>
      if fitsI64 value then .integer value else .real (env.asF64 value)
  | .float value => .real value
  | .string value => .text value
  | value => .text (env.jsonText value)

/-- Extracts the sort-field value of an entry. -/
def sortValueOf (entry : Entry) : SortField → Json
  | .path => .string entry.path
  | .lastAccessed => .integer entry.lastAccessed
  | .size => .integer entry.sizeBytes
  | .createdAt => .integer entry.id

/-! ## The query -/

/-- `ORDER BY {col} {ord}, id {ord}` puts the first entry first. -/
def Precedes
    (env : ListingEnv) (sort : SortField) (order : SortOrder)
    (first second : Entry) : Prop :=
  let column := (sort.column first).compare env (sort.column second)
  order.precedes column = true ∨
    (column = .eq ∧ order.precedes (cmp first.id second.id) = true)

instance (env : ListingEnv) (sort : SortField) (order : SortOrder) :
    DecidableRel (Precedes env sort order) := fun _ _ =>
  inferInstanceAs (Decidable (_ ∨ _))

/-- `{col} {cmp} ? OR ({col} = ? AND id {cmp} ?)`. -/
def isPast
    (env : ListingEnv) (sort : SortField) (order : SortOrder)
    (cursor : Cursor) (entry : Entry) : Bool :=
  let column := (sort.column entry).compare env (bindJson env cursor.sv)
  order.cmp column ||
    (column = .eq && order.cmp (cmp entry.id cursor.id))

/-- The condition that the cursor of a filter puts on an entry. -/
def pastCursor (env : ListingEnv) (f : ListFilter) :
    Except CoreError (Entry → Bool) :=
  match f.cursor with
  | some c => do
      let cur ← Cursor.decode env c
      pure (isPast env f.sortField f.sortOrder cur)
  | none => pure fun _ => true

/-- SQLite refuses to compare a path with an overlong pattern. -/
def refused
    (env : ListingEnv) (db : Db) (projectId : Int) (f : ListFilter)
    (past : Entry → Bool) : Bool :=
  f.overlong && env.comparesPath f db.entries.rows fun entry =>
    f.equals projectId entry && past entry

/-- Returns a cursor-paginated page of entries for a project. -/
def list
    (env : ListingEnv) (db : Db) (projectId : Int) (f : ListFilter) :
    Except CoreError Page := do
  let sort := f.sortField
  let order := f.sortOrder
  let limit := f.pageSize
  let past ← pastCursor env f
  if refused env db projectId f past then
    throw (.database .patternTooComplex)
  let selected := db.entries.rows.filter fun entry =>
    f.selects projectId entry && past entry
  let rows := (selected.insertionSort fun first second =>
    ¬Precedes env sort order second first).take (limit + 1).toNat
  let hasMore := limit < (rows.length : Int)
  let rows := if hasMore then rows.take limit.toNat else rows
  let nextCursor :=
    if hasMore then
      rows.getLast?.map fun e =>
        (Cursor.mk (sortValueOf e sort) e.id).encode env
    else none
  return ⟨rows, nextCursor, hasMore⟩

/-- A caller that asks for page after page, one state of the database for each,
up to the page without a cursor. -/
def traverse
    (env : ListingEnv) (projectId : Int) :
    ListFilter → List Db → Except CoreError (List Page)
  | _, [] => .ok []
  | f, db :: later => do
      let page ← list env db projectId f
      match page.nextCursor with
      | none => return [page]
      | some c => do
          let rest ← traverse env projectId { f with cursor := some c } later
          return page :: rest

end Entries

end Marmotte
