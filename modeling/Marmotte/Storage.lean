import Mathlib.Data.List.Dedup
import Marmotte.Environment

/-!
# The file system under the storage root

Files are known by the components of their path below the storage root;
directories are not modelled, as nothing reads them but the walk over the files
below `blobs`, a directory that is there from the start.  Each function here is
one system call.
-/

namespace Marmotte

open Tables

/-- The components of a path below the storage root. -/
abbrev FilePath := List String

/-- A regular file. -/
structure File where
  path : FilePath
  content : Bytes
  deriving DecidableEq, Repr

instance : Row File where
  Clash first second := first.path = second.path
  clash_decidable := fun _ _ => inferInstance
  clash_refl _ := rfl
  clash_symm _ _ clash := clash.symm

/-- The files below the storage root. -/
abbrev Fs := Table File

/-- `<root>/blobs/<aa>/<bb>/<hex_hash>`.  On a text of fewer than four bytes
the slices of the source panic; stored hashes are digests. -/
def blobPath (hexHash : String) : FilePath :=
  let digits := hexHash.toList
  ["blobs", String.ofList (digits.take 2),
    String.ofList ((digits.drop 2).take 2), hexHash]

/-- `<root>/tmp/<uuid>`. -/
def tmpPath (uuid : String) : FilePath := ["tmp", uuid]

theorem blobPath_injective : Function.Injective blobPath := by
  intro first second equal
  simp only [blobPath, List.cons.injEq] at equal
  exact equal.2.2.2.1

@[simp] theorem blobPath_eq_iff (first second : String) :
    blobPath first = blobPath second ↔ first = second :=
  blobPath_injective.eq_iff

@[simp] theorem tmpPath_eq_iff (first second : String) :
    tmpPath first = tmpPath second ↔ first = second := by
  simp [tmpPath]

@[simp] theorem blobPath_ne_tmpPath (hash uuid : String) :
    blobPath hash ≠ tmpPath uuid := by
  simp [blobPath, tmpPath]

@[simp] theorem tmpPath_ne_blobPath (hash uuid : String) :
    tmpPath uuid ≠ blobPath hash :=
  (blobPath_ne_tmpPath hash uuid).symm

namespace Fs

/-- The content of a file. -/
def read (fs : Fs) (path : FilePath) : Option Bytes :=
  (fs.find? fun file => decide (file.path = path)).map File.content

/-- A file exists at the path. -/
def has (fs : Fs) (path : FilePath) : Bool := (fs.read path).isSome

/-- Unlink a path. -/
def unlink (fs : Fs) (path : FilePath) : Fs :=
  fs.delete fun file => decide (file.path = path)

/-- Put a content at a path, whatever was there. -/
def write (fs : Fs) (path : FilePath) (content : Bytes) : Fs :=
  (fs.unlink path).insert ⟨path, content⟩ (by
    intro other present clash
    have kept := ((Table.mem_delete fs _ other).mp present).2
    exact (decide_eq_false_iff_not.mp kept) clash)

theorem read_eq_some_iff {fs : Fs} {path : FilePath} {content : Bytes} :
    fs.read path = some content ↔ ⟨path, content⟩ ∈ fs.rows := by
  constructor
  · intro present
    simp only [read, Option.map_eq_some_iff] at present
    obtain ⟨file, found, rfl⟩ := present
    have isFile := Table.mem_of_find? found
    have samePath : file.path = path := by simpa using isFile.2
    rw [← samePath]
    exact isFile.1
  · intro present
    have found : fs.find? (fun file => decide (file.path = path)) =
        some ⟨path, content⟩ :=
      Table.find?_of_mem present (by simp) fun _ => of_decide_eq_true
    rw [read, found]
    rfl

@[simp] theorem read_unlink_self (fs : Fs) (path : FilePath) :
    (fs.unlink path).read path = none := by
  rw [Option.eq_none_iff_forall_ne_some]
  intro content present
  rw [read_eq_some_iff] at present
  simp [unlink] at present

theorem read_unlink_of_ne
    {path other : FilePath} (fs : Fs) (different : other ≠ path) :
    (fs.unlink path).read other = fs.read other := by
  apply Option.ext
  intro content
  rw [read_eq_some_iff, read_eq_some_iff]
  simp [unlink, different]

@[simp] theorem read_write_self
    (fs : Fs) (path : FilePath) (content : Bytes) :
    (fs.write path content).read path = some content := by
  rw [read_eq_some_iff]
  simp [write]

theorem read_write_of_ne
    {path other : FilePath} (fs : Fs) (content : Bytes)
    (different : other ≠ path) :
    (fs.write path content).read other = fs.read other := by
  apply Option.ext
  intro found
  rw [← read_unlink_of_ne fs different, read_eq_some_iff, read_eq_some_iff]
  simp [write, different]

/-- Unlinking a missing file changes nothing. -/
theorem unlink_of_missing
    {fs : Fs} {path : FilePath} (missing : fs.has path = false) :
    fs.unlink path = fs := by
  apply Table.ext
  simp only [unlink, Table.delete_rows, List.filter_eq_self]
  intro file present
  by_contra selected
  have same : file.path = path := by simpa using selected
  have found : fs.read path = some file.content := by
    rw [read_eq_some_iff, ← same]
    exact present
  simp [has, found] at missing

end Fs

/-! ## System calls -/

/-- The file-system calls that the server makes. -/
inductive FsCall
  | createFile (path : FilePath)
  | appendFile (path : FilePath) (chunk : Bytes)
  | flushFile (path : FilePath)
  | syncFile (path : FilePath)
  | createDirAll (path : FilePath)
  | fileExists (path : FilePath)
  | removeFile (path : FilePath)
  | rename (source target : FilePath)
  | openFile (path : FilePath)
  | blobsExists
  | walkBlobs
  | readTmp

namespace FsCall

/-- What each call returns when it succeeds. -/
abbrev Reply : FsCall → Type
  | .fileExists _ => Bool
  | .openFile _ => Bytes
  | .blobsExists => Bool
  | .walkBlobs => List String
  | .readTmp => List String
  | _ => Unit

/-- `walk_blobs`: the names of the files at any depth below `blobs` that look
like a digest, as a set. -/
def walk (env : Env) (fs : Fs) : List String :=
  env.scan (((fs.rows.filter fun file => decide (file.path.head? = some "blobs")).filterMap
    fun file => file.path.tail.getLast?).filter isHex64).dedup

theorem mem_walk
    (env : Env) {fs : Fs} {hash : String}
    (present : fs.has (blobPath hash) = true)
    (digest : isHex64 hash = true) : hash ∈ walk env fs := by
  simp only [Fs.has, Option.isSome_iff_exists] at present
  obtain ⟨content, found⟩ := present
  rw [Fs.read_eq_some_iff] at found
  simp only [walk, Env.mem_scan, List.mem_dedup, List.mem_filter,
    List.mem_filterMap, decide_eq_true_eq]
  exact ⟨⟨⟨blobPath hash, content⟩, ⟨found, rfl⟩, rfl⟩, digest⟩

/-- The names of the files directly below `tmp`. -/
def tmpNames (env : Env) (fs : Fs) : List String :=
  env.scan (fs.rows.filterMap fun file =>
    match file.path with
    | ["tmp", name] => some name
    | _ => none)

/-- The effect of each call when nothing goes wrong. -/
def exec
    (env : Env) : (call : FsCall) → Fs → Except CoreError call.Reply × Fs
  | .createFile path, fs => (.ok (), fs.write path [])
  | .appendFile path chunk, fs =>
      match fs.read path with
      | some content => (.ok (), fs.write path (content ++ chunk))
      | none => (.ok (), fs)
  | .flushFile _, fs => (.ok (), fs)
  | .syncFile _, fs => (.ok (), fs)
  | .createDirAll _, fs => (.ok (), fs)
  | .fileExists path, fs => (.ok (fs.has path), fs)
  | .removeFile path, fs =>
      if fs.has path then (.ok (), fs.unlink path)
      else (.error (.io .notFound), fs)
  | .rename source target, fs =>
      match fs.read source with
      | some content => (.ok (), (fs.unlink source).write target content)
      | none => (.error (.io .notFound), fs)
  | .openFile path, fs =>
      match fs.read path with
      | some content => (.ok content, fs)
      | none => (.error (.io .notFound), fs)
  | .blobsExists, fs => (.ok true, fs)
  | .walkBlobs, fs => (.ok (walk env fs), fs)
  | .readTmp, fs => (.ok (tmpNames env fs), fs)

/-- The paths whose file a call may change. -/
def Touches : FsCall → FilePath → Prop
  | .createFile path, other => other = path
  | .appendFile path _, other => other = path
  | .removeFile path, other => other = path
  | .rename source target, other => other = source ∨ other = target
  | _, _ => False

/-- A call leaves every other file as it is. -/
theorem read_exec
    (env : Env) {call : FsCall} (fs : Fs) {path : FilePath}
    (untouched : ¬call.Touches path) :
    (call.exec env fs).2.read path = fs.read path := by
  cases call with
  | createFile other => exact Fs.read_write_of_ne fs [] untouched
  | appendFile other chunk =>
      simp only [exec]
      split
      · exact Fs.read_write_of_ne fs _ untouched
      · rfl
  | removeFile other =>
      simp only [exec]
      split
      · exact Fs.read_unlink_of_ne fs untouched
      · rfl
  | rename source target =>
      simp only [Touches, not_or] at untouched
      simp only [exec]
      split
      · rw [Fs.read_write_of_ne _ _ untouched.2,
          Fs.read_unlink_of_ne _ untouched.1]
      · rfl
  | openFile other =>
      simp only [exec]
      split <;> rfl
  | flushFile | syncFile | createDirAll | fileExists | blobsExists | walkBlobs
  | readTmp => rfl

end FsCall

end Marmotte
