import Marmotte.Runtime

/-!
# The blob store

The functions of `LocalFsStore` as programs of system calls.  A request body is
the list of the chunks of its stream, any of which may be a transport error.
-/

namespace Marmotte

open Effects Program

/-- The chunks of a request body. -/
abbrev Body := List (Except IoError Bytes)

namespace Body

/-- The bytes of the chunks that arrived. -/
def bytes (body : Body) : Bytes :=
  (body.filterMap Except.toOption).flatten

@[simp] theorem bytes_nil : bytes [] = [] := rfl

@[simp] theorem bytes_ok (chunk : Bytes) (rest : Body) :
    bytes (.ok chunk :: rest) = chunk ++ bytes rest := rfl

/-- Every chunk of the stream arrives. -/
def arrives (body : Body) : Bool :=
  body.all fun chunk => chunk.isOk

end Body

/-- Result of a successful `write_streamed` call. -/
structure Written where
  hash : String
  sizeBytes : Int
  deriving DecidableEq, Repr

namespace LocalFsStore

/-- The removal loop of `open`, which only warns about a stuck file. -/
def purgeTmp : List String → App Unit
  | [] => pure ()
  | name :: rest => do
      let _ ← trySyscall (.removeFile (tmpPath name))
      purgeTmp rest

/-- Create the layout and remove what an unclean shutdown left in `tmp`. -/
def openStore : App Unit := do
  syscall (.createDirAll ["blobs"])
  syscall (.createDirAll ["tmp"])
  let names ← syscall .readTmp
  purgeTmp names

/-- The chunk loop of `write_streamed`: `hashed` is what the hasher has been
fed with, `total` the number of bytes so far. -/
def writeChunks
    (tmp : FilePath) : Body → Bytes → Int → App (Bytes × Int)
  | [], hashed, total => pure (hashed, total)
  | .error cause :: _, _, _ => .fail (.io cause)
  | .ok chunk :: rest, hashed, total => do
      let hashed := hashed ++ chunk
      let total := total + chunk.length
      syscall (.appendFile tmp chunk)
      writeChunks tmp rest hashed total

/-- Stream a body to a temporary file and move it to the path of its digest,
unless a file is there already. -/
def writeStreamed (env : Env) (body : Body) : App Written := do
  let name ← perform Call.newUuid
  let tmp := tmpPath name
  syscall (.createFile tmp)
  let (hashed, total) ← writeChunks tmp body [] 0
  syscall (.flushFile tmp)
  syscall (.syncFile tmp)
  let hash := env.sha256 hashed
  let dest := blobPath hash
  syscall (.createDirAll dest.dropLast)
  -- `Path::exists` answers `false` when it cannot tell
  let answer ← trySyscall (.fileExists dest)
  match answer with
  | .ok true => do
      let _ ← trySyscall (.removeFile tmp)
      pure ⟨hash, total⟩
  | _ => do
      syscall (.rename tmp dest)
      pure ⟨hash, total⟩

/-- Open a blob file and read it. -/
def readBlob (hash : String) : App Bytes :=
  (syscall (.openFile (blobPath hash))).catchError fun error =>
    match error with
    | .io .notFound => .fail (.notFound s!"blob {hash}")
    | error => .fail error

/-- Remove a blob file; a missing file is fine. -/
def deleteBlob (hash : String) : App Unit :=
  (syscall (.removeFile (blobPath hash))).catchError fun error =>
    match error with
    | .io .notFound => pure ()
    | error => .fail error

end LocalFsStore

end Marmotte
