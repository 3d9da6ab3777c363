import Marmotte.Credentials
import Marmotte.Effects.Credible

/-!
# A run of the push command

`push_one` with the answers to its requests: the handlers of the server behind
its limit on bodies, or the errors of a server or gateway that got so far with
a request.
-/

namespace Marmotte

open Effects Program

namespace Push

/-! ## Local files -/

/-- The size of the buffer of `sha256_file`. -/
def bufferSize : Nat := 64 * 1024

/-- A regular file below the directory. -/
structure LocalFile where
  name : List FileName
  content : Bytes
  /-- What the reads of `sha256_file` return before the end of the file. -/
  reads : List Bytes
  named : name ≠ []
  reading : ∀ buf ∈ reads, buf ≠ [] ∧ buf.length ≤ bufferSize
  complete : reads.flatten = content

/-- The loop of `sha256_file`; `hashed` is what the hasher has been fed with. -/
def hashReads (env : Env) : List Bytes → Bytes → String
  | [], hashed => env.sha256 hashed
  | buf :: rest, hashed =>
      if buf.length = 0 then env.sha256 hashed
      else hashReads env rest (hashed ++ buf)

/-- The `SHA-256` digest of a file's contents. -/
def sha256File (env : Env) (file : LocalFile) : String :=
  hashReads env file.reads []

theorem hashReads_eq
    (env : Env) {reads : List Bytes} (some : ∀ buf ∈ reads, buf ≠ [])
    (hashed : Bytes) :
    hashReads env reads hashed = env.sha256 (hashed ++ reads.flatten) := by
  induction reads generalizing hashed with
  | nil => simp [hashReads]
  | cons buf rest inductionHypothesis =>
      have written : buf.length ≠ 0 := by simpa using some buf (by simp)
      rw [hashReads, if_neg written, inductionHypothesis
        fun other later => some other (List.mem_cons_of_mem _ later)]
      simp

/-- The digest does not depend on how the file is read. -/
theorem sha256File_eq (env : Env) (file : LocalFile) :
    sha256File env file = env.sha256 file.content := by
  have whole := hashReads_eq env (fun buf among => (file.reading buf among).1) []
  rwa [List.nil_append, file.complete] at whole

/-! ## Requests -/

/-- HTTP status codes that warrant a retry. -/
def retryableStatuses : List Nat := [500, 502, 503, 504]

/-- Maximum number of upload retries before giving up on a single file. -/
def maxRetries : Nat := 5

/-- A request that is answered with a retryable status, after the server has
made so many of the calls of its handler. -/
structure Failure where
  status : Nat
  calls : Nat
  retryable : status ∈ retryableStatuses

/-- A retryable status is not a success. -/
theorem Failure.not_success (failure : Failure) :
    ¬(200 ≤ failure.status ∧ failure.status < 300) := by
  have retryable := failure.retryable
  simp only [retryableStatuses, List.mem_cons, List.not_mem_nil, or_false]
    at retryable
  omega

/-- What happens to the requests for one file. -/
structure Script where
  /-- The answer to the `HEAD`, unless it is that of the handler. -/
  head : Option Failure
  /-- The answers to the first `PUT`s. -/
  puts : List Failure
  /-- The sizes of the chunks in which the body of a `PUT` arrives. -/
  chunks : Nat → List Nat
  /-- The seconds that go by until the next attempt. -/
  seconds : Nat → Nat

/-- A body in chunks of these sizes and of what is left. -/
def chunked : List Nat → Bytes → Body
  | [], content => [.ok content]
  | size :: sizes, content =>
      .ok (content.take size) :: chunked sizes (content.drop size)

theorem bytes_chunked (sizes : List Nat) (content : Bytes) :
    (chunked sizes content).bytes = content := by
  induction sizes generalizing content with
  | nil => simp [chunked]
  | cons size sizes inductionHypothesis =>
      rw [chunked, Body.bytes_ok, inductionHypothesis, List.take_append_drop]

/-- The server and the arguments of the command. -/
structure Setup where
  env : Env
  config : Config
  uploadMaxBytes : Nat
  capturesEmpty : Bool
  mount : List (List UInt8)
  encodeBase64 : Bytes → String
  project : String
  apiKey : String

/-- The answer of the limit on request bodies. -/
def payloadTooLarge : Response :=
  ⟨413, [], .text "length limit exceeded"⟩

/-- The answer of the router to an unknown path. -/
def unrouted : Response := ⟨404, [], .empty⟩

/-- The body of a request is within the limit. -/
def withinLimit (uploadMaxBytes : Nat) : Yocto.Method → Bool
  | .put body => body.bytes.length ≤ uploadMaxBytes
  | _ => true

namespace Setup

variable (setup : Setup)

/-- The `Authorization` header of all requests. -/
def authorization : Bytes :=
  utf8 (authHeader setup.encodeBase64 setup.project setup.apiKey)

/-- The handler of a request for a file, behind the limit and the router. -/
def handle (file : LocalFile) (method : Yocto.Method) : App Response :=
  if withinLimit setup.uploadMaxBytes method then
    match target setup.capturesEmpty setup.mount .sstate setup.project
        file.name with
    | some address =>
        Yocto.serve setup.env setup.config
          ⟨some setup.authorization, method, address.kind, address.project,
            address.path⟩
    | none => pure unrouted
  else pure payloadTooLarge

/-- A request with the answer that the client gets. -/
def send
    (file : LocalFile) (method : Yocto.Method) :
    Option Failure → App Response
  | none => setup.handle file method
  | some failure => do
      (setup.handle file method).abandon failure.calls
      pure ⟨failure.status, [], .empty⟩

/-- The path of the file is safe in a URL, and its content is within the
limit. -/
structure Fitting (file : LocalFile) : Prop where
  fits : Fits setup.capturesEmpty .sstate setup.project file.name
  small : file.content.length ≤ setup.uploadMaxBytes

end Setup

/-! ## The command -/

/-- Result of attempting to push a single file. -/
inductive Outcome
  | pushed
  | skipped
  deriving DecidableEq, Repr

/-- Why a push failed: the status of the `HEAD` or of the last `PUT`. -/
inductive CliError
  | headReturned (status : Nat)
  | putReturned (status : Nat)
  deriving DecidableEq, Repr

/-- The `PUT` loop of `push_one`; `left` is the number of attempts that may
follow this one. -/
def putLoop
    (setup : Setup) (file : LocalFile) (script : Script) (attempt left : Nat) :
    App (Except CliError Outcome) := do
  let body := chunked (script.chunks attempt) file.content
  let resp ← setup.send file (.put body) script.puts[attempt]?
  if 200 ≤ resp.status ∧ resp.status < 300 then pure (.ok .pushed)
  else
    match left with
    | 0 => pure (.error (.putReturned resp.status))
    | left + 1 =>
        if resp.status ∈ retryableStatuses then do
          perform (Call.tick (script.seconds attempt))
          putLoop setup file script (attempt + 1) left
        else pure (.error (.putReturned resp.status))

/-- Pushes a single file: `HEAD`, then `PUT` with retries. -/
def pushOne
    (setup : Setup) (dryRun : Bool) (file : LocalFile) (script : Script) :
    App (Except CliError Outcome) := do
  let etag := quoted (sha256File setup.env file)
  let resp ← setup.send file .head script.head
  match checkHead etag resp with
  | .skipped => pure (.ok .skipped)
  | .failed => pure (.error (.headReturned resp.status))
  | .upload =>
      if dryRun then pure (.ok .pushed)
      else putLoop setup file script 0 (maxRetries - 1)

end Push

end Marmotte
