import Marmotte.Runtime

/-!
# Authentication

The verification caches in front of the lookups of keys and tokens, and the
parser of HTTP Basic credentials.
-/

namespace Marmotte

open Effects Program

/-- The lookup hash of a secret. -/
def lookupHash (env : Env) (secret : String) : String :=
  env.sha256 secret.toUTF8.data.toList

/-- Parsed Basic credentials. -/
structure Basic where
  user : String
  pass : String
  deriving DecidableEq, Repr

/-- `HeaderValue::to_str`: visible ASCII, spaces and tabs only. -/
def headerToStr (value : Bytes) : Option String :=
  if value.all fun byte => (32 ≤ byte ∧ byte < 127) ∨ byte = 9 then
    some (String.ofList (value.map fun byte => Char.ofNat byte.toNat))
  else none

/-- `str::strip_prefix`. -/
def stripPrefix (text start : String) : Option String :=
  if start.toList.isPrefixOf text.toList then
    some (String.ofList (text.toList.drop start.toList.length))
  else none

/-- `str::split_once`. -/
def splitOnce (text : String) (separator : Char) : Option (String × String) :=
  let before := text.toList.takeWhile fun c => c ≠ separator
  match text.toList.drop before.length with
  | [] => none
  | _ :: after => some (String.ofList before, String.ofList after)

/-- Parse the `Authorization` header of a request. -/
def parseBasic (env : Env) (authorization : Option Bytes) : Option Basic := do
  let raw ← headerToStr (← authorization)
  let b64 ← stripPrefix raw "Basic "
  let decoded ← env.decodeBase64 b64
  let s ← String.fromUTF8? ⟨decoded.toArray⟩
  let (u, p) ← splitOnce s ':'
  return ⟨u, p⟩

namespace AuthSvc

/-- The scope of a project in the verification cache. -/
def projectScope (projectName : String) : String := s!"proj:{projectName}"

theorem projectScope_injective : Function.Injective projectScope := by
  intro first second equal
  exact (String.append_right_inj _).mp equal

/-- What `authenticate_project` runs on a cache miss. -/
def verifyProject
    (env : Env) (projectName apiKey lookup : String) : App ProjectAuth := do
  let project ← (transact (.projectsGetByName projectName)).catchError
    fun _ => .fail .unauthorized
  let row ← transact (.apiKeysFindActive project.id lookup)
  match row with
  | none => .fail .unauthorized
  | some key =>
      match env.verifyArgon2 apiKey key.keyHash with
      | .error message => .fail (.crypto message)
      | .ok false => .fail .unauthorized
      | .ok true => pure ⟨project.id, project.name, key.id, key.role⟩

/-- Authenticate a project with one of its keys. -/
def authenticateProject
    (env : Env) (projectName apiKey : String) : App ProjectAuth := do
  let lookup := lookupHash env apiKey
  let scope := projectScope projectName
  let cached ← perform (Call.projectCacheGet scope lookup)
  match cached with
  | some auth => pure auth
  | none => do
      let auth ← verifyProject env projectName apiKey lookup
      perform (Call.projectCacheInsert scope lookup auth)
      pure auth

/-- What `authenticate_admin` runs on a cache miss. -/
def verifyAdmin (env : Env) (token lookup : String) : App AdminAuth := do
  let row ← transact (.adminTokensFindActive lookup)
  match row with
  | none => .fail .unauthorized
  | some t =>
      match env.verifyArgon2 token t.tokenHash with
      | .error message => .fail (.crypto message)
      | .ok false => .fail .unauthorized
      | .ok true => pure ⟨t.id, t.label⟩

/-- Authenticate a Bearer admin token. -/
def authenticateAdmin (env : Env) (token : String) : App AdminAuth := do
  let lookup := lookupHash env token
  let cached ← perform (Call.adminCacheGet "admin" lookup)
  match cached with
  | some auth => pure auth
  | none => do
      let auth ← verifyAdmin env token lookup
      perform (Call.adminCacheInsert "admin" lookup auth)
      pure auth

end AuthSvc

end Marmotte
