import Marmotte.Models
import Mathlib.Algebra.Order.Ring.Int
import Mathlib.Data.List.Sort
import Mathlib.Data.Set.Basic

/-!
# Environment and configuration

What the server takes from outside its own source: the digest, the random
names, the key-verification and base64 functions of third-party crates, and the
unspecified order of query results and hash sets.  The configuration record and
the 64-bit arithmetic that the code applies to it are here as well.
-/

namespace Marmotte

/-- A string of exactly 64 ASCII hexadecimal digits, in either letter case. -/
def isHex64 (name : String) : Bool :=
  name.toList.length = 64 ∧ name.toList.all fun c =>
    ('0' ≤ c ∧ c ≤ '9') ∨ ('a' ≤ c ∧ c ≤ 'f') ∨ ('A' ≤ c ∧ c ≤ 'F')

/-- The third-party functions that the server calls. -/
structure Env where
  /-- Lowercase hex of the SHA-256 digest. -/
  sha256 : Bytes → String
  sha256_hex : ∀ content, isHex64 (sha256 content) = true
  /-- The names that successive calls of `Uuid::new_v4` return. -/
  uuid : Nat → String
  uuid_injective : Function.Injective uuid
  /-- The order in which an unordered collection is read. -/
  scan : {α : Type} → List α → List α
  scan_perm : ∀ {α : Type} (items : List α), (scan items).Perm items
  /-- Verification of a secret against an argon2 string; the error is the
  message about a malformed string. -/
  verifyArgon2 : String → String → Except String Bool
  /-- Base64 decoding with the standard alphabet. -/
  decodeBase64 : String → Option Bytes

@[simp] theorem Env.mem_scan
    (env : Env) {α : Type} (items : List α) (item : α) :
    item ∈ env.scan items ↔ item ∈ items :=
  (env.scan_perm items).mem_iff

/-- No two of these contents have the same digest. -/
def Env.CollisionFree (env : Env) (contents : Set Bytes) : Prop :=
  ∀ first ∈ contents, ∀ second ∈ contents,
    env.sha256 first = env.sha256 second → first = second

/-- Garbage-collection settings. -/
structure GcConfig where
  defaultTtlSstateDays : Nat
  defaultTtlDownloadsDays : Nat
  globalQuotaBytes : Nat
  triggerThresholdPct : Nat
  deriving Repr

/-- Authentication settings. -/
structure AuthConfig where
  verifyCacheTtlSecs : Nat
  deriving Repr

/-- The settings that the modelled functions read. -/
structure Config where
  gc : GcConfig
  auth : AuthConfig
  deriving Repr

/-! ## Release-mode integer arithmetic -/

/-- Multiplication of `u64` values. -/
def mulU64 (first second : Nat) : Nat := first * second % 2 ^ 64

/-- A `u64` value cast to `i64`. -/
def asI64 (value : Nat) : Int :=
  if value % 2 ^ 64 < 2 ^ 63 then (value % 2 ^ 64 : Nat)
  else (value % 2 ^ 64 : Nat) - 2 ^ 64

/-- An `i64` value cast to `u64`. -/
def asU64 (value : Int) : Nat := (value % 2 ^ 64).toNat

/-- Subtraction of `i64` values. -/
def subI64 (first second : Int) : Int := asI64 (asU64 (first - second))

theorem asI64_of_lt {value : Nat} (small : value < 2 ^ 63) :
    asI64 value = value := by
  have reduced : value % 2 ^ 64 = value := Nat.mod_eq_of_lt (by omega)
  rw [asI64, reduced, if_pos small]

/-- A cast from `u64` to `i64` is exact for the values that fit. -/
theorem asI64_eq_iff {value : Nat} : asI64 value = value ↔ value < 2 ^ 63 := by
  constructor
  · intro exact
    unfold asI64 at exact
    split at exact <;> omega
  · exact asI64_of_lt

/-- A subtraction is exact if the difference fits. -/
theorem subI64_of_fits
    {first second : Int}
    (above : -2 ^ 63 ≤ first - second) (below : first - second < 2 ^ 63) :
    subI64 first second = first - second := by
  unfold subI64 asI64 asU64
  split <;> omega

end Marmotte
