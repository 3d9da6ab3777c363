import Marmotte.Environment

/-!
# A concrete environment

An environment in which the programs can be evaluated.  It knows the digests of
a few short contents, its random names are runs of one letter, and collections
are read in the order in which they are stored.
-/

namespace Marmotte

namespace Sample

/-- The digests of a few contents. -/
def sha256 (content : Bytes) : String :=
  if content = [] then
    "e3b0c44298fc1c149afbf4c8996fb92427ae41e4649b934ca495991b7852b855"
  else if content = [97] then
    "ca978112ca1bbdcafac231b39a23dc4da786eff8147c4e72b9807785afee48bb"
  else if content = [98] then
    "3e23e8160039594a33894f6564e1b1348bbd7a0088d42c4acb73eeaed59c009d"
  else if content = [97, 98, 99] then
    "ba7816bf8f01cfea414140de5dae2223b00361a396177a9cb410ff61f20015ad"
  else
    "0000000000000000000000000000000000000000000000000000000000000000"

def env : Env where
  sha256 := sha256
  sha256_hex content := by
    unfold sha256
    split
    · decide
    · split
      · decide
      · split
        · decide
        · split <;> decide
  uuid number := String.ofList (List.replicate number 'x')
  uuid_injective first second equal := by
    have lengths := congrArg String.length equal
    simpa using lengths
  scan items := items
  scan_perm _ := .refl _
  verifyArgon2 _ _ := .error "password hash string invalid"
  decodeBase64 _ := none

/-- A configuration with a global quota in bytes. -/
def config (globalQuotaBytes : Nat) : Config where
  gc := ⟨90, 365, globalQuotaBytes, 90⟩
  auth := ⟨60⟩

/-- The contents with known digests do not collide. -/
theorem collisionFree :
    env.CollisionFree {content | content ∈ [[], [97], [98], [97, 98, 99]]} := by
  have distinct : ∀ first ∈ [[], [97], [98], [97, 98, 99]],
      ∀ second ∈ [[], [97], [98], [97, 98, 99]],
        sha256 first = sha256 second → first = second := by
    decide
  exact distinct

end Sample

end Marmotte
