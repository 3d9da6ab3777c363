import Mathlib.Data.List.Basic
import Mathlib.Tactic.NormNum

/-!
# Base64url without padding

Three bytes are written as four characters of a URL-safe alphabet; one or two
bytes at the end are written as two or three characters, whose unused bits are
zero.
-/

namespace Base64Url

/-- The characters for the values below 64. -/
def alphabet : List Char :=
  "ABCDEFGHIJKLMNOPQRSTUVWXYZabcdefghijklmnopqrstuvwxyz0123456789-_".toList

/-- The character of a value. -/
def digit (value : Nat) : Char := alphabet.getD value 'A'

/-- The value of a character. -/
def digitValue (c : Char) : Option Nat := alphabet.findIdx? fun d => d = c

theorem digitValue_digit_all :
    ∀ value ∈ List.range 64, digitValue (digit value) = some value := by
  decide

@[simp] theorem digitValue_digit {value : Nat} (small : value < 64) :
    digitValue (digit value) = some value :=
  digitValue_digit_all value (List.mem_range.mpr small)

def encode : List UInt8 → List Char
  | [] => []
  | [a] => [digit (a.toNat / 4), digit (a.toNat % 4 * 16)]
  | [a, b] =>
      [digit (a.toNat / 4), digit (a.toNat % 4 * 16 + b.toNat / 16),
        digit (b.toNat % 16 * 4)]
  | a :: b :: c :: rest =>
      digit (a.toNat / 4) :: digit (a.toNat % 4 * 16 + b.toNat / 16) ::
        digit (b.toNat % 16 * 4 + c.toNat / 64) :: digit (c.toNat % 64) ::
          encode rest

def decode : List Char → Option (List UInt8)
  | [] => some []
  | [_] => none
  | [w, x] => do
      let w ← digitValue w
      let x ← digitValue x
      if x % 16 = 0 then some [UInt8.ofNat (w * 4 + x / 16)] else none
  | [w, x, y] => do
      let w ← digitValue w
      let x ← digitValue x
      let y ← digitValue y
      if y % 4 = 0 then
        some [UInt8.ofNat (w * 4 + x / 16),
          UInt8.ofNat (x % 16 * 16 + y / 4)]
      else none
  | w :: x :: y :: z :: text => do
      let w ← digitValue w
      let x ← digitValue x
      let y ← digitValue y
      let z ← digitValue z
      let rest ← decode text
      some (UInt8.ofNat (w * 4 + x / 16) :: UInt8.ofNat (x % 16 * 16 + y / 4) ::
        UInt8.ofNat (y % 4 * 64 + z) :: rest)

theorem ofNat_of_eq {value : Nat} {byte : UInt8} (equal : value = byte.toNat) :
    UInt8.ofNat value = byte := by
  rw [equal, UInt8.ofNat_toNat]

/-- What was encoded is decoded. -/
theorem decode_encode (content : List UInt8) :
    decode (encode content) = some content := by
  fun_induction encode content with
  | case1 => rfl
  | case2 a =>
      have aSmall := a.toNat_lt
      rw [decode, digitValue_digit (by omega), digitValue_digit (by omega)]
      have clear : a.toNat % 4 * 16 % 16 = 0 := by omega
      simp only [bind, Option.bind, clear, if_true]
      rw [@ofNat_of_eq _ a (by omega)]
  | case3 a b =>
      have aSmall := a.toNat_lt
      have bSmall := b.toNat_lt
      rw [decode, digitValue_digit (by omega), digitValue_digit (by omega),
        digitValue_digit (by omega)]
      have clear : b.toNat % 16 * 4 % 4 = 0 := by omega
      simp only [bind, Option.bind, clear, if_true]
      rw [@ofNat_of_eq _ a (by omega), @ofNat_of_eq _ b (by omega)]
  | case4 a b c rest inductionHypothesis =>
      have aSmall := a.toNat_lt
      have bSmall := b.toNat_lt
      have cSmall := c.toNat_lt
      rw [decode, digitValue_digit (by omega), digitValue_digit (by omega),
        digitValue_digit (by omega), digitValue_digit (by omega),
        inductionHypothesis]
      simp only [bind, Option.bind]
      rw [@ofNat_of_eq _ a (by omega), @ofNat_of_eq _ b (by omega),
        @ofNat_of_eq _ c (by omega)]

end Base64Url
