import Mathlib.Data.List.Basic
import Mathlib.Data.List.Infix
import Mathlib.Tactic.NormNum

/-!
# Percent encoding of bytes

Some bytes are written as a percent sign and two hexadecimal digits.  A percent
sign in the input is left as it is, so decoding gives the input back unless the
input already looks encoded somewhere.
-/

namespace Percent

/-- The percent sign. -/
abbrev sign : UInt8 := 37

/-- The value of a hexadecimal digit. -/
def hexValue (byte : UInt8) : Option Nat :=
  if 48 ≤ byte ∧ byte ≤ 57 then some (byte.toNat - 48)
  else if 65 ≤ byte ∧ byte ≤ 70 then some (byte.toNat - 55)
  else if 97 ≤ byte ∧ byte ≤ 102 then some (byte.toNat - 87)
  else none

/-- The byte is a hexadecimal digit. -/
abbrev IsHex (byte : UInt8) : Prop := (hexValue byte).isSome = true

/-- An uppercase hexadecimal digit. -/
def hexDigit (value : Nat) : UInt8 :=
  UInt8.ofNat (if value < 10 then value + 48 else value + 55)

def encodeByte (encodes : UInt8 → Bool) (byte : UInt8) : List UInt8 :=
  if encodes byte then
    [sign, hexDigit (byte.toNat / 16), hexDigit (byte.toNat % 16)]
  else [byte]

def encode (encodes : UInt8 → Bool) (input : List UInt8) : List UInt8 :=
  input.flatMap (encodeByte encodes)

def decode : List UInt8 → List UInt8
  | [] => []
  | [a] => [a]
  | [a, b] => [a, b]
  | a :: b :: c :: rest =>
      if a = sign then
        match hexValue b, hexValue c with
        | some high, some low =>
            UInt8.ofNat (high * 16 + low) :: decode rest
        | _, _ => a :: decode (b :: c :: rest)
      else a :: decode (b :: c :: rest)

/-- A percent sign is followed by two hexadecimal digits somewhere. -/
def LooksEncoded (input : List UInt8) : Prop :=
  ∃ high low, IsHex high ∧ IsHex low ∧ [sign, high, low] <:+: input

/-! ## Decoding -/

theorem decode_cons_ne
    {byte : UInt8} (ordinary : byte ≠ sign) (rest : List UInt8) :
    decode (byte :: rest) = byte :: decode rest := by
  match rest with
  | [] => rfl
  | [_] => rfl
  | _ :: _ :: _ => rw [decode, if_neg ordinary]

theorem decode_triplet
    {high low : UInt8} {first second : Nat}
    (isHigh : hexValue high = some first) (isLow : hexValue low = some second)
    (rest : List UInt8) :
    decode (sign :: high :: low :: rest) =
      UInt8.ofNat (first * 16 + second) :: decode rest := by
  rw [decode, if_pos rfl]
  simp only [isHigh, isLow]

/-- A percent sign that two digits do not follow stands for itself. -/
theorem decode_sign
    {rest : List UInt8}
    (alone : ∀ high low after, rest = high :: low :: after →
      ¬(IsHex high ∧ IsHex low)) :
    decode (sign :: rest) = sign :: decode rest := by
  match rest with
  | [] => rfl
  | [_] => rfl
  | high :: low :: after =>
      have bad := alone high low after rfl
      rw [decode, if_pos rfl]
      cases isHigh : hexValue high with
      | none => rfl
      | some first =>
          cases isLow : hexValue low with
          | none => rfl
          | some second =>
              exact absurd ⟨by simp [IsHex, isHigh], by simp [IsHex, isLow]⟩ bad

theorem looksEncoded_cons {byte : UInt8} {rest : List UInt8} :
    LooksEncoded (byte :: rest) ↔
      (byte = sign ∧ ∃ high low after, rest = high :: low :: after ∧
        IsHex high ∧ IsHex low) ∨ LooksEncoded rest := by
  constructor
  · rintro ⟨high, low, isHigh, isLow, inside⟩
    rcases List.infix_cons_iff.mp inside with ⟨after, same⟩ | later
    · cases same
      exact .inl ⟨rfl, high, low, after, rfl, isHigh, isLow⟩
    · exact .inr ⟨high, low, isHigh, isLow, later⟩
  · rintro (⟨rfl, high, low, after, rfl, isHigh, isLow⟩ |
      ⟨high, low, isHigh, isLow, later⟩)
    · exact ⟨high, low, isHigh, isLow,
        List.infix_cons_iff.mpr (.inl ⟨after, rfl⟩)⟩
    · exact ⟨high, low, isHigh, isLow,
        List.infix_cons_iff.mpr (.inr later)⟩

/-- One byte is kept in front of what is decoded, or three bytes become one. -/
theorem decode_cons (byte : UInt8) (rest : List UInt8) :
    (decode (byte :: rest) = byte :: decode rest ∧
      ¬(byte = sign ∧ ∃ high low after, rest = high :: low :: after ∧
        IsHex high ∧ IsHex low)) ∨
    ∃ high low after value, byte = sign ∧ rest = high :: low :: after ∧
      IsHex high ∧ IsHex low ∧
        decode (byte :: rest) = value :: decode after := by
  by_cases starts : byte = sign ∧ ∃ high low after,
      rest = high :: low :: after ∧ IsHex high ∧ IsHex low
  · obtain ⟨rfl, high, low, after, rfl, isHigh, isLow⟩ := starts
    obtain ⟨first, highValue⟩ := Option.isSome_iff_exists.mp isHigh
    obtain ⟨second, lowValue⟩ := Option.isSome_iff_exists.mp isLow
    exact .inr ⟨high, low, after, _, rfl, rfl, isHigh, isLow,
      decode_triplet highValue lowValue after⟩
  · refine .inl ⟨?_, starts⟩
    by_cases ordinary : byte = sign
    · subst ordinary
      refine decode_sign ?_
      rintro high low after rfl ⟨isHigh, isLow⟩
      exact starts ⟨rfl, high, low, after, rfl, isHigh, isLow⟩
    · exact decode_cons_ne ordinary rest

theorem decode_length_le (input : List UInt8) :
    (decode input).length ≤ input.length := by
  induction size : input.length using Nat.strong_induction_on
    generalizing input with
  | _ count inductionHypothesis =>
      subst size
      cases input with
      | nil => simp [decode]
      | cons byte rest =>
          rcases decode_cons byte rest with ⟨same, -⟩ |
            ⟨high, low, after, value, -, rfl, -, -, same⟩
          · rw [same]
            exact Nat.succ_le_succ
              (inductionHypothesis rest.length (by simp) rest rfl)
          · have shorter := inductionHypothesis after.length
              (by simp only [List.length_cons]; omega) after rfl
            rw [same]
            simp only [List.length_cons]
            omega

/-- What does not look encoded is left as it is. -/
theorem decode_eq_self {input : List UInt8} (plain : ¬LooksEncoded input) :
    decode input = input := by
  induction input with
  | nil => rfl
  | cons byte rest inductionHypothesis =>
      rw [looksEncoded_cons, not_or] at plain
      rcases decode_cons byte rest with ⟨same, -⟩ |
        ⟨high, low, after, value, isSign, split, isHigh, isLow, -⟩
      · rw [same, inductionHypothesis plain.2]
      · exact absurd ⟨isSign, high, low, after, split, isHigh, isLow⟩ plain.1

/-- What looks encoded is shortened. -/
theorem decode_length_lt {input : List UInt8} (encoded : LooksEncoded input) :
    (decode input).length < input.length := by
  induction input with
  | nil =>
      obtain ⟨_, _, -, -, inside⟩ := encoded
      cases List.infix_nil.mp inside
  | cons byte rest inductionHypothesis =>
      rcases decode_cons byte rest with ⟨same, absent⟩ |
        ⟨high, low, after, value, -, rfl, -, -, same⟩
      · rw [same]
        exact Nat.succ_lt_succ (inductionHypothesis
          ((looksEncoded_cons.mp encoded).resolve_left absent))
      · have shorter := decode_length_le after
        rw [same]
        simp only [List.length_cons]
        omega

theorem looksEncoded_iff {input : List UInt8} :
    LooksEncoded input ↔ decode input ≠ input := by
  constructor
  · intro encoded same
    have shorter := decode_length_lt encoded
    rw [same] at shorter
    exact Nat.lt_irrefl _ shorter
  · intro different
    by_contra plain
    exact different (decode_eq_self plain)

instance (input : List UInt8) : Decidable (LooksEncoded input) :=
  decidable_of_iff _ looksEncoded_iff.symm

/-- A byte that is neither a percent sign nor a digit is not a part of a
triplet. -/
theorem decode_append_cons
    {separator : UInt8} (ordinary : separator ≠ sign)
    (notHex : ¬IsHex separator) (before after : List UInt8) :
    decode (before ++ separator :: after) =
      decode before ++ separator :: decode after := by
  induction size : before.length using Nat.strong_induction_on
    generalizing before with
  | _ count inductionHypothesis =>
      subst size
      cases before with
      | nil => exact decode_cons_ne ordinary after
      | cons byte rest =>
          rcases decode_cons byte rest with ⟨same, absent⟩ |
            ⟨high, low, tail, value, rfl, rfl, isHigh, isLow, same⟩
          · have following := inductionHypothesis rest.length (by simp) rest rfl
            rcases decode_cons byte (rest ++ separator :: after) with
              ⟨joined, -⟩ |
              ⟨high, low, tail, value, isSign, split, isHigh, isLow, -⟩
            · rw [List.cons_append, joined, same, following, List.cons_append]
            · match rest with
              | [] =>
                  cases split
                  exact absurd isHigh notHex
              | [_] =>
                  cases split
                  exact absurd isLow notHex
              | _ :: _ :: _ =>
                  cases split
                  exact absurd ⟨isSign, _, _, _, rfl, isHigh, isLow⟩ absent
          · obtain ⟨first, highValue⟩ := Option.isSome_iff_exists.mp isHigh
            obtain ⟨second, lowValue⟩ := Option.isSome_iff_exists.mp isLow
            have rest := inductionHypothesis tail.length
              (by simp only [List.length_cons]; omega) tail rfl
            rw [decode_triplet highValue lowValue] at same ⊢
            simp only [List.cons_append]
            rw [decode_triplet highValue lowValue, rest]

/-! ## Encoding -/

section Encoding

variable {encodes : UInt8 → Bool}

theorem hexValue_hexDigit_all :
    ∀ value ∈ List.range 16, hexValue (hexDigit value) = some value := by
  decide

theorem hexValue_hexDigit {value : Nat} (small : value < 16) :
    hexValue (hexDigit value) = some value :=
  hexValue_hexDigit_all value (List.mem_range.mpr small)

theorem encode_cons (byte : UInt8) (rest : List UInt8) :
    encode encodes (byte :: rest) =
      encodeByte encodes byte ++ encode encodes rest :=
  List.flatMap_cons

theorem encode_cons_kept
    {byte : UInt8} (kept : encodes byte = false) (rest : List UInt8) :
    encode encodes (byte :: rest) = byte :: encode encodes rest := by
  simp [encode_cons, encodeByte, kept]

/-- A digit in front of an encoded text was there before. -/
theorem encode_eq_cons
    {input : List UInt8} {digit : UInt8} {more : List UInt8}
    (isHex : IsHex digit) (same : encode encodes input = digit :: more) :
    ∃ rest, input = digit :: rest ∧ more = encode encodes rest := by
  cases input with
  | nil => cases same
  | cons byte rest =>
      cases kept : encodes byte with
      | true =>
          simp only [encode_cons, encodeByte, kept, if_true, List.cons_append,
            List.cons.injEq] at same
          rw [← same.1] at isHex
          exact absurd isHex (by decide)
      | false =>
          rw [encode_cons_kept kept, List.cons.injEq] at same
          exact ⟨rest, by rw [same.1], same.2.symm⟩

/-- Encoding is undone by decoding, which also decodes what looked encoded. -/
theorem decode_encode
    (keeps : ∀ byte, byte = sign ∨ IsHex byte → encodes byte = false)
    (input : List UInt8) :
    decode (encode encodes input) = decode input := by
  induction size : input.length using Nat.strong_induction_on
    generalizing input with
  | _ count inductionHypothesis =>
      subst size
      cases input with
      | nil => rfl
      | cons byte rest =>
          have following := inductionHypothesis rest.length (by simp) rest rfl
          cases kept : encodes byte with
          | true =>
              have ordinary : byte ≠ sign := by
                rintro rfl
                rw [keeps _ (.inl rfl)] at kept
                cases kept
              have small := byte.toNat_lt
              have whole : byte.toNat / 16 * 16 + byte.toNat % 16 =
                  byte.toNat := by omega
              simp only [encode_cons, encodeByte, kept, if_true,
                List.cons_append, List.nil_append]
              rw [decode_triplet (hexValue_hexDigit (by omega))
                (hexValue_hexDigit (by omega)), following, whole,
                UInt8.ofNat_toNat, decode_cons_ne ordinary]
          | false =>
              rw [encode_cons_kept kept]
              rcases decode_cons byte rest with ⟨same, absent⟩ |
                ⟨high, low, tail, value, rfl, rfl, isHigh, isLow, same⟩
              · rcases decode_cons byte (encode encodes rest) with
                  ⟨encoded, -⟩ |
                  ⟨high, low, tail, value, isSign, split, isHigh, isLow, -⟩
                · rw [encoded, following, same]
                · obtain ⟨later, rfl, tailEq⟩ := encode_eq_cons isHigh split
                  obtain ⟨after, rfl, -⟩ := encode_eq_cons isLow tailEq.symm
                  exact absurd ⟨isSign, high, low, after, rfl, isHigh, isLow⟩
                    absent
              · obtain ⟨first, highValue⟩ :=
                  Option.isSome_iff_exists.mp isHigh
                obtain ⟨second, lowValue⟩ := Option.isSome_iff_exists.mp isLow
                rw [encode_cons_kept (keeps _ (.inr isHigh)),
                  encode_cons_kept (keeps _ (.inr isLow)),
                  decode_triplet highValue lowValue,
                  decode_triplet highValue lowValue]
                rw [inductionHypothesis tail.length
                  (by simp only [List.length_cons]; omega) tail rfl]

end Encoding

end Percent
