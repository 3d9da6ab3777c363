import Mathlib.Data.List.DropRight
import Marmotte.Paging.Base64Url

/-!
# Base64 with the standard alphabet

The text of base64url with `+` and `/` for its last two characters, padded with
equals signs to whole groups of four.
-/

namespace Base64

/-- The character of the standard alphabet. -/
def toStandard (c : Char) : Char :=
  if c = '-' then '+' else if c = '_' then '/' else c

/-- The URL-safe character, for a character of the standard alphabet. -/
def ofStandard (c : Char) : Option Char :=
  if c = '+' then some '-'
  else if c = '/' then some '_'
  else if c = '-' ∨ c = '_' then none
  else some c

/-- The number of equals signs behind so many characters. -/
def padding (length : Nat) : Nat := (4 - length % 4) % 4

def encode (content : List UInt8) : List Char :=
  let text := (Base64Url.encode content).map toStandard
  text ++ List.replicate (padding text.length) '='

def decode (text : List Char) : Option (List UInt8) :=
  let body := text.rdropWhile fun c => decide (c = '=')
  if text.length = body.length + padding body.length then do
    Base64Url.decode (← body.mapM ofStandard)
  else none

theorem digit_mem (value : Nat) :
    Base64Url.digit value ∈ Base64Url.alphabet := by
  rw [Base64Url.digit, List.getD_eq_getElem?_getD]
  cases found : Base64Url.alphabet[value]? with
  | none => decide
  | some c => exact List.mem_of_getElem? found

theorem mem_encode
    {content : List UInt8} {c : Char}
    (written : c ∈ Base64Url.encode content) : c ∈ Base64Url.alphabet := by
  fun_induction Base64Url.encode content with
  | case1 => cases written
  | case2 a =>
      simp only [List.mem_cons, List.not_mem_nil, or_false] at written
      rcases written with rfl | rfl <;> exact digit_mem _
  | case3 a b =>
      simp only [List.mem_cons, List.not_mem_nil, or_false] at written
      rcases written with rfl | rfl | rfl <;> exact digit_mem _
  | case4 a b c rest inductionHypothesis =>
      simp only [List.mem_cons] at written
      rcases written with rfl | rfl | rfl | rfl | later
      · exact digit_mem _
      · exact digit_mem _
      · exact digit_mem _
      · exact digit_mem _
      · exact inductionHypothesis later

theorem standard_all :
    ∀ c ∈ Base64Url.alphabet,
      ofStandard (toStandard c) = some c ∧ toStandard c ≠ '=' ∧
        32 ≤ (toStandard c).toNat ∧ (toStandard c).toNat < 127 := by
  have checked : Base64Url.alphabet.all (fun c =>
      ofStandard (toStandard c) = some c ∧ toStandard c ≠ '=' ∧
        32 ≤ (toStandard c).toNat ∧ (toStandard c).toNat < 127) = true := by
    decide +kernel
  exact fun c among => of_decide_eq_true (List.all_eq_true.mp checked c among)

theorem mapM_ofStandard
    {text : List Char} (known : ∀ c ∈ text, c ∈ Base64Url.alphabet) :
    (text.map toStandard).mapM ofStandard = some text := by
  induction text with
  | nil => rfl
  | cons c rest inductionHypothesis =>
      rw [List.map_cons, List.mapM_cons,
        (standard_all c (known c List.mem_cons_self)).1,
        inductionHypothesis fun d member =>
          known d (List.mem_cons_of_mem _ member)]
      rfl

/-- Padding is stripped from a text without equals signs. -/
theorem rdropWhile_padded
    {text : List Char} (unpadded : '=' ∉ text) (count : Nat) :
    (text ++ List.replicate count '=').rdropWhile
      (fun c => decide (c = '=')) = text := by
  induction count with
  | zero =>
      rw [List.replicate_zero, List.append_nil, List.rdropWhile_eq_self_iff]
      intro some equals
      rw [decide_eq_true_eq] at equals
      exact unpadded (equals ▸ List.getLast_mem some)
  | succ count inductionHypothesis =>
      rw [List.replicate_succ', ← List.append_assoc,
        List.rdropWhile_concat_pos _ _ _ (by decide)]
      exact inductionHypothesis

/-- What was encoded is decoded. -/
theorem decode_encode (content : List UInt8) :
    decode (encode content) = some content := by
  have unpadded : '=' ∉ (Base64Url.encode content).map toStandard := by
    intro written
    obtain ⟨c, member, same⟩ := List.mem_map.mp written
    exact (standard_all c (mem_encode member)).2.1 same
  have body : (encode content).rdropWhile (fun c => decide (c = '=')) =
      (Base64Url.encode content).map toStandard :=
    rdropWhile_padded unpadded _
  have total : (encode content).length =
      ((Base64Url.encode content).map toStandard).length +
        padding ((Base64Url.encode content).map toStandard).length := by
    simp [encode]
  simp only [decode, body]
  rw [if_pos total, mapM_ofStandard fun c => mem_encode]
  exact Base64Url.decode_encode content

/-- The text is visible ASCII. -/
theorem encode_visible
    {content : List UInt8} {c : Char} (written : c ∈ encode content) :
    32 ≤ c.toNat ∧ c.toNat < 127 := by
  rcases List.mem_append.mp written with text | padded
  · obtain ⟨d, member, rfl⟩ := List.mem_map.mp text
    exact (standard_all d (mem_encode member)).2.2
  · rw [List.eq_of_mem_replicate padded]
    decide

end Base64
