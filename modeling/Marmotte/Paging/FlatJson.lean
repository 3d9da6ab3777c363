import Mathlib.Data.List.Basic
import Mathlib.Data.List.TakeWhile
import Mathlib.Tactic.NormNum

/-!
# JSON texts of flat objects

Objects whose members are texts and integers, written without white space, and
a reader for what is written.
-/

namespace FlatJson

/-- A member of a flat object. -/
inductive Scalar
  | text (value : String)
  | integer (value : Int)
  deriving DecidableEq, Repr

/-! ## Writing -/

def hexDigit (value : Nat) : Char := "0123456789abcdef".toList.getD value '0'

/-- A character inside a quoted text. -/
def escape (c : Char) : List Char :=
  if c = '"' then ['\\', '"']
  else if c = '\\' then ['\\', '\\']
  else if c = '\n' then ['\\', 'n']
  else if c = '\r' then ['\\', 'r']
  else if c = '\t' then ['\\', 't']
  else if c = Char.ofNat 8 then ['\\', 'b']
  else if c = Char.ofNat 12 then ['\\', 'f']
  else if c.toNat < 32 then
    ['\\', 'u', '0', '0', hexDigit (c.toNat / 16), hexDigit (c.toNat % 16)]
  else [c]

def quote (text : String) : List Char :=
  '"' :: (text.toList.flatMap escape ++ ['"'])

def writeInteger (value : Int) : List Char :=
  if value < 0 then '-' :: Nat.toDigits 10 value.natAbs
  else Nat.toDigits 10 value.natAbs

def writeScalar : Scalar → List Char
  | .text value => quote value
  | .integer value => writeInteger value

def writeMember (member : String × Scalar) : List Char :=
  quote member.1 ++ ':' :: writeScalar member.2

def writeMembers : List (String × Scalar) → List Char
  | [] => []
  | [member] => writeMember member
  | member :: rest => writeMember member ++ ',' :: writeMembers rest

def writeObject (members : List (String × Scalar)) : List Char :=
  '{' :: (writeMembers members ++ ['}'])

/-! ## Reading -/

def hexValue (c : Char) : Option Nat :=
  "0123456789abcdef".toList.findIdx? fun d => d = c

/-- The character of an escape other than `\u`. -/
def unescape : Char → Option Char
  | '"' => some '"'
  | '\\' => some '\\'
  | '/' => some '/'
  | 'n' => some '\n'
  | 'r' => some '\r'
  | 't' => some '\t'
  | 'b' => some (Char.ofNat 8)
  | 'f' => some (Char.ofNat 12)
  | _ => none

/-- Put a character in front of what was read. -/
def push
    (c : Char) (read : Option (List Char × List Char)) :
    Option (List Char × List Char) :=
  read.map fun found => (c :: found.1, found.2)

/-- The rest of a quoted text and what follows it. -/
def readChars : List Char → Option (List Char × List Char)
  | [] => none
  | '"' :: rest => some ([], rest)
  | '\\' :: 'u' :: '0' :: '0' :: high :: low :: rest =>
      match hexValue high, hexValue low with
      | some high, some low => push (Char.ofNat (high * 16 + low)) (readChars rest)
      | _, _ => none
  | '\\' :: c :: rest =>
      match unescape c with
      | some c => push c (readChars rest)
      | none => none
  | c :: rest => push c (readChars rest)

/-- An unsigned number and what follows it. -/
def readNatural (input : List Char) : Option (Nat × List Char) :=
  let digits := input.takeWhile Char.isDigit
  if digits = [] then none
  else some (Nat.ofDigitChars 10 digits 0, input.dropWhile Char.isDigit)

def readScalar : List Char → Option (Scalar × List Char)
  | '"' :: rest =>
      (readChars rest).map fun (text, rest) => (.text (String.ofList text), rest)
  | '-' :: rest =>
      (readNatural rest).map fun (value, rest) => (.integer (-value), rest)
  | rest => (readNatural rest).map fun (value, rest) => (.integer value, rest)

/-- A member and what follows it. -/
def readMember : List Char → Option ((String × Scalar) × List Char)
  | '"' :: input =>
      match readChars input with
      | some (name, ':' :: rest) =>
          (readScalar rest).map fun (value, rest) =>
            ((String.ofList name, value), rest)
      | _ => none
  | _ => none

/-- Members up to the closing brace, with a bound on their number. -/
def readMembers :
    Nat → List Char → Option (List (String × Scalar) × List Char)
  | 0, _ => none
  | bound + 1, input =>
      match readMember input with
      | some (member, '}' :: rest) => some ([member], rest)
      | some (member, ',' :: rest) =>
          (readMembers bound rest).map fun (members, rest) =>
            (member :: members, rest)
      | _ => none

def readObject : List Char → Option (List (String × Scalar))
  | ['{', '}'] => some []
  | '{' :: input =>
      match readMembers input.length input with
      | some (members, []) => some members
      | _ => none
  | _ => none

/-! ## What was written is read -/

theorem hexValue_hexDigit_all :
    ∀ value ∈ List.range 16, hexValue (hexDigit value) = some value := by
  decide

theorem hexValue_hexDigit {value : Nat} (small : value < 16) :
    hexValue (hexDigit value) = some value :=
  hexValue_hexDigit_all value (List.mem_range.mpr small)

theorem readChars_unescape
    {c meaning : Char} (rest : List Char)
    (known : unescape c = some meaning) :
    readChars ('\\' :: c :: rest) = push meaning (readChars rest) := by
  rw [readChars]
  · simp only [known]
  · rintro _ _ _ rfl
    cases known

theorem readChars_escape (c : Char) (rest : List Char) :
    readChars (escape c ++ rest) = push c (readChars rest) := by
  unfold escape
  split_ifs with quoted slash newline carriage tab back form control
  · subst quoted
    exact readChars_unescape rest rfl
  · subst slash
    exact readChars_unescape rest rfl
  · subst newline
    exact readChars_unescape rest rfl
  · subst carriage
    exact readChars_unescape rest rfl
  · subst tab
    exact readChars_unescape rest rfl
  · subst back
    exact readChars_unescape rest rfl
  · subst form
    exact readChars_unescape rest rfl
  · have high : hexValue (hexDigit (c.toNat / 16)) = some (c.toNat / 16) :=
      hexValue_hexDigit (by omega)
    have low : hexValue (hexDigit (c.toNat % 16)) = some (c.toNat % 16) :=
      hexValue_hexDigit (by omega)
    have whole : c.toNat / 16 * 16 + c.toNat % 16 = c.toNat := by omega
    simp only [List.cons_append, List.nil_append]
    rw [readChars]
    simp only [high, low, whole, Char.ofNat_toNat]
  · rw [List.singleton_append, readChars]
    · exact quoted
    · rintro _ _ _ rfl
      exact absurd rfl slash
    · rintro _ _ rfl
      exact absurd rfl slash

theorem readChars_quote (text rest : List Char) :
    readChars (text.flatMap escape ++ '"' :: rest) = some (text, rest) := by
  induction text with
  | nil => rfl
  | cons c text inductionHypothesis =>
      rw [List.flatMap_cons, List.append_assoc, readChars_escape,
        inductionHypothesis]
      rfl

/-- What follows does not go on with a digit. -/
def Delimited (rest : List Char) : Prop :=
  ∀ c ∈ rest.head?, c.isDigit = false

theorem readNatural_toDigits
    (value : Nat) {rest : List Char} (delimited : Delimited rest) :
    readNatural (Nat.toDigits 10 value ++ rest) = some (value, rest) := by
  have digits : ∀ c ∈ Nat.toDigits 10 value, c.isDigit = true :=
    fun c present => Nat.isDigit_of_mem_toDigits (by omega) (by omega) present
  have stops : rest.takeWhile Char.isDigit = [] ∧
      rest.dropWhile Char.isDigit = rest := by
    cases rest with
    | nil => exact ⟨rfl, rfl⟩
    | cons c rest =>
        have other : c.isDigit = false := delimited c rfl
        simp [other]
  have some : Nat.toDigits 10 value ≠ [] := Nat.toDigits_ne_nil
  simp only [readNatural, List.takeWhile_append_of_pos digits,
    List.dropWhile_append_of_pos digits, stops, List.append_nil, if_neg some,
    Nat.ofDigitChars_ten_toDigits]

theorem readScalar_write
    (value : Scalar) {rest : List Char} (delimited : Delimited rest) :
    readScalar (writeScalar value ++ rest) = some (value, rest) := by
  cases value with
  | text value =>
      rw [writeScalar, quote, List.cons_append, List.append_assoc,
        List.singleton_append, readScalar, readChars_quote]
      simp
  | integer value =>
      rw [writeScalar, writeInteger]
      split
      · have back : -(value.natAbs : Int) = value := by omega
        rw [List.cons_append, readScalar,
          readNatural_toDigits _ delimited]
        simp only [Option.map_some, back]
      · have back : (value.natAbs : Int) = value := by omega
        have first : ∀ c text,
            Nat.toDigits 10 value.natAbs ++ rest = c :: text →
              c.isDigit = true := by
          intro c text equal
          obtain ⟨d, digits, same⟩ := List.exists_cons_of_ne_nil
            (@Nat.toDigits_ne_nil value.natAbs 10)
          rw [same, List.cons_append, List.cons.injEq] at equal
          exact equal.1 ▸ Nat.isDigit_of_mem_toDigits (by omega) (by omega)
            (same ▸ List.mem_cons_self)
        rw [readScalar, readNatural_toDigits _ delimited]
        · simp [back]
        · intro text equal
          exact absurd (first _ _ equal) (by decide)
        · intro text equal
          exact absurd (first _ _ equal) (by decide)

theorem readMember_write
    (member : String × Scalar) {rest : List Char}
    (delimited : Delimited rest) :
    readMember (writeMember member ++ rest) = some (member, rest) := by
  obtain ⟨name, value⟩ := member
  have named := readChars_quote name.toList
    (':' :: (writeScalar value ++ rest))
  simp only [writeMember, quote, List.cons_append, List.append_assoc,
    List.nil_append, readMember, named,
    readScalar_write value delimited, Option.map_some, String.ofList_toList]

/-- Members are read back, whatever follows the object. -/
theorem readMembers_write
    (members : List (String × Scalar)) (nonempty : members ≠ [])
    (bound : Nat) (enough : members.length ≤ bound) (rest : List Char) :
    readMembers bound (writeMembers members ++ '}' :: rest) =
      some (members, rest) := by
  induction members generalizing bound with
  | nil => exact absurd rfl nonempty
  | cons member members inductionHypothesis =>
      rw [List.length_cons] at enough
      obtain ⟨smaller, rfl⟩ : ∃ smaller, bound = smaller + 1 :=
        Nat.exists_eq_add_of_le' (by omega)
      cases members with
      | nil =>
          have delimited : Delimited ('}' :: rest) := by
            rintro _ ⟨⟩
            decide
          simp only [writeMembers, readMembers,
            readMember_write member delimited]
      | cons next members =>
          have delimited : Delimited
              (',' :: (writeMembers (next :: members) ++ '}' :: rest)) := by
            rintro _ ⟨⟩
            decide
          have others := inductionHypothesis (by simp) smaller (by omega)
          simp only [writeMembers, List.append_assoc, List.cons_append,
            readMembers, readMember_write member delimited, others,
            Option.map_some]

theorem writeMembers_length (members : List (String × Scalar)) :
    members.length ≤ (writeMembers members).length := by
  fun_induction writeMembers members with
  | case1 => exact Nat.le_refl _
  | case2 member => simp [writeMember, quote]
  | case3 member rest _ inductionHypothesis =>
      rw [List.length_append, List.length_cons, List.length_cons]
      omega

/-- What was written is read. -/
theorem readObject_write (members : List (String × Scalar)) :
    readObject (writeObject members) = some members := by
  cases members with
  | nil => rfl
  | cons member members =>
      have shorter := writeMembers_length (member :: members)
      rw [List.length_cons] at shorter
      have read := readMembers_write (member :: members) (by simp)
        (writeMembers (member :: members) ++ ['}']).length
        (by
          rw [List.length_append, List.length_cons]
          omega) []
      rw [writeObject, readObject]
      · simp only [read]
      · intro empty
        have lengths := congrArg List.length empty
        rw [List.length_append, List.length_singleton] at lengths
        omega

end FlatJson
