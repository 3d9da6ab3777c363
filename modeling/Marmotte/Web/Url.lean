import Mathlib.Data.List.DropRight
import Marmotte.Web.Percent

/-!
# Relative references

The path of the URL that a relative reference gives, as the URL standard
computes it for a base with a special scheme.  The reference starts with a path
segment, so the scheme, the authority and the base's path without its last
segment are taken over.  Texts are their UTF-8 bytes: every character that
matters to the parser is one byte.
-/

namespace Url

open Percent (encode decode LooksEncoded)

abbrev slash : UInt8 := 47
abbrev backslash : UInt8 := 92

/-- A control character or a space, stripped at both ends of the input. -/
def isBlank (byte : UInt8) : Bool := byte ≤ 32

/-- A tab or a newline, removed wherever it stands. -/
def isNewline (byte : UInt8) : Bool := byte == 9 || byte == 10 || byte == 13

/-- A query or a fragment starts here. -/
def endsPath (byte : UInt8) : Bool := byte == 63 || byte == 35

def isSeparator (byte : UInt8) : Bool := byte == slash || byte == backslash

/-- The path percent-encode set of the `url` crate. -/
def pathSet (byte : UInt8) : Bool :=
  byte ≤ 32 || 127 ≤ byte ||
    [34, 35, 60, 62, 63, 96, 123, 125].contains byte

/-- The spellings of a dot. -/
def dots : List (List UInt8) := [[46], [37, 50, 101], [37, 50, 69]]

def isSingleDot (segment : List UInt8) : Bool := dots.contains segment

def isDoubleDot (segment : List UInt8) : Bool :=
  (dots.flatMap fun first => dots.map (first ++ ·)).contains segment

/-- The part of the input that is read as a path. -/
def pathInput (input : List UInt8) : List UInt8 :=
  (((input.dropWhile isBlank).rdropWhile isBlank).filter
    fun byte => !isNewline byte).takeWhile fun byte => !endsPath byte

/-- What the path state does at the end of a segment. -/
def endSegment
    (path : List (List UInt8)) (segment : List UInt8) (isLast : Bool) :
    List (List UInt8) :=
  if isDoubleDot segment then
    path.dropLast ++ if isLast then [[]] else []
  else if isSingleDot segment then
    path ++ if isLast then [[]] else []
  else path ++ [encode pathSet segment]

/-- The path state, from the path that is already there. -/
def pathState (path : List (List UInt8)) :
    List (List UInt8) → List (List UInt8)
  | [] => path
  | segment :: rest => pathState (endSegment path segment rest.isEmpty) rest

/-- The path of a reference joined to a base with this path. -/
def join (base : List (List UInt8)) (input : List UInt8) :
    List (List UInt8) :=
  pathState base.dropLast ((pathInput input).splitOnP isSeparator)

/-- A path as it stands in a request, without its first slash. -/
def serialize (path : List (List UInt8)) : List UInt8 :=
  [slash].intercalate path

/-! ## What a reference can lengthen -/

/-- The segment is neither decoded nor resolved. -/
structure Kept (segment : List UInt8) : Prop where
  plain : ¬LooksEncoded segment
  notSingle : isSingleDot segment = false
  notDouble : isDoubleDot segment = false

theorem dots_spelled :
    ∀ segment ∈ dots ++ dots.flatMap fun first => dots.map (first ++ ·),
      segment = [46] ∨ segment = [46, 46] ∨ LooksEncoded segment := by
  decide

/-- Apart from what looks encoded, the dots are spelled in one way. -/
theorem kept_iff {segment : List UInt8} :
    Kept segment ↔
      ¬LooksEncoded segment ∧ segment ≠ [46] ∧ segment ≠ [46, 46] := by
  constructor
  · intro kept
    refine ⟨kept.plain, ?_, ?_⟩
    · rintro rfl
      exact absurd kept.notSingle (by decide)
    · rintro rfl
      exact absurd kept.notDouble (by decide)
  · rintro ⟨plain, notSingle, notDouble⟩
    have spelled : segment ∉ dots ++
        dots.flatMap fun first => dots.map (first ++ ·) := by
      intro member
      rcases dots_spelled segment member with same | same | encoded
      · exact notSingle same
      · exact notDouble same
      · exact plain encoded
    rw [List.mem_append, not_or] at spelled
    exact ⟨plain, by simpa [isSingleDot] using spelled.1,
      by simpa [isDoubleDot] using spelled.2⟩

/-- The decoded length of a path. -/
def weight (path : List (List UInt8)) : Nat :=
  (path.map fun segment => (decode segment).length + 1).sum

/-- The length of the segments and of what separates them. -/
def size (segments : List (List UInt8)) : Nat :=
  (segments.map fun segment => segment.length + 1).sum

@[simp] theorem weight_append (path more : List (List UInt8)) :
    weight (path ++ more) = weight path + weight more := by
  simp [weight]

@[simp] theorem weight_singleton (segment : List UInt8) :
    weight [segment] = (decode segment).length + 1 := by
  simp [weight]

@[simp] theorem size_cons (segment : List UInt8) (rest : List (List UInt8)) :
    size (segment :: rest) = segment.length + 1 + size rest := by
  simp [size]

theorem weight_dropLast_le (path : List (List UInt8)) :
    weight path.dropLast ≤ weight path := by
  rcases List.eq_nil_or_concat path with rfl | ⟨front, last, rfl⟩
  · exact Nat.le_refl 0
  · rw [List.concat_eq_append, List.dropLast_concat, weight_append]
    exact Nat.le_add_right _ _

theorem pathSet_hex_all :
    ∀ code ∈ List.range 256, Percent.IsHex (UInt8.ofNat code) →
      pathSet (UInt8.ofNat code) = false := by
  decide +kernel

theorem pathSet_keeps
    (byte : UInt8) (keeps : byte = Percent.sign ∨ Percent.IsHex byte) :
    pathSet byte = false := by
  rcases keeps with rfl | isHex
  · decide
  · have known := pathSet_hex_all byte.toNat
      (List.mem_range.mpr byte.toNat_lt)
    rw [UInt8.ofNat_toNat] at known
    exact known isHex

theorem decode_encode (segment : List UInt8) :
    decode (encode pathSet segment) = decode segment :=
  Percent.decode_encode pathSet_keeps segment

theorem weight_map_encode_le (segments : List (List UInt8)) :
    weight (segments.map (encode pathSet)) ≤ size segments := by
  induction segments with
  | nil => exact Nat.le_refl 0
  | cons segment rest inductionHypothesis =>
      have longest := Percent.decode_length_le segment
      rw [List.map_cons, ← List.singleton_append, weight_append, size_cons,
        weight_singleton, decode_encode]
      omega

/-- A segment adds at most its length, and that much only when it is kept. -/
theorem weight_endSegment
    (path : List (List UInt8)) (segment : List UInt8) (isLast : Bool) :
    weight (endSegment path segment isLast) <
        weight path + (segment.length + 1) ∨
      (Kept segment ∧
        endSegment path segment isLast = path ++ [encode pathSet segment]) := by
  have shorter := weight_dropLast_le path
  have added : weight (if isLast then [[]] else []) ≤ 1 := by
    cases isLast <;> decide
  unfold endSegment
  cases isDouble : isDoubleDot segment with
  | true =>
      have written : 0 < segment.length := by
        refine List.length_pos_iff.mpr ?_
        rintro rfl
        cases isDouble
      left
      simp only [if_true, weight_append]
      omega
  | false =>
      cases isSingle : isSingleDot segment with
      | true =>
          have written : 0 < segment.length := by
            refine List.length_pos_iff.mpr ?_
            rintro rfl
            cases isSingle
          left
          simp only [if_true, weight_append, Bool.false_eq_true, if_false]
          omega
      | false =>
          simp only [Bool.false_eq_true, if_false, weight_append,
            weight_singleton, decode_encode]
          by_cases encoded : LooksEncoded segment
          · have decoded := Percent.decode_length_lt encoded
            left
            omega
          · exact .inr ⟨⟨encoded, isSingle, isDouble⟩, trivial⟩

/-- Segments add at most their lengths, and that much only when all of them are
kept. -/
theorem weight_pathState (path segments : List (List UInt8)) :
    weight (pathState path segments) < weight path + size segments ∨
      ((∀ segment ∈ segments, Kept segment) ∧
        pathState path segments = path ++ segments.map (encode pathSet)) := by
  induction segments generalizing path with
  | nil => exact .inr ⟨by simp, by simp [pathState]⟩
  | cons segment rest inductionHypothesis =>
      have first := weight_endSegment path segment rest.isEmpty
      rw [pathState, size_cons]
      rcases inductionHypothesis (endSegment path segment rest.isEmpty) with
        shorter | ⟨kept, same⟩
      · left
        rcases first with firstShorter | ⟨-, firstSame⟩
        · omega
        · have longest := Percent.decode_length_le segment
          rw [firstSame] at shorter
          rw [firstSame]
          simp only [weight_append, weight_singleton, decode_encode] at shorter
          omega
      · rw [same]
        rcases first with firstShorter | ⟨firstKept, firstSame⟩
        · left
          have longest := weight_map_encode_le rest
          rw [weight_append]
          omega
        · right
          rw [firstSame]
          refine ⟨?_, by simp⟩
          rintro other (_ | ⟨_, later⟩)
          · exact firstKept
          · exact kept other later

/-! ## What is read of the input -/

/-- A stage that shortens nothing in the end shortens nothing. -/
theorem stage_eq_self
    {read stage input : List UInt8} (shortens : stage.Sublist input)
    (readsStage : read.Sublist stage) (same : read = input) :
    stage = input :=
  shortens.eq_of_length_le (same ▸ readsStage.length_le)

/-- The whole input is read when neither its ends nor the bytes in it are
special. -/
theorem pathInput_eq_self_iff {input : List UInt8} :
    pathInput input = input ↔
      (∀ byte ∈ input.head?, isBlank byte = false) ∧
        (∀ byte ∈ input.getLast?, isBlank byte = false) ∧
          ∀ byte ∈ input, isNewline byte = false ∧ endsPath byte = false := by
  unfold pathInput
  have dropped : (input.dropWhile isBlank).Sublist input :=
    List.dropWhile_sublist _
  have trimmed :=
    (List.rdropWhile_prefix isBlank (input.dropWhile isBlank)).sublist
  have filtered : (((input.dropWhile isBlank).rdropWhile isBlank).filter
      fun byte => !isNewline byte).Sublist
        ((input.dropWhile isBlank).rdropWhile isBlank) :=
    List.filter_sublist
  have taken := @List.takeWhile_sublist _
    (((input.dropWhile isBlank).rdropWhile isBlank).filter
      fun byte => !isNewline byte) fun byte => !endsPath byte
  constructor
  · intro same
    have firstStage := stage_eq_self dropped
      (taken.trans (filtered.trans trimmed)) same
    rw [firstStage] at trimmed filtered taken same
    have secondStage := stage_eq_self trimmed (taken.trans filtered) same
    rw [secondStage] at filtered taken same
    have thirdStage := stage_eq_self filtered taken same
    rw [thirdStage] at same
    rw [List.dropWhile_eq_self_iff] at firstStage
    rw [List.rdropWhile_eq_self_iff] at secondStage
    rw [List.filter_eq_self] at thirdStage
    rw [List.takeWhile_eq_self_iff] at same
    refine ⟨?_, ?_, fun byte member =>
      ⟨by simpa using thirdStage byte member, by simpa using same byte member⟩⟩
    · intro byte head
      obtain ⟨rest, rfl⟩ := List.head?_eq_some_iff.mp head
      exact Bool.eq_false_of_not_eq_true (firstStage (by simp))
    · intro byte last
      obtain ⟨front, rfl⟩ := List.getLast?_eq_some_iff.mp last
      simpa using secondStage (by simp)
  · rintro ⟨head, last, inside⟩
    have firstStage : input.dropWhile isBlank = input := by
      rw [List.dropWhile_eq_self_iff]
      intro some
      cases input with
      | nil => cases some
      | cons byte rest => simpa using head byte rfl
    have secondStage : input.rdropWhile isBlank = input := by
      rw [List.rdropWhile_eq_self_iff]
      intro some
      simpa using last _ (List.getLast?_eq_some_getLast some)
    have thirdStage : input.filter (fun byte => !isNewline byte) = input := by
      rw [List.filter_eq_self]
      intro byte member
      simp [(inside byte member).1]
    rw [firstStage, secondStage, thirdStage, List.takeWhile_eq_self_iff]
    intro byte member
    simp [(inside byte member).2]

theorem pathInput_sublist (input : List UInt8) :
    (pathInput input).Sublist input :=
  (List.takeWhile_sublist _).trans
    (List.filter_sublist.trans
      ((List.rdropWhile_prefix _ _).sublist.trans
        (List.dropWhile_sublist _)))

/-- The reference is read to its end and all its segments are kept. -/
structure Untouched (input : List UInt8) : Prop where
  read : pathInput input = input
  kept : ∀ segment ∈ input.splitOnP isSeparator, Kept segment

theorem size_splitOnP (input : List UInt8) :
    size (input.splitOnP isSeparator) = input.length + 1 := by
  induction input with
  | nil => rfl
  | cons byte rest inductionHypothesis =>
      rw [List.splitOnP_cons_eq_if_modifyHead]
      split
      · rw [size_cons, inductionHypothesis]
        simp only [List.length_nil, List.length_cons]
        omega
      · cases pieces : rest.splitOnP isSeparator with
        | nil => exact absurd pieces (List.splitOnP_ne_nil _ _)
        | cons first others =>
            rw [pieces, size_cons] at inductionHypothesis
            simp only [List.modifyHead_cons, size_cons, List.length_cons]
            omega

theorem serialize_cons_cons
    (segment next : List UInt8) (rest : List (List UInt8)) :
    serialize (segment :: next :: rest) =
      segment ++ slash :: serialize (next :: rest) := by
  simp [serialize, List.intercalate]

theorem mem_serialize
    {path : List (List UInt8)} {segment : List UInt8} {byte : UInt8}
    (member : segment ∈ path) (within : byte ∈ segment) :
    byte ∈ serialize path := by
  induction path with
  | nil => cases member
  | cons first rest inductionHypothesis =>
      cases rest with
      | nil =>
          rw [List.mem_singleton] at member
          subst member
          simpa [serialize] using within
      | cons next rest =>
          rw [serialize_cons_cons, List.mem_append, List.mem_cons]
          rcases List.mem_cons.mp member with rfl | later
          · exact .inl within
          · exact .inr (.inr (inductionHypothesis later))

/-- Splitting and joining turns backslashes into slashes. -/
theorem serialize_splitOnP (input : List UInt8) :
    serialize (input.splitOnP isSeparator) =
      input.map fun byte => if isSeparator byte then slash else byte := by
  induction input with
  | nil => rfl
  | cons byte rest inductionHypothesis =>
      rw [List.splitOnP_cons_eq_if_modifyHead, List.map_cons,
        ← inductionHypothesis]
      cases pieces : rest.splitOnP isSeparator with
      | nil => exact absurd pieces (List.splitOnP_ne_nil _ _)
      | cons first others =>
          split
          · rw [serialize_cons_cons, List.nil_append]
          · cases others with
            | nil => simp [serialize]
            | cons second others =>
                rw [List.modifyHead_cons, serialize_cons_cons,
                  serialize_cons_cons, List.cons_append]

theorem splitOnP_serialize
    {segments : List (List UInt8)} (some : segments ≠ [])
    (whole : ∀ segment ∈ segments, ∀ byte ∈ segment,
      isSeparator byte = false) :
    (serialize segments).splitOnP isSeparator = segments := by
  induction segments with
  | nil => exact absurd rfl some
  | cons segment rest inductionHypothesis =>
      have first := whole segment List.mem_cons_self
      cases rest with
      | nil =>
          simp only [serialize, List.intercalate_singleton]
          exact List.splitOnP_eq_singleton first
      | cons next rest =>
          rw [serialize_cons_cons,
            List.splitOnP_append_cons_of_forall_mem first _ rfl,
            inductionHypothesis (by simp)
              fun other member => whole other (List.mem_cons_of_mem _ member)]

theorem noSeparator_of_mem_splitOnP
    {input segment : List UInt8}
    (member : segment ∈ input.splitOnP isSeparator) :
    ∀ byte ∈ segment, isSeparator byte = false := by
  induction input generalizing segment with
  | nil =>
      rw [List.splitOnP_nil, List.mem_singleton] at member
      subst member
      simp
  | cons byte rest inductionHypothesis =>
      rw [List.splitOnP_cons_eq_if_modifyHead] at member
      split at member
      · rcases List.mem_cons.mp member with rfl | later
        · simp
        · exact inductionHypothesis later
      · rename_i ordinary
        cases pieces : rest.splitOnP isSeparator with
        | nil => exact absurd pieces (List.splitOnP_ne_nil _ _)
        | cons first others =>
            rw [pieces] at member inductionHypothesis
            rcases List.mem_cons.mp member with rfl | later
            · intro other inside
              rcases List.mem_cons.mp inside with rfl | inside
              · exact Bool.eq_false_of_not_eq_true ordinary
              · exact inductionHypothesis List.mem_cons_self other inside
            · exact inductionHypothesis (List.mem_cons_of_mem _ later)

theorem decode_serialize (path : List (List UInt8)) :
    decode (serialize path) = serialize (path.map decode) := by
  induction path with
  | nil => rfl
  | cons segment rest inductionHypothesis =>
      cases rest with
      | nil => simp [serialize]
      | cons next rest =>
          rw [serialize_cons_cons,
            Percent.decode_append_cons (by decide) (by decide),
            inductionHypothesis]
          simp only [List.map_cons, serialize_cons_cons]

theorem length_serialize
    {path : List (List UInt8)} (some : path ≠ []) :
    (serialize path).length + 1 = size path := by
  induction path with
  | nil => exact absurd rfl some
  | cons segment rest inductionHypothesis =>
      cases rest with
      | nil => simp [serialize, size]
      | cons next rest =>
          have following := inductionHypothesis (by simp)
          rw [serialize_cons_cons, size_cons, List.length_append,
            List.length_cons]
          omega

theorem weight_eq_size (path : List (List UInt8)) :
    weight path = size (path.map decode) := by
  simp [weight, size, Function.comp_def]

/-! ## References that stand for themselves -/

theorem pathState_kept
    {segments : List (List UInt8)}
    (kept : ∀ segment ∈ segments, Kept segment) (path : List (List UInt8)) :
    pathState path segments = path ++ segments.map (encode pathSet) := by
  induction segments generalizing path with
  | nil => simp [pathState]
  | cons segment rest inductionHypothesis =>
      have first := kept segment List.mem_cons_self
      rw [pathState, inductionHypothesis
        fun other member => kept other (List.mem_cons_of_mem _ member)]
      simp [endSegment, first.notSingle, first.notDouble]

theorem join_untouched
    {input : List UInt8} (untouched : Untouched input)
    (front : List (List UInt8)) :
    join (front ++ [[]]) input =
      front ++ (input.splitOnP isSeparator).map (encode pathSet) := by
  rw [join, List.dropLast_concat, untouched.read,
    pathState_kept untouched.kept]

theorem decode_serialize_kept
    {segments : List (List UInt8)}
    (kept : ∀ segment ∈ segments, Kept segment) :
    decode (serialize (segments.map (encode pathSet))) =
      serialize segments := by
  have same : segments.map (decode ∘ encode pathSet) = segments := by
    rw [List.map_congr_left, List.map_id]
    intro segment member
    rw [Function.comp_apply, decode_encode,
      Percent.decode_eq_self (kept segment member).plain, id_eq]
  rw [decode_serialize, List.map_map, same]

theorem noBackslash_iff {input : List UInt8} :
    (input.map fun byte => if isSeparator byte then slash else byte) = input ↔
      backslash ∉ input := by
  induction input with
  | nil => simp
  | cons byte rest inductionHypothesis =>
      rw [List.map_cons, List.cons.injEq, inductionHypothesis,
        List.mem_cons, not_or]
      refine and_congr_left fun _ => ?_
      by_cases isSlash : byte = slash
      · subst isSlash
        decide
      · by_cases isBackslash : byte = backslash
        · subst isBackslash
          decide
        · simp [isSeparator, isSlash, isBackslash, Ne.symm isBackslash]

/-- What a reference adds to the base decodes to the reference itself exactly
when nothing in it is touched. -/
theorem join_decodes_iff
    {front tail : List (List UInt8)} {input : List UInt8}
    (joined : join (front ++ [[]]) input = front ++ tail) :
    decode (serialize tail) = input ↔
      Untouched input ∧ backslash ∉ input := by
  constructor
  · intro decodes
    have shorter := (pathInput_sublist input).length_le
    have pieces := size_splitOnP (pathInput input)
    rw [join, List.dropLast_concat] at joined
    rcases weight_pathState front ((pathInput input).splitOnP isSeparator) with
      lost | ⟨kept, same⟩
    · rw [joined, weight_append] at lost
      by_cases empty : tail = []
      · subst empty
        subst decodes
        have nothing : (pathInput (decode (serialize []))).splitOnP
            isSeparator = [[]] := rfl
        have added : pathState front [[]] = front ++ [[]] := rfl
        rw [nothing, added, List.append_cancel_left_eq] at joined
        cases joined
      · have known := @length_serialize (tail.map decode) (by simpa)
        rw [← decode_serialize, decodes, ← weight_eq_size] at known
        omega
    · rw [joined, List.append_cancel_left_eq] at same
      rw [same, decode_serialize_kept kept, serialize_splitOnP] at decodes
      have read : pathInput input = input :=
        (pathInput_sublist input).eq_of_length
          (by simpa using congrArg List.length decodes)
      rw [read] at decodes kept
      exact ⟨⟨read, kept⟩, noBackslash_iff.mp decodes⟩
  · rintro ⟨untouched, noBackslash⟩
    rw [join_untouched untouched, List.append_cancel_left_eq] at joined
    rw [← joined, decode_serialize_kept untouched.kept, serialize_splitOnP,
      noBackslash_iff.mpr noBackslash]

end Url
