import Marmotte.Web.Url
import Marmotte.Yocto

/-!
# The addresses of pushed files

The URL that `marmotte push` builds for a file, what the router of the server
reads from it, and what the command decides from the answer.
-/

namespace Marmotte

/-- The bytes of a text. -/
def utf8 (text : String) : List UInt8 := text.toUTF8.data.toList

theorem utf8_append (first second : String) :
    utf8 (first ++ second) = utf8 first ++ utf8 second := by
  simp [utf8]

theorem utf8_inj {first second : String} :
    utf8 first = utf8 second ↔ first = second := by
  rw [← String.toByteArray_inj, ByteArray.ext_iff]
  simp [utf8]

theorem fromUTF8_eq_some {bytes : List UInt8} {text : String} :
    String.fromUTF8? ⟨bytes.toArray⟩ = some text ↔ bytes = utf8 text := by
  unfold String.fromUTF8?
  constructor
  · intro read
    split at read
    · cases read
      simp [utf8, String.fromUTF8]
    · cases read
  · rintro rfl
    have whole : (⟨(utf8 text).toArray⟩ : ByteArray) = text.toByteArray := by
      rw [ByteArray.ext_iff]
      simp [utf8]
    rw [whole, dif_pos text.isValidUTF8]
    rfl

/-- The text that a captured segment decodes to. -/
def decodedText (captured : List UInt8) : Option String :=
  String.fromUTF8? ⟨(Percent.decode captured).toArray⟩

theorem decodedText_eq_some
    {captured : List UInt8} {text : String} :
    decodedText captured = some text ↔
      Percent.decode captured = utf8 text :=
  fromUTF8_eq_some

/-- The entry a request is about. -/
structure Address where
  kind : Kind
  project : String
  path : String
  deriving DecidableEq, Repr

namespace Address

/-- The route that matches, with what it captures.  Whether a parameter may
capture an empty segment is up to the router. -/
def capture
    (capturesEmpty : Bool) :
    List (List UInt8) → Option (Kind × List UInt8 × List UInt8)
  | first :: project :: rest =>
      if project = [] ∧ capturesEmpty = false then none
      else if first = utf8 "sstate" then
        if Url.serialize rest = [] then none
        else some (.sstate, project, Url.serialize rest)
      else if first = utf8 "downloads" then
        match rest with
        | [filename] =>
            if filename = [] then none
            else some (.downloads, project, filename)
        | _ => none
      else none
  | _ => none

/-- The routes of `router`, whose captures `Path` decodes. -/
def route
    (capturesEmpty : Bool) (path : List (List UInt8)) : Option Address := do
  let (kind, project, rest) ← capture capturesEmpty path
  return ⟨kind, ← decodedText project, ← decodedText rest⟩

theorem sstate_ne_downloads : utf8 "downloads" ≠ utf8 "sstate" := by
  decide +kernel

theorem capture_eq_some
    {capturesEmpty : Bool} {path : List (List UInt8)} {kind : Kind}
    {project captured : List UInt8} :
    capture capturesEmpty path = some (kind, project, captured) ↔
      ∃ rest, path = utf8 kind.asStr :: project :: rest ∧
        (project ≠ [] ∨ capturesEmpty = true) ∧
          captured = Url.serialize rest ∧ captured ≠ [] ∧
            (kind = .downloads → ∃ filename, rest = [filename]) := by
  constructor
  · intro matched
    unfold capture at matched
    split at matched
    · rename_i first segment rest
      split at matched
      · cases matched
      · rename_i named
        have allowed : segment ≠ [] ∨ capturesEmpty = true := by
          rw [not_and_or, Bool.not_eq_false] at named
          exact named
        split at matched
        · rename_i isSstate
          split at matched
          · cases matched
          · rename_i written
            cases matched
            exact ⟨rest, by rw [isSstate]; rfl, allowed, rfl, written, by simp⟩
        · split at matched
          · rename_i isDownloads
            split at matched
            · split at matched
              · cases matched
              · rename_i written
                cases matched
                refine ⟨[captured], by rw [isDownloads]; rfl, allowed, ?_,
                  written, fun _ => ⟨captured, rfl⟩⟩
                simp [Url.serialize]
            · cases matched
          · cases matched
    · cases matched
  · rintro ⟨rest, rfl, allowed, rfl, written, single⟩
    have named : ¬(project = [] ∧ capturesEmpty = false) := by
      rw [not_and_or, Bool.not_eq_false]
      exact allowed
    cases kind with
    | sstate =>
        simp only [capture, Kind.asStr, if_neg named, if_true, if_neg written]
    | downloads =>
        obtain ⟨filename, rfl⟩ := single rfl
        have some : filename ≠ [] := by simpa [Url.serialize] using written
        simp only [capture, Kind.asStr, if_neg named,
          if_neg sstate_ne_downloads, if_true, if_neg some]
        simp [Url.serialize]

theorem route_eq_some
    {capturesEmpty : Bool} {path : List (List UInt8)} {address : Address} :
    route capturesEmpty path = some address ↔
      ∃ project captured,
        capture capturesEmpty path = some (address.kind, project, captured) ∧
          Percent.decode project = utf8 address.project ∧
            Percent.decode captured = utf8 address.path := by
  obtain ⟨kind, name, text⟩ := address
  simp only [route, Option.bind_eq_bind, Option.bind_eq_some_iff,
    Option.pure_def, Option.some.injEq, Address.mk.injEq, Prod.exists]
  constructor
  · rintro ⟨_, project, captured, matched, _, projectText, _, pathText,
      rfl, rfl, rfl⟩
    exact ⟨project, captured, matched, decodedText_eq_some.mp projectText,
      decodedText_eq_some.mp pathText⟩
  · rintro ⟨project, captured, matched, projectText, pathText⟩
    exact ⟨kind, project, captured, matched, name,
      decodedText_eq_some.mpr projectText, text,
      decodedText_eq_some.mpr pathText, rfl, rfl, rfl⟩

end Address

namespace Push

/-! ## The answer of the server -/

/-- What `push_one` does after its `HEAD`. -/
inductive HeadCheck
  | skipped
  | upload
  | failed
  deriving DecidableEq, Repr

/-- The decision of `push_one` on the response to its `HEAD`, for a file with
this entity tag. -/
def checkHead (etag : String) (response : Response) : HeadCheck :=
  if response.status = 304 then .skipped
  else if response.status = 200 ∧ response.header "etag" = some etag then
    .skipped
  else if response.status = 404 then .upload
  else if 200 ≤ response.status ∧ response.status < 300 then .upload
  else .failed

/-! ## The path of a file -/

/-- A name that a directory can hold. -/
structure FileName where
  name : String
  written : name ≠ ""
  notSingle : name ≠ "."
  notDouble : name ≠ ".."
  noSlash : Url.slash ∉ utf8 name
  noNul : 0 ∉ utf8 name

/-- What `read_dir` yields, with the listings of the directories in it. -/
inductive Directory
  | empty
  | file (name : FileName) (others : Directory)
  | directory (name : FileName) (inside others : Directory)
  | special (name : FileName) (others : Directory)

/-- The regular files below a directory, by their path from the root. -/
def walk (here : List FileName) : Directory → List (List FileName)
  | .empty => []
  | .file name others => (here ++ [name]) :: walk here others
  | .directory name inside others =>
      walk (here ++ [name]) inside ++ walk here others
  | .special _ others => walk here others

/-- The relative path as text. -/
def relative : List FileName → String
  | [] => ""
  | [last] => last.name
  | first :: next :: rest => first.name ++ "/" ++ relative (next :: rest)

/-- The path of the URL that `run` builds for a file. -/
def url
    (baseUrl : List (List UInt8)) (kind : Kind) (project : String)
    (file : List FileName) : List (List UInt8) :=
  Url.join baseUrl
    (utf8 (kind.asStr ++ "/" ++ project ++ "/" ++ relative file))

/-- The entry that the server addresses for a pushed file.  It is reached under
the path of the base URL, which ends in a slash. -/
def target
    (capturesEmpty : Bool) (mount : List (List UInt8)) (kind : Kind)
    (project : String) (file : List FileName) : Option Address :=
  (url (mount ++ [[]]) kind project file).dropPrefix? mount |>.bind
    (Address.route capturesEmpty)

theorem ne_nil_of_mem_walk
    {here file : List FileName} {root : Directory}
    (walked : file ∈ walk here root) : file ≠ [] := by
  induction root generalizing here with
  | empty => cases walked
  | file name others inductionHypothesis =>
      rcases List.mem_cons.mp walked with rfl | later
      · simp
      · exact inductionHypothesis later
  | directory name inside others insideHypothesis othersHypothesis =>
      rcases List.mem_append.mp walked with inner | later
      · exact insideHypothesis inner
      · exact othersHypothesis later
  | special name others inductionHypothesis =>
      exact inductionHypothesis walked

/-- The bytes of the names of a path. -/
def names (file : List FileName) : List (List UInt8) :=
  file.map fun name => utf8 name.name

theorem utf8_relative (file : List FileName) :
    utf8 (relative file) = Url.serialize (names file) := by
  induction file with
  | nil => rfl
  | cons first rest inductionHypothesis =>
      cases rest with
      | nil => simp [relative, names, Url.serialize]
      | cons next rest =>
          rw [relative, utf8_append, utf8_append, inductionHypothesis]
          simp only [names, List.map_cons, Url.serialize_cons_cons]
          rw [List.append_assoc]
          rfl

/-- Nothing in the two texts has a meaning in a URL, and the kind has a place
for the path. -/
structure Fits
    (capturesEmpty : Bool) (kind : Kind) (project : String)
    (file : List FileName) : Prop where
  captured : project ≠ "" ∨ capturesEmpty = true
  notDots : project ≠ "." ∧ project ≠ ".."
  oneSegment : Url.slash ∉ utf8 project
  ordinary : ∀ byte ∈ utf8 project ++ utf8 (relative file),
    byte ∉ [9, 10, 13, 35, 63, Url.backslash]
  plain : ¬Percent.LooksEncoded (utf8 project) ∧
    ∀ name ∈ file, ¬Percent.LooksEncoded (utf8 name.name)
  ending : ∀ byte ∈ (utf8 (relative file)).getLast?, 32 < byte
  single : kind = .downloads → file.length = 1

/-- The bytes of the reference that is joined. -/
def reference
    (kind : Kind) (project : String) (file : List FileName) : List UInt8 :=
  utf8 (kind.asStr ++ "/" ++ project ++ "/" ++ relative file)

theorem reference_eq
    (kind : Kind) (project : String) (file : List FileName) :
    reference kind project file =
      utf8 kind.asStr ++ Url.slash ::
        (utf8 project ++ Url.slash :: utf8 (relative file)) := by
  simp only [reference, utf8_append, List.append_assoc]
  rfl

theorem reference_eq_serialize
    {file : List FileName} (some : file ≠ []) (kind : Kind)
    (project : String) :
    reference kind project file =
      Url.serialize (utf8 kind.asStr :: utf8 project :: names file) := by
  cases file with
  | nil => exact absurd rfl some
  | cons first rest =>
      rw [reference_eq, utf8_relative]
      simp only [names, List.map_cons, Url.serialize_cons_cons]

theorem decode_kind (kind : Kind) :
    Percent.decode (utf8 kind.asStr) = utf8 kind.asStr := by
  cases kind <;> decide +kernel

theorem names_ordinary (file : List FileName) :
    ∀ segment ∈ names file, Url.slash ∉ segment := by
  intro segment member
  obtain ⟨name, -, rfl⟩ := List.mem_map.mp member
  exact name.noSlash

/-- The segments of a reference, when it has no more of them than it means to
have. -/
theorem splitOnP_reference
    {kind : Kind} {project : String} {file : List FileName}
    (some : file ≠ []) (oneSegment : Url.slash ∉ utf8 project)
    (noBackslash : Url.backslash ∉ reference kind project file) :
    (reference kind project file).splitOnP Url.isSeparator =
      utf8 kind.asStr :: utf8 project :: names file := by
  have inside : ∀ segment ∈ utf8 kind.asStr :: utf8 project :: names file,
      ∀ byte ∈ segment, byte ∈ reference kind project file := by
    intro segment member byte within
    rw [reference_eq_serialize some]
    exact Url.mem_serialize member within
  have noSlash : ∀ segment ∈ utf8 kind.asStr :: utf8 project :: names file,
      Url.slash ∉ segment := by
    intro segment member
    rcases List.mem_cons.mp member with rfl | member
    · cases kind <;> decide +kernel
    · rcases List.mem_cons.mp member with rfl | member
      · exact oneSegment
      · exact names_ordinary file segment member
  rw [reference_eq_serialize some]
  refine Url.splitOnP_serialize (by simp) ?_
  intro segment member byte within
  have notSlash : byte ≠ Url.slash := by
    rintro rfl
    exact noSlash segment member within
  have notBackslash : byte ≠ Url.backslash := by
    rintro rfl
    exact noBackslash (inside segment member _ within)
  simp [Url.isSeparator, notSlash, notBackslash]

theorem utf8_eq_nil {text : String} : utf8 text = [] ↔ text = "" := by
  rw [← utf8_inj]
  rfl

theorem relative_ne_nil
    {file : List FileName} (some : file ≠ []) : utf8 (relative file) ≠ [] := by
  cases file with
  | nil => exact absurd rfl some
  | cons first rest =>
      obtain ⟨byte, inside⟩ := List.exists_mem_of_ne_nil _
        (mt utf8_eq_nil.mp first.written)
      rw [utf8_relative]
      exact List.ne_nil_of_mem
        (Url.mem_serialize (by simp [names]) inside)

/-- A name is kept when it does not look percent-encoded. -/
theorem kept_name {name : FileName} :
    Url.Kept (utf8 name.name) ↔ ¬Percent.LooksEncoded (utf8 name.name) := by
  have notSingle : utf8 name.name ≠ [46] :=
    mt (@utf8_inj _ ".").mp name.notSingle
  have notDouble : utf8 name.name ≠ [46, 46] :=
    mt (@utf8_inj _ "..").mp name.notDouble
  simp [Url.kept_iff, notSingle, notDouble]

theorem kept_project {project : String} :
    Url.Kept (utf8 project) ↔
      ¬Percent.LooksEncoded (utf8 project) ∧
        project ≠ "." ∧ project ≠ ".." := by
  have single : utf8 project = [46] ↔ project = "." :=
    @utf8_inj _ "."
  have double : utf8 project = [46, 46] ↔ project = ".." :=
    @utf8_inj _ ".."
  rw [Url.kept_iff, ne_eq, ne_eq, single, double]

theorem kept_kind (kind : Kind) : Url.Kept (utf8 kind.asStr) := by
  rw [Url.kept_iff]
  cases kind <;> decide +kernel

/-- What the parser reads of a reference. -/
theorem pathInput_reference
    {file : List FileName} (some : file ≠ []) (kind : Kind)
    (project : String) :
    Url.pathInput (reference kind project file) =
        reference kind project file ↔
      (∀ byte ∈ utf8 project ++ utf8 (relative file),
        Url.isNewline byte = false ∧ Url.endsPath byte = false) ∧
      ∀ byte ∈ (utf8 (relative file)).getLast?,
        Url.isBlank byte = false := by
  have kindPlain : ∀ byte ∈ utf8 kind.asStr ++ [Url.slash],
      Url.isNewline byte = false ∧ Url.endsPath byte = false := by
    cases kind <;> decide +kernel
  have kindHead : ∀ byte ∈ (utf8 kind.asStr).head?,
      Url.isBlank byte = false := by
    cases kind <;> decide +kernel
  have head : (reference kind project file).head? =
      (utf8 kind.asStr).head? := by
    rw [reference_eq]
    cases kind <;> rfl
  have last : (reference kind project file).getLast? =
      (utf8 (relative file)).getLast? := by
    obtain ⟨front, byte, same⟩ :=
      (List.eq_nil_or_concat (utf8 (relative file))).resolve_left
        (relative_ne_nil some)
    have whole : reference kind project file =
        (utf8 kind.asStr ++ Url.slash ::
          (utf8 project ++ Url.slash :: front)) ++ [byte] := by
      rw [reference_eq, same]
      simp
    rw [whole, same, List.getLast?_concat, List.concat_eq_append,
      List.getLast?_concat]
  rw [Url.pathInput_eq_self_iff, head, last]
  constructor
  · rintro ⟨-, ending, inside⟩
    refine ⟨fun byte member => inside byte ?_, ending⟩
    rw [reference_eq]
    rcases List.mem_append.mp member with member | member <;> simp [member]
  · rintro ⟨inside, ending⟩
    refine ⟨kindHead, ending, fun byte member => ?_⟩
    rw [reference_eq] at member
    simp only [List.mem_append, List.mem_cons] at member
    rcases member with member | rfl | member | rfl | member
    · exact kindPlain byte (by simp [member])
    · decide
    · exact inside byte (by simp [member])
    · decide
    · exact inside byte (by simp [member])

/-- The condition says that nothing in the reference is touched and that its
segments are the ones it means to have. -/
theorem ordinary_iff {byte : UInt8} :
    byte ∉ [9, 10, 13, 35, 63, Url.backslash] ↔
      (Url.isNewline byte = false ∧ Url.endsPath byte = false) ∧
        byte ≠ Url.backslash := by
  simp only [List.mem_cons, List.not_mem_nil, or_false, not_or,
    Url.isNewline, Url.endsPath, Bool.or_eq_false_iff, beq_eq_false_iff_ne]
  tauto

theorem blank_iff {byte : UInt8} :
    Url.isBlank byte = false ↔ 32 < byte := by
  simp [Url.isBlank]

/-- The entry a file is meant for. -/
def intended
    (kind : Kind) (project : String) (file : List FileName) : Address :=
  ⟨kind, project, relative file⟩

/-- What is left of the URL's path after what the base has in front. -/
theorem target_eq_some
    {capturesEmpty : Bool} {mount : List (List UInt8)} {kind : Kind}
    {project : String} {file : List FileName} {address : Address} :
    target capturesEmpty mount kind project file = some address ↔
      ∃ tail, Url.join (mount ++ [[]]) (reference kind project file) =
          mount ++ tail ∧
        Address.route capturesEmpty tail = some address := by
  simp only [target, Option.bind_eq_some_iff, List.dropPrefix?_eq_some_iff,
    beq_iff_eq]
  constructor
  · rintro ⟨tail, ⟨_, joined, rfl⟩, routed⟩
    exact ⟨tail, joined, routed⟩
  · rintro ⟨tail, joined, routed⟩
    exact ⟨tail, ⟨mount, joined, rfl⟩, routed⟩

theorem untouched_of_fits
    {capturesEmpty : Bool} {kind : Kind} {project : String}
    {file : List FileName} (some : file ≠ [])
    (fits : Fits capturesEmpty kind project file) :
    Url.Untouched (reference kind project file) ∧
      (reference kind project file).splitOnP Url.isSeparator =
        utf8 kind.asStr :: utf8 project :: names file := by
  have noBackslash : Url.backslash ∉ reference kind project file := by
    intro member
    rw [reference_eq] at member
    simp only [List.mem_append, List.mem_cons] at member
    rcases member with member | member | member | member | member
    · revert member
      cases kind <;> decide +kernel
    · cases member
    · exact (ordinary_iff.mp (fits.ordinary _ (by simp [member]))).2 rfl
    · cases member
    · exact (ordinary_iff.mp (fits.ordinary _ (by simp [member]))).2 rfl
  have pieces := splitOnP_reference some fits.oneSegment noBackslash
  refine ⟨⟨?_, ?_⟩, pieces⟩
  · rw [pathInput_reference some]
    exact ⟨fun byte member => (ordinary_iff.mp (fits.ordinary byte member)).1,
      fun byte last => blank_iff.mpr (fits.ending byte last)⟩
  · rw [pieces]
    intro segment member
    rcases List.mem_cons.mp member with rfl | member
    · exact kept_kind kind
    · rcases List.mem_cons.mp member with rfl | member
      · exact kept_project.mpr ⟨fits.plain.1, fits.notDots⟩
      · obtain ⟨name, inside, rfl⟩ := List.mem_map.mp member
        exact kept_name.mpr (fits.plain.2 name inside)

theorem reaches_of_fits
    {capturesEmpty : Bool} {kind : Kind} {project : String}
    {file : List FileName} (some : file ≠ [])
    (fits : Fits capturesEmpty kind project file)
    (mount : List (List UInt8)) :
    target capturesEmpty mount kind project file =
      .some (intended kind project file) := by
  obtain ⟨untouched, pieces⟩ := untouched_of_fits some fits
  have plainNames : ∀ segment ∈ names file, Url.Kept segment := by
    intro segment member
    exact untouched.kept segment (by rw [pieces]; simp [member])
  have joined := Url.join_untouched untouched mount
  rw [pieces, List.map_cons, List.map_cons] at joined
  have kindSame : Percent.encode Url.pathSet (utf8 kind.asStr) =
      utf8 kind.asStr := by
    cases kind <;> decide +kernel
  have projectText :
      Percent.decode (Percent.encode Url.pathSet (utf8 project)) =
        utf8 project := by
    rw [Url.decode_encode, Percent.decode_eq_self fits.plain.1]
  have pathText : Percent.decode (Url.serialize
      ((names file).map (Percent.encode Url.pathSet))) =
        utf8 (relative file) := by
    rw [Url.decode_serialize_kept plainNames, utf8_relative]
  rw [kindSame] at joined
  refine target_eq_some.mpr ⟨_, joined, Address.route_eq_some.mpr
    ⟨_, _, Address.capture_eq_some.mpr ⟨_, rfl, ?_, rfl, ?_, ?_⟩,
      projectText, pathText⟩⟩
  · rcases fits.captured with written | allowed
    · left
      intro empty
      rw [empty] at projectText
      exact written (utf8_eq_nil.mp projectText.symm)
    · exact .inr allowed
  · intro empty
    rw [empty] at pathText
    exact relative_ne_nil some pathText.symm
  · intro isDownloads
    obtain ⟨name, rfl⟩ := List.length_eq_one_iff.mp (fits.single isDownloads)
    exact ⟨_, rfl⟩

theorem fits_of_reaches
    {capturesEmpty : Bool} {mount : List (List UInt8)} {kind : Kind}
    {project : String} {file : List FileName} (some : file ≠ [])
    (reaches : target capturesEmpty mount kind project file =
      .some (intended kind project file)) :
    Fits capturesEmpty kind project file := by
  obtain ⟨tail, joined, routed⟩ := target_eq_some.mp reaches
  obtain ⟨segment, captured, matched, projectText, pathText⟩ :=
    Address.route_eq_some.mp routed
  obtain ⟨rest, rfl, allowed, rfl, written, single⟩ :=
    Address.capture_eq_some.mp matched
  have restSome : rest ≠ [] := by
    rintro rfl
    exact written rfl
  have decodes : Percent.decode (Url.serialize
      (utf8 kind.asStr :: segment :: rest)) = reference kind project file := by
    cases rest with
    | nil => exact absurd rfl restSome
    | cons next rest =>
        rw [Url.serialize_cons_cons, Url.serialize_cons_cons,
          Percent.decode_append_cons (by decide) (by decide),
          Percent.decode_append_cons (by decide) (by decide),
          decode_kind, projectText, pathText, reference_eq]
        rfl
  obtain ⟨untouched, noBackslash⟩ :=
    (Url.join_decodes_iff joined).mp decodes
  rw [Url.join_untouched untouched, List.append_cancel_left_eq] at joined
  have oneSegment : Url.slash ∉ utf8 project := by
    cases pieces : (reference kind project file).splitOnP
        Url.isSeparator with
    | nil => exact absurd pieces (List.splitOnP_ne_nil _ _)
    | cons first others =>
        cases others with
        | nil =>
            rw [pieces] at joined
            simp at joined
        | cons second others =>
            have member : second ∈ (reference kind project file).splitOnP
                Url.isSeparator := by simp [pieces]
            have same : Percent.encode Url.pathSet second = segment := by
              rw [pieces] at joined
              simp only [List.map_cons, List.cons.injEq] at joined
              exact joined.2.1
            rw [← same, Url.decode_encode, Percent.decode_eq_self
              (untouched.kept second member).plain] at projectText
            rw [← show second = utf8 project from projectText]
            intro inside
            exact absurd (Url.noSeparator_of_mem_splitOnP member _ inside)
              (by decide)
  have pieces := splitOnP_reference some oneSegment noBackslash
  rw [pieces] at joined
  simp only [List.map_cons, List.cons.injEq] at joined
  obtain ⟨-, segmentSame, restSame⟩ := joined
  obtain ⟨inside, ending⟩ := (pathInput_reference some kind project).mp
    untouched.read
  have kept := untouched.kept
  rw [pieces] at kept
  have projectKept := kept_project.mp (kept (utf8 project) (by simp))
  refine ⟨?_, projectKept.2, oneSegment, ?_, ⟨projectKept.1, ?_⟩, ?_, ?_⟩
  · refine allowed.imp_left fun segmentSome empty => segmentSome ?_
    subst empty
    rw [← segmentSame]
    rfl
  · intro byte member
    refine ordinary_iff.mpr ⟨inside byte member, ?_⟩
    rintro rfl
    refine noBackslash ?_
    rw [reference_eq]
    rcases List.mem_append.mp member with member | member <;> simp [member]
  · intro name member
    have listed : utf8 name.name ∈ names file :=
      List.mem_map.mpr ⟨name, member, rfl⟩
    exact kept_name.mp (kept (utf8 name.name) (by simp [listed]))
  · exact fun byte last => blank_iff.mp (ending byte last)
  · intro isDownloads
    obtain ⟨filename, rfl⟩ := single isDownloads
    simpa [names] using congrArg List.length restSame

/-! ## Files and entries -/

theorem names_injective
    {file other : List FileName} (same : names file = names other) :
    file = other := by
  refine List.map_injective_iff.mpr ?_ same
  intro name otherName sameBytes
  have sameName := utf8_inj.mp sameBytes
  cases name
  cases otherName
  cases sameName
  rfl

/-- Files whose addresses are the ones meant for them have addresses of their
own. -/
theorem intended_injective
    {capturesEmpty : Bool} {kind : Kind} {project : String}
    {file other : List FileName} (some : file ≠ []) (otherSome : other ≠ [])
    (fits : Fits capturesEmpty kind project file)
    (otherFits : Fits capturesEmpty kind project other)
    (same : intended kind project file = intended kind project other) :
    file = other := by
  have samePath : relative file = relative other :=
    congrArg Address.path same
  have pieces := (untouched_of_fits some fits).2
  have otherPieces := (untouched_of_fits otherSome otherFits).2
  rw [reference, ← samePath, ← reference, pieces] at otherPieces
  simp only [List.cons.injEq, true_and] at otherPieces
  exact names_injective otherPieces

/-- A pushed file reaches the entry that is meant for it exactly when nothing in
its path and in the project's name has a meaning in a URL and the kind has a
place for the path.  Different files that reach theirs never meet. -/
theorem push_addresses
    (capturesEmpty : Bool) (mount : List (List UInt8)) (kind : Kind)
    (project : String) (root : Directory) :
    (∀ file ∈ walk [] root,
      target capturesEmpty mount kind project file =
          some (intended kind project file) ↔
        Fits capturesEmpty kind project file) ∧
    ∀ file ∈ walk [] root, ∀ other ∈ walk [] root,
      Fits capturesEmpty kind project file →
      Fits capturesEmpty kind project other →
      target capturesEmpty mount kind project file =
        target capturesEmpty mount kind project other →
      file = other := by
  constructor
  · intro file walked
    have some := ne_nil_of_mem_walk walked
    exact ⟨fits_of_reaches some,
      fun fits => reaches_of_fits some fits mount⟩
  · intro file walked other otherWalked fits otherFits same
    have some := ne_nil_of_mem_walk walked
    have otherSome := ne_nil_of_mem_walk otherWalked
    rw [reaches_of_fits some fits, reaches_of_fits otherSome otherFits,
      Option.some.injEq] at same
    exact intended_injective some otherSome fits otherFits same

/-! ## Two files in one entry -/

namespace Sample

/-- The names of two different archives. -/
def first : FileName where
  name := "pkg#1"
  written := by decide
  notSingle := by decide
  notDouble := by decide
  noSlash := by decide +kernel
  noNul := by decide +kernel

def second : FileName where
  name := "pkg#2"
  written := by decide
  notSingle := by decide
  notDouble := by decide
  noSlash := by decide +kernel
  noNul := by decide +kernel

def directory : Directory := .file first (.file second .empty)

end Sample

/-- What follows a number sign is cut off: both archives go to one entry, which
is meant for neither. -/
theorem fragment_merges_files :
    [Sample.first] ∈ walk [] Sample.directory ∧
    [Sample.second] ∈ walk [] Sample.directory ∧
    [Sample.first] ≠ [Sample.second] ∧
    (∀ capturesEmpty,
      target capturesEmpty [] .sstate "demo" [Sample.first] =
        target capturesEmpty [] .sstate "demo" [Sample.second]) ∧
    ∀ capturesEmpty,
      target capturesEmpty [] .sstate "demo" [Sample.first] ≠
        some (intended .sstate "demo" [Sample.first]) := by
  refine ⟨by simp [Sample.directory, walk], by simp [Sample.directory, walk],
    fun same => absurd (congrArg relative same) (by decide), ?_, ?_⟩
  · decide +kernel
  · decide +kernel

end Push

end Marmotte
