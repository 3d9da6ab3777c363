import Marmotte.Effects.Endings
import Marmotte.Footprints
import Marmotte.LocalFsStore
import Marmotte.Sample

/-!
# What an upload leaves behind

`write_streamed` removes its temporary file in one place, after it found the
blob in the store.  The set of files is compared before and after a call that
returns, fails at any step or is dropped at any await.
-/

namespace Marmotte

open Effects

namespace Fs

@[simp] theorem has_unlink (fs : Fs) (path other : FilePath) :
    (fs.unlink path).has other = (decide (other ≠ path) && fs.has other) := by
  by_cases same : other = path
  · subst same
    simp [has]
  · simp [has, read_unlink_of_ne fs same, same]

@[simp] theorem has_write
    (fs : Fs) (path other : FilePath) (content : Bytes) :
    (fs.write path content).has other =
      (decide (other = path) || fs.has other) := by
  by_cases same : other = path
  · subst same
    simp [has]
  · simp [has, read_write_of_ne fs content same, same]

end Fs

namespace LocalFsStore

/-! ## The steps of an upload -/

/-- The calls between the creation of the temporary file and its removal or
renaming. -/
def streamCalls (tmp : FilePath) : Call → Prop
  | .fs (.appendFile path _) => path = tmp
  | .fs (.flushFile _) => True
  | .fs (.syncFile _) => True
  | .fs (.createDirAll _) => True
  | .fs (.fileExists _) => True
  | _ => False

/-- The part of `write_streamed` that makes those calls; it ends with the
answer of `dest.exists()`. -/
def stream (env : Env) (tmp : FilePath) (body : Body) :
    App (Written × Bool) := do
  let (hashed, total) ← writeChunks tmp body [] 0
  syscall (.flushFile tmp)
  syscall (.syncFile tmp)
  let hash := env.sha256 hashed
  syscall (.createDirAll (blobPath hash).dropLast)
  let answer ← trySyscall (.fileExists (blobPath hash))
  match answer with
  | .ok true => pure (⟨hash, total⟩, true)
  | _ => pure (⟨hash, total⟩, false)

/-- The last step of `write_streamed`. -/
def settle (tmp : FilePath) (written : Written) (present : Bool) :
    App Written :=
  if present then do
    let _ ← trySyscall (.removeFile tmp)
    pure written
  else do
    syscall (.rename tmp (blobPath written.hash))
    pure written

theorem writeStreamed_eq (env : Env) (body : Body) :
    writeStreamed env body = (do
      let name ← Program.perform Call.newUuid
      syscall (.createFile (tmpPath name))
      let result ← stream env (tmpPath name) body
      settle (tmpPath name) result.1 result.2) := by
  unfold writeStreamed stream
  simp only [Program.bind_assoc]
  congr 1
  funext name
  congr 1
  funext _
  congr 1
  funext result
  congr 1
  funext _
  congr 1
  funext _
  congr 1
  funext _
  congr 1
  funext answer
  match answer with
  | .ok true => rfl
  | .ok false => rfl
  | .error error => rfl

theorem writeChunks_streams
    (tmp : FilePath) (body : Body) (hashed : Bytes) (total : Int) :
    (writeChunks tmp body hashed total).Uses (streamCalls tmp)
      fun _ => True := by
  induction body generalizing hashed total with
  | nil => trivial
  | cons chunk rest inductionHypothesis =>
      cases chunk with
      | error cause => trivial
      | ok chunk =>
          exact Program.uses_perform_then rfl fun _ => inductionHypothesis _ _

theorem stream_streams (env : Env) (tmp : FilePath) (body : Body) :
    (stream env tmp body).Uses (streamCalls tmp) fun _ => True := by
  refine (writeChunks_streams tmp body [] 0).bind fun result _ => ?_
  refine Program.uses_perform_then trivial fun _ => ?_
  refine Program.uses_perform_then trivial fun _ => ?_
  refine Program.uses_perform_then trivial fun _ => ?_
  refine Program.uses_attempt_then trivial fun answer => ?_
  split <;> trivial

/-! ## The set of files -/

/-- The files are those of an earlier state and the temporary one. -/
def Staged (earlier : Fs) (tmp : FilePath) (fs : Fs) : Prop :=
  ∀ path, fs.has path = (decide (path = tmp) || earlier.has path)

section Steps

variable {env : Env} {config : Config} {earlier : Fs} {tmp : FilePath}

/-- Streaming keeps the set of files. -/
theorem staged_step
    {request : Call} {before after : World}
    {reply : Except CoreError request.Reply}
    (permitted : streamCalls tmp request)
    (answered : Faulty env config request before reply after)
    (staged : Staged earlier tmp before.fs) :
    Staged earlier tmp after.fs := by
  cases request with
  | fs call =>
      intro path
      by_cases touched : call.Touches path
      · cases call with
        | appendFile file chunk =>
            obtain rfl : file = tmp := permitted
            obtain rfl : path = file := touched
            have present : before.fs.has path = true := by
              rw [staged path]
              simp
            simp only [decide_true, Bool.true_or]
            have written (part : Bytes) : (FsCall.exec env
                (.appendFile path part) before.fs).2.has path = true := by
              simp only [FsCall.exec]
              cases found : before.fs.read path with
              | none =>
                  simp only [Fs.has, found] at present
                  cases present
              | some content => simp
            rcases Faulty.fs_cases answered with
              ⟨-, rfl⟩ | ⟨error, -, rfl | torn⟩
            · exact written chunk
            · exact present
            · obtain ⟨torn, whole, part, same, rfl⟩ := torn
              cases same
              exact written part
        | _ => first | exact touched.elim | exact permitted.elim
      · rw [Fs.has, (Faulty.fs_frame answered).2 path touched]
        exact staged path
  | _ => exact permitted.elim

/-- Removing the temporary file restores the earlier set of files. -/
theorem has_of_staged_unlink
    {fs : Fs} (fresh : earlier.has tmp = false)
    (staged : Staged earlier tmp fs) (path : FilePath) :
    (fs.unlink tmp).has path = earlier.has path := by
  rw [Fs.has_unlink, staged path]
  by_cases same : path = tmp
  · subst same
    simp [fresh]
  · simp [same]

end Steps

/-! ## What a call did -/

/-- The temporary file was created. -/
def Creates (tmp : FilePath)
    (event : Event Call Call.Reply CoreError World) : Prop :=
  ∃ before after, event = ⟨before, .fs (.createFile tmp), .ok (), after⟩

/-- The temporary file was removed. -/
def Discards (tmp : FilePath)
    (event : Event Call Call.Reply CoreError World) : Prop :=
  ∃ before after, event = ⟨before, .fs (.removeFile tmp), .ok (), after⟩

/-- The temporary file could not be removed. -/
def Keeps (tmp : FilePath)
    (event : Event Call Call.Reply CoreError World) : Prop :=
  ∃ before error after,
    event = ⟨before, .fs (.removeFile tmp), .error error, after⟩

/-- The temporary file was renamed to the path of a file. -/
def Replaces (tmp : FilePath)
    (event : Event Call Call.Reply CoreError World) : Prop :=
  ∃ before dest after, before.fs.has dest = true ∧
    event = ⟨before, .fs (.rename tmp dest), .ok (), after⟩

/-- The call left nothing behind: the files are the same as before, and after a
success there is no temporary file. -/
def LeavesNothing
    (earlier : Fs) (tmp : FilePath) (ending : Ending CoreError Written)
    (final : Fs) : Prop :=
  match ending with
  | .returned _ => final.has tmp = false
  | _ => ∀ path, final.has path = earlier.has path

/-- A successful call did not fail to remove its temporary file; another one
did not create it, or was dropped only when its last system call had removed it
or renamed it to the path of a file. -/
def CleansUp
    (tmp : FilePath) (events : List (Event Call Call.Reply CoreError World))
    (ending : Ending CoreError Written) : Prop :=
  match ending with
  | .returned _ => ¬∃ event ∈ events, Keeps tmp event
  | _ =>
      (¬∃ event ∈ events, Creates tmp event) ∨
        (∃ event ∈ events, Discards tmp event) ∨
          ∃ event ∈ events, Replaces tmp event

/-- The calls before the last step. -/
def beginCalls (tmp : FilePath) (request : Call) : Prop :=
  request = .newUuid ∨ request = .fs (.createFile tmp) ∨
    streamCalls tmp request

section Endings

variable {env : Env} {config : Config} {body : Body} {world final : World}
variable {events begun last : List (Event Call Call.Reply CoreError World)}
variable {tmp : FilePath} {ending : Ending CoreError Written}

/-- What only the last step does is done in the last step. -/
theorem exists_last
    {does : Event Call Call.Reply CoreError World → Prop}
    (outside : ∀ event, does event → ¬beginCalls tmp event.request)
    (early : ∀ event ∈ begun, beginCalls tmp event.request) :
    (∃ event ∈ begun ++ last, does event) ↔ ∃ event ∈ last, does event := by
  constructor
  · rintro ⟨event, made, done⟩
    rcases List.mem_append.mp made with first | late
    · exact absurd (early event first) (outside event done)
    · exact ⟨event, late, done⟩
  · rintro ⟨event, late, done⟩
    exact ⟨event, List.mem_append_right _ late, done⟩

theorem exists_begun
    {does : Event Call Call.Reply CoreError World → Prop}
    (done : ∃ event ∈ begun, does event) :
    ∃ event ∈ begun ++ last, does event := by
  obtain ⟨event, made, does⟩ := done
  exact ⟨event, List.mem_append_left _ made, does⟩

theorem Discards.outside
    {event : Event Call Call.Reply CoreError World}
    (discards : Discards tmp event) : ¬beginCalls tmp event.request := by
  obtain ⟨before, after, rfl⟩ := discards
  simp [beginCalls, streamCalls]

theorem Keeps.outside
    {event : Event Call Call.Reply CoreError World}
    (keeps : Keeps tmp event) : ¬beginCalls tmp event.request := by
  obtain ⟨before, error, after, rfl⟩ := keeps
  simp [beginCalls, streamCalls]

theorem Replaces.outside
    {event : Event Call Call.Reply CoreError World}
    (replaces : Replaces tmp event) : ¬beginCalls tmp event.request := by
  obtain ⟨before, dest, after, -, rfl⟩ := replaces
  simp [beginCalls, streamCalls]

theorem created_step
    {before after : World} {reply : Except CoreError Unit}
    (answered : Faulty env config (.fs (.createFile tmp)) before reply after) :
    (reply = .ok () ∧ Staged before.fs tmp after.fs) ∨
      (∃ error, reply = .error error) ∧ after.fs = before.fs := by
  rcases Faulty.fs_cases answered with
    ⟨rfl, rfl⟩ | ⟨error, rfl, rfl | ⟨_, _, _, same, -⟩⟩
  · exact .inl ⟨rfl, fun path => Fs.has_write _ _ _ _⟩
  · exact .inr ⟨⟨error, rfl⟩, rfl⟩
  · cases same

theorem stream_keeps
    {earlier : Fs} {start : World} {result : Ending CoreError (Written × Bool)}
    (staged : Staged earlier tmp start.fs)
    (ran : Program.Ends (Faulty env config) (stream env tmp body) start events
      result final) :
    Staged earlier tmp final.fs ∧
      ∀ event ∈ events, streamCalls tmp event.request := by
  have kept : ∀ request before reply after, streamCalls tmp request →
      Faulty env config request before reply after →
        Staged earlier tmp before.fs → Staged earlier tmp after.fs :=
    fun _ _ _ _ => staged_step
  obtain ⟨last, made, -⟩ := ran.keeps kept (stream_streams env tmp body) staged
  exact ⟨last, made⟩

/-- Once the temporary file is created, an upload ends while it streams into
the file or in its last step. -/
theorem streamed_cases
    {earlier : Fs} {start : World} (staged : Staged earlier tmp start.fs)
    (ran : Program.Ends (Faulty env config) (do
      let result ← stream env tmp body
      settle tmp result.1 result.2) start events ending final) :
    ∃ streamed last, events = streamed ++ last ∧
      (∀ event ∈ streamed, streamCalls tmp event.request) ∧
      ((last = [] ∧ (∀ written, ending ≠ .returned written) ∧
          Staged earlier tmp final.fs) ∨
        ∃ written present middle, Staged earlier tmp middle.fs ∧
          Program.Ends (Faulty env config) (settle tmp written present) middle
            last ending final) := by
  rcases ran.bind with
    ⟨result, middle, streamed, last, first, goesOn, rfl⟩ |
    ⟨error, rfl, first⟩ | ⟨rfl, first⟩
  · obtain ⟨kept, made⟩ := stream_keeps staged first
    exact ⟨streamed, last, rfl, made, .inr ⟨_, _, middle, kept, goesOn⟩⟩
  · obtain ⟨kept, made⟩ := stream_keeps staged first
    refine ⟨events, [], (List.append_nil _).symm, made, .inl ⟨rfl, ?_, kept⟩⟩
    rintro written ⟨⟩
  · obtain ⟨kept, made⟩ := stream_keeps staged first
    refine ⟨events, [], (List.append_nil _).symm, made, .inl ⟨rfl, ?_, kept⟩⟩
    rintro written ⟨⟩

/-- An upload ends before its temporary file is created, while it streams into
it, or in its last step. -/
theorem writeStreamed_cases
    (named : tmp = tmpPath (env.uuid world.uuids))
    (ran : Program.Ends (Faulty env config) (writeStreamed env body) world
      events ending final) :
    ((¬∃ event ∈ events, Creates tmp event) ∧
      (∀ written, ending ≠ .returned written) ∧ final.fs = world.fs) ∨
    ∃ begun last, events = begun ++ last ∧
      (∀ event ∈ begun, beginCalls tmp event.request) ∧
      (∃ event ∈ begun, Creates tmp event) ∧
      ((last = [] ∧ (∀ written, ending ≠ .returned written) ∧
          Staged world.fs tmp final.fs) ∨
        ∃ written present middle, Staged world.fs tmp middle.fs ∧
          Program.Ends (Faulty env config) (settle tmp written present) middle
            last ending final) := by
  rw [writeStreamed_eq] at ran
  rcases ran.perform_bind with
    ⟨rfl, rfl, rfl⟩ | ⟨error, drawn, -⟩ | ⟨name, drew, _, drawn, rfl, goesOn⟩
  · left
    refine ⟨?_, ?_, rfl⟩
    · rintro ⟨event, made, -⟩
      cases made
    · rintro written ⟨⟩
  · cases drawn with
    | exact drawn => cases drawn
  · have uuid : name = env.uuid world.uuids ∧ drew.fs = world.fs := by
      cases drawn with
      | exact drawn =>
          cases drawn
          exact ⟨rfl, rfl⟩
    rw [uuid.1, ← named] at goesOn
    rcases goesOn.perform_bind with
      ⟨rfl, rfl, rfl⟩ | ⟨error, creation, rfl, ended⟩ |
      ⟨reply, created, _, creation, rfl, streams⟩
    · left
      refine ⟨?_, ?_, uuid.2⟩
      · rintro ⟨event, made, before, after, rfl⟩
        simp at made
      · rintro written ⟨⟩
    · left
      refine ⟨?_, ?_, ?_⟩
      · rintro ⟨event, made, before, after, rfl⟩
        simp at made
      · rintro written rfl
        rcases ended with ended | ended <;> cases ended
      · rcases created_step creation with ⟨impossible, -⟩ | ⟨-, same⟩
        · cases impossible
        · rw [same, uuid.2]
    · right
      have staged : Staged world.fs tmp created.fs := by
        rcases created_step creation with ⟨-, staged⟩ | ⟨⟨_, same⟩, -⟩
        · rwa [uuid.2] at staged
        · cases same
      obtain ⟨streamed, last, rfl, made, ends⟩ := streamed_cases staged streams
      refine ⟨⟨world, .newUuid, .ok name, drew⟩ ::
        ⟨drew, .fs (.createFile tmp), .ok reply, created⟩ :: streamed,
        last, rfl, ?_, ?_, ends⟩
      · intro event among
        rcases List.mem_cons.mp among with rfl | among
        · exact .inl rfl
        · rcases List.mem_cons.mp among with rfl | among
          · exact .inr (.inl rfl)
          · exact .inr (.inr (made event among))
      · exact ⟨_, List.mem_cons_of_mem _ List.mem_cons_self, drew, created,
          rfl⟩

/-- How the last step ends. -/
theorem settle_cases
    {written : Written} {present : Bool} {middle : World}
    (ran : Program.Ends (Faulty env config) (settle tmp written present) middle
      last ending final) :
    (last = [] ∧ ending = .dropped ∧ final.fs = middle.fs) ∨
    (present = true ∧ (ending = .returned written ∨ ending = .dropped) ∧
      ((last = [⟨middle, .fs (.removeFile tmp), .ok (), final⟩] ∧
          final.fs = middle.fs.unlink tmp) ∨
        ∃ error, last = [⟨middle, .fs (.removeFile tmp), .error error, final⟩]
          ∧ final.fs = middle.fs)) ∨
    (present = false ∧
      (((ending = .returned written ∨ ending = .dropped) ∧
          ∃ content, middle.fs.read tmp = some content ∧
            last = [⟨middle, .fs (.rename tmp (blobPath written.hash)), .ok (),
              final⟩] ∧
            final.fs = (middle.fs.unlink tmp).write (blobPath written.hash)
              content) ∨
        ∃ error, (ending = .failed error ∨ ending = .dropped) ∧
          last = [⟨middle, .fs (.rename tmp (blobPath written.hash)),
            .error error, final⟩] ∧
          final.fs = middle.fs)) := by
  cases present with
  | true =>
      cases ran with
      | dropped => exact .inl ⟨rfl, rfl, rfl⟩
      | @step _ _ _ after _ reply later _ answered rest =>
          right
          left
          have ended : later = [] ∧ final = after ∧
              (ending = .returned written ∨ ending = .dropped) := by
            cases rest with
            | returned => exact ⟨rfl, rfl, .inl rfl⟩
            | dropped => exact ⟨rfl, rfl, .inr rfl⟩
          obtain ⟨rfl, rfl, ended⟩ := ended
          refine ⟨rfl, ended, ?_⟩
          rcases Faulty.fs_cases answered with
            ⟨rfl, same⟩ | ⟨error, rfl, same | ⟨_, _, _, impossible, -⟩⟩
          · simp only [FsCall.exec] at same ⊢
            split at same
            · rename_i present
              left
              simp only [if_pos present]
              exact ⟨trivial, by rw [same]⟩
            · rename_i absent
              right
              simp only [if_neg absent]
              exact ⟨_, rfl, by rw [same]⟩
          · exact .inr ⟨error, rfl, by rw [same]⟩
          · cases impossible
  | false =>
      rcases Program.Ends.perform_bind ran with
        ⟨rfl, rfl, rfl⟩ | ⟨error, answered, rfl, ended⟩ |
        ⟨reply, after, later, answered, rfl, rest⟩
      · exact .inl ⟨rfl, rfl, rfl⟩
      · right
        right
        refine ⟨rfl, .inr ⟨error, ended, rfl, ?_⟩⟩
        rcases Faulty.fs_cases answered with
          ⟨refused, same⟩ | ⟨_, -, rfl | ⟨_, _, _, impossible, -⟩⟩
        · simp only [FsCall.exec] at refused same
          split at same
          · rename_i found
            rw [found] at refused
            cases refused
          · rw [same]
        · rfl
        · cases impossible
      · right
        right
        refine ⟨rfl, .inl ?_⟩
        have ended : later = [] ∧ final = after ∧
            (ending = .returned written ∨ ending = .dropped) := by
          cases rest with
          | returned => exact ⟨rfl, rfl, .inl rfl⟩
          | dropped => exact ⟨rfl, rfl, .inr rfl⟩
        obtain ⟨rfl, rfl, ended⟩ := ended
        refine ⟨ended, ?_⟩
        rcases Faulty.fs_cases answered with ⟨accepted, same⟩ | ⟨_, impossible, -⟩
        · simp only [FsCall.exec] at accepted same
          split at same
          · rename_i content found
            exact ⟨content, found, rfl, by rw [same]⟩
          · rename_i missing
            rw [missing] at accepted
            cases accepted
        · cases impossible

/-- A call that ends with the temporary file in place leaves it behind. -/
theorem leftover
    {earlier : Fs} (fresh : earlier.has tmp = false)
    (staged : Staged earlier tmp final.fs)
    (unreturned : ∀ written, ending ≠ .returned written)
    (early : ∀ event ∈ begun, beginCalls tmp event.request)
    (created : ∃ event ∈ begun, Creates tmp event)
    (silent : ∀ event ∈ last, ¬Discards tmp event ∧ ¬Replaces tmp event) :
    LeavesNothing earlier tmp ending final.fs ↔
      CleansUp tmp (begun ++ last) ending := by
  have present : final.fs.has tmp = true := by
    rw [staged tmp, decide_eq_true rfl, Bool.true_or]
  have differs : ¬∀ path, final.fs.has path = earlier.has path := by
    intro same
    rw [same tmp, fresh] at present
    cases present
  have unclean : ¬((¬∃ event ∈ begun ++ last, Creates tmp event) ∨
      (∃ event ∈ begun ++ last, Discards tmp event) ∨
        ∃ event ∈ begun ++ last, Replaces tmp event) := by
    rw [exists_last (fun _ => Discards.outside) early,
      exists_last (fun _ => Replaces.outside) early]
    rintro (uncreated | ⟨event, made, discards⟩ | ⟨event, made, replaces⟩)
    · exact uncreated (exists_begun created)
    · exact (silent event made).1 discards
    · exact (silent event made).2 replaces
  cases ending with
  | returned written => exact absurd rfl (unreturned written)
  | failed error => exact iff_of_false differs unclean
  | dropped => exact iff_of_false differs unclean

/-- A call whose last step removes the temporary file leaves nothing behind. -/
theorem removed_iff
    {earlier : Fs} {middle : World} {written : Written}
    (fresh : earlier.has tmp = false)
    (staged : Staged earlier tmp middle.fs)
    (early : ∀ event ∈ begun, beginCalls tmp event.request)
    (ended : ending = .returned written ∨ ending = .dropped)
    (same : final.fs = middle.fs.unlink tmp) :
    LeavesNothing earlier tmp ending final.fs ↔
      CleansUp tmp (begun ++ [⟨middle, .fs (.removeFile tmp), .ok (), final⟩])
        ending := by
  have restored := has_of_staged_unlink fresh staged
  rw [← same] at restored
  rcases ended with rfl | rfl
  · refine iff_of_true ((restored tmp).trans fresh) ?_
    simp only [CleansUp]
    rw [exists_last (fun _ => Keeps.outside) early]
    rintro ⟨event, made, before, error, after, rfl⟩
    simp at made
  · have removed : ∃ event ∈ begun ++ [⟨middle, .fs (.removeFile tmp),
        .ok (), final⟩], Discards tmp event :=
      (exists_last (fun _ => Discards.outside) early).mpr
        ⟨_, List.mem_cons_self, middle, final, rfl⟩
    exact iff_of_true restored (.inr (.inl removed))

/-- A call whose last step fails to remove the temporary file leaves it
behind. -/
theorem unremoved_iff
    {earlier : Fs} {middle : World} {written : Written} {error : CoreError}
    (fresh : earlier.has tmp = false)
    (staged : Staged earlier tmp final.fs)
    (early : ∀ event ∈ begun, beginCalls tmp event.request)
    (created : ∃ event ∈ begun, Creates tmp event)
    (ended : ending = .returned written ∨ ending = .dropped) :
    LeavesNothing earlier tmp ending final.fs ↔
      CleansUp tmp
        (begun ++ [⟨middle, .fs (.removeFile tmp), .error error, final⟩])
        ending := by
  rcases ended with rfl | rfl
  · have keeps : ∃ event ∈ begun ++ [⟨middle, .fs (.removeFile tmp),
        .error error, final⟩], Keeps tmp event :=
      (exists_last (fun _ => Keeps.outside) early).mpr
        ⟨_, List.mem_cons_self, middle, error, final, rfl⟩
    refine iff_of_false ?_ (not_not_intro keeps)
    simp [LeavesNothing, staged tmp]
  · refine leftover fresh staged (fun _ impossible => by cases impossible)
      early created ?_
    intro event made
    rw [List.mem_singleton.mp made]
    constructor
    · rintro ⟨before, after, impossible⟩
      cases impossible
    · rintro ⟨before, dest, after, -, impossible⟩
      cases impossible

/-- A call whose last step renames the temporary file leaves nothing behind,
unless it is dropped there and the path was vacant. -/
theorem renamed_iff
    {earlier : Fs} {middle : World} {written : Written} {content : Bytes}
    (apart : blobPath written.hash ≠ tmp)
    (fresh : earlier.has tmp = false)
    (staged : Staged earlier tmp middle.fs)
    (early : ∀ event ∈ begun, beginCalls tmp event.request)
    (created : ∃ event ∈ begun, Creates tmp event)
    (ended : ending = .returned written ∨ ending = .dropped)
    (same : final.fs =
      (middle.fs.unlink tmp).write (blobPath written.hash) content) :
    LeavesNothing earlier tmp ending final.fs ↔
      CleansUp tmp (begun ++ [⟨middle,
        .fs (.rename tmp (blobPath written.hash)), .ok (), final⟩]) ending := by
  have files (path : FilePath) : final.fs.has path =
      (decide (path = blobPath written.hash) || earlier.has path) := by
    rw [same, Fs.has_write, has_of_staged_unlink fresh staged]
  rcases ended with rfl | rfl
  · refine iff_of_true ?_ ?_
    · simp [LeavesNothing, files, fresh, apart.symm]
    · simp only [CleansUp]
      rw [exists_last (fun _ => Keeps.outside) early]
      rintro ⟨event, made, before, error, after, rfl⟩
      simp at made
  · have target : middle.fs.has (blobPath written.hash) =
        earlier.has (blobPath written.hash) := by
      rw [staged, decide_eq_false apart, Bool.false_or]
    simp only [LeavesNothing, CleansUp]
    rw [exists_last (fun _ => Discards.outside) early,
      exists_last (fun _ => Replaces.outside) early]
    constructor
    · intro unchanged
      have there := unchanged (blobPath written.hash)
      rw [files, decide_eq_true rfl, Bool.true_or, ← target] at there
      exact .inr (.inr ⟨_, List.mem_cons_self, middle, _, final,
        there.symm, rfl⟩)
    · rintro (uncreated | ⟨event, made, before, after, rfl⟩ |
        ⟨event, made, before, dest, after, there, rfl⟩)
      · exact absurd (exists_begun created) uncreated
      · simp at made
      · simp only [List.mem_singleton, Event.mk.injEq] at made
        obtain ⟨rfl, renamed, -⟩ := made
        cases renamed
        intro path
        rw [files]
        by_cases isTarget : path = blobPath written.hash
        · subst isTarget
          rw [decide_eq_true rfl, Bool.true_or, ← target, there]
        · rw [decide_eq_false isTarget, Bool.false_or]

/-- The call leaves nothing behind exactly if it cleans up, for every body,
every pattern of failing steps and every point at which it is dropped. -/
theorem leaves_nothing_iff
    (fresh : world.fs.has (tmpPath (env.uuid world.uuids)) = false)
    (ran : Program.Ends (Faulty env config) (writeStreamed env body) world
      events ending final) :
    LeavesNothing world.fs (tmpPath (env.uuid world.uuids)) ending final.fs ↔
      CleansUp (tmpPath (env.uuid world.uuids)) events ending := by
  obtain ⟨tmp, named⟩ : ∃ tmp, tmp = tmpPath (env.uuid world.uuids) := ⟨_, rfl⟩
  rw [← named] at fresh ⊢
  rcases writeStreamed_cases named ran with
    ⟨uncreated, unreturned, same⟩ |
    ⟨begun, last, rfl, early, created,
      ⟨rfl, unreturned, staged⟩ | ⟨written, present, middle, staged, settles⟩⟩
  · rw [same]
    cases ending with
    | returned written => exact absurd rfl (unreturned written)
    | failed error => exact iff_of_true (fun _ => rfl) (.inl uncreated)
    | dropped => exact iff_of_true (fun _ => rfl) (.inl uncreated)
  · refine leftover fresh staged unreturned early created ?_
    intro event made
    cases made
  · rcases settle_cases settles with
      ⟨rfl, rfl, same⟩ |
      ⟨-, ended, ⟨rfl, same⟩ | ⟨error, rfl, same⟩⟩ |
      ⟨-, ⟨ended, content, -, rfl, same⟩ | ⟨error, ended, rfl, same⟩⟩
    · rw [← same] at staged
      refine leftover fresh staged (fun _ impossible => by cases impossible)
        early created ?_
      intro event made
      cases made
    · exact removed_iff fresh staged early ended same
    · rw [← same] at staged
      exact unremoved_iff fresh staged early created ended
    · have apart : blobPath written.hash ≠ tmp := by
        rw [named]
        exact blobPath_ne_tmpPath _ _
      exact renamed_iff apart fresh staged early created ended same
    · rw [← same] at staged
      have unreturned : ∀ other, ending ≠ .returned other := by
        rintro other rfl
        rcases ended with ended | ended <;> cases ended
      refine leftover fresh staged unreturned early created ?_
      intro event made
      rw [List.mem_singleton.mp made]
      constructor
      · rintro ⟨before, after, impossible⟩
        cases impossible
      · rintro ⟨before, dest, after, -, impossible⟩
        cases impossible

end Endings

/-! ## A stream that breaks off -/

/-- A server with an empty storage root. -/
def vacant : World := { World.initial 1000 with uuids := 1 }

/-- The server after an upload of one byte. -/
def stored : World :=
  ((writeStreamed Sample.env [.ok [97]]).run
    (exec Sample.env (Sample.config 1024)) vacant).2

/-- No file can be removed. -/
def unremovable : Handler Call Call.Reply CoreError World
  | .fs (.removeFile _), world => some (.error (.io .other), world)
  | request, world => exec Sample.env (Sample.config 1024) request world

theorem unremovable_faulty
    (request : Call) (before : World) (reply : Except CoreError request.Reply)
    (after : World) (ran : unremovable request before = some (reply, after)) :
    Faulty Sample.env (Sample.config 1024) request before reply after := by
  unfold unremovable at ran
  split at ran
  · cases ran
    exact .fsFault _ _ _
  · exact .exact ran

/-- The same byte is uploaded again.  An upload that is dropped when its
temporary file has just been removed leaves nothing; one that returns although
the file could not be removed leaves the file. -/
theorem leaves_nothing_iff_stored :
    (∃ events final,
      Program.Ends (Faulty Sample.env (Sample.config 1024))
        (writeStreamed Sample.env [.ok [97]]) stored events .dropped final ∧
      LeavesNothing stored.fs (tmpPath "xx") .dropped final.fs ∧
      CleansUp (tmpPath "xx") events .dropped) ∧
    ∃ events written final,
      Program.Ends (Faulty Sample.env (Sample.config 1024))
        (writeStreamed Sample.env [.ok [97]]) stored events
        (.returned written) final ∧
      ¬LeavesNothing stored.fs (tmpPath "xx") (.returned written) final.fs ∧
      ¬CleansUp (tmpPath "xx") events (.returned written) := by
  have fresh : stored.fs.has (tmpPath (Sample.env.uuid stored.uuids)) =
      false := by
    decide +kernel
  have named : tmpPath (Sample.env.uuid stored.uuids) = tmpPath "xx" := by
    decide +kernel
  constructor
  · have ran : Program.Ends (Faulty Sample.env (Sample.config 1024))
        (writeStreamed Sample.env [.ok [97]]) stored
        ((writeStreamed Sample.env [.ok [97]]).trace
          (exec Sample.env (Sample.config 1024)) stored) .dropped
        ((writeStreamed Sample.env [.ok [97]]).run
          (exec Sample.env (Sample.config 1024)) stored).2 :=
      (Program.Ends.of_run (fun _ _ _ _ => .exact) _ stored).interrupt
    have same : ((writeStreamed Sample.env [.ok [97]]).run
        (exec Sample.env (Sample.config 1024)) stored).2.fs.rows =
          stored.fs.rows := by
      decide +kernel
    have nothing : LeavesNothing stored.fs (tmpPath "xx") .dropped
        ((writeStreamed Sample.env [.ok [97]]).run
          (exec Sample.env (Sample.config 1024)) stored).2.fs := by
      intro path
      simp only [Fs.has, Fs.read, Tables.Table.find?, same]
    have cleans := leaves_nothing_iff fresh ran
    rw [named] at cleans
    exact ⟨_, _, ran, nothing, cleans.mp nothing⟩
  · have ran := Program.Ends.of_run unremovable_faulty
      (writeStreamed Sample.env [.ok [97]]) stored
    have returned : ((writeStreamed Sample.env [.ok [97]]).run unremovable
        stored).1 = .done ⟨Sample.sha256 [97], 1⟩ := by
      decide +kernel
    have kept : ((writeStreamed Sample.env [.ok [97]]).run unremovable
        stored).2.fs.has (tmpPath "xx") = true := by
      decide +kernel
    rw [returned] at ran
    have leaves := leaves_nothing_iff fresh ran
    rw [named] at leaves
    have leaving : ¬LeavesNothing stored.fs (tmpPath "xx")
        (.returned ⟨Sample.sha256 [97], 1⟩)
        ((writeStreamed Sample.env [.ok [97]]).run unremovable stored).2.fs := by
      intro gone
      rw [LeavesNothing, kept] at gone
      cases gone
    exact ⟨_, _, _, ran, leaving, fun cleans => leaving (leaves.mpr cleans)⟩

/-- The temporary file of a stream that breaks off stays. -/
theorem broken_stream_leaves_file :
    (match (writeStreamed Sample.env [.ok [97], .error .other]).run
        (exec Sample.env (Sample.config 1024)) vacant with
      | (.failed _, after) => after.fs.rows
      | _ => []) = [⟨tmpPath "x", [97]⟩] ∧
    ¬LeavesNothing vacant.fs (tmpPath "x")
      (.ofOutcome ((writeStreamed Sample.env [.ok [97], .error .other]).run
        (exec Sample.env (Sample.config 1024)) vacant).1)
      ((writeStreamed Sample.env [.ok [97], .error .other]).run
        (exec Sample.env (Sample.config 1024)) vacant).2.fs := by
  refine ⟨by decide +kernel, fun same => ?_⟩
  have left := same (tmpPath "x")
  exact absurd left (by decide +kernel)

end LocalFsStore

end Marmotte
