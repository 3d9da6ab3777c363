import Marmotte.Effects.Program

/-!
# Protocols: what a program knows from its own calls

A protocol keeps a local record of the calls a program has made and of the
replies it got, and says which calls that record permits next.  Whether a
program follows a protocol is a property of its text alone: no world and no
other program is involved.  A property of worlds and records that every
permitted call keeps then holds wherever the program is run or abandoned.
-/

namespace Effects

/-- A local record, the calls it permits, and how a reply extends it. -/
structure Protocol (Call : Type) (Reply : Call → Type) (ε Local : Type) where
  permits : Local → Call → Prop
  advance : Local → (request : Call) → Except ε (Reply request) → Local

namespace Program

/-- Every call the program makes is permitted by the record of the calls before
it, whatever the replies; `post` holds of the record when it returns and
`failed` when it fails. -/
def Follows
    (protocol : Protocol Call Reply ε Local)
    (post : α → Local → Prop)
    (failed : ε → Local → Prop) :
    Program Call Reply ε α → Local → Prop
  | .done value, record => post value record
  | .fail error, record => failed error record
  | .spin, _ => True
  | .call request next, record =>
      protocol.permits record request ∧
        ∀ reply, (next reply).Follows protocol post failed
          (protocol.advance record request reply)

section Rules

variable {protocol : Protocol Call Reply ε Local}
variable {failed : ε → Local → Prop}

@[simp] theorem follows_done
    {post : α → Local → Prop} (value : α) (record : Local) :
    (.done value : Program Call Reply ε α).Follows
        protocol post failed record ↔ post value record := Iff.rfl

@[simp] theorem follows_fail
    {post : α → Local → Prop} (error : ε) (record : Local) :
    (.fail error : Program Call Reply ε α).Follows
        protocol post failed record ↔ failed error record := Iff.rfl

@[simp] theorem follows_spin
    {post : α → Local → Prop} (record : Local) :
    (.spin : Program Call Reply ε α).Follows
        protocol post failed record ↔ True := Iff.rfl

/-- Weaken what is known at the end. -/
theorem Follows.mono
    {program : Program Call Reply ε α}
    {post post' : α → Local → Prop}
    {failed' : ε → Local → Prop}
    {record : Local}
    (follows : program.Follows protocol post failed record)
    (weaker : ∀ value record, post value record → post' value record)
    (weakerFailed : ∀ error record,
      failed error record → failed' error record) :
    program.Follows protocol post' failed' record := by
  induction program generalizing record with
  | done value => exact weaker _ _ follows
  | fail error => exact weakerFailed _ _ follows
  | spin => trivial
  | call request next inductionHypothesis =>
      exact ⟨follows.1, fun reply =>
        inductionHypothesis reply (follows.2 reply)⟩

/-- Forget what is known of a failure. -/
theorem Follows.anyway
    {program : Program Call Reply ε α}
    {post : α → Local → Prop} {record : Local}
    (follows : program.Follows protocol post failed record) :
    program.Follows protocol post (fun _ _ => True) record :=
  follows.mono (fun _ _ => id) fun _ _ _ => trivial

/-- A protocol that keeps the same records and permits more is followed, too. -/
theorem Follows.permitting
    {program : Program Call Reply ε α}
    {post : α → Local → Prop} {record : Local}
    {permits : Local → Call → Prop}
    (follows : program.Follows protocol post failed record)
    (more : ∀ record request,
      protocol.permits record request → permits record request) :
    program.Follows { protocol with permits := permits } post failed
      record := by
  induction program generalizing record with
  | done value => exact follows
  | fail error => exact follows
  | spin => trivial
  | call request next inductionHypothesis =>
      exact ⟨more record request follows.1, fun reply =>
        inductionHypothesis reply (follows.2 reply)⟩

/-- The rule for sequencing. -/
theorem Follows.bind
    {first : Program Call Reply ε α}
    {next : α → Program Call Reply ε β}
    {middle : α → Local → Prop}
    {post : β → Local → Prop}
    {record : Local}
    (follows : first.Follows protocol middle failed record)
    (rest : ∀ value record, middle value record →
      (next value).Follows protocol post failed record) :
    (first >>= next).Follows protocol post failed record := by
  induction first generalizing record with
  | done value => exact rest _ _ follows
  | fail error => exact follows
  | spin => trivial
  | call request continuation inductionHypothesis =>
      exact ⟨follows.1, fun reply =>
        inductionHypothesis reply (follows.2 reply)⟩

/-- The rule for one call whose error is handed on. -/
theorem follows_perform
    {request : Call}
    {post : Reply request → Local → Prop}
    {record : Local}
    (permitted : protocol.permits record request)
    (returned : ∀ reply,
      post reply (protocol.advance record request (.ok reply)))
    (erred : ∀ error,
      failed error (protocol.advance record request (.error error))) :
    (perform request : Program Call Reply ε _).Follows
      protocol post failed record := by
  refine ⟨permitted, fun reply => ?_⟩
  cases reply with
  | ok value => exact returned value
  | error error => exact erred error

/-- The rule for a call at the head of a program that hands its error on. -/
theorem follows_perform_next
    {request : Call}
    {next : Reply request → Program Call Reply ε α}
    {post : α → Local → Prop}
    {record : Local}
    (permitted : protocol.permits record request)
    (rest : ∀ value, (next value).Follows protocol post failed
      (protocol.advance record request (.ok value)))
    (erred : ∀ error,
      failed error (protocol.advance record request (.error error))) :
    (perform request >>= next).Follows protocol post failed record := by
  refine ⟨permitted, fun reply => ?_⟩
  cases reply with
  | ok value => exact rest value
  | error error => exact erred error

/-- The same where nothing has to be known of a failure. -/
theorem follows_perform_then
    {request : Call}
    {next : Reply request → Program Call Reply ε α}
    {post : α → Local → Prop}
    {record : Local}
    (permitted : protocol.permits record request)
    (rest : ∀ value, (next value).Follows protocol post (fun _ _ => True)
      (protocol.advance record request (.ok value))) :
    (perform request >>= next).Follows protocol post (fun _ _ => True)
      record :=
  follows_perform_next permitted rest fun _ => trivial

theorem Follows.catchError
    {body : Program Call Reply ε α}
    {handle : ε → Program Call Reply ε α}
    {post : α → Local → Prop}
    {raised : ε → Local → Prop}
    {record : Local}
    (follows : body.Follows protocol post raised record)
    (handled : ∀ error record, raised error record →
      (handle error).Follows protocol post failed record) :
    (body.catchError handle).Follows protocol post failed record := by
  induction body generalizing record with
  | done value => exact follows
  | fail error => exact handled _ _ follows
  | spin => trivial
  | call request next inductionHypothesis =>
      exact ⟨follows.1, fun reply =>
        inductionHypothesis reply (follows.2 reply)⟩

theorem Follows.toExcept
    {body : Program Call Reply ε α}
    {middle : α → Local → Prop}
    {raised : ε → Local → Prop}
    {record : Local}
    (follows : body.Follows protocol middle raised record) :
    body.toExcept.Follows protocol
      (fun result record =>
        match result with
        | .ok value => middle value record
        | .error error => raised error record) failed record := by
  induction body generalizing record with
  | done value => exact follows
  | fail error => exact follows
  | spin => trivial
  | call request next inductionHypothesis =>
      exact ⟨follows.1, fun reply =>
        inductionHypothesis reply (follows.2 reply)⟩

/-- The rule for a release that runs on both ways out. -/
theorem Follows.ensuring
    {body : Program Call Reply ε α}
    {release : Program Call Reply ε Unit}
    {middle post : α → Local → Prop}
    {raised : ε → Local → Prop}
    {record : Local}
    (follows : body.Follows protocol middle raised record)
    (released : ∀ value record, middle value record →
      release.Follows protocol (fun _ => post value) failed record)
    (releasedOnError : ∀ error record, raised error record →
      release.Follows protocol (fun _ => failed error) failed record) :
    (body.ensuring release).Follows protocol post failed record := by
  induction body generalizing record with
  | done value =>
      exact (released _ _ follows).bind fun _ _ known => known
  | fail error =>
      exact (releasedOnError _ _ follows).bind fun _ _ known => known
  | spin => trivial
  | call request next inductionHypothesis =>
      exact ⟨follows.1, fun reply =>
        inductionHypothesis reply (follows.2 reply)⟩

end Rules

/-! ## Programs that run one after the other -/

section Alone

variable {protocol : Protocol Call Reply ε Local}
variable {answers : Answers Call Reply ε World}
variable {holds : Local → World → Prop}

/-- A property of records and worlds that every permitted call keeps holds
wherever a program that follows the protocol is cut. -/
theorem Cut.keeps
    {program : Program Call Reply ε α}
    {post : α → Local → Prop} {failed : ε → Local → Prop}
    {record : Local} {world final : World}
    (kept : ∀ record request world reply after,
      holds record world → protocol.permits record request →
        answers request world reply after →
          holds (protocol.advance record request reply) after)
    (follows : program.Follows protocol post failed record)
    (start : holds record world)
    (cut : Cut answers program world final) :
    ∃ last, holds last final := by
  induction cut generalizing record with
  | here program world => exact ⟨record, start⟩
  | step answered rest inductionHypothesis =>
      exact inductionHypothesis (follows.2 _)
        (kept _ _ _ _ _ start follows.1 answered)

/-- The same for a program that runs alone, with what is known at its end. -/
theorem Follows.run_keeps
    {handler : Handler Call Reply ε World}
    {program : Program Call Reply ε α}
    {post : α → Local → Prop} {failed : ε → Local → Prop}
    {record : Local} {world final : World} {outcome : Outcome ε α}
    (kept : ∀ record request world reply after,
      holds record world → protocol.permits record request →
        handler request world = some (reply, after) →
          holds (protocol.advance record request reply) after)
    (follows : program.Follows protocol post failed record)
    (start : holds record world)
    (ran : program.run handler world = (outcome, final)) :
    ∃ last, holds last final ∧
      (∀ value, outcome = .done value → post value last) ∧
      (∀ error, outcome = .failed error → failed error last) := by
  induction program generalizing record world with
  | done value =>
      cases ran
      exact ⟨record, start, by rintro _ ⟨⟩; exact follows, by rintro _ ⟨⟩⟩
  | fail error =>
      cases ran
      exact ⟨record, start, by rintro _ ⟨⟩, by rintro _ ⟨⟩; exact follows⟩
  | spin =>
      cases ran
      exact ⟨record, start, by rintro _ ⟨⟩, by rintro _ ⟨⟩⟩
  | call request next inductionHypothesis =>
      cases answered : handler request world with
      | none =>
          simp only [run, answered] at ran
          cases ran
          exact ⟨record, start, by rintro _ ⟨⟩, by rintro _ ⟨⟩⟩
      | some answer =>
          rw [run_call answered] at ran
          exact inductionHypothesis _ (follows.2 _)
            (kept _ _ _ _ _ start follows.1 answered) ran

/-- Every call that such a program makes when it runs alone was permitted by
some record. -/
theorem Follows.permits_trace
    {handler : Handler Call Reply ε World}
    {program : Program Call Reply ε α}
    {post : α → Local → Prop} {failed : ε → Local → Prop}
    {record : Local} {world : World}
    (follows : program.Follows protocol post failed record)
    {event : Event Call Reply ε World}
    (made : event ∈ program.trace handler world) :
    ∃ earlier, protocol.permits earlier event.request := by
  induction program generalizing record world with
  | done value => cases made
  | fail error => cases made
  | spin => cases made
  | call request next inductionHypothesis =>
      simp only [trace] at made
      cases answered : handler request world with
      | none =>
          rw [answered] at made
          cases made
      | some answer =>
          rw [answered, List.mem_cons] at made
          rcases made with rfl | later
          · exact ⟨record, follows.1⟩
          · exact inductionHypothesis _ (follows.2 _) later

end Alone

end Program

/-! ## Recording -/

/-- A call with the reply to it. -/
structure Answer (Call : Type) (Reply : Call → Type) (ε : Type) where
  request : Call
  reply : Except ε (Reply request)

/-- The protocol that permits every call and records what was answered. -/
def recording : Protocol Call Reply ε (List (Answer Call Reply ε)) where
  permits _ _ := True
  advance past request reply := past ++ [⟨request, reply⟩]

theorem Program.follows_recording
    (program : Program Call Reply ε α) (past : List (Answer Call Reply ε)) :
    program.Follows recording (fun _ _ => True) (fun _ _ => True) past := by
  induction program generalizing past with
  | done value => trivial
  | fail error => trivial
  | spin => trivial
  | call request next inductionHypothesis =>
      exact ⟨trivial, fun reply => inductionHypothesis reply _⟩

/-! ## Two protocols side by side -/

/-- A call has to be permitted by both protocols, and each keeps a record of its
own. -/
def Protocol.both
    (first : Protocol Call Reply ε Local)
    (second : Protocol Call Reply ε Other) :
    Protocol Call Reply ε (Local × Other) where
  permits record request :=
    first.permits record.1 request ∧ second.permits record.2 request
  advance record request reply :=
    (first.advance record.1 request reply,
      second.advance record.2 request reply)

theorem Program.Follows.both
    {first : Protocol Call Reply ε Local}
    {second : Protocol Call Reply ε Other}
    {program : Program Call Reply ε α}
    {post : α → Local → Prop} {otherPost : α → Other → Prop}
    {record : Local} {other : Other}
    (follows : program.Follows first post (fun _ _ => True) record)
    (alsoFollows :
      program.Follows second otherPost (fun _ _ => True) other) :
    program.Follows (first.both second)
      (fun value last => post value last.1 ∧ otherPost value last.2)
      (fun _ _ => True) (record, other) := by
  induction program generalizing record other with
  | done value => exact ⟨follows, alsoFollows⟩
  | fail error => trivial
  | spin => trivial
  | call request next inductionHypothesis =>
      exact ⟨⟨follows.1, alsoFollows.1⟩, fun reply =>
        inductionHypothesis reply (follows.2 reply) (alsoFollows.2 reply)⟩

end Effects
