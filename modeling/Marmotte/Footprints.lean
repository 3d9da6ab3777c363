import Marmotte.Auth
import Marmotte.Effects.Uses
import Marmotte.Gc

/-!
# Footprints

Which calls an upload, a sweep and an authentication use, whatever replies they
get.  Everything that these calls leave alone is left alone by the whole
program.
-/

namespace Marmotte

open Effects Program

/-- The calls of `write_streamed`. -/
def uploadCalls : Call → Prop
  | .newUuid => True
  | .fs (.openFile _) => False
  | .fs _ => True
  | _ => False

/-- The transactions of a sweep. -/
def sweepTransactions : DbCall → Prop
  | .ttlCandidates .. => True
  | .projectsList => True
  | .entriesProjectUsage _ => True
  | .quotaCandidates _ => True
  | .globalCandidates => True
  | .entriesDelete .. => True
  | .blobsTotalSize => True
  | .blobsZeroRefcount _ => True
  | .blobsDelete _ => True
  | _ => False

/-- The calls of a sweep. -/
def sweepCalls : Call → Prop
  | .gcLock => True
  | .gcUnlock => True
  | .now => True
  | .fs (.removeFile path) => ∃ hash, path = blobPath hash
  | .db transaction => sweepTransactions transaction
  | _ => False

/-- The calls of a sweep below the mutex. -/
def collectCalls : Call → Prop
  | .now => True
  | .fs (.removeFile path) => ∃ hash, path = blobPath hash
  | .db transaction => sweepTransactions transaction
  | _ => False

/-- The calls of a cleanup. -/
def freeingCalls : Call → Prop
  | .fs (.removeFile path) => ∃ hash, path = blobPath hash
  | .db (.blobsZeroRefcount _) => True
  | .db (.blobsDelete _) => True
  | _ => False

/-! ## Uploads -/

namespace LocalFsStore

theorem writeChunks_uses
    (tmp : FilePath) (body : Body) (hashed : Bytes) (total : Int) :
    (writeChunks tmp body hashed total).Uses uploadCalls fun result =>
      result = (hashed ++ body.bytes, total + body.bytes.length) := by
  induction body generalizing hashed total with
  | nil =>
      change (hashed, total) = _
      simp
  | cons chunk rest inductionHypothesis =>
      cases chunk with
      | error cause => trivial
      | ok chunk =>
          refine uses_perform_then trivial fun _ => ?_
          refine (inductionHypothesis _ _).mono (fun _ => id) ?_
          rintro _ rfl
          simp only [Body.bytes_ok, List.append_assoc, List.length_append]
          congr 1
          push_cast
          omega

/-- An upload that succeeds returns the digest and the length of its body. -/
theorem writeStreamed_uses (env : Env) (body : Body) :
    (writeStreamed env body).Uses uploadCalls fun written =>
      written = ⟨env.sha256 body.bytes, body.bytes.length⟩ := by
  refine uses_perform_then trivial fun name => ?_
  refine uses_perform_then trivial fun _ => ?_
  refine (writeChunks_uses _ body [] 0).bind ?_
  rintro _ rfl
  simp only [List.nil_append, Int.zero_add]
  refine uses_perform_then trivial fun _ => ?_
  refine uses_perform_then trivial fun _ => ?_
  refine uses_perform_then trivial fun _ => ?_
  refine uses_attempt_then trivial fun answer => ?_
  split
  · exact uses_attempt_then trivial fun _ => rfl
  · exact uses_perform_then trivial fun _ => rfl

end LocalFsStore

/-! ## Sweeps -/

namespace GcSvc

/-- A part of a sweep that only has to keep to the calls of a sweep. -/
abbrev Sweeps (program : App α) : Prop :=
  program.Uses sweepCalls fun _ => True

/-- A part of a sweep below the mutex. -/
abbrev Collects (program : App α) : Prop :=
  program.Uses collectCalls fun _ => True

theorem evict_collects (dryRun : Bool) (candidate : Candidate) :
    Collects (evict dryRun candidate) := by
  unfold evict
  split
  · trivial
  · exact uses_perform trivial fun _ => trivial

theorem ttlLoop_collects
    (dryRun : Bool) (candidates : List Candidate) (rep : GcReport) :
    Collects (ttlLoop dryRun candidates rep) := by
  induction candidates generalizing rep with
  | nil => trivial
  | cons candidate rest inductionHypothesis =>
      exact (evict_collects dryRun candidate).bind fun _ _ =>
        inductionHypothesis _

theorem lruLoop_collects
    (dryRun : Bool) (quota : Int) (candidates : List Candidate)
    (usage : Int) (rep : GcReport) :
    Collects (lruLoop dryRun quota candidates usage rep) := by
  induction candidates generalizing usage rep with
  | nil => trivial
  | cons candidate rest inductionHypothesis =>
      unfold lruLoop
      split
      · trivial
      · exact (evict_collects dryRun candidate).bind fun _ _ =>
          inductionHypothesis _ _

theorem ttlPhase_collects
    (config : GcConfig) (dryRun : Bool) (rep : GcReport) :
    Collects (ttlPhase config dryRun rep) := by
  refine uses_perform_then trivial fun now => ?_
  have kind (kind : Kind) (rep : GcReport) :
      Collects (ttlKind config dryRun now kind rep) :=
    uses_perform_then trivial fun candidates =>
      ttlLoop_collects dryRun candidates rep
  exact (kind .sstate rep).bind fun rep _ => kind .downloads rep

theorem quotaProject_collects
    (dryRun : Bool) (project : Project) (rep : GcReport) :
    Collects (quotaProject dryRun project rep) := by
  unfold quotaProject
  split
  · trivial
  · refine uses_perform_then trivial fun usage => ?_
    split
    · trivial
    · exact uses_perform_then trivial fun candidates =>
        lruLoop_collects dryRun _ candidates usage rep

theorem quotaLoop_collects
    (dryRun : Bool) (projects : List Project) (rep : GcReport) :
    Collects (quotaLoop dryRun projects rep) := by
  induction projects generalizing rep with
  | nil => trivial
  | cons project rest inductionHypothesis =>
      exact (quotaProject_collects dryRun project rep).bind fun rep _ =>
        inductionHypothesis rep

theorem quotaPhase_collects (dryRun : Bool) (rep : GcReport) :
    Collects (quotaPhase dryRun rep) :=
  uses_perform_then trivial fun projects =>
    quotaLoop_collects dryRun projects rep

theorem globalPhase_collects
    (config : GcConfig) (dryRun : Bool) (rep : GcReport) :
    Collects (globalPhase config dryRun rep) := by
  refine uses_perform_then trivial fun usage => ?_
  simp only
  split
  · trivial
  · exact uses_perform_then trivial fun candidates =>
      lruLoop_collects dryRun _ candidates usage rep

theorem freeBlob_frees (dryRun : Bool) (hash : String) :
    (freeBlob dryRun hash).Uses freeingCalls fun _ => True := by
  unfold freeBlob
  split
  · trivial
  · have unlinked : (LocalFsStore.deleteBlob hash).Uses freeingCalls
        fun _ => True := by
      refine Uses.catchError (uses_perform ⟨hash, rfl⟩ fun _ => trivial) ?_
      intro error
      split <;> trivial
    have ignored : ((LocalFsStore.deleteBlob hash).catchError
        fun _ => pure ()).Uses freeingCalls fun _ => True :=
      unlinked.catchError fun _ => trivial
    exact ignored.bind fun _ _ => uses_perform trivial fun _ => trivial

theorem cleanupBatch_frees
    (dryRun : Bool) (batch : List String) (rep : GcReport) :
    (cleanupBatch dryRun batch rep).Uses freeingCalls fun _ => True := by
  induction batch generalizing rep with
  | nil => trivial
  | cons hash rest inductionHypothesis =>
      exact (freeBlob_frees dryRun hash).bind fun _ _ =>
        inductionHypothesis _

theorem cleanupBlobs_frees
    (dryRun : Bool) (budget : Nat) (rep : GcReport) :
    (cleanupBlobs dryRun budget rep).Uses freeingCalls fun _ => True := by
  induction budget generalizing rep with
  | zero => trivial
  | succ budget inductionHypothesis =>
      refine uses_perform_then trivial fun batch => ?_
      split
      · trivial
      · refine (cleanupBatch_frees dryRun batch rep).bind fun rep _ => ?_
        split
        · trivial
        · exact inductionHypothesis rep

/-- A cleanup is a part of a sweep. -/
theorem collectCalls_of_freeing
    (request : Call) (used : freeingCalls request) : collectCalls request := by
  cases request with
  | db call => cases call <;> first | exact used.elim | trivial
  | fs call => cases call <;> first | exact used.elim | exact used
  | _ => exact used.elim

theorem cleanupBlobs_collects
    (dryRun : Bool) (budget : Nat) (rep : GcReport) :
    Collects (cleanupBlobs dryRun budget rep) :=
  (cleanupBlobs_frees dryRun budget rep).mono collectCalls_of_freeing
    fun _ => id

/-- A sweep below the mutex. -/
theorem sweep_collects
    (config : GcConfig) (budget : Nat) (dryRun : Bool) :
    Collects (sweep config budget dryRun) :=
  (ttlPhase_collects config dryRun _).bind fun rep _ =>
    (quotaPhase_collects dryRun rep).bind fun rep _ =>
      (globalPhase_collects config dryRun rep).bind fun rep _ =>
        (cleanupBlobs_collects dryRun budget rep).bind fun _ _ =>
          uses_perform_then trivial fun _ => trivial

theorem sweepCalls_of_collecting
    (request : Call) (used : collectCalls request) : sweepCalls request := by
  cases request with
  | db call => exact used
  | fs call => cases call <;> first | exact used.elim | exact used
  | now => trivial
  | _ => exact used.elim

/-- A whole sweep, whether it returns or fails. -/
theorem run_sweeps (config : GcConfig) (budget : Nat) (dryRun : Bool) :
    Sweeps (run config budget dryRun) := by
  have body : Sweeps (sweep config budget dryRun) :=
    (sweep_collects config budget dryRun).mono sweepCalls_of_collecting
      fun _ => id
  exact uses_perform_then trivial fun _ =>
    body.ensuring (uses_perform trivial fun _ => trivial)

end GcSvc

/-! ## Authentications -/

/-- The calls of an authentication. -/
def authenticationCalls : Call → Prop
  | .projectCacheGet .. => True
  | .projectCacheInsert .. => True
  | .adminCacheGet .. => True
  | .adminCacheInsert .. => True
  | .db (.projectsGetByName _) => True
  | .db (.apiKeysFindActive ..) => True
  | .db (.adminTokensFindActive _) => True
  | _ => False

namespace AuthSvc

theorem verifyProject_uses (env : Env) (name apiKey lookup : String) :
    (verifyProject env name apiKey lookup).Uses authenticationCalls
      fun _ => True := by
  have named : ((transact (.projectsGetByName name)).catchError
      fun _ => .fail .unauthorized : App Project).Uses authenticationCalls
        fun _ => True :=
    (uses_perform trivial fun _ => trivial).catchError fun _ => trivial
  refine named.bind fun project _ => uses_perform_then trivial fun row => ?_
  cases row with
  | none => trivial
  | some key =>
      simp only
      split <;> trivial

theorem authenticateProject_uses (env : Env) (name apiKey : String) :
    (authenticateProject env name apiKey).Uses authenticationCalls
      fun _ => True := by
  refine uses_perform_then trivial fun cached => ?_
  cases cached with
  | some auth => trivial
  | none =>
      exact (verifyProject_uses env name apiKey _).bind fun _ _ =>
        uses_perform_then trivial fun _ => trivial

theorem verifyAdmin_uses (env : Env) (token lookup : String) :
    (verifyAdmin env token lookup).Uses authenticationCalls
      fun _ => True := by
  refine uses_perform_then trivial fun row => ?_
  cases row with
  | none => trivial
  | some found =>
      simp only
      split <;> trivial

theorem authenticateAdmin_uses (env : Env) (token : String) :
    (authenticateAdmin env token).Uses authenticationCalls
      fun _ => True := by
  refine uses_perform_then trivial fun cached => ?_
  cases cached with
  | some auth => trivial
  | none =>
      exact (verifyAdmin_uses env token _).bind fun _ _ =>
        uses_perform_then trivial fun _ => trivial

end AuthSvc

end Marmotte
