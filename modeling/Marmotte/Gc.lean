import Marmotte.LocalFsStore

/-!
# Garbage collection

The four phases of a sweep and the orphan scan.  The cleanup loop of the source
repeats until a query returns no row; here it takes a budget of iterations and
spins when that is used up.
-/

namespace Marmotte

open Effects Program

/-- Outcome of one full sweep; the counters of the source are `u64`. -/
structure GcReport where
  evictedEntries : Nat
  evictedBytes : Nat
  freedBlobs : Nat
  usageGlobalBytes : Int
  deriving DecidableEq, Repr

namespace GcReport

def default : GcReport := ⟨0, 0, 0, 0⟩

/-- Count one evicted entry. -/
def evict (rep : GcReport) (size : Int) : GcReport :=
  { rep with
    evictedEntries := rep.evictedEntries + 1
    evictedBytes := rep.evictedBytes + asU64 size }

end GcReport

/-- Result of an orphan-scan pass. -/
structure OrphanReport where
  diskOrphansRemoved : Nat
  dbOrphansRemoved : Nat
  deriving DecidableEq, Repr

namespace GcSvc

/-! ## Eviction -/

/-- The default time to live of a kind, in seconds. -/
def defaultSecs (config : GcConfig) : Kind → Int
  | .sstate => asI64 (mulU64 config.defaultTtlSstateDays 86400)
  | .downloads => asI64 (mulU64 config.defaultTtlDownloadsDays 86400)

/-- `Entries::delete` on a candidate, unless this is a dry run. -/
def evict (dryRun : Bool) (candidate : Candidate) : App Unit :=
  if dryRun then pure ()
  else transact (.entriesDelete candidate.projectId candidate.id)

/-- The loop of `ttl_phase` over the candidates of one kind. -/
def ttlLoop (dryRun : Bool) : List Candidate → GcReport → App GcReport
  | [], rep => pure rep
  | candidate :: rest, rep => do
      evict dryRun candidate
      ttlLoop dryRun rest (rep.evict candidate.sizeBytes)

/-- The body of the loop of `ttl_phase` over the kinds. -/
def ttlKind
    (config : GcConfig) (dryRun : Bool) (now : Int) (kind : Kind)
    (rep : GcReport) : App GcReport := do
  let cutoffDefault := subI64 now (defaultSecs config kind)
  let candidates ← transact (.ttlCandidates kind now cutoffDefault)
  ttlLoop dryRun candidates rep

/-- Evict entries that have exceeded their effective time to live. -/
def ttlPhase
    (config : GcConfig) (dryRun : Bool) (rep : GcReport) : App GcReport := do
  let now ← perform Call.now
  let rep ← ttlKind config dryRun now .sstate rep
  ttlKind config dryRun now .downloads rep

/-- The eviction loop that `quota_phase` and `global_phase` share: oldest first
until the usage, less the logical sizes evicted, is within the quota. -/
def lruLoop
    (dryRun : Bool) (quota : Int) :
    List Candidate → Int → GcReport → App GcReport
  | [], _, rep => pure rep
  | candidate :: rest, usage, rep =>
      if usage ≤ quota then pure rep
      else do
        evict dryRun candidate
        lruLoop dryRun quota rest (usage - candidate.sizeBytes)
          (rep.evict candidate.sizeBytes)

/-- The body of the loop of `quota_phase` over the projects. -/
def quotaProject
    (dryRun : Bool) (project : Project) (rep : GcReport) : App GcReport :=
  match project.quotaBytes with
  | none => pure rep
  | some quota => do
      let usage ← transact (.entriesProjectUsage project.id)
      if usage ≤ quota then pure rep
      else do
        let toEvict ← transact (.quotaCandidates project.id)
        lruLoop dryRun quota toEvict usage rep

def quotaLoop (dryRun : Bool) : List Project → GcReport → App GcReport
  | [], rep => pure rep
  | project :: rest, rep => do
      let rep ← quotaProject dryRun project rep
      quotaLoop dryRun rest rep

/-- Evict least recently used entries of projects that exceed their quota. -/
def quotaPhase (dryRun : Bool) (rep : GcReport) : App GcReport := do
  let projects ← transact .projectsList
  quotaLoop dryRun projects rep

/-- Evict the globally least recently used entries while over the quota. -/
def globalPhase
    (config : GcConfig) (dryRun : Bool) (rep : GcReport) : App GcReport := do
  let usage ← transact .blobsTotalSize
  let quota := asI64 config.globalQuotaBytes
  if usage ≤ quota then pure rep
  else do
    let candidates ← transact .globalCandidates
    lruLoop dryRun quota candidates usage rep

/-! ## Cleanup -/

/-- Remove a blob file and its row; a failed removal of the file is only
logged. -/
def freeBlob (dryRun : Bool) (hash : String) : App Unit :=
  if dryRun then pure ()
  else do
    (LocalFsStore.deleteBlob hash).catchError fun _ => pure ()
    transact (.blobsDelete hash)

/-- The loop of `cleanup_blobs` over one batch. -/
def cleanupBatch (dryRun : Bool) : List String → GcReport → App GcReport
  | [], rep => pure rep
  | hash :: rest, rep => do
      freeBlob dryRun hash
      cleanupBatch dryRun rest { rep with freedBlobs := rep.freedBlobs + 1 }

/-- Delete blob files and rows whose refcount has reached zero. -/
def cleanupBlobs (dryRun : Bool) : Nat → GcReport → App GcReport
  | 0, _ => .spin
  | budget + 1, rep => do
      let batch ← transact (.blobsZeroRefcount 1000)
      if batch.isEmpty then pure rep
      else do
        let rep ← cleanupBatch dryRun batch rep
        if dryRun then pure rep
        else cleanupBlobs dryRun budget rep

/-! ## The two entry points -/

/-- The sweep below the mutex. -/
def sweep
    (config : GcConfig) (budget : Nat) (dryRun : Bool) : App GcReport := do
  let rep ← ttlPhase config dryRun .default
  let rep ← quotaPhase dryRun rep
  let rep ← globalPhase config dryRun rep
  let rep ← cleanupBlobs dryRun budget rep
  let usage ← transact .blobsTotalSize
  pure { rep with usageGlobalBytes := usage }

/-- Run one full sweep; the guard of the mutex is dropped on every way out. -/
def run
    (config : GcConfig) (budget : Nat) (dryRun : Bool) : App GcReport := do
  perform Call.gcLock
  (sweep config budget dryRun).ensuring (perform Call.gcUnlock)

/-- The loop of `orphan_scan` over the files without a row. -/
def removeDiskOrphans
    (dryRun : Bool) : List String → OrphanReport → App OrphanReport
  | [], rep => pure rep
  | hash :: rest, rep => do
      if dryRun then pure ()
      else (LocalFsStore.deleteBlob hash).catchError fun _ => pure ()
      removeDiskOrphans dryRun rest
        { rep with diskOrphansRemoved := rep.diskOrphansRemoved + 1 }

/-- The loop of `orphan_scan` over the rows without a file. -/
def purgeDbOrphans
    (dryRun : Bool) : List String → OrphanReport → App OrphanReport
  | [], rep => pure rep
  | hash :: rest, rep => do
      if dryRun then pure () else transact (.purge hash)
      purgeDbOrphans dryRun rest
        { rep with dbOrphansRemoved := rep.dbOrphansRemoved + 1 }

/-- `difference` of two hash sets, in the order of its iterator. -/
def difference (env : Env) (first second : List String) : List String :=
  env.scan (first.filter fun hash => !second.contains hash)

/-- The names of the files below `blobs`; none if the directory is not there. -/
def onDisk : App (List String) := do
  -- `Path::exists` answers `false` when it cannot tell
  let answer ← trySyscall .blobsExists
  match answer with
  | .ok true => syscall .walkBlobs
  | _ => pure []

/-- The scan below the mutex. -/
def scan (env : Env) (dryRun : Bool) : App OrphanReport := do
  let onDisk ← onDisk
  let dbHashes ← transact .blobsHashes
  let rep ← removeDiskOrphans dryRun (difference env onDisk dbHashes) ⟨0, 0⟩
  purgeDbOrphans dryRun (difference env dbHashes onDisk) rep

/-- Reconcile the blob directory with the database. -/
def orphanScan (env : Env) (dryRun : Bool) : App OrphanReport := do
  perform Call.gcLock
  (scan env dryRun).ensuring (perform Call.gcUnlock)

end GcSvc

end Marmotte
