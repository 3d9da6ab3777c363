import Marmotte.Concurrency.LinearCache
import Marmotte.Custody.Interference
import Mathlib.Data.Fintype.Basic
import Mathlib.Tactic.FinCases

/-!
# Misses

Where nothing is swept or scanned, a blob file that is there stays there.  A
read that is answered with a miss has then found no entry: the cache does not
lose a file that an entry points to, whatever the other clients do and whichever
calls fail.
-/

namespace Marmotte

open Effects Custody

namespace Misses

open LinearCache

/-! ## The environment -/

/-- A file is only reported as missing when it is. -/
def Genuine :
    (request : Call) → World → Except CoreError request.Reply → Prop
  | .fs (.openFile path), before, .error (.io .notFound) =>
      before.fs.read path = none
  | _, _, _ => True

/-- The answers of a runtime whose calls may fail, but that tells a missing file
from a failure. -/
def Honest (env : Env) (config : Config) :
    Answers Call Call.Reply CoreError World :=
  fun request before reply after =>
    Faulty env config request before reply after ∧
      Genuine request before reply

/-- Where nothing fails, what is reported as missing is missing. -/
theorem honest_of_exec
    {env : Env} {config : Config} {request : Call} {before after : World}
    {reply : Except CoreError request.Reply}
    (answered : exec env config request before = some (reply, after)) :
    Honest env config request before reply after := by
  refine ⟨.exact answered, ?_⟩
  cases request with
  | fs call =>
      cases call with
      | openFile path =>
          cases reply with
          | ok content => trivial
          | error error =>
              have same : (FsCall.exec env (.openFile path) before.fs).1 =
                  .error error := (Prod.mk.inj (Option.some.inj answered)).1
              simp only [FsCall.exec] at same
              split at same
              · cases same
              · cases same
                assumption
      | _ => trivial
  | _ => trivial

/-! ## What a reader knows -/

/-- There are uploads of these bodies and deletions, but neither sweeps nor
scans. -/
def setting (env : Env) (known : Set Bytes) : Setting :=
  ⟨env, known, True, False, False, True⟩

/-- The files of the entries that a task has found are there, and none that it
has opened was missing. -/
structure Served (past : Past) (world : World) : Prop where
  kept : ∀ entry, HasFound past entry → HasFile world entry.blobHash
  opened : ∀ path, (⟨.fs (.openFile path), .error (.io .notFound)⟩ :
    Answer Call Call.Reply CoreError) ∉ past

theorem served_nil (world : World) : Served [] world where
  kept := by
    rintro entry ⟨projectId, kind, path, among⟩
    cases among
  opened _ := List.not_mem_nil

section Steps

variable {env : Env} {known : Set Bytes} {config : Config}
variable {record other : Local} {past : Past} {request : Call}
variable {reply : Except CoreError request.Reply} {before after : World}

/-- Nothing is in the way of an upload. -/
theorem spares
    (owned : Owned (setting env known) record before)
    (foreign : Owned (setting env known) other before)
    (permitted : Custody.permits (setting env known) record request) :
    SparesSweeps request other ∧ SparesScans before record request other :=
  ⟨sparesSweeps_of_none id id owned foreign permitted,
    sparesScans_of_none id owned foreign⟩

/-- A blob file that is there stays. -/
theorem hasFile_step
    {hash : String} (owned : Owned (setting env known) record before)
    (permitted : Custody.permits (setting env known) record request)
    (answered : Faulty env config request before reply after)
    (present : HasFile before hash) : HasFile after hash := by
  cases request with
  | fs call =>
      refine (hasFile_before permitted answered present).resolve_right ?_
      rintro rfl
      -- Neither a sweep nor a scan has something to remove.
      rcases permitted with ⟨upload, -, impossible⟩ | ⟨_, -, listed⟩
      · exact blobPath_ne_tmpPath _ _ impossible
      · rw [owned.sweeping.resolve_left id,
          (owned.scanning.resolve_left id).2.1] at listed
        rcases listed with listed | listed <;> cases listed
  | _ =>
      rw [HasFile, Faulty.files (by rintro _ ⟨⟩) answered]
      exact present

theorem served_frame
    (served : Served past before)
    (owned : Owned (setting env known) record before)
    (permitted : Custody.permits (setting env known) record request)
    (answered : Faulty env config request before reply after) :
    Served past after where
  kept entry found :=
    hasFile_step owned permitted answered (served.kept entry found)
  opened := served.opened

theorem served_step
    (intact : Intact (setting env known) before)
    (served : Served past before)
    (owned : Owned (setting env known) record before)
    (permitted : Custody.permits (setting env known) record request)
    (looks : looking.permits past request)
    (answered : Honest env config request before reply after) :
    Served (looking.advance past request reply) after where
  kept entry found := by
    apply hasFile_step owned permitted answered.1
    obtain ⟨projectId, kind, path, among⟩ := found
    rcases List.mem_append.mp among with already | now
    · exact served.kept entry ⟨projectId, kind, path, already⟩
    · cases List.mem_singleton.mp now
      exact intact.kept entry (find_found answered.1)
  opened path among := by
    rcases List.mem_append.mp among with already | now
    · exact served.opened path already
    · cases List.mem_singleton.mp now
      obtain ⟨entry, found, rfl⟩ := looks path rfl
      obtain ⟨content, present⟩ := hasFile_iff.mp (served.kept entry found)
      have missing : before.fs.read (blobPath entry.blobHash) = none :=
        answered.2
      rw [missing] at present
      cases present

end Steps

/-! ## Runs -/

def protocol (env : Env) (known : Set Bytes) :
    Protocol Call Call.Reply CoreError (Local × Past) :=
  (Custody.protocol (setting env known)).both looking

/-- Every file that a reader has found an entry for stays where it is. -/
def discipline (env : Env) (config : Config) (known : Set Bytes) :
    Pool.Discipline (protocol env known) (Honest env config)
      (fun _ _ _ _ => True) where
  shared := Intact (setting env known)
  own record world :=
    Owned (setting env known) record.1 world ∧ Served record.2 world
  pair first second := Apart first.1 second.1
  step _ _ _ _ _ intact own permitted answered :=
    ⟨intact_step intact own.1 permitted.1 answered.1,
      own_step own.1 (fun _ => intact.covered) (fun _ => intact.digested)
        (fun scanned => scanned.elim) permitted.1 answered.1,
      served_step intact own.2 own.1 permitted.1 permitted.2 answered⟩
  frame record other request world reply after intact own foreign apart
      permitted _ answered := by
    have free := spares own.1 foreign.1 permitted.1
    exact ⟨foreign.1.stable (undisturbed own.1 foreign.1 apart permitted.1
      free.1 free.2 answered.1),
      served_frame foreign.2 own.1 permitted.1 answered.1⟩
  apart record other request world reply after intact own foreign apart
      permitted _ answered :=
    apart_step foreign.1 apart permitted.1
      (spares own.1 foreign.1 permitted.1).2 answered.1
  symm _ _ := Apart.symm

section Clients

variable {env : Env} {config : Config} {budget : Nat} {clients : ι → LinearCache.Client}

/-- Neither a sweep nor a scan is among the clients. -/
def Calm (clients : ι → LinearCache.Client) : Prop :=
  ∀ thread, clients thread ≠ .operation .gcRun ∧
    clients thread ≠ .operation .orphanScan

theorem custody_read
    {known : Set Bytes} {record : Local} {request : Call}
    (reads : readCalls request) :
    Custody.permits (setting env known) record request := by
  cases request with
  | fs call =>
      cases call with
      | openFile path => trivial
      | _ => cases reads
  | db call => cases call <;> trivial
  | _ => trivial

theorem client_custody
    (calm : Calm clients) (env : Env) (config : Config) (budget : Nat)
    (thread : ι) :
    ((clients thread).program env config budget).Follows
      (Custody.protocol (setting env (uploaded clients)))
      (fun _ _ => True) (fun _ _ => True) .idle := by
  cases client : clients thread with
  | read request =>
      have reads : request.program.Uses readCalls fun _ => True :=
        Yocto.read_uses _ _ _ _ _
      exact (reads.anywhere (fun _ _ => custody_read) Local.idle).bind
        fun _ _ _ => trivial
  | operation task =>
      have within : task.Within (setting env (uploaded clients)) := by
        cases task with
        | put request => exact ⟨thread, request, client, rfl⟩
        | gcRun => exact absurd client (calm thread).1
        | orphanScan => exact absurd client (calm thread).2
        | _ => trivial
      exact Operation.program_follows _ config budget task within

/-- No operation opens a file. -/
theorem operation_looks
    {task : Operation} {past : Past} {request : Call}
    (used : task.calls request) : looking.permits past request := by
  rintro path rfl
  cases task with
  | put upload => rcases used with used | used <;> cases used
  | createProject | deleteProject | deleteEntry | pin | unpin =>
      rcases used with same | same | ⟨_, _, _, _, _, same⟩ <;> cases same
  | updateProject =>
      rcases used with same | same | same | ⟨_, _, _, _, _, same⟩ <;> cases same
  | touch | gcRun | orphanScan | wait => cases used

theorem client_looks
    (env : Env) (config : Config) (budget : Nat) (client : LinearCache.Client) :
    (client.program env config budget).Follows looking
      (fun answer past => ∀ request response, client = .read request →
        answer = some response → Reads request past response)
      (fun _ _ => True) [] := by
  cases client with
  | read request =>
      refine (read_looks request).bind ?_
      rintro response past known _ _ ⟨⟩ ⟨⟩
      exact known
  | operation task =>
      refine ((task.program_uses env config budget).anywhere
        (fun _ _ => operation_looks) []).mono ?_ fun _ _ => id
      rintro answer past - _ _ ⟨⟩

end Clients

/-- Without sweeps and scans a read is a miss only if there was no entry under
its key at some instant of the read, whatever the other clients do and whichever
calls fail. -/
theorem misses_are_absences
    [DecidableEq ι]
    {env : Env} {config : Config} {budget : Nat} {now : Int}
    {clients : ι → LinearCache.Client} (calm : Calm clients)
    {moments : Steps ι} {pool : Tasks ι}
    (ran : Pool.Run (Program.within fun _ => True) (Honest env config)
      (launch env config budget now clients) moments pool)
    {thread : ι} {request : ReadRequest}
    (client : clients thread = .read request) {response : Response}
    (ended : pool.threads thread = .done (some response))
    (missing : response.status = 404) :
    ∃ moment ∈ moments, moment.thread = thread ∧
      moment.event.before.db.entryAt request.key = none := by
  obtain ⟨records, observed⟩ := ran.observed (protocol env (uploaded clients))
    fun _ => (Local.idle, [])
  have idle : (discipline env config (uploaded clients)).own
      (Local.idle, []) (World.initial now) :=
    ⟨owned_idle _ _, served_nil _⟩
  have launched := Pool.disciplined_launch
    (discipline env config (uploaded clients))
    (intact_initial (setting env (uploaded clients)) now) idle
    (apart_idle Local.idle) fun thread =>
      (client_custody calm env config budget thread).both
        (client_looks env config budget (clients thread))
  have kept := launched.reaches
    (observed.reaches.mono fun _ _ _ _ _ _ _ => trivial)
  have known := (kept.ended ended).2 request response client rfl
  have served := (kept.own thread (by simp [Pool.Live, ended])).2
  have recorded : (records thread).2 =
      (moments.filter fun moment => moment.thread = thread).map fun moment =>
        ⟨moment.event.request, moment.event.reply⟩ :=
    observed.recorded Prod.snd (fun _ _ _ => rfl) rfl
  -- An answer of the read was given at one of its steps.
  have given {answer : Answer Call Call.Reply CoreError}
      (among : answer ∈ (records thread).2) :
      ∃ before after, Faulty env config answer.request before answer.reply
          after ∧ ∃ moment ∈ moments, moment.thread = thread ∧
            moment.event.before = before := by
    rw [recorded] at among
    obtain ⟨moment, within, rfl⟩ := List.mem_map.mp among
    obtain ⟨present, own⟩ := List.mem_filter.mp within
    obtain ⟨_, _, before, after, -, -, step, same, -⟩ := ran.moment present
    obtain ⟨-, answered⟩ := step
    exact ⟨_, _, answered.1, moment, present, of_decide_eq_true own, same.symm⟩
  generalize (records thread).2 = past at known served given
  cases known with
  | refused reason =>
      simp [respond, CoreError.intoResponse, CoreError.statusAndTitle]
        at missing
  | unavailable error =>
      obtain ⟨before, after, failed, -⟩ := given List.mem_cons_self
      rw [find_refused failed] at missing
      simp [respond, CoreError.intoResponse, CoreError.statusAndTitle]
        at missing
  | absent =>
      obtain ⟨before, after, found, moment, present, own, rfl⟩ :=
        given List.mem_cons_self
      exact ⟨moment, present, own, find_absent found⟩
  | unreadable entry full cause =>
      obtain ⟨before, after, failed, -⟩ :=
        given (List.mem_cons_of_mem _ List.mem_cons_self)
      obtain ⟨cause, rfl⟩ := open_refused failed
      cases cause with
      | notFound =>
          exact absurd (List.mem_cons_of_mem _ List.mem_cons_self)
            (served.opened _)
      | other =>
          simp [respond, unread, CoreError.intoResponse,
            CoreError.statusAndTitle] at missing
  | unspawned entry content error =>
      obtain ⟨before, after, spawned, -⟩ := given
        (List.mem_cons_of_mem _ (List.mem_cons_of_mem _ List.mem_cons_self))
      cases spawned with
      | exact spawned => cases spawned
  | probed | served => simp [hitResponse] at missing

/-! ## A download before the commit -/

/-- The task has answered 404. -/
def missed : App (Option Response) → Bool
  | .done (some response) => response.status = 404
  | _ => false

theorem missed_spec
    {program : App (Option Response)} (known : missed program = true) :
    ∃ response, program = .done (some response) ∧ response.status = 404 := by
  unfold missed at known
  split at known
  · exact ⟨_, rfl, of_decide_eq_true known⟩
  · cases known

/-- The download comes before the upload has committed its entry. -/
theorem misses_are_absences_early :
    ∃ (moments : Steps (Fin 3)) (pool : Tasks (Fin 3)),
      pool.world.fs.has (blobPath (Sample.env.sha256 [97])) = true ∧
      ∃ moment ∈ moments, moment.thread = 2 ∧
        moment.event.before.db.entryAt ⟨1, .sstate, "first"⟩ = none := by
  have ran : ((Pool.replay (Program.within fun _ => True)
      (exec Sample.env (Sample.config 1024)) (fun _ _ _ => true)
      ([0, 0] ++ List.replicate 8 1 ++ [2])
      (launch Sample.env (Sample.config 1024) 1 1000 overlapping)).any
        fun pool => missed (pool.threads 2) &&
          pool.world.fs.has (blobPath (Sample.env.sha256 [97]))) = true := by
    decide +kernel
  rw [Option.any_eq_true] at ran
  obtain ⟨pool, replayed, outcome⟩ := ran
  rw [Bool.and_eq_true] at outcome
  obtain ⟨response, ended, missing⟩ := missed_spec outcome.1
  have contained (request : Call) (before : World)
      (reply : Except CoreError request.Reply) (after : World)
      (answered : exec Sample.env (Sample.config 1024) request before =
        some (reply, after)) :
      Honest Sample.env (Sample.config 1024) request before reply after :=
    honest_of_exec answered
  have reached : Pool.Reaches (Program.within fun _ => True)
      (Honest Sample.env (Sample.config 1024)) (fun _ _ _ => True)
      (launch Sample.env (Sample.config 1024) 1 1000 overlapping) pool :=
    Pool.reaches_of_free_replay contained replayed
  obtain ⟨moments, ran⟩ := reached.run
  have calm : Calm overlapping := by
    intro thread
    fin_cases thread <;> exact ⟨by rintro ⟨⟩, by rintro ⟨⟩⟩
  exact ⟨moments, pool, outcome.2,
    misses_are_absences calm ran (show overlapping 2 = .read _ from rfl) ended
      missing⟩

end Misses

end Marmotte
