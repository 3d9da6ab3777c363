import Marmotte.Concurrency.Clients
import Marmotte.Frames
import Mathlib.Algebra.BigOperators.Fin

/-!
# Usage counters

What `GET /stats/projects/{id}` reports after any run of requests.  Uploads are
counted by the transaction that follows their upsert, so the reported uploads
are those answered 201, unless the query for the total size fails after the
count.  Downloads are counted by nobody: the reported hits are those answered
200 only if there are none.
-/

namespace Marmotte

open Effects Tables

namespace Stats

/-- The counts of some counter rows. -/
def totals (counters : List StatsCounter) : Int × Int :=
  ((counters.map StatsCounter.count).sum, (counters.map StatsCounter.bytes).sum)

theorem totals_append (first second : List StatsCounter) :
    totals (first ++ second) = totals first + totals second := by
  simp [totals]

theorem totals_perm
    {first second : List StatsCounter} (permuted : first.Perm second) :
    totals first = totals second := by
  simp only [totals, (permuted.map _).sum_eq]

theorem sum_eq_totals
    (db : Db) (projectId : Option Int) (kind : String) (since : Int) :
    sum db projectId kind since =
      totals (db.statsCounters.rows.filter (sums projectId kind since)) := rfl

/-- The counts of the selected rows among a row and others. -/
theorem totals_filter_cons
    (selects : StatsCounter → Bool) (counter : StatsCounter)
    (rest : List StatsCounter) :
    totals ((counter :: rest).filter selects) =
      (if selects counter then (counter.count, counter.bytes) else 0) +
        totals (rest.filter selects) := by
  rw [List.filter_cons]
  split
  · simp [totals]
  · simp

/-- What a selection of rows depends on: the owner, the kind and the day. -/
def Keyed (selects : StatsCounter → Bool) : Prop :=
  ∀ first second : StatsCounter, first.projectId = second.projectId →
    first.kind = second.kind → first.bucketDay = second.bucketDay →
      selects first = selects second

theorem sums_keyed (asked : Option Int) (askedKind : String) (since : Int) :
    Keyed (sums asked askedKind since) := by
  intro first second project kind day
  simp only [sums, project, kind, day]

/-- A statement on the counters adds to one row or inserts a row. -/
theorem upsertCounter_rows
    {db after : Db} {projectId : Option Int} {kind : String}
    {day count bytes : Int}
    (stored : db.upsertCounter projectId kind day count bytes = .ok after) :
    (∃ counter rest,
      db.statsCounters.rows.Perm (counter :: rest) ∧
      after.statsCounters.rows.Perm
        ({ counter with
          count := counter.count + count
          bytes := counter.bytes + bytes } :: rest) ∧
      counter.projectId = projectId ∧ counter.kind = kind ∧
      counter.bucketDay = day) ∨
    ∃ id, after.statsCounters.rows =
      db.statsCounters.rows ++ [⟨id, projectId, kind, day, count, bytes⟩] := by
  unfold Db.upsertCounter at stored
  split at stored
  · split at stored
    · rename_i counter found
      cases stored
      obtain ⟨present, same⟩ := Table.mem_of_find? found
      simp only [decide_eq_true_eq] at same
      have only : ∀ other ∈ db.statsCounters.rows,
          decide (other.id = counter.id) = true ↔ other = counter := by
        intro other otherPresent
        rw [decide_eq_true_eq]
        exact ⟨db.statsCounters.eq_of_id otherPresent present,
          congrArg StatsCounter.id⟩
      refine .inl ⟨counter, _, Table.perm_delete _ _ present only,
        Table.perm_update _ _ _ (fun first second clash => ?_) present only,
        same.2⟩
      split at clash <;> split at clash <;> exact clash
    · cases stored
      exact .inr ⟨_, rfl⟩
  · cases stored

/-- A bump adds to the counts of every selection that its counter is part
of. -/
theorem totals_bump
    {now count bytes : Int} {db after : Db} {projectId : Option Int}
    {kind : String} {reply : Unit} {selects : StatsCounter → Bool}
    (keyed : Keyed selects)
    (bumped : bump now db projectId kind count bytes = .ok (reply, after)) :
    totals (after.statsCounters.rows.filter selects) =
      totals (db.statsCounters.rows.filter selects) +
        if selects ⟨0, projectId, kind, now.tdiv 86400, count, bytes⟩ then
          (count, bytes)
        else 0 := by
  simp only [bump, bind, Except.bind] at bumped
  split at bumped
  · cases bumped
  rename_i written stored
  cases bumped
  rcases upsertCounter_rows stored with
    ⟨counter, rest, before, written, project, sameKind, day⟩ | ⟨id, inserted⟩
  · have added : selects
        { counter with
          count := counter.count + count
          bytes := counter.bytes + bytes } = selects counter :=
      keyed _ _ rfl rfl rfl
    have selected : selects
        ⟨0, projectId, kind, now.tdiv 86400, count, bytes⟩ =
          selects counter :=
      keyed _ _ project.symm sameKind.symm day.symm
    rw [totals_perm (written.filter _), totals_perm (before.filter _),
      totals_filter_cons, totals_filter_cons, added, selected]
    split
    · rw [← Prod.mk_add_mk]
      exact add_right_comm _ _ _
    · simp
  · have selected : selects ⟨id, projectId, kind, now.tdiv 86400, count, bytes⟩ =
        selects ⟨0, projectId, kind, now.tdiv 86400, count, bytes⟩ :=
      keyed _ _ rfl rfl rfl
    rw [inserted, List.filter_append, totals_append, totals_filter_cons,
      selected, List.filter_nil]
    exact congrArg _ (add_zero _)

/-- A bump adds to the sums that its counter is part of, and to no other. -/
theorem sum_bump
    {now count bytes : Int} {db after : Db} {projectId : Option Int}
    {kind : String} {reply : Unit}
    (bumped : bump now db projectId kind count bytes = .ok (reply, after))
    (asked : Option Int) (askedKind : String) (since : Int) :
    sum after asked askedKind since =
      sum db asked askedKind since +
        if sums asked askedKind since
            ⟨0, projectId, kind, now.tdiv 86400, count, bytes⟩ then
          (count, bytes)
        else 0 := by
  rw [sum_eq_totals, sum_eq_totals]
  exact totals_bump (sums_keyed asked askedKind since) bumped

end Stats

namespace UsageCounters

/-! ## What a thread has counted -/

/-- A committed bump of a counter. -/
structure Bump where
  projectId : Option Int
  kind : String
  count : Int
  bytes : Int
  deriving DecidableEq, Repr

/-- The bumps of a thread, whether it is an upload, whether it has opened a
file, and whether one of its calls failed after a bump. -/
structure Local where
  uploads : Bool
  bumps : List Bump
  opened : Bool
  disturbed : Bool
  deriving DecidableEq, Repr

/-- Only uploads bump, and no project is deleted. -/
def permits (record : Local) : Call → Prop
  | .db (.projectsDelete _) => False
  | .db (.statsBump ..) => record.uploads = true
  | _ => True

/-- What a call that succeeds adds to the record. -/
def learn (record : Local) : Call → Local
  | .db (.statsBump projectId kind count bytes) =>
      { record with bumps := ⟨projectId, kind, count, bytes⟩ :: record.bumps }
  | .fs (.openFile _) => { record with opened := true }
  | _ => record

def advance (record : Local) (request : Call) :
    Except CoreError request.Reply → Local
  | .ok _ => learn record request
  | .error _ =>
      { record with disturbed := record.disturbed || !record.bumps.isEmpty }

def protocol : Protocol Call Call.Reply CoreError Local where
  permits := permits
  advance := advance

/-- What a thread has added to a counter of a project. -/
def credit (id : Int) (kind : String) (record : Local) : Int × Int :=
  ((record.bumps.filter fun bump =>
    decide (bump.projectId = some id ∧ bump.kind = kind)).map fun bump =>
      (bump.count, bump.bytes)).sum

/-- Only a bump that commits is recorded as one. -/
theorem bumps_advance
    (record : Local) {request : Call}
    (reply : Except CoreError request.Reply) :
    (advance record request reply).bumps = record.bumps ∨
      ∃ projectId kind count bytes,
        request = .db (.statsBump projectId kind count bytes) ∧
        (∃ value, reply = .ok value) ∧
        (advance record request reply).bumps =
          ⟨projectId, kind, count, bytes⟩ :: record.bumps := by
  cases reply with
  | error error => exact .inl rfl
  | ok value =>
      simp only [advance, learn]
      split
      · exact .inr ⟨_, _, _, _, rfl, ⟨_, rfl⟩, rfl⟩
      · exact .inl rfl
      · exact .inl rfl

theorem uploads_advance
    (record : Local) (request : Call)
    (reply : Except CoreError request.Reply) :
    (advance record request reply).uploads = record.uploads := by
  cases reply with
  | error error => rfl
  | ok value =>
      simp only [advance, learn]
      split <;> rfl

/-- Only a read of a file that succeeds is recorded as one. -/
theorem opened_advance
    (record : Local) {request : Call}
    (reply : Except CoreError request.Reply) :
    (advance record request reply).opened = record.opened ∨
      ∃ path, request = .fs (.openFile path) ∧ ∃ value, reply = .ok value := by
  cases reply with
  | error error => exact .inl rfl
  | ok value =>
      simp only [advance, learn]
      split
      · exact .inl rfl
      · exact .inr ⟨_, rfl, _, rfl⟩
      · exact .inl rfl

section Steps

variable {env : Env} {config : Config} {record : Local} {request : Call}
variable {before after : World} {reply : Except CoreError request.Reply}

theorem credit_of_bumps
    {first second : Local} (same : first.bumps = second.bumps)
    (id : Int) (kind : String) : credit id kind first = credit id kind second := by
  rw [credit, credit, same]

theorem credit_cons
    {next : Local} {bump : Bump}
    (added : next.bumps = bump :: record.bumps) (id : Int) (kind : String) :
    credit id kind next =
      (if bump.projectId = some id ∧ bump.kind = kind then
        (bump.count, bump.bytes)
      else 0) + credit id kind record := by
  rw [credit, credit, added, List.filter_cons]
  by_cases counts : bump.projectId = some id ∧ bump.kind = kind
  · simp [counts]
  · simp [counts]

/-- A call that is not a bump keeps the counters. -/
theorem counters_kept
    (permitted : permits record request)
    (unbumped : (advance record request reply).bumps = record.bumps)
    (answered : Faulty env config request before reply after) :
    after.db.statsCounters = before.db.statsCounters := by
  cases request with
  | db call =>
      rcases Faulty.db_cases answered with
        ⟨value, db, ran, rfl, rfl⟩ | ⟨_, rfl, rfl⟩
      · cases call with
        | projectsDelete id => cases permitted
        | statsBump projectId kind count bytes =>
            exact absurd unbumped (List.cons_ne_self _ _)
        | _ => exact (DbCall.exec_frame ran).statsCounters (by simp [DbCall.writes])
      · rfl
  | _ =>
      rcases Faulty.commits answered with same | ⟨_, _, isDb, _⟩
      · rw [same]
      · cases isDb

/-- A step changes the sum over a counter by what the thread has added. -/
theorem counted_step
    (later : 0 ≤ before.now)
    (permitted : permits record request)
    (answered : Faulty env config request before reply after)
    (id : Int) (kind : String) :
    Stats.sum after.db (some id) kind 0 + credit id kind record =
      Stats.sum before.db (some id) kind 0 +
        credit id kind (advance record request reply) := by
  rcases bumps_advance record reply with
    unbumped | ⟨owner, bumped, count, bytes, rfl, ⟨value, rfl⟩, added⟩
  · rw [Stats.sum, Stats.sum, counters_kept permitted unbumped answered,
      credit_of_bumps unbumped]
  · rcases Faulty.db_cases answered with
      ⟨_, db, ran, -, rfl⟩ | ⟨_, failed, -⟩
    · have day : (0 : Int) ≤ before.now.tdiv 86400 :=
        Int.tdiv_nonneg later (by decide)
      rw [Stats.sum_bump ran, add_assoc, credit_cons added]
      simp [Stats.sums, day, and_comm]
    · cases failed

end Steps

/-! ## What the clients count -/

/-- The calls that neither bump nor open a file. -/
def Plain : Call → Prop
  | .db (.projectsDelete _) => False
  | .db (.statsBump ..) => False
  | .fs (.openFile _) => False
  | _ => True

theorem plain_of_upload
    {request : Call} (used : uploadCalls request) : Plain request := by
  unfold Plain
  split <;> first | exact used | trivial

theorem plain_of_sweep
    {request : Call} (used : sweepCalls request) : Plain request := by
  unfold Plain
  split <;> first | exact used | trivial

theorem permits_plain
    {record : Local} {request : Call} (plain : Plain request) :
    permits record request := by
  unfold permits
  split <;> first | exact plain.elim | trivial

/-- A plain call teaches a thread without a bump nothing. -/
theorem advance_plain
    {record : Local} {request : Call} (plain : Plain request)
    (unbumped : record.bumps = []) (reply : Except CoreError request.Reply) :
    advance record request reply = record := by
  cases reply with
  | error error =>
      obtain ⟨uploads, bumps, opened, disturbed⟩ := record
      cases unbumped
      simp [advance]
  | ok value =>
      simp only [advance, learn]
      split
      · exact plain.elim
      · exact plain.elim
      · rfl

/-- A part of a program that makes plain calls leaves the record alone. -/
theorem plain_follows
    {program : App α} {post : α → Prop} {record : Local}
    (uses : program.Uses Plain post) (unbumped : record.bumps = []) :
    program.Follows protocol (fun value last => post value ∧ last = record)
      (fun _ last => last = record) record :=
  uses.follows (fun _ plain => permits_plain plain)
    fun _ plain => advance_plain plain unbumped

/-- The bump of an upload. -/
def uploadBump (request : PutRequest) : Bump :=
  ⟨some request.auth.projectId, "put", 1, request.body.bytes.length⟩

/-- Unless it was disturbed, an upload has counted exactly when it was answered
201. -/
def Counted
    (request : PutRequest) (response : Response) (last : Local) : Prop :=
  last.disturbed = false →
    last.bumps = if response.status = 201 then [uploadBump request] else []

theorem doPut_follows
    (env : Env) (config : Config) (request : PutRequest) (record : Local)
    (uploads : record.uploads = true) (unbumped : record.bumps = []) :
    (Yocto.doPut env config request.auth request.kind request.project
      request.path request.body).Follows protocol (Counted request)
      (fun _ last => last.disturbed = false → last.bumps = []) record := by
  unfold Yocto.doPut Yocto.ensureProject
  by_cases named : request.auth.projectName ≠ request.project
  · rw [if_pos named]
    exact fun _ => unbumped
  rw [if_neg named, Program.pure_eq, Program.done_bind]
  cases request.auth.role.allowsWrite with
  | false => exact fun _ => unbumped
  | true =>
  simp only [Bool.not_true, Bool.false_eq_true, if_false]
  have written := plain_follows
    ((LocalFsStore.writeStreamed_uses env request.body).mono
      (fun _ => plain_of_upload) fun _ => id) unbumped
  refine Program.Follows.bind (written.mono (fun _ _ => id) ?_) ?_
  · rintro _ _ rfl _
    exact unbumped
  rintro _ record ⟨rfl, rfl⟩
  refine Program.follows_perform_next trivial (fun entry => ?_)
    fun _ _ => unbumped
  refine Program.follows_perform_next uploads (fun _ => ?_)
    fun _ _ => unbumped
  have counted : (learn record
      (.db (.statsBump (some request.auth.projectId) "put" 1
        request.body.bytes.length))).bumps = [uploadBump request] := by
    simp [learn, unbumped, uploadBump]
  refine Program.follows_perform_next trivial (fun total => ?_) ?_
  · split
    · refine Program.follows_perform_next trivial (fun _ _ => counted) ?_
      intro error undisturbed
      simp [protocol, advance, learn] at undisturbed
    · exact fun _ => counted
  · intro error undisturbed
    simp [protocol, advance, learn] at undisturbed

theorem put_follows
    (env : Env) (config : Config) (request : PutRequest) (record : Local)
    (uploads : record.uploads = true) (unbumped : record.bumps = []) :
    (request.program env config).Follows protocol
      (fun answer last => ∀ response, answer = some response →
        Counted request response last) (fun _ _ => True) record := by
  have handled : (Yocto.put env config request.auth request.kind
      request.project request.path request.body).Follows protocol
        (Counted request) (fun _ _ => True) record := by
    refine Program.Follows.catchError
      (doPut_follows env config request record uploads unbumped) ?_
    intro error last untouched undisturbed
    rw [if_neg (CoreError.intoResponse_ne (by decide) error)]
    exact untouched undisturbed
  refine Program.Follows.bind handled ?_
  rintro response last counted _ ⟨⟩
  exact counted

/-- A download is answered 200 only after it opened a file. -/
theorem read_follows (request : ReadRequest) (record : Local) :
    request.program.Follows protocol
      (fun response last => request.headOnly = false →
        response.status = 200 → last.opened = true)
      (fun _ _ => True) record := by
  refine @Program.Follows.catchError _ _ _ _ _ _ _ _ _ _ (fun _ _ => True) _
    ?_ ?_
  · unfold Yocto.getOne Yocto.ensureProject
    split
    · trivial
    rw [Program.pure_eq, Program.done_bind]
    split
    · trivial
    refine Program.follows_perform_then trivial fun found => ?_
    split
    · trivial
    simp only
    split
    · rename_i headOnly
      exact fun download => by simp [headOnly] at download
    · rename_i entry _
      have opening : (LocalFsStore.readBlob entry.blobHash).Follows protocol
          (fun _ last => last.opened = true) (fun _ _ => True) record := by
        refine @Program.Follows.catchError _ _ _ _ _ _ _ _ _ _
          (fun _ _ => True) _
          (Program.follows_perform trivial (fun _ => rfl) fun _ => trivial) ?_
        intro error _ _
        split <;> trivial
      refine Program.Follows.bind opening fun content last opened => ?_
      exact Program.follows_perform_then trivial fun _ _ _ => opened
  · intro error last _
    split
    · exact fun _ missed => by simp [Yocto.missResponse] at missed
    · exact fun _ succeeded =>
        absurd succeeded (CoreError.intoResponse_ne (by decide) _)

/-- Only uploads are counted. -/
def isUpload : Client → Bool
  | .put _ => true
  | _ => false

/-- The record of a client that is about to start. -/
def idle (client : Client) : Local := ⟨isUpload client, [], false, false⟩

/-- What a client's answer says about its record. -/
def Reported (client : Client) (answer : Option Response) (last : Local) :
    Prop :=
  ∀ response, answer = some response →
    match client with
    | .put request => Counted request response last
    | .read request => request.headOnly = false →
        response.status = 200 → last.opened = true
    | _ => True

theorem client_follows
    (env : Env) (config : Config) (budget : Nat) (client : Client) :
    (client.program env config budget).Follows protocol (Reported client)
      (fun _ _ => True) (idle client) := by
  cases client with
  | read request =>
      refine (read_follows request _).bind ?_
      rintro response last opened _ ⟨⟩
      exact opened
  | put request => exact put_follows env config request _ rfl rfl
  | deleteEntry auth id eid =>
      have deletes : (Admin.deleteEntry auth id eid).Uses Plain
          fun _ => True :=
        Program.uses_perform_then trivial fun _ =>
          Program.uses_perform_then trivial fun _ =>
            Program.uses_perform trivial fun _ => trivial
      exact (plain_follows deletes rfl).anyway.bind
        fun _ _ _ _ _ => trivial
  | touch id =>
      exact Program.follows_perform_then trivial fun _ _ _ => trivial
  | gcRun =>
      have sweeps := (GcSvc.run_sweeps config.gc budget false).mono
        (fun _ => plain_of_sweep) fun _ => id
      exact (plain_follows sweeps rfl).anyway.bind fun _ _ _ _ _ => trivial
  | wait nanos =>
      exact Program.follows_perform_then trivial fun _ _ _ => trivial

/-! ## Runs -/

/-- The clients, none of them started. -/
def launch
    (env : Env) (config : Config) (budget : Nat) (clients : ι → Client)
    (world : World) :
    Pool ι Call Call.Reply CoreError (Option Response) World Local where
  world := world
  threads thread := (clients thread).program env config budget
  records thread := idle (clients thread)

/-- The call opens a file that is there. -/
def opens (world : World) : Call → Bool
  | .fs (.openFile path) => world.fs.has path
  | _ => false

section Runs

variable [DecidableEq ι]
variable {env : Env} {config : Config} {budget : Nat} {clients : ι → Client}
variable {world : World}
variable
  {allowed : Pool ι Call Call.Reply CoreError (Option Response) World Local →
    ι → Call → Prop}
variable
  {pool : Pool ι Call Call.Reply CoreError (Option Response) World Local}

/-- Nobody but an upload has counted anything. -/
theorem uploads_only
    (reached : Pool.Reaches protocol (Faulty env config) allowed
      (launch env config budget clients world) pool) (thread : ι) :
    (pool.records thread).uploads = isUpload (clients thread) ∧
      (isUpload (clients thread) = false →
        (pool.records thread).bumps = []) := by
  have known := @Pool.Reaches.records ι _ _ _ _ _ _ _ protocol
    (Faulty env config) allowed (fun thread => Reported (clients thread))
    (launch env config budget clients world) pool
    (fun thread record =>
      record.uploads = isUpload (clients thread) ∧
        (isUpload (clients thread) = false → record.bumps = []))
  refine known ?_ (fun thread => client_follows env config budget _)
    (fun thread => ⟨rfl, fun _ => rfl⟩) reached thread
  rintro pool thread request reply after ⟨same, unbumped⟩ _ permitted _
  refine ⟨(uploads_advance _ _ _).trans same, fun reads => ?_⟩
  rcases bumps_advance (pool.records thread) reply with
    kept | ⟨_, _, _, _, rfl, -, -⟩
  · exact kept.trans (unbumped reads)
  · rw [reads] at same
    exact absurd (same.symm.trans permitted) (by decide)

/-- As long as no step opens a file that is there, no thread has opened one. -/
theorem unopened
    (reached : Pool.Reaches protocol (Faulty env config)
      (fun pool _ request => opens pool.world request = false)
      (launch env config budget clients world) pool) (thread : ι) :
    (pool.records thread).opened = false := by
  have known := @Pool.Reaches.records ι _ _ _ _ _ _ _ protocol
    (Faulty env config) (fun pool _ request => opens pool.world request = false)
    (fun thread => Reported (clients thread))
    (launch env config budget clients world) pool
    (fun _ record => record.opened = false)
  refine known ?_ (fun thread => client_follows env config budget _)
    (fun _ => rfl) reached thread
  intro pool thread request reply after closed missing _ answered
  rcases opened_advance (pool.records thread) reply with
    kept | ⟨path, rfl, content, rfl⟩
  · exact kept.trans closed
  · rcases Faulty.fs_cases answered with ⟨read, -⟩ | ⟨_, failed, -⟩
    · have absent : pool.world.fs.read path = none := by
        simpa [opens, Fs.has] using missing
      simp [FsCall.exec, absent] at read
    · cases failed

end Runs

/-! ## What the endpoint reports -/

/-- What an upload adds to the counters of a project: one event and the bytes
of its body if it was answered 201. -/
def stored (id : Int) : Client → App (Option Response) → Int × Int
  | .put request, .done (some response) =>
      if request.auth.projectId = id ∧ response.status = 201 then
        (1, request.body.bytes.length)
      else 0
  | _, _ => 0

/-- The number of bytes in a response. -/
def contentLength (response : Response) : Int :=
  match response.payload with
  | .stream content => content.length
  | _ => 0

/-- What a download adds: one event and its bytes if it was answered 200. -/
def served (id : Int) : Client → App (Option Response) → Int × Int
  | .read request, .done (some response) =>
      if request.headOnly = false ∧ request.auth.projectId = id ∧
          response.status = 200 then
        (1, contentLength response)
      else 0
  | _, _ => 0

/-- The client is a request. -/
def isRequest : Client → Bool
  | .read _ => true
  | .put _ => true
  | _ => false

/-- The reported counters of a project are those of the requests. -/
def Faithful
    [Fintype ι] (env : Env) (config : Config) (clients : ι → Client)
    (pool : Pool ι Call Call.Reply CoreError (Option Response) World Local)
    (id : Int) : Prop :=
  ∃ report,
    (Admin.projectStats id).run (exec env config) pool.world =
      (.done report, pool.world) ∧
    (report.puts, report.putsBytes) =
      ∑ thread, stored id (clients thread) (pool.threads thread) ∧
    (report.hits, report.hitsBytes) =
      ∑ thread, served id (clients thread) (pool.threads thread)

theorem run_projectStats
    {env : Env} {config : Config} {world : World} {project : Project}
    (present : project ∈ world.db.projects.rows) :
    ∃ report,
      (Admin.projectStats project.id).run (exec env config) world =
        (.done report, world) ∧
      (report.hits, report.hitsBytes) =
        Stats.sum world.db (some project.id) "hit" 0 ∧
      (report.puts, report.putsBytes) =
        Stats.sum world.db (some project.id) "put" 0 := by
  have found : world.db.projects.find?
      (fun other => decide (other.id = project.id)) = some project :=
    Table.find?_of_mem present (by simp) fun other selected =>
      .inl (of_decide_eq_true selected)
  have got : DbCall.exec env world.now (.projectsGet project.id) world.db =
      .ok (project, world.db) := by
    simp only [DbCall.exec, Projects.get, found, Except.map]
  refine ⟨⟨(project.id, project.name, project.quotaBytes),
    Entries.projectUsage world.db project.id, _, _, _, _⟩, ?_, rfl, rfl⟩
  unfold Admin.projectStats
  rw [Program.run_bind_done (run_transact got)]
  rfl

section Reports

variable [DecidableEq ι]
variable {env : Env} {config : Config} {budget : Nat} {clients : ι → Client}
variable {start : World}
variable
  {allowed : Pool ι Call Call.Reply CoreError (Option Response) World Local →
    ι → Call → Prop}
variable
  {pool : Pool ι Call Call.Reply CoreError (Option Response) World Local}

/-- In every state a sum over a counter is what the threads have added. -/
theorem sum_eq_credits
    [Fintype ι]
    (fresh : start.db.statsCounters.rows = []) (clock : 0 ≤ start.now)
    (reached : Pool.Reaches protocol (Faulty env config) allowed
      (launch env config budget clients start) pool)
    (id : Int) (kind : String) :
    Stats.sum pool.world.db (some id) kind 0 =
      ∑ thread, credit id kind (pool.records thread) := by
  have kept : ∀ record request (world : World) reply after,
      0 ≤ world.now → permits record request →
        Faulty env config request world reply after →
          0 ≤ after.now ∧
            Stats.sum after.db (some id) kind 0 + credit id kind record =
              Stats.sum world.db (some id) kind 0 +
                credit id kind (advance record request reply) := by
    intro record request world reply after later permitted answered
    exact ⟨later.trans (Faulty.clock answered),
      counted_step later permitted answered id kind⟩
  have balanced := Pool.Reaches.balances
    (fun world => Stats.sum world.db (some id) kind 0) (credit id kind) kept
    (fun thread => client_follows env config budget (clients thread))
    clock reached
  have empty : Stats.sum start.db (some id) kind 0 = 0 := by
    rw [Stats.sum, fresh]
    rfl
  have idles : ∑ thread, credit id kind
      ((launch env config budget clients start).records thread) = 0 :=
    Finset.sum_eq_zero fun _ _ => rfl
  rw [idles, add_zero] at balanced
  exact balanced.2.trans (by rw [launch, empty, zero_add])

/-- A thread that was answered has added what its answer says. -/
theorem credit_of_answered
    (reached : Pool.Reaches protocol (Faulty env config) allowed
      (launch env config budget clients start) pool)
    {thread : ι} (calm : (pool.records thread).disturbed = false)
    (answered : isRequest (clients thread) = true →
      ∃ response, pool.threads thread = .done (some response))
    (id : Int) (kind : String) :
    credit id kind (pool.records thread) =
      if kind = "put" then stored id (clients thread) (pool.threads thread)
      else 0 := by
  have only := (uploads_only reached thread).2
  cases client : clients thread with
  | put request =>
      rw [client] at answered
      obtain ⟨response, ended⟩ := answered rfl
      have follows := Pool.Reaches.follows
        (fun thread => client_follows env config budget (clients thread))
        reached thread
      rw [ended] at follows
      have counted := follows response rfl
      rw [client] at counted
      have bumps := counted calm
      rw [credit, bumps, ended, stored]
      by_cases created : response.status = 201
      · by_cases ours : request.auth.projectId = id
        · by_cases put : kind = "put"
          · simp [created, ours, put, uploadBump]
          · simp [created, put, uploadBump, Ne.symm put]
        · simp [created, ours, uploadBump]
      · simp [created]
  | _ =>
      rw [client] at only
      simp [credit, only rfl, stored]

/-- While no step opens a file that is there, no download is answered 200. -/
theorem served_of_unopened
    (reached : Pool.Reaches protocol (Faulty env config)
      (fun pool _ request => opens pool.world request = false)
      (launch env config budget clients start) pool)
    (id : Int) (thread : ι) :
    served id (clients thread) (pool.threads thread) = 0 := by
  unfold served
  split
  · rename_i request response client ended
    rw [if_neg]
    rintro ⟨download, -, succeeded⟩
    have follows := Pool.Reaches.follows
      (fun thread => client_follows env config budget (clients thread))
      reached thread
    rw [ended] at follows
    have reported := follows response rfl
    rw [client] at reported
    have opened := reported download succeeded
    rw [unopened reached thread] at opened
    cases opened
  · rfl

/-- While no download opens a file, and unless a call of an upload fails after
it was counted, the reported counters are those of the requests. -/
theorem counters_faithful
    [Fintype ι]
    (env : Env) (config : Config) (budget : Nat) (clients : ι → Client)
    (start : World)
    (fresh : start.db.statsCounters.rows = []) (clock : 0 ≤ start.now)
    (pool : Pool ι Call Call.Reply CoreError (Option Response) World Local)
    (reached : Pool.Reaches protocol (Faulty env config)
      (fun pool _ request => opens pool.world request = false)
      (launch env config budget clients start) pool)
    (calm : ∀ thread, (pool.records thread).disturbed = false)
    (answered : ∀ thread, isRequest (clients thread) = true →
      ∃ response, pool.threads thread = .done (some response)) :
    ∀ project ∈ pool.world.db.projects.rows,
      Faithful env config clients pool project.id := by
  intro project present
  obtain ⟨report, ran, hits, puts⟩ := run_projectStats present
  refine ⟨report, ran, ?_, ?_⟩
  · rw [puts, sum_eq_credits fresh clock reached]
    refine Finset.sum_congr rfl fun thread _ => ?_
    rw [credit_of_answered reached (calm thread) (answered thread), if_pos rfl]
  · rw [hits, sum_eq_credits fresh clock reached]
    refine Finset.sum_congr rfl fun thread _ => ?_
    rw [credit_of_answered reached (calm thread) (answered thread),
      if_neg (by decide), served_of_unopened reached]

end Reports

/-! ## An upload, and a download of it -/

/-- One byte is uploaded and another path is asked for. -/
def missing : Fin 2 → Client
  | 0 => .put ⟨acme, .sstate, "acme", "first", [.ok [97]]⟩
  | 1 => .read ⟨acme, .sstate, "acme", "second", false⟩

/-- The client has been answered with this status. -/
def answeredWith (status : Nat) : App (Option Response) → Bool
  | .done (some response) => response.status = status
  | _ => false

theorem answeredWith_spec
    {status : Nat} {program : App (Option Response)}
    (answered : answeredWith status program = true) :
    ∃ response, program = .done (some response) := by
  unfold answeredWith at answered
  split at answered
  · exact ⟨_, rfl⟩
  · cases answered

theorem counters_faithful_missing :
    ∃ pool : Pool (Fin 2) Call Call.Reply CoreError (Option Response) World
        Local,
      answeredWith 201 (pool.threads 0) = true ∧
      ∀ project ∈ pool.world.db.projects.rows,
        Faithful Sample.env (Sample.config 1024) missing pool project.id := by
  have ran : ((Pool.replay protocol (exec Sample.env (Sample.config 1024))
      (fun pool _ request => !opens pool.world request)
      (1 :: List.replicate 11 0)
      (launch Sample.env (Sample.config 1024) 2 missing oneProject)).any
        fun pool =>
          answeredWith 201 (pool.threads 0) &&
          answeredWith 404 (pool.threads 1) &&
          decide (∀ thread, (pool.records thread).disturbed = false)) =
      true := by
    decide +kernel
  rw [Option.any_eq_true] at ran
  obtain ⟨pool, replayed, outcome⟩ := ran
  simp only [Bool.and_eq_true, decide_eq_true_eq] at outcome
  obtain ⟨⟨created, missed⟩, calm⟩ := outcome
  refine ⟨pool, created, ?_⟩
  refine counters_faithful Sample.env (Sample.config 1024) 2 missing
    oneProject (by decide +kernel) (by decide +kernel) pool
    (Pool.reaches_of_replay (fun _ _ _ _ => .exact)
      (fun _ _ _ passes => by simpa using passes) .refl replayed) calm ?_
  intro thread _
  match thread with
  | 0 => exact answeredWith_spec created
  | 1 => exact answeredWith_spec missed

/-- One byte is uploaded and downloaded. -/
def downloaded : Fin 2 → Client
  | 0 => .put ⟨acme, .sstate, "acme", "first", [.ok [97]]⟩
  | 1 => .read ⟨acme, .sstate, "acme", "first", false⟩

/-- The endpoint reports this many hits. -/
def reportsHits (world : World) (hits : Int) : Bool :=
  match ((Admin.projectStats 1).run (exec Sample.env (Sample.config 1024))
    world).1 with
  | .done report => report.hits = hits
  | _ => false

/-- A download that was answered 200 is not among the reported hits. -/
theorem download_not_counted :
    ∃ pool,
      Pool.Reaches protocol (exec Sample.env (Sample.config 1024)).answers
        (fun _ _ _ => True)
        (launch Sample.env (Sample.config 1024) 2 downloaded oneProject)
        pool ∧
      (∀ thread, ∃ response, pool.threads thread = .done (some response)) ∧
      (∃ project ∈ pool.world.db.projects.rows, project.id = 1) ∧
      ¬Faithful Sample.env (Sample.config 1024) downloaded pool 1 := by
  have ran : ((Pool.replay protocol (exec Sample.env (Sample.config 1024))
      (fun _ _ _ => true) (List.replicate 11 0 ++ List.replicate 3 1)
      (launch Sample.env (Sample.config 1024) 2 downloaded oneProject)).any
        fun pool =>
          answeredWith 201 (pool.threads 0) &&
          answeredWith 200 (pool.threads 1) &&
          decide (∃ project ∈ pool.world.db.projects.rows, project.id = 1) &&
          decide (served 1 (downloaded 1) (pool.threads 1) = (1, 1)) &&
          reportsHits pool.world 0) = true := by
    decide +kernel
  rw [Option.any_eq_true] at ran
  obtain ⟨pool, replayed, outcome⟩ := ran
  simp only [Bool.and_eq_true, decide_eq_true_eq] at outcome
  obtain ⟨⟨⟨⟨created, read⟩, present⟩, hit⟩, reported⟩ := outcome
  refine ⟨pool, Pool.reaches_of_free_replay (fun _ _ _ _ => id) replayed, ?_,
    present, ?_⟩
  · intro thread
    match thread with
    | 0 => exact answeredWith_spec created
    | 1 => exact answeredWith_spec read
  · rintro ⟨report, ends, -, hits⟩
    rw [Fin.sum_univ_two, hit] at hits
    rw [reportsHits, ends, decide_eq_true_eq] at reported
    have counted := congrArg Prod.fst hits
    rw [reported] at counted
    cases counted

end UsageCounters

end Marmotte
