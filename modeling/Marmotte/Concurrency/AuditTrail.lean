import Marmotte.Concurrency.AdminControl
import Marmotte.Effects.History
import Marmotte.Frames

/-!
# The audit trail

A handler of the admin API commits its change and the row of the audit log that
documents it in two transactions, one after the other, and reads the clock in
between.  Requests to the admin API run next to each other and to anything that
writes no such row, and any statement may fail: each request goes through a
trail of its own, and the log is the list of the rows that end these trails, in
the order in which they were committed.  This need not be the order of their
times.
-/

namespace Marmotte

open Effects

/-- What a row of the audit log says, whatever its number. -/
structure Notice where
  timestamp : Int
  actorToken : Option String
  action : String
  target : Option String
  detail : Option AuditDetail
  deriving DecidableEq, Repr

/-- What a row says. -/
def AuditRow.notice (row : AuditRow) : Notice :=
  ⟨row.timestamp, row.actorToken, row.action, row.target, row.detail⟩

namespace AuditTrail

open Admin

/-! ## Deeds -/

/-- A committed transaction that others can see, or a look at the clock. -/
inductive Deed
  | change (call : DbCall) (reply : call.Reply)
  | clock (now : Int)
  | notice (said : Notice)

/-- The row that a deed adds to the log. -/
def Deed.notice? : Deed → Option Notice
  | .change .. => none
  | .clock _ => none
  | .notice said => some said

/-- What a committed transaction shows to others. -/
def deedOf : (call : DbCall) → call.Reply → Option Deed
  | .audit timestamp actorToken action target detail, _ =>
      some (.notice ⟨timestamp, actorToken, action, target, detail⟩)
  | call, reply =>
      if call.writes = [] then none else some (.change call reply)

/-- What is recorded of a call. -/
def observe :
    (request : Call) → Except CoreError request.Reply → Option Deed
  | .db call, .ok reply => deedOf call reply
  | .now, .ok now => some (.clock now)
  | _, _ => none

theorem deedOf_query
    {call : DbCall} (reads : call.writes = []) (reply : call.Reply) :
    deedOf call reply = none := by
  cases call <;> first | exact absurd reads (List.cons_ne_nil _ _) | rfl

/-- Only a row of the log is a notice. -/
theorem audits_of_notice
    {request : Call} {reply : Except CoreError request.Reply} {said : Notice}
    (shows : observe request reply = some (.notice said)) :
    Audits request := by
  cases request with
  | db call =>
      cases reply with
      | error error => cases shows
      | ok value =>
          cases call with
          | audit timestamp actorToken action target detail =>
              exact ⟨_, _, _, _, _, rfl⟩
          | _ => cases shows
  | now => cases reply <;> cases shows
  | _ => cases shows

/-! ## Trails -/

/-- The transaction of a route, and the row that documents it at a time. -/
structure Promise where
  call : DbCall
  notice : call.Reply → Int → Notice

/-- The promise of a route with one transaction. -/
def promise (env : Env) (auth : AdminAuth) : Route → Option Promise
  | .createProject name quotaBytes ttlSeconds =>
      some ⟨.projectsCreate name quotaBytes ttlSeconds, fun p now =>
        ⟨now, auth.tokenLabel, "project.create", some (toString p.id),
          some (.name p.name)⟩⟩
  | .updateProject id newName quotaBytes ttlSeconds =>
      some ⟨.projectsUpdate id newName quotaBytes ttlSeconds, fun _ now =>
        ⟨now, auth.tokenLabel, "project.update", some (toString id), none⟩⟩
  | .deleteProject id =>
      some ⟨.projectsDelete id, fun _ now =>
        ⟨now, auth.tokenLabel, "project.delete", some (toString id), none⟩⟩
  | .createKey id secret phc role label =>
      some ⟨.apiKeysCreate id (lookupHash env secret) phc role label,
        fun key now => ⟨now, auth.tokenLabel, "key.create",
          some (toString key.id), some (.role role)⟩⟩
  | .revokeKey id kid =>
      some ⟨.apiKeysRevoke id kid, fun _ now =>
        ⟨now, auth.tokenLabel, "key.revoke", some (toString kid), none⟩⟩
  | .createToken secret phc label =>
      some ⟨.adminTokensCreate (lookupHash env secret) phc label, fun t now =>
        ⟨now, auth.tokenLabel, "token.create", some (toString t.id),
          some (.label t.label)⟩⟩
  | .revokeToken id =>
      some ⟨.adminTokensRevoke id, fun _ now =>
        ⟨now, auth.tokenLabel, "token.revoke", some (toString id), none⟩⟩
  | .deleteEntry id eid =>
      some ⟨.entriesDelete id eid, fun _ now =>
        ⟨now, auth.tokenLabel, "entry.delete", some (toString eid), none⟩⟩
  | .pin id eid =>
      some ⟨.entriesSetPinned id eid true, fun _ now =>
        ⟨now, auth.tokenLabel, "entry.pin", some (toString eid), none⟩⟩
  | .unpin id eid =>
      some ⟨.entriesSetPinned id eid false, fun _ now =>
        ⟨now, auth.tokenLabel, "entry.unpin", some (toString eid), none⟩⟩
  | _ => none

/-- The row that documents a collection at a time. -/
def collection (auth : AdminAuth) : Route → Option (Int → Notice)
  | .runGc dryRun =>
      some fun now =>
        ⟨now, auth.tokenLabel, "gc.run", none, some (.dryRun dryRun)⟩
  | .orphanScan dryRun =>
      some fun now =>
        ⟨now, auth.tokenLabel, "gc.orphan_scan", none, some (.dryRun dryRun)⟩
  | _ => none

/-- The deed is one of a collection. -/
def Removes : Deed → Prop
  | .change call _ => sweepTransactions call ∨ ∃ hash, call = .purge hash
  | .clock _ => True
  | .notice _ => False

/-- The deeds of a request, up to any point. -/
inductive Trail (env : Env) (auth : AdminAuth) (route : Route) :
    List Deed → Prop
  | nothing : Trail env auth route []
  | changed
      {made : Promise} (promised : promise env auth route = some made)
      (reply : made.call.Reply) :
      Trail env auth route [.change made.call reply]
  | dated
      {made : Promise} (promised : promise env auth route = some made)
      (reply : made.call.Reply) (now : Int) :
      Trail env auth route [.change made.call reply, .clock now]
  | noticed
      {made : Promise} (promised : promise env auth route = some made)
      (reply : made.call.Reply) (now : Int) :
      Trail env auth route
        [.change made.call reply, .clock now, .notice (made.notice reply now)]
  | collecting
      {said : Int → Notice} {deeds : List Deed}
      (collects : collection auth route = some said)
      (removals : ∀ deed ∈ deeds, Removes deed) :
      Trail env auth route deeds
  | collected
      {said : Int → Notice} {deeds : List Deed}
      (collects : collection auth route = some said)
      (removals : ∀ deed ∈ deeds, Removes deed) (now : Int) :
      Trail env auth route (deeds ++ [.clock now, .notice (said now)])

/-- The deeds are documented. -/
def Documented (deeds : List Deed) : Prop :=
  ∃ said, deeds.getLast? = some (.notice said)

/-- A row bears a time that its request has read. -/
theorem Trail.dated_of_mem
    {env : Env} {auth : AdminAuth} {route : Route} {deeds : List Deed}
    {said : Notice} (trail : Trail env auth route deeds)
    (among : .notice said ∈ deeds) : .clock said.timestamp ∈ deeds := by
  have unsaid {removals : List Deed}
      (removes : ∀ deed ∈ removals, Removes deed) :
      .notice said ∉ removals := fun among => removes _ among
  cases trail with
  | nothing => cases among
  | changed promised reply => simp at among
  | dated promised reply now => simp at among
  | @noticed made promised reply now =>
      have same : said = made.notice reply now := by simpa using among
      cases route <;> cases promised <;> simp [same]
  | collecting collects removals => exact absurd among (unsaid removals)
  | @collected row _ collects removals now =>
      rcases List.mem_append.mp among with old | new
      · exact absurd old (unsaid removals)
      · have same : said = row now := by simpa using new
        cases route <;> cases collects <;> simp [same]

/-- A request to this route is to be documented. -/
def documents : Route → Bool
  | .listProjects => false
  | .getProject _ => false
  | .globalStats => false
  | .projectStats _ => false
  | _ => true

/-! ## The handlers -/

section Handlers

variable {env : Env} {auth : AdminAuth} {route : Route} {made : Promise}
variable {allowed : List Deed → Prop} {past : List Deed}
variable {post : α → List Deed → Prop}

/-- A query shows nothing. -/
theorem query_then
    {call : DbCall} {next : call.Reply → App α} (sofar : allowed past)
    (reads : call.writes = [])
    (rest : ∀ reply, (next reply).Follows (observing observe allowed) post
      (fun _ _ => True) past) :
    (transact call >>= next).Follows (observing observe allowed) post
      (fun _ _ => True) past := by
  have silent : ∀ reply, observe (.db call) reply = none := by
    intro reply
    cases reply with
    | error error => rfl
    | ok value => exact deedOf_query reads value
  obtain ⟨permitted, same⟩ := observing_silent sofar silent
  refine Program.follows_perform_then permitted fun reply => ?_
  rw [same]
  exact rest reply

/-- The transaction of a promise is a change. -/
theorem deedOf_promise
    (promised : promise env auth route = some made)
    (reply : made.call.Reply) :
    deedOf made.call reply = some (.change made.call reply) := by
  cases route <;> cases promised <;> rfl

theorem change_then
    (promised : promise env auth route = some made)
    {next : made.call.Reply → App α}
    (rest : ∀ reply, (next reply).Follows
      (observing observe (Trail env auth route)) post (fun _ _ => True)
      [.change made.call reply]) :
    (transact made.call >>= next).Follows
      (observing observe (Trail env auth route)) post (fun _ _ => True)
      [] := by
  have shown (value : made.call.Reply) :
      observe (.db made.call) (.ok value) =
        some (.change made.call value) := deedOf_promise promised value
  refine Program.follows_perform_then ?_ fun reply => ?_
  · intro reply
    cases reply with
    | error error => exact .nothing
    | ok value =>
        rw [shown]
        exact .changed promised value
  · change (next reply).Follows _ _ _
      ([] ++ (observe (.db made.call) (.ok reply)).toList)
    rw [shown]
    exact rest reply

/-- The row that documents a change. -/
theorem audit_documents
    (promised : promise env auth route = some made)
    {reply : made.call.Reply} {action : String} {target : Option Int}
    {detail : Option AuditDetail}
    (said : ∀ now, made.notice reply now =
      ⟨now, auth.tokenLabel, action, target.map toString, detail⟩) :
    (audit auth action target detail).Follows
      (observing observe (Trail env auth route))
      (fun _ deeds => Documented deeds) (fun _ _ => True)
      [.change made.call reply] := by
  refine Program.follows_perform_then ?_ fun now => ?_
  · intro result
    cases result with
    | error error => exact .changed promised reply
    | ok now => exact .dated promised reply now
  refine Program.follows_perform ?_ (fun _ => ⟨_, rfl⟩) fun _ => trivial
  intro result
  cases result with
  | error error => exact .dated promised reply now
  | ok value =>
      have documented := Trail.noticed promised reply now
      rw [said] at documented
      exact documented

/-- The row that documents a collection. -/
theorem audit_collection
    {said : Int → Notice} (collects : collection auth route = some said)
    (removals : ∀ deed ∈ past, Removes deed)
    {action : String} {detail : Option AuditDetail}
    (same : ∀ now, said now = ⟨now, auth.tokenLabel, action, none, detail⟩) :
    (audit auth action none detail).Follows
      (observing observe (Trail env auth route))
      (fun _ deeds => Documented deeds) (fun _ _ => True) past := by
  have dated (now : Int) : ∀ deed ∈ past ++ [.clock now], Removes deed := by
    intro deed among
    rcases List.mem_append.mp among with old | new
    · exact removals deed old
    · rw [List.mem_singleton.mp new]
      trivial
  have unchanged {deeds : List Deed} (removals : ∀ deed ∈ deeds, Removes deed) :
      Trail env auth route (deeds ++ []) := by
    rw [List.append_nil]
    exact .collecting collects removals
  refine Program.follows_perform_then ?_ fun now => ?_
  · intro result
    cases result with
    | error error => exact unchanged removals
    | ok now => exact .collecting collects (dated now)
  refine Program.follows_perform ?_
    (fun _ => ⟨_, List.getLast?_concat⟩) fun _ => trivial
  intro result
  cases result with
  | error error => exact unchanged (dated now)
  | ok value =>
      have collected := @Trail.collected env auth route said past collects removals now
      rw [same] at collected
      change Trail env auth route (past ++ [.clock now] ++ [.notice _])
      rw [List.append_assoc]
      exact collected

/-- Forget what a part of a handler returns. -/
theorem documented_then
    {program : App β} {render : β → α}
    (follows : program.Follows (observing observe allowed)
      (fun _ deeds => Documented deeds) (fun _ _ => True) past) :
    (program >>= fun value => pure (render value) : App α).Follows
      (observing observe allowed) (fun _ deeds => Documented deeds)
      (fun _ _ => True) past :=
  follows.bind fun _ _ known => known

/-- A change and the row that documents it. -/
theorem change_documented
    (promised : promise env auth route = some made)
    {action : String} {target : Option Int} {detail : Option AuditDetail}
    (said : ∀ reply now, made.notice reply now =
      ⟨now, auth.tokenLabel, action, target.map toString, detail⟩)
    {answer : α} :
    ((do
      let _ ← transact made.call
      audit auth action target detail : App Unit) >>=
        fun _ => pure answer : App α).Follows
      (observing observe (Trail env auth route))
      (fun _ deeds => Documented deeds) (fun _ _ => True) [] :=
  documented_then (change_then promised fun reply =>
    audit_documents promised (said reply))

/-- A sweep removes, and nothing else. -/
theorem removes_of_sweep
    (request : Call) (reply : Except CoreError request.Reply) (deed : Deed)
    (used : sweepCalls request) (shows : observe request reply = some deed) :
    Removes deed := by
  cases request with
  | db call =>
      cases reply with
      | error error => cases shows
      | ok value =>
          have allowed : sweepTransactions call := used
          cases call <;> first
            | exact allowed.elim
            | cases shows
              done
            | (cases shows; exact .inl trivial)
  | now =>
      cases reply <;> cases shows
      trivial
  | _ => cases shows

theorem removes_of_scan
    (request : Call) (reply : Except CoreError request.Reply) (deed : Deed)
    (used : scanCalls request) (shows : observe request reply = some deed) :
    Removes deed := by
  cases request with
  | db call =>
      cases reply with
      | error error => cases shows
      | ok value =>
          cases call with
          | purge hash =>
              cases shows
              exact .inr ⟨hash, rfl⟩
          | blobsHashes => cases shows
          | _ => exact used.elim
  | now => exact used.elim
  | _ => cases shows

/-- A collection and the row that documents it. -/
theorem collection_follows
    {said : Int → Notice} (collects : collection auth route = some said)
    {calls : Call → Prop} {collect : App β}
    (uses : collect.Uses calls fun _ => True)
    (removes : ∀ request reply deed, calls request →
      observe request reply = some deed → Removes deed)
    {action : String} {detail : Option AuditDetail}
    (same : ∀ now, said now = ⟨now, auth.tokenLabel, action, none, detail⟩) :
    (do
      let report ← collect
      audit auth action none detail
      pure report : App β).Follows
        (observing observe (Trail env auth route))
        (fun _ deeds => Documented deeds) (fun _ _ => True) [] := by
  have nothing : ∀ deed ∈ ([] : List Deed), Removes deed :=
    fun _ among => absurd among List.not_mem_nil
  have collected : collect.Follows (observing observe (Trail env auth route))
      (fun _ deeds => True ∧ ∀ deed ∈ deeds, Removes deed)
      (fun _ deeds => ∀ deed ∈ deeds, Removes deed) [] :=
    uses.follows_observing removes
      (fun _ removals => .collecting collects removals) nothing
  refine collected.anyway.bind ?_
  rintro report past ⟨-, removals⟩
  exact documented_then (audit_collection collects removals same)

/-- A handler goes through the trail of its route, to its end when it
succeeds. -/
theorem handle_follows
    (env : Env) (config : Config) (budget : Nat) (auth : AdminAuth)
    (route : Route) :
    (handle env config budget auth route).Follows
      (observing observe (Trail env auth route))
      (fun _ deeds => documents route = true → Documented deeds)
      (fun _ _ => True) [] := by
  have documented
      (follows : (handle env config budget auth route).Follows
        (observing observe (Trail env auth route))
        (fun _ deeds => Documented deeds) (fun _ _ => True) []) :
      (handle env config budget auth route).Follows
        (observing observe (Trail env auth route))
        (fun _ deeds => documents route = true → Documented deeds)
        (fun _ _ => True) [] :=
    follows.mono (fun _ _ known _ => known) fun _ _ _ => trivial
  cases route with
  | listProjects | getProject =>
      exact query_then .nothing rfl fun _ => nofun
  | globalStats =>
      have reads : globalStats.Follows
          (observing observe (Trail env auth .globalStats))
          (fun _ _ => True) (fun _ _ => True) [] :=
        query_then .nothing rfl fun total =>
          query_then .nothing rfl fun projects => trivial
      exact reads.bind fun _ _ _ => nofun
  | projectStats id =>
      have reads : (projectStats id).Follows
          (observing observe (Trail env auth (.projectStats id)))
          (fun _ _ => True) (fun _ _ => True) [] :=
        query_then .nothing rfl fun project =>
          query_then .nothing rfl fun usage =>
            query_then .nothing rfl fun hits =>
              query_then .nothing rfl fun puts => trivial
      exact reads.bind fun _ _ _ => nofun
  | createProject name quotaBytes ttlSeconds =>
      have promised : promise env auth
        (.createProject name quotaBytes ttlSeconds) = some _ := rfl
      exact documented (documented_then (change_then promised fun reply =>
        documented_then (audit_documents promised fun _ => rfl)))
  | createToken secret phc label =>
      have promised : promise env auth (.createToken secret phc label) =
        some _ := rfl
      exact documented (documented_then (change_then promised fun reply =>
        documented_then (audit_documents promised fun _ => rfl)))
  | updateProject id newName quotaBytes ttlSeconds =>
      have promised : promise env auth
        (.updateProject id newName quotaBytes ttlSeconds) = some _ := rfl
      exact documented (documented_then (change_then promised fun reply =>
        query_then (.changed promised reply) rfl fun project =>
          documented_then (audit_documents promised fun _ => rfl)))
  | createKey id secret phc role label =>
      have promised : promise env auth (.createKey id secret phc role label) =
        some _ := rfl
      exact documented (documented_then (query_then .nothing rfl fun project =>
        change_then promised fun reply =>
          documented_then (audit_documents promised fun _ => rfl)))
  | deleteProject id =>
      have promised : promise env auth (.deleteProject id) = some _ := rfl
      exact documented (change_documented promised fun _ _ => rfl)
  | revokeKey id kid =>
      have promised : promise env auth (.revokeKey id kid) = some _ := rfl
      exact documented (change_documented promised fun _ _ => rfl)
  | revokeToken id =>
      have promised : promise env auth (.revokeToken id) = some _ := rfl
      exact documented (change_documented promised fun _ _ => rfl)
  | deleteEntry id eid =>
      have promised : promise env auth (.deleteEntry id eid) = some _ := rfl
      exact documented (change_documented promised fun _ _ => rfl)
  | pin id eid =>
      have promised : promise env auth (.pin id eid) = some _ := rfl
      exact documented (change_documented promised fun _ _ => rfl)
  | unpin id eid =>
      have promised : promise env auth (.unpin id eid) = some _ := rfl
      exact documented (change_documented promised fun _ _ => rfl)
  | runGc dryRun =>
      exact documented (documented_then (collection_follows rfl
        (GcSvc.run_sweeps config.gc budget dryRun) removes_of_sweep fun _ => rfl))
  | orphanScan dryRun =>
      exact documented (documented_then (collection_follows rfl
        (GcSvc.orphanScan_scans env dryRun) removes_of_scan fun _ => rfl))

end Handlers

/-! ## The requests -/

/-- The deeds of a request, whoever makes it. -/
def Deeds (env : Env) (route : Route) (deeds : List Deed) : Prop :=
  ∃ auth, Trail env auth route deeds

/-- A response that is a success comes at the end of the trail. -/
def Answers (route : Route) (reply : Reply) (deeds : List Deed) : Prop :=
  reply.status < 400 → documents route = true → Documented deeds

section Requests

variable {route : Route} {reply : Reply} {deeds : List Deed}

theorem answers_of_refusal (refused : 400 ≤ reply.status) :
    Answers route reply deeds :=
  fun success => absurd success (Nat.not_lt.mpr refused)

/-- Nobody has to be told of an authentication. -/
theorem authentication_silent
    (request : Call) (used : authenticationCalls request)
    (reply : Except CoreError request.Reply) :
    observe request reply = none := by
  cases request with
  | db call =>
      cases reply with
      | error error => rfl
      | ok value =>
          cases call <;> first | exact used.elim | rfl
  | now => exact used.elim
  | _ => rfl

/-- Every request goes through a trail of its route. -/
theorem serve_follows
    (env : Env) (config : Config) (budget : Nat) (request : Request) :
    (serve env config budget request).Follows
      (observing observe (Deeds env request.route)) (Answers request.route)
      (fun _ _ => True) [] := by
  unfold serve middleware
  split
  · exact answers_of_refusal (show 400 ≤ 401 by decide)
  · rename_i token parsed
    have silent : (AuthSvc.authenticateAdmin env token).Follows
        (observing observe (Deeds env request.route))
        (fun _ deeds => deeds = []) (fun _ deeds => deeds = []) [] :=
      ((AuthSvc.authenticateAdmin_uses env token).follows_silent
        ⟨⟨0, none⟩, .nothing⟩ authentication_silent).mono
          (fun _ _ known => known.2) fun _ _ => id
    refine silent.toExcept.bind ?_
    intro result deeds known
    split
    · rename_i auth
      have fresh : deeds = [] := known
      subst fresh
      have handled := (handle_follows env config budget auth
        request.route).permitting fun past call permitted reply =>
          (⟨auth, permitted reply⟩ : Deeds env request.route _)
      refine @Program.Follows.catchError _ _ _ _ _ _ _ _ _ _ (fun _ _ => True)
        _ (handled.mono (fun _ _ whole _ => whole) fun _ _ _ => trivial)
        fun error last _ => ?_
      exact answers_of_refusal (Reply.ofError_status_ge error)
    · exact answers_of_refusal (show 400 ≤ 401 by decide)
    · exact answers_of_refusal (Reply.ofError_status_ge _)

end Requests

/-! ## The log -/

/-- Since the start exactly these rows were added to the log, each under a
number above those before it. -/
structure Logged (start : World) (said : List Notice) (world : World) :
    Prop where
  rows : ∃ rows, world.db.auditLog.rows = start.db.auditLog.rows ++ rows ∧
    rows.map AuditRow.notice = said ∧
      rows.Pairwise fun first second => first.id < second.id

section Log

variable {env : Env} {config : Config} {start before after : World}
variable {said : List Notice} {request : Call}
variable {reply : Except CoreError request.Reply}

theorem Logged.refl (start : World) : Logged start [] start :=
  ⟨[], (List.append_nil _).symm, rfl, List.Pairwise.nil⟩

/-- What a call adds to the log is what is recorded of it. -/
theorem Logged.step
    (logged : Logged start said before)
    (answered : Faulty env config request before reply after) :
    Logged start
      (said ++ ((observe request reply).bind Deed.notice?).toList) after := by
  obtain ⟨rows, appended, notices, ordered⟩ := logged
  have kept
      (same : after.db.auditLog = before.db.auditLog)
      (silent : (observe request reply).bind Deed.notice? = none) :
      Logged start
        (said ++ ((observe request reply).bind Deed.notice?).toList)
        after := by
    rw [silent, Option.toList_none, List.append_nil]
    exact ⟨rows, by rw [same, appended], notices, ordered⟩
  cases request with
  | db call =>
      rcases Faulty.db_cases answered with
        ⟨value, db, ran, rfl, rfl⟩ | ⟨_, rfl, rfl⟩
      · cases call with
        | audit timestamp actorToken action target detail =>
            cases ran
            refine ⟨rows ++ [⟨before.db.auditLog.last + 1, timestamp,
              actorToken, action, target, detail⟩], ?_, ?_, ?_⟩
            · rw [← List.append_assoc, ← appended]
              rfl
            · rw [List.map_append, notices]
              rfl
            · refine List.pairwise_append.mpr
                ⟨ordered, List.pairwise_singleton _ _, fun row among last new =>
                  ?_⟩
              rw [List.mem_singleton.mp new]
              have stored : row ∈ before.db.auditLog.rows := by
                rw [appended]
                exact List.mem_append_right _ among
              exact Int.lt_add_one_of_le
                (before.db.auditLog.bounded row stored)
        | _ =>
            refine kept ((DbCall.exec_frame ran).auditLog
              (by simp [DbCall.writes])) ?_
            rfl
      · exact kept rfl rfl
  | now =>
      refine kept (congrArg Db.auditLog
        (Faulty.database (by simp) answered)) ?_
      cases reply <;> rfl
  | _ =>
      exact kept (congrArg Db.auditLog (Faulty.database (by simp) answered))
        rfl

end Log

/-! ## Runs -/

section Runs

variable {ι : Type} [DecidableEq ι]

/-- A program that adds nothing to the log. -/
structure Bystander where
  program : App (Option Reply)
  silent : program.Uses (fun request => ¬Audits request) fun _ => True

/-- What runs next to each other. -/
inductive Task
  | admin (request : Request)
  | other (bystander : Bystander)

/-- The program of a task. -/
def Task.program
    (env : Env) (config : Config) (budget : Nat) : Task → App (Option Reply)
  | .admin request => do
      let reply ← serve env config budget request
      pure (some reply)
  | .other bystander => bystander.program

abbrev Tasks (ι : Type) : Type :=
  Pool ι Call Call.Reply CoreError (Option Reply) World Unit

abbrev Steps (ι : Type) : Type :=
  List (Moment ι Call Call.Reply CoreError World)

/-- The tasks at the start. -/
def launch
    (env : Env) (config : Config) (budget : Nat) (start : World)
    (tasks : ι → Task) : Tasks ι :=
  .launch () (fun thread => (tasks thread).program env config budget) start

/-- The tasks take these steps, one call at a time and in any order. -/
abbrev Ran
    (env : Env) (config : Config) (budget : Nat) (start : World)
    (tasks : ι → Task) (moments : Steps ι) (pool : Tasks ι) : Prop :=
  Pool.Run (Program.within fun _ => True) (Faulty env config)
    (launch env config budget start tasks) moments pool

/-- What others see of a step. -/
def act (event : Event Call Call.Reply CoreError World) : Option Deed :=
  observe event.request event.reply

/-- The deeds of a run, each with the task that did it. -/
abbrev deeds (moments : Steps ι) : List (ι × Deed) := Pool.history act moments

/-- The rows that a run adds to the log. -/
def notices (moments : Steps ι) : List Notice :=
  (deeds moments).filterMap fun entry => entry.2.notice?

variable {env : Env} {config : Config} {budget : Nat} {start : World}
variable {tasks : ι → Task} {moments : Steps ι} {pool : Tasks ι}

omit [DecidableEq ι] in
theorem notices_concat
    (moment : Moment ι Call Call.Reply CoreError World) :
    notices (moments ++ [moment]) = notices moments ++
      ((observe moment.event.request moment.event.reply).bind
        Deed.notice?).toList := by
  unfold notices deeds Pool.history
  rw [List.filterMap_append, List.filterMap_append]
  congr 1
  change List.filterMap _ (List.filterMap _ [moment]) =
    ((act moment.event).bind Deed.notice?).toList
  cases shown : act moment.event with
  | none => simp [shown]
  | some deed => cases said : deed.notice? <;> simp [shown, said]

/-- The log of a run, whatever the programs are. -/
theorem logged_run
    {first last : Pool ι Call Call.Reply CoreError α World Local}
    {protocol : Protocol Call Call.Reply CoreError Local}
    (ran : Pool.Run protocol (Faulty env config) first moments last) :
    Logged first.world (notices moments) last.world := by
  induction ran with
  | refl => exact .refl first.world
  | tail earlier step inductionHypothesis =>
      obtain ⟨waiting, answered⟩ := step
      rw [notices_concat]
      exact inductionHypothesis.step answered

/-- Only requests to the admin API add to the log. -/
theorem admin_of_notice
    (ran : Ran env config budget start tasks moments pool)
    {thread : ι} {said : Notice}
    (among : (thread, .notice said) ∈ deeds moments) :
    ∃ request, tasks thread = .admin request := by
  have footed : (launch env config budget start tasks).Footed fun thread call =>
      (∃ request, tasks thread = .admin request) ∨ ¬Audits call := by
    intro thread
    change ((tasks thread).program env config budget).Uses _ _
    cases task : tasks thread with
    | admin request =>
        exact Program.uses_any (fun _ => .inl ⟨request, task⟩) _
    | other bystander =>
        exact bystander.silent.mono (fun _ => .inr) fun _ => id
  obtain ⟨moment, made, same, acts⟩ := Pool.mem_history.mp among
  rcases ran.footed footed made with admin | silent
  · rw [same] at admin
    exact admin
  · exact absurd (audits_of_notice acts) silent

/-- The clock that a task reads is that of the run. -/
theorem clocks_between
    (ran : Ran env config budget start tasks moments pool)
    {thread : ι} {now : Int} (among : (thread, .clock now) ∈ deeds moments) :
    start.now ≤ now ∧ now ≤ pool.world.now := by
  obtain ⟨moment, made, -, acts⟩ := Pool.mem_history.mp among
  have between := (ran.grows Faulty.clock).2 moment made
  obtain ⟨_, _, before, _, -, -, ⟨-, answered⟩, same, -⟩ := ran.moment made
  obtain ⟨thread, ⟨_, request, reply, _⟩⟩ := moment
  cases request with
  | now =>
      cases answered with
      | exact answered =>
          cases answered
          cases acts
          simp only at same
          rw [same]
          exact between
  | db call =>
      cases reply with
      | error error => cases acts
      | ok value =>
          simp only [act, observe] at acts
          cases call <;> simp [deedOf] at acts
  | _ => cases acts

/-- Each request to the admin API goes through a trail of its route. -/
theorem trail_run
    (ran : Ran env config budget start tasks moments pool)
    {thread : ι} {request : Request}
    (serves : tasks thread = .admin request) :
    Deeds env request.route (Pool.actionsOf thread (deeds moments)) ∧
      ∀ reply, pool.threads thread = .done (some reply) →
        Answers request.route reply
          (Pool.actionsOf thread (deeds moments)) := by
  have follows : ((launch env config budget start tasks).threads
      thread).Follows (observing observe (Deeds env request.route))
        (fun answer deeds => ∀ reply, answer = some reply →
          Answers request.route reply deeds) (fun _ _ => True) [] := by
    change ((tasks thread).program env config budget).Follows _ _ _ _
    rw [serves]
    refine (serve_follows env config budget request).bind
      fun reply last known => ?_
    rintro _ ⟨⟩
    exact known
  have seen : ∀ moment ∈ moments, moment.thread = thread →
      act moment.event = observe moment.event.request moment.event.reply :=
    fun _ _ _ => rfl
  obtain ⟨trail, whole⟩ := ran.observes seen
    (⟨⟨0, none⟩, .nothing⟩ : Deeds env request.route []) follows
  exact ⟨trail, fun reply ended => whole (some reply) ended reply rfl⟩

/-- The time of a row is one that the clock has shown. -/
theorem timestamp_between
    (ran : Ran env config budget start tasks moments pool)
    {thread : ι} {said : Notice}
    (among : (thread, .notice said) ∈ deeds moments) :
    start.now ≤ said.timestamp ∧ said.timestamp ≤ pool.world.now := by
  obtain ⟨request, serves⟩ := admin_of_notice ran among
  obtain ⟨⟨auth, trail⟩, -⟩ := trail_run ran serves
  have own : .notice said ∈ Pool.actionsOf thread (deeds moments) :=
    Pool.mem_actionsOf.mpr (Pool.mem_history.mp among)
  have read := trail.dated_of_mem own
  exact clocks_between ran
    (Pool.mem_history.mpr (Pool.mem_actionsOf.mp read))

/-- In every history each request to the admin API goes through a trail of its
route, its transaction and then the row that says so, to the end of it when it
is answered with success; and what was added to the log are exactly the rows of
these trails, in the order in which they were committed, each under the time
that its request has read. -/
theorem audit_trail
    (ran : Ran env config budget start tasks moments pool) :
    Logged start (notices moments) pool.world ∧
    (∀ thread said, (thread, .notice said) ∈ deeds moments →
      (∃ request, tasks thread = .admin request) ∧
        start.now ≤ said.timestamp ∧ said.timestamp ≤ pool.world.now) ∧
    ∀ thread request, tasks thread = .admin request →
      (∃ auth, Trail env auth request.route
        (Pool.actionsOf thread (deeds moments))) ∧
      ∀ reply, pool.threads thread = .done (some reply) →
        reply.status < 400 → documents request.route = true →
          Documented (Pool.actionsOf thread (deeds moments)) :=
  ⟨logged_run ran,
    fun _ _ among => ⟨admin_of_notice ran among, timestamp_between ran among⟩,
    fun _ _ serves => trail_run ran serves⟩

/-- The clock moves on. -/
def ticking (nanos : Nat) : Bystander where
  program := do
    Program.perform (Call.tick nanos)
    pure none
  silent := Program.uses_perform_then (by rintro ⟨_, _, _, _, _, ⟨⟩⟩)
    fun _ => trivial

/-- One token creates a project while the other deletes it. -/
def opposing : Fin 3 → Task
  | 0 => .admin ⟨some "Bearer b".toUTF8.data.toList,
      .createProject "acme" none none⟩
  | 1 => .admin ⟨some "Bearer a".toUTF8.data.toList, .deleteProject 1⟩
  | 2 => .other (ticking (2 * nanosPerSec))

/-- The project is deleted before its creation is documented, under an earlier
time than its deletion. -/
theorem audit_trail_opposing :
    ∃ (moments : Steps (Fin 3)) (pool : Tasks (Fin 3)),
      Ran AdminControl.plain (Sample.config 1024) 10 AdminControl.staffed
        opposing moments pool ∧
      (pool.world.db.auditLog.rows.map fun row =>
        (row.action, row.timestamp)) =
          [("project.delete", 1002), ("project.create", 1000)] ∧
      Logged AdminControl.staffed (notices moments) pool.world ∧
      Documented (Pool.actionsOf 0 (deeds moments)) ∧
      Documented (Pool.actionsOf 1 (deeds moments)) := by
  have ran : ((Pool.replay (Program.within fun _ => True)
      (exec AdminControl.plain (Sample.config 1024)) (fun _ _ _ => true)
      [0, 0, 0, 1, 1, 1, 0, 0, 2, 1, 1, 1, 0]
      (launch AdminControl.plain (Sample.config 1024) 10
        AdminControl.staffed opposing)).any fun pool =>
          AdminControl.succeeded (pool.threads 0) &&
            AdminControl.succeeded (pool.threads 1) &&
              decide ((pool.world.db.auditLog.rows.map fun row =>
                (row.action, row.timestamp)) =
                  [("project.delete", 1002), ("project.create", 1000)])) =
              true := by
    decide +kernel
  rw [Option.any_eq_true] at ran
  obtain ⟨pool, replayed, outcome⟩ := ran
  rw [Bool.and_eq_true, Bool.and_eq_true] at outcome
  obtain ⟨first, ended, success⟩ :=
    AdminControl.succeeded_spec outcome.1.1
  obtain ⟨second, endedToo, successToo⟩ :=
    AdminControl.succeeded_spec outcome.1.2
  have reached : Pool.Reaches (Program.within fun _ => True)
      (Faulty AdminControl.plain (Sample.config 1024)) (fun _ _ _ => True)
      (launch AdminControl.plain (Sample.config 1024) 10
        AdminControl.staffed opposing) pool :=
    Pool.reaches_of_free_replay (fun _ _ _ _ => .exact) replayed
  obtain ⟨moments, ran⟩ := reached.run
  obtain ⟨logged, -, trails⟩ := audit_trail ran
  exact ⟨moments, pool, ran, of_decide_eq_true outcome.2, logged,
    (trails 0 _ rfl).2 first ended success rfl,
    (trails 1 _ rfl).2 second endedToo successToo rfl⟩

end Runs

end AuditTrail

end Marmotte
