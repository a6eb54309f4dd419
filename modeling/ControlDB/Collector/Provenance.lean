import ControlDB.Collector.Endpoints
import ControlDB.Collector.RequestEffect
import ControlDB.Library.Origins

/-!
# Who wrote what

Every row of the database and every file of the object store goes back to a request that somebody made
with a key of the row's tenant, at a time when the key was stored, not revoked, and had the scope of the
endpoint (`stored_by_authorized`).
-/

namespace ControlDB
namespace Collector

open Library Python Http

/-! ## Facts -/

/-- A row, or what it has in one respect, or a file. -/
inductive Fact
  | run (runId : String) (tenant : Principal)
  | status (runId status : String)
  | event (e : AuditEvent)
  | approval (approvalId : String) (tenant : Principal)
  | decision (approvalId : String) (row : Approval)
  | export (exportId : String) (row : EvidenceExport)
  | file (path : String) (data : Bytes)

/-- An open run and an approval that waits have no status that somebody gave them. -/
def Fact.In (st : EvidenceStore) : Fact → Prop
  | .run runId tenant => ∃ r, st.db.agentRuns.get runId = some r ∧ r.BelongsTo tenant
  | .status runId given =>
      given ≠ "running" ∧ ∃ r, st.db.agentRuns.get runId = some r ∧ r.status = given
  | .event e => e ∈ st.db.auditEvents
  | .approval approvalId tenant =>
      ∃ a, st.db.approvals.get approvalId = some a ∧ a.BelongsTo tenant
  | .decision approvalId row =>
      st.db.approvals.get approvalId = some row ∧ row.status ≠ "requested"
  | .export exportId row => st.db.evidenceExports.get exportId = some row
  | .file path data => st.files.get path = some data

/-- Whose request may have brought the fact about, and at which endpoint. -/
def Fact.From (env : Env) (st : EvidenceStore) (tenant : Principal) (req : Incoming) : Fact → Prop
  | .run runId owner => owner = tenant ∧
      ∃ given agentId agentVersion environment metadata,
        req.endpoint = .runsStart given agentId agentVersion environment metadata ∧
        runId = (truthy given).getD ("run_" ++ req.moment.ulid 0)
  | .status runId given => (Fact.run runId tenant).In st ∧
      (req.endpoint = .runsCommit runId ∧ given = "committed" ∨
        (∃ reason, req.endpoint = .runsRollback runId reason) ∧ given = "rolled_back" ∨
        ∃ events, req.endpoint = .runsEvents runId events ∧
          ∃ event ∈ events, collectorStatus event.eventType = some given)
  | .event e => e.BelongsTo tenant ∧ (Fact.run e.runId tenant).In st ∧
      ((∃ events, req.endpoint = .runsEvents e.runId events ∧ ∃ event ∈ events,
          e.eventType = event.eventType ∧ e.idempotencyKey = event.idempotencyKey) ∨
        ∃ generatedBy, req.endpoint = .auditExport e.runId generatedBy ∧
          e.eventType = "evidence.export.completed")
  | .approval approvalId owner => owner = tenant ∧
      ∃ body, req.endpoint = .approvalsRequest body ∧
        approvalId = (truthy body.approvalId).getD ("appr_" ++ req.moment.ulid 0)
  | .decision approvalId row => row.BelongsTo tenant ∧
      ∃ reviewerId reason, row.reviewerId = some reviewerId ∧
        (req.endpoint = .approvalsApprove approvalId reviewerId reason ∧ row.status = "approved" ∨
          req.endpoint = .approvalsReject approvalId reviewerId reason ∧ row.status = "rejected")
  | .export exportId row => row.exportId = exportId ∧ row.orgId = tenant.orgId ∧
      row.projectId = tenant.projectId ∧ row.bundleUri = bundlePath env row.runId ∧
      (Fact.run row.runId tenant).In st ∧ req.endpoint = .auditExport row.runId row.generatedBy
  | .file path data => ∃ runId generatedBy bundle,
      req.endpoint = .auditExport runId generatedBy ∧ (Fact.run runId tenant).In st ∧
      prepareBundle env req.moment st.db tenant runId generatedBy = .ok bundle ∧
      path = bundlePath env runId ∧ data = req.moment.zip bundle

/-- The endpoints whose handlers make a call. -/
def Call.SentBy (ep : Endpoint) : Call → Prop
  | .startRun runId agentId agentVersion environment metadata =>
      ep = .runsStart runId agentId agentVersion environment metadata
  | .appendEvents runId events => ep = .runsEvents runId events
  | .commitRun runId => ep = .runsCommit runId
  | .rollbackRun runId reason => ep = .runsRollback runId reason
  | .timeline runId limit cursor => ep = .runsTimeline runId limit cursor
  | .verify runId => ep = .runsVerify runId
  | .request body => ep = .approvalsRequest body
  | .decide approvalId decision reviewerId reason =>
      ep = .approvalsApprove approvalId reviewerId reason ∧ decision = "approved" ∨
        ep = .approvalsReject approvalId reviewerId reason ∧ decision = "rejected"
  | .pending => ep = .approvalsPending
  | .query body => ep = .queryEvents body
  | .exportRun runId generatedBy => ep = .auditExport runId generatedBy

theorem sentBy_of_call {ep : Endpoint} {call : Call} (h : ep.call = some call) : call.SentBy ep := by
  cases ep with
  | approvalsApprove approvalId reviewerId reason =>
      cases h
      exact .inl ⟨rfl, rfl⟩
  | approvalsReject approvalId reviewerId reason =>
      cases h
      exact .inr ⟨rfl, rfl⟩
  | runsGet | runsList | runsReplay | exportDownload => cases h
  | _ =>
      cases h
      exact rfl

theorem AgentRun.BelongsTo.unique {r : AgentRun} {p q : Principal} (hp : r.BelongsTo p)
    (hq : r.BelongsTo q) : p = q := by
  cases p
  cases q
  exact Principal.mk.injEq .. ▸ ⟨hp.1.symm.trans hq.1, hp.2.symm.trans hq.2⟩

theorem Approval.BelongsTo.unique {a : Approval} {p q : Principal} (hp : a.BelongsTo p)
    (hq : a.BelongsTo q) : p = q := by
  cases p
  cases q
  exact Principal.mk.injEq .. ▸ ⟨hp.1.symm.trans hq.1, hp.2.symm.trans hq.2⟩

/-- What is found in a table after a `put` was put there, or was there before. -/
theorem get_of_put {α : Type} {table : SortedMap String α} {k k' : String} {v w : α}
    (h : (table.put k v).get k' = some w) : k' = k ∧ w = v ∨ table.get k' = some w := by
  rw [SortedMap.get_put] at h
  split_ifs at h with hk
  · exact .inl ⟨hk, (Option.some.inj h).symm⟩
  · exact .inr h

/-- A run that is written again for its own tenant is no new run. -/
theorem run_of_rewrite {runs : SortedMap String AgentRun} {runId k : String} {old row : AgentRun}
    {p tenant : Principal} (hold : runs.get runId = some old) (hown : old.BelongsTo p)
    (hsame : row.BelongsTo p)
    (hin : ∃ r, (runs.put runId row).get k = some r ∧ r.BelongsTo tenant) :
    ∃ r, runs.get k = some r ∧ r.BelongsTo tenant := by
  rcases hin with ⟨r, hget, hr⟩
  rcases get_of_put hget with ⟨hk, rfl⟩ | hbefore
  · exact ⟨old, hk ▸ hold, hsame.unique hr ▸ hown⟩
  · exact ⟨r, hbefore, hr⟩

/-- An approval that is written again for its own tenant is no new approval. -/
theorem approval_of_rewrite {approvals : SortedMap String Approval} {approvalId k : String}
    {old row : Approval} {p tenant : Principal} (hold : approvals.get approvalId = some old)
    (hown : old.BelongsTo p) (hsame : row.BelongsTo p)
    (hin : ∃ a, (approvals.put approvalId row).get k = some a ∧ a.BelongsTo tenant) :
    ∃ a, approvals.get k = some a ∧ a.BelongsTo tenant := by
  rcases hin with ⟨a, hget, ha⟩
  rcases get_of_put hget with ⟨hk, rfl⟩ | hbefore
  · exact ⟨old, hk ▸ hold, hsame.unique ha ▸ hown⟩
  · exact ⟨a, hbefore, ha⟩

section Steps

variable {env : Env} {opens : String → Bool} {st : EvidenceStore} {r : Request} {req : Incoming}
  {db' : Database} {fact : Fact}

/-- What rows added to a run bring about, apart from the tenant of the run. -/
theorem Appends.origin {db : Database} {runId : String} {events : List EventInput}
    (hadds : Appends db r.principal runId events db') (hin : fact.In { st with db := db' }) :
    fact.In { st with db } ∨
      (∃ given, fact = .status runId given ∧
        ∃ event ∈ events, collectorStatus event.eventType = some given) ∨
      ∃ e, fact = .event e ∧ e.runId = runId ∧ e.BelongsTo r.principal ∧
        ∃ event ∈ events, e.eventType = event.eventType ∧ e.idempotencyKey = event.idempotencyKey := by
  cases hadds with
  | @mk run r' rows hrun hown hsame hstatus hrows =>
      cases fact with
      | run k tenant => exact .inl (run_of_rewrite hrun hown hsame hin)
      | status k given =>
          rcases hin with ⟨hgiven, row, hget, hrow⟩
          rcases get_of_put hget with ⟨hk, rfl⟩ | hbefore
          · rcases hstatus with hkept | hset
            · exact .inl ⟨hgiven, run, hk ▸ hrun, hkept.symm.trans hrow⟩
            · exact .inr (.inl ⟨given, by rw [hk], hrow ▸ hset⟩)
          · exact .inl ⟨hgiven, row, hbefore, hrow⟩
      | event e =>
          rcases List.mem_append.1 hin with hold | hnew
          · exact .inl hold
          · rcases hrows e hnew with ⟨hid, hbelongs, hevent⟩
            exact .inr (.inr ⟨e, rfl, hid, hbelongs, hevent⟩)
      | _ => exact .inl hin

/-- Step lemma for the tables: a new fact has its origin in the request. -/
theorem Effect.origin (h : Effect env st.db r db') (hmoment : req.moment = r.moment)
    (hsent : r.call.SentBy req.endpoint) (hin : fact.In { st with db := db' }) :
    fact.In st ∨ fact.From env st r.principal req := by
  cases h with
  | nothing => exact .inl hin
  | @started runId agentId environment agentVersion metadata row hcall hnew hown hstatus =>
      rw [hcall] at hsent
      cases fact with
      | run k tenant =>
          rcases hin with ⟨row', hget, hrow⟩
          rcases get_of_put hget with ⟨hk, rfl⟩ | hbefore
          · exact .inr ⟨hrow.unique hown, runId, agentId, agentVersion, environment, metadata, hsent,
              hmoment ▸ hk⟩
          · exact .inl ⟨row', hbefore, hrow⟩
      | status k given =>
          rcases hin with ⟨hgiven, row', hget, hrow⟩
          rcases get_of_put hget with ⟨hk, rfl⟩ | hbefore
          · -- a run that has just been opened is running
            exact absurd (hrow.symm.trans hstatus) hgiven
          · exact .inl ⟨hgiven, row', hbefore, hrow⟩
      | _ => exact .inl hin
  | @ended runId run row hrun hown hsame hcall =>
      cases fact with
      | run k tenant => exact .inl (run_of_rewrite hrun hown hsame hin)
      | status k given =>
          rcases hin with ⟨hgiven, row', hget, hrow⟩
          rcases get_of_put hget with ⟨hk, rfl⟩ | hbefore
          · refine .inr ⟨⟨run, hk ▸ hrun, hown⟩, ?_⟩
            rcases hcall with ⟨hcall, hended⟩ | ⟨reason, hcall, hended⟩
            · rw [hcall] at hsent
              exact .inl ⟨hk ▸ hsent, hrow.symm.trans hended⟩
            · rw [hcall] at hsent
              exact .inr (.inl ⟨⟨reason, hk ▸ hsent⟩, hrow.symm.trans hended⟩)
          · exact .inl ⟨hgiven, row', hbefore, hrow⟩
      | _ => exact .inl hin
  | @appended runId events _ hcall happends =>
      rw [hcall] at hsent
      have hrun : (Fact.run runId r.principal).In st := by
        cases happends with
        | mk hrun hown => exact ⟨_, hrun, hown⟩
      rcases happends.origin hin with hold | ⟨given, rfl, hset⟩ | ⟨e, rfl, hid, hown, hevent⟩
      · exact .inl hold
      · exact .inr ⟨hrun, .inr (.inr ⟨events, hsent, hset⟩)⟩
      · exact .inr ⟨hown, hid ▸ hrun, .inl ⟨events, hid ▸ hsent, hevent⟩⟩
  | @requested body row hcall hown hstatus =>
      rw [hcall] at hsent
      cases fact with
      | approval k tenant =>
          rcases hin with ⟨row', hget, hrow⟩
          rcases get_of_put hget with ⟨hk, rfl⟩ | hbefore
          · exact .inr ⟨hrow.unique hown, body, hsent, hmoment ▸ hk⟩
          · exact .inl ⟨row', hbefore, hrow⟩
      | decision k row' =>
          rcases hin with ⟨hget, hdecided⟩
          rcases get_of_put hget with ⟨hk, rfl⟩ | hbefore
          · exact absurd hstatus hdecided
          · exact .inl ⟨hbefore, hdecided⟩
      | _ => exact .inl hin
  | @decided approvalId decision reviewerId reason old row hcall hold hown hsame hstatus hreviewer =>
      rw [hcall] at hsent
      cases fact with
      | approval k tenant => exact .inl (approval_of_rewrite hold hown hsame hin)
      | decision k row' =>
          rcases hin with ⟨hget, hdecided⟩
          rcases get_of_put hget with ⟨hk, rfl⟩ | hbefore
          · refine .inr ⟨hsame, reviewerId, reason, hreviewer, ?_⟩
            rcases hsent with ⟨hep, hdecision⟩ | ⟨hep, hdecision⟩
            · exact .inl ⟨hk ▸ hep, hstatus.trans hdecision⟩
            · exact .inr ⟨hk ▸ hep, hstatus.trans hdecision⟩
          · exact .inl ⟨hbefore, hdecided⟩
      | _ => exact .inl hin
  | @exported runId generatedBy run row event _ hcall hrun hown hrow hnames htype hrest =>
      rw [hcall] at hsent
      rcases hnames with ⟨hid, hby, huri⟩
      -- the row of the export; its event is added to the run afterwards
      have hput : fact.In { st with db := { st.db with
          evidenceExports := st.db.evidenceExports.put row.exportId row } } →
            fact.In st ∨ fact.From env st r.principal req := by
        intro hin
        cases fact with
        | «export» k row' =>
            have hget : (st.db.evidenceExports.put row.exportId row).get k = some row' := hin
            rcases get_of_put hget with ⟨hk, rfl⟩ | hbefore
            · exact .inr ⟨hk.symm, hrow.1, hrow.2, hid ▸ huri, hid ▸ ⟨run, hrun, hown⟩,
                hid ▸ hby ▸ hsent⟩
            · exact .inl hbefore
        | _ => exact .inl hin
      rcases hrest with rfl | happends
      · exact hput hin
      · rcases happends.origin hin with
          hold | ⟨given, rfl, ev, hev, hset⟩ | ⟨e, rfl, hrunId, howned, ev, hev, hsame⟩
        · exact hput hold
        · -- the event of an export sets no status
          rw [List.mem_singleton.1 hev, htype] at hset
          cases hset
        · rw [List.mem_singleton.1 hev, htype] at hsame
          exact .inr ⟨howned, hrunId ▸ ⟨run, hrun, hown⟩, .inr ⟨generatedBy, hrunId ▸ hsent, hsame.1⟩⟩

theorem run_of_prepareBundle {m : Moment} {principal : Principal} {runId : String}
    {generatedBy : Option String} {bundle : Bundle}
    (h : prepareBundle env m st.db principal runId generatedBy = .ok bundle) :
    (Fact.run runId principal).In st := by
  unfold prepareBundle at h
  cases hrun : st.db.agentRuns.get runId with
  | none => simp [hrun] at h
  | some run =>
      simp only [hrun] at h
      split_ifs at h with hforbidden
      rcases not_or.1 hforbidden with ⟨horg, hproject⟩
      exact ⟨run, hrun, not_not.1 horg, not_not.1 hproject⟩

/-- Only an export writes a file, of the run that it names. -/
theorem archive_file {path : String} {data : Bytes}
    (hfile : (r.archive env opens st).files.get path = some data) :
    st.files.get path = some data ∨ ∃ runId generatedBy bundle,
      r.call = .exportRun runId generatedBy ∧ (Fact.run runId r.principal).In st ∧
      prepareBundle env r.moment st.db r.principal runId generatedBy = .ok bundle ∧
      path = bundlePath env runId ∧ data = r.moment.zip bundle := by
  rcases archive_cases env opens st r with ⟨hfiles, _⟩ | ⟨runId, generatedBy, bundle, hcall, hprepare, _, heq⟩
  · exact .inl (hfiles ▸ hfile)
  · rw [heq] at hfile
    dsimp only at hfile
    rw [SortedMap.get_put] at hfile
    split_ifs at hfile with hpath
    · exact .inr ⟨runId, generatedBy, bundle, hcall, run_of_prepareBundle hprepare, hprepare, hpath,
        (Option.some.inj hfile).symm⟩
    · exact .inl hfile

/-- The database is left alone where the archive of an export is not written. -/
theorem archive_db (env : Env) (opens : String → Bool) (st : EvidenceStore) (r : Request) :
    (r.archive env opens st).db = st.db ∨ (r.archive env opens st).db = r.run env st.db := by
  rcases archive_cases env opens st r with _ | ⟨runId, generatedBy, bundle, hcall, hprepare, hopens, heq⟩
  · unfold Request.archive
    split
    · split
      · exact .inl rfl
      · split_ifs
        · exact .inr rfl
        · exact .inl rfl
    · exact .inr rfl
  · exact .inr (by rw [heq])

theorem archive_effect (hdb : Sound st.db) : Effect env st.db r (r.archive env opens st).db := by
  rcases archive_db env opens st r with hsame | hrun
  · rw [hsame]
    exact .nothing
  · rw [hrun]
    exact r.effect hdb

theorem archive_origin (hdb : Sound st.db) (hmoment : req.moment = r.moment)
    (hsent : r.call.SentBy req.endpoint) (hin : fact.In (r.archive env opens st)) :
    fact.In st ∨ fact.From env st r.principal req := by
  cases fact with
  | file path data =>
      rcases archive_file hin with hold | ⟨runId, generatedBy, bundle, hcall, hrun, hprepare, hpath, hdata⟩
      · exact .inl hold
      · rw [hcall] at hsent
        exact .inr ⟨runId, generatedBy, bundle, hsent, hrun, hmoment ▸ hprepare, hpath, hmoment ▸ hdata⟩
  -- the other facts are about the database alone
  | _ => exact (archive_effect hdb).origin hmoment hsent hin

end Steps

/-! ## Runs of the server -/

section Server

variable {env : Env} {opens : String → Bool} {sv : Server} {fact : Fact}

theorem sound_server (step : ServerStep) (h : Sound sv.store.db) :
    Sound (step.run env opens sv).store.db := by
  cases step with
  | start s => exact h
  | edit accounts => exact h
  | serve req =>
      rcases serve_cases env opens sv req with hsame | ⟨row, call, _, _, heq⟩
      · rw [ServerStep.run, hsame]
        exact h
      · rw [ServerStep.run, heq]
        dsimp only
        rcases archive_db env opens sv.store ⟨req.moment, row.tenant, call⟩ with hdb | hdb
        · rw [hdb]
          exact h
        · rw [hdb]
          exact sound_of_changes h (Request.run_changes h _)

theorem sound_runServer (env : Env) (opens : String → Bool) (steps : List ServerStep) :
    Sound (runServer env opens {} steps).store.db :=
  List.foldlRecOn (motive := fun sv : Server => Sound sv.store.db) steps _ sound_empty
    fun _ hsv step _ => sound_server step hsv

/-- Step lemma: a fact is there already, or an authorized request brings it about. -/
theorem server_origin {step : ServerStep} (hdb : Sound sv.store.db)
    (hin : fact.In (step.run env opens sv).store) :
    fact.In sv.store ∨ ∃ req row, step = .serve req ∧ Authorized env sv req row ∧
      fact.From env sv.store row.tenant req := by
  cases step with
  | start s => exact .inl hin
  | edit accounts => exact .inl hin
  | serve req =>
      rcases serve_cases env opens sv req with hsame | ⟨row, call, hauthorized, hcall, heq⟩
      · rw [ServerStep.run, hsame] at hin
        exact .inl hin
      · rw [ServerStep.run, heq] at hin
        rcases @archive_origin env opens sv.store ⟨req.moment, row.tenant, call⟩ req fact hdb rfl
          (sentBy_of_call hcall) hin with hold | hfrom
        · exact .inl hold
        · exact .inr ⟨req, row, rfl, hauthorized, hfrom⟩

end Server

/-- Run lemma: what is stored in the end was stored at first, or goes back to a request on the way. -/
theorem stored_origin (env : Env) (opens : String → Bool) {sv : Server} (hdb : Sound sv.store.db)
    (steps : List ServerStep) (fact : Fact) (h : fact.In (runServer env opens sv steps).store) :
    fact.In sv.store ∨ ∃ before req after row, steps = before ++ .serve req :: after ∧
      Authorized env (runServer env opens sv before) req row ∧
      fact.From env (runServer env opens sv before).store row.tenant req := by
  rcases @exists_origin Server ServerStep Fact (ServerStep.run env opens)
      (fun sv => Sound sv.store.db) (fun sv fact => fact.In sv.store)
      (fun sv step fact => ∃ req row, step = .serve req ∧ Authorized env sv req row ∧
        fact.From env sv.store row.tenant req)
      sv hdb (fun step hdb => sound_server step hdb) (fun hdb hin => server_origin hdb hin) steps
      fact h with hfirst | ⟨before, step, after, hsteps, req, row, rfl, hauthorized, hfrom⟩
  · exact .inl hfirst
  · exact .inr ⟨before, req, after, row, hsteps, hauthorized, hfrom⟩

theorem not_in_empty (fact : Fact) : ¬ fact.In {} := by
  cases fact <;> simp [Fact.In]

/-- Everything that is stored goes back to a request that somebody with the right key made, as the
server was at that time; starts and edits of the keys may come between. -/
theorem stored_by_authorized (env : Env) (opens : String → Bool) (steps : List ServerStep)
    (fact : Fact) (h : fact.In (runServer env opens {} steps).store) :
    ∃ before req after row, steps = before ++ .serve req :: after ∧
      Authorized env (runServer env opens {} before) req row ∧
      fact.From env (runServer env opens {} before).store row.tenant req :=
  (stored_origin env opens sound_empty steps fact h).resolve_left (not_in_empty fact)

namespace ServerExample

/-- SQLite without redaction rules. -/
def env : Env where
  sha256 := AuthExample.sha256
  bindString
    | .leaf .none => some none
    | .leaf (.str s) => some (some s)
    | _ => none
  storeDatetime := DateTime.naive
  fromisoformat _ := none
  redact value := value
  objectStoreDir := "controldb_artifacts"

def incoming (endpoint : Endpoint) : Incoming :=
  ⟨some "Bearer test-key", CollectorExample.moment, endpoint, true⟩

def request (endpoint : Endpoint) : ServerStep :=
  .serve (incoming endpoint)

def opened : List ServerStep :=
  [.start AuthExample.settings, request (.runsStart (some "run_1") "repeat-agent" none "dev" [])]

end ServerExample

theorem stored_by_authorized_run :
    ∃ before req after row, ServerExample.opened = before ++ .serve req :: after ∧
      Authorized ServerExample.env (runServer ServerExample.env (fun _ => true) {} before) req row ∧
      (Fact.run "run_1" CollectorExample.owner).From ServerExample.env
        (runServer ServerExample.env (fun _ => true) {} before).store row.tenant req :=
  stored_by_authorized ServerExample.env (fun _ => true) ServerExample.opened
    (.run "run_1" CollectorExample.owner) (by
      have hrun : ((runServer ServerExample.env (fun _ => true) {}
          ServerExample.opened).store.db.agentRuns.get "run_1").any
            (fun r => decide (r.orgId = "org_default" ∧ r.projectId = "proj_default")) = true := by
        decide +kernel
      rcases Option.any_eq_true _ _ |>.1 hrun with ⟨r, hget, hown⟩
      exact ⟨r, hget, of_decide_eq_true hown⟩)

end Collector
end ControlDB
