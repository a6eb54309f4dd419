import ControlDB.Collector.BundleAudit
import ControlDB.Collector.Redaction
import ControlDB.Collector.Sound

/-!
# Exports that are audited away from the database

`Exportable` is what every request keeps of a sound database as long as the clients send JSON: the JSON
columns hold JSON, and an event has the environment of its run.  So an auditor who only has the files of an
export reads them as they were made, and comes to the verdict of `verify` on the database.
-/

namespace ControlDB
namespace Collector

open Library Python

section Stored

variable {readFloat : List Char → Option FloatRepr}

/-! ## Redaction -/

section Redaction

variable {sha256 : Sha256} {repr : PyJson → String} {rules : List CollectorRedactionRule}

theorem isJson_applyRule {value : PyJson} (mode : RedactionMode) :
    IsJson readFloat (applyRule sha256 repr value mode) := by
  cases mode
  · exact isJson_str _
  · exact isJson_str _
  · exact isJson_none

theorem isJson_walkField {k : String} {value walked : PyJson} (h : IsJson readFloat walked) :
    IsJson readFloat (walkField sha256 repr rules k value walked) := by
  unfold walkField
  split
  · exact isJson_applyRule _
  · exact h

theorem keys_walkMembers (members : List (String × PyJson)) :
    (walkMembers sha256 repr rules members).map Prod.fst = members.map Prod.fst := by
  induction members with
  | nil => rfl
  | cons m members ih =>
      rw [walkMembers, List.map_cons, List.map_cons, ih]

mutual

theorem isJson_walk : ∀ {v : PyJson}, IsJson readFloat v → IsJson readFloat (walk sha256 repr rules v)
  | .obj members, h => by
      rcases isJson_obj_iff.1 h with ⟨hkeys, hmembers⟩
      rw [walk, isJson_obj_iff, keys_walkMembers]
      exact ⟨hkeys, isJson_walkMembers hmembers⟩
  | .arr items, h => by
      rw [walk]
      exact isJson_arr_iff.2 (isJson_walkItems (isJson_arr_iff.1 h))
  | .leaf (.str s), h => by
      rw [walk]
      split
      · exact isJson_applyRule _
      · exact isJson_str s
  | .leaf .none, h => h
  | .leaf (.bool _), h => h
  | .leaf (.int _), h => h
  | .leaf (.float _), h => h
  | .leaf .unencodable, h => h

theorem isJson_walkItems : ∀ {items : List PyJson}, (∀ v ∈ items, IsJson readFloat v) →
    ∀ v ∈ walkItems sha256 repr rules items, IsJson readFloat v
  | [], _ => by simp [walkItems]
  | v :: rest, h => by
      rw [walkItems]
      exact List.forall_mem_cons.2 ⟨isJson_walk (h v List.mem_cons_self),
        isJson_walkItems fun w hw => h w (List.mem_cons_of_mem _ hw)⟩

theorem isJson_walkMembers : ∀ {members : List (String × PyJson)},
    (∀ m ∈ members, IsJson readFloat m.2) →
      ∀ m ∈ walkMembers sha256 repr rules members, IsJson readFloat m.2
  | [], _ => by simp [walkMembers]
  | (k, v) :: rest, h => by
      rw [walkMembers]
      exact List.forall_mem_cons.2 ⟨isJson_walkField (isJson_walk (h (k, v) List.mem_cons_self)),
        isJson_walkMembers fun w hw => h w (List.mem_cons_of_mem _ hw)⟩

end

/-- What redaction makes of JSON is JSON. -/
theorem isJson_applyCollectorRedaction {v : PyJson} (h : IsJson readFloat v) :
    IsJson readFloat (applyCollectorRedaction sha256 repr rules v) := by
  unfold applyCollectorRedaction
  split
  · exact isJson_none
  · exact isJson_walk h

end Redaction

/-! ## The invariant -/

/-- The JSON columns hold JSON, and an event has the environment of its run. -/
structure Exportable (readFloat : List Char → Option FloatRepr) (db : Database) : Prop where
  metadata : ∀ {k r}, db.agentRuns.get k = some r → IsJson readFloat (.obj r.metadataJson)
  payload : ∀ e ∈ db.auditEvents, IsJson readFloat e.payload
  environment : ∀ e ∈ db.auditEvents, ∃ r, db.agentRuns.get e.runId = some r ∧
    e.environment = r.environment
  input : ∀ {k a}, db.approvals.get k = some a → IsJson readFloat a.inputJson

theorem exportable_empty : Exportable readFloat {} where
  metadata := by simp
  payload := by simp
  environment := by simp
  input := by simp

/-- A body that JSON has a text for. -/
def Request.SendsJson (readFloat : List Char → Option FloatRepr) (r : Request) : Prop :=
  match r.call with
  | .startRun _ _ _ _ metadata => IsJson readFloat (.obj metadata)
  | .appendEvents _ events => ∀ e ∈ events, IsJson readFloat e.payload
  | .request body => IsJson readFloat body.input
  | _ => True

/-- A write that leaves a database exportable. -/
inductive Stores (readFloat : List Char → Option FloatRepr) (db : Database) : Database → Prop
  | run {k : String} {r : AgentRun} (hmetadata : IsJson readFloat (.obj r.metadataJson))
      (hold : ∀ old, db.agentRuns.get k = some old → old.environment = r.environment) :
      Stores readFloat db { db with agentRuns := db.agentRuns.put k r }
  | events {rows : List AuditEvent} (hpayload : ∀ e ∈ rows, IsJson readFloat e.payload)
      (henvironment : ∀ e ∈ rows, ∃ r, db.agentRuns.get e.runId = some r ∧
        e.environment = r.environment) :
      Stores readFloat db { db with auditEvents := db.auditEvents ++ rows }
  | approval {k : String} {a : Approval} (hinput : IsJson readFloat a.inputJson) :
      Stores readFloat db { db with approvals := db.approvals.put k a }
  | export {k : String} {row : EvidenceExport} :
      Stores readFloat db { db with evidenceExports := db.evidenceExports.put k row }

variable {env : Env} {m : Moment} {principal : Principal} {db db' : Database}

/-- Step lemma. -/
theorem Stores.exportable (hdb : Exportable readFloat db) (h : Stores readFloat db db') :
    Exportable readFloat db' := by
  cases h with
  | @run k r hmetadata hold =>
      refine { hdb with metadata := ?_, environment := ?_ }
      · intro k' r' hget
        dsimp only at hget
        rw [SortedMap.get_put] at hget
        split_ifs at hget with hk
        · cases hget
          exact hmetadata
        · exact hdb.metadata hget
      · intro e he
        rcases hdb.environment e he with ⟨old, hget, henvironment⟩
        dsimp only
        rw [SortedMap.get_put]
        split_ifs with hk
        · rw [hk] at hget
          exact ⟨r, rfl, henvironment.trans (hold old hget)⟩
        · exact ⟨old, hget, henvironment⟩
  | @events rows hpayload henvironment =>
      exact { hdb with
        payload := List.forall_mem_append.2 ⟨hdb.payload, hpayload⟩
        environment := List.forall_mem_append.2 ⟨hdb.environment, henvironment⟩ }
  | @approval k a hinput =>
      refine { hdb with input := ?_ }
      intro k' a' hget
      dsimp only at hget
      rw [SortedMap.get_put] at hget
      split_ifs at hget with hk
      · cases hget
        exact hinput
      · exact hdb.input hget
  | «export» => exact { hdb with }

theorem exportable_of_stores (hdb : Exportable readFloat db)
    (h : Relation.ReflTransGen (Stores readFloat) db db') : Exportable readFloat db' := by
  induction h with
  | refl => exact hdb
  | tail _ hstep ih => exact hstep.exportable ih

/-! ## The services -/

theorem startRun_stores {runId : Option String} {agentId environment : String}
    {agentVersion : Option String} {metadata : List (String × PyJson)} {out : StartedRun}
    (hmetadata : IsJson readFloat (.obj metadata))
    (h : startRun env m db principal runId agentId agentVersion environment metadata =
      .ok (db', out)) : Relation.ReflTransGen (Stores readFloat) db db' := by
  unfold startRun at h
  split_ifs at h with hagent
  dsimp only at h
  cases hget : db.agentRuns.get ((truthy runId).getD ("run_" ++ m.ulid 0)) with
  | some existing =>
      simp only [hget, Except.ok.injEq, Prod.mk.injEq] at h
      rw [h.1]
  | none =>
      simp only [hget, Except.ok.injEq, Prod.mk.injEq] at h
      rw [← h.1]
      refine .single (.run hmetadata fun old hold => ?_)
      rw [hget] at hold
      cases hold

theorem commitRun_stores (hdb : Exportable readFloat db) {runId : String} {out : StartedRun}
    (h : commitRun env m db principal runId = .ok (db', out)) :
    Relation.ReflTransGen (Stores readFloat) db db' := by
  unfold commitRun at h
  cases hauth : authorizeRun db principal runId with
  | error e => simp [hauth, Bind.bind, Except.bind] at h
  | ok run =>
      have hrun := (authorizeRun_eq_ok hauth).1
      simp only [hauth, Bind.bind, Except.bind, pure, Except.pure, Except.ok.injEq,
        Prod.mk.injEq] at h
      rw [← h.1]
      have hmetadata := hdb.metadata hrun
      refine .single (.run hmetadata fun old hold => ?_)
      rw [hrun] at hold
      rw [← Option.some.inj hold]

theorem isJson_withMember {members : List (String × PyJson)} {key : String} {value : PyJson}
    (hmembers : IsJson readFloat (.obj members)) (hvalue : IsJson readFloat value) :
    IsJson readFloat (.obj (withMember members key value)) := by
  rcases isJson_obj_iff.1 hmembers with ⟨hnodup, hjson⟩
  unfold withMember
  split_ifs with hany
  · -- the keys stay where they are
    have hkeys : (members.map fun member =>
        if member.1 = key then (key, value) else member).map Prod.fst = members.map Prod.fst := by
      rw [List.map_map]
      refine List.map_congr_left fun member _ => ?_
      rw [Function.comp_apply]
      split_ifs with hkey
      · exact hkey.symm
      · rfl
    refine isJson_obj_iff.2 ⟨hkeys ▸ hnodup, List.forall_mem_map.2 fun member hmem => ?_⟩
    split_ifs with hkey
    · exact hvalue
    · exact hjson member hmem
  · have hnew : key ∉ members.map Prod.fst := by
      intro hmem
      rcases List.mem_map.1 hmem with ⟨member, hmember, hkey⟩
      exact hany (List.any_eq_true.2 ⟨member, hmember, decide_eq_true hkey⟩)
    refine isJson_obj_iff.2 ⟨?_, List.forall_mem_append.2 ⟨hjson, by simpa using hvalue⟩⟩
    rw [List.map_append, List.map_singleton]
    exact hnodup.append (List.nodup_singleton key) (List.disjoint_singleton.2 hnew)

theorem rollbackRun_stores (hdb : Exportable readFloat db) {runId : String}
    {reason : Option String} {out : StartedRun}
    (h : rollbackRun env m db principal runId reason = .ok (db', out)) :
    Relation.ReflTransGen (Stores readFloat) db db' := by
  unfold rollbackRun at h
  cases hauth : authorizeRun db principal runId with
  | error e => simp [hauth, Bind.bind, Except.bind] at h
  | ok run =>
      have hrun := (authorizeRun_eq_ok hauth).1
      simp only [hauth, Bind.bind, Except.bind, pure, Except.pure, Except.ok.injEq,
        Prod.mk.injEq] at h
      rw [← h.1]
      have hmetadata := hdb.metadata hrun
      refine .single (.run ?_ fun old hold => ?_)
      · cases truthy reason with
        | none => exact hmetadata
        | some text => exact isJson_withMember hmetadata (isJson_str text)
      · rw [hrun] at hold
        rw [← Option.some.inj hold]

theorem newRow_exportable {i sequence : Nat} {run : AgentRun} {event : EventInput}
    {previousHash : Option String} {row : AuditEvent}
    (hredact : ∀ v, IsJson readFloat v → IsJson readFloat (env.redact v))
    (hpayload : IsJson readFloat event.payload)
    (h : newRow env m i sequence principal run event previousHash = .ok row) :
    IsJson readFloat row.payload ∧ row.environment = run.environment := by
  have hfields := (newRow_fields h ⟨rfl, rfl⟩).1
  have henvironment : row.environment = run.environment := hfields.environment
  have hsame : row.payload = redactedPayload env event := hfields.payload
  refine ⟨?_, henvironment⟩
  rw [hsame, redactedPayload]
  split_ifs
  · exact hpayload
  · exact hredact _ hpayload

theorem AppendRun.exportable {run : AgentRun} {i : Nat} {events : List EventInput}
    {s s' : AppendSession} {previousHash lastHash : Option String} {answers : List AuditEvent}
    (hdb : Sound db) (hrun : db.agentRuns.get run.runId = some run)
    (hredact : ∀ v, IsJson readFloat v → IsJson readFloat (env.redact v))
    (h : AppendRun env m db principal i events s previousHash s' lastHash answers)
    (hpayload : ∀ e ∈ events, IsJson readFloat e.payload) (hs : SessionInv db principal run s)
    (hrows : ∀ e ∈ s.flushed, IsJson readFloat e.payload ∧ e.environment = run.environment) :
    ∀ e ∈ s'.flushed, IsJson readFloat e.payload ∧ e.environment = run.environment := by
  induction h with
  | nil => exact hrows
  | @cons i event rest s s₁ s' previousHash lastHash answer answers hfirst _ ih =>
      refine ih (List.forall_mem_cons.1 hpayload).2 (hfirst.sessionInv hdb hrun hs) ?_
      cases hfirst with
      | replayed hfind => exact hrows
      | recovered hnone hrow hclash hfind hreload => simp
      | stored hnone hrow hfree =>
          have hnew := newRow_exportable hredact (List.forall_mem_cons.1 hpayload).1 hrow
          have henvironment : s.run.environment = run.environment := by rw [hs.sameRun]
          refine List.forall_mem_append.2 ⟨hrows, List.forall_mem_singleton.2 ?_⟩
          exact ⟨hnew.1, hnew.2.trans henvironment⟩

theorem appendEvents_stores (hsound : Sound db) (hdb : Exportable readFloat db)
    (hredact : ∀ v, IsJson readFloat v → IsJson readFloat (env.redact v)) {runId : String}
    {events : List EventInput} {ids : List String}
    (hpayload : ∀ e ∈ events, IsJson readFloat e.payload)
    (h : appendEvents env m db principal runId events = .ok (db', ids)) :
    Relation.ReflTransGen (Stores readFloat) db db' := by
  cases appended_of_ok h with
  | empty => exact .refl
  | @batch _ run s lastHash answers hrun horg hproject hne hanswers =>
      obtain rfl := hsound.runKey hrun
      have hload := sessionInv_load hsound principal run
      have hs := hanswers.sessionInv hsound hrun hload
      have hrows := hanswers.exportable hsound hrun hredact hpayload hload (by simp)
      have hmetadata := hdb.metadata hrun
      rw [hs.commit_eq hrun]
      -- the run is written first, so that the rows find its environment
      refine .head (.run (r := s.finalRun run lastHash answers.length) hmetadata fun old hold => ?_)
        (.single (.events (fun e he => (hrows e he).1) ?_))
      · rw [hrun] at hold
        rw [← Option.some.inj hold]
        rfl
      · intro e he
        refine ⟨s.finalRun run lastHash answers.length, ?_, (hrows e he).2⟩
        rw [(hs.own e he).1, SortedMap.get_put_self]

theorem requestApproval_stores {body : ApprovalBody} {out : ApprovalDict}
    (hinput : IsJson readFloat body.input)
    (h : requestApproval env m db principal body = .ok (db', out)) :
    Relation.ReflTransGen (Stores readFloat) db db' := by
  unfold requestApproval at h
  dsimp only at h
  cases hget : db.approvals.get ((truthy body.approvalId).getD ("appr_" ++ m.ulid 0)) with
  | some existing =>
      simp only [hget, Except.ok.injEq, Prod.mk.injEq] at h
      rw [h.1]
  | none =>
      simp only [hget, Except.ok.injEq, Prod.mk.injEq] at h
      rw [← h.1]
      exact .single (.approval hinput)

theorem decideApproval_stores (hdb : Exportable readFloat db)
    {approvalId decision reviewerId : String} {reason : Option String} {out : ApprovalDict}
    (h : decideApproval env m db principal approvalId decision reviewerId reason =
      .ok (db', out)) : Relation.ReflTransGen (Stores readFloat) db db' := by
  unfold decideApproval at h
  split_ifs at h with hdecision
  cases hget : db.approvals.get approvalId with
  | none => simp [hget] at h
  | some row =>
      simp only [hget] at h
      split_ifs at h with hforbidden
      simp only [Except.ok.injEq, Prod.mk.injEq] at h
      rw [← h.1]
      have hinput := hdb.input hget
      exact .single (.approval hinput)

theorem isJson_exportEvent (res : ExportResult) : IsJson readFloat (exportEvent m res).payload := by
  refine isJson_obj_iff.2 ⟨?_, ?_⟩
  · simp
  · simp

theorem exportRun_stores (hsound : Sound db) (hdb : Exportable readFloat db)
    (hredact : ∀ v, IsJson readFloat v → IsJson readFloat (env.redact v)) {runId : String}
    {generatedBy : Option String} {res : ExportResult} {bundle : Bundle}
    (h : exportRun env m db principal runId generatedBy = .ok (db', res, bundle)) :
    Relation.ReflTransGen (Stores readFloat) db db' := by
  rcases exportRun_eq_ok h with ⟨run, verification, hrun, hown, hverify, hbundle, hres, rfl⟩
  have hexport : Stores readFloat db { db with
      evidenceExports := db.evidenceExports.put res.exportId
        (exportRow env m principal runId generatedBy res) } := .export
  have hchange : Change env principal db { db with
      evidenceExports := db.evidenceExports.put res.exportId
        (exportRow env m principal runId generatedBy res) } := .quiet .export
  have hsound' := hchange.sound hsound
  refine .head hexport ?_
  unfold recordExport
  cases happend : appendEvents env (m.later 2) { db with
      evidenceExports := db.evidenceExports.put res.exportId
        (exportRow env m principal runId generatedBy res) } principal runId [exportEvent m res] with
  | error e => exact .refl
  | ok out =>
      exact appendEvents_stores hsound' (hexport.exportable hdb) hredact
        (List.forall_mem_singleton.2 (isJson_exportEvent res)) happend

/-! ## Runs of the collector -/

theorem Request.perform_stores {r : Request} {answer : Answer} (hsound : Sound db)
    (hdb : Exportable readFloat db)
    (hredact : ∀ v, IsJson readFloat v → IsJson readFloat (env.redact v))
    (hsends : r.SendsJson readFloat) (h : r.perform env db = .ok (db', answer)) :
    Relation.ReflTransGen (Stores readFloat) db db' := by
  unfold Request.perform at h
  unfold Request.SendsJson at hsends
  cases hcall : r.call with
  | startRun runId agentId agentVersion environment metadata =>
      rcases exists_of_map_eq_ok (by simpa only [hcall] using h) with ⟨⟨db₁, out⟩, hout, heq⟩
      cases heq
      exact startRun_stores (by simpa only [hcall] using hsends) hout
  | appendEvents runId events =>
      rcases exists_of_map_eq_ok (by simpa only [hcall] using h) with ⟨⟨db₁, out⟩, hout, heq⟩
      cases heq
      exact appendEvents_stores hsound hdb hredact (by simpa only [hcall] using hsends) hout
  | commitRun runId =>
      rcases exists_of_map_eq_ok (by simpa only [hcall] using h) with ⟨⟨db₁, out⟩, hout, heq⟩
      cases heq
      exact commitRun_stores hdb hout
  | rollbackRun runId reason =>
      rcases exists_of_map_eq_ok (by simpa only [hcall] using h) with ⟨⟨db₁, out⟩, hout, heq⟩
      cases heq
      exact rollbackRun_stores hdb hout
  | timeline runId limit cursor =>
      rcases exists_of_map_eq_ok (by simpa only [hcall] using h) with ⟨out, hout, heq⟩
      cases heq
      exact .refl
  | verify runId =>
      rcases exists_of_map_eq_ok (by simpa only [hcall] using h) with ⟨out, hout, heq⟩
      cases heq
      exact .refl
  | request body =>
      rcases exists_of_map_eq_ok (by simpa only [hcall] using h) with ⟨⟨db₁, out⟩, hout, heq⟩
      cases heq
      exact requestApproval_stores (by simpa only [hcall] using hsends) hout
  | decide approvalId decision reviewerId reason =>
      rcases exists_of_map_eq_ok (by simpa only [hcall] using h) with ⟨⟨db₁, out⟩, hout, heq⟩
      cases heq
      exact decideApproval_stores hdb hout
  | pending =>
      simp only [hcall, Except.ok.injEq, Prod.mk.injEq] at h
      rw [h.1]
  | query body =>
      simp only [hcall, Except.ok.injEq, Prod.mk.injEq] at h
      rw [h.1]
  | exportRun runId generatedBy =>
      rcases exists_of_map_eq_ok (by simpa only [hcall] using h) with ⟨⟨db₁, out⟩, hout, heq⟩
      cases heq
      exact exportRun_stores hsound hdb hredact hout

theorem Request.run_exportable {r : Request} (hsound : Sound db) (hdb : Exportable readFloat db)
    (hredact : ∀ v, IsJson readFloat v → IsJson readFloat (env.redact v))
    (hsends : r.SendsJson readFloat) : Exportable readFloat (r.run env db) := by
  unfold Request.run
  cases hperform : r.perform env db with
  | error e => exact hdb
  | ok out => exact exportable_of_stores hdb (r.perform_stores hsound hdb hredact hsends hperform)

/-- Run lemma: as long as the clients send JSON, whatever they do can be exported. -/
theorem exportable_runRequests (env : Env) (requests : List Request)
    (hredact : ∀ v, IsJson readFloat v → IsJson readFloat (env.redact v))
    (hsends : ∀ r ∈ requests, r.SendsJson readFloat) :
    Exportable readFloat (runRequests env {} requests) := by
  have hboth := List.foldlRecOn (motive := fun db => Sound db ∧ Exportable readFloat db) requests
    (Request.run env) ⟨sound_empty, exportable_empty⟩ fun db hdb r hr =>
      ⟨sound_of_changes hdb.1 (r.run_changes hdb.1),
        r.run_exportable hdb.1 hdb.2 hredact (hsends r hr)⟩
  exact hboth.2

/-! ## The audit of an export -/

/-- The parts of the bundle that an export writes. -/
theorem Exportable.holdsJson (hdb : Exportable readFloat db) {runId exportId : String}
    {generatedBy : Option String} {run : AgentRun} (hrun : db.agentRuns.get runId = some run)
    (v : Verification) :
    (makeBundle m exportId generatedBy run (runEvents db runId) (runApprovals db runId) v).HoldsJson
      readFloat := by
  have hrows : ∀ e ∈ (runEvents db runId).map eventToDict, IsJson readFloat e.payload := by
    refine List.forall_mem_map.2 fun e he => hdb.payload e ?_
    exact (List.mem_filter.1 ((List.mem_insertionSort _).1 he)).1
  refine ⟨hdb.metadata hrun, hrows, ?_, ?_, ?_⟩
  · exact List.forall_mem_map.2 fun e he => hrows e (List.mem_filter.1 he).1
  · exact fun e he => hrows e (List.mem_filter.1 he).1
  · refine List.forall_mem_map.2 fun a ha => ?_
    rcases List.mem_map.1 (List.mem_filter.1 ha).1 with ⟨entry, hentry, rfl⟩
    exact hdb.input (SortedMap.get_eq_some_iff.2 hentry)

theorem verify_parts {runId : String} {run : AgentRun} {v : Verification}
    (hrun : db.agentRuns.get runId = some run) (h : verify env db principal runId = .ok v) :
    ∃ brokenAt, verifyLoop env run none (runEvents db runId) = .ok brokenAt ∧
      v = ⟨runId, brokenAt.isNone, (runEvents db runId).length, brokenAt⟩ := by
  unfold verify at h
  cases hauth : authorizeRun db principal runId with
  | error e => simp [hauth, Bind.bind, Except.bind] at h
  | ok run' =>
      have hsame : run' = run := Option.some.inj ((authorizeRun_eq_ok hauth).1.symm.trans hrun)
      simp only [hauth, hsame, Bind.bind, Except.bind] at h
      cases hloop : verifyLoop env run none (runEvents db runId) with
      | error e => simp [hloop] at h
      | ok brokenAt =>
          simp only [hloop, pure, Except.pure, Except.ok.injEq] at h
          exact ⟨brokenAt, rfl, h.symm⟩

/-- The auditor comes to the verdict of `verify`. -/
theorem audit_dossier (hsound : Sound db) (hdb : Exportable readFloat db) {runId exportId : String}
    {generatedBy : Option String} {run : AgentRun} (hrun : db.agentRuns.get runId = some run)
    {v : Verification} (hverify : verify env db principal runId = .ok v) :
    audit env.sha256 (makeBundle m exportId generatedBy run (runEvents db runId)
      (runApprovals db runId) v).dossier = some v := by
  have hhome : ∀ e ∈ runEvents db runId, AtHome run e := by
    intro e he
    rcases List.mem_filter.1 ((List.mem_insertionSort _).1 he) with ⟨hmem, hid⟩
    rcases hsound.eventRun e hmem with ⟨r, hget, horg, hproject⟩
    rcases hdb.environment e hmem with ⟨r', hget', henvironment⟩
    have hr : r = run := by
      rw [of_decide_eq_true hid, hrun] at hget
      exact (Option.some.inj hget).symm
    have hr' : r' = run := by
      rw [of_decide_eq_true hid, hrun] at hget'
      exact (Option.some.inj hget').symm
    subst hr hr'
    exact ⟨horg.symm, hproject.symm, henvironment⟩
  rcases verify_parts hrun hverify with ⟨brokenAt, hloop, rfl⟩
  have hid : textOf (field (.obj (runToDict run).members) "run_id") = some runId :=
    congrArg some (hsound.runKey hrun)
  have haudit : auditLoop env.sha256 (.obj (runToDict run).members) none
      ((runEvents db runId).map fun e => .obj (eventToDict e).members) = some brokenAt := by
    rw [auditLoop_eq hhome, hloop]
    rfl
  simp only [audit, makeBundle, Bundle.dossier, List.map_map, List.length_map, hid]
  exact congrArg (Option.map _) haudit

/-- For every database that requests lead to, the files of an export are read as they were made, and
whoever checks them comes to the verdict of `verify`, which the manifest states. -/
theorem audit_exported (hrepr : ReprReads readFloat)
    (hredact : ∀ v, IsJson readFloat v → IsJson readFloat (env.redact v)) {requests : List Request}
    (hsends : ∀ r ∈ requests, r.SendsJson readFloat) {runId : String} {generatedBy : Option String}
    {res : ExportResult} {bundle : Bundle}
    (h : exportRun env m (runRequests env {} requests) principal runId generatedBy =
      .ok (db', res, bundle)) :
    ∃ v, verify env (runRequests env {} requests) principal runId = .ok v ∧
      Dossier.read readFloat bundle.files = some bundle.dossier ∧
      audit env.sha256 bundle.dossier = some v ∧
      field bundle.dossier.manifest "hash_chain_valid" = PyJson.bool v.valid ∧
      field bundle.dossier.manifest "broken_at_event_id" = PyJson.optStr v.brokenAtEventId ∧
      field bundle.dossier.manifest "event_count" = PyJson.int v.eventCount := by
  have hsound := sound_runRequests env requests
  have hdb := exportable_runRequests env requests hredact hsends
  rcases exportRun_eq_ok h with ⟨run, v, hrun, _, hverify, rfl, _, _⟩
  have hcount : ((runEvents (runRequests env {} requests) runId).map eventToDict).length =
      v.eventCount := by
    rcases verify_parts hrun hverify with ⟨brokenAt, _, rfl⟩
    exact List.length_map _
  refine ⟨v, hverify, Bundle.read_files hrepr (hdb.holdsJson hrun v),
    audit_dossier hsound hdb hrun hverify, rfl, rfl, ?_⟩
  exact congrArg (fun n : Nat => PyJson.int n) hcount

end Stored

open CollectorExample in
theorem audit_exported_run_1 :
    ∃ db' res bundle v,
      exportRun env moment (runRequests env {} [start, append [event "evt_a" (some "idem_a")]]) owner
        "run_1" none = .ok (db', res, bundle) ∧
      verify env (runRequests env {} [start, append [event "evt_a" (some "idem_a")]]) owner "run_1" =
        .ok v ∧
      Dossier.read (fun _ => none) bundle.files = some bundle.dossier ∧
      audit env.sha256 bundle.dossier = some v := by
  have hreturns : (exportRun env moment
      (runRequests env {} [start, append [event "evt_a" (some "idem_a")]]) owner "run_1"
        none).toOption.isSome = true := by
    decide +kernel
  have hrepr : ReprReads fun _ => none := fun _ _ h => by cases h
  have hsends : ∀ r ∈ [start, append [event "evt_a" (some "idem_a")]],
      r.SendsJson fun _ => none := by
    refine List.forall_mem_cons.2 ⟨?_, List.forall_mem_singleton.2 ?_⟩
    · exact isJson_obj_iff.2 ⟨List.nodup_nil, by simp⟩
    · exact List.forall_mem_singleton.2 isJson_none
  cases hexport : exportRun env moment
      (runRequests env {} [start, append [event "evt_a" (some "idem_a")]]) owner "run_1" none with
  | error e =>
      rw [hexport] at hreturns
      cases hreturns
  | ok out =>
      rcases out with ⟨db', res, bundle⟩
      rcases audit_exported hrepr (fun _ h => h) hsends hexport with
        ⟨v, hverify, hread, haudit, _⟩
      exact ⟨db', res, bundle, v, rfl, hverify, hread, haudit⟩

end Collector
end ControlDB
