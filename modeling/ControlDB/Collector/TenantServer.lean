import ControlDB.Collector.Isolation
import ControlDB.Collector.Provenance

/-!
# Tenants of a server

A download hands out what the caller's own tenant exported (`download_own`).  A tenant whose keys are
revoked keeps its rows and archives as they are, also over restarts (`revoked_keeps`).
-/

namespace ControlDB
namespace Collector

open Library Python Http

/-! ## Downloads -/

section Downloads

variable {env : Env} {opens : String → Bool} {sv : Server} {r : Request} {req : Incoming}
  {db db' : Database} {data : Bytes}

theorem bundlePath_injective {runId runId' : String}
    (h : bundlePath env runId = bundlePath env runId') : runId = runId' := by
  unfold bundlePath at h
  have hlists := congrArg String.toList h
  simpa [String.toList_append, String.toList_inj] using hlists

/-- A run that is rewritten for its tenant stays with it. -/
theorem exists_run_put {k runId : String} {old row run : AgentRun} {principal tenant : Principal}
    (hold : db.agentRuns.get k = some old) (howned : old.BelongsTo principal)
    (hrow : row.BelongsTo principal) (hrun : db.agentRuns.get runId = some run)
    (hown : run.BelongsTo tenant) :
    ∃ run', (db.agentRuns.put k row).get runId = some run' ∧ run'.BelongsTo tenant := by
  rw [SortedMap.get_put]
  split_ifs with hk
  · rw [hk, hold] at hrun
    obtain rfl := Option.some.inj hrun
    exact ⟨row, rfl, howned.unique hown ▸ hrow⟩
  · exact ⟨run, hrun, hown⟩

theorem Effect.keeps_run (h : Effect env db r db') {runId : String} {run : AgentRun}
    {tenant : Principal} (hrun : db.agentRuns.get runId = some run) (hown : run.BelongsTo tenant) :
    ∃ run', db'.agentRuns.get runId = some run' ∧ run'.BelongsTo tenant := by
  cases h with
  | nothing => exact ⟨run, hrun, hown⟩
  | started hcall hnew =>
      refine ⟨run, ?_, hown⟩
      rw [SortedMap.get_put_of_ne _ _ fun heq => ?_, hrun]
      rw [heq, hnew] at hrun
      cases hrun
  | ended hold howned hrow => exact exists_run_put hold howned hrow hrun hown
  | appended hcall happends =>
      cases happends with
      | mk hold howned hrow => exact exists_run_put hold howned hrow hrun hown
  | requested => exact ⟨run, hrun, hown⟩
  | decided => exact ⟨run, hrun, hown⟩
  | exported hcall _ _ _ _ _ hrest =>
      rcases hrest with rfl | happends
      · exact ⟨run, hrun, hown⟩
      · cases happends with
        | mk hold howned hrow =>
            exact @exists_run_put db _ _ _ _ _ _ _ hold howned hrow hrun hown

theorem server_keeps_run {step : ServerStep} {runId : String} {tenant : Principal}
    (hdb : Sound sv.store.db) (h : (Fact.run runId tenant).In sv.store) :
    (Fact.run runId tenant).In (step.run env opens sv).store := by
  cases step with
  | start s => exact h
  | edit accounts => exact h
  | serve req =>
      rcases serve_cases env opens sv req with hsame | ⟨row, call, _, _, heq⟩
      · rw [ServerStep.run, hsame]
        exact h
      · rw [ServerStep.run, heq]
        rcases h with ⟨run, hrun, hown⟩
        exact (archive_effect hdb).keeps_run hrun hown

theorem reply_ne_file {α : Type} (ep : Endpoint) {make : α → Reply} (hmake : ∀ a, make a ≠ .file data)
    (x : Except PyError α) : ep.reply make x ≠ .file data := by
  cases x with
  | ok a => exact hmake a
  | error e => cases e <;> cases ep <;> simp [Endpoint.reply, Endpoint.except, httpException]

/-- Only a download hands out a file, and only to the tenant of the export. -/
theorem handle_eq_file {ep : Endpoint} {m : Moment} {principal : Principal} {st : EvidenceStore}
    (h : (ep.handle env opens m principal st).2 = .file data) :
    ∃ exportId exported, ep = .exportDownload exportId ∧
      st.db.evidenceExports.get exportId = some exported ∧ exported.orgId = principal.orgId ∧
      exported.projectId = principal.projectId ∧ st.files.get exported.bundleUri = some data := by
  unfold Endpoint.handle at h
  cases hcall : ep.call with
  | some call =>
      simp only [hcall] at h
      split_ifs at h
      exact absurd h (reply_ne_file ep (by simp) _)
  | none =>
      cases ep with
      | exportDownload exportId =>
          have hdownload : downloadExport st principal exportId = .file data := h
          unfold downloadExport at hdownload
          cases hget : st.db.evidenceExports.get exportId with
          | none => simp [hget, httpException] at hdownload
          | some exported =>
              simp only [hget] at hdownload
              split_ifs at hdownload with hforbidden
              · cases hdownload
              · rcases not_or.1 hforbidden with ⟨horg, hproject⟩
                cases hfile : st.files.get exported.bundleUri with
                | none => simp [hfile, httpException] at hdownload
                | some stored =>
                    rw [hfile] at hdownload
                    obtain rfl := Reply.file.inj hdownload
                    exact ⟨exportId, exported, rfl, hget, not_not.1 horg, not_not.1 hproject, hfile⟩
      | runsGet runId => exact absurd h (reply_ne_file (.runsGet runId) (by simp) _)
      | runsList limit => cases h
      | runsReplay runId => exact absurd h (reply_ne_file (.runsReplay runId) (by simp) _)
      | _ => cases hcall

theorem serve_eq_file (h : (serve env opens sv req).2 = .file data) :
    ∃ row exportId exported, Authorized env sv req row ∧ req.endpoint = .exportDownload exportId ∧
      sv.store.db.evidenceExports.get exportId = some exported ∧ exported.orgId = row.orgId ∧
      exported.projectId = row.projectId ∧ sv.store.files.get exported.bundleUri = some data := by
  unfold serve at h
  cases hkey : currentPrincipal env.sha256 sv.accounts.apiKeys req.authorization with
  | error detail => simp [hkey, httpException] at h
  | ok key =>
      simp only [hkey] at h
      cases hscope : requireScope key.scopes req.endpoint.scope.1 req.endpoint.scope.2 with
      | some forbidden => simp [hscope] at h
      | none =>
          simp only [hscope] at h
          split_ifs at h
          rcases authorized_of_ok hkey hscope with ⟨row, hauthorized, rfl⟩
          rcases handle_eq_file h with ⟨exportId, exported, hep, hget, horg, hproject, hfile⟩
          exact ⟨row, exportId, exported, hauthorized, hep, hget, horg, hproject, hfile⟩

end Downloads

namespace ServerExample

def exported : List ServerStep :=
  opened ++ [request (.auditExport "run_1" none)]

def fileOf : Reply → Option Bytes
  | .file data => some data
  | _ => none

theorem eq_file_of_fileOf {reply : Reply} {data : Bytes} (h : fileOf reply = some data) :
    reply = .file data := by
  cases reply <;> simp_all [fileOf]

end ServerExample

/-- The rows of a tenant are the same, and so are the archives of its runs. -/
structure Kept (env : Env) (p : Principal) (st st' : EvidenceStore) : Prop where
  runs : ∀ k r, AgentRun.BelongsTo r p →
    (st'.db.agentRuns.get k = some r ↔ st.db.agentRuns.get k = some r)
  events : ∀ e, AuditEvent.BelongsTo e p → (e ∈ st'.db.auditEvents ↔ e ∈ st.db.auditEvents)
  approvals : ∀ k a, Approval.BelongsTo a p →
    (st'.db.approvals.get k = some a ↔ st.db.approvals.get k = some a)
  exports : ∀ k row, EvidenceExport.orgId row = p.orgId → row.projectId = p.projectId →
    (st'.db.evidenceExports.get k = some row ↔ st.db.evidenceExports.get k = some row)
  files : ∀ runId, (Fact.run runId p).In st →
    st'.files.get (bundlePath env runId) = st.files.get (bundlePath env runId)

/-- Every key of the tenant is revoked, and the keys with these hashes are stored. -/
structure ShutOut (p : Principal) (known : List String) (acc : Accounts) : Prop where
  revoked : ∀ row ∈ acc.apiKeys, row.tenant = p → row.revokedAt ≠ none
  known : ∀ keyHash ∈ known, keyHash ∈ acc.apiKeys.map ApiKey.apiKeyHash

section Revoked

variable {env : Env} {opens : String → Bool} {p : Principal} {st st' st'' : EvidenceStore}
  {r : Request}

theorem Kept.refl (env : Env) (p : Principal) (st : EvidenceStore) : Kept env p st st where
  runs _ _ _ := Iff.rfl
  events _ _ := Iff.rfl
  approvals _ _ _ := Iff.rfl
  exports _ _ _ _ := Iff.rfl
  files _ _ := rfl

theorem Kept.trans (h : Kept env p st st') (h' : Kept env p st' st'') : Kept env p st st'' where
  runs k r hr := (h'.runs k r hr).trans (h.runs k r hr)
  events e he := (h'.events e he).trans (h.events e he)
  approvals k a ha := (h'.approvals k a ha).trans (h.approvals k a ha)
  exports k row horg hproject := (h'.exports k row horg hproject).trans (h.exports k row horg hproject)
  files runId hin := by
    have hin' : (Fact.run runId p).In st' := by
      rcases hin with ⟨r, hget, hown⟩
      exact ⟨r, (h.runs runId r hown).2 hget, hown⟩
    exact (h'.files runId hin').trans (h.files runId hin)

/-- An export does not take the place of another one. -/
theorem evidenceExports_archive (k : String) (row : EvidenceExport)
    (hne : ¬ (row.orgId = r.principal.orgId ∧ row.projectId = r.principal.projectId)) :
    (r.archive env opens st).db.evidenceExports.get k = some row ↔
      st.db.evidenceExports.get k = some row := by
  rcases archive_cases env opens st r with ⟨_, hexports, _⟩ |
    ⟨runId, generatedBy, bundle, hcall, hprepare, _, heq⟩
  · rw [hexports]
  · have hexport := evidenceExports_exportRun hprepare
    have hr : r = ⟨r.moment, r.principal, .exportRun runId generatedBy⟩ := by
      rw [← hcall]
    rw [heq, hr]
    dsimp only at hexport ⊢
    rw [hexport]
    split_ifs with htaken
    · exact Iff.rfl
    · rw [SortedMap.get_put]
      split_ifs with hk
      · -- the new row is the caller's own
        constructor
        · intro h
          obtain rfl := Option.some.inj h
          exact absurd ⟨rfl, rfl⟩ hne
        · intro h
          rw [← hk, h] at htaken
          exact absurd rfl htaken
      · exact Iff.rfl

/-- A request of another tenant keeps everything. -/
theorem kept_archive (hdb : Sound st.db) (hne : r.principal ≠ p) :
    Kept env p st (r.archive env opens st) := by
  have hforeign : ∀ {q : Principal}, q.orgId = p.orgId → q.projectId = p.projectId → q = p :=
    fun horg hproject => Principal.mk.injEq .. ▸ ⟨horg, hproject⟩
  have huntouched : Untouched st.db (r.archive env opens st).db r.principal := by
    rcases archive_db env opens st r with hsame | hrun
    · rw [hsame]
      exact untouched_refl _ _
    · rw [hrun]
      exact untouched_of_changes (Request.run_changes hdb r)
  refine ⟨?_, ?_, ?_, ?_, ?_⟩
  · exact fun k run hown => huntouched.runs k run fun howned => hne (howned.unique hown)
  · intro e hown
    refine huntouched.events e fun howned => hne ?_
    exact hforeign (howned.1.symm.trans hown.1) (howned.2.symm.trans hown.2)
  · exact fun k a hown => huntouched.approvals k a fun howned => hne (howned.unique hown)
  · intro k row horg hproject
    refine evidenceExports_archive k row fun howned => hne ?_
    exact hforeign (howned.1.symm.trans horg) (howned.2.symm.trans hproject)
  · rintro runId ⟨run, hrun, hown⟩
    rcases archive_cases env opens st r with ⟨hfiles, _⟩ |
      ⟨runId', generatedBy, bundle, hcall, hprepare, hopens, heq⟩
    · rw [hfiles]
    · rw [heq]
      dsimp only
      refine SortedMap.get_put_of_ne _ _ fun hpath => hne ?_
      -- the archive would be that of a run of the caller
      obtain rfl := bundlePath_injective hpath
      rcases run_of_prepareBundle hprepare with ⟨run', hrun', hown'⟩
      rw [hrun] at hrun'
      exact hown'.unique (Option.some.inj hrun' ▸ hown)

/-- A start brings no key of the tenant back. -/
theorem ShutOut.start {known : List String} {acc : Accounts} {s : Settings}
    (h : ShutOut p known acc)
    (hs : (⟨s.bootstrapOrgId, s.bootstrapProjectId⟩ : Principal) = p →
      ∀ keyHash ∈ s.hashes env.sha256, keyHash ∈ known) :
    ShutOut p known (start env.sha256 acc s) := by
  unfold Collector.start
  cases hboot : bootstrap env.sha256 s acc with
  | error e => exact h
  | ok acc' =>
      have hkeys := (bootstrap_eq_ok hboot).1
      refine ⟨?_, ?_⟩
      · intro row hrow htenant
        dsimp only at hrow
        rw [hkeys] at hrow
        rcases List.mem_append.1 hrow with hold | hnew
        · exact h.revoked row hold htenant
        · rcases hash_newKeys hnew with ⟨hmade, hlisted, hmissing⟩
          rw [hmade] at htenant
          exact absurd (h.known _ (hs htenant _ hlisted)) hmissing
      · intro keyHash hknown
        dsimp only
        rw [hkeys, List.map_append]
        exact List.mem_append_left _ (h.known keyHash hknown)

/-- Step lemma, and by induction what a run keeps. -/
theorem kept_run {known : List String} {sv : Server} (hdb : Sound sv.store.db)
    (hout : ShutOut p known sv.accounts) (steps : List ServerStep)
    (hedits : ∀ accounts, .edit accounts ∉ steps)
    (hstarts : ∀ s, .start s ∈ steps →
      (⟨s.bootstrapOrgId, s.bootstrapProjectId⟩ : Principal) = p →
        ∀ keyHash ∈ s.hashes env.sha256, keyHash ∈ known) :
    Kept env p sv.store (runServer env opens sv steps).store := by
  induction steps generalizing sv with
  | nil => exact .refl env p sv.store
  | cons step rest ih =>
      have hrest : ∀ {sv' : Server}, Sound sv'.store.db → ShutOut p known sv'.accounts →
          Kept env p sv'.store (runServer env opens sv' rest).store := fun hdb' hout' =>
        ih hdb' hout' (fun accounts hmem => hedits accounts (List.mem_cons_of_mem _ hmem))
          fun s hmem => hstarts s (List.mem_cons_of_mem _ hmem)
      cases step with
      | start s =>
          have hnext := hout.start (hstarts s List.mem_cons_self)
          exact @hrest ((ServerStep.start s).run env opens sv) hdb hnext
      | edit accounts => exact absurd List.mem_cons_self (hedits accounts)
      | serve req =>
          have hnext := @hrest ((ServerStep.serve req).run env opens sv)
            (sound_server (.serve req) hdb)
          rcases serve_cases env opens sv req with hsame | ⟨row, call, hauthorized, _, heq⟩
          · rw [ServerStep.run, hsame] at hnext
            rw [runServer, List.foldl_cons, ServerStep.run, hsame]
            exact hnext hout
          · rw [ServerStep.run, heq] at hnext
            rw [runServer, List.foldl_cons, ServerStep.run, heq]
            have hne : row.tenant ≠ p := fun htenant =>
              hout.revoked row hauthorized.stored htenant hauthorized.notRevoked
            have hstep := @kept_archive env opens p sv.store ⟨req.moment, row.tenant, call⟩ hdb hne
            exact hstep.trans (hnext hout)

end Revoked

/-- A tenant whose keys are all revoked keeps what it has, whatever requests follow and however often
the collector is started, as long as no start lists a key for the tenant that is not stored. -/
theorem revoked_keeps (env : Env) (opens : String → Bool) (before after : List ServerStep)
    (p : Principal)
    (hrevoked : ∀ row ∈ (runServer env opens {} before).accounts.apiKeys,
      row.tenant = p → row.revokedAt ≠ none)
    (hedits : ∀ accounts, .edit accounts ∉ after)
    (hstarts : ∀ s, .start s ∈ after →
      (⟨s.bootstrapOrgId, s.bootstrapProjectId⟩ : Principal) = p →
        ∀ keyHash ∈ s.hashes env.sha256,
          keyHash ∈ (runServer env opens {} before).accounts.apiKeys.map ApiKey.apiKeyHash) :
    Kept env p (runServer env opens {} before).store (runServer env opens {} (before ++ after)).store := by
  have hdb := sound_runServer env opens before
  have happend : runServer env opens {} (before ++ after) =
      runServer env opens (runServer env opens {} before) after := List.foldl_append
  rw [happend]
  exact kept_run hdb ⟨hrevoked, fun _ hmem => hmem⟩ after hedits hstarts

namespace ServerExample

/-- The only key is revoked. -/
def shut : List ServerStep :=
  opened ++ [.edit
    { apiKeys := [{ bootstrapKey AuthExample.settings (hashKey env.sha256 "test-key") with
        revokedAt := some CollectorExample.noon }]
      distinct := keysDistinct_singleton _ }]

end ServerExample

theorem revoked_keeps_run :
    Kept ServerExample.env CollectorExample.owner
      (runServer ServerExample.env (fun _ => true) {} ServerExample.shut).store
      (runServer ServerExample.env (fun _ => true) {}
        (ServerExample.shut ++ [.start AuthExample.settings,
          ServerExample.request (.runsCommit "run_1")])).store :=
  revoked_keeps ServerExample.env (fun _ => true) ServerExample.shut
    [.start AuthExample.settings, ServerExample.request (.runsCommit "run_1")]
    CollectorExample.owner
    (by
      intro row hrow _
      have hall : ∀ row ∈ (runServer ServerExample.env (fun _ => true) {}
          ServerExample.shut).accounts.apiKeys, row.revokedAt.isSome = true := by
        decide +kernel
      exact Option.isSome_iff_ne_none.1 (hall row hrow))
    (by simp [ServerExample.request])
    (by
      intro s hs _
      have hsettings : s = AuthExample.settings := by simpa [ServerExample.request] using hs
      rw [hsettings]
      decide +kernel)
end Collector
end ControlDB
