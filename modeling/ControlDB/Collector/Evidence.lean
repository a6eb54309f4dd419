import ControlDB.Library.Runs
import ControlDB.Collector.Sound

/-!
# The bundles of the object store

`EvidenceService.export_run` with the file that it writes.  The archive of a run has one name, so that
an export of the run takes the place of the one before, while the rows of both stay.  An export that
raises `IntegrityError` has written its archive.

`opens` tells whether a path of the object store can be opened for writing.
-/

namespace ControlDB
namespace Collector

open Library Python

/-! ## The archive of an export -/

/-- `bundle_path`. -/
def bundlePath (env : Env) (runId : String) : String :=
  env.objectStoreDir ++ "/evidence_bundle_" ++ runId ++ ".zip"

/-- `export_run` up to the archive. -/
def prepareBundle (env : Env) (m : Moment) (db : Database) (principal : Principal) (runId : String)
    (generatedBy : Option String) : Except PyError Bundle :=
  match db.agentRuns.get runId with
  | none => .error (.lookup "run not found")
  | some run =>
      if run.orgId ≠ principal.orgId ∨ run.projectId ≠ principal.projectId then
        .error (.lookup "run not found")
      else
        (verify env db principal runId).map
          (makeBundle m ("exp_" ++ m.ulid 0) generatedBy run (runEvents db runId)
            (runApprovals db runId))

/-- `export_run` after the archive. -/
def recordBundle (env : Env) (m : Moment) (db : Database) (principal : Principal) (runId : String)
    (generatedBy : Option String) (bundle : Bundle) :
    Except PyError (Database × ExportResult × Bundle) :=
  let res := exportResult env m runId bundle
  if (db.evidenceExports.get res.exportId).isSome then .error .integrity
  else
    let db' := { db with
      evidenceExports := db.evidenceExports.put res.exportId
        (exportRow env m principal runId generatedBy res) }
    .ok (recordExport env m db' principal runId res, res, bundle)

theorem exportRun_eq_bind (env : Env) (m : Moment) (db : Database) (principal : Principal)
    (runId : String) (generatedBy : Option String) :
    exportRun env m db principal runId generatedBy =
      (prepareBundle env m db principal runId generatedBy).bind
        (recordBundle env m db principal runId generatedBy) := by
  unfold exportRun prepareBundle
  cases db.agentRuns.get runId with
  | none => rfl
  | some run =>
      dsimp only
      split_ifs with hforbidden
      · rfl
      · cases verify env db principal runId <;> rfl

/-! ## The database and the files -/

structure EvidenceStore where
  db : Database := {}
  files : SortedMap String Bytes := .empty

/-- A request, with the file that an export writes. -/
def Request.archive (env : Env) (opens : String → Bool) (st : EvidenceStore) (r : Request) :
    EvidenceStore :=
  match r.call with
  | .exportRun runId generatedBy =>
      match prepareBundle env r.moment st.db r.principal runId generatedBy with
      | .error _ => st
      | .ok bundle =>
          if opens (bundlePath env runId) then
            { db := r.run env st.db
              files := st.files.put (bundlePath env runId) (r.moment.zip bundle) }
          else st
  | _ => { st with db := r.run env st.db }

/-- Every recorded export has a file whose SHA-256 is the one recorded. -/
def Verifiable (env : Env) (st : EvidenceStore) : Prop :=
  ∀ exportId row, st.db.evidenceExports.get exportId = some row →
    ∃ data, st.files.get row.bundleUri = some data ∧
      Python.sha256Hex env.sha256 data = row.bundleHash

/-- An archive that is written has the hash of every export that was recorded under its name. -/
def KeepsBundles (env : Env) (opens : String → Bool) (st : EvidenceStore) (r : Request) : Prop :=
  ∀ runId generatedBy bundle, r.call = .exportRun runId generatedBy →
    prepareBundle env r.moment st.db r.principal runId generatedBy = .ok bundle →
      opens (bundlePath env runId) = true →
        ∀ exportId row, st.db.evidenceExports.get exportId = some row →
          row.bundleUri = bundlePath env runId →
            row.bundleHash = Python.sha256Hex env.sha256 (r.moment.zip bundle)

/-! ## Which requests record an export -/

section Records

variable {env : Env} {m : Moment} {db db' : Database} {principal : Principal} {runId : String}

theorem evidenceExports_appendEvents {events : List EventInput} {ids : List String}
    (h : appendEvents env m db principal runId events = .ok (db', ids)) :
    db'.evidenceExports = db.evidenceExports := by
  cases appended_of_ok h <;> rfl

theorem evidenceExports_recordExport (res : ExportResult) :
    (recordExport env m db principal runId res).evidenceExports = db.evidenceExports := by
  unfold recordExport
  cases happend : appendEvents env (m.later 2) db principal runId [exportEvent m res] with
  | error e => rfl
  | ok out => exact evidenceExports_appendEvents happend

theorem RunStarted.evidenceExports {out : StartedRun}
    (h : RunStarted db principal runId db' out) : db'.evidenceExports = db.evidenceExports := by
  cases h <;> rfl

theorem RunEnded.evidenceExports {out : StartedRun} (h : RunEnded db principal runId db' out) :
    db'.evidenceExports = db.evidenceExports := by
  cases h
  rfl

theorem ApprovalRequested.evidenceExports {approvalId : String} {out : ApprovalDict}
    (h : ApprovalRequested db principal approvalId db' out) :
    db'.evidenceExports = db.evidenceExports := by
  cases h <;> rfl

theorem ApprovalDecided.evidenceExports {approvalId : String} {out : ApprovalDict}
    (h : ApprovalDecided m db principal approvalId db' out) :
    db'.evidenceExports = db.evidenceExports := by
  cases h
  rfl

/-- Only an export records one. -/
theorem evidenceExports_perform {r : Request} {answer : Answer}
    (hcall : ∀ runId generatedBy, r.call ≠ .exportRun runId generatedBy)
    (h : r.perform env db = .ok (db', answer)) : db'.evidenceExports = db.evidenceExports := by
  rcases r with ⟨m, principal, call⟩
  cases call with
  | startRun runId agentId agentVersion environment metadata =>
      rcases exists_of_map_eq_ok h with ⟨⟨_, _⟩, hout, heq⟩
      cases heq
      exact (runStarted_of_ok hout).evidenceExports
  | appendEvents runId events =>
      rcases exists_of_map_eq_ok h with ⟨⟨_, _⟩, hout, heq⟩
      cases heq
      exact evidenceExports_appendEvents hout
  | commitRun runId =>
      rcases exists_of_map_eq_ok h with ⟨⟨_, _⟩, hout, heq⟩
      cases heq
      exact (runEnded_of_commitRun hout).evidenceExports
  | rollbackRun runId reason =>
      rcases exists_of_map_eq_ok h with ⟨⟨_, _⟩, hout, heq⟩
      cases heq
      exact (runEnded_of_rollbackRun hout).evidenceExports
  | timeline runId limit cursor =>
      rcases exists_of_map_eq_ok h with ⟨_, _, heq⟩
      cases heq
      rfl
  | verify runId =>
      rcases exists_of_map_eq_ok h with ⟨_, _, heq⟩
      cases heq
      rfl
  | request body =>
      rcases exists_of_map_eq_ok h with ⟨⟨_, _⟩, hout, heq⟩
      cases heq
      exact (approvalRequested_of_ok hout).evidenceExports
  | decide approvalId decision reviewerId reason =>
      rcases exists_of_map_eq_ok h with ⟨⟨_, _⟩, hout, heq⟩
      cases heq
      exact (approvalDecided_of_ok hout).evidenceExports
  | pending =>
      cases h
      rfl
  | query body =>
      cases h
      rfl
  | exportRun runId generatedBy => exact absurd rfl (hcall runId generatedBy)

theorem evidenceExports_run {r : Request}
    (hcall : ∀ runId generatedBy, r.call ≠ .exportRun runId generatedBy) :
    (r.run env db).evidenceExports = db.evidenceExports := by
  unfold Request.run
  cases hperform : r.perform env db with
  | error e => rfl
  | ok out => exact evidenceExports_perform hcall hperform

/-- An export whose archive was written records it, unless its id is taken. -/
theorem evidenceExports_exportRun {generatedBy : Option String} {bundle : Bundle}
    (h : prepareBundle env m db principal runId generatedBy = .ok bundle) :
    let res := exportResult env m runId bundle
    ((⟨m, principal, .exportRun runId generatedBy⟩ : Request).run env db).evidenceExports =
      if (db.evidenceExports.get res.exportId).isSome then db.evidenceExports
      else db.evidenceExports.put res.exportId (exportRow env m principal runId generatedBy res) := by
  intro res
  unfold Request.run Request.perform
  dsimp only
  rw [exportRun_eq_bind, h]
  dsimp only [Except.bind, recordBundle]
  split_ifs with htaken
  · rfl
  · exact evidenceExports_recordExport res

end Records

/-! ## One request -/

section Steps

variable {env : Env} {opens : String → Bool} {st : EvidenceStore} {r : Request}

theorem archive_exportRun {runId : String} {generatedBy : Option String}
    (hcall : r.call = .exportRun runId generatedBy) :
    r.archive env opens st =
      match prepareBundle env r.moment st.db r.principal runId generatedBy with
      | .error _ => st
      | .ok bundle =>
          if opens (bundlePath env runId) then
            { db := r.run env st.db
              files := st.files.put (bundlePath env runId) (r.moment.zip bundle) }
          else st := by
  rw [Request.archive, hcall]

theorem archive_other (hno : ∀ runId generatedBy, r.call ≠ .exportRun runId generatedBy) :
    r.archive env opens st = { st with db := r.run env st.db } := by
  unfold Request.archive
  split
  · next runId generatedBy h => exact absurd h (hno runId generatedBy)
  · rfl

/-- An export that gets no archive puts no condition on the run. -/
theorem keepsBundles_of_unwritten {runId : String} {generatedBy : Option String}
    (hcall : r.call = .exportRun runId generatedBy)
    (hnot : ∀ bundle, prepareBundle env r.moment st.db r.principal runId generatedBy = .ok bundle →
      opens (bundlePath env runId) = false) : KeepsBundles env opens st r := by
  intro runId' generatedBy' bundle hcall' hprepare hopens
  obtain ⟨rfl, rfl⟩ := Call.exportRun.inj (hcall.symm.trans hcall')
  rw [hnot bundle hprepare] at hopens
  cases hopens

/-- A request writes no file and records no export, or writes the archive of an export. -/
theorem archive_cases (env : Env) (opens : String → Bool) (st : EvidenceStore) (r : Request) :
    ((r.archive env opens st).files = st.files ∧
        (r.archive env opens st).db.evidenceExports = st.db.evidenceExports ∧
        KeepsBundles env opens st r) ∨
      ∃ runId generatedBy bundle, r.call = .exportRun runId generatedBy ∧
        prepareBundle env r.moment st.db r.principal runId generatedBy = .ok bundle ∧
        opens (bundlePath env runId) = true ∧
        r.archive env opens st =
          { db := r.run env st.db
            files := st.files.put (bundlePath env runId) (r.moment.zip bundle) } := by
  by_cases hcall : ∃ runId generatedBy, r.call = .exportRun runId generatedBy
  · rcases hcall with ⟨runId, generatedBy, hcall⟩
    have harchive := @archive_exportRun env opens st r runId generatedBy hcall
    cases hprepare : prepareBundle env r.moment st.db r.principal runId generatedBy with
    | error e =>
        left
        rw [hprepare] at harchive
        refine ⟨by rw [harchive], by rw [harchive], keepsBundles_of_unwritten hcall ?_⟩
        intro bundle hok
        rw [hprepare] at hok
        cases hok
    | ok bundle =>
        rw [hprepare] at harchive
        dsimp only at harchive
        cases hopens : opens (bundlePath env runId) with
        | true =>
            right
            refine ⟨runId, generatedBy, bundle, hcall, hprepare, hopens, ?_⟩
            rw [harchive, hopens]
            rfl
        | false =>
            left
            rw [hopens] at harchive
            exact ⟨by rw [harchive]; rfl, by rw [harchive]; rfl,
              keepsBundles_of_unwritten hcall fun _ _ => hopens⟩
  · left
    have hno : ∀ runId generatedBy, r.call ≠ .exportRun runId generatedBy :=
      fun runId generatedBy h => hcall ⟨runId, generatedBy, h⟩
    rw [archive_other hno]
    exact ⟨rfl, evidenceExports_run hno, fun runId generatedBy _ h => absurd h (hno runId generatedBy)⟩

/-- A file is written, and a row with its hash may be added. -/
theorem verifiable_put_iff {db' : Database} {path : String} {data : Bytes}
    (h : Verifiable env st)
    (hold : ∀ exportId row, st.db.evidenceExports.get exportId = some row →
      db'.evidenceExports.get exportId = some row)
    (hnew : ∀ exportId row, db'.evidenceExports.get exportId = some row →
      st.db.evidenceExports.get exportId = some row ∨
        row.bundleUri = path ∧ row.bundleHash = Python.sha256Hex env.sha256 data) :
    Verifiable env { db := db', files := st.files.put path data } ↔
      ∀ exportId row, st.db.evidenceExports.get exportId = some row → row.bundleUri = path →
        row.bundleHash = Python.sha256Hex env.sha256 data := by
  constructor
  · intro hafter exportId row hrow hpath
    rcases hafter exportId row (hold exportId row hrow) with ⟨found, hfound, hhash⟩
    dsimp only at hfound
    rw [hpath, SortedMap.get_put_self] at hfound
    rw [← hhash, Option.some.inj hfound]
  · intro hkeeps exportId row hrow
    dsimp only
    by_cases hpath : row.bundleUri = path
    · refine ⟨data, by rw [hpath, SortedMap.get_put_self], ?_⟩
      rcases hnew exportId row hrow with hbefore | ⟨_, hhash⟩
      · exact (hkeeps exportId row hbefore hpath).symm
      · exact hhash.symm
    · rcases hnew exportId row hrow with hbefore | ⟨hpath', _⟩
      · rw [SortedMap.get_put_of_ne _ _ hpath]
        exact h exportId row hbefore
      · exact absurd hpath' hpath

/-- The exports stay verifiable exactly when the archive keeps the bundles recorded. -/
theorem verifiable_archive_iff (h : Verifiable env st) :
    Verifiable env (r.archive env opens st) ↔ KeepsBundles env opens st r := by
  rcases archive_cases env opens st r with
    ⟨hfiles, hrows, hkeeps⟩ | ⟨runId, generatedBy, bundle, hcall, hprepare, hopens, harchive⟩
  · refine iff_of_true ?_ hkeeps
    intro exportId row hrow
    rw [hrows] at hrow
    rw [hfiles]
    exact h exportId row hrow
  · rcases r with ⟨m, principal, call⟩
    cases hcall
    have hrows := @evidenceExports_exportRun env m st.db principal runId generatedBy bundle hprepare
    have hkeeps : KeepsBundles env opens st ⟨m, principal, .exportRun runId generatedBy⟩ ↔
        ∀ exportId row, st.db.evidenceExports.get exportId = some row →
          row.bundleUri = bundlePath env runId →
            row.bundleHash = Python.sha256Hex env.sha256 (m.zip bundle) := by
      constructor
      · exact fun hkeeps => hkeeps runId generatedBy bundle rfl hprepare hopens
      · intro hrecorded runId' generatedBy' bundle' hcall' hprepare' _
        obtain ⟨rfl, rfl⟩ := Call.exportRun.inj hcall'
        obtain rfl : bundle = bundle' := Except.ok.inj (hprepare.symm.trans hprepare')
        exact hrecorded
    rw [harchive, hkeeps]
    apply verifiable_put_iff h
    · intro exportId row hrow
      rw [hrows]
      split_ifs with htaken
      · exact hrow
      · rw [SortedMap.get_put]
        split_ifs with hid
        · rw [← hid, hrow] at htaken
          exact absurd rfl htaken
        · exact hrow
    · intro exportId row hrow
      rw [hrows] at hrow
      split_ifs at hrow with htaken
      · exact .inl hrow
      · rw [SortedMap.get_put] at hrow
        split_ifs at hrow with hid
        · rw [← Option.some.inj hrow]
          exact .inr ⟨rfl, rfl⟩
        · exact .inl hrow

end Steps

/-- Every recorded export can be verified in all states of a history exactly when no export writes an
archive of another hash under a name that is recorded. -/
theorem exports_verifiable_iff (env : Env) (opens : String → Bool) (requests : List Request) :
    Throughout (Request.archive env opens) (Verifiable env) (fun _ _ => True) {} requests ↔
      Meets (Request.archive env opens) (KeepsBundles env opens) {} requests := by
  have hstart : Verifiable env {} := fun _ _ hrow => by cases hrow
  have hstep : ∀ {st r}, True → Verifiable env st →
      (True ∧ Verifiable env (r.archive env opens st) ↔ KeepsBundles env opens st r) := by
    intro st r _ h
    rw [true_and]
    exact verifiable_archive_iff h
  exact @throughout_iff_meets _ _ _ (Verifiable env) _ _ (fun _ => True) (fun _ => trivial) hstep _
    trivial hstart requests

/-! ## A run that is exported again -/

namespace EvidenceExample

def first : Bytes := [0x50, 0x4b, 0x05, 0x06]

def second : Bytes := [0x50, 0x4b, 0x07, 0x08]

/-- The digests of the two archives; that of every other text is left open. -/
def env : Env where
  sha256 data :=
    if data = first then
      #v[106, 61, 178, 75, 139, 197, 125, 44, 205, 193, 152, 178, 215, 133, 142, 198,
      87, 243, 74, 123, 44, 145, 83, 188, 4, 202, 130, 215, 49, 112, 135, 109]
    else if data = second then
      #v[206, 63, 202, 119, 45, 168, 147, 94, 99, 163, 197, 247, 55, 216, 216, 249,
      80, 233, 218, 246, 145, 58, 241, 142, 121, 238, 251, 137, 156, 75, 238, 125]
    else Vector.replicate 32 0
  bindString
    | .leaf .none => some none
    | .leaf (.str s) => some (some s)
    | _ => none
  storeDatetime := DateTime.naive
  fromisoformat _ := none
  redact value := value
  objectStoreDir := "controldb_artifacts"

/-- An export of `run_1` whose generated ids are counted from `n` on. -/
def exportAt (n : Nat) (zip : Bytes) : Request where
  moment :=
    { CollectorExample.moment with
      ulid := fun i => String.ofList (Nat.toDigits 10 (n + i))
      zip := fun _ => zip }
  principal := CollectorExample.owner
  call := .exportRun "run_1" none

def history : List Request :=
  [CollectorExample.start, exportAt 0 first, exportAt 10 second]

end EvidenceExample

/-- The row of the first export names the archive of the second. -/
theorem exported_again_not_verifiable :
    ¬ Throughout (Request.archive EvidenceExample.env fun _ => true)
      (Verifiable EvidenceExample.env) (fun _ _ => True) {} EvidenceExample.history := by
  have hevaluated :
      let st : EvidenceStore := EvidenceExample.history.foldl
        (Request.archive EvidenceExample.env fun _ => true) {}
      (st.db.evidenceExports.get "exp_0").any (fun row =>
        (st.files.get row.bundleUri).all fun data =>
          decide (Python.sha256Hex EvidenceExample.env.sha256 data ≠ row.bundleHash)) = true := by
    decide +kernel
  intro h
  rcases (Option.any_eq_true _ _).1 hevaluated with ⟨row, hrow, hfile⟩
  rcases h.final "exp_0" row hrow with ⟨data, hdata, hhash⟩
  rw [hdata, Option.all_some, decide_eq_true_eq] at hfile
  exact hfile hhash

end Collector
end ControlDB
