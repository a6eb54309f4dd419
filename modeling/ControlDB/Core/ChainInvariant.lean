import ControlDB.Core.Consistent

/-!
# The chain invariant of the event store

`Ledger` is what the database is for: runs, and an append-only list of events.  A ledger grows by
opening a run, by rewriting a run's own fields, and by appending a chain that continues the run's
last hash.  Every ledger that grows in this way is `Chained`; the column families refine it.
-/

namespace ControlDB

open Library

/-! ## The abstract ledger -/

structure Ledger where
  runs : Bytes → Option AgentRun
  events : List AuditEvent

namespace Ledger

/-- The events of a run, in order. -/
def eventsOf (l : Ledger) (runId : Bytes) : List AuditEvent :=
  l.events.filter fun e => decide (e.runId = runId)

/-- One step of a ledger. -/
inductive Step (sha256 : Sha256) (l : Ledger) : Ledger → Prop
  | openRun {r : AgentRun} (hnew : l.runs r.runId = none) (hhash : r.lastEventHash = [])
      (hcount : r.eventCount = 0) :
      Step sha256 l { l with runs := Function.update l.runs r.runId (some r) }
  | rewriteRun {run r : AgentRun} (hrun : l.runs r.runId = some run)
      (hhash : r.lastEventHash = run.lastEventHash) (hcount : r.eventCount = run.eventCount) :
      Step sha256 l { l with runs := Function.update l.runs r.runId (some r) }
  | append {run r : AgentRun} {es : List AuditEvent} (hrun : l.runs r.runId = some run)
      (hown : ∀ e ∈ es, e.runId = r.runId) (hchain : ChainFrom sha256 run.lastEventHash es)
      (hhash : r.lastEventHash = lastHash run.lastEventHash es)
      (hcount : r.eventCount = run.eventCount + es.length) :
      Step sha256 l
        { runs := Function.update l.runs r.runId (some r), events := l.events ++ es }

/-- What a run's record says about a list of events. -/
structure Summarizes (sha256 : Sha256) (r : AgentRun) (es : List AuditEvent) : Prop where
  chain : ChainFrom sha256 [] es
  hash : lastHash [] es = r.lastEventHash
  count : r.eventCount = es.length

structure Chained (sha256 : Sha256) (l : Ledger) : Prop where
  summary : ∀ {runId r}, l.runs runId = some r → Summarizes sha256 r (l.eventsOf runId)
  known : ∀ e ∈ l.events, l.runs e.runId ≠ none

variable {sha256 : Sha256} {l l' : Ledger}

/-- A run that is not stored has no events. -/
theorem Chained.eventsOf_eq_nil (h : Chained sha256 l) {runId : Bytes} (hnew : l.runs runId = none) :
    l.eventsOf runId = [] := by
  refine List.filter_eq_nil_iff.2 fun e he hid => ?_
  exact h.known e he (of_decide_eq_true hid ▸ hnew)

theorem Summarizes.append {run r : AgentRun} {es fs : List AuditEvent}
    (h : Summarizes sha256 run es) (hchain : ChainFrom sha256 run.lastEventHash fs)
    (hhash : r.lastEventHash = lastHash run.lastEventHash fs)
    (hcount : r.eventCount = run.eventCount + fs.length) : Summarizes sha256 r (es ++ fs) where
  chain := chainFrom_append.2 ⟨h.chain, h.hash ▸ hchain⟩
  hash := by rw [lastHash_append, h.hash, hhash]
  count := by simp [hcount, h.count]

/-- Updating the runs keeps every run that was there. -/
theorem known_update (h : Chained sha256 l) {k : Bytes} {r : AgentRun} {e : AuditEvent}
    (he : e ∈ l.events) : Function.update l.runs k (some r) e.runId ≠ none := by
  by_cases hk : e.runId = k
  · simp [hk]
  · simpa [hk] using h.known e he

/-- One step keeps the ledger chained. -/
theorem Step.chained (h : Step sha256 l l') (hl : Chained sha256 l) : Chained sha256 l' := by
  cases h with
  | @openRun r hnew hhash hcount =>
      refine ⟨?_, fun e he => known_update hl he⟩
      intro runId r' hr'
      by_cases hid : runId = r.runId
      · subst hid
        have hsame : r = r' := by simpa using hr'
        -- a run that is opened has no events yet
        have hnone : eventsOf { l with runs := Function.update l.runs r.runId (some r) } r.runId =
            [] := hl.eventsOf_eq_nil hnew
        rw [hnone, ← hsame]
        exact ⟨trivial, hhash.symm, by simp [hcount]⟩
      · exact hl.summary (by simpa [hid] using hr')
  | @rewriteRun run r hrun hhash hcount =>
      refine ⟨?_, fun e he => known_update hl he⟩
      intro runId r' hr'
      by_cases hid : runId = r.runId
      · subst hid
        have hsame : r = r' := by simpa using hr'
        -- a rewritten run keeps its last hash and its count
        have hold := hl.summary hrun
        rw [← hsame]
        exact ⟨hold.chain, hold.hash.trans hhash.symm, hcount.trans hold.count⟩
      · exact hl.summary (by simpa [hid] using hr')
  | @append run r es hrun hown hchain hhash hcount =>
      refine ⟨?_, ?_⟩
      · intro runId r' hr'
        by_cases hid : runId = r.runId
        · subst hid
          have hsame : r = r' := by simpa using hr'
          -- the new events all belong to the run
          have hevents : (es.filter fun e => decide (e.runId = r.runId)) = es :=
            List.filter_eq_self.2 fun e he => decide_eq_true (hown e he)
          have happend := (hl.summary hrun).append hchain hhash hcount
          rw [← hsame]
          simpa [eventsOf, hevents] using happend
        -- and so to no other
        · have hevents : (es.filter fun e => decide (e.runId = runId)) = [] :=
            List.filter_eq_nil_iff.2 fun e he => by simpa [hown e he] using Ne.symm hid
          have hrun' : l.runs runId = some r' := by simpa [hid] using hr'
          have hold := hl.summary hrun'
          simpa [eventsOf, hevents] using hold
      · intro e he
        rcases List.mem_append.1 he with hold | hnew
        · exact known_update hl hold
        · simp [hown e hnew]

end Ledger

/-! ## The columns refine the ledger -/

/-- The ledger that a database holds. -/
def ledger (db : Rocks) : Ledger :=
  { runs := storedRun db, events := storedEvents db }

/-- A run is opened with no history: the engine's own callers leave these two members alone. -/
def Call.StartsFresh : Call → Prop
  | startRun run => run.lastEventHash = [] ∧ run.eventCount = 0
  | _ => True

theorem storedRun_update {db db' : Rocks} {r : AgentRun}
    (hruns : db'.runs = db.runs.put r.runId (runToJson r)) :
    storedRun db' = Function.update (storedRun db) r.runId (some r) := by
  funext runId
  rw [storedRun_put db hruns]
  by_cases hid : runId = r.runId
  · simp [hid]
  · simp [hid]

theorem ledger_of_runs (db db' : Rocks) {r : AgentRun}
    (hruns : db'.runs = db.runs.put r.runId (runToJson r)) (hevents : db'.events = db.events) :
    ledger db' =
      { ledger db with runs := Function.update (ledger db).runs r.runId (some r) } := by
  simp only [ledger, storedRun_update hruns, storedEvents, hevents]

/-- The batch of a call is a step of the ledger, or leaves it as it is. -/
theorem Commit.ledger_step {env : Env} {now : Nat → Int} {s : Store} {c : Call} {batch : List Put}
    {n : Nat} (hs : Consistent s) (hfresh : c.StartsFresh) (hcommit : Commit env now s c batch n) :
    ledger (s.rocks.write batch) = ledger s.rocks ∨
      Ledger.Step env.sha256 (ledger s.rocks) (ledger (s.rocks.write batch)) := by
  cases hcommit with
  | @startRun run r hnew hopens =>
      -- `start_run` only opens runs that are not there
      have hnone : (ledger s.rocks).runs r.runId = none :=
        Represents.storedRun_eq_none (hopens.runId ▸ hnew)
      have hledger := ledger_of_runs s.rocks
        (s.rocks.write [.runs r.runId (runToJson r), .runsByOrg (runsByOrgKey r) r.runId]) rfl rfl
      rw [hledger]
      exact .inr (.openRun hnone (hopens.lastEventHash.trans hfresh.1)
        (hopens.eventCount.trans hfresh.2))
  | @updateRun c runId orgId projectId run r hfetch hsame hhash hcount =>
      rcases fetchRun_spec hs.represents hfetch with ⟨hstored, hid, horg, hproject⟩
      have hkey : runId = r.runId := (hsame.runId.trans hid).symm
      subst hkey
      have hledger :=
        ledger_of_runs s.rocks (s.rocks.write [.runs r.runId (runToJson r)]) rfl rfl
      rw [hledger]
      exact .inr (.rewriteRun hstored hhash hcount)
  | @appendEvents runId orgId projectId events es run r hfetch hsame hes hhash hcount =>
      rcases fetchRun_spec hs.represents hfetch with ⟨hstored, hid, horg, hproject⟩
      have happend := hs.appendable env now events hfetch hsame
      -- the accepted events continue the hash of the run as it was read
      have hchain : ChainFrom env.sha256 run.lastEventHash es :=
        hes ▸ acceptedEvents_chain 0 events s.globalSeq run.lastEventHash
      rw [← hes] at happend
      have hkey : runId = r.runId := (hsame.runId.trans hid).symm
      subst hkey
      have hledger : ledger (s.rocks.write (appendBatch es r.runId r (s.globalSeq + es.length))) =
          { runs := Function.update (ledger s.rocks).runs r.runId (some r)
            events := (ledger s.rocks).events ++ es } := by
        have hruns : (s.rocks.write (appendBatch es r.runId r (s.globalSeq + es.length))).runs =
            s.rocks.runs.put r.runId (runToJson r) := by rw [write_appendBatch]
        simp only [ledger, storedRun_update hruns, hs.represents.storedEvents_appendBatch happend]
      rw [hledger]
      exact .inr (.append hstored (fun e he => (happend.own e he).1) hchain hhash hcount)
  | _ => exact .inl rfl

/-- Every start of a run in a list of actions is with empty `last_event_hash` and zero count. -/
def StartsFresh (actions : List Action) : Prop :=
  ∀ a ∈ actions, ∀ c, a.call? = some c → c.StartsFresh

/-- One action keeps the ledger chained. -/
theorem Action.chained {env : Env} {s : Store} {a : Action} (hs : Consistent s)
    (hfresh : ∀ c, a.call? = some c → c.StartsFresh)
    (hchained : (ledger s.rocks).Chained env.sha256) :
    (ledger (a.run env s).rocks).Chained env.sha256 := by
  generalize hc : a.call? = c
  have hdurable := hc ▸ a.durable env s
  cases hdurable with
  | quiet hrocks hseq => rwa [hrocks]
  | committed hcommit hrocks hseq =>
      rw [hrocks]
      rcases hcommit.ledger_step hs (hfresh _ hc) with hsame | hstep
      · rwa [hsame]
      · exact hstep.chained hchained

/-- Run lemma: the store stays consistent and its ledger chained. -/
theorem chained_runActions (env : Env) {actions : List Action} (hfresh : StartsFresh actions) :
    Consistent (runActions env {} actions) ∧
      (ledger (runActions env {} actions).rocks).Chained env.sha256 := by
  induction actions using List.reverseRecOn with
  | nil =>
      refine ⟨consistent_empty, ?_, ?_⟩
      · intro runId r hr
        simp [ledger, storedRun] at hr
      · intro e he
        simp [ledger, storedEvents] at he
  | append_singleton actions a ih =>
      rcases ih fun b hb => hfresh b (List.mem_append_left _ hb) with ⟨hs, hchained⟩
      rw [runActions_concat]
      refine ⟨(a.durable env _).consistent hs, a.chained hs ?_ hchained⟩
      exact hfresh a (List.mem_append_right _ (List.mem_singleton_self a))

/-- In every store that calls lead to, whatever they throw and wherever they stop, each stored run
has a valid chain of events in the order of their sequence numbers, and its record carries the
chain's last hash and length. -/
theorem storedRun_chain (env : Env) {actions : List Action} (hfresh : StartsFresh actions)
    {runId : Bytes} {run : AgentRun}
    (hrun : storedRun (runActions env {} actions).rocks runId = some run) :
    let es := runEvents (runActions env {} actions).rocks runId
    (es.Pairwise fun a b => a.sequence < b.sequence) ∧
      (verifyChain env.sha256 es runId).valid = true ∧
      ((es.getLast?.map AuditEvent.eventHash).getD [] = run.lastEventHash) ∧
      run.eventCount = es.length := by
  intro es
  rcases chained_runActions env hfresh with ⟨hs, hchained⟩
  have hsummary := hchained.summary hrun
  refine ⟨hs.represents.storedEvents_sorted.filter _, verifyChain_valid_iff.2 hsummary.chain, ?_,
    hsummary.count⟩
  exact (getLast?_eventHash [] es).trans hsummary.hash

/-! ### A run of the unit tests' store -/

namespace ChainExample

def run : AgentRun :=
  { runId := bytes "run_001", orgId := bytes "org_test", projectId := bytes "proj_test",
    environment := bytes "test", agentId := bytes "test-agent", status := bytes "running",
    startedAtMs := 1714521600000 }

def event (eventId idempotencyKey : String) : AuditEvent :=
  { eventId := bytes eventId, eventType := bytes "tool_call.completed",
    idempotencyKey := bytes idempotencyKey }

/-- The event as stored, up to its hash. -/
def stamped (seq : Nat) (prevHash : HashStr) (ev : AuditEvent) : AuditEvent :=
  { ev with
    sequence := seq, orgId := run.orgId, projectId := run.projectId, runId := run.runId,
    environment := run.environment, schemaVersion := bytes "2026-05-01",
    payloadMode := bytes "metadata_only", occurredAtMs := 1714521600000,
    ingestedAtMs := 1714521600000, previousEventHash := prevHash }

def firstHash : HashStr :=
  bytes "sha256:3347619a89f360a3569da8373d828882415bc5e0c45e16f034f0e75ca3279451"

def env : Env :=
  tableEnv [
    (canonicalJsonEvent (stamped 1 [] (event "evt_001" "idem_001")), exampleDigest),
    (canonicalJsonEvent (stamped 2 firstHash (event "evt_002" "")),
      #v[98, 121, 168, 61, 129, 21, 204, 73, 62, 194, 132, 195, 192, 78, 66, 119,
        55, 199, 185, 49, 175, 254, 254, 240, 135, 166, 231, 13, 159, 153, 96, 181])]

def clock : Nat → Int := fun _ => 1714521600000

def append (events : List AuditEvent) : Call :=
  .appendEvents run.runId run.orgId run.projectId events

/-- An event, the same event stopped in the middle of its batch, a reopening, and a batch with a
replay of it and a new one. -/
def actions : List Action :=
  [.call clock (.startRun run), .call clock (append [event "evt_001" "idem_001"]),
    .stopped clock (append [event "evt_002" ""]) { done := 3 }, .reopen,
    .call clock (append [event "evt_001" "idem_001", event "evt_002" ""])]

def finalRun : AgentRun :=
  { run with
    eventCount := 2
    lastEventHash :=
      bytes "sha256:6279a83d8115cc493ec284c3c04e427737c7b931affefef087a6e70d9f9960b5" }

end ChainExample

open ChainExample in
theorem storedRun_chain_example :
    let es := runEvents (runActions env {} actions).rocks (bytes "run_001")
    (es.Pairwise fun a b => a.sequence < b.sequence) ∧
      (verifyChain env.sha256 es (bytes "run_001")).valid = true ∧
      ((es.getLast?.map AuditEvent.eventHash).getD [] = finalRun.lastEventHash) ∧
      finalRun.eventCount = es.length := by
  have hfresh : StartsFresh actions := by
    intro a ha c hc
    simp only [actions, List.mem_cons, List.not_mem_nil, or_false] at ha
    rcases ha with rfl | rfl | rfl | rfl | rfl <;> cases hc <;>
      simp [Call.StartsFresh, append, ChainExample.run]
  have hrun : storedRun (runActions env {} actions).rocks (bytes "run_001") = some finalRun := by
    decide +kernel
  exact storedRun_chain env hfresh hrun

end ControlDB
