import ControlDB.Collector.TamperEvidence

/-!
# The envelope that is hashed and the one that is rebuilt

`_persist_event` hashes an envelope and stores its fields in columns; `verify` builds an envelope
from the columns and hashes that.  Two fields do not survive: of the actor only a type and an id are
stored, and a database like SQLite drops the offset of a datetime.
-/

namespace ControlDB
namespace Collector

open Library Python

/-! ## When the columns hold the envelope -/

/-- Equal dicts: the same members, at any depth, in some order. -/
def SameDict (a b : List (String × PyJson)) : Prop :=
  (JsonTree.obj a).sortKeys = (JsonTree.obj b).sortKeys

/-- `verify` rebuilds from the row the envelope that was hashed for it, and accepts the row behind
the event before it. -/
structure Rebuilt (env : Env) (m : Moment) (i : Nat) (principal : Principal) (run run' : AgentRun)
    (event : EventInput) (previousHash : Option String) (row : AuditEvent) : Prop where
  envelope : SameDict (rowEnvelope run' row).members
    (newEnvelope env m i principal run event previousHash row.payloadHash).members
  accepted : verifyLoop env run' previousHash [row] = .ok none

/-- The columns of the actor take a text or `NULL` as it is. -/
def StoresText (env : Env) : Prop :=
  ∀ text : Option String, env.bindString (PyJson.optStr text) = some text

/-- An actor that is a type and an id, each a text or null, and nothing else. -/
def Splits (actor : List (String × PyJson)) : Prop :=
  ∃ type id : Option String, actor.Perm [("type", PyJson.optStr type), ("id", PyJson.optStr id)]

/-- A submitted actor splits, unless it is empty. -/
def ActorSplits (event : EventInput) : Prop :=
  ∀ actor ∈ event.actor, actor ≠ [] → Splits actor

/-- What `fromisoformat` gets to read. -/
def cleaned (text : String) : String :=
  String.ofList (text.toList.flatMap fun c => if c = 'Z' then ['+', '0', '0', ':', '0', '0'] else [c])

/-- A submitted time that can be read has no offset, or that of UTC. -/
def OccursInUtc (env : Env) (event : EventInput) : Prop :=
  ∀ text ∈ truthy event.occurredAt, ∀ t ∈ env.fromisoformat (cleaned text),
    t.attachUtc.utcoffset = some 0

/-! ## Times -/

theorem attachUtc_naive (t : DateTime) : t.naive.attachUtc.utcoffset = some 0 := rfl

/-- A time with an offset is rebuilt from its local fields if the offset is that of UTC. -/
theorem utcIso_naive_iff {t : DateTime} :
    utcIso t.naive = t.isoformat ↔ t.utcoffset = some 0 := by
  constructor
  · intro h
    have hsame := DateTime.isoformat_injective h
    rw [← hsame]
    exact attachUtc_naive t
  · intro h
    rcases t with ⟨y, mo, d, hour, mi, sec, us, off, hin⟩
    cases h
    rfl

section Occurred

variable {env : Env} {m : Moment} {i : Nat} {event : EventInput}

/-- A clock in UTC: `datetime.now(timezone.utc)`. -/
def UtcClock (m : Moment) : Prop :=
  ∀ n, (m.now n).utcoffset = some 0

theorem occurredAt_utc_iff (hclock : UtcClock m) :
    (occurredAt env m i event).utcoffset = some 0 ↔ OccursInUtc env event := by
  unfold occurredAt parseIso OccursInUtc
  cases truthy event.occurredAt with
  | none => simp [hclock (2 * i)]
  | some text =>
      -- a text that cannot be read leaves the time of the clock
      cases hread : env.fromisoformat (cleaned text) with
      | none =>
          have hread' := hread
          unfold cleaned at hread'
          simp [hread, hread', hclock (2 * i)]
      | some t =>
          have hread' := hread
          unfold cleaned at hread'
          simp [hread, hread']

end Occurred

/-! ## Actors -/

section Actor

variable {env : Env} {actor : List (String × PyJson)} {type id : Option String}

theorem eq_optStr_of_sortKeys {value : PyJson} {text : Option String}
    (h : value.sortKeys = PyJson.optStr text) : value = PyJson.optStr text := by
  cases value with
  | leaf l => simpa [JsonTree.sortKeys] using h
  | arr items => cases text <;> simp [JsonTree.sortKeys, PyJson.optStr, PyJson.str, PyJson.none] at h
  | obj members => cases text <;> simp [JsonTree.sortKeys, PyJson.optStr, PyJson.str, PyJson.none] at h

/-- The stored type and id are the whole actor exactly if it has no other members. -/
theorem sameDict_actor_iff :
    SameDict [("type", PyJson.optStr type), ("id", PyJson.optStr id)] actor ↔
      actor.Perm [("type", PyJson.optStr type), ("id", PyJson.optStr id)] := by
  have hnodup : ([("type", PyJson.optStr type), ("id", PyJson.optStr id)].map Prod.fst).Nodup := by
    simp only [List.map_cons, List.map_nil]
    decide
  have hfixed : JsonTree.sortMembers [("type", PyJson.optStr type), ("id", PyJson.optStr id)] =
      [("type", PyJson.optStr type), ("id", PyJson.optStr id)] := by
    simp [JsonTree.sortMembers, sortKeys_optStr]
  rw [SameDict, JsonTree.sortKeys_obj_eq_iff hnodup, hfixed]
  constructor
  · intro h
    -- no value of the actor has anything in it to sort
    have hsorted : JsonTree.sortMembers actor = actor := by
      rw [JsonTree.sortMembers_eq_map] at h ⊢
      refine (List.map_congr_left fun member hmember => ?_).trans (List.map_id _)
      have hfound := h.mem_iff.2 (List.mem_map_of_mem hmember)
      have hvalue : ∃ text, member.2.sortKeys = PyJson.optStr text := by
        rcases List.mem_cons.1 hfound with heq | heq
        · exact ⟨type, congrArg Prod.snd heq⟩
        · exact ⟨id, congrArg Prod.snd (List.mem_singleton.1 heq)⟩
      rcases hvalue with ⟨text, htext⟩
      have hsame := eq_optStr_of_sortKeys htext
      rw [htext, ← hsame]
      rfl
    rw [hsorted] at h
    exact h.symm
  · intro h
    rw [JsonTree.sortMembers_eq_map] at hfixed ⊢
    rw [← hfixed]
    exact (h.map _).symm

theorem get_of_splits (h : actor.Perm [("type", PyJson.optStr type), ("id", PyJson.optStr id)]) :
    PyJson.get actor "type" = PyJson.optStr type ∧ PyJson.get actor "id" = PyJson.optStr id := by
  have hswap : actor = [("type", PyJson.optStr type), ("id", PyJson.optStr id)] ∨
      actor = [("id", PyJson.optStr id), ("type", PyJson.optStr type)] := by
    have hlength := h.length_eq
    rcases actor with _ | ⟨a, _ | ⟨b, _ | ⟨c, actor⟩⟩⟩
    · simp at hlength
    · simp at hlength
    · rcases List.mem_cons.1 (h.mem_iff.1 List.mem_cons_self) with rfl | ha
      · exact .inl (by rw [List.perm_singleton.1 h.cons_inv])
      · have ha' := List.mem_singleton.1 ha
        subst ha'
        have hrest : [b].Perm [("type", PyJson.optStr type)] :=
          (h.trans (List.Perm.swap _ _ _)).cons_inv
        exact .inr (by rw [List.perm_singleton.1 hrest])
    · simp at hlength
  rcases hswap with rfl | rfl
  · exact ⟨rfl, rfl⟩
  · exact ⟨rfl, rfl⟩

end Actor

/-! ## Envelopes -/

/-- The members of an envelope apart from the actor and the times. -/
structure SameFields (a b : Envelope) : Prop where
  eventId : a.eventId = b.eventId
  schemaVersion : a.schemaVersion = b.schemaVersion
  eventType : a.eventType = b.eventType
  orgId : a.orgId = b.orgId
  projectId : a.projectId = b.projectId
  environment : a.environment = b.environment
  agentId : a.agentId = b.agentId
  agentVersion : a.agentVersion = b.agentVersion
  runId : a.runId = b.runId
  stepId : a.stepId = b.stepId
  stepIndex : a.stepIndex = b.stepIndex
  traceId : a.traceId = b.traceId
  spanId : a.spanId = b.spanId
  parentSpanId : a.parentSpanId = b.parentSpanId
  payloadMode : a.payloadMode = b.payloadMode
  payload : a.payload = b.payload
  payloadHash : a.payloadHash = b.payloadHash
  previousEventHash : a.previousEventHash = b.previousEventHash
  idempotencyKey : a.idempotencyKey = b.idempotencyKey

/-- Envelopes that agree in the other fields are the same dict exactly if their actors and times
are. -/
theorem SameFields.sameDict_iff {a b : Envelope} (h : SameFields a b) :
    SameDict a.members b.members ↔
      SameDict a.actor b.actor ∧ a.occurredAt = b.occurredAt ∧ a.ingestedAt = b.ingestedAt := by
  have hkeys : a.members.map Prod.fst = b.members.map Prod.fst := by
    simp only [Envelope.members, List.map_cons, List.map_nil]
  have hnodup : (a.members.map Prod.fst).Nodup := by
    simp only [Envelope.members, List.map_cons, List.map_nil]
    decide
  have hmembers : SameDict a.members b.members ↔
      JsonTree.sortMembers a.members = JsonTree.sortMembers b.members := by
    constructor
    · exact JsonTree.sortMembers_eq_of_sortKeys hkeys hnodup
    · intro heq
      simp only [SameDict, JsonTree.sortKeys, heq]
  rw [hmembers]
  simp only [Envelope.members, JsonTree.sortMembers, List.cons.injEq, Prod.mk.injEq, SameDict, true_and,
    and_true, h.eventId, h.schemaVersion, h.eventType, h.orgId, h.projectId, h.environment, h.agentId,
    h.agentVersion, h.runId, h.stepId, h.stepIndex, h.traceId, h.spanId, h.parentSpanId, h.payloadMode,
    h.payload, h.payloadHash, h.previousEventHash, h.idempotencyKey, sortKeys_str, str_inj]

/-- What `newRow` stores. -/
theorem newRow_fields {env : Env} {m : Moment} {i sequence : Nat} {principal : Principal}
    {run : AgentRun} {event : EventInput} {previousHash : Option String} {row : AuditEvent}
    (hrow : newRow env m i sequence principal run event previousHash = .ok row) {run' : AgentRun}
    (hagent : run'.agentId = run.agentId ∧ run'.agentVersion = run.agentVersion) :
    SameFields (rowEnvelope run' row)
        (newEnvelope env m i principal run event previousHash row.payloadHash) ∧
      env.bindString (PyJson.get (actorOf run event) "type") = some row.actorType ∧
      env.bindString (PyJson.get (actorOf run event) "id") = some row.actorId ∧
      row.occurredAt = env.storeDatetime (occurredAt env m i event) ∧
      row.ingestedAt = env.storeDatetime (ingestedAt m i) ∧
      Python.computeEventHash env.sha256
        (newEnvelope env m i principal run event previousHash row.payloadHash).members =
          some row.eventHash := by
  unfold newRow at hrow
  cases hpayload : payloadHashOf env event with
  | error e => simp [hpayload] at hrow
  | ok payloadHash =>
      simp only [hpayload] at hrow
      split at hrow
      · rename_i hash type id hhash htype hid
        cases hrow
        refine ⟨?_, htype, hid, rfl, rfl, hhash⟩
        exact ⟨rfl, rfl, rfl, rfl, rfl, rfl, hagent.1, hagent.2, rfl, rfl, rfl, rfl, rfl, rfl, rfl, rfl,
          rfl, rfl, rfl⟩
      · cases hrow

section Rebuilt

variable {env : Env} {m : Moment} {i sequence : Nat} {principal : Principal} {run run' : AgentRun}
  {event : EventInput} {previousHash : Option String} {row : AuditEvent}

/-- The columns of the actor give it back exactly if it splits. -/
theorem sameDict_actorOf_iff (htext : StoresText env)
    (htype : env.bindString (PyJson.get (actorOf run event) "type") = some row.actorType)
    (hid : env.bindString (PyJson.get (actorOf run event) "id") = some row.actorId) :
    SameDict (rowEnvelope run' row).actor (actorOf run event) ↔ ActorSplits event := by
  have hsplits : SameDict (rowEnvelope run' row).actor (actorOf run event) ↔
      Splits (actorOf run event) := by
    rw [rowEnvelope, sameDict_actor_iff]
    constructor
    · intro h
      exact ⟨row.actorType, row.actorId, h⟩
    · rintro ⟨type, id, h⟩
      rcases get_of_splits h with ⟨hgetType, hgetId⟩
      rw [hgetType, htext] at htype
      rw [hgetId, htext] at hid
      cases htype
      cases hid
      exact h
  rw [hsplits]
  -- an absent or empty actor is replaced by the agent of the run
  have hagent : Splits [("type", PyJson.str "agent"), ("id", PyJson.str run.agentId)] :=
    ⟨some "agent", some run.agentId, List.Perm.refl _⟩
  unfold actorOf ActorSplits
  cases event.actor with
  | none => simpa using hagent
  | some actor =>
      cases actor with
      | nil => simpa using hagent
      | cons member members => simp

/-- On a database that drops offsets, an event is rebuilt exactly if its actor splits and its time
is in UTC. -/
theorem rebuilt_iff (hdrop : ∀ t, env.storeDatetime t = t.naive) (htext : StoresText env)
    (hclock : UtcClock m) (hagent : run'.agentId = run.agentId ∧ run'.agentVersion = run.agentVersion)
    (hrow : newRow env m i sequence principal run event previousHash = .ok row) :
    Rebuilt env m i principal run run' event previousHash row ↔
      ActorSplits event ∧ OccursInUtc env event := by
  rcases newRow_fields hrow hagent with ⟨hfields, htype, hid, hoccurred, hingested, hhash⟩
  have hactor : SameDict (rowEnvelope run' row).actor (actorOf run event) ↔ ActorSplits event :=
    sameDict_actorOf_iff htext htype hid
  have htime : utcIso row.occurredAt = (occurredAt env m i event).isoformat ↔
      OccursInUtc env event := by
    rw [hoccurred, hdrop, utcIso_naive_iff, occurredAt_utc_iff hclock]
  have hnow : utcIso row.ingestedAt = (ingestedAt m i).isoformat := by
    rw [hingested, hdrop]
    exact utcIso_naive_iff.2 (hclock _)
  have hsame : SameDict (rowEnvelope run' row).members
      (newEnvelope env m i principal run event previousHash row.payloadHash).members ↔
        ActorSplits event ∧ OccursInUtc env event := by
    rw [hfields.sameDict_iff, ← hactor, ← htime]
    exact ⟨fun h => ⟨h.1, h.2.1⟩, fun h => ⟨h.1, h.2, hnow⟩⟩
  constructor
  · intro h
    exact hsame.1 h.envelope
  · intro h
    refine ⟨hsame.2 h, verifyLoop_eq_none.2 (accepted_cons.2 ⟨?_, ?_, accepted_nil⟩)⟩
    · exact (newRow_spec hrow).previousEventHash
    · -- equal dicts have one canonical text
      rw [computeEventHash_members] at hhash
      rw [HasOwnHash, computeEventHash_members, canonicalJson_congr (hsame.2 h), hhash]

end Rebuilt

/-! ### An actor with a role -/

namespace EnvelopeExample

open CollectorExample (noon moment owner envelope)

def alice : List (String × PyJson) :=
  [("type", PyJson.str "user"), ("id", PyJson.str "alice")]

/-- The role is hashed but has no column. -/
def admin : List (String × PyJson) :=
  alice ++ [("role", PyJson.str "admin")]

def run : AgentRun :=
  { runId := "run_1"
    orgId := owner.orgId
    projectId := owner.projectId
    environment := "dev"
    agentId := "repeat-agent"
    agentVersion := none
    startedAt := noon }

def event (actor : List (String × PyJson)) : EventInput :=
  { eventId := some "evt_a"
    eventType := "memory.write"
    actor := some actor
    idempotencyKey := some "idem_a" }

/-- The digests of the envelopes with and without the role. -/
def env : Env :=
  sqliteEnv [
    ({ envelope "evt_a" (some "idem_a") none with actor := admin },
      #v[165, 84, 1, 25, 221, 194, 18, 137, 189, 190, 0, 166, 28, 136, 60, 188, 153, 83, 1, 26, 119,
        72, 139, 153, 229, 30, 44, 7, 80, 49, 96, 49]),
    ({ envelope "evt_a" (some "idem_a") none with actor := alice },
      #v[253, 239, 226, 82, 68, 213, 74, 161, 107, 5, 157, 129, 32, 75, 21, 201, 85, 236, 10, 69, 34,
        163, 180, 36, 88, 80, 211, 119, 113, 136, 240, 91])]

/-- The row that is stored for the first event of a batch. -/
def stored (actor : List (String × PyJson)) : Except PyError AuditEvent :=
  newRow env moment 0 1 owner run (event actor) none

theorem storesText : StoresText env := by
  intro text
  cases text <;> rfl

end EnvelopeExample

open EnvelopeExample in
/-- A user with a type and an id. -/
theorem rebuilt_iff_alice : ∃ row, stored alice = .ok row ∧
    Rebuilt env CollectorExample.moment 0 CollectorExample.owner run run (event alice) none row := by
  have hstored : (stored alice).toOption.isSome = true := by decide +kernel
  cases hrow : stored alice with
  | error e => simp [hrow, Except.toOption] at hstored
  | ok row =>
      refine ⟨row, rfl, (rebuilt_iff (fun _ => rfl) storesText (fun _ => rfl) ⟨rfl, rfl⟩ hrow).2 ⟨?_, ?_⟩⟩
      · intro actor hactor _
        cases hactor
        exact ⟨some "user", some "alice", List.Perm.refl _⟩
      · intro text htext
        cases htext

open EnvelopeExample in
/-- The stored event of an administrator is reported as tampered with. -/
theorem rebuilt_fails_admin : ∃ row, stored admin = .ok row ∧
    verifyLoop env run none [row] = .ok (some "evt_a") ∧
    ¬ Rebuilt env CollectorExample.moment 0 CollectorExample.owner run run (event admin) none row := by
  have hstored : (stored admin).toOption.isSome = true := by decide +kernel
  have hverify : (stored admin).toOption.map (fun row => (verifyLoop env run none [row]).toOption) =
      some (some (some "evt_a")) := by decide +kernel
  cases hrow : stored admin with
  | error e => simp [hrow, Except.toOption] at hstored
  | ok row =>
      have hbroken : verifyLoop env run none [row] = .ok (some "evt_a") := by
        rw [hrow] at hverify
        cases hloop : verifyLoop env run none [row] with
        | error e => simp [hloop, Except.toOption] at hverify
        | ok broken => simpa [hloop, Except.toOption] using hverify
      refine ⟨row, rfl, hbroken, fun h => ?_⟩
      have haccepted := h.accepted
      rw [hbroken] at haccepted
      cases haccepted

end Collector
end ControlDB
