import ControlDB.Library.LinkedChain
import ControlDB.Python.CanonicalBinding
import ControlDB.Sdk.RunTrace

/-!
# What a run delivers

The buffer of a run loses and repeats nothing.  The events in it are linked by their hashes, but the
key that `_emit` adds behind `_build_envelope` is no part of what was hashed.
-/

namespace ControlDB
namespace Sdk

open Library Python

/-- A run that has just been opened. -/
def RunState.start (runId agentId : String) (agentVersion : Option String) (environment : String)
    (traceId : Option String) : RunState :=
  { world := World.init, run := Run.init runId agentId agentVersion environment traceId }

section Buffer

variable {env : Env} {client : Client}

/-! ## The buffer -/

/-- What was posted and what is still in the buffer is all there is, in order. -/
def Accounted (s : RunState) : Prop :=
  s.world.delivered.flatten ++ s.run.buffer = s.world.emitted

theorem accounted_effect {s s' : RunState} (h : Accounted s) (heffect : Effect env client s s') :
    Accounted s' := by
  unfold Accounted at h ⊢
  cases heffect with
  | appended hprepared hhash =>
      rw [RunState.appended, ← List.append_assoc, h]
  | delivered _ =>
      rw [RunState.delivered, List.append_nil, List.flatten_append, List.flatten_singleton]
      exact h
  | retained _ => exact h
  | asked => exact h
  | marked status committed closed => exact h

theorem accounted_calls (env : Env) (client : Client) (runId agentId : String)
    (agentVersion : Option String) (environment : String) (traceId : Option String)
    (calls : List Call) :
    Accounted (calls.foldl (step env client)
      (RunState.start runId agentId agentVersion environment traceId)) := by
  have hstart : Accounted (RunState.start runId agentId agentVersion environment traceId) := rfl
  exact keeps_calls accounted_effect hstart calls

end Buffer

/-! ## The hashes -/

/-- The event as it was hashed. -/
def EventEnvelope.unkeyed (event : EventEnvelope) : EventEnvelope :=
  { event with idempotencyKey := none }

/-- What `compute_event_hash` takes the digest of. -/
def EventEnvelope.hashText (event : EventEnvelope) : Option Bytes :=
  canonicalJson (.obj (popEventHash event.toDict))

theorem computeEventHash_eq_hashText (sha256 : Sha256) (event : EventEnvelope) :
    Python.computeEventHash sha256 event.toDict = event.hashText.map (Python.sha256Hex sha256) :=
  rfl

def hashedKeys : List String :=
  ["event_id", "schema_version", "event_type", "org_id", "project_id", "environment", "agent_id",
    "run_id", "actor", "payload_mode", "occurred_at", "ingested_at", "agent_version", "step_id",
    "step_index", "trace_id", "span_id", "parent_span_id", "payload", "payload_hash",
    "previous_event_hash", "idempotency_key"]

theorem map_fst_popEventHash (event : EventEnvelope) :
    (popEventHash event.toDict).map Prod.fst = hashedKeys := by
  simp [popEventHash, EventEnvelope.toDict, hashedKeys]

theorem getLast?_popEventHash (event : EventEnvelope) :
    (popEventHash event.toDict).getLast? =
      some ("idempotency_key", PyJson.optStr event.idempotencyKey) := by
  simp [popEventHash, EventEnvelope.toDict]

/-- The hash is no part of its own text. -/
theorem popEventHash_setHash (event : EventEnvelope) (hash : String) :
    popEventHash { event with eventHash := hash }.toDict = popEventHash event.toDict := by
  simp [popEventHash, EventEnvelope.toDict]

/-- The key is a part of the text. -/
theorem hashText_ne_unkeyed {event : EventEnvelope} {key : String} {a b : Bytes}
    (hkey : event.idempotencyKey = some key) (ha : event.unkeyed.hashText = some a)
    (hb : event.hashText = some b) : a ≠ b := by
  rintro rfl
  have hnodup : hashedKeys.Nodup := by decide
  have hmembers := JsonTree.sortMembers_eq_of_sortKeys
    ((map_fst_popEventHash event.unkeyed).trans (map_fst_popEventHash event).symm)
    (by rw [map_fst_popEventHash]; exact hnodup) (sortKeys_eq_of_canonicalJson ha hb)
  have hlast := congrArg List.getLast? hmembers
  rw [JsonTree.sortMembers_eq_map, JsonTree.sortMembers_eq_map, List.getLast?_map,
    List.getLast?_map, getLast?_popEventHash, getLast?_popEventHash, hkey] at hlast
  simp [EventEnvelope.unkeyed, PyJson.optStr, PyJson.none, PyJson.str, JsonTree.sortKeys] at hlast

section Chain

variable {env : Env} {client : Client}

/-- Every event is linked to the one before it. -/
def LinkedEvents (events : List EventEnvelope) : Prop :=
  Linked EventEnvelope.previousEventHash EventEnvelope.eventHash none events

/-- The hash of an event is that of its dict, and it points to the hash before it. -/
structure SelfVerifying (sha256 : Sha256) (events : List EventEnvelope) : Prop where
  hashes : ∀ event ∈ events,
    Python.computeEventHash sha256 event.toDict = some event.eventHash
  links : LinkedEvents events

/-- What `_emit` has put into the buffers so far: each hash was taken before the key was there. -/
structure Chained (sha256 : Sha256) (s : RunState) : Prop where
  hashes : ∀ event ∈ s.world.emitted,
    Python.computeEventHash sha256 event.unkeyed.toDict = some event.eventHash ∧
      ∃ key, event.idempotencyKey = some key
  links : LinkedEvents s.world.emitted
  last : s.run.previousEventHash = lastLink EventEnvelope.eventHash none s.world.emitted

theorem Chained.appended {s : RunState} (h : Chained env.sha256 s) {e : Emission}
    {prepared : Prepared} {hash : String}
    (hhash : Python.computeEventHash env.sha256 (draft env client s e prepared).toDict = some hash) :
    Chained env.sha256 (s.appended env client e prepared hash) := by
  have hunkeyed : (eventOf env client s e prepared hash).unkeyed =
      { draft env client s e prepared with eventHash := hash } := rfl
  refine ⟨fun event hevent => ?_, ?_, ?_⟩
  · rcases List.mem_append.1 hevent with hold | hnew
    · exact h.hashes event hold
    · rw [List.mem_singleton.1 hnew, hunkeyed]
      refine ⟨?_, _, rfl⟩
      rw [← computeEventHash_pop, popEventHash_setHash, computeEventHash_pop]
      exact hhash
  · have hprev : (eventOf env client s e prepared hash).previousEventHash =
        lastLink EventEnvelope.eventHash none s.world.emitted := h.last
    exact linked_append.2 ⟨h.links, hprev, trivial⟩
  · show some hash = lastLink _ none (s.world.emitted ++ [eventOf env client s e prepared hash])
    rw [lastLink_append]
    rfl

theorem chained_effect {s s' : RunState} (h : Chained env.sha256 s)
    (heffect : Effect env client s s') : Chained env.sha256 s' := by
  cases heffect with
  | appended hprepared hhash => exact h.appended hhash
  | delivered _ => exact ⟨h.hashes, h.links, h.last⟩
  | retained _ => exact ⟨h.hashes, h.links, h.last⟩
  | asked => exact ⟨h.hashes, h.links, h.last⟩
  | marked status committed closed => exact ⟨h.hashes, h.links, h.last⟩

/-- The text of the event with its key and the text without it have the same digest. -/
def KeyCollides (sha256 : Sha256) (event : EventEnvelope) : Prop :=
  ∃ a b, event.unkeyed.hashText = some a ∧ event.hashText = some b ∧ a ≠ b ∧ sha256 a = sha256 b

theorem encodable_popEventHash {event : EventEnvelope} :
    event.hashText.isSome = encodable event.payload := by
  cases hpayload : encodable event.payload <;>
    simp [EventEnvelope.hashText, canonicalJson, encodable, popEventHash, EventEnvelope.toDict,
      encodableMembers, hpayload, PyJson.str, Actor.toDict]

/-- A hash that was taken without the key is that of the whole dict only by a collision. -/
theorem hash_iff_keyCollides {sha256 : Sha256} {event : EventEnvelope} {key : String}
    (hkey : event.idempotencyKey = some key)
    (hhash : Python.computeEventHash sha256 event.unkeyed.toDict = some event.eventHash) :
    Python.computeEventHash sha256 event.toDict = some event.eventHash ↔
      KeyCollides sha256 event := by
  rw [computeEventHash_eq_hashText] at hhash ⊢
  rcases Option.map_eq_some_iff.1 hhash with ⟨a, ha, hdigest⟩
  have hencodable : event.hashText.isSome = true := by
    rw [encodable_popEventHash]
    have hunkeyed := @encodable_popEventHash event.unkeyed
    rw [ha] at hunkeyed
    exact hunkeyed.symm
  rcases Option.isSome_iff_exists.1 hencodable with ⟨b, hb⟩
  have hne : a ≠ b := hashText_ne_unkeyed hkey ha hb
  rw [hb, Option.map_some, Option.some.injEq]
  constructor
  · intro heq
    exact ⟨a, b, ha, hb, hne, sha256Hex_eq (hdigest.trans heq.symm)⟩
  · rintro ⟨a', b', ha', hb', _, hsame⟩
    rw [ha, Option.some.injEq] at ha'
    rw [hb, Option.some.injEq] at hb'
    rw [← hdigest, ha', hb', Python.sha256Hex, Python.sha256Hex, hsame]

/-- What the transport has been handed is a beginning of what was emitted. -/
theorem Chained.selfVerifying_iff {s : RunState} (h : Chained env.sha256 s)
    {handed : List EventEnvelope} (hhanded : handed <+: s.world.emitted) :
    LinkedEvents handed ∧
      (SelfVerifying env.sha256 handed ↔ ∀ event ∈ handed, KeyCollides env.sha256 event) := by
  have hlinks : LinkedEvents handed := by
    rcases hhanded with ⟨rest, hemitted⟩
    have hall := h.links
    rw [← hemitted] at hall
    exact (linked_append.1 hall).1
  refine ⟨hlinks, fun hverifying event hevent => ?_, fun hcollide => ⟨fun event hevent => ?_, hlinks⟩⟩
  · rcases h.hashes event (hhanded.subset hevent) with ⟨hhash, key, hkey⟩
    exact (hash_iff_keyCollides hkey hhash).1 (hverifying.hashes event hevent)
  · rcases h.hashes event (hhanded.subset hevent) with ⟨hhash, key, hkey⟩
    exact (hash_iff_keyCollides hkey hhash).2 (hcollide event hevent)

theorem chained_start (sha256 : Sha256) (runId agentId : String) (agentVersion : Option String)
    (environment : String) (traceId : Option String) :
    Chained sha256 (RunState.start runId agentId agentVersion environment traceId) :=
  ⟨fun _ hevent => absurd hevent List.not_mem_nil, trivial, rfl⟩

end Chain

/-- The events that the transport is handed are always linked, and they verify themselves exactly when
each of them is a collision of the digest. -/
theorem calls_selfVerifying_iff (env : Env) (client : Client) (runId agentId : String)
    (agentVersion : Option String) (environment : String) (traceId : Option String)
    (calls : List Call) :
    let s := calls.foldl (step env client)
      (RunState.start runId agentId agentVersion environment traceId)
    s.world.delivered.flatten <+: s.world.emitted ∧
      ∀ handed, handed <+: s.world.emitted →
        LinkedEvents handed ∧
          (SelfVerifying env.sha256 handed ↔ ∀ event ∈ handed, KeyCollides env.sha256 event) := by
  have haccounted := accounted_calls env client runId agentId agentVersion environment traceId calls
  have hchained := @keeps_calls env client _ chained_effect _
    (chained_start env.sha256 runId agentId agentVersion environment traceId) calls
  exact ⟨⟨_, haccounted⟩, fun handed hhanded => hchained.selfVerifying_iff hhanded⟩

/-! ## One event -/

namespace RunExample

/-- SHA-256 of the three texts that occur, told apart by their lengths. -/
def sha256 (data : Bytes) : Vector UInt8 32 :=
  if data.length = 2 then
    #v[0x44, 0x13, 0x6f, 0xa3, 0x55, 0xb3, 0x67, 0x8a, 0x11, 0x46, 0xad, 0x16, 0xf7, 0xe8, 0x64,
      0x9e, 0x94, 0xfb, 0x4f, 0xc2, 0x1f, 0xe7, 0x7e, 0x83, 0x10, 0xc0, 0x60, 0xf6, 0x1c, 0xaa,
      0xff, 0x8a]
  else if data.length = 615 then
    #v[0xcf, 0xd6, 0xf6, 0xe8, 0x53, 0x6f, 0x35, 0x4f, 0x6a, 0x7d, 0x75, 0xba, 0x62, 0x38, 0xa3,
      0xcc, 0x2b, 0x59, 0x43, 0x57, 0x18, 0xb0, 0x2e, 0x6b, 0x75, 0x81, 0x30, 0x91, 0x77, 0x85,
      0x2c, 0x73]
  else
    #v[0xd6, 0xfa, 0x66, 0xf4, 0xaa, 0xb9, 0xd0, 0xfb, 0xdd, 0x8a, 0x52, 0x92, 0xd9, 0xb5, 0xcd,
      0xa8, 0x52, 0xf6, 0xb2, 0xc2, 0xcc, 0xf7, 0x55, 0x80, 0x5f, 0x7b, 0x2a, 0x67, 0x02, 0x83,
      0x2f, 0xa1]

/-- The first envelope is `evt_1`, and the collector takes every request. -/
def env : Env :=
  { sha256
    repr := fun _ => ""
    stamp := fun n =>
      { eventId := String.ofList ("evt_".toList ++ intText (n + 1))
        occurredAt := "2026-05-13T12:00:00.000000Z"
        ingestedAt := "2026-05-13T12:00:00.000000Z" }
    approvalId := fun _ => "appr_1"
    request := fun _ _ _ _ => .ok (.obj [])
    spoolWrite := fun _ => .ok ⟨⟩
    api := fun _ _ => .ok (.obj []) }

def client : Client :=
  { orgId := "org_default"
    project := "proj_default"
    environment := "dev"
    defaultPayloadMode := .redactedPayload
    redactionRules := []
    redactionCallbacks := []
    batchSize := 1
    failOpen := false
    hasSpool := false }

def start : RunState :=
  RunState.start "run_1" "repeat-agent" none "dev" none

/-- `run.emit("memory.write")`. -/
def write : Call :=
  .emit { eventType := "memory.write", payload := .dict [] }

end RunExample

/-- The event that arrives has another hash than the one it names. -/
theorem delivered_not_selfVerifying :
    ¬ SelfVerifying RunExample.env.sha256
      ([RunExample.write].foldl (step RunExample.env RunExample.client)
        RunExample.start).world.delivered.flatten := by
  have hevaluated : ([RunExample.write].foldl (step RunExample.env RunExample.client)
      RunExample.start).world.delivered.flatten.all (fun event =>
        decide (Python.computeEventHash RunExample.env.sha256 event.toDict =
          some event.eventHash)) = false := by
    decide +kernel
  intro h
  rw [List.all_eq_true.2 fun event hevent => decide_eq_true (h.hashes event hevent)] at hevaluated
  cases hevaluated

end Sdk
end ControlDB
