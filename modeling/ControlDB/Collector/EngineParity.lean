import ControlDB.Core.TamperBinding
import ControlDB.Python.CanonicalBinding
import ControlDB.Collector.Ingest

/-!
# The texts that the two engines hash

`canonical_json_event` of the C++ engine spells out by hand what the collector leaves to
`json.dumps` with sorted keys.  Its list of keys has no `agent_id` and no `agent_version`, so behind
the actor the two texts part ways.
-/

namespace ControlDB
namespace Collector

open Library Python

/-! ## One event, stored by both -/

def utf8 (s : String) : Bytes :=
  encodeUtf8 s.toList

/-- What the engine keeps for a text that may be absent. -/
def utf8OrEmpty (s : Option String) : Bytes :=
  (s.map utf8).getD []

/-- A time in UTC and a number of milliseconds. -/
def SameInstant (t : DateTime) (ms : Int) : Prop :=
  t.utcoffset = some 0 ∧
    gmtime (ms.tdiv 1000) =
      { tmYear := (t.year : Int) - 1900, tmMon := (t.month : Int) - 1, tmMday := t.day,
        tmHour := t.hour, tmMin := t.minute, tmSec := t.second } ∧
    (t.microsecond : Int) = 1000 * ms.tmod 1000

instance (t : DateTime) (ms : Int) : Decidable (SameInstant t ms) :=
  inferInstanceAs (Decidable (_ ∧ _ ∧ _))

/-- The event of the engine has the values of the envelope; the agent of the run and its version
have no place in it. -/
structure SameValues (ev : ControlDB.AuditEvent) (e : Envelope) : Prop where
  eventId : ev.eventId = utf8 e.eventId
  schemaVersion : ev.schemaVersion = utf8 e.schemaVersion
  eventType : ev.eventType = utf8 e.eventType
  orgId : ev.orgId = utf8 e.orgId
  projectId : ev.projectId = utf8 e.projectId
  environment : ev.environment = utf8 e.environment
  runId : ev.runId = utf8 e.runId
  stepId : ev.stepId = utf8OrEmpty e.stepId
  stepIndex : ev.stepIndex = e.stepIndex.getD (-1)
  traceId : ev.traceId = utf8OrEmpty e.traceId
  spanId : ev.spanId = utf8OrEmpty e.spanId
  parentSpanId : ev.parentSpanId = utf8OrEmpty e.parentSpanId
  actor : ∃ type id, e.actor = [("type", PyJson.str type), ("id", PyJson.str id)] ∧
    ev.actorType = utf8 type ∧ ev.actorId = utf8 id
  payloadMode : ev.payloadMode = utf8 e.payloadMode
  payload : canonicalJson e.payload = some ev.payload
  payloadHash : ev.payloadHash = utf8OrEmpty e.payloadHash
  previousEventHash : ev.previousEventHash = utf8OrEmpty e.previousEventHash
  occurredAt : ∃ t : DateTime, e.occurredAt = t.isoformat ∧ SameInstant t ev.occurredAtMs
  ingestedAt : ∃ t : DateTime, e.ingestedAt = t.isoformat ∧ SameInstant t ev.ingestedAtMs
  idempotencyKey : ev.idempotencyKey = utf8OrEmpty e.idempotencyKey

/-! ## Reading the beginning of both texts -/

/-- A value whose text begins like a quoted string is a string, and ends where that ends. -/
theorem value_read {v : PyJson} {quote x y : Bytes} (hquote : quote ∈ JsonStrings)
    (h : encodeUtf8 (v.text scalarText quoteStr) ++ x = quote ++ y) : x = y := by
  have hhead : ∃ rest, quote = 0x22 :: rest := by
    rcases hquote with ⟨body, _, rfl⟩
    exact ⟨_, rfl⟩
  rcases hhead with ⟨rest, hrest⟩
  -- the text of a value that is not a string begins with something else
  have hother : ∀ {c : Char} {l : List Char}, v.text scalarText quoteStr = c :: l → c = '"' := by
    intro c l htext
    by_contra hc
    rw [htext, encodeUtf8_cons, hrest] at h
    by_cases hback : c = '\\'
    · subst hback
      have hbyte : String.utf8EncodeChar '\\' = [0x5c] := by decide
      rw [hbyte] at h
      exact absurd (List.cons.inj h).1 (by decide)
    · have hplain := utf8EncodeChar_plain hc hback
      rcases List.exists_cons_of_ne_nil (String.utf8EncodeChar_ne_nil (c := c)) with ⟨b, bs, hbytes⟩
      rw [hbytes] at h hplain
      exact (hplain b List.mem_cons_self).1 (List.cons.inj h).1
  cases v with
  | leaf l =>
      by_cases hstr : ∃ s, l = .str s
      · rcases hstr with ⟨s, rfl⟩
        exact (jsonStrings_prefixFree (encodeUtf8_quoteStr_mem s) hquote h).2
      · rcases scalarText_word fun s hs => hstr ⟨s, hs⟩ with ⟨hne, hword⟩
        rcases List.exists_cons_of_ne_nil hne with ⟨c, l', htext⟩
        have hc : c ∈ scalarText l := htext ▸ List.mem_cons_self
        exact absurd (hother htext) (hword c hc).not_mark.1
  | arr items => exact absurd (hother rfl) (by decide)
  | obj members => exact absurd (hother rfl) (by decide)

/-- The members of an envelope in the order of their keys. -/
def Envelope.sortedMembers (e : Envelope) : List (String × PyJson) :=
  [("actor", (JsonTree.obj e.actor).sortKeys),
    ("agent_id", .str e.agentId),
    ("agent_version", .optStr e.agentVersion),
    ("environment", .str e.environment),
    ("event_id", .str e.eventId),
    ("event_type", .str e.eventType),
    ("idempotency_key", .optStr e.idempotencyKey),
    ("ingested_at", .str e.ingestedAt),
    ("occurred_at", .str e.occurredAt),
    ("org_id", .str e.orgId),
    ("parent_span_id", .optStr e.parentSpanId),
    ("payload", e.payload.sortKeys),
    ("payload_hash", .optStr e.payloadHash),
    ("payload_mode", .str e.payloadMode),
    ("previous_event_hash", .optStr e.previousEventHash),
    ("project_id", .str e.projectId),
    ("run_id", .str e.runId),
    ("schema_version", .str e.schemaVersion),
    ("span_id", .optStr e.spanId),
    ("step_id", .optStr e.stepId),
    ("step_index", .optInt e.stepIndex),
    ("trace_id", .optStr e.traceId)]

theorem sortKeys_members (e : Envelope) :
    (JsonTree.obj e.members).sortKeys = .obj e.sortedMembers := by
  simp [Envelope.members, Envelope.sortedMembers, JsonTree.sortKeys, JsonTree.sortMembers,
    sortKeys_str, sortKeys_optStr, sortKeys_optInt, List.orderedInsert]

/-! ## The texts -/

/-- The collector's text up to its second key. -/
theorem dumps_members (e : Envelope) :
    ∃ members rest, dumps (.obj e.members) = ('\x7b' :: (quoteStr "actor" ++ [':', '\x7b'])) ++
      (JsonTree.membersText scalarText quoteStr members ++
        (',' :: (quoteStr "agent_id" ++ (':' :: rest)))) := by
  refine ⟨(JsonTree.sortMembers e.actor).insertionSort fun a b => a.1 ≤ b.1,
    (PyJson.str e.agentId).text scalarText quoteStr ++
      JsonTree.moreMembers scalarText quoteStr (e.sortedMembers.drop 2), ?_⟩
  rw [dumps, sortKeys_members]
  simp only [Envelope.sortedMembers, JsonTree.sortKeys, JsonTree.text, JsonTree.membersText,
    JsonTree.moreMembers, List.drop, List.cons_append, List.append_assoc, List.nil_append]

theorem encodeUtf8_dumps_members (e : Envelope) :
    ∃ members rest, encodeUtf8 (dumps (.obj e.members)) =
      bytes "\x7b\"actor\":\x7b" ++
        (encodeUtf8 (JsonTree.membersText scalarText quoteStr members) ++
          (0x2c :: (encodeUtf8 (quoteStr "agent_id") ++ rest))) := by
  rcases dumps_members e with ⟨members, rest, htext⟩
  have hstart : encodeUtf8 ('\x7b' :: (quoteStr "actor" ++ [':', '\x7b'])) =
      bytes "\x7b\"actor\":\x7b" := by decide
  have hcomma : String.utf8EncodeChar ',' = [0x2c] := by decide
  refine ⟨members, encodeUtf8 (':' :: rest), ?_⟩
  rw [htext, encodeUtf8_append, hstart, encodeUtf8_append, encodeUtf8_cons, encodeUtf8_append,
    hcomma, List.singleton_append]

/-- The engine's text up to its second key. -/
theorem canonicalJsonEvent_head (ev : ControlDB.AuditEvent) :
    ∃ rest, canonicalJsonEvent ev = bytes "\x7b\"actor\":" ++
      (actorText ev ++ (0x2c :: (jsonEscape (bytes "environment") ++ rest))) := by
  have hstart : fieldKey "\x7b" "actor" = bytes "\x7b\"actor\":" := by decide
  have hnext : fieldKey "," "environment" =
      0x2c :: (jsonEscape (bytes "environment") ++ bytes ":") := by decide
  have hkeys : leftKeys = fieldKey "\x7b" "actor" :: fieldKey "," "environment" ::
      leftKeys.drop 2 := rfl
  have hvalues : leftValues ev = actorText ev :: jsonEscape ev.environment ::
      (leftValues ev).drop 2 := rfl
  refine ⟨bytes ":" ++ (jsonEscape ev.environment ++
    (fieldsText (leftKeys.drop 2) ((leftValues ev).drop 2) ++
      ((fieldKey "," "payload" ++ payloadText ev.payload) ++
        (fieldsText rightKeys (rightValues ev) ++ bytes "\x7d")))), ?_⟩
  rw [canonicalJsonEvent_eq, hkeys, hvalues, fieldsText_cons, fieldsText_cons, hstart, hnext]
  simp only [List.append_assoc, List.cons_append, List.drop]

/-- Members whose text begins with a key and a string go on behind the string. -/
theorem membersText_read {members : List (String × PyJson)} {key quote x y : Bytes}
    (hkey : key ∈ JsonStrings) (hquote : quote ∈ JsonStrings)
    (h : encodeUtf8 (JsonTree.membersText scalarText quoteStr members) ++ x =
      key ++ (0x3a :: (quote ++ y))) :
    ∃ rest, encodeUtf8 (JsonTree.moreMembers scalarText quoteStr rest) ++ x = y := by
  have hcolon : String.utf8EncodeChar ':' = [0x3a] := by decide
  cases members with
  | nil =>
      -- a brace is no quotation mark
      rcases hkey with ⟨body, _, rfl⟩
      have hbrace : encodeUtf8 (JsonTree.membersText scalarText quoteStr []) = [0x7d] := by decide
      rw [hbrace] at h
      exact absurd (List.cons.inj h).1 (by decide)
  | cons member rest =>
      refine ⟨rest, ?_⟩
      rw [JsonTree.membersText, encodeUtf8_append, encodeUtf8_cons, hcolon, List.singleton_append,
        encodeUtf8_append, List.append_assoc, List.cons_append, List.append_assoc] at h
      have hvalue := (jsonStrings_prefixFree (encodeUtf8_quoteStr_mem member.1) hkey h).2
      exact value_read hquote (List.cons.inj hvalue).2

/-- Behind a comma there are more members. -/
theorem moreMembers_comma {members : List (String × PyJson)} {x y : Bytes}
    (h : encodeUtf8 (JsonTree.moreMembers scalarText quoteStr members) ++ x = 0x2c :: y) :
    ∃ rest, encodeUtf8 (JsonTree.membersText scalarText quoteStr rest) ++ x = y := by
  have hcomma : String.utf8EncodeChar ',' = [0x2c] := by decide
  cases members with
  | nil =>
      have hbrace : encodeUtf8 (JsonTree.moreMembers scalarText quoteStr []) = [0x7d] := by decide
      rw [hbrace] at h
      exact absurd (List.cons.inj h).1 (by decide)
  | cons member rest =>
      rw [JsonTree.moreMembers, encodeUtf8_cons, hcomma] at h
      exact ⟨member :: rest, (List.cons.inj h).2⟩

/-- Behind a brace there are none. -/
theorem moreMembers_brace {members : List (String × PyJson)} {x y : Bytes}
    (h : encodeUtf8 (JsonTree.moreMembers scalarText quoteStr members) ++ x = 0x7d :: y) :
    x = y := by
  have hcomma : String.utf8EncodeChar ',' = [0x2c] := by decide
  cases members with
  | nil => exact (List.cons.inj h).2
  | cons member rest =>
      rw [JsonTree.moreMembers, encodeUtf8_cons, hcomma] at h
      exact absurd (List.cons.inj h).1 (by decide)

/-- An object whose text begins like the actor of the engine ends where that ends. -/
theorem actorText_read (ev : ControlDB.AuditEvent) {members : List (String × PyJson)}
    {x y : Bytes}
    (h : 0x7b :: (encodeUtf8 (JsonTree.membersText scalarText quoteStr members) ++ x) =
      actorText ev ++ y) : x = y := by
  have hid : bytes "\x7b\"id\":" = 0x7b :: (jsonEscape (bytes "id") ++ [0x3a]) := by decide
  have htype : bytes ",\"type\":" = 0x2c :: (jsonEscape (bytes "type") ++ [0x3a]) := by decide
  have hbrace : bytes "\x7d" = [0x7d] := by decide
  unfold actorText at h
  split_ifs at h
  · exact absurd (List.cons.inj h).1 (by decide)
  · rw [actorJson_eq, hid, htype, hbrace] at h
    simp only [List.append_assoc, List.cons_append, List.nil_append] at h
    -- the id, the type, and the end
    rcases membersText_read (jsonEscape_mem _) (jsonEscape_mem _) (List.cons.inj h).2 with
      ⟨more, hmore⟩
    rcases moreMembers_comma hmore with ⟨members', htypes⟩
    rcases membersText_read (jsonEscape_mem _) (jsonEscape_mem _) htypes with ⟨last, hlast⟩
    exact moreMembers_brace hlast

/-- Whatever is stored, the two engines hash different texts. -/
theorem texts_differ (ev : ControlDB.AuditEvent) (e : Envelope) :
    canonicalJson (.obj e.members) ≠ some (canonicalJsonEvent ev) := by
  intro h
  have htext : encodeUtf8 (dumps (.obj e.members)) = canonicalJsonEvent ev := by
    unfold canonicalJson at h
    split_ifs at h
    exact Option.some.inj h
  rcases encodeUtf8_dumps_members e with ⟨members, rest, hcollector⟩
  rcases canonicalJsonEvent_head ev with ⟨rest', hengine⟩
  have hstart : bytes "\x7b\"actor\":\x7b" = bytes "\x7b\"actor\":" ++ [0x7b] := by decide
  rw [hcollector, hengine, hstart, List.append_assoc] at htext
  have hrest := actorText_read ev (List.append_cancel_left htext)
  -- behind the actor, one text has the key of the agent and the other that of the environment
  have hkeys := (jsonStrings_prefixFree (encodeUtf8_quoteStr_mem "agent_id")
    (jsonEscape_mem (bytes "environment")) (List.cons.inj hrest).2).1
  exact absurd hkeys (by decide)

namespace ParityExample

/-- 2024-05-01T12:00:00+00:00. -/
def noon : DateTime where
  year := 2024
  month := 5
  day := 1
  hour := 12
  minute := 0
  second := 0
  microsecond := 0
  utcoffset := some 0
  inRange := by simp

def envelope : Envelope where
  eventId := "evt_1"
  schemaVersion := "1.0"
  eventType := "tool.call"
  orgId := "org_1"
  projectId := "prj_1"
  environment := "prod"
  agentId := "agent_1"
  agentVersion := some "2"
  runId := "run_1"
  stepId := none
  stepIndex := some 0
  traceId := none
  spanId := none
  parentSpanId := none
  actor := [("type", PyJson.str "agent"), ("id", PyJson.str "agent_1")]
  payloadMode := "metadata_only"
  payload := .obj [("tool", PyJson.str "search")]
  payloadHash := none
  previousEventHash := none
  occurredAt := noon.isoformat
  ingestedAt := noon.isoformat
  idempotencyKey := none

def event : ControlDB.AuditEvent where
  eventId := bytes "evt_1"
  schemaVersion := bytes "1.0"
  eventType := bytes "tool.call"
  orgId := bytes "org_1"
  projectId := bytes "prj_1"
  environment := bytes "prod"
  runId := bytes "run_1"
  stepIndex := 0
  actorType := bytes "agent"
  actorId := bytes "agent_1"
  payloadMode := bytes "metadata_only"
  payload := bytes "\x7b\"tool\":\"search\"\x7d"
  occurredAtMs := 1714564800000
  ingestedAtMs := 1714564800000

theorem sameValues : SameValues event envelope := by
  have hinstant : SameInstant noon 1714564800000 := by decide +kernel
  constructor
  case actor => exact ⟨"agent", "agent_1", rfl, by decide, by decide⟩
  case occurredAt => exact ⟨noon, rfl, hinstant⟩
  case ingestedAt => exact ⟨noon, rfl, hinstant⟩
  case payload => decide +kernel
  all_goals decide

end ParityExample

/-- The same values in both, and different texts. -/
theorem texts_differ_agent :
    SameValues ParityExample.event ParityExample.envelope ∧
      canonicalJson (.obj ParityExample.envelope.members) ≠
        some (canonicalJsonEvent ParityExample.event) :=
  ⟨ParityExample.sameValues, by decide +kernel⟩

end Collector
end ControlDB
