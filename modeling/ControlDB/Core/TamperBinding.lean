import ControlDB.Library.Delimited
import ControlDB.Core.Gmtime

/-!
# Tamper binding of the hash chain

`canonicalJsonEvent` splices the payload text in unescaped and unvalidated.  The text is still
injective: the fields before the payload are readable from the left, the fields after it from the
right, and what is left between them is the payload.

An accepted chain is then bound to its last hash: equal hashes mean equal canonical texts, hence
equal `previous_event_hash`, and the argument repeats one event earlier.  A chain cannot extend
another one, because a first event has the empty previous hash and no digest is empty.
-/

namespace ControlDB

open Library

/-! ## Strings -/

/-- The value of a lower-case hex digit. -/
def hexValue (d : UInt8) : UInt8 :=
  if d < 0x3a then d - 0x30 else d - 0x57

/-- The byte that the code at the front of an escaped text stands for. -/
def unescapeHead : Bytes → Option UInt8
  | 0x5c :: 0x22 :: _ => some 0x22
  | 0x5c :: 0x5c :: _ => some 0x5c
  | 0x5c :: 0x6e :: _ => some 0x0a
  | 0x5c :: 0x72 :: _ => some 0x0d
  | 0x5c :: 0x74 :: _ => some 0x09
  | 0x5c :: 0x75 :: 0x30 :: 0x30 :: hi :: lo :: _ => some (hexValue hi * 16 + hexValue lo)
  | c :: _ => some c
  | [] => none

theorem hexDigit_plain {n : UInt8} (hn : n < 16) : hexDigit n ≠ 0x22 ∧ hexDigit n ≠ 0x5c := by
  unfold hexDigit
  constructor <;> split <;> grind

theorem hexValue_hexDigit {n : UInt8} (hn : n < 16) : hexValue (hexDigit n) = n := by
  unfold hexValue hexDigit
  split_ifs <;> grind

/-- A byte is its two nibbles. -/
theorem nibbles (c : UInt8) : c / 16 < 16 ∧ c % 16 < 16 ∧ c / 16 * 16 + c % 16 = c := by
  refine ⟨?_, ?_, ?_⟩ <;> grind

theorem escapeByte_ne_nil (c : UInt8) : escapeByte c ≠ [] := by
  unfold escapeByte
  split_ifs <;> simp [bytes]

theorem escapeByte_escapedBody (c : UInt8) : EscapedBody 0x22 0x5c (escapeByte c) := by
  have hpair : ∀ d : UInt8, EscapedBody 0x22 0x5c [0x5c, d] := fun d => .escape .nil
  unfold escapeByte
  split_ifs with hquote hback _ _ _ hctl
  · exact hpair _
  · exact hpair _
  · exact hpair _
  · exact hpair _
  · exact hpair _
  · -- `\u00XY`: the escape pair `\u` and four plain digits
    rcases nibbles c with ⟨hhi, hlo, _⟩
    rcases hexDigit_plain hhi with ⟨hhi₁, hhi₂⟩
    rcases hexDigit_plain hlo with ⟨hlo₁, hlo₂⟩
    exact .escape (.plain (by decide) (by decide) (.plain (by decide) (by decide)
      (.plain hhi₁ hhi₂ (.plain hlo₁ hlo₂ .nil))))
  · exact .plain hquote hback .nil

theorem unescapeHead_escapeByte (c : UInt8) (x : Bytes) :
    unescapeHead (escapeByte c ++ x) = some c := by
  unfold escapeByte
  split_ifs with hquote hback hnl hcr htab hctl
  · subst hquote; rfl
  · subst hback; rfl
  · subst hnl; rfl
  · subst hcr; rfl
  · subst htab; rfl
  · rcases nibbles c with ⟨hhi, hlo, hc⟩
    change some (hexValue (hexDigit (c / 16)) * 16 + hexValue (hexDigit (c % 16))) = some c
    rw [hexValue_hexDigit hhi, hexValue_hexDigit hlo, hc]
  · rw [List.singleton_append]
    unfold unescapeHead
    split <;> simp_all

theorem escapeByte_symbolCode : SymbolCode escapeByte := by
  intro a b x y h
  have hhead := congrArg unescapeHead h
  simpa [unescapeHead_escapeByte] using hhead

theorem jsonEscape_injective : Function.Injective jsonEscape := by
  intro s t h
  have hbody : s.flatMap escapeByte = t.flatMap escapeByte := by
    simpa [jsonEscape] using h
  exact escapeByte_symbolCode.flatMap_injective escapeByte_ne_nil hbody

/-! ## The language of field values -/

/-- The quoted strings of JSON. -/
abbrev JsonStrings : Set Bytes := quoted 0x22 0x5c

theorem jsonEscape_mem (s : Bytes) : jsonEscape s ∈ JsonStrings :=
  ⟨s.flatMap escapeByte, EscapedBody.flatMap escapeByte_escapedBody s, rfl⟩

/-- The value text of a nullable string field. -/
def nullable (v : Bytes) : Bytes :=
  if v = [] then bytes "null" else jsonEscape v

/-- The value text of the actor field. -/
def actorText (ev : AuditEvent) : Bytes :=
  if ev.actorType = [] ∧ ev.actorId = [] then bytes "null" else actorJson ev

/-- The value text of the payload field. -/
def payloadText (payload : Bytes) : Bytes :=
  if payload = [] ∨ payload = bytes "null" then bytes "null" else payload

/-- The value text of the step index field. -/
def stepIndexText (stepIndex : Int) : Bytes :=
  if stepIndex < 0 then bytes "null" else toDecimal stepIndex

theorem nullable_injective : Function.Injective nullable := by
  have hne : ∀ s, bytes "null" ≠ jsonEscape s := by
    intro s h
    simp [bytes, jsonEscape] at h
  intro s t h
  unfold nullable at h
  split_ifs at h with hs ht ht
  · rw [hs, ht]
  · exact (hne t h).elim
  · exact (hne s h.symm).elim
  · exact jsonEscape_injective h

/-- The texts of actor objects. -/
def ActorObjects : Set Bytes :=
  {v | ∃ i ∈ JsonStrings, ∃ t ∈ JsonStrings,
    v = bytes "\x7b\"id\":" ++ (i ++ (bytes ",\"type\":" ++ (t ++ bytes "\x7d")))}

theorem actorJson_eq (ev : AuditEvent) :
    actorJson ev = bytes "\x7b\"id\":" ++
      (jsonEscape ev.actorId ++ (bytes ",\"type\":" ++ (jsonEscape ev.actorType ++ bytes "\x7d"))) := by
  have hid : bytes "\x7b" ++ jsonEscape (bytes "id") ++ bytes ":" = bytes "\x7b\"id\":" := by decide
  have htype : bytes "," ++ (jsonEscape (bytes "type") ++ bytes ":") = bytes ",\"type\":" := by decide
  simp only [actorJson, ← hid, ← htype, List.append_assoc]

theorem jsonStrings_prefixFree : PrefixFree JsonStrings :=
  quoted_prefixFree (by decide)

/-- An actor object is its two strings, whatever follows it. -/
theorem actorObject_inj {i i' t t' x y : Bytes} (hi : i ∈ JsonStrings) (hi' : i' ∈ JsonStrings)
    (ht : t ∈ JsonStrings) (ht' : t' ∈ JsonStrings)
    (h : bytes "\x7b\"id\":" ++ (i ++ (bytes ",\"type\":" ++ (t ++ bytes "\x7d"))) ++ x =
      bytes "\x7b\"id\":" ++ (i' ++ (bytes ",\"type\":" ++ (t' ++ bytes "\x7d"))) ++ y) :
    i = i' ∧ t = t' ∧ x = y := by
  simp only [List.append_assoc] at h
  rcases jsonStrings_prefixFree hi hi' (List.append_cancel_left h) with ⟨rfl, htail⟩
  rcases jsonStrings_prefixFree ht ht' (List.append_cancel_left htail) with ⟨rfl, hrest⟩
  exact ⟨rfl, rfl, List.append_cancel_left hrest⟩

theorem actorObjects_prefixFree : PrefixFree ActorObjects := by
  rintro v w x y ⟨i, hi, t, ht, rfl⟩ ⟨i', hi', t', ht', rfl⟩ h
  rcases actorObject_inj hi hi' ht ht' h with ⟨rfl, rfl, rfl⟩
  exact ⟨rfl, rfl⟩

/-- Values of the fields before the payload. -/
def LeftValues : Set Bytes := ({bytes "null"} ∪ JsonStrings) ∪ ActorObjects

/-- Values of the fields after the payload. -/
def RightValues : Set Bytes := ({bytes "null"} ∪ JsonStrings) ∪ Set.range decimal

theorem leftValues_prefixFree : PrefixFree LeftValues := by
  refine ((prefixFree_singleton _).union jsonStrings_prefixFree ?_).union actorObjects_prefixFree ?_
  · rintro _ rfl _ ⟨body, _, rfl⟩ x y h
    simp [bytes] at h
  · rintro _ (rfl | ⟨body, _, rfl⟩) _ ⟨i, _, t, _, rfl⟩ x y h <;> simp [bytes] at h

theorem rightValues_suffixFree : SuffixFreeAfter 0x3a RightValues := by
  have hlast : ∀ {a b v w : Bytes}, a ++ 0x3a :: v = b ++ 0x3a :: w →
      (0x3a :: v).getLast? = (0x3a :: w).getLast? := by
    intro a b v w h
    have h' := congrArg List.getLast? h
    simpa [List.getLast?_append, List.getLast?_cons] using h'
  have hdigit : ∀ n : Nat, ∃ d, (decimal n).getLast? = some d ∧ 0x30 ≤ d ∧ d ≤ 0x39 := by
    intro n
    have hmem := List.getLast_mem (decimal_ne_nil n)
    exact ⟨_, List.getLast?_eq_some_getLast (decimal_ne_nil n), isDigit_of_mem_decimal hmem⟩
  have hnumbers : SuffixFreeAfter 0x3a (Set.range decimal) := by
    refine suffixFreeAfter_of_notMem ?_
    rintro _ ⟨n, rfl⟩ hmem
    exact absurd (isDigit_of_mem_decimal hmem).2 (by decide)
  -- The last byte tells the three kinds of values apart.
  refine ((suffixFreeAfter_singleton _ _).union
    (quoted_suffixFreeAfter (by decide) (by decide)) ?_).union hnumbers ?_
  · rintro _ rfl _ ⟨body, _, rfl⟩ x y h
    have hl := hlast h
    simp [bytes, List.getLast?_cons] at hl
  · rintro v hv _ ⟨n, rfl⟩ x y h
    rcases hdigit n with ⟨d, hd, hd0, hd9⟩
    have hl := hlast h
    rcases hv with rfl | ⟨body, _, rfl⟩
    · simp [bytes, List.getLast?_cons, hd] at hl
      subst hl
      exact absurd hd9 (by decide)
    · simp [List.getLast?_cons, hd] at hl
      subst hl
      exact absurd hd0 (by decide)

/-! ## The canonical text as two records around the payload -/

/-- `"key":` behind a separator. -/
def fieldKey (sep k : String) : Bytes :=
  bytes sep ++ jsonEscape (bytes k) ++ bytes ":"

def leftKeys : List Bytes :=
  [fieldKey "\x7b" "actor", fieldKey "," "environment", fieldKey "," "event_id",
    fieldKey "," "event_type", fieldKey "," "idempotency_key", fieldKey "," "ingested_at",
    fieldKey "," "occurred_at", fieldKey "," "org_id", fieldKey "," "parent_span_id"]

def leftValues (ev : AuditEvent) : List Bytes :=
  [actorText ev, jsonEscape ev.environment, jsonEscape ev.eventId, jsonEscape ev.eventType,
    nullable ev.idempotencyKey, jsonEscape (msToIso ev.ingestedAtMs),
    jsonEscape (msToIso ev.occurredAtMs), jsonEscape ev.orgId, nullable ev.parentSpanId]

def rightKeys : List Bytes :=
  [fieldKey "," "payload_hash", fieldKey "," "payload_mode", fieldKey "," "previous_event_hash",
    fieldKey "," "project_id", fieldKey "," "run_id", fieldKey "," "schema_version",
    fieldKey "," "span_id", fieldKey "," "step_id", fieldKey "," "step_index",
    fieldKey "," "trace_id"]

def rightValues (ev : AuditEvent) : List Bytes :=
  [nullable ev.payloadHash, jsonEscape ev.payloadMode, nullable ev.previousEventHash,
    jsonEscape ev.projectId, jsonEscape ev.runId, jsonEscape ev.schemaVersion, nullable ev.spanId,
    nullable ev.stepId, stepIndexText ev.stepIndex, nullable ev.traceId]

theorem kvNullable_eq (k : String) (v : Bytes) :
    kvNullable k v = jsonEscape (bytes k) ++ bytes ":" ++ nullable v := by
  have hnull : bytes ":null" = bytes ":" ++ bytes "null" := by decide
  unfold kvNullable nullable
  split_ifs
  · simp [kvNull, hnull]
  · rfl

/-- The encoder's text, split at the payload. -/
theorem canonicalJsonEvent_eq (ev : AuditEvent) :
    canonicalJsonEvent ev =
      fieldsText leftKeys (leftValues ev) ++ (fieldKey "," "payload" ++ payloadText ev.payload) ++
        fieldsText rightKeys (rightValues ev) ++ bytes "\x7d" := by
  have hnull : bytes ":null" = bytes ":" ++ bytes "null" := by decide
  -- the three members that may be null, written as key and value
  have hactor : (if ev.actorType = [] ∧ ev.actorId = [] then kvNull "actor"
      else kvRaw "actor" (actorJson ev)) = jsonEscape (bytes "actor") ++ bytes ":" ++ actorText ev := by
    unfold actorText
    split_ifs
    · simp [kvNull, hnull]
    · rfl
  have hpayload : (if ev.payload = [] ∨ ev.payload = bytes "null" then kvNull "payload"
      else kvRaw "payload" ev.payload) =
        jsonEscape (bytes "payload") ++ bytes ":" ++ payloadText ev.payload := by
    unfold payloadText
    split_ifs
    · simp [kvNull, hnull]
    · rfl
  have hstep : (if ev.stepIndex < 0 then kvNull "step_index"
      else kvInt "step_index" ev.stepIndex) =
        jsonEscape (bytes "step_index") ++ bytes ":" ++ stepIndexText ev.stepIndex := by
    unfold stepIndexText
    split_ifs
    · simp [kvNull, hnull]
    · rfl
  simp only [canonicalJsonEvent, canonicalPairs, hactor, hpayload, hstep, kvNullable_eq, kvStr,
    List.intercalate, List.intersperse, List.flatten_cons, List.flatten_nil, leftKeys, leftValues,
    rightKeys, rightValues, fieldsText_cons, fieldsText_nil, fieldKey, List.append_assoc,
    List.append_nil]

theorem leftValues_mem (ev : AuditEvent) : ∀ v ∈ leftValues ev, v ∈ LeftValues := by
  have hstr : ∀ s, jsonEscape s ∈ LeftValues := fun s => .inl (.inr (jsonEscape_mem s))
  have hnullable : ∀ s, nullable s ∈ LeftValues := by
    intro s
    unfold nullable
    split_ifs
    · exact .inl (.inl rfl)
    · exact hstr s
  have hactor : actorText ev ∈ LeftValues := by
    unfold actorText
    split_ifs
    · exact .inl (.inl rfl)
    · exact .inr ⟨_, jsonEscape_mem _, _, jsonEscape_mem _, actorJson_eq ev⟩
  simp [leftValues, hstr, hnullable, hactor]

theorem rightValues_mem (ev : AuditEvent) : ∀ v ∈ rightValues ev, v ∈ RightValues := by
  have hstr : ∀ s, jsonEscape s ∈ RightValues := fun s => .inl (.inr (jsonEscape_mem s))
  have hnullable : ∀ s, nullable s ∈ RightValues := by
    intro s
    unfold nullable
    split_ifs
    · exact .inl (.inl rfl)
    · exact hstr s
  have hstep : stepIndexText ev.stepIndex ∈ RightValues := by
    unfold stepIndexText toDecimal
    split_ifs
    · exact .inl (.inl rfl)
    · exact .inr ⟨_, rfl⟩
  simp [rightValues, hstr, hnullable, hstep]

/-! ## Injectivity of `canonical_json_event` -/

/-- A payload that the encoder writes as `null`. -/
def PayloadAbsent (payload : Bytes) : Prop :=
  payload = [] ∨ payload = bytes "null"

/-- Agreement on every field that `canonical_json_event` covers. -/
structure AgreeOnCovered (a b : AuditEvent) : Prop where
  actorType : a.actorType = b.actorType
  actorId : a.actorId = b.actorId
  environment : a.environment = b.environment
  eventId : a.eventId = b.eventId
  eventType : a.eventType = b.eventType
  idempotencyKey : a.idempotencyKey = b.idempotencyKey
  ingestedAtMs : a.ingestedAtMs = b.ingestedAtMs
  occurredAtMs : a.occurredAtMs = b.occurredAtMs
  orgId : a.orgId = b.orgId
  parentSpanId : a.parentSpanId = b.parentSpanId
  payload : a.payload = b.payload ∨ (PayloadAbsent a.payload ∧ PayloadAbsent b.payload)
  payloadHash : a.payloadHash = b.payloadHash
  payloadMode : a.payloadMode = b.payloadMode
  previousEventHash : a.previousEventHash = b.previousEventHash
  projectId : a.projectId = b.projectId
  runId : a.runId = b.runId
  schemaVersion : a.schemaVersion = b.schemaVersion
  spanId : a.spanId = b.spanId
  stepId : a.stepId = b.stepId
  stepIndex : a.stepIndex = b.stepIndex ∨ (a.stepIndex < 0 ∧ b.stepIndex < 0)
  traceId : a.traceId = b.traceId

theorem actorText_inj {a b : AuditEvent} (h : actorText a = actorText b) :
    a.actorType = b.actorType ∧ a.actorId = b.actorId := by
  have hne : ∀ ev, bytes "null" ≠ actorJson ev := by
    intro ev hev
    simp [actorJson_eq, bytes] at hev
  unfold actorText at h
  split_ifs at h with ha hb hb
  · exact ⟨by rw [ha.1, hb.1], by rw [ha.2, hb.2]⟩
  · exact (hne b h).elim
  · exact (hne a h.symm).elim
  · rw [actorJson_eq, actorJson_eq] at h
    have hobj := actorObject_inj (x := []) (y := []) (jsonEscape_mem _) (jsonEscape_mem _)
      (jsonEscape_mem _) (jsonEscape_mem _) (by simpa using h)
    exact ⟨jsonEscape_injective hobj.2.1, jsonEscape_injective hobj.1⟩

theorem payloadText_inj {p q : Bytes} (h : payloadText p = payloadText q) :
    p = q ∨ (PayloadAbsent p ∧ PayloadAbsent q) := by
  unfold payloadText at h
  split_ifs at h with hp hq hq
  · exact .inr ⟨hp, hq⟩
  · exact .inr ⟨hp, .inr h.symm⟩
  · exact .inr ⟨.inr h, hq⟩
  · exact .inl h

theorem stepIndexText_inj {i j : Int} (h : stepIndexText i = stepIndexText j) :
    i = j ∨ (i < 0 ∧ j < 0) := by
  have hne : ∀ n : Nat, bytes "null" ≠ decimal n := by
    intro n hn
    have hmem : (0x6e : UInt8) ∈ decimal n := by
      rw [← hn]
      decide
    exact absurd (isDigit_of_mem_decimal hmem).2 (by decide)
  unfold stepIndexText toDecimal at h
  split_ifs at h with hi hj hj
  · exact .inr ⟨hi, hj⟩
  · exact (hne _ h).elim
  · exact (hne _ h.symm).elim
  · have := decimal_injective h
    omega

/-- The canonical text determines every field it covers. -/
theorem canonicalJsonEvent_inj {a b : AuditEvent}
    (hia : IsInt64 a.ingestedAtMs) (hib : IsInt64 b.ingestedAtMs)
    (hoa : IsInt64 a.occurredAtMs) (hob : IsInt64 b.occurredAtMs)
    (h : canonicalJsonEvent a = canonicalJsonEvent b) : AgreeOnCovered a b := by
  rw [canonicalJsonEvent_eq, canonicalJsonEvent_eq] at h
  -- every key ends in a colon, where the texts on the right may be split
  have hkeys : ∀ k ∈ rightKeys, ∃ k', k = k' ++ [0x3a] := by
    intro k hk
    simp only [rightKeys, List.mem_cons, List.not_mem_nil, or_false] at hk
    rcases hk with rfl | rfl | rfl | rfl | rfl | rfl | rfl | rfl | rfl | rfl <;> exact ⟨_, rfl⟩
  have hlens : ∀ ev, (leftValues ev).length = leftKeys.length ∧
      (rightValues ev).length = rightKeys.length := fun _ => ⟨rfl, rfl⟩
  rcases splice_inj leftValues_prefixFree rightValues_suffixFree hkeys
    (hlens a).1 (hlens b).1 (hlens a).2 (hlens b).2
    (leftValues_mem a) (leftValues_mem b) (rightValues_mem a) (rightValues_mem b)
    (List.append_cancel_right h) with ⟨hleft, hpayload, hright⟩
  -- each value text determines its field
  simp only [leftValues, rightValues, List.cons.injEq, and_true] at hleft hright
  rcases hleft with ⟨hactor, henv, hid, htype, hidem, hing, hocc, horg, hparent⟩
  rcases hright with ⟨hphash, hmode, hprev, hproj, hrun, hschema, hspan, hstep, hindex, htrace⟩
  exact
    { actorType := (actorText_inj hactor).1
      actorId := (actorText_inj hactor).2
      environment := jsonEscape_injective henv
      eventId := jsonEscape_injective hid
      eventType := jsonEscape_injective htype
      idempotencyKey := nullable_injective hidem
      ingestedAtMs := msToIso_injOn hia hib (jsonEscape_injective hing)
      occurredAtMs := msToIso_injOn hoa hob (jsonEscape_injective hocc)
      orgId := jsonEscape_injective horg
      parentSpanId := nullable_injective hparent
      payload := payloadText_inj (List.append_cancel_left hpayload)
      payloadHash := nullable_injective hphash
      payloadMode := jsonEscape_injective hmode
      previousEventHash := nullable_injective hprev
      projectId := jsonEscape_injective hproj
      runId := jsonEscape_injective hrun
      schemaVersion := jsonEscape_injective hschema
      spanId := nullable_injective hspan
      stepId := nullable_injective hstep
      stepIndex := stepIndexText_inj hindex
      traceId := nullable_injective htrace }

/-! ## Binding of a whole chain -/

section Chains

variable {sha256 : Sha256}

/-- Both time stamps lie between 1970 and the end of year 9999. -/
def TimesInRange (ev : AuditEvent) : Prop :=
  InIsoRange ev.ingestedAtMs ∧ InIsoRange ev.occurredAtMs

/-- The texts that hashing a list of events feeds to SHA-256. -/
def hashedTexts (events : List AuditEvent) : Set Bytes :=
  {t | ∃ ev ∈ events, t = canonicalJsonEvent ev}

/-- Hex printing loses nothing of the digest. -/
theorem sha256Hex_inj {s t : Bytes} (h : sha256Hex sha256 s = sha256Hex sha256 t) :
    sha256 s = sha256 t := by
  have hcode : SymbolCode fun b : UInt8 => [hexDigit (b / 16), hexDigit (b % 16)] := by
    intro a b x y hab
    simp only [List.cons_append, List.nil_append, List.cons.injEq] at hab
    rcases hab with ⟨hhi, hlo, _⟩
    rcases nibbles a with ⟨ha₁, ha₂, ha⟩
    rcases nibbles b with ⟨hb₁, hb₂, hb⟩
    have hhi' : a / 16 = b / 16 := by
      rw [← hexValue_hexDigit ha₁, hhi, hexValue_hexDigit hb₁]
    have hlo' : a % 16 = b % 16 := by
      rw [← hexValue_hexDigit ha₂, hlo, hexValue_hexDigit hb₂]
    rw [← ha, ← hb, hhi', hlo']
  have hlist := hcode.flatMap_injective (by simp) (List.append_cancel_left h)
  exact Vector.toList_inj.1 hlist

theorem computeEventHash_inj {texts : Set Bytes} (hinj : Set.InjOn sha256 texts)
    {a b : AuditEvent} (ha : canonicalJsonEvent a ∈ texts) (hb : canonicalJsonEvent b ∈ texts)
    (hta : TimesInRange a) (htb : TimesInRange b)
    (h : computeEventHash sha256 a = computeEventHash sha256 b) : AgreeOnCovered a b :=
  canonicalJsonEvent_inj hta.1.isInt64 htb.1.isInt64 hta.2.isInt64 htb.2.isInt64 (hinj ha hb (sha256Hex_inj h))

theorem lastHash_concat (h : HashStr) (events : List AuditEvent) (ev : AuditEvent) :
    lastHash h (events ++ [ev]) = ev.eventHash := by
  simp [lastHash_append]

/-- Two chains from the empty hash with the same last hash agree event by event. -/
theorem ChainFrom.agree {texts : Set Bytes} (hinj : Set.InjOn sha256 texts) :
    ∀ {es fs : List AuditEvent},
      (∀ ev ∈ es, canonicalJsonEvent ev ∈ texts ∧ TimesInRange ev) →
      (∀ ev ∈ fs, canonicalJsonEvent ev ∈ texts ∧ TimesInRange ev) →
      ChainFrom sha256 [] es → ChainFrom sha256 [] fs →
      lastHash [] es = lastHash [] fs → List.Forall₂ AgreeOnCovered es fs := by
  -- No stored hash is empty, so a chain that ends in the empty hash is empty.
  have hnonempty : ∀ {events : List AuditEvent} {ev : AuditEvent},
      ChainFrom sha256 [] (events ++ [ev]) → ev.eventHash ≠ [] := by
    intro events ev hchain hnil
    have hlast := (chainFrom_append.1 hchain).2
    have hne := sha256Hex_ne_nil sha256 (canonicalJsonEvent ev)
    exact hne (hlast.2.1.trans hnil)
  intro es
  induction es using List.reverseRecOn with
  | nil =>
      intro fs _ _ _ hfs hlast
      rcases List.eq_nil_or_concat' fs with rfl | ⟨fs', f, rfl⟩
      · exact .nil
      · rw [lastHash_concat] at hlast
        exact (hnonempty hfs hlast.symm).elim
  | append_singleton es' e ih =>
      intro fs hes hfs hce hcf hlast
      rcases List.eq_nil_or_concat' fs with rfl | ⟨fs', f, rfl⟩
      · rw [lastHash_concat] at hlast
        exact (hnonempty hce hlast).elim
      rw [lastHash_concat, lastHash_concat] at hlast
      rcases chainFrom_append.1 hce with ⟨hce', hprev, hhash, _⟩
      rcases chainFrom_append.1 hcf with ⟨hcf', hprev', hhash', _⟩
      have hagree : AgreeOnCovered e f :=
        computeEventHash_inj hinj (hes e (by simp)).1 (hfs f (by simp)).1
          (hes e (by simp)).2 (hfs f (by simp)).2 (by rw [hhash, hhash', hlast])
      -- The common previous hash is the last hash of both shorter chains.
      have hlast' : lastHash [] es' = lastHash [] fs' := by
        rw [← hprev, ← hprev', hagree.previousEventHash]
      have hinit := ih (fun ev hev => hes ev (by simp [hev])) (fun ev hev => hfs ev (by simp [hev]))
        hce' hcf' hlast'
      exact List.rel_append hinit (.cons hagree .nil)

theorem getLast_eq_lastHash {events : List AuditEvent} (hne : events ≠ []) (h : HashStr) :
    (events.getLast hne).eventHash = lastHash h events := by
  simpa [List.getLast?_eq_some_getLast hne] using getLast?_eventHash h events

/-- Two accepted non-empty chains with the same last hash have the same length and agree position
by position on everything the hash covers. -/
theorem verifyChain_binding {es fs : List AuditEvent} {runId runId' : Bytes}
    (hes : es ≠ []) (hfs : fs ≠ []) (htimes : ∀ ev ∈ es ++ fs, TimesInRange ev)
    (hinj : Set.InjOn sha256 (hashedTexts (es ++ fs)))
    (haccept : (verifyChain sha256 es runId).valid = true)
    (haccept' : (verifyChain sha256 fs runId').valid = true)
    (hlast : (es.getLast hes).eventHash = (fs.getLast hfs).eventHash) :
    es.length = fs.length ∧ List.Forall₂ AgreeOnCovered es fs := by
  have hcovered : ∀ ev ∈ es ++ fs, canonicalJsonEvent ev ∈ hashedTexts (es ++ fs) ∧
      TimesInRange ev := fun ev hev => ⟨⟨ev, hev, rfl⟩, htimes ev hev⟩
  have hlast' : lastHash [] es = lastHash [] fs := by
    rw [← getLast_eq_lastHash hes, ← getLast_eq_lastHash hfs, hlast]
  have hagree := ChainFrom.agree hinj
    (fun ev hev => hcovered ev (List.mem_append_left _ hev))
    (fun ev hev => hcovered ev (List.mem_append_right _ hev))
    (verifyChain_valid_iff.1 haccept) (verifyChain_valid_iff.1 haccept') hlast'
  exact ⟨List.Forall₂.length_eq hagree, hagree⟩

end Chains

/-- The event of the C++ unit tests. -/
def genesisEvent : AuditEvent :=
  { eventId := bytes "evt_test_001", eventType := bytes "tool_call.completed",
    runId := bytes "run_abc123", orgId := bytes "org_default", projectId := bytes "proj_default",
    environment := bytes "dev", schemaVersion := bytes "2026-05-01",
    payloadMode := bytes "metadata_only", occurredAtMs := 1714521600000,
    ingestedAtMs := 1714521600000 }

/-- SHA-256 on the one text that hashing `genesisEvent` produces. -/
def genesisSha256 : Sha256 := fun data =>
  if data = canonicalJsonEvent genesisEvent then
    #v[241, 12, 58, 52, 185, 27, 131, 159, 169, 45, 224, 246, 180, 138, 60, 71,
      100, 180, 80, 220, 240, 7, 2, 227, 237, 186, 213, 177, 94, 138, 232, 163]
  else
    Vector.replicate 32 0

def storedGenesis : AuditEvent :=
  { genesisEvent with eventHash := computeEventHash genesisSha256 genesisEvent }

/-- The same event with an absent payload and an absent step index written differently. -/
def respelledGenesis : AuditEvent :=
  { storedGenesis with sequence := 9, payload := bytes "null", stepIndex := -7 }

theorem verifyChain_binding_genesis :
    [storedGenesis].length = [respelledGenesis].length ∧
      List.Forall₂ AgreeOnCovered [storedGenesis] [respelledGenesis] := by
  have htext : canonicalJsonEvent storedGenesis = canonicalJsonEvent respelledGenesis := by
    decide +kernel
  have htimes : ∀ ev ∈ [storedGenesis] ++ [respelledGenesis], TimesInRange ev := by
    simp only [List.cons_append, List.nil_append, List.forall_mem_cons, TimesInRange]
    decide
  have hinj : Set.InjOn genesisSha256 (hashedTexts ([storedGenesis] ++ [respelledGenesis])) := by
    -- both spellings have the same canonical text, so one text is hashed
    have hone : ∀ t ∈ hashedTexts ([storedGenesis] ++ [respelledGenesis]),
        t = canonicalJsonEvent storedGenesis := by
      rintro t ⟨ev, hev, rfl⟩
      simp only [List.cons_append, List.nil_append, List.mem_cons, List.not_mem_nil,
        or_false] at hev
      rcases hev with rfl | rfl
      · rfl
      · exact htext.symm
    intro s hs t ht _
    rw [hone s hs, hone t ht]
  have haccept :
      (verifyChain genesisSha256 [storedGenesis] (bytes "run_abc123")).valid = true := by
    decide +kernel
  have haccept' :
      (verifyChain genesisSha256 [respelledGenesis] (bytes "run_abc123")).valid = true := by
    decide +kernel
  exact verifyChain_binding (List.cons_ne_nil _ _) (List.cons_ne_nil _ _) htimes hinj haccept
    haccept' rfl

end ControlDB
