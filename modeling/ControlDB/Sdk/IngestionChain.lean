import ControlDB.Sdk.Ingestion

/-!
# One chain at the collector

Where no batch comes after a later one and nobody else writes to the run, what the collector stores of a
run is one chain: a batch that was stored already is answered from its rows, and the events behind it
are linked to the last of them.
-/

namespace ControlDB
namespace Sdk

open Library Python Http

/-! ## Steps in turn -/

/-- Where an event of the batch is stored, the run's last row is that of an event of the batch. -/
def InTurn (db : Collector.Database) (runId : String) (batch : List EventEnvelope) : Prop :=
  ∀ event ∈ batch, (∃ row ∈ Collector.runEvents db runId, row.eventId = event.eventId) →
    ∃ row ∈ (Collector.runEvents db runId).getLast?, ∃ last ∈ batch, row.eventId = last.eventId

instance (db : Collector.Database) (runId : String) (batch : List EventEnvelope) :
    Decidable (InTurn db runId batch) := by
  unfold InTurn
  infer_instance

/-- A batch arrives before a later one was stored, or the rows and the head of the run stay. -/
def Undisturbed (runId : String) (w w' : Wire) : Prop :=
  (∃ batch reply, w'.replies = (batch, reply) :: w.replies ∧
      InTurn w.server.store.db runId batch) ∨
    Collector.runEvents w'.server.store.db runId = Collector.runEvents w.server.store.db runId ∧
      Collector.headHash w'.server.store.db runId = Collector.headHash w.server.store.db runId

/-- The run has no other rows than those of its events, and they are one chain. -/
structure Unbroken (runId : String) (w : Wire) : Prop where
  own : ∀ row ∈ Collector.runEvents w.server.store.db runId,
    row.eventId ∈ w.sdk.world.emitted.map EventEnvelope.eventId
  continuous : Collector.Continuous w.server.store.db runId

theorem Unbroken.rowsOf_eq {runId : String} {w : Wire} (h : Unbroken runId w) :
    Collector.rowsOf (w.sdk.world.emitted.map EventEnvelope.input)
        (Collector.runEvents w.server.store.db runId) =
      Collector.runEvents w.server.store.db runId := by
  refine List.filter_eq_self.2 fun row hrow => decide_eq_true ?_
  rw [List.map_map]
  rcases List.mem_map.1 (h.own row hrow) with ⟨event, hevent, hid⟩
  exact List.mem_map.2 ⟨event, hevent, congrArg some hid⟩

section Chains

variable {env : Env} {client : Client} {text : PyJson → String} {maxRetries : Int}
  {collector : Collector.Env} {opens : String → Bool} {lax : PyJson → Option Int}
  {runId : String} {w w' : Wire} {c : Channel Collector.EventInput}

/-- A batch that comes in its turn reaches as far as what is stored. -/
theorem Carries.le_of_inTurn (h : Carries env client collector runId w c)
    (hdistinct : Collector.Distinct c.emitted)
    (hall : Collector.rowsOf c.emitted (Collector.runEvents w.server.store.db runId) =
      Collector.runEvents w.server.store.db runId) {batch : List EventEnvelope}
    (hturn : InTurn w.server.store.db runId batch) (hne : batch ≠ []) {n a b : Nat}
    (hn : n ≤ c.emitted.length) (hstored : c.stored = c.emitted.take n)
    (hbatch : batch.map EventEnvelope.input = (c.emitted.take b).drop a) : n ≤ b := by
  -- else the batch ends before the last row, which is an event of the batch by its turn
  by_contra hlt
  have hrows : List.Forall₂ (Collector.Recorded collector runId) (c.emitted.take n)
      (Collector.runEvents w.server.store.db runId) := by
    rw [← hstored, ← hall, h.stored.rowsOf_runEvents h.sound]
    exact h.stored.recorded
  have hwindow : ∀ event ∈ batch, ∃ (j : Nat) (hj : j < c.emitted.length),
      j < b ∧ c.emitted[j] = event.input := by
    intro event hevent
    have hmem : event.input ∈ (c.emitted.take b).drop a := hbatch ▸ List.mem_map_of_mem hevent
    rcases List.mem_take_iff_getElem.1 (List.mem_of_mem_drop hmem) with ⟨j, hj, hget⟩
    exact ⟨j, by omega, by omega, hget⟩
  rcases List.exists_mem_of_ne_nil batch hne with ⟨event, hevent⟩
  have hfirst : ∃ row ∈ Collector.runEvents w.server.store.db runId, row.eventId = event.eventId := by
    rcases hwindow event hevent with ⟨j, hj, hjb, hget⟩
    have hmem : event.input ∈ c.stored := by
      rw [hstored, ← hget]
      exact List.mem_take_iff_getElem.2 ⟨j, by omega, rfl⟩
    rcases h.stored.exists_row hmem with ⟨row, hrow, hrecorded⟩
    rw [h.sound.runEvents_eq]
    refine ⟨row, List.mem_filter.2 ⟨hrow, decide_eq_true hrecorded.runId⟩, ?_⟩
    exact (Option.some.inj hrecorded.eventId).symm
  rcases hturn event hevent hfirst with ⟨row, hlast, last, hmem, hid⟩
  rcases hwindow last hmem with ⟨j, hj, hjb, hget⟩
  -- the last row is that of the last stored event
  have hlength : (Collector.runEvents w.server.store.db runId).length = n := by
    rw [← hrows.length_eq, List.length_take, min_eq_left hn]
  rw [List.getLast?_eq_getElem?, hlength] at hlast
  rcases List.getElem?_eq_some_iff.1 hlast with ⟨hrow, hget'⟩
  have hrecorded := (List.forall₂_iff_get.1 hrows).2 (n - 1) (hrows.length_eq ▸ hrow) hrow
  have hsame : c.emitted[n - 1].eventId = c.emitted[j].eventId := by
    have hid' := hrecorded.eventId
    rw [List.get_eq_getElem, List.getElem_take, List.get_eq_getElem, hget', hid] at hid'
    rw [hid', hget]
    rfl
  have hevent := List.inj_on_of_nodup_map hdistinct.ids (List.getElem_mem _) (List.getElem_mem _) hsame
  have hindex := (List.Nodup.getElem_inj_iff (List.Nodup.of_map _ hdistinct.ids)).1 hevent
  omega

/-- Step lemma for an arrival in turn. -/
theorem Carries.unbroken_arrived (h : Carries env client collector runId w c)
    (hlawful : c.Lawful Collector.EventInput.idempotencyKey)
    (hdistinct : Collector.Distinct c.emitted) (hunbroken : Unbroken runId w)
    {batch : List EventEnvelope} {events : List Collector.EventInput} {req : Collector.Incoming}
    (hsent : batch ∈ w.sent) (hbody : Collector.eventsRequest lax (eventsBody batch) = some events)
    (hreq : req.endpoint = .runsEvents w.sdk.run.runId events)
    (hturn : InTurn w.server.store.db runId batch) :
    Collector.Continuous (Collector.serve collector opens w.server req).1.store.db runId := by
  rcases h.read hsent hbody with ⟨rfl, hsubset, hcarried⟩
  rw [h.run] at hreq
  rcases Collector.serve_runsEvents collector opens w.server hreq with
    ⟨hserver, _⟩ | ⟨principal, db', ids, happend, hserver⟩
  · rw [hserver]
    exact hunbroken.continuous
  rw [hserver]
  have happended := Collector.appended_of_ok happend
  have hall : Collector.rowsOf c.emitted (Collector.runEvents w.server.store.db runId) =
      Collector.runEvents w.server.store.db runId := by
    rw [h.emitted]
    exact hunbroken.rowsOf_eq
  rcases hlawful.stored with ⟨n, hacked, hn, hstored⟩
  rcases hlawful.sent _ hcarried with ⟨a, b, ha, hb, hbatch⟩
  by_cases hempty : batch = []
  · rw [hempty] at happended
    cases happended with
    | empty => exact hunbroken.continuous
    | batch _ _ _ hne => exact absurd rfl hne
  · have hnb := h.le_of_inTurn hdistinct hall hturn hempty hn hstored hbatch
    -- the batch is what is stored from `a` on, and then what is new
    rcases window_eq_append c.emitted (ha.trans hacked) hn hnb with ⟨htake, hsplit⟩
    have hnodup := hdistinct.keys.sublist ((List.take_sublist b c.emitted).map
      Collector.EventInput.idempotencyKey)
    rw [← htake, List.map_append, List.nodup_append] at hnodup
    have hholds := h.stored
    rw [hstored, ← List.take_append_drop a (c.emitted.take n)] at hholds
    rw [hbatch, hsplit] at happended
    refine happended.continuous h.sound hdistinct hholds hall ?_ ?_ hnodup.2.1 hunbroken.continuous
    · exact fun x hx => List.mem_of_mem_take (List.mem_of_mem_drop hx)
    · intro x hx hmem
      rw [List.take_append_drop] at hmem
      exact hnodup.2.2 _ hmem _ (List.mem_map_of_mem hx) rfl

/-- A row of the run behind an arrival is that of an event. -/
theorem Carries.own_arrived (h : Carries env client collector runId w c)
    (hdistinct : Collector.Distinct c.emitted) (hunbroken : Unbroken runId w)
    {batch : List EventEnvelope} {events : List Collector.EventInput} {req : Collector.Incoming}
    (hsent : batch ∈ w.sent) (hbody : Collector.eventsRequest lax (eventsBody batch) = some events)
    (hreq : req.endpoint = .runsEvents w.sdk.run.runId events) :
    ∀ row ∈ Collector.runEvents (Collector.serve collector opens w.server req).1.store.db runId,
      row.eventId ∈ w.sdk.world.emitted.map EventEnvelope.eventId := by
  rcases h.read hsent hbody with ⟨rfl, hsubset, _⟩
  rw [h.run] at hreq
  have hsound := @Collector.sound_server collector opens _ (.serve req) h.sound
  rcases Collector.serve_runsEvents collector opens w.server hreq with
    ⟨hserver, _⟩ | ⟨principal, db', ids, happend, hserver⟩
  · rw [hserver]
    exact hunbroken.own
  · intro row hrow
    rw [Collector.ServerStep.run, hserver] at hsound
    rw [hserver, hsound.runEvents_eq] at hrow
    rcases List.mem_filter.1 hrow with ⟨hrow', hid⟩
    rcases h.row_cases hdistinct hsubset (Collector.appended_of_ok happend) row hrow' with hold | hown
    · refine hunbroken.own row ?_
      rw [h.sound.runEvents_eq]
      exact List.mem_filter.2 ⟨hold, hid⟩
    · rw [h.emitted, List.map_map] at hown
      rcases List.mem_map.1 hown with ⟨event, hevent, hsame⟩
      exact List.mem_map.2 ⟨event, hevent, Option.some.inj hsame⟩

/-- Step lemma: a step that disturbs nothing keeps the chain. -/
theorem Carries.unbroken_step (h : Carries env client collector runId w c)
    (hlawful : c.Lawful Collector.EventInput.idempotencyKey)
    (hdistinct : Collector.Distinct c.emitted) (hunbroken : Unbroken runId w)
    (hstep : Wire.Step env client text maxRetries collector opens lax w w')
    (hcalm : Undisturbed runId w w') : Unbroken runId w' := by
  have hsubset := hstep.emitted.subset
  have hstill : Collector.runEvents w'.server.store.db runId =
      Collector.runEvents w.server.store.db runId →
      Collector.headHash w'.server.store.db runId = Collector.headHash w.server.store.db runId →
      Unbroken runId w' := by
    intro hevents hhead
    refine ⟨fun row hrow => ?_, ?_, ?_⟩
    · rw [hevents] at hrow
      exact List.map_subset _ hsubset (hunbroken.own row hrow)
    · rw [hevents]
      exact hunbroken.continuous.linked
    · rw [hevents, hhead]
      exact hunbroken.continuous.head
  cases hstep with
  | worked hwork => exact hstill rfl rfl
  | flushed htruthful => exact hstill rfl rfl
  | sent hbuffer => exact hstill rfl rfl
  | arrived hsent hbody hreq =>
      rcases hcalm with ⟨batch', reply, hreplies, hturn⟩ | ⟨hevents, hhead⟩
      · obtain rfl := (Prod.mk.inj (List.cons.inj hreplies).1).1
        exact ⟨h.own_arrived hdistinct hunbroken hsent hbody hreq,
          h.unbroken_arrived hlawful hdistinct hunbroken hsent hbody hreq hturn⟩
      · exact hstill hevents hhead
  | elsewhere step hforeign =>
      rcases hcalm with ⟨batch', reply, hreplies, _⟩ | ⟨hevents, hhead⟩
      · exact absurd hreplies (List.ne_cons_self)
      · exact hstill hevents hhead

end Chains

section Linked

variable {env : Env} {client : Client} {text : PyJson → String} {maxRetries : Int}
  {collector : Collector.Env} {opens : String → Bool} {lax : PyJson → Option Int}
  {runId agentId : String} {agentVersion : Option String} {environment : String}
  {traceId : Option String} {server : Collector.Server} {w : Wire}

end Linked

namespace IngestionExample

def Calm (w w' : Wire) : Prop :=
  Step w w' ∧ Undisturbed "run_1" w w'

theorem calm_of_sdk {w w' : Wire} (hstep : Step w w') (hserver : w'.server = w.server) :
    Calm w w' :=
  ⟨hstep, .inr ⟨by rw [hserver], by rw [hserver]⟩⟩

theorem calm_arrived {w : Wire} {batch : List EventEnvelope} (hstep : Step w (arrived w batch))
    (hturn : InTurn w.server.store.db "run_1" batch) : Calm w (arrived w batch) :=
  ⟨hstep, .inl ⟨batch, _, rfl, hturn⟩⟩

theorem inTurn_one : InTurn server.store.db "run_1" wroteOne.sdk.run.buffer := by
  decide +kernel

theorem inTurn_two : InTurn wroteTwo.server.store.db "run_1" wroteTwo.sdk.run.buffer := by
  decide +kernel

theorem calm_arrivedTwo : Relation.ReflTransGen Calm started (flushed arrivedTwo) := by
  refine .head (calm_of_sdk step_wroteOne rfl) ?_
  refine .head (calm_of_sdk (step_sent (List.cons_ne_nil _ _)) rfl) ?_
  refine .head (calm_arrived (step_arrived List.mem_cons_self isDict_one rfl) inTurn_one) ?_
  refine .head (calm_of_sdk step_unanswered rfl) (.head (calm_of_sdk step_wroteTwo rfl) ?_)
  refine .head (calm_of_sdk (step_sent (List.cons_ne_nil _ _)) rfl) ?_
  refine .head (calm_arrived (step_arrived List.mem_cons_self isDict_two rfl) inTurn_two) ?_
  exact .single (calm_of_sdk (step_answered rfl List.mem_cons_self (by decide +kernel)) rfl)

end IngestionExample

end Sdk
end ControlDB
