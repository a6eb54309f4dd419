import ControlDB.Core.Consistent

/-!
# The applied marker of the write-ahead log

When every log record up to the persisted marker has its effect in RocksDB.  A call that logs
puts its record into the file first; all but `append_events` write their batch before they move the
marker, and no opening of the store replays what is left over.
-/

namespace ControlDB

open Library

/-! ## The law -/

/-- The put that a log record announces. -/
def WalEntry.effect (entry : WalEntry) : Option Put :=
  match entry.opType with
  | .insertRun | .updateRun =>
      (jsonToRun entry.payload).toOption.map fun r => .runs r.runId entry.payload
  | .insertEvent =>
      (jsonToEvent entry.payload).toOption.map fun e => .events e.sequence entry.payload
  | .insertApproval | .updateApproval =>
      (jsonToApproval entry.payload).toOption.map fun a => .approvals a.approvalId entry.payload
  | .insertExport =>
      ((entry.payload.atKey "export_id").bind Json.getString).toOption.map fun exportId =>
        .exports exportId (some entry.payload)

/-- The effect of the record was written, alone or with others. -/
def Rocks.Holds (db : Rocks) (entry : WalEntry) : Prop :=
  ∃ p, entry.effect = some p ∧ ∃ batch ∈ db.batches, p ∈ batch

/-- Every record up to the persisted marker has its effect in RocksDB. -/
def WalLaw (s : Store) : Prop :=
  ∀ entry ∈ s.wal.records, entry.walSeq ≤ s.wal.persistedApplied → s.rocks.Holds entry

/-- No record of the log is left over. -/
def NoneLeft (s : Store) : Prop :=
  ∀ entry ∈ s.wal.records, s.rocks.Holds entry

/-! ## When the marker may move -/

/-- The effects that happen in an action, a torn marker included. -/
def Action.performed (env : Env) (s : Store) : Action → List Effect
  | call now c => c.effects env now s
  | stopped now c stop =>
      let effects := c.effects env now s
      effects.take stop.done ++
        ((stop.tornMark effects).map fun torn => Effect.markApplied torn.1).toList
  | reopen => []

def Effect.isMark : Effect → Bool
  | .markApplied _ => true
  | _ => false

/-- An action moves the marker only when no record is left over from before, and only if its own
batch gets written. -/
def Action.MarksLate (env : Env) (s : Store) (a : Action) : Prop :=
  (a.performed env s).any Effect.isMark = true →
    NoneLeft s ∧ (a.performed env s).all Effect.quiet = false

/-- Every action of a run moves the marker only then. -/
def MarksLateRun (env : Env) : Store → List Action → Prop
  | _, [] => True
  | s, a :: rest => a.MarksLate env s ∧ MarksLateRun env (a.run env s) rest

/-! ## The log file -/

/-- The largest sequence number in the file is the last one handed out, and the marker is not
beyond it. -/
structure WalInv (w : Wal) : Prop where
  top : w.records.foldl (fun last e => max last e.walSeq) 0 = w.lastSeq
  applied : w.persistedApplied ≤ w.lastSeq

/-- The log uses of an effect list when the last number is `lastSeq`: a record gets the next
number, and only the last record is marked. -/
def LogFits : Nat → List Effect → Prop
  | _, [] => True
  | lastSeq, .walAppend entry :: rest => entry.walSeq = lastSeq + 1 ∧ LogFits (lastSeq + 1) rest
  | lastSeq, .markApplied walSeq :: rest => walSeq = lastSeq ∧ LogFits lastSeq rest
  | lastSeq, .nextSeq :: rest => LogFits lastSeq rest
  | lastSeq, .write _ :: rest => LogFits lastSeq rest

theorem LogFits.take {lastSeq : Nat} {l : List Effect} (h : LogFits lastSeq l) (k : Nat) :
    LogFits lastSeq (l.take k) := by
  induction l generalizing lastSeq k with
  | nil => simpa using h
  | cons e rest ih =>
      cases k with
      | zero => trivial
      | succ k =>
          cases e with
          | walAppend entry => exact ⟨h.1, ih h.2 k⟩
          | markApplied walSeq => exact ⟨h.1, ih h.2 k⟩
          | nextSeq => exact ih h k
          | write batch => exact ih h k

theorem logFits_eventEffects {lastSeq : Nat} {es : List AuditEvent} {tail : List Effect}
    (htail : ∀ n, LogFits n tail) : LogFits lastSeq (eventEffects lastSeq es ++ tail) := by
  induction es generalizing lastSeq with
  | nil => exact htail lastSeq
  | cons e es ih => exact ⟨rfl, rfl, ih⟩

/-- Every call uses the log in this way. -/
theorem EffectShape.logFits {env : Env} {now : Nat → Int} {s : Store} {c : Call}
    {effects : List Effect} (h : EffectShape env now s c effects) :
    LogFits s.wal.lastSeq effects := by
  cases h with
  | nothing => trivial
  | logged hcommit hp hlogs => exact ⟨rfl, rfl, trivial⟩
  | threw htail =>
      refine logFits_eventEffects fun n => ?_
      rcases htail with rfl | rfl <;> trivial
  | appended hcommit hes => exact logFits_eventEffects fun n => trivial

theorem WalInv.append {w : Wal} (h : WalInv w) {entry : WalEntry}
    (hseq : entry.walSeq = w.lastSeq + 1) : WalInv (w.append entry) where
  top := by
    have htop := h.top
    simp only [Wal.append, List.foldl_append, List.foldl_cons, List.foldl_nil, htop]
    omega
  applied := by
    have happlied : w.persistedApplied ≤ w.lastSeq := h.applied
    calc (w.append entry).persistedApplied
        = w.persistedApplied := rfl
      _ ≤ entry.walSeq := by omega

theorem Wal.markApplied_frame (w : Wal) (walSeq : Nat) :
    (w.markApplied walSeq).lastSeq = w.lastSeq ∧ (w.markApplied walSeq).records = w.records := by
  unfold markApplied
  split_ifs <;> exact ⟨rfl, rfl⟩

theorem WalInv.markApplied {w : Wal} (h : WalInv w) : WalInv (w.markApplied w.lastSeq) := by
  unfold Wal.markApplied
  split_ifs
  · exact ⟨h.top, by simp [Wal.persistedApplied]⟩
  · exact h

/-- What a list of effects made of the three stores. -/
structure Logged (s s' : Store) (l : List Effect) : Prop where
  inv : WalInv s'.wal
  lastSeq : s.wal.lastSeq ≤ s'.wal.lastSeq
  records : ∀ entry ∈ s'.wal.records,
    entry ∈ s.wal.records ∨ (Effect.walAppend entry ∈ l ∧ s.wal.lastSeq < entry.walSeq)
  marker : l.any Effect.isMark = false → s'.wal.persistedApplied = s.wal.persistedApplied
  batches : ∀ batch, batch ∈ s.rocks.batches ∨ Effect.write batch ∈ l → batch ∈ s'.rocks.batches

theorem Logged.trans {s t u : Store} {l l' : List Effect} (h : Logged s t l) (h' : Logged t u l') :
    Logged s u (l ++ l') where
  inv := h'.inv
  lastSeq := le_trans h.lastSeq h'.lastSeq
  records := by
    intro entry he
    -- a record in the file is old, or of the first part, or of the second
    rcases h'.records entry he with hold | ⟨hnew, hlt⟩
    · rcases h.records entry hold with hold' | ⟨hnew, hlt⟩
      · exact .inl hold'
      · exact .inr ⟨List.mem_append_left _ hnew, hlt⟩
    · exact .inr ⟨List.mem_append_right _ hnew, lt_of_le_of_lt h.lastSeq hlt⟩
  marker := by
    intro hmark
    rcases Bool.or_eq_false_iff.1 (List.any_append ▸ hmark) with ⟨hl, hl'⟩
    exact (h'.marker hl').trans (h.marker hl)
  batches := by
    rintro batch (hold | hnew)
    · exact h'.batches batch (.inl (h.batches batch (.inl hold)))
    · rcases List.mem_append.1 hnew with hl | hl'
      · exact h'.batches batch (.inl (h.batches batch (.inr hl)))
      · exact h'.batches batch (.inr hl')

/-- Step lemma for one effect. -/
theorem apply_logged {s : Store} {e : Effect} (hinv : WalInv s.wal)
    (hfits : LogFits s.wal.lastSeq [e]) : Logged s (s.apply e) [e] := by
  cases e with
  | nextSeq =>
      refine ⟨hinv, le_rfl, fun entry he => .inl he, fun _ => rfl, ?_⟩
      intro batch hbatch
      simpa [Store.apply] using hbatch
  | walAppend entry =>
      have hseq : entry.walSeq = s.wal.lastSeq + 1 := hfits.1
      refine ⟨hinv.append hseq, ?_, ?_, fun _ => rfl, ?_⟩
      · calc s.wal.lastSeq
            ≤ s.wal.lastSeq + 1 := Nat.le_succ _
          _ = (s.apply (.walAppend entry)).wal.lastSeq := hseq.symm
      · intro entry' he
        rcases List.mem_append.1 he with hold | hlast
        · exact .inl hold
        · rcases List.mem_singleton.1 hlast with rfl
          exact .inr ⟨List.mem_singleton_self _, by omega⟩
      · intro batch hbatch
        simpa [Store.apply] using hbatch
  | markApplied walSeq =>
      have hframe := s.wal.markApplied_frame walSeq
      refine ⟨hfits.1 ▸ hinv.markApplied, hframe.1.ge, fun entry he => .inl (hframe.2 ▸ he), ?_, ?_⟩
      · intro hmark
        simp [Effect.isMark] at hmark
      · intro batch hbatch
        simpa [Store.apply] using hbatch
  | write batch =>
      refine ⟨hinv, le_rfl, fun entry he => .inl he, fun _ => rfl, ?_⟩
      intro batch' hbatch
      simpa [Store.apply, Rocks.write] using hbatch

theorem LogFits.cons {s : Store} {e : Effect} {rest : List Effect}
    (h : LogFits s.wal.lastSeq (e :: rest)) :
    LogFits s.wal.lastSeq [e] ∧ LogFits (s.apply e).wal.lastSeq rest := by
  cases e with
  | nextSeq => exact ⟨trivial, h⟩
  | walAppend entry =>
      have hlast : (s.apply (.walAppend entry)).wal.lastSeq = s.wal.lastSeq + 1 := h.1
      exact ⟨⟨h.1, trivial⟩, hlast ▸ h.2⟩
  | markApplied walSeq =>
      have hframe := s.wal.markApplied_frame walSeq
      exact ⟨⟨h.1, trivial⟩, hframe.1.symm ▸ h.2⟩
  | write batch => exact ⟨trivial, h⟩

theorem LogFits.append {s : Store} {l l' : List Effect} (h : LogFits s.wal.lastSeq (l ++ l')) :
    LogFits (s.applyAll l).wal.lastSeq l' := by
  induction l generalizing s with
  | nil => exact h
  | cons e rest ih => exact ih h.cons.2

theorem applyAll_logged {s : Store} {l : List Effect} (hinv : WalInv s.wal)
    (hfits : LogFits s.wal.lastSeq l) : Logged s (s.applyAll l) l := by
  induction l generalizing s with
  | nil =>
      refine ⟨hinv, le_rfl, fun entry he => .inl he, fun _ => rfl, ?_⟩
      intro batch hbatch
      simpa [Store.applyAll] using hbatch
  | cons e rest ih =>
      have hfirst := apply_logged hinv hfits.cons.1
      exact hfirst.trans (ih hfirst.inv hfits.cons.2)

/-! ## Actions -/

theorem tornMark_eq_some {stop : Stop} {effects : List Effect} {torn : Nat × Nat}
    (h : stop.tornMark effects = some torn) :
    ∃ rest, effects.drop stop.done = .markApplied torn.1 :: rest := by
  unfold Stop.tornMark at h
  split at h
  · rename_i digits walSeq rest hdigits hdrop
    cases h
    exact ⟨rest, hdrop⟩
  · cases h

/-- What is performed is the beginning of the effects of the call. -/
theorem performed_eq_take (env : Env) (s : Store) (now : Nat → Int) (c : Call) (stop : Stop) :
    ∃ k, (Action.stopped now c stop).performed env s = (c.effects env now s).take k := by
  unfold Action.performed
  cases htorn : stop.tornMark (c.effects env now s) with
  | none => exact ⟨stop.done, by simp [htorn]⟩
  | some torn =>
      rcases tornMark_eq_some htorn with ⟨rest, hdrop⟩
      have hnext : (c.effects env now s)[stop.done]? = some (.markApplied torn.1) := by
        rw [← List.head?_drop, hdrop, List.head?_cons]
      refine ⟨stop.done + 1, ?_⟩
      simp [htorn, List.take_add_one, hnext]

/-- A torn marker is a smaller number than the one being written. -/
theorem tearMark_logged {s : Store} (hinv : WalInv s.wal) (digits : Nat) :
    Logged s (s.tearMark s.wal.lastSeq digits) [.markApplied s.wal.lastSeq] := by
  have hsmall : ofDecimal ((decimal s.wal.lastSeq).take digits) ≤ s.wal.lastSeq := by
    simpa using ofDecimal_take_le (decimal s.wal.lastSeq) digits
  have hbatches : ∀ batch, batch ∈ s.rocks.batches ∨
      Effect.write batch ∈ [Effect.markApplied s.wal.lastSeq] → batch ∈ s.rocks.batches := by
    intro batch hbatch
    simpa using hbatch
  unfold Store.tearMark
  split_ifs
  · refine ⟨⟨hinv.top, hsmall⟩, le_rfl, fun entry he => .inl he, ?_, hbatches⟩
    intro hmark
    simp [Effect.isMark] at hmark
  · exact ⟨hinv, le_rfl, fun entry he => .inl he, fun _ => rfl, hbatches⟩

theorem Action.logged {env : Env} {s : Store} (hinv : WalInv s.wal) (a : Action) :
    Logged s (a.run env s) (a.performed env s) := by
  cases a with
  | call now c => exact applyAll_logged hinv (c.effects_shape env now s).logFits
  | stopped now c stop =>
      have hfits := (c.effects_shape env now s).logFits
      have htake := applyAll_logged hinv (hfits.take stop.done)
      unfold run performed Store.applyUntil
      cases htorn : stop.tornMark (c.effects env now s) with
      | none => simpa [htorn] using htake
      | some torn =>
          -- the marker was being written when the process stopped
          rcases tornMark_eq_some htorn with ⟨rest, hdrop⟩
          have hrest : LogFits (s.applyAll ((c.effects env now s).take stop.done)).wal.lastSeq
              ((c.effects env now s).drop stop.done) := by
            apply LogFits.append
            simpa using hfits
          rw [hdrop] at hrest
          have htear := tearMark_logged htake.inv torn.2
          rw [← hrest.1] at htear
          simpa [htorn] using htake.trans htear
  | reopen =>
      refine ⟨⟨rfl, ?_⟩, ?_, fun entry he => .inl he, fun _ => rfl, ?_⟩
      · calc s.wal.persistedApplied
            ≤ s.wal.lastSeq := hinv.applied
          _ = s.wal.reopen.lastSeq := hinv.top.symm
      · exact hinv.top.ge
      · intro batch hbatch
        simpa [performed, run, Store.reopen] using hbatch

/-! ## The records of a call -/

/-- The events of a batch put no run and no approval. -/
theorem mem_eventPuts {e : AuditEvent} {p : Put} (hp : p ∈ eventPuts e) :
    (∀ key doc, p ≠ .runs key doc) ∧ ∀ key doc, p ≠ .approvals key doc := by
  unfold eventPuts idempotencyPuts at hp
  split_ifs at hp with hkey
  · simp only [List.append_nil, List.mem_cons, List.not_mem_nil, or_false] at hp
    rcases hp with rfl | rfl | rfl <;> simp
  · simp only [List.cons_append, List.nil_append, List.mem_cons, List.not_mem_nil, or_false] at hp
    rcases hp with rfl | rfl | rfl | rfl | rfl <;> simp

section Keys

variable {env : Env} {now : Nat → Int} {s : Store} {c : Call} {batch : List Put} {n : Nat}

/-- The run of a batch is put under its own id. -/
theorem Commit.run_key (hs : Consistent s) (hcommit : Commit env now s c batch n) {key : Bytes}
    {r : AgentRun} (hp : Put.runs key (runToJson r) ∈ batch) : r.runId = key := by
  cases hcommit with
  | @startRun run r' hnew hopens =>
      have h : key = r'.runId ∧ runToJson r = runToJson r' := by simpa using hp
      rw [runToJson_injective h.2, h.1]
  | @updateRun c runId orgId projectId run r' hfetch hsame hhash hcount =>
      have h : key = runId ∧ runToJson r = runToJson r' := by simpa using hp
      have hid := (fetchRun_spec hs.represents hfetch).2.1
      rw [runToJson_injective h.2, h.1, hsame.runId, hid]
  | @appendEvents runId orgId projectId events es run r' hfetch hsame hes hhash hcount =>
      have hid := (fetchRun_spec hs.represents hfetch).2.1
      -- the puts of an event go to other columns
      rcases List.mem_append.1 hp with hevents | htail
      · rcases List.mem_flatMap.1 hevents with ⟨e, he, hput⟩
        exact ((mem_eventPuts hput).1 _ _ rfl).elim
      · have h : key = runId ∧ runToJson r = runToJson r' := by simpa using htail
        rw [runToJson_injective h.2, h.1, hsame.runId, hid]
  | insertApproval hnew hsame => simp at hp
  | updateApproval hget hdoc hsame => simp at hp
  | putExport => simp at hp

theorem approvalToJson_injective : Function.Injective approvalToJson := fun a a' h =>
  Except.ok.inj (jsonToApproval_approvalToJson a ▸ h ▸ jsonToApproval_approvalToJson a' :
    Except.ok a = .ok a')

/-- The approval of a batch is put under its own id. -/
theorem Commit.approval_key (hs : Consistent s) (hcommit : Commit env now s c batch n)
    {key : Bytes} {a : Approval} (hp : Put.approvals key (approvalToJson a) ∈ batch) :
    a.approvalId = key := by
  cases hcommit with
  | startRun hnew hopens => simp at hp
  | updateRun hfetch hsame hhash hcount => simp at hp
  | appendEvents hfetch hsame hes hhash hcount =>
      rcases List.mem_append.1 hp with hevents | htail
      · rcases List.mem_flatMap.1 hevents with ⟨e, he, hput⟩
        exact ((mem_eventPuts hput).2 _ _ rfl).elim
      · simp at htail
  | @insertApproval approval a' hnew hsame =>
      have h : key = a'.approvalId ∧ approvalToJson a = approvalToJson a' := by simpa using hp
      rw [approvalToJson_injective h.2, h.1]
  | @updateApproval c approvalId doc approval a' hget hdoc hsame =>
      have h : key = approvalId ∧ approvalToJson a = approvalToJson a' := by simpa using hp
      rcases hs.represents.get_approvals hget with ⟨a'', ha'', hstored, hid⟩
      rw [hdoc] at ha''
      cases ha''
      rw [approvalToJson_injective h.2, h.1, hsame.approvalId, hid]
  | putExport => simp at hp

/-- A logged record announces the put of its batch. -/
theorem Commit.logs_effect (hs : Consistent s) (hcommit : Commit env now s c batch n)
    {opType : WalOpType} {doc : Json} {p : Put} (hp : p ∈ batch) (hlogs : Logs opType doc p)
    (walSeq : Nat) : (⟨walSeq, opType, doc⟩ : WalEntry).effect = some p := by
  cases hlogs with
  | insertRun key r => simp [WalEntry.effect, Except.toOption, hcommit.run_key hs hp]
  | updateRun key r => simp [WalEntry.effect, Except.toOption, hcommit.run_key hs hp]
  | insertApproval key a => simp [WalEntry.effect, Except.toOption, hcommit.approval_key hs hp]
  | updateApproval key a => simp [WalEntry.effect, Except.toOption, hcommit.approval_key hs hp]
  | insertExport exp => rfl

end Keys

theorem mem_eventEffects {lastSeq : Nat} {es : List AuditEvent} {entry : WalEntry}
    (h : Effect.walAppend entry ∈ eventEffects lastSeq es) :
    ∃ e ∈ es, entry.effect = some (.events e.sequence (eventToJson e)) := by
  induction es generalizing lastSeq with
  | nil => simp [eventEffects] at h
  | cons e es ih =>
      simp only [eventEffects, List.mem_cons, reduceCtorEq, Effect.walAppend.injEq, false_or] at h
      rcases h with rfl | h
      · exact ⟨e, List.mem_cons_self, by simp [WalEntry.effect, Except.toOption]⟩
      · rcases ih h with ⟨e', he', heffect⟩
        exact ⟨e', List.mem_cons_of_mem _ he', heffect⟩

/-- If a call writes its batch, the records it appended have their effect in it. -/
theorem EffectShape.covered {env : Env} {now : Nat → Int} {s : Store} {c : Call}
    {effects l : List Effect} (hs : Consistent s) (h : EffectShape env now s c effects)
    (hl : ∀ e ∈ l, e ∈ effects) (hwrites : l.all Effect.quiet = false) {entry : WalEntry}
    (hentry : Effect.walAppend entry ∈ l) :
    ∃ p, entry.effect = some p ∧ ∃ batch, Effect.write batch ∈ l ∧ p ∈ batch := by
  rcases List.all_eq_false.1 hwrites with ⟨w, hw, hloud⟩
  cases h with
  | nothing => exact absurd (hl _ hentry) List.not_mem_nil
  | @logged opType doc batch p hcommit hp hlogs =>
      have hw' := hl w hw
      have hentry' := hl _ hentry
      simp only [List.mem_cons, List.not_mem_nil, or_false] at hw' hentry'
      rcases hw' with rfl | rfl | rfl
      · simp [Effect.quiet] at hloud
      -- a call that logs once writes the batch of its one record
      · rcases hentry' with hsame | hsame | hsame <;> cases hsame
        exact ⟨p, hcommit.logs_effect hs hp hlogs _, batch, hw, hp⟩
      · simp [Effect.quiet] at hloud
  | @threw es tail htail =>
      rcases List.mem_append.1 (hl w hw) with hevent | hlast
      · exact absurd (List.all_eq_true.1 (eventEffects_quiet _ _) w hevent) hloud
      · rcases htail with rfl | rfl
        · simp at hlast
        · simp [List.mem_singleton.1 hlast, Effect.quiet] at hloud
  | @appended es batch hcommit hes =>
      -- the only effect of `append_events` that writes is its batch
      have hwrite : w = .write batch := by
        rcases List.mem_append.1 (hl w hw) with hevent | hlast
        · exact absurd (List.all_eq_true.1 (eventEffects_quiet _ _) w hevent) hloud
        · exact List.mem_singleton.1 hlast
      have hentry' : Effect.walAppend entry ∈ eventEffects s.wal.lastSeq es := by
        simpa using hl _ hentry
      rcases mem_eventEffects hentry' with ⟨e, he, heffect⟩
      exact ⟨_, heffect, batch, hwrite ▸ hw, hes e he⟩

/-! ## Runs -/

theorem Rocks.Holds.mono {db db' : Rocks} {entry : WalEntry}
    (h : ∀ batch ∈ db.batches, batch ∈ db'.batches) (hholds : db.Holds entry) :
    db'.Holds entry := by
  rcases hholds with ⟨p, heffect, batch, hbatch, hp⟩
  exact ⟨p, heffect, batch, h batch hbatch, hp⟩

/-- What an action performs is part of the effect list of its call. -/
theorem Action.performed_covered {env : Env} {s : Store} (hs : Consistent s) {a : Action}
    (hwrites : (a.performed env s).all Effect.quiet = false) {entry : WalEntry}
    (hentry : Effect.walAppend entry ∈ a.performed env s) :
    ∃ p, entry.effect = some p ∧ ∃ batch, Effect.write batch ∈ a.performed env s ∧ p ∈ batch := by
  cases a with
  | call now c => exact (c.effects_shape env now s).covered hs (fun _ he => he) hwrites hentry
  | stopped now c stop =>
      rcases performed_eq_take env s now c stop with ⟨k, hk⟩
      rw [hk] at hwrites hentry ⊢
      exact (c.effects_shape env now s).covered hs (fun _ he => List.mem_of_mem_take he) hwrites
        hentry
  | reopen => simp [performed] at hentry

/-- An action that writes its batch leaves no record over if there was none. -/
theorem Action.noneLeft {env : Env} {s : Store} {a : Action} (hs : Consistent s)
    (hinv : WalInv s.wal) (hnone : NoneLeft s)
    (hwrites : (a.performed env s).all Effect.quiet = false) : NoneLeft (a.run env s) := by
  have hlogged : Logged s (a.run env s) (a.performed env s) := Action.logged hinv a
  intro entry hentry
  rcases hlogged.records entry hentry with hold | ⟨hnew, _⟩
  · exact (hnone entry hold).mono fun batch hbatch => hlogged.batches batch (.inl hbatch)
  · rcases Action.performed_covered hs hwrites hnew with ⟨p, heffect, batch, hbatch, hp⟩
    exact ⟨p, heffect, batch, hlogged.batches batch (.inr hbatch), hp⟩

/-- Step lemma: an action that moves the marker late keeps the law. -/
theorem Action.walLaw {env : Env} {s : Store} {a : Action} (hs : Consistent s)
    (hinv : WalInv s.wal) (hlate : a.MarksLate env s) (hlaw : WalLaw s) :
    WalLaw (a.run env s) := by
  intro entry hentry hmarked
  by_cases hmark : (a.performed env s).any Effect.isMark = true
  · rcases hlate hmark with ⟨hnone, hwrites⟩
    exact Action.noneLeft hs hinv hnone hwrites entry hentry
  · -- the marker has not moved, and new records are beyond it
    have hlogged : Logged s (a.run env s) (a.performed env s) := Action.logged hinv a
    have hsame := hlogged.marker (Bool.eq_false_iff.2 hmark)
    rcases hlogged.records entry hentry with hold | ⟨_, hlt⟩
    · exact (hlaw entry hold (hsame ▸ hmarked)).mono fun batch hbatch =>
        hlogged.batches batch (.inl hbatch)
    · have happlied := hinv.applied
      omega

theorem walInv_runActions (env : Env) (actions : List Action) :
    WalInv (runActions env {} actions).wal :=
  have hempty : WalInv ({} : Store).wal := ⟨rfl, le_rfl⟩
  List.foldlRecOn (motive := fun s => WalInv s.wal) actions (Action.run env) hempty
    fun _ hinv a _ => (Action.logged hinv a).inv

theorem noneLeft_concat (env : Env) (actions : List Action) (a : Action)
    (hnone : NoneLeft (runActions env {} actions))
    (hwrites : (a.performed env (runActions env {} actions)).all Effect.quiet = false) :
    NoneLeft (runActions env {} (actions ++ [a])) := by
  rw [runActions_concat]
  exact Action.noneLeft (consistent_runActions env actions) (walInv_runActions env actions) hnone
    hwrites

theorem marksLateRun_append {env : Env} {s : Store} {actions actions' : List Action} :
    MarksLateRun env s (actions ++ actions') ↔
      MarksLateRun env s actions ∧ MarksLateRun env (runActions env s actions) actions' := by
  induction actions generalizing s with
  | nil => simp [MarksLateRun]
  | cons a rest ih => simp [MarksLateRun, ih, runActions, and_assoc]

namespace WalExample

def run : AgentRun :=
  { runId := bytes "run_001", orgId := bytes "org_test", projectId := bytes "proj_test",
    environment := bytes "test", agentId := bytes "test-agent", status := bytes "running",
    startedAtMs := 1714521600000 }

def event : AuditEvent :=
  { eventId := bytes "evt_001", eventType := bytes "tool_call.completed",
    idempotencyKey := bytes "idem_001" }

def stamped : AuditEvent :=
  { event with
    sequence := 1, orgId := run.orgId, projectId := run.projectId, runId := run.runId,
    environment := run.environment, schemaVersion := bytes "2026-05-01",
    payloadMode := bytes "metadata_only", occurredAtMs := 1714521600000,
    ingestedAtMs := 1714521600000 }

def env : Env :=
  tableEnv [
    (canonicalJsonEvent stamped, exampleDigest)]

def clock : Nat → Int := fun _ => 1714521600000

def start : Action := .call clock (.startRun run)

def append : Call := .appendEvents run.runId run.orgId run.projectId [event]

/-- `commit_run` crashes when `mark_applied` has only truncated the marker file. -/
def tornCommit : Action :=
  .stopped clock (.commitRun run.runId run.orgId run.projectId) { done := 2, digits := some 0 }

/-- `append_events` crashes in front of its `write_batch`. -/
def cutAppend : Action := .stopped clock append { done := 3 }

end WalExample

end ControlDB
