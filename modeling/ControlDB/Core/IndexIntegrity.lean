import ControlDB.Core.Tenancy

/-!
# The indexes are complete

The representation invariant says that no index entry is an orphan.  Here is the other half: every
stored event has its two index entries, and every stored run its own, and no two records share one.
For the runs this needs that the parts of the key can be told apart.
-/

namespace ControlDB

open Library

/-- Every stored event is in both event indexes. -/
structure EventsIndexed (db : Rocks) : Prop where
  byRun : ∀ e ∈ storedEvents db, (db.evByRun.get (evByRunKey e)).isSome
  byType : ∀ e ∈ storedEvents db, (db.evByType.get (evByTypeKey e)).isSome

/-- No stored run has a `:` in its tenant. -/
def ColonFree (db : Rocks) : Prop :=
  ∀ runId r, storedRun db runId = some r → (0x3a : UInt8) ∉ r.orgId ∧ (0x3a : UInt8) ∉ r.projectId

/-- Every stored run is in its index, if the tenants have no `:`. -/
def RunsIndexed (db : Rocks) : Prop :=
  ColonFree db → ∀ runId r, storedRun db runId = some r →
    db.runsByOrg.get (runsByOrgKey r) = some runId

/-! ## Keys of the run index -/

/-- A part without `:` in front of a `:` is determined. -/
theorem colonFree_append_inj {p q x y : Bytes} (hp : (0x3a : UInt8) ∉ p) (hq : (0x3a : UInt8) ∉ q)
    (h : p ++ bytes ":" ++ x = q ++ bytes ":" ++ y) : p = q ∧ x = y := by
  have hcut : ∀ {p x : Bytes}, (0x3a : UInt8) ∉ p →
      (p ++ bytes ":" ++ x).takeWhile (fun b => decide (b ≠ 0x3a)) = p := by
    intro p x hp
    have hcolon : bytes ":" = [0x3a] := by decide
    rw [List.append_assoc, List.takeWhile_append_of_pos]
    · simp [hcolon]
    · intro b hb
      exact decide_eq_true fun hsame => hp (hsame ▸ hb)
  have hpq : p = q := by rw [← hcut (x := x) hp, h, hcut hq]
  subst hpq
  exact ⟨rfl, List.append_cancel_left h⟩

/-- Without a `:` in the tenants two runs with one index key have one id. -/
theorem runsByOrgKey_inj {r r' : AgentRun}
    (hr : (0x3a : UInt8) ∉ r.orgId ∧ (0x3a : UInt8) ∉ r.projectId)
    (hr' : (0x3a : UInt8) ∉ r'.orgId ∧ (0x3a : UInt8) ∉ r'.projectId)
    (h : runsByOrgKey r = runsByOrgKey r') : r.runId = r'.runId := by
  have hnested : ∀ r : AgentRun, runsByOrgKey r =
      r.orgId ++ bytes ":" ++ (r.projectId ++ bytes ":" ++
        (seqToKey (r.startedAtMs % 2 ^ 64).toNat ++ (bytes ":" ++ r.runId))) := by
    intro r
    simp [runsByOrgKey, List.append_assoc]
  rw [hnested, hnested] at h
  have hproject := (colonFree_append_inj hr.1 hr'.1 h).2
  have htime := (colonFree_append_inj hr.2 hr'.2 hproject).2
  have hlast := (List.append_inj htime (by simp)).2
  exact List.append_cancel_left hlast

/-! ## Keys of the event indexes -/

/-- The sequence number can be read off the end of a key. -/
theorem seq_of_key_eq {p q : Bytes} {m n : Nat} (hm : m < 2 ^ 64) (hn : n < 2 ^ 64)
    (h : p ++ seqToKey m = q ++ seqToKey n) : m = n := by
  have hkeys : seqToKey m = seqToKey n := (List.append_inj' h (by simp)).2
  calc m = keyToSeq (seqToKey m) := (keyToSeq_seqToKey hm).symm
    _ = keyToSeq (seqToKey n) := by rw [hkeys]
    _ = n := keyToSeq_seqToKey hn

theorem evByRunKey_inj {e e' : AuditEvent} (he : e.sequence < 2 ^ 64) (he' : e'.sequence < 2 ^ 64)
    (h : evByRunKey e = evByRunKey e') : e.sequence = e'.sequence :=
  seq_of_key_eq he he' h

theorem evByTypeKey_inj {e e' : AuditEvent} (he : e.sequence < 2 ^ 64)
    (he' : e'.sequence < 2 ^ 64) (h : evByTypeKey e = evByTypeKey e') : e.sequence = e'.sequence :=
  seq_of_key_eq he he' h

/-! ## Preservation -/

/-- What was put, and what was there before, is there. -/
theorem isSome_get_foldl_put {f : AuditEvent → Bytes} (es : List AuditEvent)
    {m : SortedMap Bytes Unit} {key : Bytes}
    (h : (m.get key).isSome ∨ ∃ e ∈ es, f e = key) :
    ((es.foldl (fun m e => m.put (f e) ()) m).get key).isSome := by
  induction es generalizing m with
  | nil => simpa using h
  | cons e es ih =>
      refine ih ?_
      rw [SortedMap.get_put]
      rcases h with hold | ⟨e', he', hkey⟩
      · left
        split_ifs <;> simp [hold]
      · rcases List.mem_cons.1 he' with rfl | htail
        · left
          simp [hkey]
        · exact .inr ⟨e', htail, hkey⟩

theorem ColonFree.before {db db' : Rocks} (h : ColonFree db')
    (hkeeps : ∀ runId old, storedRun db runId = some old →
      ∃ new, storedRun db' runId = some new ∧ SameRun old new) : ColonFree db := by
  intro runId old hold
  rcases hkeeps runId old hold with ⟨new, hnew, hsame⟩
  rw [← hsame.orgId, ← hsame.projectId]
  exact h runId new hnew

/-- Rewriting a stored run keeps its index entry. -/
theorem RunsIndexed.rewrite {db db' : Rocks} {r old : AgentRun} (h : RunsIndexed db)
    (hruns : db'.runs = db.runs.put r.runId (runToJson r)) (hindex : db'.runsByOrg = db.runsByOrg)
    (hold : storedRun db r.runId = some old) (hsame : SameRun old r) : RunsIndexed db' := by
  have hwrite : Represents.RunWrite db db' r :=
    ⟨hruns, fun old' hold' => by cases hold.symm.trans hold'; exact hsame⟩
  intro hfree runId r' hr'
  have hbefore := h (hfree.before fun runId' old' => hwrite.keeps)
  rw [storedRun_put db hruns] at hr'
  rw [hindex]
  split_ifs at hr' with hid
  · cases hr'
    rw [hid, hsame.runsByOrgKey]
    exact hbefore r.runId old hold
  · exact hbefore runId r' hr'

/-- Opening a run adds its entry and overwrites no other. -/
theorem RunsIndexed.openRun {db db' : Rocks} {r : AgentRun} (hdb : Represents db)
    (h : RunsIndexed db) (hruns : db'.runs = db.runs.put r.runId (runToJson r))
    (hindex : db'.runsByOrg = db.runsByOrg.put (runsByOrgKey r) r.runId)
    (hnew : storedRun db r.runId = none) : RunsIndexed db' := by
  have hwrite : Represents.RunWrite db db' r :=
    ⟨hruns, fun old' hold' => by cases hnew.symm.trans hold'⟩
  intro hfree runId r' hr'
  have hbefore := h (hfree.before fun runId' old' => hwrite.keeps)
  have hown : storedRun db' r.runId = some r := by rw [storedRun_put db hruns, if_pos rfl]
  have hstored := hr'
  rw [storedRun_put db hruns] at hr'
  rw [hindex, SortedMap.get_put]
  split_ifs at hr' with hid
  · cases hr'
    simp [hid]
  -- two runs under one index key would have the same id
  · have hkey : runsByOrgKey r' ≠ runsByOrgKey r := by
      intro hkey
      have hsameId := runsByOrgKey_inj (hfree runId r' hstored) (hfree r.runId r hown) hkey
      exact hid ((hdb.storedRun_runId hr').symm.trans hsameId)
    rw [if_neg hkey]
    exact hbefore runId r' hr'

/-- Appending events adds their entries. -/
theorem EventsIndexed.append {db db' : Rocks} {es : List AuditEvent} (h : EventsIndexed db)
    (hevents : storedEvents db' = storedEvents db ++ es)
    (hbyRun : db'.evByRun = es.foldl (fun m e => m.put (evByRunKey e) ()) db.evByRun)
    (hbyType : db'.evByType = es.foldl (fun m e => m.put (evByTypeKey e) ()) db.evByType) :
    EventsIndexed db' := by
  constructor
  · intro e he
    rw [hbyRun]
    refine isSome_get_foldl_put es ?_
    rcases List.mem_append.1 (hevents ▸ he) with hold | hnew
    · exact .inl (h.byRun e hold)
    · exact .inr ⟨e, hnew, rfl⟩
  · intro e he
    rw [hbyType]
    refine isSome_get_foldl_put es ?_
    rcases List.mem_append.1 (hevents ▸ he) with hold | hnew
    · exact .inl (h.byType e hold)
    · exact .inr ⟨e, hnew, rfl⟩

/-- The batch of a call keeps both. -/
theorem Commit.indexed {env : Env} {now : Nat → Int} {s : Store} {c : Call} {batch : List Put}
    {n : Nat} (hs : Consistent s) (hevents : EventsIndexed s.rocks) (hruns : RunsIndexed s.rocks)
    (hcommit : Commit env now s c batch n) :
    EventsIndexed (s.rocks.write batch) ∧ RunsIndexed (s.rocks.write batch) := by
  cases hcommit with
  | @startRun run r hnew hopens =>
      refine ⟨⟨hevents.byRun, hevents.byType⟩, ?_⟩
      exact hruns.openRun hs.represents rfl rfl
        (Represents.storedRun_eq_none (hopens.runId ▸ hnew))
  | @updateRun c runId orgId projectId run r hfetch hsame hhash hcount =>
      rcases fetchRun_spec hs.represents hfetch with ⟨hstored, hid, _⟩
      have hkey : runId = r.runId := (hsame.runId.trans hid).symm
      subst hkey
      exact ⟨⟨hevents.byRun, hevents.byType⟩, hruns.rewrite rfl rfl hstored hsame⟩
  | @appendEvents runId orgId projectId events es run r hfetch hsame hes hhash hcount =>
      rcases fetchRun_spec hs.represents hfetch with ⟨hstored, hid, _⟩
      have hgrown := hs.storedEvents_append env now events hfetch hsame
      rw [← hes] at hgrown
      have hkey : runId = r.runId := (hsame.runId.trans hid).symm
      subst hkey
      have hbatch := write_appendBatch s.rocks es r.runId r (s.globalSeq + es.length)
      refine ⟨hevents.append hgrown ?_ ?_, hruns.rewrite ?_ ?_ hstored hsame⟩ <;> rw [hbatch]
  | _ => exact ⟨⟨hevents.byRun, hevents.byType⟩, hruns⟩

/-- Run lemma: every reachable store is indexed. -/
theorem indexed_runActions (env : Env) (actions : List Action) :
    EventsIndexed (runActions env {} actions).rocks ∧
      RunsIndexed (runActions env {} actions).rocks := by
  induction actions using List.reverseRecOn with
  | nil =>
      refine ⟨⟨?_, ?_⟩, ?_⟩
      · simp [storedEvents]
      · simp [storedEvents]
      · intro _ runId r hr
        simp [storedRun] at hr
  | append_singleton actions a ih =>
      have hs := consistent_runActions env actions
      rw [runActions_concat]
      -- what becomes durable of an action is one commit or nothing
      generalize hc : a.call? = c
      have hdurable := hc ▸ a.durable env (runActions env {} actions)
      cases hdurable with
      | quiet hrocks hseq => rwa [hrocks]
      | committed hcommit hrocks hseq =>
          rw [hrocks]
          exact hcommit.indexed hs ih.1 ih.2

/-! ## The indexes as functions of the records -/

/-- The stored events are those of the events column, the keys of the two event indexes are theirs,
one of each for every event, and the run index has exactly one entry for every stored run. -/
structure IndexIntegrity (db : Rocks) : Prop where
  events : ∀ seq doc, db.events.get seq = some doc →
    ∃ e ∈ storedEvents db, jsonToEvent doc = .ok e ∧ e.sequence = seq
  byRun : ∀ key, (db.evByRun.get key).isSome ↔ ∃ e ∈ storedEvents db, key = evByRunKey e
  byRunOnce : (storedEvents db).Pairwise fun e e' => evByRunKey e ≠ evByRunKey e'
  byType : ∀ key, (db.evByType.get key).isSome ↔ ∃ e ∈ storedEvents db, key = evByTypeKey e
  byTypeOnce : (storedEvents db).Pairwise fun e e' => evByTypeKey e ≠ evByTypeKey e'
  byOrg : ColonFree db → ∀ key runId, db.runsByOrg.get key = some runId ↔
    ∃ r, storedRun db runId = some r ∧ r.runId = runId ∧ key = runsByOrgKey r
  byOrgOnce : ColonFree db → ∀ runId runId' r r', storedRun db runId = some r →
    storedRun db runId' = some r' → runsByOrgKey r = runsByOrgKey r' → runId = runId'

theorem indexIntegrity_of_indexed {db : Rocks} (hdb : Represents db) (hevents : EventsIndexed db)
    (hruns : RunsIndexed db) (hfits : SeqFits db) : IndexIntegrity db := by
  have hfit : ∀ e ∈ storedEvents db, e.sequence < 2 ^ 64 := fun e he =>
    lt_of_le_of_lt (hdb.seqBound e he) hfits
  -- no two events share a key, as their sequence numbers differ
  have honce : ∀ {key : AuditEvent → Bytes},
      (∀ {e e' : AuditEvent}, e.sequence < 2 ^ 64 → e'.sequence < 2 ^ 64 → key e = key e' →
        e.sequence = e'.sequence) →
      (storedEvents db).Pairwise fun e e' => key e ≠ key e' := by
    intro key hinj
    refine ((List.Pairwise.and_mem.1 hdb.storedEvents_sorted).imp ?_)
    rintro e e' ⟨he, he', hlt⟩ hsame
    exact hlt.ne (hinj (hfit e he) (hfit e' he') hsame)
  refine ⟨fun seq doc hget => hdb.get_events hget, fun key => ?_, honce evByRunKey_inj,
    fun key => ?_, honce evByTypeKey_inj, fun hfree key runId => ?_, ?_⟩
  · constructor
    · intro hsome
      rcases Option.isSome_iff_exists.1 hsome with ⟨u, hget⟩
      exact hdb.byRun hget
    · rintro ⟨e, he, rfl⟩
      exact hevents.byRun e he
  · constructor
    · intro hsome
      rcases Option.isSome_iff_exists.1 hsome with ⟨u, hget⟩
      exact hdb.byType hget
    · rintro ⟨e, he, rfl⟩
      exact hevents.byType e he
  · constructor
    · intro hget
      rcases hdb.runIndex hget with ⟨r, hr, hkey⟩
      exact ⟨r, hr, hdb.storedRun_runId hr, hkey⟩
    · rintro ⟨r, hr, _, rfl⟩
      exact hruns hfree runId r hr
  · intro hfree runId runId' r r' hr hr' hkey
    calc runId = r.runId := (hdb.storedRun_runId hr).symm
      _ = r'.runId := runsByOrgKey_inj (hfree runId r hr) (hfree runId' r' hr') hkey
      _ = runId' := hdb.storedRun_runId hr'

/-- In every store that calls lead to, whatever they throw and wherever they stop, the indexes
are those of the stored records. -/
theorem indexIntegrity_runActions (env : Env) (actions : List Action)
    (hfits : SeqFits (runActions env {} actions).rocks) :
    IndexIntegrity (runActions env {} actions).rocks := by
  rcases indexed_runActions env actions with ⟨hevents, hruns⟩
  exact indexIntegrity_of_indexed (consistent_runActions env actions).represents hevents hruns hfits

open IdempotencyExample in
/-- One event, sent twice. -/
theorem indexIntegrity_runActions_resend :
    IndexIntegrity (runActions env {} (actions [[event], [event]])).rocks := by
  have hfits : SeqFits (runActions env {} (actions [[event], [event]])).rocks := by
    unfold SeqFits
    decide +kernel
  exact indexIntegrity_runActions env (actions [[event], [event]]) hfits

end ControlDB
