import ControlDB.Collector.Services
import ControlDB.Library.Paging

/-!
# Pages of the collector's query

The statement of `query` asks for at most 1000 rows and at least one, whatever the limit of the
request is, but a page carries a cursor only when it has as many rows as that limit.  Numbers of
rows come from an autoincremented primary key.
-/

namespace ControlDB
namespace Collector

open Library Python

/-- The primary key of the events table: numbers from one on, each given out once. -/
structure Keyed (db : Database) : Prop where
  distinct : db.auditEvents.Pairwise fun a b => a.sequence ≠ b.sequence
  positive : ∀ e ∈ db.auditEvents, 1 ≤ e.sequence

/-- The rows of the principal's tenant that the filters of a request select, by sequence. -/
def selectedRows (db : Database) (principal : Principal) (body : QueryBody) : List AuditEvent :=
  (bySequence db.auditEvents).filter fun e =>
    decide (e.orgId = principal.orgId ∧ e.projectId = principal.projectId) &&
      (body.eventTypes.isEmpty || decide (e.eventType ∈ body.eventTypes)) &&
      (truthy body.runId).all fun runId => decide (e.runId = runId)

/-- The limit of the statement. -/
def statementLimit (limit : Int) : Nat :=
  (min (max limit 1) 1000).toNat

/-- The rows of a page, and its cursor. -/
def rowsPage (db : Database) (principal : Principal) (body : QueryBody) (cursor : Option Nat) :
    Except PyError (List AuditEvent × Option Nat) :=
  let rows := limitTo (min (max body.limit 1) 1000)
    (afterCursor (cursor.map Int.ofNat) (selectedRows db principal body))
  .ok (rows, nextCursor body.limit rows)

/-- A page of the query. -/
def queryPage (db : Database) (principal : Principal) (body : QueryBody) (cursor : Option Nat) :
    Except PyError (List EventDict × Option Nat) :=
  let result := query db principal { body with cursor := cursor.map Int.ofNat }
  .ok (result.events, result.nextCursor)

/-- Following the cursor ends, and the pages are the selected rows in order. -/
def QueryPaginates (db : Database) (principal : Principal) (body : QueryBody) : Prop :=
  ∃ pages, Pages (queryPage db principal body) none pages ∧
    pages.flatten = (selectedRows db principal body).map eventToDict

section Query

variable {db : Database} {principal : Principal} {body : QueryBody}

theorem selectedRows_sorted (hdb : Keyed db) :
    (selectedRows db principal body).Pairwise fun a b => a.sequence < b.sequence :=
  (insertionSort_ordered hdb.distinct).filter _

theorem mem_of_selectedRows {e : AuditEvent} (he : e ∈ selectedRows db principal body) :
    e ∈ db.auditEvents :=
  (List.perm_insertionSort _ _).mem_iff.1 (List.mem_filter.1 he).1

/-- The rows behind a cursor: that of a row is not zero, so it is not taken for none. -/
theorem afterCursor_eq (hdb : Keyed db) {cursor : Option Nat}
    (hcursor : Resumes AuditEvent.sequence (selectedRows db principal body) cursor) :
    afterCursor (cursor.map Int.ofNat) (selectedRows db principal body) =
      after AuditEvent.sequence (selectedRows db principal body) cursor := by
  cases cursor with
  | none => rfl
  | some c =>
      rcases hcursor c rfl with ⟨e, he, rfl⟩
      have hpos := hdb.positive e (mem_of_selectedRows he)
      have hne : ¬ Int.ofNat e.sequence = 0 := by
        rw [Int.ofNat_eq_natCast]
        omega
      simp only [afterCursor, after, Option.map_some, if_neg hne]
      refine List.filter_congr fun row _ => ?_
      rw [decide_eq_decide]
      exact Int.ofNat_lt

theorem limitTo_statement (rows : List AuditEvent) :
    limitTo (min (max body.limit 1) 1000) rows = rows.take (statementLimit body.limit) := by
  have hnonneg : ¬ min (max body.limit 1) 1000 < 0 := by omega
  rw [limitTo, if_neg hnonneg, statementLimit]

theorem statementLimit_of_range (hlow : 1 ≤ body.limit) (hhigh : body.limit ≤ 1000) :
    (statementLimit body.limit : Int) = body.limit := by
  unfold statementLimit
  omega

/-- A page within the range has a cursor when it is full. -/
theorem nextCursor_of_range (hlow : 1 ≤ body.limit) (hhigh : body.limit ≤ 1000)
    (rows : List AuditEvent) :
    nextCursor body.limit rows =
      if rows.length = statementLimit body.limit ∧ True then
        some ((rows.getLast?.map AuditEvent.sequence).getD 0)
      else none := by
  have hlimit := statementLimit_of_range hlow hhigh
  by_cases hfull : rows.length = statementLimit body.limit
  · have hne : rows ≠ [] := by
      rw [← List.length_pos_iff]
      omega
    rcases Option.isSome_iff_exists.1 (List.getLast?_isSome.2 hne) with ⟨e, he⟩
    have hcount : (rows.length : Int) = body.limit := by rw [hfull, hlimit]
    rw [nextCursor, if_pos hcount, if_pos ⟨hfull, trivial⟩, he]
    rfl
  · have hcount : ¬ (rows.length : Int) = body.limit := by omega
    rw [nextCursor, if_neg hcount, if_neg fun h => hfull h.1]

/-- A page out of the range has none: it never has as many rows as the request asks for. -/
theorem nextCursor_of_not_range (hout : ¬ (1 ≤ body.limit ∧ body.limit ≤ 1000))
    (rows : List AuditEvent) :
    nextCursor body.limit (rows.take (statementLimit body.limit)) = none := by
  unfold nextCursor
  split_ifs with hfull
  · have hlength := List.length_take_le (statementLimit body.limit) rows
    have hnil : (rows.take (statementLimit body.limit)).length = 0 := by
      unfold statementLimit at hlength hfull ⊢
      omega
    rw [List.length_eq_zero_iff.1 hnil]
    rfl
  · rfl

/-- Within the range of the statement, full pages carry a cursor. -/
theorem scans_rowsPage (hdb : Keyed db) (hlow : 1 ≤ body.limit) (hhigh : body.limit ≤ 1000) :
    Scans AuditEvent.sequence (fun _ => 0) (statementLimit body.limit)
      (selectedRows db principal body) (rowsPage db principal body) := by
  intro cursor hcursor
  have hpos : 1 ≤ statementLimit body.limit := by
    have hlimit := statementLimit_of_range hlow hhigh
    omega
  have hselected : (selectedRows db principal body).Pairwise fun a b => a.sequence < b.sequence :=
    selectedRows_sorted hdb
  have hsorted := hselected.sublist (after_sublist AuditEvent.sequence _ cursor)
  have hpage : rowsPage db principal body cursor =
      .ok ((after AuditEvent.sequence (selectedRows db principal body) cursor).take
          (statementLimit body.limit),
        nextCursor body.limit ((after AuditEvent.sequence (selectedRows db principal body) cursor).take
          (statementLimit body.limit))) := by
    rw [rowsPage, afterCursor_eq hdb hcursor, limitTo_statement]
  generalize after AuditEvent.sequence (selectedRows db principal body) cursor = left at *
  rw [nextCursor_of_range hlow hhigh] at hpage
  refine ⟨left, _, _, hpage, pageOf_of_scan hpos (List.Perm.refl _) ?_ (List.Perm.refl _)
    (hsorted.sublist (List.take_sublist _ _)) (fun e he => ?_) fun hnot => absurd trivial hnot⟩
  · exact hsorted.imp fun hlt => .inr ⟨rfl, hlt⟩
  · rw [he]
    rfl

/-- The pages of the answers are those of the rows. -/
theorem queryPaginates_of_limit (hdb : Keyed db) (hlow : 1 ≤ body.limit)
    (hhigh : body.limit ≤ 1000) : QueryPaginates db principal body := by
  have hpos : 1 ≤ statementLimit body.limit := by
    have hlimit := statementLimit_of_range hlow hhigh
    omega
  rcases pages_of_aligned (selectedRows_sorted hdb) hpos (scans_rowsPage hdb hlow hhigh)
    (fun _ hc => absurd hc (Option.not_mem_none _)) (aligned_of_same _ fun _ _ _ _ => le_rfl) with
    ⟨pages, hpages, _, hflat⟩
  refine ⟨pages.map (List.map eventToDict), hpages.map eventToDict ?_, ?_⟩
  · intro cursor page next hok
    cases hok
    rfl
  · rw [← List.map_flatten, hflat]
    rfl

/-- Outside of it no page carries one, so there is only the first. -/
theorem queryPaginates_single_iff (hout : ¬ (1 ≤ body.limit ∧ body.limit ≤ 1000)) :
    QueryPaginates db principal body ↔
      (selectedRows db principal body).length ≤ statementLimit body.limit := by
  have hpage : queryPage db principal body none =
      .ok (((selectedRows db principal body).take (statementLimit body.limit)).map eventToDict, none) := by
    have hfirst : queryPage db principal body none =
        .ok ((limitTo (min (max body.limit 1) 1000) (selectedRows db principal body)).map eventToDict,
          nextCursor body.limit
            (limitTo (min (max body.limit 1) 1000) (selectedRows db principal body))) := rfl
    rw [hfirst, limitTo_statement, nextCursor_of_not_range hout]
  constructor
  · rintro ⟨pages, hpages, hflat⟩
    have hlength := congrArg List.length hflat
    rw [hpages.unique (.last hpage), List.flatten_singleton, List.length_map, List.length_map,
      List.length_take] at hlength
    omega
  · intro hfew
    refine ⟨_, .last hpage, ?_⟩
    rw [List.flatten_singleton, List.take_of_length_le hfew]

end Query

/-- The pages are the selected rows exactly when the limit is one that the statement accepts, or
the first page holds them all. -/
theorem queryPages_iff {db : Database} (hdb : Keyed db) (principal : Principal) (body : QueryBody) :
    QueryPaginates db principal body ↔
      (1 ≤ body.limit ∧ body.limit ≤ 1000) ∨
        (selectedRows db principal body).length ≤ statementLimit body.limit := by
  by_cases hrange : 1 ≤ body.limit ∧ body.limit ≤ 1000
  · exact iff_of_true (queryPaginates_of_limit hdb hrange.1 hrange.2) (.inl hrange)
  · rw [queryPaginates_single_iff hrange]
    exact ⟨.inr, fun h => h.resolve_left hrange⟩

/-! ### More rows than the statement returns -/

namespace PagesExample

open CollectorExample (noon owner)

/-- The `n`-th row of a run. -/
def row (n : Nat) : AuditEvent where
  sequence := n
  eventId := "evt_" ++ String.ofList (Nat.toDigits 10 n)
  orgId := owner.orgId
  projectId := owner.projectId
  environment := "dev"
  runId := "run_1"
  stepId := none
  stepIndex := none
  eventType := "memory.write"
  schemaVersion := "2026-05-01"
  actorType := none
  actorId := none
  traceId := none
  spanId := none
  parentSpanId := none
  payloadMode := "metadata_only"
  payload := PyJson.none
  payloadHash := none
  previousEventHash := none
  eventHash := ""
  occurredAt := noon
  ingestedAt := noon
  idempotencyKey := none

/-- A table of rows with the numbers from one on. -/
def table (n : Nat) : Database :=
  { auditEvents := (List.range n).map fun i => row (i + 1) }

theorem keyed_table (n : Nat) : Keyed (table n) where
  distinct := by
    refine List.pairwise_map.2 (List.nodup_range.imp ?_)
    intro i j hij heq
    exact hij (Nat.succ.inj heq)
  positive := by
    intro e he
    rcases List.mem_map.1 he with ⟨i, _, rfl⟩
    exact Nat.le_add_left 1 i

theorem selectedRows_table (n : Nat) (limit : Int) :
    (selectedRows (table n) owner { limit := limit }).length = n := by
  have hall : selectedRows (table n) owner { limit := limit } = bySequence (table n).auditEvents := by
    refine List.filter_eq_self.2 fun e he => ?_
    rcases List.mem_map.1 ((List.perm_insertionSort _ _).mem_iff.1 he) with ⟨i, _, rfl⟩
    rfl
  rw [hall, bySequence, List.length_insertionSort, table, List.length_map, List.length_range]

end PagesExample

open PagesExample in
/-- Three rows, two on a page. -/
theorem queryPages_iff_two :
    Keyed (table 3) ∧ QueryPaginates (table 3) CollectorExample.owner { limit := 2 } :=
  ⟨keyed_table 3, (queryPages_iff (keyed_table 3) _ _).2 (.inl ⟨by decide, by decide⟩)⟩

open PagesExample in
/-- Of 1001 rows, a request for 5000 gets 1000 and no cursor. -/
theorem queryPages_cut : ¬ QueryPaginates (table 1001) CollectorExample.owner { limit := 5000 } := by
  have hout : ¬ ((1 : Int) ≤ 5000 ∧ (5000 : Int) ≤ 1000) := by decide
  rw [queryPaginates_single_iff hout, selectedRows_table]
  decide

end Collector
end ControlDB
