import ControlDB.Library.Runs
import ControlDB.TypeScript.Run

/-!
# The delivery of events

Requests overlap: a batch is in flight while later events fill the buffer again, and nothing keeps the
next flush from starting.  No event is lost or delivered twice; the order of the events survives as
long as the batch that arrives is the oldest of those under way.
-/

namespace ControlDB
namespace TypeScript

open Library
open scoped List

/-! ## Parts of a sorted list -/

/-- A list that is split anyhow starts with one of the parts exactly if that part is in order and comes
before the other. -/
theorem prefix_iff_of_perm {α : Type*} {r : α → α → Prop} (hasymm : ∀ {a b}, r a b → ¬ r b a)
    {l xs ys : List α} (hl : l.Pairwise r) (hperm : xs ++ ys ~ l) :
    xs <+: l ↔ xs.Pairwise r ∧ ∀ x ∈ xs, ∀ y ∈ ys, r x y := by
  constructor
  · rintro ⟨rest, rfl⟩
    have hrest : ys.Perm rest := (List.perm_append_left_iff xs).1 hperm
    rcases List.pairwise_append.1 hl with ⟨hxs, _, hcross⟩
    exact ⟨hxs, fun x hx y hy => hcross x hx y (hrest.mem_iff.1 hy)⟩
  · rintro ⟨hxs, hcross⟩
    -- the other part, in the order of the whole
    have hsub : ys.Subperm l := (List.sublist_append_right xs ys).subperm.trans hperm.subperm
    rcases hsub with ⟨ys', hys', hsublist⟩
    have hsorted : (xs ++ ys').Pairwise r := by
      refine List.pairwise_append.2 ⟨hxs, hl.sublist hsublist, fun x hx y hy => ?_⟩
      exact hcross x hx y (hys'.mem_iff.1 hy)
    have heq : xs ++ ys' = l := by
      apply @List.Perm.eq_of_pairwise α r
      · exact fun a b _ _ hab hba => absurd hba (hasymm hab)
      · exact hsorted
      · exact hl
      · exact (hys'.append_left xs).trans hperm
    exact ⟨ys', heq⟩

theorem perm_cons_eraseIdx {α : Type*} {l : List α} {k : Nat} {a : α} (hk : l[k]? = some a) :
    l ~ a :: l.eraseIdx k := by
  rcases List.getElem?_eq_some_iff.1 hk with ⟨hlt, rfl⟩
  calc l = l.take k ++ l[k] :: l.drop (k + 1) := by
        rw [List.getElem_cons_drop, List.take_append_drop]
    _ ~ l[k] :: (l.take k ++ l.drop (k + 1)) := List.perm_middle
    _ = l[k] :: l.eraseIdx k := by rw [List.eraseIdx_eq_take_drop_succ]

/-! ## Where the events are -/

def Earlier (a b : EventObject) : Prop :=
  a.number < b.number

/-- The events that are under way or wait. -/
def Queue.pending (q : Queue) : List EventObject :=
  (q.inFlight.map Post.events).flatten ++ q.buffer

/-- The collector has the first events that were emitted, in the order of their emission. -/
def InOrder (s : RunState) : Prop :=
  s.queue.delivered <+: s.queue.emitted

/-- Every event was delivered or is pending, once, and its number is its place. -/
structure Accounted (q : Queue) : Prop where
  all : q.delivered ++ q.pending ~ q.emitted
  numbered : q.emitted.map EventObject.number = List.range q.emitted.length

/-- The events of the batch are in order, and older than all others that are pending. -/
structure Oldest (q : Queue) (k : Nat) (post : Post) : Prop where
  sorted : post.events.Pairwise Earlier
  before : ∀ event ∈ post.events,
    ∀ other ∈ ((q.inFlight.eraseIdx k).map Post.events).flatten ++ q.buffer, Earlier event other

/-- A batch is delivered only if it is the oldest. -/
def OldestFirst (s : RunState) : Step → Prop
  | .settle k .delivered => ∀ post, s.queue.inFlight[k]? = some post → Oldest s.queue k post
  | _ => True

theorem accounted_init : Accounted {} where
  all := List.Perm.refl _
  numbered := rfl

theorem Accounted.sorted {q : Queue} (h : Accounted q) : q.emitted.Pairwise Earlier := by
  have hrange : (q.emitted.map EventObject.number).Pairwise (· < ·) := by
    rw [h.numbered]
    exact List.pairwise_lt_range
  rw [List.pairwise_map] at hrange
  exact hrange

/-! ## The operations -/

section Operations

variable {client : Client} {run : RunOptions} {q : Queue}

theorem Accounted.push (h : Accounted q) (members : List (JsString × JsValue)) :
    Accounted (q.push members) where
  all := by
    have hevent := h.all.append_right [(⟨q.emitted.length, members⟩ : EventObject)]
    unfold Queue.pending at hevent
    rw [List.append_assoc, List.append_assoc] at hevent
    exact hevent
  numbered := by
    have hlength : (q.push members).emitted.length = q.emitted.length + 1 := List.length_append
    rw [hlength, List.range_succ, ← h.numbered]
    exact List.map_append

theorem pending_flush (run : RunOptions) (q : Queue) : (q.flush run).pending = q.pending := by
  unfold Queue.flush
  split_ifs with hempty
  · rfl
  · simp [Queue.pending]

theorem delivered_flush (run : RunOptions) (q : Queue) :
    (q.flush run).delivered = q.delivered ∧ (q.flush run).emitted = q.emitted := by
  unfold Queue.flush
  split_ifs with hempty
  · exact ⟨rfl, rfl⟩
  · exact ⟨rfl, rfl⟩

theorem Accounted.flush (h : Accounted q) (run : RunOptions) : Accounted (q.flush run) where
  all := by
    rw [pending_flush, (delivered_flush run q).1, (delivered_flush run q).2]
    exact h.all
  numbered := by
    rw [(delivered_flush run q).2]
    exact h.numbered

/-- The batch that settles, and the rest of what is pending. -/
theorem pending_perm {k : Nat} {post : Post} (hk : q.inFlight[k]? = some post) :
    q.pending ~ post.events ++ (((q.inFlight.eraseIdx k).map Post.events).flatten ++ q.buffer) := by
  have hflat := ((perm_cons_eraseIdx hk).map Post.events).flatten
  rw [List.map_cons, List.flatten_cons] at hflat
  unfold Queue.pending
  rw [← List.append_assoc]
  exact hflat.append_right q.buffer

theorem settle_none {k : Nat} (hk : q.inFlight[k]? = none) (outcome : Outcome) :
    q.settle client k outcome = q := by
  unfold Queue.settle
  rw [hk]

theorem settle_delivered {k : Nat} {post : Post} (hk : q.inFlight[k]? = some post) :
    q.settle client k .delivered =
      { q with
        inFlight := q.inFlight.eraseIdx k
        delivered := q.delivered ++ post.events } := by
  unfold Queue.settle
  rw [hk]
  rfl

/-- Without a spool, and not fail-open, a batch that fails is put back in front. -/
theorem settle_failed (hspool : client.hasSpool = false) (hopen : client.failOpen = false) {k : Nat}
    {post : Post} (hk : q.inFlight[k]? = some post) :
    q.settle client k .failed =
      { q with inFlight := q.inFlight.eraseIdx k, buffer := post.events ++ q.buffer } := by
  unfold Queue.settle postReturns
  rw [hk, hspool, hopen]
  rfl

theorem Accounted.settle (hspool : client.hasSpool = false) (hopen : client.failOpen = false)
    (h : Accounted q) (k : Nat) (outcome : Outcome) : Accounted (q.settle client k outcome) := by
  cases hk : q.inFlight[k]? with
  | none =>
      rw [settle_none hk]
      exact h
  | some post =>
      have hpending := pending_perm hk
      cases outcome with
      | delivered =>
          rw [settle_delivered hk]
          refine ⟨?_, h.numbered⟩
          calc q.delivered ++ post.events ++
                (((q.inFlight.eraseIdx k).map Post.events).flatten ++ q.buffer)
              = q.delivered ++ (post.events ++
                (((q.inFlight.eraseIdx k).map Post.events).flatten ++ q.buffer)) :=
                List.append_assoc _ _ _
            _ ~ q.delivered ++ q.pending := hpending.symm.append_left _
            _ ~ q.emitted := h.all
      | failed =>
          rw [settle_failed hspool hopen hk]
          refine ⟨?_, h.numbered⟩
          calc q.delivered ++
                (((q.inFlight.eraseIdx k).map Post.events).flatten ++ (post.events ++ q.buffer))
              ~ q.delivered ++ (post.events ++
                (((q.inFlight.eraseIdx k).map Post.events).flatten ++ q.buffer)) :=
                (List.perm_append_comm_assoc _ _ _).append_left _
            _ ~ q.delivered ++ q.pending := hpending.symm.append_left _
            _ ~ q.emitted := h.all

/-- A batch that is delivered continues what the collector has exactly if it is the oldest. -/
theorem delivered_prefix_iff (h : Accounted q) (horder : q.delivered <+: q.emitted) {k : Nat}
    {post : Post} (hk : q.inFlight[k]? = some post) :
    q.delivered ++ post.events <+: q.emitted ↔ Oldest q k post := by
  have hasymm : ∀ {a b : EventObject}, Earlier a b → ¬ Earlier b a :=
    fun hab hba => Nat.lt_asymm hab hba
  rcases horder with ⟨rest, hrest⟩
  have hsorted : rest.Pairwise Earlier := by
    have hall := h.sorted
    rw [← hrest] at hall
    exact (List.pairwise_append.1 hall).2.1
  have hpending : post.events ++
      (((q.inFlight.eraseIdx k).map Post.events).flatten ++ q.buffer) ~ rest := by
    have hall := h.all
    rw [← hrest] at hall
    exact (pending_perm hk).symm.trans ((List.perm_append_left_iff q.delivered).1 hall)
  rw [← hrest, List.prefix_append_right_inj, prefix_iff_of_perm hasymm hsorted hpending]
  exact ⟨fun ⟨h₁, h₂⟩ => ⟨h₁, h₂⟩, fun h => ⟨h.sorted, h.before⟩⟩

/-- Nothing is pending once a last flush has arrived. -/
theorem pending_flush_settle (client : Client) (run : RunOptions) (hsettled : q.inFlight = []) :
    ((q.flush run).settle client 0 .delivered).pending = [] ∧
      ((q.flush run).settle client 0 .delivered).emitted = q.emitted := by
  by_cases hempty : q.buffer.isEmpty = true
  · have hbuffer : q.buffer = [] := List.isEmpty_iff.1 hempty
    have hflush : q.flush run = q := if_pos hempty
    have hnone : q.inFlight[0]? = none := by rw [hsettled]; rfl
    rw [hflush, settle_none hnone]
    refine ⟨?_, rfl⟩
    unfold Queue.pending
    rw [hsettled, hbuffer]
    rfl
  · have hflush : q.flush run =
        { q with buffer := [], inFlight := [⟨q.buffer, batchKey run q.buffer⟩] } := by
      unfold Queue.flush
      rw [if_neg hempty, hsettled]
      rfl
    have hpost : (q.flush run).inFlight[0]? = some ⟨q.buffer, batchKey run q.buffer⟩ := by
      rw [hflush]
      rfl
    rw [settle_delivered hpost, hflush]
    exact ⟨rfl, rfl⟩

end Operations

/-! ## Steps -/

section Steps

variable {env : Env} {client : Client} {run : RunOptions} {s : RunState}

/-- An event that is built is put into the buffer, and may start a flush. -/
theorem queue_emit (env : Env) (client : Client) (run : RunOptions) (s : RunState) (e : Emission) :
    (emit env client run s e).queue = s.queue ∨
      ∃ members, (emit env client run s e).queue = s.queue.push members ∨
        (emit env client run s e).queue = (s.queue.push members).flush run := by
  unfold emit
  rcases buildEvent env client run s.chain e with ⟨chain, built⟩
  cases built with
  | error x => exact .inl rfl
  | ok members =>
      right
      refine ⟨members, ?_⟩
      dsimp only
      split_ifs with hfull
      · exact .inr rfl
      · exact .inl rfl

theorem accounted_step (hspool : client.hasSpool = false) (hopen : client.failOpen = false)
    (h : Accounted s.queue) (a : Step) : Accounted (step env client run s a).queue := by
  cases a with
  | emit e =>
      show Accounted (emit env client run s e).queue
      rcases queue_emit env client run s e with hsame | ⟨members, hpush | hflush⟩
      · rw [hsame]
        exact h
      · rw [hpush]
        exact h.push members
      · rw [hflush]
        exact (h.push members).flush run
  | flush => exact h.flush run
  | settle k outcome => exact h.settle hspool hopen k outcome

/-- A step that delivers nothing keeps the order. -/
theorem InOrder.mono {s' : RunState} (h : InOrder s)
    (hdelivered : s'.queue.delivered = s.queue.delivered)
    (hemitted : s.queue.emitted <+: s'.queue.emitted) : InOrder s' := by
  unfold InOrder
  rw [hdelivered]
  exact h.trans hemitted

/-- A step that neither delivers nor emits keeps the order. -/
theorem InOrder.congr {s' : RunState} (h : InOrder s)
    (hdelivered : s'.queue.delivered = s.queue.delivered)
    (hemitted : s'.queue.emitted = s.queue.emitted) : InOrder s' :=
  h.mono hdelivered (hemitted ▸ List.prefix_rfl)

/-- Step lemma. -/
theorem inOrder_step_iff (hspool : client.hasSpool = false) (hopen : client.failOpen = false)
    (haccounted : Accounted s.queue) (h : InOrder s) (a : Step) :
    InOrder (step env client run s a) ↔ OldestFirst s a := by
  cases a with
  | emit e =>
      refine iff_of_true ?_ trivial
      show InOrder (emit env client run s e)
      have hpush : ∀ members, s.queue.emitted <+: (s.queue.push members).emitted :=
        fun members => List.prefix_append _ _
      rcases queue_emit env client run s e with hsame | ⟨members, hqueue | hqueue⟩
      · exact h.congr (congrArg Queue.delivered hsame) (congrArg Queue.emitted hsame)
      · exact h.mono (by rw [hqueue]; rfl) (by rw [hqueue]; exact hpush members)
      · rcases delivered_flush run (s.queue.push members) with ⟨hdelivered, hemitted⟩
        exact h.mono (by rw [hqueue, hdelivered]; rfl)
          (by rw [hqueue, hemitted]; exact hpush members)
  | flush =>
      refine iff_of_true ?_ trivial
      rcases delivered_flush run s.queue with ⟨hdelivered, hemitted⟩
      exact h.congr hdelivered hemitted
  | settle k outcome =>
      cases hk : s.queue.inFlight[k]? with
      | none =>
          have hsame : (step env client run s (.settle k outcome)).queue = s.queue :=
            settle_none hk outcome
          refine iff_of_true
            (h.congr (congrArg Queue.delivered hsame) (congrArg Queue.emitted hsame)) ?_
          cases outcome with
          | delivered => exact fun post hpost => by rw [hk] at hpost; cases hpost
          | failed => trivial
      | some post =>
          cases outcome with
          | failed =>
              refine iff_of_true ?_ trivial
              have hqueue : (step env client run s (.settle k .failed)).queue = _ :=
                settle_failed hspool hopen hk
              exact h.congr (by rw [hqueue]) (by rw [hqueue])
          | delivered =>
              have hqueue : (step env client run s (.settle k .delivered)).queue = _ :=
                settle_delivered hk
              unfold InOrder
              rw [hqueue]
              dsimp only
              rw [delivered_prefix_iff haccounted h hk]
              constructor
              · intro holdest post' hpost'
                rw [← Option.some.inj (hk.symm.trans hpost')]
                exact holdest
              · exact fun holdest => holdest post hk

end Steps

namespace DeliveryExample

/-- SHA-256 of the texts that occur, told apart by their lengths. -/
def sha256 (data : Bytes) : Vector UInt8 32 :=
  if data.length = 2 then
    Vector.ofFn fun i =>
      [0x44, 0x13, 0x6f, 0xa3, 0x55, 0xb3, 0x67, 0x8a, 0x11, 0x46, 0xad, 0x16,
        0xf7, 0xe8, 0x64, 0x9e, 0x94, 0xfb, 0x4f, 0xc2, 0x1f, 0xe7, 0x7e, 0x83,
        0x10, 0xc0, 0x60, 0xf6, 0x1c, 0xaa, 0xff, 0x8a].getD i 0
  else if data.length = 586 then
    #v[0x94, 0x5b, 0x43, 0x29, 0x7f, 0xd5, 0xc2, 0x2e, 0x03, 0x9e, 0x12, 0xec,
      0x04, 0x1c, 0x22, 0x64, 0x0a, 0x10, 0x7c, 0x6e, 0x96, 0x5a, 0xc3, 0xe0,
      0x2a, 0x29, 0x63, 0x0b, 0x9c, 0x20, 0xbc, 0xb3]
  else
    #v[0x0f, 0x60, 0xe1, 0xa1, 0xb5, 0xce, 0x16, 0xe4, 0xef, 0x49, 0x1e, 0xcc,
      0x3d, 0xd4, 0x0b, 0xd3, 0xe9, 0x30, 0x34, 0xf7, 0x04, 0xb8, 0x9e, 0x70,
      0x1b, 0x98, 0x91, 0xd5, 0x82, 0x13, 0xb3, 0xf2]

def env : Env where
  sha256 := sha256
  applyRedaction := .ok
  eventId n := units "evt_" ++ integerText (n + 1)
  utcNowIso _ := units "2026-05-13T12:00:00.000Z"

/-- Every event is a batch of its own. -/
def client : Client where
  orgId := units "org_default"
  project := units "proj_default"
  environment := units "dev"
  defaultPayloadMode := units "redacted_payload"
  hasRedactionRules := false
  batchSize := 1
  failOpen := false
  hasSpool := false

def run : RunOptions where
  runId := units "run_1"
  agentId := units "repeat-agent"
  agentVersion := none
  environment := none
  traceId := none

/-- `run._emit("memory.write", {})`. -/
def write : Step :=
  .emit { eventType := units "memory.write", payload := .obj [] }

end DeliveryExample

end TypeScript
end ControlDB
