import ControlDB.Sdk.Transport

/-!
# The offline spool

`Spool` and `flush_spool` of the two SDKs, and when a flush loses an entry.  The lines of the spool
file stand for what `json.loads` and `JSON.parse` make of them; `write` is taken to be on disk when
the next call starts, and only the requests fail.
-/

namespace ControlDB
namespace Sdk

open Library Python Http

/-! ## Splitting a list in two -/

section Splits

variable {α : Type}

/-- Every item of `items` is in one of two lists: `taken`, in any order, or `kept`, in the order
they had. -/
def Splits (items taken kept : List α) : Prop :=
  ∃ marked : List (α × Bool), marked.map Prod.fst = items ∧
    taken.Perm ((marked.filter fun m => m.2).map Prod.fst) ∧
    kept = (marked.filter fun m => !m.2).map Prod.fst

theorem Splits.length_eq {items taken kept : List α} (h : Splits items taken kept) :
    items.length = taken.length + kept.length := by
  rcases h with ⟨marked, rfl, htaken, rfl⟩
  have hsum := List.length_eq_length_filter_add (l := marked) fun m => m.2
  simpa [htaken.length_eq] using hsum

theorem splits_none_taken (items : List α) : Splits items [] items := by
  refine ⟨items.map fun x => (x, false), ?_, ?_, ?_⟩ <;> simp [Function.comp_def, List.filter_map]

theorem splits_append (taken kept : List α) : Splits (taken ++ kept) taken kept := by
  refine ⟨taken.map (fun x => (x, true)) ++ kept.map fun x => (x, false), ?_, ?_, ?_⟩ <;>
    simp [Function.comp_def, List.filter_map]

end Splits

/-! ## The spool file -/

/-- A line of the spool file. -/
inductive Line
  | blank
  | entry (value : PyJson)
  | malformed (line : String)

def Line.isMalformed : Line → Bool
  | .malformed _ => true
  | _ => false

def Line.entry? : Line → Option PyJson
  | .entry value => some value
  | _ => none

/-- The spool file, or `none` where it does not exist. -/
abbrev SpoolFile := Option (List Line)

namespace SpoolFile

def entries (file : SpoolFile) : List PyJson :=
  (file.getD []).filterMap Line.entry?

/-- `Spool.write` appends a line to the file, and makes the file if there is none. -/
def write (file : SpoolFile) (entry : PyJson) : SpoolFile :=
  some (file.getD [] ++ [.entry entry])

@[simp] theorem entries_none : entries none = [] := rfl

@[simp] theorem entries_write (file : SpoolFile) (entry : PyJson) :
    (write file entry).entries = entries file ++ [entry] := by
  simp [write, entries, Line.entry?]

end SpoolFile

/-! ## Flushing -/

/-- The spool file, the entries accepted so far and their number, `flushed`. -/
structure FlushState where
  file : SpoolFile
  accepted : List PyJson
  flushed : Nat

section Loop

variable (send : Nat → PyJson → Except SdkError PyJson)

/-- The loop of `flush_spool`: `send i` makes the requests for the entry in place `i`. -/
def flushLoop : List PyJson → FlushState → FlushState
  | [], state => state
  | entry :: rest, state =>
      -- no request has failed so far, so `flushed` entries precede this one
      match send state.flushed entry with
      | .ok _ => flushLoop rest
          { state with accepted := state.accepted ++ [entry], flushed := state.flushed + 1 }
      | .error _ => { state with file := state.file.write entry }

/-- The entry in place `i` is accepted if it is sent. -/
def Sends (i : Nat) (entry : PyJson) : Prop :=
  ∃ doc, send i entry = .ok doc

end Loop

/-- What a flush leaves: the spool file, the entries the collector accepted, and the number returned
or the exception raised. -/
structure Flush where
  file : SpoolFile
  accepted : List PyJson
  result : Except SdkError Nat

def FlushState.finish (state : FlushState) : Flush :=
  { file := state.file, accepted := state.accepted, result := .ok state.flushed }

namespace Py

variable (text : PyJson → String) (maxRetries : Int) (wire : Nat → Nat → HttpRequest → Exchange)

/-- The lines of `drain`, or the exception of `json.loads`. -/
def loadLines : List Line → Except SdkError (List PyJson)
  | [] => .ok []
  | .blank :: rest => loadLines rest
  | .entry value :: rest => (loadLines rest).map (value :: ·)
  | .malformed line :: _ => .error ⟨.other, .str line⟩

/-- `Spool.drain`: the file is removed after all its lines are read. -/
def drain (file : SpoolFile) : Except SdkError (List PyJson × SpoolFile) :=
  match file with
  | none => .ok ([], none)
  | some lines => (loadLines lines).map fun entries => (entries, none)

/-- The request for an entry with the given `run_id` and `events`. -/
def entryRequest (members : List (String × PyJson)) (runId events : PyJson) : HttpRequest :=
  httpRequest "POST" ("/v1/runs/" ++ format text runId ++ "/events")
    (some (.obj [("events", events)])) (PyJson.get members "idempotency_key")

/-- The body of the loop in `flush_spool`: an entry without `run_id` or `events` raises before
anything is sent. -/
def sendEntry (i : Nat) : PyJson → Except SdkError PyJson
  | .obj members =>
      match members.lookup "run_id", members.lookup "events" with
      | some runId, some events =>
          request text maxRetries (wire i) (entryRequest text members runId events) true
      | none, _ => .error ⟨.other, .str "run_id"⟩
      | _, none => .error ⟨.other, .str "events"⟩
  | _ => .error ⟨.other, .str "run_id"⟩

/-- `Transport.flush_spool`, on a transport with a spool. -/
def flushSpool (file : SpoolFile) : Flush :=
  match drain file with
  | .error e => { file := file, accepted := [], result := .error e }
  | .ok (drained, file) =>
      (flushLoop (sendEntry text maxRetries wire) drained
        { file := file, accepted := [], flushed := 0 }).finish

end Py

namespace Ts

variable (text : PyJson → String) (maxRetries : Int) (wire : Nat → Nat → HttpRequest → Exchange)

/-- `Spool.drain`: the file is removed first, and malformed lines are skipped. -/
def drain : SpoolFile → List PyJson × SpoolFile
  | none => ([], none)
  | some lines => (lines.filterMap Line.entry?, none)

/-- `entry[key]`; a value without members has none, and only `null` raises. -/
def member (key : String) : PyJson → Option PyJson
  | .obj members => members.lookup key
  | _ => none

/-- `${value}` in a template. -/
def format : Option PyJson → String
  | none => "undefined"
  | some (.leaf (.str s)) => s
  | some value => text value

/-- The request for an entry; `JSON.stringify` leaves an absent `events` out. -/
def entryRequest (entry : PyJson) : HttpRequest :=
  httpRequest "POST" ("/v1/runs/" ++ format text (member "run_id" entry) ++ "/events")
    (some (.obj ((member "events" entry).toList.map fun events => ("events", events))))
    ((member "idempotency_key" entry).getD PyJson.none)

/-- The body of the loop in `flushSpool`. -/
def sendEntry (i : Nat) (entry : PyJson) : Except SdkError PyJson :=
  if entry.isNone then .error ⟨.other, .str "run_id"⟩
  else request maxRetries (wire i) (entryRequest text entry) true

/-- `Transport.flushSpool`, on a transport with a spool. -/
def flushSpool (file : SpoolFile) : Flush :=
  let (drained, file) := drain file
  (flushLoop (sendEntry text maxRetries wire) drained
    { file := file, accepted := [], flushed := 0 }).finish

end Ts

/-! ## When a flush loses nothing -/

/-- Each entry of the spool was accepted or is still in the spool, never both, and what is still
there is in the order it had. -/
def LossFree (before : SpoolFile) (after : Flush) : Prop :=
  Splits before.entries after.accepted after.file.entries

section Loop

variable (send : Nat → PyJson → Except SdkError PyJson)

/-- Where the loop stops: after the last entry, or at the first entry that is not sent, which is
the only one to return to the spool. -/
theorem flushLoop_cases (drained : List PyJson) (state : FlushState) :
    ((∀ i entry, drained[i]? = some entry → Sends send (state.flushed + i) entry) ∧
        flushLoop send drained state =
          { file := state.file
            accepted := state.accepted ++ drained
            flushed := state.flushed + drained.length }) ∨
      ∃ sent entry unsent, drained = sent ++ entry :: unsent ∧
        (∀ i e, sent[i]? = some e → Sends send (state.flushed + i) e) ∧
        ¬ Sends send (state.flushed + sent.length) entry ∧
        flushLoop send drained state =
          { file := state.file.write entry
            accepted := state.accepted ++ sent
            flushed := state.flushed + sent.length } := by
  induction drained generalizing state with
  | nil =>
      left
      simp [flushLoop]
  | cons entry rest ih =>
      cases hsend : send state.flushed entry with
      | error e =>
          refine .inr ⟨[], entry, rest, rfl, by simp, ?_, by simp [flushLoop, hsend]⟩
          rintro ⟨doc, hdoc⟩
          simp [hsend] at hdoc
      | ok doc =>
          have hhead : Sends send state.flushed entry := ⟨doc, hsend⟩
          have hshift : ∀ {xs : List PyJson},
              (∀ i e, xs[i]? = some e → Sends send (state.flushed + 1 + i) e) →
              ∀ i e, (entry :: xs)[i]? = some e → Sends send (state.flushed + i) e := by
            intro xs hxs i e hi
            cases i with
            | zero =>
                simp only [List.getElem?_cons_zero, Option.some.injEq] at hi
                exact hi ▸ hhead
            | succ i =>
                have hnext := hxs i e (by simpa using hi)
                rwa [Nat.add_assoc, Nat.add_comm 1 i] at hnext
          rcases ih { state with accepted := state.accepted ++ [entry]
                                 flushed := state.flushed + 1 } with
            ⟨hall, hend⟩ | ⟨sent, stuck, unsent, hsplit, hall, hstuck, hend⟩
          · refine .inl ⟨hshift hall, ?_⟩
            simp [flushLoop, hsend, hend, Nat.add_assoc, Nat.add_comm 1]
          · refine .inr ⟨entry :: sent, stuck, unsent, by simp [hsplit], hshift hall, ?_, ?_⟩
            · simpa [Nat.add_assoc, Nat.add_comm 1] using hstuck
            · simp [flushLoop, hsend, hend, Nat.add_assoc, Nat.add_comm 1]

/-- Nothing is lost exactly when every entry but the last is sent. -/
theorem flushLoop_splits_iff (drained : List PyJson) :
    Splits drained
        (flushLoop send drained { file := none, accepted := [], flushed := 0 }).accepted
        (flushLoop send drained { file := none, accepted := [], flushed := 0 }).file.entries ↔
      ∀ i entry, i + 1 < drained.length → drained[i]? = some entry → Sends send i entry := by
  rcases flushLoop_cases send drained { file := none, accepted := [], flushed := 0 } with
    ⟨hall, hend⟩ | ⟨sent, stuck, unsent, hsplit, hall, hstuck, hend⟩
  · rw [hend]
    refine iff_of_true ?_ fun i entry _ hi => by simpa using hall i entry hi
    simpa using splits_append drained []
  · rw [hend]
    subst hsplit
    constructor
    · intro hsplits i entry hlt hi
      -- one entry is back in the spool, so none was left behind it
      have hlength := hsplits.length_eq
      simp only [List.nil_append, List.length_append, List.length_cons,
        SpoolFile.entries_write, SpoolFile.entries_none, List.length_nil] at hlength hlt
      have hsent : sent[i]? = some entry := by
        rwa [List.getElem?_append_left (by omega)] at hi
      simpa using hall i entry hsent
    · intro hsends
      cases unsent with
      | nil => simpa using splits_append sent [stuck]
      | cons next rest =>
          refine absurd (hsends sent.length stuck (by simp) (by simp)) ?_
          simpa using hstuck

end Loop

/-- The requests for the entry in place `i` bring it to the collector. -/
def Py.Deliverable (text : PyJson → String) (maxRetries : Int)
    (wire : Nat → Nat → HttpRequest → Exchange) (i : Nat) (entry : PyJson) : Prop :=
  ∃ members runId events, entry = .obj members ∧
    members.lookup "run_id" = some runId ∧ members.lookup "events" = some events ∧
    Delivers (Py.judge text)
      (fun attempt => wire i attempt (Py.entryRequest text members runId events))
      maxRetries.toNat 0

@[inherit_doc Py.Deliverable]
def Ts.Deliverable (text : PyJson → String) (maxRetries : Int)
    (wire : Nat → Nat → HttpRequest → Exchange) (i : Nat) (entry : PyJson) : Prop :=
  entry.isNone = false ∧
    Delivers Ts.judge (fun attempt => wire i attempt (Ts.entryRequest text entry))
      maxRetries.toNat 0

section Flush

variable (text : PyJson → String) (maxRetries : Int) (wire : Nat → Nat → HttpRequest → Exchange)

theorem Py.sends_iff (i : Nat) (entry : PyJson) :
    Sends (Py.sendEntry text maxRetries wire) i entry ↔
      Py.Deliverable text maxRetries wire i entry := by
  cases entry with
  | leaf l => simp [Sends, Py.sendEntry, Py.Deliverable]
  | arr items => simp [Sends, Py.sendEntry, Py.Deliverable]
  | obj members =>
      cases hrun : members.lookup "run_id" with
      | none => simp [Sends, Py.sendEntry, Py.Deliverable, hrun]
      | some runId =>
          cases hevents : members.lookup "events" with
          | none => simp [Sends, Py.sendEntry, Py.Deliverable, hrun, hevents]
          | some events =>
              simp [Sends, Py.sendEntry, Py.Deliverable, Py.request, hrun, hevents,
                attemptLoop_ok_iff]

theorem Ts.sends_iff (i : Nat) (entry : PyJson) :
    Sends (Ts.sendEntry text maxRetries wire) i entry ↔
      Ts.Deliverable text maxRetries wire i entry := by
  cases hnull : entry.isNone with
  | true => simp [Sends, Ts.sendEntry, Ts.Deliverable, hnull]
  | false => simp [Sends, Ts.sendEntry, Ts.Deliverable, Ts.request, hnull, attemptLoop_ok_iff]

/-- `drain` reads a file to its end exactly when no line is malformed. -/
theorem Py.loadLines_ok (lines : List Line) (h : ∀ line ∈ lines, line.isMalformed = false) :
    Py.loadLines lines = .ok (lines.filterMap Line.entry?) := by
  induction lines with
  | nil => rfl
  | cons line rest ih =>
      have hrest := ih fun l hl => h l (List.mem_cons_of_mem _ hl)
      cases line with
      | blank => simp [Py.loadLines, Line.entry?, hrest, List.filterMap_cons]
      | entry value => simp [Py.loadLines, Line.entry?, hrest, Except.map]
      | malformed line => simpa [Line.isMalformed] using h _ List.mem_cons_self

theorem Py.loadLines_error {lines : List Line} (h : ∃ line ∈ lines, line.isMalformed = true) :
    ∃ e, Py.loadLines lines = .error e := by
  induction lines with
  | nil => simp at h
  | cons line rest ih =>
      cases line with
      | malformed line => exact ⟨_, rfl⟩
      | blank =>
          -- the loop goes on to the line that raises
          have hrest : ∃ line ∈ rest, line.isMalformed = true := by
            simpa [Line.isMalformed] using h
          exact ih hrest
      | entry value =>
          have hrest : ∃ line ∈ rest, line.isMalformed = true := by
            simpa [Line.isMalformed] using h
          rcases ih hrest with ⟨e, he⟩
          exact ⟨e, by simp [Py.loadLines, he, Except.map]⟩

theorem Py.lossFree_iff (file : SpoolFile) :
    LossFree file (Py.flushSpool text maxRetries wire file) ↔
      (∃ line ∈ file.getD [], line.isMalformed = true) ∨
        ∀ i entry, i + 1 < file.entries.length → file.entries[i]? = some entry →
          Py.Deliverable text maxRetries wire i entry := by
  by_cases hbad : ∃ line ∈ file.getD [], line.isMalformed = true
  · -- the exception of `drain` leaves the file as it was
    refine iff_of_true ?_ (.inl hbad)
    cases file with
    | none => simp at hbad
    | some lines =>
        have hlines : ∃ line ∈ lines, line.isMalformed = true := hbad
        rcases Py.loadLines_error hlines with ⟨e, he⟩
        simpa [LossFree, Py.flushSpool, Py.drain, he, Except.map] using splits_none_taken _
  · have hgood : ∀ line ∈ file.getD [], line.isMalformed = false := by
      simpa using hbad
    have hdrain : Py.drain file = .ok (file.entries, none) := by
      cases file with
      | none => rfl
      | some lines => simp [Py.drain, Py.loadLines_ok lines hgood, SpoolFile.entries, Except.map]
    simp only [hbad, false_or, LossFree, Py.flushSpool, hdrain, FlushState.finish,
      flushLoop_splits_iff, Py.sends_iff]

theorem Ts.lossFree_iff (file : SpoolFile) :
    LossFree file (Ts.flushSpool text maxRetries wire file) ↔
      ∀ i entry, i + 1 < file.entries.length → file.entries[i]? = some entry →
        Ts.Deliverable text maxRetries wire i entry := by
  have hdrain : Ts.drain file = (file.entries, none) := by
    cases file with
    | none => rfl
    | some lines => rfl
  simp only [LossFree, Ts.flushSpool, hdrain, FlushState.finish, flushLoop_splits_iff,
    Ts.sends_iff]

end Flush

/-! ## A collector that cannot be reached -/

def spooledBatch (runId : String) : Line :=
  .entry (.obj
    [("run_id", PyJson.str runId), ("events", .arr []), ("idempotency_key", PyJson.none)])

def unreachable (_ _ : Nat) (_ : HttpRequest) : Exchange :=
  .httpError "connection refused"

end Sdk
end ControlDB
