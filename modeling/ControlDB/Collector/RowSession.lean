import ControlDB.Library.AssocList
import ControlDB.Library.Runs
import ControlDB.Library.SortedMap
import ControlDB.Python.Dumps

/-!
# Rows of the RocksDB backend in sessions

`_RocksSession` of `storage/rocksdb_backend.py` as the services use it: rows are obtained with
`session.get`, their attributes are assigned, and new rows are added.  What a session writes at its
end are the objects that were added, as they are then; an object that `get` returned is not among
them, and one of a SQLAlchemy class is passed over by `_write_obj`.

Event rows go to columns of their own, and so do the indexes; `get` reads neither.
-/

namespace ControlDB
namespace Collector
namespace RowSession

open Library Python
open PyObject (dumps loads loadsMembers isJson)

/-! ## Rows -/

/-- The classes that `_get_by_pk` builds rows of. -/
inductive RowClass
  | agentRun
  | approval
  deriving DecidableEq, Repr

/-- The attributes of `__init__`, with the values they have by default. -/
def RowClass.attributes : RowClass → List (String × PyObject)
  | .agentRun =>
      [("run_id", .str ""), ("org_id", .str ""), ("project_id", .str ""),
        ("environment", .str "dev"), ("agent_id", .str ""), ("agent_version", .none),
        ("status", .str "running"), ("metadata_json", .dict []), ("started_at", .none),
        ("ended_at", .none), ("last_event_hash", .none), ("event_count", .int 0)]
  | .approval =>
      [("approval_id", .str ""), ("run_id", .str ""), ("org_id", .str ""), ("project_id", .str ""),
        ("policy_id", .none), ("requested_by", .none), ("reviewer_id", .none),
        ("status", .str "requested"), ("reason", .none), ("input_json", .none),
        ("created_at", .none), ("decided_at", .none)]

/-- `__pk__`. -/
def RowClass.pk : RowClass → String
  | .agentRun => "run_id"
  | .approval => "approval_id"

/-- The attributes that `AgentRunRow.to_dict` writes as texts. -/
def times : List String :=
  ["started_at", "ended_at"]

/-- An `AgentRunRow` or an `ApprovalRow`. -/
structure Row where
  cls : RowClass
  attrs : List (String × PyObject)
  named : attrs.map Prod.fst = cls.attributes.map Prod.fst

/-- What the standard library makes of a value: `datetime.fromisoformat` and `datetime.timestamp`,
`none` where they raise, and `str` of a value that is neither a text nor a datetime. -/
structure Builtins where
  fromisoformat : String → Option DateTime
  timestamp : DateTime → Option Int
  str : PyObject → String

/-- `str(value)`. -/
def Builtins.text (b : Builtins) : PyObject → String
  | .leaf (.str s) => s
  | .datetime t => t.str
  | v => b.str v

/-- `_iso`. -/
def Builtins.iso (b : Builtins) : PyObject → PyObject
  | .leaf .none => .none
  | .datetime t => .str t.isoformat
  | v => .str (b.text v)

/-- `_dt`, on what `json.loads` returns. -/
def Builtins.dt (b : Builtins) : PyObject → Option PyObject
  | .leaf .none => some .none
  | v => (b.fromisoformat (b.text v)).map .datetime

/-- `dict.get(key)`. -/
def getKey (d : List (String × PyObject)) (key : String) : PyObject :=
  (d.lookup key).getD .none

namespace Row

/-- `__init__`. -/
def init (cls : RowClass) (kw : List (String × PyObject)) : Row where
  cls := cls
  attrs := cls.attributes.map fun a => (a.1, (kw.lookup a.1).getD a.2)
  named := by simp [Function.comp_def]

def get (row : Row) (name : String) : PyObject :=
  getKey row.attrs name

/-- `row.name = value`, for an attribute of `__init__`. -/
def assign (row : Row) (name : String) (value : PyObject) : Row where
  cls := row.cls
  attrs := row.attrs.map fun a => (a.1, if a.1 = name then value else a.2)
  named := by simpa [Function.comp_def] using row.named

def toDict (b : Builtins) (row : Row) : List (String × PyObject) :=
  match row.cls with
  | .agentRun => row.attrs.map fun a => (a.1, if a.1 ∈ times then b.iso a.2 else a.2)
  | .approval => row.attrs

def fromDict (b : Builtins) (cls : RowClass) (d : List (String × PyObject)) : Option Row :=
  match cls with
  | .agentRun =>
      match b.dt (getKey d "started_at"), b.dt (getKey d "ended_at") with
      | some started, some ended =>
          some (((init .agentRun (d.filter fun a => decide (a.1 ∉ times))).assign
            "started_at" started).assign "ended_at" ended)
      | _, _ => none
  | .approval => some (init .approval d)

end Row

/-! ## Columns -/

structure RowKey where
  cls : RowClass
  pk : String
  deriving DecidableEq, Repr

/-- The document that the text of a row is of. -/
abbrev Doc := List (String × PyJson)

structure Columns where
  runs : SortedMap String Doc := .empty
  approvals : SortedMap String Doc := .empty

namespace Columns

def get (columns : Columns) (key : RowKey) : Option Doc :=
  match key.cls with
  | .agentRun => columns.runs.get key.pk
  | .approval => columns.approvals.get key.pk

def put (columns : Columns) (key : RowKey) (doc : Doc) : Columns :=
  match key.cls with
  | .agentRun => { columns with runs := columns.runs.put key.pk doc }
  | .approval => { columns with approvals := columns.approvals.put key.pk doc }

/-- A batch is written as a whole. -/
def write (columns : Columns) (batch : List (RowKey × Doc)) : Columns :=
  batch.foldl (fun columns p => columns.put p.1 p.2) columns

theorem get_put (columns : Columns) (key key' : RowKey) (doc : Doc) :
    (columns.put key doc).get key' = if key' = key then some doc else columns.get key' := by
  rcases key with ⟨cls, pk⟩
  rcases key' with ⟨cls', pk'⟩
  cases cls <;> cases cls' <;> simp [get, put, SortedMap.get_put]

theorem get_write_of_notMem {columns : Columns} {batch : List (RowKey × Doc)} {key : RowKey}
    (h : ∀ p ∈ batch, p.1 ≠ key) : (columns.write batch).get key = columns.get key := by
  induction batch generalizing columns with
  | nil => rfl
  | cons p batch ih =>
      calc (columns.write (p :: batch)).get key
          = ((columns.put p.1 p.2).write batch).get key := rfl
        _ = (columns.put p.1 p.2).get key := ih fun q hq => h q (List.mem_cons_of_mem p hq)
        _ = columns.get key := by rw [get_put, if_neg (h p List.mem_cons_self).symm]

/-- If a batch has one document for a key, that is stored. -/
theorem get_write_of_mem {columns : Columns} {batch : List (RowKey × Doc)} {key : RowKey} {doc : Doc}
    (hone : ∀ p ∈ batch, p.1 = key → p.2 = doc)
    (hsome : columns.get key = some doc ∨ ∃ p ∈ batch, p.1 = key) :
    (columns.write batch).get key = some doc := by
  induction batch generalizing columns with
  | nil => simpa [write] using hsome
  | cons p batch ih =>
      rw [write, List.foldl_cons, ← write]
      refine ih (fun q hq => hone q (List.mem_cons_of_mem p hq)) ?_
      rw [get_put]
      by_cases hkey : key = p.1
      · left
        rw [if_pos hkey, hone p List.mem_cons_self hkey.symm]
      · rw [if_neg hkey]
        rcases hsome with hstored | ⟨q, hq, hkey'⟩
        · exact .inl hstored
        · rcases List.mem_cons.1 hq with rfl | hrest
          · exact absurd hkey'.symm hkey
          · exact .inr ⟨q, hrest, hkey'⟩

end Columns

/-! ## Reading and writing -/

/-- What `session.get` does. -/
inductive Fetched
  | raises
  | missing
  | row (r : Row)

/-- `_get_by_pk`. -/
def fetch (b : Builtins) (columns : Columns) (key : RowKey) : Fetched :=
  match columns.get key with
  | none => .missing
  | some doc =>
      match Row.fromDict b key.cls (loadsMembers doc) with
      | some row => .row row
      | none => .raises

/-- A value that comes back as it is, in this attribute: a time of a run is a datetime or `None`, and
nothing else has a datetime or a tuple in it. -/
def RowClass.Holds (cls : RowClass) (name : String) (v : PyObject) : Prop :=
  if cls = .agentRun ∧ name ∈ times then v = .none ∨ ∃ t, v = .datetime t else isJson v = true

namespace Row

/-- The primary key of a row, if it is a text. -/
def key (row : Row) : Option RowKey :=
  match row.get row.cls.pk with
  | .leaf (.str pk) => some ⟨row.cls, pk⟩
  | _ => none

/-- `row.started_at.timestamp()` returns, or the attribute counts as false. -/
def indexable (b : Builtins) (row : Row) : Bool :=
  match row.cls, row.get "started_at" with
  | .agentRun, .datetime t => (b.timestamp t).isSome
  | .agentRun, v => !v.truthy
  | .approval, _ => true

/-- `json.dumps` has a default for approvals only. -/
def document (b : Builtins) (row : Row) : Option Doc :=
  match row.cls with
  | .agentRun => PyObject.dumpsMembers none (row.toDict b)
  | .approval => PyObject.dumpsMembers (some DateTime.str) (row.toDict b)

/-- `_write_run` and `_write_approval`: what they put under the primary key, or `none` where they
raise. -/
def write (b : Builtins) (row : Row) : Option (RowKey × Doc) :=
  match row.key, row.document b with
  | some key, some doc => if row.indexable b then some (key, doc) else none
  | _, _ => none

/-- The row comes back as it is: the primary key is a text, all values come back, and a start has a
timestamp. -/
structure Storable (b : Builtins) (row : Row) : Prop where
  key : row.key.isSome = true
  values : ∀ a ∈ row.attrs, row.cls.Holds a.1 a.2
  indexable : row.indexable b = true

end Row

/-! ### A row and its document -/

section RoundTrip

variable {b : Builtins} {row : Row}

theorem RowClass.nodup_attributes (cls : RowClass) : (cls.attributes.map Prod.fst).Nodup := by
  cases cls <;> decide

theorem RowClass.isJson_attributes (cls : RowClass) : ∀ a ∈ cls.attributes, isJson a.2 = true := by
  cases cls <;> simp [RowClass.attributes, PyObject.str, PyObject.none, PyObject.int, isJson,
    PyObject.isJsonMembers]

theorem RowClass.holds_time {name : String} (hname : name ∈ times) {v : PyObject} :
    RowClass.agentRun.Holds name v ↔ v = .none ∨ ∃ t, v = .datetime t := by
  rw [RowClass.Holds, if_pos ⟨rfl, hname⟩]

theorem RowClass.holds_other {cls : RowClass} {name : String}
    (hname : cls = .agentRun → name ∉ times) {v : PyObject} :
    cls.Holds name v ↔ isJson v = true := by
  rw [RowClass.Holds, if_neg fun h => hname h.1 h.2]

theorem Row.nodup_attrs (row : Row) : (row.attrs.map Prod.fst).Nodup :=
  row.named ▸ row.cls.nodup_attributes

theorem Row.get_of_mem {a : String × PyObject} (ha : a ∈ row.attrs) : row.get a.1 = a.2 := by
  rw [Row.get, getKey, lookup_of_mem row.nodup_attrs ha]
  rfl

/-- Every attribute of the class is there. -/
theorem Row.mem_attrs {name : String} (hname : name ∈ row.cls.attributes.map Prod.fst) :
    (name, row.get name) ∈ row.attrs := by
  rw [← row.named] at hname
  rcases List.mem_map.1 hname with ⟨a, ha, rfl⟩
  rw [Row.get_of_mem ha]
  exact ha

theorem Row.eq_of_attrs {row row' : Row} (hcls : row.cls = row'.cls) (hattrs : row.attrs = row'.attrs) :
    row = row' := by
  cases row
  cases row'
  cases hcls
  cases hattrs
  rfl

/-- A time that is a datetime or `None` is read back from its text. -/
theorem dt_iso (hiso : ∀ t : DateTime, b.fromisoformat t.isoformat = some t) {v : PyObject}
    (hv : v = .none ∨ ∃ t, v = .datetime t) : b.dt (b.iso v) = some v := by
  rcases hv with rfl | ⟨t, rfl⟩
  · rfl
  · simp [Builtins.iso, PyObject.str, Builtins.dt, Builtins.text, hiso]

theorem isJson_iso (v : PyObject) : isJson (b.iso v) = true := by
  unfold Builtins.iso
  split
  · rw [PyObject.none, isJson]
  · rw [PyObject.str, isJson]
  · rw [PyObject.str, isJson]

theorem Row.toDict_agentRun (hcls : row.cls = .agentRun) : row.toDict b =
    row.attrs.map fun a => (a.1, if a.1 ∈ times then b.iso a.2 else a.2) := by
  simp only [Row.toDict, hcls]

/-- The times of a run are the ones read from their texts. -/
theorem dt_toDict (hiso : ∀ t : DateTime, b.fromisoformat t.isoformat = some t)
    (hrow : row.Storable b) (hcls : row.cls = .agentRun) {name : String} (hname : name ∈ times)
    (hattr : name ∈ row.cls.attributes.map Prod.fst) :
    b.dt (getKey (row.toDict b) name) = some (row.get name) := by
  have hmem := Row.mem_attrs hattr
  have hvalue := hrow.values _ hmem
  rw [hcls, RowClass.holds_time hname] at hvalue
  have hlookup := lookup_map_of_mem Function.injective_id
    (fun a : String × PyObject => if a.1 ∈ times then b.iso a.2 else a.2) row.nodup_attrs hmem
  simp only [id_eq, if_pos hname] at hlookup
  rw [Row.toDict_agentRun hcls, getKey, hlookup]
  exact dt_iso hiso hvalue

/-- What the document of a storable row is loaded as. -/
theorem fromDict_toDict (hiso : ∀ t : DateTime, b.fromisoformat t.isoformat = some t)
    (hrow : row.Storable b) : Row.fromDict b row.cls (row.toDict b) = some row := by
  have hnames : row.cls.attributes.map Prod.fst = row.attrs.map Prod.fst := row.named.symm
  cases hcls : row.cls with
  | approval =>
      have htoDict : row.toDict b = row.attrs := by simp only [Row.toDict, hcls]
      rw [Row.fromDict, htoDict]
      refine congrArg some (Row.eq_of_attrs hcls.symm ?_)
      apply map_values_eq (hcls ▸ hnames) (F := fun name d => (row.attrs.lookup name).getD d)
      intro a ha d
      rw [lookup_of_mem row.nodup_attrs ha]
      rfl
  | agentRun =>
      have hstarted := dt_toDict hiso hrow hcls (by decide : "started_at" ∈ times)
        (by rw [hcls]; decide)
      have hended := dt_toDict hiso hrow hcls (by decide : "ended_at" ∈ times)
        (by rw [hcls]; decide)
      rw [Row.fromDict, hstarted, hended]
      refine congrArg some (Row.eq_of_attrs hcls.symm ?_)
      simp only [Row.init, Row.assign, List.map_map, Function.comp_def]
      apply map_values_eq (hcls ▸ hnames) (F := fun name d =>
        if name = "ended_at" then row.get "ended_at"
        else if name = "started_at" then row.get "started_at"
        else (((row.toDict b).filter fun a => decide (a.1 ∉ times)).lookup name).getD d)
      intro a ha d
      split_ifs with hend hstart
      · rw [← Row.get_of_mem ha, hend]
      · rw [← Row.get_of_mem ha, hstart]
      · -- the other attributes are in the document as they are
        have hother : a.1 ∉ times := by simp [times, hend, hstart]
        have hmem : a ∈ (row.toDict b).filter fun a => decide (a.1 ∉ times) := by
          rw [Row.toDict_agentRun hcls]
          refine List.mem_filter.2 ⟨List.mem_map.2 ⟨a, ha, ?_⟩, by simpa using hother⟩
          rw [if_neg hother]
        have hkeys : (row.toDict b).map Prod.fst = row.attrs.map Prod.fst := by
          rw [Row.toDict_agentRun hcls, List.map_map]
          rfl
        have hnodup : (((row.toDict b).filter fun a => decide (a.1 ∉ times)).map
            Prod.fst).Nodup := by
          refine List.Nodup.sublist (List.filter_sublist.map _) ?_
          rw [hkeys]
          exact row.nodup_attrs
        rw [lookup_of_mem hnodup hmem]
        rfl

theorem Row.cls_of_key {key : RowKey} (hkey : row.key = some key) : key.cls = row.cls := by
  unfold Row.key at hkey
  split at hkey
  · cases hkey
    rfl
  · cases hkey

/-- The texts of times and all other attributes are JSON. -/
theorem Row.Storable.isJson_toDict (hrow : row.Storable b) :
    PyObject.isJsonMembers (row.toDict b) = true := by
  rw [PyObject.isJsonMembers_iff]
  intro a ha
  cases hcls : row.cls with
  | approval =>
      simp only [Row.toDict, hcls] at ha
      have hvalue := hrow.values a ha
      rwa [hcls, RowClass.holds_other fun h => by cases h] at hvalue
  | agentRun =>
      rw [Row.toDict_agentRun hcls] at ha
      rcases List.mem_map.1 ha with ⟨a', ha', rfl⟩
      dsimp only
      split_ifs with htime
      · exact isJson_iso a'.2
      · have hvalue := hrow.values a' ha'
        rwa [hcls, RowClass.holds_other fun _ => htime] at hvalue

/-- A storable row can be written, and its document gives it back. -/
theorem Row.Storable.write (hrow : row.Storable b)
    (hiso : ∀ t : DateTime, b.fromisoformat t.isoformat = some t) :
    ∃ key doc, row.write b = some (key, doc) ∧ row.key = some key ∧
      Row.fromDict b key.cls (loadsMembers doc) = some row := by
  rcases Option.isSome_iff_exists.1 hrow.key with ⟨key, hkey⟩
  have hdocument : ∃ doc, row.document b = some doc ∧ loadsMembers doc = row.toDict b := by
    unfold Row.document
    cases row.cls with
    | agentRun => exact PyObject.exists_dumpsMembers none _ hrow.isJson_toDict
    | approval => exact PyObject.exists_dumpsMembers (some DateTime.str) _ hrow.isJson_toDict
  rcases hdocument with ⟨doc, hdoc, hloads⟩
  refine ⟨key, doc, ?_, hkey, ?_⟩
  · simp only [Row.write, hkey, hdoc, hrow.indexable, if_true]
  · rw [Row.cls_of_key hkey, hloads]
    exact fromDict_toDict hiso hrow

theorem time_of_dt {v w : PyObject} (h : b.dt v = some w) : w = .none ∨ ∃ t, w = .datetime t := by
  unfold Builtins.dt at h
  split at h
  · exact .inl (Option.some.inj h).symm
  · rcases Option.map_eq_some_iff.1 h with ⟨t, _, rfl⟩
    exact .inr ⟨t, rfl⟩

/-- A member that was loaded is JSON, and so is its default. -/
theorem isJson_lookup {doc : Doc} {d : List (String × PyObject)} {name : String} {v : PyObject}
    (hd : ∀ a ∈ d, a ∈ loadsMembers doc) (hv : isJson v = true) :
    isJson ((d.lookup name).getD v) = true := by
  cases hlookup : d.lookup name with
  | none => exact hv
  | some w =>
      have hall := PyObject.isJsonMembers_iff.1 (PyObject.isJson_loadsMembers doc)
      exact hall _ (hd _ (mem_of_lookup hlookup))

/-- All values of a row that was loaded would come back again. -/
theorem holds_of_fromDict {cls : RowClass} {doc : Doc}
    (h : Row.fromDict b cls (loadsMembers doc) = some row) :
    row.cls = cls ∧ ∀ a ∈ row.attrs, cls.Holds a.1 a.2 := by
  cases cls with
  | approval =>
      cases h
      refine ⟨rfl, fun a ha => ?_⟩
      rw [RowClass.holds_other fun h => by cases h]
      rcases List.mem_map.1 ha with ⟨attr, hattr, rfl⟩
      exact isJson_lookup (fun a ha => ha) (RowClass.isJson_attributes _ attr hattr)
  | agentRun =>
      simp only [Row.fromDict] at h
      split at h
      · next started ended hstarted hended =>
          cases h
          refine ⟨rfl, fun a ha => ?_⟩
          simp only [Row.init, Row.assign, List.map_map, Function.comp_def] at ha
          rcases List.mem_map.1 ha with ⟨attr, hattr, rfl⟩
          dsimp only
          split_ifs with hend hstart
          · exact (RowClass.holds_time (by simp [times, hend])).2 (time_of_dt hended)
          · exact (RowClass.holds_time (by simp [times, hstart])).2 (time_of_dt hstarted)
          · rw [RowClass.holds_other fun _ => by simp [times, hend, hstart]]
            exact isJson_lookup (fun a ha => (List.mem_filter.1 ha).1)
              (RowClass.isJson_attributes _ attr hattr)
      · cases h

/-- Rows that `get` returns could be stored again, if their times have timestamps. -/
theorem storable_of_fetch (hstamp : ∀ t, (b.timestamp t).isSome = true) {columns : Columns}
    {key : RowKey} (h : fetch b columns key = .row row) (hkey : row.key.isSome = true) :
    row.Storable b := by
  have hloads : ∃ doc, Row.fromDict b key.cls (loadsMembers doc) = some row := by
    unfold fetch at h
    split at h
    · cases h
    · next doc _ =>
        split at h
        · next r hloads =>
            cases h
            exact ⟨doc, hloads⟩
        · cases h
  rcases hloads with ⟨doc, hloads⟩
  rcases holds_of_fromDict hloads with ⟨hcls, hvalues⟩
  rw [← hcls] at hvalues
  refine ⟨hkey, hvalues, ?_⟩
  unfold Row.indexable
  split
  · exact hstamp _
  · next hrun hnot =>
      -- a start that is no datetime is `None`
      have hvalue : row.cls.Holds "started_at" (row.get "started_at") :=
        hvalues _ (Row.mem_attrs (by rw [hrun]; decide))
      rw [hrun, RowClass.holds_time (by decide)] at hvalue
      rcases hvalue with hnone | ⟨t, ht⟩
      · rw [hnone]
        rfl
      · exact absurd ht (hnot t)
  · rfl

end RoundTrip

/-! ## Sessions -/

/-- An object of a row class, or of the SQLAlchemy class that the services have for it. -/
structure Obj where
  row : Row
  sqlalchemy : Bool := false

/-- What the body of a session does to rows; objects are referred to in the order they came up. -/
inductive Op
  | get (key : RowKey)
  | assign (ref : Nat) (name : String) (value : PyObject)
  | new (obj : Obj)
  | add (ref : Nat)

/-- `_RocksSession` and the objects of the body that uses it. -/
structure Session where
  objects : List Obj := []
  obtained : List Nat := []
  pending : List Nat := []

namespace Session

/-- One operation of the body, or `none` where it raises. -/
def step (b : Builtins) (columns : Columns) (s : Session) : Op → Option Session
  | .get key =>
      match fetch b columns key with
      | .raises => none
      | .missing => some s
      | .row row => some { s with
          objects := s.objects ++ [⟨row, false⟩]
          obtained := s.obtained ++ [s.objects.length] }
  | .assign ref name value =>
      s.objects[ref]?.map fun obj =>
        { s with objects := s.objects.set ref { obj with row := obj.row.assign name value } }
  | .new obj => some { s with objects := s.objects ++ [obj] }
  | .add ref =>
      if ref < s.objects.length then some { s with pending := s.pending ++ [ref] } else none

/-- The body of a session on what is stored. -/
def run (b : Builtins) (columns : Columns) (ops : List Op) : Option Session :=
  ops.foldlM (step b columns) {}

/-- The objects that `_write_obj` writes, as they are at the end. -/
def written (s : Session) : List Row :=
  s.pending.filterMap fun ref =>
    (s.objects[ref]?.filter fun obj => !obj.sqlalchemy).map Obj.row

/-- All objects that were obtained or added, as they are at the end. -/
def touched (s : Session) : List Row :=
  (s.obtained ++ s.pending).filterMap fun ref => s.objects[ref]?.map Obj.row

/-- `commit`, or `none` where it raises. -/
def commit (b : Builtins) (columns : Columns) (s : Session) : Option Columns :=
  (s.written.mapM (Row.write b)).map columns.write

end Session

/-- The body of a `with db.session()` statement, and whether it ends with an exception. -/
structure Body where
  ops : List Op
  raises : Bool := false

/-- The columns, and the rows that `get` should return: what the objects of the bodies so far were at
the end of the last body that had them. -/
structure State where
  columns : Columns
  expected : List Row := []

/-- A session. -/
def step (b : Builtins) (s : State) (body : Body) : State :=
  match Session.run b s.columns body.ops with
  | none => s
  | some session =>
      if body.raises then s
      else
        { columns := (session.commit b s.columns).getD s.columns
          expected := s.expected.filter (fun row => decide (row.key ∉ session.touched.map Row.key)) ++
            session.touched }

/-- `get` returns every row as expected. -/
def Kept (b : Builtins) (s : State) : Prop :=
  ∀ row ∈ s.expected, ∃ key, row.key = some key ∧ fetch b s.columns key = .row row

/-- The objects that a body adds can be stored, and those of one key are the same at its end; every
object it obtained or added is then like one of these, or else as `get` returned it and none of these
has its key. -/
def Ok (b : Builtins) (s : State) (body : Body) : Prop :=
  ∀ session, Session.run b s.columns body.ops = some session → body.raises = false →
    (∀ row ∈ session.written, row.Storable b) ∧
    (∀ row ∈ session.written, ∀ row' ∈ session.written, row.key = row'.key → row = row') ∧
    ∀ row ∈ session.touched, row ∈ session.written ∨
      ∃ key, row.key = some key ∧ fetch b s.columns key = .row row ∧
        ∀ row' ∈ session.written, row'.key ≠ some key

/-! ## What a session leaves -/

section Sessions

variable {b : Builtins} {s : State} {body : Body}

theorem fetch_congr {columns columns' : Columns} {key : RowKey}
    (h : columns'.get key = columns.get key) : fetch b columns' key = fetch b columns key := by
  rw [fetch, h, fetch]

theorem mem_touched {session : Session} {row : Row} (h : row ∈ session.written) :
    row ∈ session.touched := by
  rcases List.mem_filterMap.1 h with ⟨ref, href, hrow⟩
  rcases Option.map_eq_some_iff.1 hrow with ⟨obj, hobj, rfl⟩
  refine List.mem_filterMap.2 ⟨ref, List.mem_append_right _ href, ?_⟩
  rw [(Option.filter_eq_some_iff.1 hobj).1]
  rfl

/-- If something is written for every item, the batch has that for each of them and nothing else. -/
theorem exists_mapM {α β : Type} {f : α → Option β} {items : List α}
    (h : ∀ a ∈ items, ∃ p, f a = some p) :
    ∃ batch, items.mapM f = some batch ∧
      (∀ a ∈ items, ∃ p ∈ batch, f a = some p) ∧
      ∀ p ∈ batch, ∃ a ∈ items, f a = some p := by
  induction items with
  | nil => exact ⟨[], rfl, by simp, by simp⟩
  | cons a items ih =>
      rcases h a List.mem_cons_self with ⟨p, hp⟩
      rcases ih fun r hr => h r (List.mem_cons_of_mem a hr) with ⟨batch, hbatch, hitems, hback⟩
      refine ⟨p :: batch, by simp [List.mapM_cons, hp, hbatch], ?_, ?_⟩
      · intro r hr
        rcases List.mem_cons.1 hr with rfl | hr'
        · exact ⟨p, List.mem_cons_self, hp⟩
        · rcases hitems r hr' with ⟨q, hq, hwrite⟩
          exact ⟨q, List.mem_cons_of_mem p hq, hwrite⟩
      · intro q hq
        rcases List.mem_cons.1 hq with rfl | hq'
        · exact ⟨a, List.mem_cons_self, hp⟩
        · rcases hback q hq' with ⟨r, hr, hwrite⟩
          exact ⟨r, List.mem_cons_of_mem a hr, hwrite⟩

/-- A commit of storable rows, which are the same where their keys are, makes `get` return them and
changes nothing else. -/
theorem commit_spec (hiso : ∀ t : DateTime, b.fromisoformat t.isoformat = some t)
    {session : Session} (columns : Columns) (hstorable : ∀ row ∈ session.written, row.Storable b)
    (hone : ∀ row ∈ session.written, ∀ row' ∈ session.written, row.key = row'.key → row = row') :
    ∃ columns', session.commit b columns = some columns' ∧
      (∀ row ∈ session.written, ∃ key, row.key = some key ∧ fetch b columns' key = .row row) ∧
      ∀ key, (∀ row ∈ session.written, row.key ≠ some key) →
        fetch b columns' key = fetch b columns key := by
  have hwrites : ∀ row ∈ session.written, ∃ p, row.write b = some p := by
    intro row hrow
    rcases (hstorable row hrow).write hiso with ⟨key, doc, hwrite, _⟩
    exact ⟨(key, doc), hwrite⟩
  rcases exists_mapM hwrites with ⟨batch, hbatch, hrows, hback⟩
  -- the key of a document is that of its row
  have hkeys : ∀ {row : Row} {p : RowKey × Doc}, row ∈ session.written → row.write b = some p →
      row.key = some p.1 ∧ Row.fromDict b p.1.cls (loadsMembers p.2) = some row := by
    intro row p hrow hp
    rcases (hstorable row hrow).write hiso with ⟨key, doc, hwrite, hkey, hloads⟩
    rw [hwrite] at hp
    cases hp
    exact ⟨hkey, hloads⟩
  refine ⟨columns.write batch, by rw [Session.commit, hbatch, Option.map_some], ?_, ?_⟩
  · intro row hrow
    rcases hrows row hrow with ⟨p, hp, hwrite⟩
    rcases hkeys hrow hwrite with ⟨hkey, hloads⟩
    refine ⟨p.1, hkey, ?_⟩
    have hget : (columns.write batch).get p.1 = some p.2 := by
      refine Columns.get_write_of_mem (fun q hq hsame => ?_) (.inr ⟨p, hp, rfl⟩)
      -- a document of the same key is of the same row
      rcases hback q hq with ⟨row', hrow', hwrite'⟩
      have hrows' : row' = row := by
        apply hone row' hrow' row hrow
        rw [(hkeys hrow' hwrite').1, hsame, hkey]
      rw [hrows', hwrite] at hwrite'
      cases hwrite'
      rfl
    rw [fetch, hget]
    dsimp only
    rw [hloads]
  · intro key hother
    refine fetch_congr (Columns.get_write_of_notMem fun p hp hsame => ?_)
    rcases hback p hp with ⟨row, hrow, hwrite⟩
    exact hother row hrow (hsame ▸ (hkeys hrow hwrite).1)

/-- Step lemma. -/
theorem Kept.step (h : Kept b s) (hiso : ∀ t : DateTime, b.fromisoformat t.isoformat = some t)
    (hok : Ok b s body) : Kept b (RowSession.step b s body) := by
  unfold RowSession.step
  cases hrun : Session.run b s.columns body.ops with
  | none => exact h
  | some session =>
      dsimp only
      split_ifs with hraises
      · exact h
      · rcases hok session hrun (by simpa using hraises) with ⟨hstorable, hone, htouched⟩
        rcases commit_spec hiso s.columns hstorable hone with ⟨columns', hcommit, hrows, hrest⟩
        rw [hcommit, Option.getD_some]
        intro row hrow
        rcases List.mem_append.1 hrow with hold | hnew
        · -- the session has no object with the key of the row
          rcases List.mem_filter.1 hold with ⟨hmem, hkey⟩
          rcases h row hmem with ⟨key, hrowkey, hfetch⟩
          refine ⟨key, hrowkey, ?_⟩
          rw [hrest key fun row' hrow' hsame => ?_, hfetch]
          apply of_decide_eq_true hkey
          rw [hrowkey, ← hsame]
          exact List.mem_map_of_mem (mem_touched hrow')
        · rcases htouched row hnew with hwritten | ⟨key, hkey, hfetch, hother⟩
          · exact hrows row hwritten
          · exact ⟨key, hkey, (hrest key hother).trans hfetch⟩

/-- Where every datetime has a timestamp, the condition says of every session whether it leaves all
rows as they should be. -/
theorem kept_step_iff (h : Kept b s) (hiso : ∀ t : DateTime, b.fromisoformat t.isoformat = some t)
    (hstamp : ∀ t, (b.timestamp t).isSome = true) :
    Kept b (RowSession.step b s body) ↔ Ok b s body := by
  refine ⟨fun hkept session hrun hraises => ?_, fun hok => h.step hiso hok⟩
  simp only [RowSession.step, hrun, hraises, Bool.false_eq_true, if_false] at hkept
  -- `get` now returns every object of the session
  have hfetched : ∀ row ∈ session.touched, ∃ key, row.key = some key ∧
      fetch b ((session.commit b s.columns).getD s.columns) key = .row row :=
    fun row hrow => hkept row (List.mem_append_right _ hrow)
  have hstorable : ∀ row ∈ session.written, row.Storable b := by
    intro row hrow
    rcases hfetched row (mem_touched hrow) with ⟨key, hkey, hfetch⟩
    exact storable_of_fetch hstamp hfetch (by rw [hkey]; rfl)
  have hone : ∀ row ∈ session.touched, ∀ row' ∈ session.touched, row.key = row'.key → row = row' := by
    intro row hrow row' hrow' hsame
    rcases hfetched row hrow with ⟨key, hkey, hfetch⟩
    rcases hfetched row' hrow' with ⟨key', hkey', hfetch'⟩
    obtain rfl : key = key' := Option.some.inj (hkey.symm.trans (hsame.trans hkey'))
    rw [hfetch] at hfetch'
    exact Fetched.row.inj hfetch'
  refine ⟨hstorable, fun row hrow row' hrow' => hone row (mem_touched hrow) row' (mem_touched hrow'),
    fun row hrow => ?_⟩
  by_cases hwritten : row ∈ session.written
  · exact .inl hwritten
  · right
    rcases hfetched row hrow with ⟨key, hkey, hfetch⟩
    have hother : ∀ row' ∈ session.written, row'.key ≠ some key := by
      intro row' hrow' hsame
      exact hwritten (hone row hrow row' (mem_touched hrow') (hkey.trans hsame.symm) ▸ hrow')
    rcases commit_spec hiso s.columns hstorable fun row hrow row' hrow' =>
      hone row (mem_touched hrow) row' (mem_touched hrow') with ⟨columns', hcommit, _, hrest⟩
    rw [hcommit, Option.getD_some] at hfetch
    exact ⟨key, hkey, (hrest key hother).symm.trans hfetch, hother⟩

/-- `fromisoformat` as the inverse of `isoformat`; the bodies below call nothing else. -/
noncomputable def isoBuiltins : Builtins where
  fromisoformat := Function.partialInv DateTime.isoformat
  timestamp _ := some 0
  str _ := ""

/-- An `AgentRunRow` is added. -/
def startRun : Body where
  ops := [.new ⟨.init .agentRun [("run_id", .str "run_1")], false⟩, .add 0]

/-- `IngestService.commit_run`. -/
def commitRun : Body where
  ops := [.get ⟨.agentRun, "run_1"⟩, .assign 0 "status" (.str "committed"),
    .assign 0 "ended_at" (.datetime ⟨2026, 5, 1, 12, 0, 0, 0, some 0, by decide⟩)]

/-- The same, with `session.add` for the row. -/
def commitRunAdded : Body where
  ops := commitRun.ops ++ [.add 0]

def startedRow : Row :=
  .init .agentRun [("run_id", .str "run_1")]

def committedRow : Row :=
  (startedRow.assign "status" (.str "committed")).assign "ended_at"
    (.datetime ⟨2026, 5, 1, 12, 0, 0, 0, some 0, by decide⟩)

theorem storable_startedRow : startedRow.Storable b where
  key := rfl
  values := by
    simp [startedRow, Row.init, RowClass.attributes, RowClass.Holds, times, List.lookup,
      PyObject.none, PyObject.str, PyObject.int, isJson, PyObject.isJsonMembers]
  indexable := rfl

theorem storable_committedRow : committedRow.Storable b where
  key := rfl
  values := by
    simp [committedRow, startedRow, Row.assign, Row.init, RowClass.attributes, RowClass.Holds, times,
      List.lookup, PyObject.none, PyObject.str, PyObject.int, isJson, PyObject.isJsonMembers]
  indexable := rfl

/-- A body whose only object is added meets the condition if that can be stored. -/
theorem ok_of_added (row : Row) (obtained : List Nat)
    (hrun : Session.run b s.columns body.ops = some ⟨[⟨row, false⟩], obtained, [0]⟩)
    (hobtained : ∀ ref ∈ obtained, ref = 0) (hrow : row.Storable b) : Ok b s body := by
  intro session hsession _
  rw [hrun] at hsession
  cases hsession
  have hwritten : Session.written ⟨[⟨row, false⟩], obtained, [0]⟩ = [row] := rfl
  have htouched : ∀ row' ∈ Session.touched ⟨[⟨row, false⟩], obtained, [0]⟩, row' = row := by
    intro row' hrow'
    rcases List.mem_filterMap.1 hrow' with ⟨ref, href, hget⟩
    have hzero : ref = 0 := by
      rcases List.mem_append.1 href with hget | hadd
      · exact hobtained ref hget
      · exact List.mem_singleton.1 hadd
    rw [hzero] at hget
    exact (Option.some.inj hget).symm
  rw [hwritten]
  refine ⟨?_, ?_, ?_⟩
  · intro row' hrow'
    rw [List.mem_singleton.1 hrow']
    exact hrow
  · intro row₁ hrow₁ row₂ hrow₂ _
    rw [List.mem_singleton.1 hrow₁, List.mem_singleton.1 hrow₂]
  · intro row' hrow'
    left
    rw [htouched row' hrow']
    exact List.mem_singleton_self row

end Sessions

end RowSession
end Collector
end ControlDB
