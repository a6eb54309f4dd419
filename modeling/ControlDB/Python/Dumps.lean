import ControlDB.Python.CanonicalJson
import ControlDB.Python.DateTime

/-!
# Python objects through JSON

`json.dumps` and `json.loads` on objects that may contain datetimes and tuples.  A text is kept as
the document it is the text of, which `json.loads` reads.  The keys of a `dict` are texts; of a
`Scalar`, `unencodable` is a `nan` or an infinity here, which both functions know.
-/

namespace ControlDB
namespace Python

open Library

inductive PyObject
  | leaf (l : Scalar)
  | datetime (t : DateTime)
  | list (items : List PyObject)
  | tuple (items : List PyObject)
  | dict (members : List (String × PyObject))

namespace PyObject

def none : PyObject := .leaf .none
def int (n : Int) : PyObject := .leaf (.int n)
def str (s : String) : PyObject := .leaf (.str s)

/-- `bool(value)`. -/
def truthy : PyObject → Bool
  | leaf l => PyJson.truthy (.leaf l)
  | datetime _ => true
  | list items => !items.isEmpty
  | tuple items => !items.isEmpty
  | dict members => !members.isEmpty

mutual

/-- `json.dumps(value, default=default)`, or `none` where it raises: without a default, on a
datetime. -/
def dumps (default : Option (DateTime → String)) : PyObject → Option PyJson
  | leaf l => some (.leaf l)
  | datetime t => default.map fun text => PyJson.str (text t)
  | list items => (dumpsItems default items).map .arr
  | tuple items => (dumpsItems default items).map .arr
  | dict members => (dumpsMembers default members).map .obj

def dumpsItems (default : Option (DateTime → String)) : List PyObject → Option (List PyJson)
  | [] => some []
  | v :: rest =>
      match dumps default v, dumpsItems default rest with
      | some j, some js => some (j :: js)
      | _, _ => .none

def dumpsMembers (default : Option (DateTime → String)) :
    List (String × PyObject) → Option (List (String × PyJson))
  | [] => some []
  | (k, v) :: rest =>
      match dumps default v, dumpsMembers default rest with
      | some j, some js => some ((k, j) :: js)
      | _, _ => .none

end

mutual

/-- `json.loads`. -/
def loads : PyJson → PyObject
  | .leaf l => leaf l
  | .arr items => list (loadsItems items)
  | .obj members => dict (loadsMembers members)

def loadsItems : List PyJson → List PyObject
  | [] => []
  | t :: rest => loads t :: loadsItems rest

def loadsMembers : List (String × PyJson) → List (String × PyObject)
  | [] => []
  | (k, t) :: rest => (k, loads t) :: loadsMembers rest

end

mutual

/-- Neither a datetime nor a tuple is part of the value. -/
def isJson : PyObject → Bool
  | leaf _ => true
  | datetime _ => false
  | list items => isJsonItems items
  | tuple _ => false
  | dict members => isJsonMembers members

def isJsonItems : List PyObject → Bool
  | [] => true
  | v :: rest => isJson v && isJsonItems rest

def isJsonMembers : List (String × PyObject) → Bool
  | [] => true
  | (_, v) :: rest => isJson v && isJsonMembers rest

end

/-! ## What comes back -/

mutual

theorem isJson_loads : ∀ j : PyJson, isJson (loads j) = true
  | .leaf _ => by rw [loads, isJson]
  | .arr items => by rw [loads, isJson, isJson_loadsItems items]
  | .obj members => by rw [loads, isJson, isJson_loadsMembers members]

theorem isJson_loadsItems : ∀ items : List PyJson, isJsonItems (loadsItems items) = true
  | [] => by rw [loadsItems, isJsonItems]
  | t :: rest => by
      rw [loadsItems, isJsonItems, isJson_loads t, isJson_loadsItems rest]
      rfl

theorem isJson_loadsMembers :
    ∀ members : List (String × PyJson), isJsonMembers (loadsMembers members) = true
  | [] => by rw [loadsMembers, isJsonMembers]
  | (_, t) :: rest => by
      rw [loadsMembers, isJsonMembers, isJson_loads t, isJson_loadsMembers rest]
      rfl

end

section Default

variable (default : Option (DateTime → String))

mutual

/-- A value without datetimes and tuples can be dumped, and is what is loaded. -/
theorem exists_dumps : ∀ v : PyObject, isJson v = true →
    ∃ j, dumps default v = some j ∧ loads j = v
  | leaf l, _ => ⟨.leaf l, by rw [dumps], by rw [loads]⟩
  | list items, h => by
      rw [isJson] at h
      rcases exists_dumpsItems items h with ⟨js, hdumps, hloads⟩
      exact ⟨.arr js, by rw [dumps, hdumps, Option.map_some], by rw [loads, hloads]⟩
  | dict members, h => by
      rw [isJson] at h
      rcases exists_dumpsMembers members h with ⟨js, hdumps, hloads⟩
      exact ⟨.obj js, by rw [dumps, hdumps, Option.map_some], by rw [loads, hloads]⟩
  | datetime _, h => by simp [isJson] at h
  | tuple _, h => by simp [isJson] at h

theorem exists_dumpsItems : ∀ items : List PyObject, isJsonItems items = true →
    ∃ js, dumpsItems default items = some js ∧ loadsItems js = items
  | [], _ => ⟨[], by rw [dumpsItems], by rw [loadsItems]⟩
  | v :: rest, h => by
      rw [isJsonItems, Bool.and_eq_true] at h
      rcases exists_dumps v h.1 with ⟨j, hdumps, hloads⟩
      rcases exists_dumpsItems rest h.2 with ⟨js, hdumps', hloads'⟩
      exact ⟨j :: js, by rw [dumpsItems, hdumps, hdumps'], by rw [loadsItems, hloads, hloads']⟩

theorem exists_dumpsMembers : ∀ members : List (String × PyObject), isJsonMembers members = true →
    ∃ js, dumpsMembers default members = some js ∧ loadsMembers js = members
  | [], _ => ⟨[], by rw [dumpsMembers], by rw [loadsMembers]⟩
  | (k, v) :: rest, h => by
      rw [isJsonMembers, Bool.and_eq_true] at h
      rcases exists_dumps v h.1 with ⟨j, hdumps, hloads⟩
      rcases exists_dumpsMembers rest h.2 with ⟨js, hdumps', hloads'⟩
      exact ⟨(k, j) :: js, by rw [dumpsMembers, hdumps, hdumps'],
        by rw [loadsMembers, hloads, hloads']⟩

end

end Default

section Total

variable (text : DateTime → String)

mutual

/-- With a default for datetimes, everything can be dumped. -/
theorem isSome_dumps : ∀ v : PyObject, (dumps (some text) v).isSome = true
  | leaf l => by rw [dumps, Option.isSome_some]
  | datetime t => by rw [dumps, Option.map_some, Option.isSome_some]
  | list items => by rw [dumps, Option.isSome_map, isSome_dumpsItems items]
  | tuple items => by rw [dumps, Option.isSome_map, isSome_dumpsItems items]
  | dict members => by rw [dumps, Option.isSome_map, isSome_dumpsMembers members]

theorem isSome_dumpsItems : ∀ items : List PyObject, (dumpsItems (some text) items).isSome = true
  | [] => by rw [dumpsItems, Option.isSome_some]
  | v :: rest => by
      rcases Option.isSome_iff_exists.1 (isSome_dumps v) with ⟨j, hj⟩
      rcases Option.isSome_iff_exists.1 (isSome_dumpsItems rest) with ⟨js, hjs⟩
      simp only [dumpsItems, hj, hjs, Option.isSome_some]

theorem isSome_dumpsMembers :
    ∀ members : List (String × PyObject), (dumpsMembers (some text) members).isSome = true
  | [] => by rw [dumpsMembers, Option.isSome_some]
  | (k, v) :: rest => by
      rcases Option.isSome_iff_exists.1 (isSome_dumps v) with ⟨j, hj⟩
      rcases Option.isSome_iff_exists.1 (isSome_dumpsMembers rest) with ⟨js, hjs⟩
      simp only [dumpsMembers, hj, hjs, Option.isSome_some]

end

end Total

/-- A member without datetimes and tuples is loaded as it is, whatever the others are. -/
theorem lookup_loadsMembers {default : Option (DateTime → String)}
    {members : List (String × PyObject)} {doc : List (String × PyJson)}
    (h : dumpsMembers default members = some doc) {k : String} {v : PyObject}
    (hv : members.lookup k = some v) (hjson : isJson v = true) :
    (loadsMembers doc).lookup k = some v := by
  induction members generalizing doc with
  | nil => cases hv
  | cons m rest ih =>
      rcases m with ⟨k', v'⟩
      rw [dumpsMembers] at h
      split at h
      · next j js hdumps hrest =>
          cases h
          rw [List.lookup_cons] at hv
          rw [loadsMembers, List.lookup_cons]
          cases hkey : k == k' with
          | true =>
              simp only [hkey, Option.some.injEq] at hv ⊢
              subst hv
              rcases exists_dumps default v' hjson with ⟨j', hdumps', hloads⟩
              cases hdumps.symm.trans hdumps'
              exact hloads
          | false =>
              simp only [hkey] at hv ⊢
              exact ih hrest hv
      · cases h

theorem isJsonMembers_iff {members : List (String × PyObject)} :
    isJsonMembers members = true ↔ ∀ m ∈ members, isJson m.2 = true := by
  induction members with
  | nil => simp [isJsonMembers]
  | cons m rest ih =>
      rcases m with ⟨k, v⟩
      simp [isJsonMembers, ih]

end PyObject
end Python
end ControlDB
