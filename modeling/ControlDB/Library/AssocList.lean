import Mathlib

/-!
# Association lists with distinct keys

A key that occurs once is looked up where it stands, also after the entries are mapped; and a list is
given by its keys and the values it has for them.
-/

namespace ControlDB
namespace Library

variable {K K' V V' : Type*}

section Lookup

variable [BEq K'] [LawfulBEq K']

/-- A value is found under the image of its key. -/
theorem lookup_map_of_mem {f : K → K'} (hf : Function.Injective f) (g : K × V → V')
    {entries : List (K × V)} (hnodup : (entries.map Prod.fst).Nodup) {e : K × V}
    (he : e ∈ entries) : (entries.map fun e => (f e.1, g e)).lookup (f e.1) = some (g e) := by
  induction entries with
  | nil => cases he
  | cons e' entries ih =>
      rcases List.nodup_cons.1 hnodup with ⟨hnew, hnodup'⟩
      rw [List.map_cons]
      rcases List.mem_cons.1 he with rfl | htail
      · exact List.lookup_cons_self
      · have hne : f e.1 ≠ f e'.1 := fun h => hnew (hf h ▸ List.mem_map_of_mem htail)
        rw [List.lookup_cons, beq_false_of_ne hne]
        exact ih hnodup' htail

theorem lookup_of_mem {entries : List (K' × V)} (hnodup : (entries.map Prod.fst).Nodup)
    {e : K' × V} (he : e ∈ entries) : entries.lookup e.1 = some e.2 := by
  simpa using lookup_map_of_mem Function.injective_id Prod.snd hnodup he

/-- An entry that is looked up is in the list. -/
theorem mem_of_lookup {entries : List (K' × V)} {k : K'} {v : V}
    (h : entries.lookup k = some v) : (k, v) ∈ entries := by
  rcases List.lookup_eq_some_iff.1 h with ⟨l, r, rfl, _⟩
  simp

/-- What is filtered out by its key does not hide the others. -/
theorem lookup_filter_of_pos {p : K' → Bool} {k : K'} (hk : p k = true)
    (entries : List (K' × V)) : (entries.filter fun e => p e.1).lookup k = entries.lookup k := by
  induction entries with
  | nil => rfl
  | cons e entries ih =>
      rw [List.filter_cons]
      split_ifs with he
      · rw [List.lookup_cons, List.lookup_cons, ih]
      · have hne : k ≠ e.1 := fun h => he (h ▸ hk)
        rw [List.lookup_cons, beq_false_of_ne hne, ih]

end Lookup

/-- A list with the given keys is rebuilt from anything that has its values for them. -/
theorem map_values_eq {entries : List (K × V)} {other : List (K × V')}
    (hkeys : other.map Prod.fst = entries.map Prod.fst) {F : K → V' → V}
    (hvalues : ∀ e ∈ entries, ∀ v, F e.1 v = e.2) :
    other.map (fun e => (e.1, F e.1 e.2)) = entries := by
  induction entries generalizing other with
  | nil =>
      have hnil : other = [] := by simpa using hkeys
      rw [hnil, List.map_nil]
  | cons e entries ih =>
      cases other with
      | nil => cases hkeys
      | cons o other =>
          simp only [List.map_cons, List.cons.injEq] at hkeys
          rw [List.map_cons, ih hkeys.2 fun e' he' => hvalues e' (List.mem_cons_of_mem e he'),
            hkeys.1, hvalues e List.mem_cons_self]

end Library
end ControlDB
