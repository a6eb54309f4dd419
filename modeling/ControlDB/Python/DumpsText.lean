import ControlDB.Python.Loads

/-!
# `json.dumps` with its defaults

The texts of `json.dumps` without `ensure_ascii=False`: whatever is not printable ASCII is escaped by
its UTF-16 units.  The parts of a value stand on one line, or on lines of their own if there is an
`indent`.  Of a `Scalar`, `unencodable` is printed as `NaN` here, for all that JSON itself has no text
for.  A value that JSON has a text for is read back from it (`loads_dumpsDefault`,
`loads_dumpsIndent`).
-/

namespace ControlDB
namespace Python

open Library JsonTree

/-! ## Strings -/

/-- `"\\u{0:04x}".format(unit)`. -/
def escapeUnit (u : UInt16) : List Char :=
  ['\\', 'u', Nat.digitChar (u.toNat / 4096), Nat.digitChar (u.toNat / 256 % 16),
    Nat.digitChar (u.toNat / 16 % 16), Nat.digitChar (u.toNat % 16)]

/-- `py_encode_basestring_ascii` on a character. -/
def escapeAscii (c : Char) : List Char :=
  if c = '"' then ['\\', '"']
  else if c = '\\' then ['\\', '\\']
  else if c = '\n' then ['\\', 'n']
  else if c = '\r' then ['\\', 'r']
  else if c = '\t' then ['\\', 't']
  else if c = Char.ofNat 0x0c then ['\\', 'f']
  else if c = Char.ofNat 0x08 then ['\\', 'b']
  else if 0x20 ≤ c.toNat ∧ c.toNat ≤ 0x7e then [c]
  else (Utf16.encodeChar c).flatMap escapeUnit

theorem hexDigitOf_digitChar {d : Nat} (hd : d < 16) : hexDigitOf (Nat.digitChar d) = some d := by
  have hall : ∀ d < 16, hexDigitOf (Nat.digitChar d) = some d := by decide
  exact hall d hd

theorem scanString_escapeUnit (u : UInt16) (x : List Char) :
    scanString (escapeUnit u ++ x) = (scanString x).map fun r => (u :: r.1, r.2) := by
  have hu := u.toNat_lt
  -- the four digits are those of the unit
  have hvalue : ((u.toNat / 4096 * 16 + u.toNat / 256 % 16) * 16 + u.toNat / 16 % 16) * 16 +
      u.toNat % 16 = u.toNat := by omega
  have hunit : hexUnit (Nat.digitChar (u.toNat / 4096)) (Nat.digitChar (u.toNat / 256 % 16))
      (Nat.digitChar (u.toNat / 16 % 16)) (Nat.digitChar (u.toNat % 16)) = some u := by
    have hdigit : u.toNat / 4096 < 16 := by omega
    have hmod : ∀ n, n % 16 < 16 := fun n => Nat.mod_lt _ (by decide)
    simp only [hexUnit, hexDigitOf_digitChar hdigit, hexDigitOf_digitChar (hmod _), Option.bind_eq_bind,
      Option.bind_some, hvalue, UInt16.ofNat_toNat]
    rfl
  simp only [escapeUnit, List.cons_append, List.nil_append]
  rw [scanString, hunit, Option.bind_some]

theorem scanString_escapeUnits (units : List UInt16) (x : List Char) :
    scanString (units.flatMap escapeUnit ++ x) =
      (scanString x).map fun r => (units ++ r.1, r.2) := by
  induction units with
  | nil =>
      rw [List.flatMap_nil, List.nil_append]
      exact (congrFun Option.map_id _).symm
  | cons u units ih =>
      rw [List.flatMap_cons, List.append_assoc, scanString_escapeUnit, ih, Option.map_map]
      rfl

theorem escapes_escapeAscii : Escapes escapeAscii := by
  intro c x
  unfold escapeAscii
  split_ifs with hquote hback hnl hcr htab hff hbs hascii
  · subst hquote; rfl
  · subst hback; rfl
  · subst hnl; rfl
  · subst hcr; rfl
  · subst htab; rfl
  · subst hff; rfl
  · subst hbs; rfl
  · exact scanString_cons hquote hback (by omega) x
  · exact scanString_escapeUnits _ x

/-! ## Values -/

theorem blank_line_nil : ∀ _ : Nat, Blank [] := by simp [Blank]

theorem blank_space : Blank [' '] := by simp [Blank, isSpace]

theorem blank_line_indent (indent : Nat) :
    ∀ depth, Blank ('\n' :: List.replicate (indent * depth) ' ') := fun _ =>
  List.forall_mem_cons.2 ⟨rfl, fun c hc => by rw [List.eq_of_mem_replicate hc]; rfl⟩

/-- The separators `", "` and `": "`. -/
def spaced : Layout where
  line _ := []
  comma := [' ']
  colon := [' ']
  blank_line := blank_line_nil
  blank_comma := blank_space
  blank_colon := blank_space

/-- Every part on its own line, with so many spaces for each level. -/
def indented (indent : Nat) : Layout where
  line depth := '\n' :: List.replicate (indent * depth) ' '
  comma := []
  colon := [' ']
  blank_line := blank_line_indent indent
  blank_comma := blank_line_nil 0
  blank_colon := blank_space

/-- `json.dumps(value)`. -/
def dumpsDefault (value : PyJson) : List Char :=
  value.lay spaced (scalarTextWith escapeAscii) (quoteWith escapeAscii) 0

/-- `json.dumps(value, indent=indent)`. -/
def dumpsIndent (indent : Nat) (value : PyJson) : List Char :=
  value.lay (indented indent) (scalarTextWith escapeAscii) (quoteWith escapeAscii) 0

/-! ## Reading them back -/

section Loads

variable {readFloat : List Char → Option FloatRepr} {v : PyJson}

/-- A value that JSON has a text for: no `NaN`, no infinity, and no key twice in a `dict`. -/
def IsJson (readFloat : List Char → Option FloatRepr) (v : PyJson) : Prop :=
  v.EveryLeaf (Printable readFloat) ∧ v.EveryObject List.Nodup

@[simp] theorem isJson_none : IsJson readFloat PyJson.none := ⟨trivial, trivial⟩

@[simp] theorem isJson_bool (b : Bool) : IsJson readFloat (PyJson.bool b) := ⟨trivial, trivial⟩

@[simp] theorem isJson_int (n : Int) : IsJson readFloat (PyJson.int n) := ⟨trivial, trivial⟩

@[simp] theorem isJson_str (s : String) : IsJson readFloat (PyJson.str s) := ⟨trivial, trivial⟩

@[simp] theorem isJson_optStr (s : Option String) : IsJson readFloat (PyJson.optStr s) := by
  cases s <;> exact ⟨trivial, trivial⟩

@[simp] theorem isJson_optInt (n : Option Int) : IsJson readFloat (PyJson.optInt n) := by
  cases n <;> exact ⟨trivial, trivial⟩

theorem isJson_arr_iff {items : List PyJson} :
    IsJson readFloat (.arr items) ↔ ∀ t ∈ items, IsJson readFloat t := by
  rw [IsJson, EveryLeaf, EveryObject, everyLeafItem_iff, everyItem_iff, ← forall₂_and]
  rfl

theorem isJson_obj_iff {members : List (String × PyJson)} :
    IsJson readFloat (.obj members) ↔
      (members.map Prod.fst).Nodup ∧ ∀ m ∈ members, IsJson readFloat m.2 := by
  rw [IsJson, EveryLeaf, EveryObject, everyLeafMember_iff, everyMember_iff, and_left_comm,
    ← forall₂_and]
  rfl

theorem loads_dumpsDefault (hrepr : ReprReads readFloat) (hv : IsJson readFloat v) :
    loads readFloat (dumpsDefault v) = some v :=
  loads_lay hrepr escapes_escapeAscii (everyLeaf_printable_iff.1 hv.1).1 hv.2

theorem loads_dumpsIndent (hrepr : ReprReads readFloat) (indent : Nat) (hv : IsJson readFloat v) :
    loads readFloat (dumpsIndent indent v) = some v :=
  loads_lay hrepr escapes_escapeAscii (everyLeaf_printable_iff.1 hv.1).1 hv.2

end Loads

/-! ## One line -/

/-- A printable ASCII character. -/
def IsPrint (c : Char) : Prop :=
  0x20 ≤ c.toNat ∧ c.toNat ≤ 0x7e

instance : DecidablePred IsPrint := fun _ => inferInstanceAs (Decidable (_ ∧ _))

theorem isPrint_digitChar {d : Nat} (hd : d < 16) : IsPrint (Nat.digitChar d) := by
  have hall : ∀ d < 16, IsPrint (Nat.digitChar d) := by decide
  exact hall d hd

theorem isPrint_escapeUnit (u : UInt16) : ∀ c ∈ escapeUnit u, IsPrint c := by
  have hu := u.toNat_lt
  have hmod : ∀ n, n % 16 < 16 := fun n => Nat.mod_lt _ (by decide)
  have hslash : IsPrint '\\' ∧ IsPrint 'u' := by decide
  simp only [escapeUnit, List.forall_mem_cons]
  exact ⟨hslash.1, hslash.2, isPrint_digitChar (by omega), isPrint_digitChar (hmod _),
    isPrint_digitChar (hmod _), isPrint_digitChar (hmod _), by simp⟩

theorem isPrint_escaped {c : Char} (h : IsPrint c) : ∀ d ∈ ['\\', c], IsPrint d :=
  List.forall_mem_cons.2 ⟨by decide, List.forall_mem_singleton.2 h⟩

theorem isPrint_escapeAscii (c : Char) : ∀ d ∈ escapeAscii c, IsPrint d := by
  unfold escapeAscii
  split_ifs with _ _ _ _ _ _ _ hascii
  · exact isPrint_escaped (by decide)
  · exact isPrint_escaped (by decide)
  · exact isPrint_escaped (by decide)
  · exact isPrint_escaped (by decide)
  · exact isPrint_escaped (by decide)
  · exact isPrint_escaped (by decide)
  · exact isPrint_escaped (by decide)
  · exact List.forall_mem_singleton.2 hascii
  · intro d hd
    rcases List.mem_flatMap.1 hd with ⟨u, _, hu⟩
    exact isPrint_escapeUnit u d hu

theorem isPrint_quoteAscii (s : String) : ∀ c ∈ quoteWith escapeAscii s, IsPrint c := by
  have hquote : IsPrint '"' := by decide
  refine List.forall_mem_cons.2 ⟨hquote, fun c hc => ?_⟩
  rcases List.mem_append.1 hc with hbody | hend
  · rcases List.mem_flatMap.1 hbody with ⟨d, _, hd⟩
    exact isPrint_escapeAscii d c hd
  · rw [List.mem_singleton.1 hend]
    exact hquote

theorem isPrint_of_isWordChar {c : Char} (h : IsWordChar c) : IsPrint c := by
  rcases h with halnum | rfl | rfl | rfl
  · simp only [Char.isAlphanum, Char.isAlpha, Char.isUpper, Char.isLower, Char.isDigit,
      Bool.or_eq_true, Bool.and_eq_true, decide_eq_true_eq, UInt32.le_iff_toNat_le] at halnum
    have hval : c.toNat = c.val.toNat := rfl
    unfold IsPrint
    rw [hval]
    rcases halnum with (⟨hlow, hhigh⟩ | ⟨hlow, hhigh⟩) | ⟨hlow, hhigh⟩
    · exact ⟨le_trans (by decide) hlow, le_trans hhigh (by decide)⟩
    · exact ⟨le_trans (by decide) hlow, le_trans hhigh (by decide)⟩
    · exact ⟨le_trans (by decide) hlow, le_trans hhigh (by decide)⟩
  · decide
  · decide
  · decide

theorem isPrint_scalarTextAscii (l : Scalar) : ∀ c ∈ scalarTextWith escapeAscii l, IsPrint c := by
  by_cases hstr : ∃ s, l = .str s
  · rcases hstr with ⟨s, rfl⟩
    exact isPrint_quoteAscii s
  · have htext : scalarTextWith escapeAscii l = scalarText l := by
      cases l with
      | str s => exact absurd ⟨s, rfl⟩ hstr
      | _ => rfl
    rw [htext]
    exact fun c hc => isPrint_of_isWordChar ((scalarText_word (not_exists.1 hstr)).2 c hc)

/-- The default text is printable ASCII, and so has no line break in it. -/
theorem isPrint_dumpsDefault (v : PyJson) : ∀ c ∈ dumpsDefault v, IsPrint c := by
  refine forall_mem_lay ⟨fun depth => ?_, ?_, ?_⟩ ?_ isPrint_scalarTextAscii isPrint_quoteAscii 0 v
  · simp [spaced]
  · exact List.forall_mem_singleton.2 (by decide)
  · exact List.forall_mem_singleton.2 (by decide)
  · simp only [List.forall_mem_cons]
    exact ⟨by decide, by decide, by decide, by decide, by decide, by decide, by simp⟩

end Python
end ControlDB
