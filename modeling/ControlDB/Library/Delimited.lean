import Mathlib

/-!
# Delimited texts — reading a concatenation back from either end

A hand-written encoder concatenates value texts between fixed keys.  Whether the values can be
recovered from the text is a property of the *language* of value texts:

* `PrefixFree L` — a value of `L` is determined when the text is read from the left;
* `SuffixFreeAfter c L` — a value of `L` that follows the symbol `c` is determined when the text
  is read from the right, whatever precedes it.

Both lift from single values to whole records (`fieldsText`), and `splice_inj` combines them: one
arbitrary text may stand between a left-decodable and a right-decodable record.

The second half is about quoted strings: `EscapedBody q e` is the language of bodies in which the
quote `q` only occurs behind the escape `e`, and `quoted q e` is readable from both ends.
-/

namespace ControlDB
namespace Library

variable {σ α : Type*}

/-! ## Languages readable from one end -/

/-- No text of `L` can be confused with another one when more text follows. -/
def PrefixFree (L : Set (List σ)) : Prop :=
  ∀ ⦃v w x y : List σ⦄, v ∈ L → w ∈ L → v ++ x = w ++ y → v = w ∧ x = y

/-- No text of `L` standing behind a `c` can be confused with another one, reading backwards. -/
def SuffixFreeAfter (c : σ) (L : Set (List σ)) : Prop :=
  ∀ ⦃v w x y : List σ⦄, v ∈ L → w ∈ L → x ++ c :: v = y ++ c :: w → v = w ∧ x = y

theorem prefixFree_singleton (v : List σ) : PrefixFree {v} := by
  rintro _ _ x y rfl rfl h
  exact ⟨rfl, List.append_cancel_left h⟩

theorem suffixFreeAfter_singleton (c : σ) (v : List σ) : SuffixFreeAfter c {v} := by
  rintro _ _ x y rfl rfl h
  exact ⟨rfl, List.append_cancel_right h⟩

/-- Prefix-free languages that never produce the same text have a prefix-free union. -/
theorem PrefixFree.union {L M : Set (List σ)} (hL : PrefixFree L) (hM : PrefixFree M)
    (hdisj : ∀ v ∈ L, ∀ w ∈ M, ∀ x y, v ++ x ≠ w ++ y) : PrefixFree (L ∪ M) := by
  rintro v w x y (hv | hv) (hw | hw) h
  · exact hL hv hw h
  · exact (hdisj v hv w hw x y h).elim
  · exact (hdisj w hw v hv y x h.symm).elim
  · exact hM hv hw h

theorem SuffixFreeAfter.union {c : σ} {L M : Set (List σ)} (hL : SuffixFreeAfter c L)
    (hM : SuffixFreeAfter c M) (hdisj : ∀ v ∈ L, ∀ w ∈ M, ∀ x y, x ++ c :: v ≠ y ++ c :: w) :
    SuffixFreeAfter c (L ∪ M) := by
  rintro v w x y (hv | hv) (hw | hw) h
  · exact hL hv hw h
  · exact (hdisj v hv w hw x y h).elim
  · exact (hdisj w hw v hv y x h.symm).elim
  · exact hM hv hw h

/-- Texts without a `c` are readable backwards up to the last `c`. -/
theorem suffixFreeAfter_of_notMem {c : σ} {L : Set (List σ)} (hL : ∀ v ∈ L, c ∉ v) :
    SuffixFreeAfter c L := by
  intro v w x y hv hw h
  -- one text reaches at least as far to the left as the other; if it reaches further, it has a `c`
  rcases List.append_eq_append_iff.1 h with ⟨u, rfl, hu⟩ | ⟨u, rfl, hu⟩
  · rcases u with _ | ⟨d, u⟩
    · exact ⟨(List.cons.inj hu).2, by simp⟩
    · have hmem : c ∈ v := by
        rw [(List.cons.inj hu).2]
        simp
      exact (hL v hv hmem).elim
  · rcases u with _ | ⟨d, u⟩
    · exact ⟨(List.cons.inj hu).2.symm, by simp⟩
    · have hmem : c ∈ w := by
        rw [(List.cons.inj hu).2]
        simp
      exact (hL w hw hmem).elim

/-! ## Records: fixed keys between values -/

/-- The text of a record: every key followed by its value. -/
def fieldsText : List (List σ) → List (List σ) → List σ
  | k :: ks, v :: vs => k ++ (v ++ fieldsText ks vs)
  | _, _ => []

@[simp] theorem fieldsText_nil (vs : List (List σ)) : fieldsText [] vs = [] := rfl

@[simp] theorem fieldsText_cons (k v : List σ) (ks vs : List (List σ)) :
    fieldsText (k :: ks) (v :: vs) = k ++ (v ++ fieldsText ks vs) := rfl

/-- A record over a prefix-free language is determined from the left. -/
theorem PrefixFree.fields {L : Set (List σ)} (hL : PrefixFree L) (ks : List (List σ)) :
    ∀ {vs ws : List (List σ)} {x y : List σ},
      vs.length = ks.length → ws.length = ks.length →
      (∀ v ∈ vs, v ∈ L) → (∀ w ∈ ws, w ∈ L) →
      fieldsText ks vs ++ x = fieldsText ks ws ++ y → vs = ws ∧ x = y := by
  -- the keys are the same, so the values are read off one after the other
  induction ks with
  | nil =>
      intro vs ws x y hvs hws _ _ h
      have hv : vs = [] := List.length_eq_zero_iff.1 hvs
      have hw : ws = [] := List.length_eq_zero_iff.1 hws
      subst hv hw
      exact ⟨rfl, by simpa using h⟩
  | cons k ks ih =>
      intro vs ws x y hvs hws hvL hwL h
      rcases vs with _ | ⟨v, vs⟩
      · simp at hvs
      rcases ws with _ | ⟨w, ws⟩
      · simp at hws
      -- the first key and the separator are cancelled
      have hcancel : v ++ (fieldsText ks vs ++ x) = w ++ (fieldsText ks ws ++ y) := by
        simpa [List.append_assoc] using h
      rcases hL (hvL v (by simp)) (hwL w (by simp)) hcancel with ⟨rfl, hrest⟩
      have htail := ih (by simpa using hvs) (by simpa using hws)
        (fun u hu => hvL u (List.mem_cons_of_mem _ hu))
        (fun u hu => hwL u (List.mem_cons_of_mem _ hu)) hrest
      exact ⟨by rw [htail.1], htail.2⟩

/-- A record whose keys end in `c`, over a language suffix-free behind `c`, is determined from the
right. -/
theorem SuffixFreeAfter.fields {c : σ} {L : Set (List σ)} (hL : SuffixFreeAfter c L)
    (ks : List (List σ)) (hks : ∀ k ∈ ks, ∃ k', k = k' ++ [c]) :
    ∀ {vs ws : List (List σ)} {x y : List σ},
      vs.length = ks.length → ws.length = ks.length →
      (∀ v ∈ vs, v ∈ L) → (∀ w ∈ ws, w ∈ L) →
      x ++ fieldsText ks vs = y ++ fieldsText ks ws → vs = ws ∧ x = y := by
  induction ks with
  | nil =>
      intro vs ws x y hvs hws _ _ h
      have hv : vs = [] := List.length_eq_zero_iff.1 hvs
      have hw : ws = [] := List.length_eq_zero_iff.1 hws
      subst hv hw
      exact ⟨rfl, by simpa using h⟩
  | cons k ks ih =>
      intro vs ws x y hvs hws hvL hwL h
      rcases vs with _ | ⟨v, vs⟩
      · simp at hvs
      rcases ws with _ | ⟨w, ws⟩
      · simp at hws
      -- The later fields are peeled off first; the first value then ends the text.
      have hassoc : (x ++ (k ++ v)) ++ fieldsText ks vs = (y ++ (k ++ w)) ++ fieldsText ks ws := by
        simpa [List.append_assoc] using h
      have htail := ih (fun k' hk' => hks k' (List.mem_cons_of_mem _ hk'))
        (by simpa using hvs) (by simpa using hws)
        (fun u hu => hvL u (List.mem_cons_of_mem _ hu))
        (fun u hu => hwL u (List.mem_cons_of_mem _ hu)) hassoc
      rcases hks k (by simp) with ⟨k', rfl⟩
      have hhead : (x ++ k') ++ c :: v = (y ++ k') ++ c :: w := by
        simpa [List.append_assoc] using htail.2
      rcases hL (hvL v (by simp)) (hwL w (by simp)) hhead with ⟨rfl, hxy⟩
      exact ⟨by rw [htail.1], List.append_cancel_right hxy⟩

/-- One arbitrary text between a left-readable and a right-readable record is determined, and so
are the two records. -/
theorem splice_inj {c : σ} {L R : Set (List σ)} (hL : PrefixFree L) (hR : SuffixFreeAfter c R)
    {ks ls : List (List σ)} (hls : ∀ k ∈ ls, ∃ k', k = k' ++ [c])
    {vs vs' ws ws' : List (List σ)} {p p' : List σ}
    (hvs : vs.length = ks.length) (hvs' : vs'.length = ks.length)
    (hws : ws.length = ls.length) (hws' : ws'.length = ls.length)
    (hvL : ∀ v ∈ vs, v ∈ L) (hvL' : ∀ v ∈ vs', v ∈ L)
    (hwR : ∀ w ∈ ws, w ∈ R) (hwR' : ∀ w ∈ ws', w ∈ R)
    (h : fieldsText ks vs ++ p ++ fieldsText ls ws =
      fieldsText ks vs' ++ p' ++ fieldsText ls ws') :
    vs = vs' ∧ p = p' ∧ ws = ws' := by
  have hright := hR.fields ls hls hws hws' hwR hwR' h
  have hleft := hL.fields ks hvs hvs' hvL hvL' hright.2
  exact ⟨hleft.1, hleft.2, hright.1⟩

/-! ## Symbol codes -/

/-- A code of single symbols that can be read off the front of a text. -/
def SymbolCode (f : α → List σ) : Prop :=
  ∀ ⦃a b : α⦄ ⦃x y : List σ⦄, f a ++ x = f b ++ y → a = b

/-- A symbol code with no empty code word extends to an injective code of lists. -/
theorem SymbolCode.flatMap_injective {f : α → List σ} (hf : SymbolCode f)
    (hne : ∀ a, f a ≠ []) : Function.Injective fun l : List α => l.flatMap f := by
  intro l
  -- a symbol is determined by the beginning of its text, and then the rest is
  induction l with
  | nil =>
      intro m h
      cases m with
      | nil => rfl
      | cons b m =>
          have : f b = [] := by
            have h' : [] = f b ++ m.flatMap f := by simpa using h
            exact (List.append_eq_nil_iff.1 h'.symm).1
          exact absurd this (hne b)
  | cons a l ih =>
      intro m h
      cases m with
      | nil =>
          have : f a = [] := by
            have h' : f a ++ l.flatMap f = [] := by simpa using h
            exact (List.append_eq_nil_iff.1 h').1
          exact absurd this (hne a)
      | cons b m =>
          have h' : f a ++ l.flatMap f = f b ++ m.flatMap f := by simpa using h
          -- the first symbols agree by the code
          obtain rfl := hf h'
          have hrest : l.flatMap f = m.flatMap f := List.append_cancel_left h'
          rw [ih hrest]

/-! ## Quoted strings -/

/-- Bodies made of plain symbols and of escape pairs `e c`. -/
inductive EscapedBody (q e : σ) : List σ → Prop where
  | nil : EscapedBody q e []
  | plain {c : σ} {body : List σ} :
      c ≠ q → c ≠ e → EscapedBody q e body → EscapedBody q e (c :: body)
  | escape {c : σ} {body : List σ} :
      EscapedBody q e body → EscapedBody q e (e :: c :: body)

/-- The quoted strings over bodies escaped by `e`. -/
def quoted (q e : σ) : Set (List σ) :=
  {v | ∃ body, EscapedBody q e body ∧ v = q :: (body ++ [q])}

namespace EscapedBody

variable {q e : σ}

theorem append {a b : List σ} (ha : EscapedBody q e a) (hb : EscapedBody q e b) :
    EscapedBody q e (a ++ b) := by
  induction ha with
  | nil => simpa using hb
  | plain hq he _ ih => exact .plain hq he ih
  | escape _ ih => exact .escape ih

/-- Texts made of escaped pieces are escaped. -/
theorem flatMap {f : α → List σ} (hf : ∀ a, EscapedBody q e (f a)) (l : List α) :
    EscapedBody q e (l.flatMap f) := by
  induction l with
  | nil => exact .nil
  | cons a l ih => simpa using (hf a).append ih

/-- A closing quote ends the body: reading from the left is unambiguous. -/
theorem eq_of_append_quote (hqe : q ≠ e) {a b x y : List σ} (ha : EscapedBody q e a)
    (hb : EscapedBody q e b) (h : a ++ q :: x = b ++ q :: y) : a = b ∧ x = y := by
  -- both bodies are read in step; only an escaped quote can go on
  induction ha generalizing b with
  | nil =>
      cases hb with
      | nil => exact ⟨rfl, by simpa using h⟩
      | plain hq _ _ => exact absurd (List.cons.inj h).1.symm hq
      | escape _ => exact absurd (List.cons.inj h).1 hqe
  | plain hq he _ ih =>
      cases hb with
      | nil => exact absurd (List.cons.inj h).1 hq
      | plain _ _ hb' =>
          obtain ⟨rfl, h'⟩ := List.cons.inj h
          have := ih hb' h'
          exact ⟨by rw [this.1], this.2⟩
      | escape _ => exact absurd (List.cons.inj h).1 he
  | escape _ ih =>
      cases hb with
      | nil => exact absurd (List.cons.inj h).1.symm hqe
      | plain _ he _ => exact absurd (List.cons.inj h).1.symm he
      | escape hb' =>
          obtain ⟨_, h'⟩ := List.cons.inj h
          obtain ⟨rfl, h''⟩ := List.cons.inj h'
          have := ih hb' h''
          exact ⟨by rw [this.1], this.2⟩

/-- Inside a body every quote stands directly behind an escape symbol. -/
theorem escape_before_quote (hqe : q ≠ e) {body : List σ} (h : EscapedBody q e body) :
    ∀ {u v : List σ}, body = u ++ q :: v → ∃ u', u = u' ++ [e] := by
  induction h with
  | nil =>
      intro u v hu
      simp at hu
  | plain hq _ _ ih =>
      intro u v hu
      rcases u with _ | ⟨d, u⟩
      · exact absurd (List.cons.inj hu).1 hq
      obtain ⟨rfl, hu'⟩ := List.cons.inj hu
      rcases ih hu' with ⟨u', rfl⟩
      exact ⟨_ :: u', rfl⟩
  | escape _ ih =>
      intro u v hu
      rcases u with _ | ⟨d, u⟩
      · exact absurd (List.cons.inj hu).1.symm hqe
      obtain ⟨rfl, hu'⟩ := List.cons.inj hu
      -- either the quote is the escaped symbol, or it comes later
      rcases u with _ | ⟨d', u⟩
      · exact ⟨[], rfl⟩
      obtain ⟨rfl, hu''⟩ := List.cons.inj hu'
      rcases ih hu'' with ⟨u', rfl⟩
      exact ⟨_ :: _ :: u', rfl⟩

end EscapedBody

/-- Quoted strings are readable from the left. -/
theorem quoted_prefixFree {q e : σ} (hqe : q ≠ e) : PrefixFree (quoted q e) := by
  rintro v w x y ⟨a, ha, rfl⟩ ⟨b, hb, rfl⟩ h
  have h' : a ++ q :: x = b ++ q :: y := by simpa using h
  rcases ha.eq_of_append_quote hqe hb h' with ⟨rfl, rfl⟩
  exact ⟨rfl, rfl⟩

/-- Behind a symbol other than the escape, quoted strings are readable from the right. -/
theorem quoted_suffixFreeAfter {q e c : σ} (hqe : q ≠ e) (hce : c ≠ e) :
    SuffixFreeAfter c (quoted q e) := by
  rintro v w x y ⟨a, ha, rfl⟩ ⟨b, hb, rfl⟩ h
  have hbody : (x ++ [c]) ++ q :: a = (y ++ [c]) ++ q :: b := by
    have : ((x ++ [c]) ++ q :: a) ++ [q] = ((y ++ [c]) ++ q :: b) ++ [q] := by simpa using h
    exact List.append_cancel_right this
  -- Were one body longer, it would hold the other's opening quote behind `c`, not behind `e`.
  have hlast : ∀ {u u' z : List σ}, u ++ [c] = z ++ (u' ++ [e]) → False := by
    intro u u' z hz
    have := congrArg List.getLast? hz
    simp at this
    exact hce this
  have hnoextra : ∀ {z z' u : List σ} {r s : List σ}, EscapedBody q e s →
      z ++ [c] = z' ++ q :: u → s = u ++ q :: r → False := by
    intro z z' u r s hs hz hsr
    rcases hs.escape_before_quote hqe hsr with ⟨u', rfl⟩
    exact hlast (z := z' ++ [q]) (by simpa using hz)
  rcases List.append_eq_append_iff.1 hbody with ⟨u, hu, hu'⟩ | ⟨u, hu, hu'⟩
  · rcases u with _ | ⟨d, u⟩
    · simp at hu hu'
      exact ⟨by rw [hu'], hu.symm⟩
    · obtain ⟨rfl, hu''⟩ := List.cons.inj hu'
      exact (hnoextra ha hu hu'').elim
  · rcases u with _ | ⟨d, u⟩
    · simp at hu hu'
      exact ⟨by rw [hu'], hu⟩
    · obtain ⟨rfl, hu''⟩ := List.cons.inj hu'
      exact (hnoextra hb hu hu'').elim

end Library
end ControlDB
