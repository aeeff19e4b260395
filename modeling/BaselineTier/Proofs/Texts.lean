/-
  BaselineTier.Proofs.Texts — atoms and texts stand for each other.

  A string value holds an atom and not its text, and strings are compared by their bits. That
  this compares texts rests on the table: its index and its texts agree after every history
  (`indexed_interned`), and while it grows its texts stay where they are (`prefix_interned`).
  A sum with a string is one more step of the history, on whatever table the run has come to.

  Main statement: looking texts up and reading atoms are inverse to each other, once and for
  all, so strings are equal if their texts are (`interning_is_a_growing_bijection`).
-/

import BaselineTier.Proofs.Numbering
import BaselineTier.Proofs.Properties

namespace BaselineTier

/-! ## One text -/

namespace AtomTable

variable {t t' : AtomTable} {s text : String} {a : Atom} {ss pre : List String}

theorem mem_intern (h : t.Indexed) : text ∈ (t.intern s).2.texts ↔ text ∈ t.texts ∨ text = s := by
  cases hs : t.lookup s with
  | some a =>
    have hmem : s ∈ t.texts := h.isSome_iff.mp (by rw [show t.byText.lookup s = some a from hs]; rfl)
    rw [intern_of_lookup hs]
    exact ⟨.inl, fun hor => hor.elim id fun heq => heq ▸ hmem⟩
  | none => rw [intern_of_new hs, Array.mem_push]

theorem text?_of_prefix (h : t.texts.toList <+: t'.texts.toList) (ha : t.text? a = some text) :
    t'.text? a = some text := by
  obtain ⟨rest, hrest⟩ := h
  rw [text?, ← Array.getElem?_toList] at ha ⊢
  rw [← hrest, List.getElem?_append_left (List.getElem?_eq_some_iff.mp ha).1]
  exact ha

/-- The atom that is given out has the text. -/
theorem text?_intern (h : t.Indexed) (hsize : t.size < 2 ^ 32) (s : String) :
    (t.intern s).2.text? (t.intern s).1 = some s := by
  cases hs : t.lookup s with
  | some a =>
    rw [intern_of_lookup hs]
    exact h.text?_of_lookup (Nat.le_of_lt hsize) hs
  | none =>
    have hback : (UInt32.ofNat t.size).toNat = t.size := UInt32.toNat_ofNat_of_lt' hsize
    rw [intern_of_new hs, text?, hback]
    exact Array.getElem?_push_size

/-! ## Histories of texts -/

theorem interned_append (pre rest : List String) : interned (pre ++ rest) = (interned pre).internAll rest :=
  List.foldl_append

theorem interned_concat (ss : List String) (s : String) : interned (ss ++ [s]) = ((interned ss).intern s).2 :=
  interned_append ss [s]

theorem prefix_interned (h : pre <+: ss) : (interned pre).texts.toList <+: (interned ss).texts.toList := by
  obtain ⟨rest, rfl⟩ := h
  rw [interned_append]
  exact prefix_internAll _ rest

theorem mem_interned : text ∈ (interned ss).texts ↔ text ∈ ss := by
  induction ss using List.reverseRecOn with
  | nil => simp [interned, internAll, empty]
  | append_singleton ss s ih =>
    rw [interned_concat, mem_intern (indexed_interned ss), ih, List.mem_append, List.mem_singleton]

/-- The table is as large as there are texts. -/
theorem size_interned (ss : List String) : (interned ss).size = ss.toFinset.card := by
  have hset : (interned ss).texts.toList.toFinset = ss.toFinset := by
    ext text
    rw [List.mem_toFinset, List.mem_toFinset, Array.mem_toList_iff, mem_interned]
  rw [← hset, List.toFinset_card_of_nodup (indexed_interned ss).nodup]
  rfl

/-- In the table that a history leads to, the atom that was given out on the way has the text that it was given for. -/
theorem text?_interned {pre : List String} (hfew : ss.toFinset.card < 2 ^ 32) (h : pre ++ [s] <+: ss) :
    (interned ss).text? ((interned pre).intern s).1 = some s := by
  have hpre : pre <+: ss := (List.prefix_append pre [s]).trans h
  have hsize : (interned pre).size < 2 ^ 32 :=
    Nat.lt_of_le_of_lt (prefix_interned hpre).length_le ((size_interned ss).trans_lt hfew)
  refine text?_of_prefix (prefix_interned h) ?_
  rw [interned_concat]
  exact text?_intern (indexed_interned pre) hsize s

end AtomTable

/-! ## Strings -/

namespace Value

theorem strictEquals_string (a b : Atom) : strictEquals (.string a) (.string b) = true ↔ a = b := by
  have hnumber (c : Atom) : (Value.string c).asNumber = none := Content.asNumber_box (.string c)
  have hbits : Value.string a = Value.string b ↔ a = b :=
    (@Content.box_eq_iff (.string a) (.string b)).trans (by simp [Content.isNaN])
  rw [strictEquals, hnumber, hnumber, ← hbits]
  exact beq_iff_eq

/-- With a string, to add is to intern. -/
theorem arith_add_string {a b : Value} (t : AtomTable) (h : a.isString = true ∨ b.isString = true) :
    arith t .add a b = (.ok (.string (t.intern (a.spelled t ++ b.spelled t)).1),
      (t.intern (a.spelled t ++ b.spelled t)).2) :=
  if_pos ⟨rfl, h⟩

end Value

namespace AtomTable

/-- After every history with fewer texts than there are atoms: a text has an atom exactly if the atom has the text; the
    atoms in use are those below the size, which is the number of texts; atoms keep their texts; a text that is known
    gets its atom again and the table stays as it is. Strings of atoms that were given out at any times are equal
    exactly if the texts are that they were given out for. A sum with a string has the text that the operands' texts
    make up; the table after it is that of a longer history, so the same holds of it. -/
theorem interning_is_a_growing_bijection (ss : List String) (hfew : ss.toFinset.card < 2 ^ 32) :
    (∀ s a, (interned ss).lookup s = some a ↔ (interned ss).text? a = some s) ∧
    ((interned ss).size = ss.toFinset.card ∧
      ∀ a, (∃ s, (interned ss).text? a = some s) ↔ a.index.toNat < (interned ss).size) ∧
    (∀ pre, pre <+: ss → ∀ a s, (interned pre).text? a = some s → (interned ss).text? a = some s) ∧
    (∀ s a, (interned ss).lookup s = some a → (interned ss).intern s = (a, interned ss)) ∧
    (∀ pre s pre' s', pre ++ [s] <+: ss → pre' ++ [s'] <+: ss →
      (interned ss).text? ((interned pre).intern s).1 = some s ∧
      (Value.strictEquals (.string ((interned pre).intern s).1) (.string ((interned pre').intern s').1) =
        true ↔ s = s')) ∧
    (∀ a b : Value, a.isString = true ∨ b.isString = true →
      ∃ c t, Value.arith (interned ss) .add a b = (.ok (.string c), t) ∧
        t.text? c = some (a.spelled (interned ss) ++ b.spelled (interned ss)) ∧
        t = interned (ss ++ [a.spelled (interned ss) ++ b.spelled (interned ss)]) ∧
        ∀ old s, (interned ss).text? old = some s → t.text? old = some s) := by
  have hsize : (interned ss).size < 2 ^ 32 := (size_interned ss).trans_lt hfew
  have hindexed := indexed_interned ss
  refine ⟨fun s a => ⟨hindexed.text?_of_lookup (Nat.le_of_lt hsize), hindexed.lookup_of_text?⟩,
    ⟨size_interned ss, fun a => ?_⟩, fun pre hpre a s => text?_of_prefix (prefix_interned hpre),
    fun s a => intern_of_lookup, fun pre s pre' s' h h' => ?_, fun a b hstring => ?_⟩
  · rw [← Option.isSome_iff_exists]
    simp [text?, size]
  · have htext := text?_interned hfew h
    have htext' := text?_interned hfew h'
    refine ⟨htext, ?_⟩
    rw [Value.strictEquals_string]
    constructor
    · intro heq
      rw [heq, htext'] at htext
      exact (Option.some.inj htext).symm
    · rintro rfl
      have hlookup := hindexed.lookup_of_text? htext
      rw [hindexed.lookup_of_text? htext'] at hlookup
      exact (Option.some.inj hlookup).symm
  · refine ⟨_, _, Value.arith_add_string (interned ss) hstring, text?_intern hindexed hsize _,
      (interned_concat ss _).symm, fun old s => ?_⟩
    exact text?_of_prefix (prefix_intern _ _)

def echoes : List String := ["ab", "a", "b", "a"]

theorem interning_is_a_growing_bijection_echoes :
    Value.strictEquals (.string ((interned ["ab"]).intern "a").1)
      (.string ((interned ["ab", "a", "b"]).intern "a").1) = true ∧
      Value.strictEquals (.string ((interned ["ab"]).intern "a").1) (.string ((interned []).intern "ab").1) = false ∧
      ∃ c t, Value.arith (interned echoes) .add (.string ⟨1⟩) (.string ⟨2⟩) = (.ok (.string c), t) ∧
        t.text? c = some "ab" := by
  obtain ⟨_, _, _, _, hequal, hadd⟩ := interning_is_a_growing_bijection echoes (by decide)
  obtain ⟨c, t, hsum, htext, _⟩ := hadd (.string ⟨1⟩) (.string ⟨2⟩) (.inl rfl)
  have hspelled : (Value.string ⟨1⟩).spelled (interned echoes) ++ (Value.string ⟨2⟩).spelled (interned echoes) =
    "ab" := by cbv
  refine ⟨(hequal ["ab"] "a" ["ab", "a", "b"] "a" (by decide) (by decide)).2.mpr rfl, ?_, c, t, hsum, hspelled ▸ htext⟩
  exact Bool.eq_false_iff.mpr fun h => absurd ((hequal ["ab"] "a" [] "ab" (by decide) (by decide)).2.mp h) (by decide)

end AtomTable
end BaselineTier
