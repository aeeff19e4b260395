/-
  BaselineTier.Proofs.Numbering — an index kept beside the texts that it numbers.

  The table of atoms and the builder keep their texts twice: each at its place, and in an
  index that gives the number of a text. A number is read at its place and a text is looked
  up in the index, so the one undoes the other only as long as the two have not drifted
  apart. `Numbering` says that they have not. A new text goes behind the others and into the
  index at once, which keeps it (`Numbering.push`), and so every history of texts does
  (`AtomTable.indexed_interned`).
-/

import BaselineTier.Atom
import BaselineTier.Program.Builder
import Mathlib.Data.List.Perm.Subperm

namespace BaselineTier

variable {α : Type}

/-- No text has two places, and the index knows each by the number of its place, and no others. -/
structure Numbering (number : Nat → α) (texts : Array String) (index : List (String × α)) : Prop where
  nodup : texts.toList.Nodup
  lookup_iff : ∀ {text a}, index.lookup text = some a ↔ ∃ place, texts[place]? = some text ∧ number place = a

namespace Numbering

variable {number : Nat → α} {texts : Array String} {index : List (String × α)} {text : String}

theorem empty (number : Nat → α) : Numbering number #[] [] := by
  refine ⟨List.nodup_nil, fun {text a} => ⟨fun h => ?_, ?_⟩⟩
  · cases h
  · rintro ⟨place, hplace, _⟩
    cases hplace

theorem isSome_iff (h : Numbering number texts index) : (index.lookup text).isSome = true ↔ text ∈ texts := by
  rw [Option.isSome_iff_exists, Array.mem_iff_getElem?]
  constructor
  · rintro ⟨a, ha⟩
    obtain ⟨place, hplace, _⟩ := h.lookup_iff.mp ha
    exact ⟨place, hplace⟩
  · rintro ⟨place, hplace⟩
    exact ⟨_, h.lookup_iff.mpr ⟨place, hplace, rfl⟩⟩

/-- A text that the index does not know goes behind the others, and into the index with the number of that place. -/
theorem push (h : Numbering number texts index) (hnew : index.lookup text = none) :
    Numbering number (texts.push text) ((text, number texts.size) :: index) := by
  have hout : text ∉ texts := fun hmem => by
    rw [← h.isSome_iff, hnew] at hmem
    cases hmem
  refine ⟨?_, fun {other a} => ?_⟩
  · rw [Array.toList_push, List.nodup_append]
    refine ⟨h.nodup, by simp, ?_⟩
    rintro x hx y hy rfl
    rw [List.mem_singleton.mp hy] at hx
    exact hout (Array.mem_toList_iff.mp hx)
  · by_cases heq : other = text
    · -- The last place is the only one of the new text.
      subst heq
      rw [List.lookup_cons_self]
      constructor
      · intro ha
        exact ⟨texts.size, Array.getElem?_push_size, Option.some.inj ha⟩
      · rintro ⟨place, hplace, rfl⟩
        rw [Array.getElem?_push] at hplace
        split at hplace
        · rename_i hlast
          rw [hlast]
        · exact absurd (Array.mem_of_getElem? hplace) hout
    · -- For the others both the index and the places are what they were.
      rw [List.lookup_cons, beq_false_of_ne heq, h.lookup_iff]
      refine exists_congr fun place => and_congr_left fun _ => ?_
      rw [Array.getElem?_push]
      split
      · rename_i hlast
        rw [hlast, Array.getElem?_size]
        exact iff_of_false nofun fun hsame => heq (Option.some.inj hsame).symm
      · rfl

end Numbering

def Builder.Indexed (b : Builder) : Prop := Numbering UInt32.ofNat b.atoms b.index

theorem Builder.indexed_atom {b : Builder} (h : b.Indexed) (text : String) : (b.atom text).2.Indexed := by
  unfold atom
  split
  · exact h
  · rename_i hnew
    exact h.push hnew

/-! ## Interning -/

namespace AtomTable

variable {t t' : AtomTable} {s text : String} {a : Atom} {ss pre : List String}

theorem intern_of_lookup (h : t.lookup s = some a) : t.intern s = (a, t) := by rw [intern, h]

theorem intern_of_new (h : t.lookup s = none) : t.intern s =
    (⟨UInt32.ofNat t.size⟩, ⟨t.texts.push s, (s, ⟨UInt32.ofNat t.size⟩) :: t.byText⟩) := by
  rw [intern, h]
  rfl

theorem lookup_intern_self (t : AtomTable) (s : String) : (t.intern s).2.lookup s = some (t.intern s).1 := by
  cases h : t.lookup s with
  | some a =>
    rw [intern_of_lookup h]
    exact h
  | none =>
    rw [intern_of_new h]
    exact List.lookup_cons_self

theorem lookup_intern (h : t.lookup text = some a) (s : String) : (t.intern s).2.lookup text = some a := by
  cases hs : t.lookup s with
  | some b =>
    rw [intern_of_lookup hs]
    exact h
  | none =>
    have hne : text ≠ s := fun heq => by rw [heq, hs] at h; cases h
    rw [intern_of_new hs, lookup, List.lookup_cons, beq_false_of_ne hne]
    exact h

/-- A text keeps its atom. -/
theorem lookup_internAll (h : t.lookup text = some a) (ss : List String) : (t.internAll ss).lookup text = some a := by
  induction ss generalizing t with
  | nil => exact h
  | cons s ss ih => exact ih (lookup_intern h s)

theorem lookup_internAll_of_mem (h : text ∈ ss) (t : AtomTable) : ((t.internAll ss).lookup text).isSome = true := by
  induction ss generalizing t with
  | nil => cases h
  | cons s ss ih =>
    by_cases hmem : text ∈ ss
    · exact ih hmem _
    · obtain rfl : text = s := (List.mem_cons.mp h).resolve_right hmem
      show ((internAll (t.intern text).2 ss).lookup text).isSome = true
      rw [lookup_internAll (lookup_intern_self t text)]
      rfl

/-- What is new is put behind what is there. -/
theorem prefix_intern (t : AtomTable) (s : String) : t.texts.toList <+: (t.intern s).2.texts.toList := by
  cases h : t.lookup s with
  | some a =>
    have hsame : (t.intern s).2 = t := by rw [intern_of_lookup h]
    exact hsame.symm ▸ List.prefix_rfl
  | none =>
    rw [intern_of_new h, Array.toList_push]
    exact List.prefix_append _ _

theorem prefix_internAll (t : AtomTable) (ss : List String) : t.texts.toList <+: (t.internAll ss).texts.toList := by
  induction ss generalizing t with
  | nil => exact List.prefix_rfl
  | cons s ss ih => exact (t.prefix_intern s).trans (ih _)

/-! ## Histories of texts -/

def Indexed (t : AtomTable) : Prop := Numbering (fun place => (⟨UInt32.ofNat place⟩ : Atom)) t.texts t.byText

theorem Indexed.intern (h : t.Indexed) (s : String) : (t.intern s).2.Indexed := by
  cases hs : t.lookup s with
  | some a =>
    rw [intern_of_lookup hs]
    exact h
  | none =>
    rw [intern_of_new hs]
    exact h.push hs

theorem Indexed.internAll (h : t.Indexed) (ss : List String) : (t.internAll ss).Indexed := by
  induction ss generalizing t with
  | nil => exact h
  | cons s ss ih => exact ih (h.intern s)

def interned (ss : List String) : AtomTable := empty.internAll ss

theorem indexed_interned (ss : List String) : (interned ss).Indexed := by
  have hempty : Indexed empty := Numbering.empty _
  exact hempty.internAll ss

/-- An atom that was looked up has the text that it was looked up by. Atoms are 32-bit numbers. -/
theorem Indexed.text?_of_lookup (h : t.Indexed) (hsize : t.size ≤ 2 ^ 32) (ha : t.lookup text = some a) :
    t.text? a = some text := by
  obtain ⟨place, hplace, rfl⟩ := h.lookup_iff.mp ha
  have hlt : place < t.size := (Array.getElem?_eq_some_iff.mp hplace).1
  have hback : (UInt32.ofNat place).toNat = place := UInt32.toNat_ofNat_of_lt' (Nat.lt_of_lt_of_le hlt hsize)
  rw [text?, hback, hplace]

/-- An atom that is in use is found by its text. -/
theorem Indexed.lookup_of_text? (h : t.Indexed) (ha : t.text? a = some text) : t.lookup text = some a := by
  refine h.lookup_iff.mpr ⟨a.index.toNat, ha, ?_⟩
  rw [UInt32.ofNat_toNat]

/-- Texts that differ take up as many places. -/
theorem Indexed.length_le_size (h : t.Indexed) {texts : List String} (hnodup : texts.Nodup)
    (hknown : ∀ text ∈ texts, (t.lookup text).isSome = true) : texts.length ≤ t.size := by
  have hsub : texts ⊆ t.texts.toList := fun text ht => Array.mem_toList_iff.mpr (h.isSome_iff.mp (hknown text ht))
  simpa [size] using (List.subperm_of_subset hnodup hsub).length_le

end AtomTable
end BaselineTier
