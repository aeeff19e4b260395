/-
  BaselineTier.Proofs.Properties — the properties of an object as a map.

  A property is kept under the pattern of its key, after a number that is a small integer has
  been boxed as one. So keys name the same property if they are equal as values, whichever way
  a number is boxed, and all NaNs name one; but the negative zero, which is equal to zero, is
  boxed as a double and names a property of its own (`canonicalKey_eq_iff`).

  Main statement: what is set under a key is read back under the keys that name the same
  property, and nothing else changes (`property_stores_are_maps`).
-/

import BaselineTier.Proofs.WholeNumbers
import BaselineTier.Realm
import BaselineTier.Semantics.Operators

namespace BaselineTier

open Double

/-! ## Keys -/

namespace Double

variable {x y : Double}

theorem canonical_eq_negZero_iff : x.canonical = negZero ↔ x = negZero := by
  have hiff := @canonical_eq_iff x negZero
  rwa [canonical_of_not_isNaN (d := negZero) (by decide), and_comm, or_iff_left (fun h => by cases h.1)] at hiff

/-- The same double twice, up to NaNs: numbers that are equal, with zeros told apart. -/
theorem eq_or_isNaN_iff : x = y ∨ (x.isNaN = true ∧ y.isNaN = true) ↔
    (x.eq y = true ∧ (x = negZero ↔ y = negZero)) ∨ (x.isNaN = true ∧ y.isNaN = true) := by
  constructor
  · rintro (rfl | hnan)
    · cases hx : x.isNaN with
      | true => exact .inr ⟨rfl, rfl⟩
      | false => exact .inl ⟨eq_iff.mpr ⟨⟨hx, hx⟩, rfl⟩, Iff.rfl⟩
    · exact .inr hnan
  · rintro (⟨heq, hzero⟩ | hnan)
    · exact .inl (eq_of_scaled_eq (eq_iff.mp heq).2 hzero)
    · exact .inr hnan

end Double

namespace Content

variable {c c' : Content} {x : Double}

def number? : Content → Option Double
  | int32 n => some (.ofInt n.toInt)
  | double d => some d.canonical
  | _ => none

theorem asNumber_box (c : Content) : c.box.asNumber = c.number? := by
  rw [Value.asNumber, asInt32_box, asDouble_box]
  cases c <;> rfl

theorem isNaN_of_number? (h : c.number? = some x) : c.isNaN = x.isNaN := by
  cases c with
  | int32 n =>
    cases h
    exact (isNaN_eq_false_of_isFinite (isFinite_ofInt (Value.natAbs_toInt_lt n))).symm
  | double d =>
    cases h
    exact (isNaN_canonical d).symm
  | _ => cases h

theorem isNaN_of_number?_eq_none (h : c.number? = none) : c.isNaN = false := by
  cases c with
  | double d => cases h
  | _ => rfl

theorem eq_negZero_iff (h : c.number? = some x) : c = .double negZero ↔ x = negZero := by
  cases c with
  | int32 n =>
    cases h
    exact iff_of_false (fun hc => by cases hc) (ofInt_ne_negZero (Value.natAbs_toInt_lt n))
  | double d =>
    cases h
    rw [Content.double.injEq, canonical_eq_negZero_iff]
  | _ => cases h

/-- The two keys name the same property: they are equal and not just one of them is the negative zero, or both are
    NaN. -/
def SameKey (c c' : Content) : Prop :=
  (Value.strictEquals c.box c'.box = true ∧ (c = .double negZero ↔ c' = .double negZero)) ∨
    (c.isNaN = true ∧ c'.isNaN = true)

instance (c c' : Content) : Decidable (c.SameKey c') := inferInstanceAs (Decidable (_ ∨ _))

theorem canonicalKey_number (h : c.number? = some x) : Realm.canonicalKey c.box = .number x := by
  rw [Realm.canonicalKey, asDouble_box]
  cases c with
  | int32 n =>
    cases h
    exact (Value.number_ofInt n).symm
  | double d =>
    cases h
    rfl
  | _ => cases h

theorem canonicalKey_other (h : c.number? = none) : Realm.canonicalKey c.box = c.box := by
  rw [Realm.canonicalKey, asDouble_box]
  cases c with
  | double d => cases h
  | _ => rfl

theorem number_ne_box (h : c.number? = none) : Value.number x ≠ c.box := by
  obtain ⟨n, hn, _⟩ | ⟨hd, _⟩ := Value.number_cases x
  · rw [hn]
    exact mt (@box_eq_iff (.int32 n) c).mp (by rintro (rfl | ⟨hnan, _⟩); cases h; cases hnan)
  · rw [hd]
    refine mt (@box_eq_iff (.double x) c).mp ?_
    rintro (rfl | ⟨_, hnan⟩)
    · cases h
    · rw [isNaN_of_number?_eq_none h] at hnan
      cases hnan

/-- Properties are kept under the same key exactly if the keys that were given name the same property. -/
theorem canonicalKey_eq_iff : Realm.canonicalKey c.box = Realm.canonicalKey c'.box ↔ c.SameKey c' := by
  rw [SameKey, Value.strictEquals, asNumber_box, asNumber_box]
  cases hc : c.number? with
  | some x =>
    cases hc' : c'.number? with
    | some y =>
      rw [canonicalKey_number hc, canonicalKey_number hc', Value.number_eq_number_iff, eq_or_isNaN_iff,
        eq_negZero_iff hc,
        eq_negZero_iff hc', isNaN_of_number? hc, isNaN_of_number? hc']
    | none =>
      rw [canonicalKey_number hc, canonicalKey_other hc', isNaN_of_number?_eq_none hc']
      exact iff_of_false (number_ne_box hc') (by simp)
  | none =>
    cases hc' : c'.number? with
    | some y =>
      rw [canonicalKey_other hc, canonicalKey_number hc', isNaN_of_number?_eq_none hc]
      exact iff_of_false (number_ne_box hc).symm (by simp)
    | none =>
      have hzero {k : Content} (hk : k.number? = none) : k ≠ .double negZero := by rintro rfl; cases hk
      rw [canonicalKey_other hc, canonicalKey_other hc', isNaN_of_number?_eq_none hc]
      simp [hzero hc, hzero hc']

end Content

/-! ## Maps of properties -/

theorem Properties.get?_cons (p : Value × Value) (ps : Properties) (k : Value) :
    get? (p :: ps) k = if p.1 = k then some p.2 else ps.get? k := by
  by_cases h : p.1 = k <;> simp [get?, h]

/-- Reading after a write. -/
theorem Properties.get?_insert (key value : Value) (ps : Properties) (k : Value) :
    (insert key value ps).get? k = if key = k then some value else ps.get? k := by
  induction ps with
  | nil => exact get?_cons (key, value) [] k
  | cons p rest ih =>
    rw [insert]
    split
    · rw [get?_cons]
    · split
      · rename_i hp
        rw [get?_cons, get?_cons, hp]
        split <;> rfl
      · rename_i hp
        rw [get?_cons, get?_cons, ih]
        split
        · rename_i hk
          rw [if_neg (fun hkey => hp (hk.trans hkey.symm))]
        · rfl

namespace Realm

variable {r : Realm} {o : Value} {ps : Properties}

/-! ## Objects of a realm -/

theorem not_isNullish_of_asObject {handle : UInt32} (h : o.asObject = some handle) : o.isNullish = false := by
  unfold Value.asObject at h
  split at h
  · rename_i htest
    have htype : o.type = .object := Content.type_of_test (t := .object) htest
    have hne {v : Value} (hv : v.type ≠ .object) : (o == v) = false := by
      rw [beq_eq_false_iff_ne]
      rintro rfl
      exact hv htype
    rw [Value.isNullish, Value.isNull, Value.isUndefined, hne (by decide), hne (by decide)]
    rfl
  · cases h

theorem getProperty_plain (ho : r.object? o = some (.plain ps)) (key : Value) :
    r.getProperty o key = .ok ((ps.get? (canonicalKey key)).getD .undefined) := by
  obtain ⟨handle, hhandle, _⟩ := Option.bind_eq_some_iff.mp ho
  rw [getProperty, not_isNullish_of_asObject hhandle, ho]
  rfl

/-- A plain object is written to in place. -/
theorem setProperty_plain (ho : r.object? o = some (.plain ps)) (key value : Value) :
    ∃ r', r.setProperty o key value = .ok r' ∧ r'.globals = r.globals ∧
      r'.object? o = some (.plain (ps.insert (canonicalKey key) value)) ∧
      ∀ o' : Value, o'.asObject ≠ o.asObject → r'.object? o' = r.object? o' := by
  obtain ⟨handle, hhandle, hobject⟩ := Option.bind_eq_some_iff.mp ho
  have hbound : handle.toNat < r.objects.size := (Array.getElem?_eq_some_iff.mp hobject).1
  refine ⟨{ r with objects := r.objects.setIfInBounds handle.toNat (.plain (ps.insert (canonicalKey key) value)) }, ?_,
    rfl, ?_,
    fun o' hother => ?_⟩
  · rw [setProperty, not_isNullish_of_asObject hhandle]
    simp only [Bool.false_eq_true, if_false, hhandle, hobject]
  · rw [object?, hhandle, Option.bind_some, Array.getElem?_setIfInBounds_self_of_lt hbound]
  · rw [object?, object?]
    cases hhandle' : o'.asObject with
    | none => rfl
    | some handle' =>
      have hne : handle.toNat ≠ handle'.toNat := by
        intro heq
        exact hother (by rw [hhandle, hhandle', UInt32.toNat_inj.mp heq])
      exact Array.getElem?_setIfInBounds_ne hne

/-- A write to a plain object is read back under every key that names the same property: an equal one, whichever way a
    number is boxed, or a NaN for a NaN. Only the negative zero does not name the property of the other zeros. Under the
    other keys nothing changes, nor does any global or any other object. -/
theorem property_stores_are_maps (ho : r.object? o = some (.plain ps)) (k₁ : Content) (v : Value) :
    ∃ r', r.setProperty o k₁.box v = .ok r' ∧
      (∀ k₂ : Content, r'.getProperty o k₂.box = if k₁.SameKey k₂ then .ok v else r.getProperty o k₂.box) ∧
      (∀ name, r'.global? name = r.global? name) ∧
      ∀ o' : Value, o'.asObject ≠ o.asObject →
        r'.object? o' = r.object? o' ∧ ∀ key, r'.getProperty o' key = r.getProperty o' key := by
  obtain ⟨r', hset, hglobals, ho', hothers⟩ := setProperty_plain ho k₁.box v
  refine ⟨r', hset, fun k₂ => ?_, fun name => by rw [global?, hglobals]; rfl,
    fun o' hother => ⟨hothers o' hother, fun key => ?_⟩⟩
  · rw [getProperty_plain ho', getProperty_plain ho, Properties.get?_insert]
    by_cases hsame : k₁.SameKey k₂
    · rw [if_pos hsame, if_pos (Content.canonicalKey_eq_iff.mpr hsame)]
      rfl
    · rw [if_neg hsame, if_neg (mt Content.canonicalKey_eq_iff.mp hsame)]
  · rw [getProperty, getProperty, hothers o' hother]

def furnished : Realm := { objects := #[.native .first, .plain [(.int32 1, .bool true)]] }

/-- The double 1 names the property that 1 does. -/
theorem property_stores_are_maps_furnished :
    ∃ r', furnished.setProperty (.object 1) (.double one) .null = .ok r' ∧
      r'.getProperty (.object 1) (.int32 1) = .ok .null := by
  obtain ⟨r', hset, hget, _⟩ := property_stores_are_maps (r := furnished) (o := .object 1) rfl (.double one) .null
  exact ⟨r', hset, (hget (.int32 1)).trans (if_pos (.inl ⟨by decide, by decide⟩))⟩

theorem canonicalKey_negZero : canonicalKey (.double negZero) = .double negZero := by
  have hkey : canonicalKey (.double negZero) = .number negZero := rfl
  obtain ⟨_, _, _, hzero⟩ | ⟨hnumber, _⟩ := Value.number_cases negZero
  · exact absurd rfl hzero
  · exact hkey.trans hnumber

/-- What is set under zero is not found under the negative zero, which is equal to it. -/
theorem negative_zero_names_another_property : Value.strictEquals (.int32 0) (.double negZero) = true ∧
    ∃ r', furnished.setProperty (.object 1) (.int32 0) .null = .ok r' ∧
      r'.getProperty (.object 1) (.int32 0) = .ok .null ∧
      r'.getProperty (.object 1) (.double negZero) = .ok .undefined := by
  refine ⟨by decide, _, rfl, rfl, ?_⟩
  rw [getProperty_plain rfl, canonicalKey_negZero]
  rfl

end Realm
end BaselineTier
