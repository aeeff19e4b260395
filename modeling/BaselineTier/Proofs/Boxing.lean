/-
  BaselineTier.Proofs.Boxing — what is put into a value comes out of it.

  A value is built from a double, a small integer, a Boolean, an atom, an object's handle, or
  from nothing (`Content`). The top sixteen bits tell which: a tagged value has its tag there
  (`top_tagged`), and a double stays below all tags because a NaN is stored in one pattern
  (`top_double`). The low bits of a tagged value are its payload, whatever the tag (`word_tagged`).

  Main statement: type, tests and accessors give back what a value was built from, and values
  have the same bits exactly if they were built from the same, all NaNs counting as one
  (`boxing_is_faithful`).
-/

import BaselineTier.Value
import Mathlib

namespace BaselineTier

/-! ## NaNs -/

namespace Double

theorem magnitude_eq (d : Double) : d.magnitude = d.bits.toNat % 2 ^ 63 := by
  rw [magnitude, UInt64.toNat_mod]
  rfl

theorem bits_le_of_not_isNaN {d : Double} (h : d.isNaN = false) : d.bits.toNat ≤ 0xFFF0000000000000 := by
  have hlt := d.bits.toNat_lt
  have hle : d.magnitude ≤ infinityMagnitude := by simpa [isNaN] using h
  rw [magnitude_eq, infinityMagnitude] at hle
  omega

theorem canonical_of_isNaN {d : Double} (h : d.isNaN = true) : d.canonical = nan := if_pos h

theorem canonical_of_not_isNaN {d : Double} (h : d.isNaN = false) : d.canonical = d := if_neg (Bool.eq_false_iff.mp h)

theorem isNaN_canonical (d : Double) : d.canonical.isNaN = d.isNaN := by
  cases h : d.isNaN with
  | true => rw [canonical_of_isNaN h]; rfl
  | false => rw [canonical_of_not_isNaN h, h]

/-- Doubles are stored alike exactly if they are the same pattern or both no number. -/
theorem canonical_eq_iff {d e : Double} : d.canonical = e.canonical ↔ d = e ∨ d.isNaN = true ∧ e.isNaN = true := by
  constructor
  · intro h
    have hnan : d.isNaN = e.isNaN := by rw [← isNaN_canonical d, h, isNaN_canonical]
    cases hd : d.isNaN with
    | true => exact .inr ⟨rfl, hnan ▸ hd⟩
    | false =>
      left
      rwa [canonical_of_not_isNaN hd, canonical_of_not_isNaN (hnan ▸ hd)] at h
  · rintro (rfl | ⟨hd, he⟩)
    · rfl
    · rw [canonical_of_isNaN hd, canonical_of_isNaN he]

end Double

/-! ## Contents -/

inductive Content where
  | double (d : Double)
  | int32 (n : Int32)
  | bool (b : Bool)
  | string (a : Atom)
  | object (handle : UInt32)
  | undefined
  | null
  | hole
deriving DecidableEq, Repr

namespace Content

def box : Content → Value
  | double d => .double d
  | int32 n => .int32 n
  | bool b => .bool b
  | string a => .string a
  | object handle => .object handle
  | undefined => .undefined
  | null => .null
  | hole => .hole

def type : Content → ValueType
  | double _ => .double
  | int32 _ => .int32
  | bool _ => .boolean
  | string _ => .string
  | object _ => .object
  | undefined => .undefined
  | null => .null
  | hole => .magic

def double? : Content → Option Double
  | double d => some d.canonical
  | _ => none

def int32? : Content → Option Int32
  | int32 n => some n
  | _ => none

def bool? : Content → Option Bool
  | bool b => some b
  | _ => none

def string? : Content → Option Atom
  | string a => some a
  | _ => none

def object? : Content → Option UInt32
  | object handle => some handle
  | _ => none

def isNaN : Content → Bool
  | double d => d.isNaN
  | _ => false

end Content

namespace Value

def test (v : Value) : ValueType → Bool
  | .double => v.isDouble
  | .int32 => v.isInt32
  | .boolean => v.isBool
  | .string => v.isString
  | .undefined => v.isUndefined
  | .null => v.isNull
  | .object => v.isObject
  | .magic => v.isHole

/-! ## The parts of a tagged value -/

variable {tag payload : UInt64}

theorem top_tagged (htag : tag.toNat < 8) (hpayload : payload.toNat < 2 ^ 48) :
    (tagged tag payload).top = 0xFFF8 + tag.toNat := by
  simp only [top, tagged, UInt64.toNat_div, UInt64.toNat_add, UInt64.toNat_mul]
  simp only [UInt64.reduceToNat]
  omega

/-- The tag does not reach into the low bits. -/
theorem word_tagged (tag payload : UInt64) : (tagged tag payload).word = payload.toUInt32 := by
  apply UInt32.toNat.inj
  simp only [word, tagged, UInt64.toNat_toUInt32, UInt64.toNat_add, UInt64.toNat_mul]
  simp only [UInt64.reduceToNat]
  omega

theorem top_double (d : Double) : (double d).top < 0xFFF8 := by
  have hbits : d.canonical.bits.toNat ≤ 0xFFF0000000000000 := by
    cases h : d.isNaN with
    | true =>
      rw [Double.canonical_of_isNaN h]
      decide
    | false =>
      rw [Double.canonical_of_not_isNaN h]
      exact Double.bits_le_of_not_isNaN h
  simp only [top, double, UInt64.toNat_div]
  simp only [UInt64.reduceToNat]
  omega

end Value

namespace Content

open Value

/-! ## From the bits back to the content -/

/-- What the top bits of a type's values are, doubles apart. -/
def marker : ValueType → Nat
  | .object => 0xFFF8
  | .int32 => 0xFFF9
  | .boolean => 0xFFFA
  | .string => 0xFFFB
  | .undefined => 0xFFFC
  | .magic => 0xFFFD
  | .null => 0xFFFE
  | .double => 0

theorem top_box {c : Content} (h : c.type ≠ .double) : c.box.top = marker c.type := by
  cases c with
  | double d => exact absurd rfl h
  | int32 n => exact top_tagged (by decide) (Nat.lt_trans n.toUInt32.toNat_lt (by decide))
  | bool b => cases b <;> rfl
  | string a => exact top_tagged (by decide) (Nat.lt_trans a.index.toNat_lt (by decide))
  | object handle => exact top_tagged (by decide) (Nat.lt_trans handle.toNat_lt (by decide))
  | undefined => rfl
  | null => rfl
  | hole => rfl

theorem type_box (c : Content) : c.box.type = c.type := by
  cases c with
  | double d => exact if_pos (top_double d)
  | _ =>
    rw [Value.type, top_box (by simp [type])]
    rfl

/-- A value passes the test for its own type only. -/
theorem type_of_test {v : Value} {t : ValueType} (h : v.test t = true) : v.type = t := by
  cases t with
  | double => exact if_pos (of_decide_eq_true h)
  | undefined => rw [(eq_of_beq h : v = .undefined)]; rfl
  | null => rw [(eq_of_beq h : v = .null)]; rfl
  | _ =>
    rw [Value.type, (eq_of_beq h : v.top = _)]
    rfl

theorem test_box (c : Content) (t : ValueType) : c.box.test t = decide (t = c.type) := by
  rw [Bool.eq_iff_iff, decide_eq_true_iff]
  refine ⟨fun h => (type_of_test h).symm.trans (type_box c), ?_⟩
  rintro rfl
  cases c with
  | double d => exact decide_eq_true (top_double d)
  | undefined => rfl
  | null => rfl
  | _ => exact beq_iff_eq.mpr (top_box (by simp [type]))

theorem asDouble_box (c : Content) : c.box.asDouble = c.double? := by
  have htest : c.box.isDouble = decide (.double = c.type) := test_box c .double
  rw [asDouble, htest]
  cases c <;> rfl

theorem asInt32_box (c : Content) : c.box.asInt32 = c.int32? := by
  have htest : c.box.isInt32 = decide (.int32 = c.type) := test_box c .int32
  rw [asInt32, htest]
  cases c with
  | int32 n =>
    show some (Value.int32 n).word.toInt32 = some n
    rw [Value.int32, word_tagged]
    simp
  | _ => rfl

theorem asBool_box (c : Content) : c.box.asBool = c.bool? := by
  have htest : c.box.isBool = decide (.boolean = c.type) := test_box c .boolean
  rw [asBool, htest]
  cases c with
  | bool b => cases b <;> rfl
  | _ => rfl

theorem asString_box (c : Content) : c.box.asString = c.string? := by
  have htest : c.box.isString = decide (.string = c.type) := test_box c .string
  rw [asString, htest]
  cases c with
  | string a =>
    show some (Atom.mk (Value.string a).word) = some a
    rw [Value.string, word_tagged]
    simp
  | _ => rfl

theorem asObject_box (c : Content) : c.box.asObject = c.object? := by
  have htest : c.box.isObject = decide (.object = c.type) := test_box c .object
  rw [asObject, htest]
  cases c with
  | object handle =>
    show some (Value.object handle).word = some handle
    rw [Value.object, word_tagged]
    simp
  | _ => rfl

/-- Contents that are boxed alike are the same, as far as values keep them apart. -/
theorem box_eq_iff {c c' : Content} : c.box = c'.box ↔ c = c' ∨ c.isNaN = true ∧ c'.isNaN = true := by
  constructor
  · intro h
    have htype : c.type = c'.type := by rw [← type_box, h, type_box]
    have hdouble : c.double? = c'.double? := by rw [← asDouble_box, h, asDouble_box]
    have hint32 : c.int32? = c'.int32? := by rw [← asInt32_box, h, asInt32_box]
    have hbool : c.bool? = c'.bool? := by rw [← asBool_box, h, asBool_box]
    have hstring : c.string? = c'.string? := by rw [← asString_box, h, asString_box]
    have hobject : c.object? = c'.object? := by rw [← asObject_box, h, asObject_box]
    -- The types leave only pairs of one constructor, and the accessor of the type compares their payloads.
    cases c <;> cases c' <;> cases htype
    case mp.double.double.refl => exact (Double.canonical_eq_iff.mp (Option.some.inj hdouble)).imp_left (congrArg _)
    case mp.int32.int32.refl => cases hint32; exact .inl rfl
    case mp.bool.bool.refl => cases hbool; exact .inl rfl
    case mp.string.string.refl => cases hstring; exact .inl rfl
    case mp.object.object.refl => cases hobject; exact .inl rfl
    all_goals exact .inl rfl
  · rintro (rfl | ⟨hc, hc'⟩)
    · rfl
    · cases c with
      | double d =>
        cases c' with
        | double e => rw [box, box, Value.double, Value.double, Double.canonical_eq_iff.mpr (.inr ⟨hc, hc'⟩)]
        | _ => cases hc'
      | _ => cases hc

/-- A value has the type of its content and passes the test for that type only. The accessor of that type gives back the
    content, a NaN as the one that is kept, and every other accessor nothing. Values have the same bits exactly if their
    contents are the same, all NaNs counting as one. -/
theorem boxing_is_faithful (c : Content) :
    c.box.type = c.type ∧ (∀ t, c.box.test t = true ↔ t = c.type) ∧
      c.box.asDouble = c.double? ∧ c.box.asInt32 = c.int32? ∧ c.box.asBool = c.bool? ∧ c.box.asString = c.string? ∧
      c.box.asObject = c.object? ∧
      ∀ c' : Content, c.box.bits = c'.box.bits ↔ c = c' ∨ c.isNaN = true ∧ c'.isNaN = true := by
  refine ⟨type_box c, fun t => by rw [test_box, decide_eq_true_iff], asDouble_box c, asInt32_box c, asBool_box c,
    asString_box c,
    asObject_box c, fun c' => ?_⟩
  rw [← box_eq_iff]
  exact ⟨fun h => congrArg Value.mk h, fun h => congrArg Value.bits h⟩

end Content
end BaselineTier
