/-
  BaselineTier.Proofs.WholeNumbers — the integers among the doubles.

  Every finite double is a whole number of the smallest ones, `2 ^ 1074` of which make one.
  This number grows strictly with the pattern (`unitsOf_strictMono`), so doubles are equal as
  numbers exactly if they are worth the same (`eq_iff`), and a double stands for an integer
  exactly if it is worth that many ones (`toInt?_eq_some_iff`). A small integer is a double
  without rounding (`scaled_ofInt`), and a number that is boxed is told by its double up to
  the pattern of a NaN (`number_eq_number_iff`).
-/

import BaselineTier.Proofs.Boxing

namespace BaselineTier
namespace Double

/-! ## The worth of a pattern -/

def unitsOf (m : Nat) : Nat :=
  (if m / leadingBit = 0 then m % leadingBit else m % leadingBit + leadingBit) * 2 ^ (max (m / leadingBit) 1 - 1)

def scaled (d : Double) : Int := if d.negative then -(unitsOf d.magnitude : Int) else unitsOf d.magnitude

theorem unitsOf_fields {e f : Nat} (hf : f < 2 ^ 52) :
    unitsOf (e * 2 ^ 52 + f) = (if e = 0 then f else f + 2 ^ 52) * 2 ^ (max e 1 - 1) := by
  have he : (e * 2 ^ 52 + f) / 2 ^ 52 = e := by omega
  have hf : (e * 2 ^ 52 + f) % 2 ^ 52 = f := by omega
  rw [unitsOf, leadingBit, he, hf]

theorem unitsOf_strictMono : StrictMono unitsOf := by
  refine strictMono_nat_of_lt_succ fun m => ?_
  obtain ⟨e, f, hf, rfl⟩ : ∃ e f, f < 2 ^ 52 ∧ m = e * 2 ^ 52 + f := ⟨m / 2 ^ 52, m % 2 ^ 52, by omega, by omega⟩
  by_cases hlast : f + 1 < 2 ^ 52
  · rw [Nat.add_assoc, unitsOf_fields hf, unitsOf_fields hlast]
    exact Nat.mul_lt_mul_of_pos_right (by split <;> omega) (Nat.two_pow_pos _)
  · -- The fraction carries into the exponent, where one step is worth twice as much.
    have hcarry : e * 2 ^ 52 + f + 1 = (e + 1) * 2 ^ 52 + 0 := by omega
    rw [hcarry, unitsOf_fields hf, unitsOf_fields (by decide)]
    cases e with
    | zero => simpa using hf
    | succ e =>
      have hpow : 2 ^ 52 * 2 ^ (e + 1) = 2 ^ 53 * 2 ^ e := by rw [← Nat.pow_add, ← Nat.pow_add]; congr 1; omega
      simp only [Nat.add_one_ne_zero, if_false, Nat.zero_add]
      rw [show max (e + 1) 1 - 1 = e by omega, show max (e + 1 + 1) 1 - 1 = e + 1 by omega, hpow]
      exact Nat.mul_lt_mul_of_pos_right (by omega) (Nat.two_pow_pos _)

theorem unitsOf_inj (m m' : Nat) : unitsOf m = unitsOf m' ↔ m = m' := unitsOf_strictMono.injective.eq_iff

theorem unitsOf_eq_zero (m : Nat) : unitsOf m = 0 ↔ m = 0 := by
  rw [← unitsOf_inj m 0]
  rfl

/-! ## Equality -/

variable {d e : Double} {n : Int}

theorem rank_eq_rank_iff : d.rank = e.rank ↔ d.scaled = e.scaled := by
  have hmag := unitsOf_inj d.magnitude e.magnitude
  have hd := unitsOf_eq_zero d.magnitude
  have he := unitsOf_eq_zero e.magnitude
  unfold rank scaled
  cases d.negative <;> cases e.negative <;> simp only [Bool.false_eq_true, if_false, if_true] <;> omega

/-- Doubles are equal if they are numbers worth the same. -/
theorem eq_iff : d.eq e = true ↔ (d.isNaN = false ∧ e.isNaN = false) ∧ d.scaled = e.scaled := by
  simp [eq, rank_eq_rank_iff]

theorem negative_eq (d : Double) : d.negative = decide (2 ^ 63 ≤ d.bits.toNat) := by
  exact decide_eq_decide.mpr UInt64.le_iff_toNat_le

theorem ext_parts (hsign : d.negative = e.negative) (hmag : d.magnitude = e.magnitude) : d = e := by
  have hd := d.bits.toNat_lt
  have he := e.bits.toNat_lt
  rw [negative_eq, negative_eq, decide_eq_decide] at hsign
  rw [magnitude_eq, magnitude_eq] at hmag
  obtain ⟨d⟩ := d
  obtain ⟨e⟩ := e
  congr 1
  apply UInt64.toNat.inj
  simp only at *
  omega

/-- Only the zeros are different doubles of the same worth. -/
theorem eq_of_scaled_eq (h : d.scaled = e.scaled) (hzero : d = negZero ↔ e = negZero) : d = e := by
  have hmag := unitsOf_inj d.magnitude e.magnitude
  have hd := unitsOf_eq_zero d.magnitude
  have he := unitsOf_eq_zero e.magnitude
  have hnegZero {x : Double} (hs : x.negative = true) (hm : x.magnitude = 0) : x = negZero :=
    ext_parts (hs.trans (by decide)) (hm.trans (by decide))
  unfold scaled at h
  cases hsd : d.negative <;> cases hse : e.negative <;> rw [hsd, hse] at h <;>
    simp only [Bool.false_eq_true, if_false, if_true] at h
  · exact ext_parts (hsd.trans hse.symm) (by omega)
  · exact (hzero.mpr (hnegZero hse (by omega))).trans (hnegZero hse (by omega)).symm
  · exact (hnegZero hsd (by omega)).trans (hzero.mp (hnegZero hsd (by omega))).symm
  · exact ext_parts (hsd.trans hse.symm) (by omega)

/-! ## Whole numbers -/

def unitsPerOne : Nat := 2 ^ 1074

theorem unitsPerOne_pos : 0 < unitsPerOne := by
  rw [unitsPerOne]
  exact Nat.two_pow_pos 1074

theorem unitsPerOne_dvd {k : Nat} (h : 1074 ≤ k) : unitsPerOne ∣ 2 ^ k := by
  rw [unitsPerOne]
  apply Nat.pow_dvd_pow
  exact h

theorem unitsPerOne_split {k : Nat} (h : k ≤ 1074) : unitsPerOne = 2 ^ (1074 - k) * 2 ^ k := by
  rw [← Nat.pow_add, Nat.sub_add_cancel h, unitsPerOne]

theorem power_eq (d : Double) : d.power = ((max d.exponentField 1 - 1 : Nat) : Int) - 1074 := by
  rw [power]
  omega

theorem isWhole_iff : d.isWhole = true ↔ d.isFinite = true ∧ unitsPerOne ∣ unitsOf d.magnitude := by
  have hunits : unitsOf d.magnitude = d.significand * 2 ^ (max d.exponentField 1 - 1) := rfl
  rw [isWhole, Bool.and_eq_true, Bool.or_eq_true, decide_eq_true_iff, beq_iff_eq, power_eq, twoPow_eq, hunits]
  refine and_congr_right fun _ => ?_
  generalize max d.exponentField 1 - 1 = k
  by_cases hk : 1074 ≤ k
  · exact iff_of_true (.inl (by omega)) (Nat.dvd_mul_left_of_dvd (unitsPerOne_dvd hk) _)
  · have hneg : (-((k : Int) - 1074)).toNat = 1074 - k := by omega
    rw [hneg, unitsPerOne_split (k := k) (by omega), Nat.mul_dvd_mul_iff_right (Nat.two_pow_pos k),
      ← Nat.dvd_iff_mod_eq_zero]
    exact or_iff_right (by omega)

theorem truncate_eq (hf : d.isFinite = true) :
    d.truncate = if d.negative then -((unitsOf d.magnitude / unitsPerOne : Nat) : Int)
      else (unitsOf d.magnitude / unitsPerOne : Nat) := by
  have hunits : unitsOf d.magnitude = d.significand * 2 ^ (max d.exponentField 1 - 1) := rfl
  have hwhole : (if 0 ≤ d.power then d.significand * twoPow d.power.toNat
      else d.significand / twoPow (-d.power).toNat) =
      unitsOf d.magnitude / unitsPerOne := by
    rw [hunits, power_eq, twoPow_eq, twoPow_eq]
    generalize max d.exponentField 1 - 1 = k
    by_cases hk : 1074 ≤ k
    · have hpos : ((k : Int) - 1074).toNat = k - 1074 := by omega
      rw [if_pos (by omega), hpos, Nat.mul_div_assoc _ (unitsPerOne_dvd hk), unitsPerOne, Nat.pow_div hk Nat.two_pos]
    · have hneg : (-((k : Int) - 1074)).toNat = 1074 - k := by omega
      rw [if_neg (by omega), hneg, unitsPerOne_split (k := k) (by omega), Nat.mul_div_mul_right _ _ (Nat.two_pow_pos k)]
  rw [truncate, if_pos hf]
  simp only [hwhole]

/-- A double stands for an integer if it is worth that many ones. -/
theorem toInt?_eq_some_iff : d.toInt? = some n ↔ d.isFinite = true ∧ d.scaled = n * unitsPerOne := by
  have hone : (unitsPerOne : Int) ≠ 0 := Int.natCast_ne_zero.mpr (Nat.ne_of_gt unitsPerOne_pos)
  rw [toInt?]
  constructor
  · intro h
    split at h
    · rename_i hw
      obtain ⟨hf, q, hq⟩ := isWhole_iff.mp hw
      rw [Nat.mul_comm] at hq
      rw [truncate_eq hf, hq, Nat.mul_div_cancel _ unitsPerOne_pos] at h
      cases h
      refine ⟨hf, ?_⟩
      rw [scaled, hq, ite_mul, Int.neg_mul]
      push_cast
      rfl
    · cases h
  · rintro ⟨hf, hs⟩
    have hunits : unitsOf d.magnitude = n.natAbs * unitsPerOne := by
      have habs : d.scaled.natAbs = unitsOf d.magnitude := by unfold scaled; split <;> simp
      rw [← habs, hs, Int.natAbs_mul, Int.natAbs_natCast]
    have hsign : (if d.negative then -(n.natAbs : Int) else n.natAbs) * unitsPerOne = n * unitsPerOne := by
      rw [← hs, scaled, hunits, ite_mul, Int.neg_mul]
      push_cast
      rfl
    rw [if_pos (isWhole_iff.mpr ⟨hf, hunits ▸ Nat.dvd_mul_left _ _⟩), truncate_eq hf, hunits,
      Nat.mul_div_cancel _ unitsPerOne_pos, Int.eq_of_mul_eq_mul_right hone hsign]

theorem isNaN_eq_false_of_isFinite (h : d.isFinite = true) : d.isNaN = false := by
  simp only [isFinite, isNaN, decide_eq_true_iff, decide_eq_false_iff_not] at h ⊢
  omega

/-! ## Small integers as doubles -/

theorem magnitude_ofMagnitude (negative : Bool) {m : Nat} (h : m < 2 ^ 63) :
    (ofMagnitude negative m).magnitude = m := by
  rw [magnitude_eq, ofMagnitude, UInt64.toNat_add, UInt64.toNat_ofNat_of_lt' (Nat.lt_trans h (by decide))]
  cases negative <;> simp only [Bool.false_eq_true, if_false, if_true, UInt64.reduceToNat] <;> omega

theorem negative_ofMagnitude (negative : Bool) {m : Nat} (h : m < 2 ^ 63) :
    (ofMagnitude negative m).negative = negative := by
  rw [negative_eq, ofMagnitude, UInt64.toNat_add, UInt64.toNat_ofNat_of_lt' (Nat.lt_trans h (by decide))]
  cases negative <;> simp only [Bool.false_eq_true, if_false, if_true, UInt64.reduceToNat, decide_eq_false_iff_not,
    decide_eq_true_iff] <;>
    omega

/-- A number of at most fifty-three bits is not rounded. -/
theorem nearestScaled_fits {k : Nat} (h : k < 2 ^ 53) :
    nearestScaled k 0 < infinityMagnitude ∧ unitsOf (nearestScaled k 0) = k * unitsPerOne := by
  by_cases hk : k = 0
  · subst hk
    exact ⟨by decide, by rw [Nat.zero_mul]; rfl⟩
  have hlog : k.log2 < 53 := (Nat.log2_lt hk).mpr h
  have hlow : 2 ^ 52 ≤ k * 2 ^ (52 - k.log2) :=
    calc 2 ^ 52 = 2 ^ k.log2 * 2 ^ (52 - k.log2) := by rw [← Nat.pow_add]; congr 1; omega
      _ ≤ k * 2 ^ (52 - k.log2) := Nat.mul_le_mul_right _ (Nat.log2_self_le hk)
  have hhigh : k * 2 ^ (52 - k.log2) < 2 ^ 53 :=
    calc k * 2 ^ (52 - k.log2) < 2 ^ (k.log2 + 1) * 2 ^ (52 - k.log2) :=
          Nat.mul_lt_mul_of_pos_right Nat.lt_log2_self (Nat.two_pow_pos _)
      _ = 2 ^ 53 := by rw [← Nat.pow_add]; congr 1; omega
  have hscale : max ((k.log2 : Int) - 52 + 0) (-1074) = (k.log2 : Int) - 52 := by omega
  have hshift : ((0 : Int) - ((k.log2 : Int) - 52)).toNat = 52 - k.log2 := by omega
  have hfield : ((k.log2 : Int) - 52 + 1074).toNat = k.log2 + 1022 := by omega
  have hmag : nearestScaled k 0 = (k.log2 + 1023) * 2 ^ 52 + (k * 2 ^ (52 - k.log2) - 2 ^ 52) := by
    rw [nearestScaled, if_neg hk]
    simp only [hscale, hshift, if_pos (show (k.log2 : Int) - 52 ≤ 0 by omega), twoPow_eq, magnitudeOf,
      hfield, leadingBit,
      infinityMagnitude]
    omega
  rw [hmag, infinityMagnitude, unitsOf_fields (by omega), unitsPerOne_split (k := k.log2 + 1022) (by omega)]
  refine ⟨by omega, ?_⟩
  rw [if_neg (by omega), Nat.sub_add_cancel hlow, show max (k.log2 + 1023) 1 - 1 = k.log2 + 1022 by omega,
    show 1074 - (k.log2 + 1022) = 52 - k.log2 by omega, Nat.mul_assoc]

theorem isFinite_ofInt (h : n.natAbs < 2 ^ 53) : (ofInt n).isFinite = true := by
  have hfits := (nearestScaled_fits h).1
  have hsmall : nearestScaled n.natAbs 0 < 2 ^ 63 := Nat.lt_trans hfits (by decide)
  rw [ofInt, ofScaled, isFinite, magnitude_ofMagnitude _ hsmall]
  exact decide_eq_true hfits

theorem scaled_ofInt (h : n.natAbs < 2 ^ 53) : (ofInt n).scaled = n * unitsPerOne := by
  have hsmall : nearestScaled n.natAbs 0 < 2 ^ 63 := Nat.lt_trans (nearestScaled_fits h).1 (by decide)
  rw [ofInt, ofScaled, scaled, magnitude_ofMagnitude _ hsmall, negative_ofMagnitude _ hsmall, (nearestScaled_fits h).2]
  have hsign : (if decide (n < 0) = true then -(n.natAbs : Int) else n.natAbs) = n := by
    simp only [decide_eq_true_iff]
    split <;> omega
  calc _ = (if decide (n < 0) = true then -(n.natAbs : Int) else n.natAbs) * unitsPerOne := by
        rw [ite_mul, Int.neg_mul]
        push_cast
        rfl
    _ = n * unitsPerOne := by rw [hsign]

theorem ofInt_ne_negZero (h : n.natAbs < 2 ^ 53) : ofInt n ≠ negZero := by
  intro hzero
  have hs := scaled_ofInt h
  rw [hzero] at hs
  have hn : n = 0 := by
    rcases Int.mul_eq_zero.mp (hs.symm.trans (by decide : negZero.scaled = 0)) with hn | hone
    · exact hn
    · exact absurd (Int.natCast_eq_zero.mp hone) (Nat.ne_of_gt unitsPerOne_pos)
  subst hn
  revert hzero
  decide

end Double

namespace Value

open Double

/-! ## Boxed numbers -/

theorem natAbs_toInt_lt (n : Int32) : n.toInt.natAbs < 2 ^ 53 := by
  have hlow := n.le_toInt
  have hhigh := n.toInt_lt
  omega

theorem int32_inj {n m : Int32} : int32 n = int32 m ↔ n = m :=
  (@Content.box_eq_iff (.int32 n) (.int32 m)).trans (by simp [Content.isNaN])

theorem double_eq_double_iff {d e : Double} : double d = double e ↔ d = e ∨ d.isNaN = true ∧ e.isNaN = true :=
  (@Content.box_eq_iff (.double d) (.double e)).trans (by simp [Content.isNaN])

theorem int32_ne_double (n : Int32) (d : Double) : int32 n ≠ double d :=
  mt (@Content.box_eq_iff (.int32 n) (.double d)).mp (by simp [Content.isNaN])

/-- A number is boxed as a small integer if it is one other than the negative zero, and else as a double. -/
theorem number_cases (d : Double) :
    (∃ n : Int32, number d = int32 n ∧ d.toInt? = some n.toInt ∧ d ≠ negZero) ∨
      number d = double d ∧ ∀ n : Int32, d.toInt? = some n.toInt → d = negZero := by
  unfold number
  split
  · rename_i k hk
    split
    · rename_i hrange
      have hback : (Int32.ofInt k).toInt = k := Int32.toInt_ofInt_of_le (by omega) (by omega)
      exact .inl ⟨Int32.ofInt k, rfl, by rw [hback, hk], hrange.2.2⟩
    · rename_i hrange
      refine .inr ⟨rfl, fun n hn => ?_⟩
      rw [hk, Option.some.injEq] at hn
      have hlow := n.le_toInt
      have hhigh := n.toInt_lt
      by_contra hzero
      exact hrange ⟨by omega, by omega, hzero⟩
  · rename_i hnone
    exact .inr ⟨rfl, fun n hn => by rw [hnone] at hn; cases hn⟩

theorem number_of_isNaN {d : Double} (h : d.isNaN = true) : number d = double d := by
  obtain ⟨n, _, hn, _⟩ | ⟨hd, _⟩ := number_cases d
  · rw [isNaN_eq_false_of_isFinite (toInt?_eq_some_iff.mp hn).1] at h
    cases h
  · exact hd

/-- Numbers are boxed alike exactly if they are the same double or both no number. -/
theorem number_eq_number_iff {d e : Double} : number d = number e ↔ d = e ∨ d.isNaN = true ∧ e.isNaN = true := by
  constructor
  · intro h
    obtain ⟨n, hd, hn, hdzero⟩ | ⟨hd, _⟩ := number_cases d <;>
      obtain ⟨m, he, hm, hezero⟩ | ⟨he, _⟩ := number_cases e <;>
      rw [hd, he] at h
    · rw [int32_inj] at h
      subst h
      have hs := (toInt?_eq_some_iff.mp hn).2.trans (toInt?_eq_some_iff.mp hm).2.symm
      exact .inl (eq_of_scaled_eq hs (iff_of_false hdzero hezero))
    · exact absurd h (int32_ne_double n e)
    · exact absurd h.symm (int32_ne_double m d)
    · exact double_eq_double_iff.mp h
  · rintro (rfl | ⟨hd, he⟩)
    · rfl
    · rw [number_of_isNaN hd, number_of_isNaN he]
      exact double_eq_double_iff.mpr (.inr ⟨hd, he⟩)

theorem number_ofInt (n : Int32) : number (ofInt n.toInt) = int32 n := by
  have hto : (ofInt n.toInt).toInt? = some n.toInt :=
    toInt?_eq_some_iff.mpr ⟨isFinite_ofInt (natAbs_toInt_lt n), scaled_ofInt (natAbs_toInt_lt n)⟩
  obtain ⟨m, hm, hm', _⟩ | ⟨_, hnone⟩ := number_cases (ofInt n.toInt)
  · rw [hto, Option.some.injEq] at hm'
    rw [hm, Int32.toInt_inj.mp hm']
  · exact absurd (hnone n hto) (ofInt_ne_negZero (natAbs_toInt_lt n))

end Value
end BaselineTier
