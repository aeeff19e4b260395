/-
  BaselineTier.Double.Arithmetic — the four operations and the remainder, exactly rounded.

  Each operation is done on exact integers or ratios and rounded once, to the nearest
  double and to the even one at a tie (`nearest`). Signs of zero, infinities and NaNs are
  settled first, so a result is fixed by the two patterns alone. Every NaN result is the
  one NaN that boxed values keep.
-/

import BaselineTier.Double.Basic

namespace BaselineTier
namespace Double

/-! ## Rounding -/

/-- The quotient rounded to the nearest natural number, to the even one at a tie. -/
def roundDiv (top bottom : Nat) : Nat :=
  let q := top / bottom
  let rest := top % bottom
  if 2 * rest < bottom then q else if bottom < 2 * rest then q + 1 else q + q % 2

/-- The magnitude of `units * 2 ^ scale`, for units of at most fifty-three bits, and fewer only at the scale of the
    smallest doubles; beyond the largest finite double it is infinity's. Units of `2 ^ 53` carry into the exponent. -/
def magnitudeOf (units : Nat) (scale : Int) : Nat := min ((scale + 1074).toNat * leadingBit + units) infinityMagnitude

/-- The scale `e` for which `num / den / 2 ^ e` has fifty-three bits, but never below the
    scale of the smallest doubles. -/
def scaleOf (num den : Nat) : Int :=
  let guess : Int := (num.log2 : Int) - den.log2 - 53
  let quotient := if 0 ≤ guess then num / (den * twoPow guess.toNat) else num * twoPow (-guess).toNat / den
  max (if quotient < 2 * leadingBit then guess else guess + 1) (-1074)

/-- The magnitude of the double nearest to `num / den`, the even one of two that are equally near. -/
def nearest (num den : Nat) : Nat :=
  if num = 0 then 0 else
    let e := scaleOf num den
    magnitudeOf (if 0 ≤ e then roundDiv num (den * twoPow e.toNat) else roundDiv (num * twoPow (-e).toNat) den) e

def ofRatio (negative : Bool) (num den : Nat) : Double := ofMagnitude negative (nearest num den)

/-- The magnitude of the double nearest to `n * 2 ^ e`, the even one of two that are equally near. -/
def nearestScaled (n : Nat) (e : Int) : Nat :=
  if n = 0 then 0 else
    let scale := max ((n.log2 : Int) - 52 + e) (-1074)
    magnitudeOf (if scale ≤ e then n * twoPow (e - scale).toNat else roundDiv n (twoPow (scale - e).toNat)) scale

def ofScaled (negative : Bool) (n : Nat) (e : Int) : Double := ofMagnitude negative (nearestScaled n e)

def ofInt (n : Int) : Double := ofScaled (n < 0) n.natAbs 0

/-! ## Operations -/

def alignedTo (d : Double) (e : Int) : Int :=
  let n : Nat := d.significand * twoPow (d.power - e).toNat
  if d.negative then -(n : Int) else n

def add (a b : Double) : Double :=
  if a.isNaN || b.isNaN then nan
  else if a.isInfinite then (if b.isInfinite && a.negative != b.negative then nan else a)
  else if b.isInfinite then b
  else
    let e := min a.power b.power
    let sum := a.alignedTo e + b.alignedTo e
    if sum = 0 then ofMagnitude (a.negative && b.negative) 0 else ofScaled (sum < 0) sum.natAbs e

def sub (a b : Double) : Double := if b.isNaN then nan else a.add b.neg

def mul (a b : Double) : Double :=
  let negative := a.negative != b.negative
  if a.isNaN || b.isNaN then nan
  else if a.isInfinite || b.isInfinite then
    (if a.isZero || b.isZero then nan else ofMagnitude negative infinityMagnitude)
  else ofScaled negative (a.significand * b.significand) (a.power + b.power)

def div (a b : Double) : Double :=
  let negative := a.negative != b.negative
  if a.isNaN || b.isNaN then nan
  else if a.isInfinite then (if b.isInfinite then nan else ofMagnitude negative infinityMagnitude)
  else if b.isInfinite then ofMagnitude negative 0
  else if b.isZero then (if a.isZero then nan else ofMagnitude negative infinityMagnitude)
  else
    let e := a.power - b.power
    if 0 ≤ e then ofRatio negative (a.significand * twoPow e.toNat) b.significand
    else ofRatio negative a.significand (b.significand * twoPow (-e).toNat)

/-- The remainder of the division that rounds toward zero; it has the dividend's sign. -/
def rem (a b : Double) : Double :=
  if a.isNaN || b.isNaN || a.isInfinite || b.isZero then nan
  else if b.isInfinite then a
  else
    let e := min a.power b.power
    ofScaled a.negative ((a.alignedTo e).natAbs % (b.alignedTo e).natAbs) e

end Double
end BaselineTier
