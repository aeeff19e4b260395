/-
  BaselineTier.Decimal.Shortest — the fewest decimal digits that read back as a double.

  A positive finite double is `m * 2 ^ q`. The reals that round to it form an interval
  around it, half a gap wide on each side (a quarter below when `m` is the least
  significand of its binade), whose ends belong to it when `m` is even. `shortest` tries
  one, two, … significant digits: on each decimal grid it looks at the two neighbours of
  the value and takes the first grid on which one of them lies in the interval. Of two
  neighbours in the interval the nearer wins, and the upper one when they are equally near.
-/

import BaselineTier.Double.Basic

namespace BaselineTier.Decimal

/-- A positive decimal: `digits * 10 ^ exponent`. -/
structure Scaled where
  digits : Nat
  exponent : Int
deriving DecidableEq, Repr

/-- A value and the reals that round to it, as fractions with one denominator:
    `value / unit`, strictly (or not) between `low / unit` and `high / unit`. -/
structure Interval where
  low : Nat
  value : Nat
  high : Nat
  unit : Nat
  closed : Bool
deriving Repr

def Interval.ofDouble (d : Double) : Interval :=
  let m := d.significand
  let narrow := m = 2 ^ 52 ∧ 1 < d.exponentField
  let below := if narrow then 1 else 2
  let scale := if 0 ≤ d.power then 2 ^ d.power.toNat else 1
  let unit := if 0 ≤ d.power then 4 else 4 * 2 ^ (-d.power).toNat
  { low := (4 * m - below) * scale, value := 4 * m * scale, high := (4 * m + 2) * scale, unit := unit,
    closed := m % 2 = 0 }

def Interval.contains (i : Interval) (num den : Nat) : Bool :=
  if i.closed then i.low * den ≤ num * i.unit && num * i.unit ≤ i.high * den
  else i.low * den < num * i.unit && num * i.unit < i.high * den

/-- The exponent `k` with `10 ^ k ≤ value < 10 ^ (k + 1)`, searched upward from below. -/
def leadingExponent (num den : Nat) : Int :=
  let rec up (fuel : Nat) (k : Int) : Int :=
    match fuel with
    | 0 => k
    | fuel + 1 =>
      let next := k + 1
      let reached := if 0 ≤ next then den * 10 ^ next.toNat ≤ num else den ≤ num * 10 ^ (-next).toNat
      if reached then up fuel next else k
  let guess : Int := ((num.log2 : Int) - den.log2 - 1) * 30103 / 100000 - 1
  up 4 guess

/-- The decimal of the grid `10 ^ e` that names the interval's value, if the grid has one. -/
def Interval.onGrid (i : Interval) (e : Int) : Option Scaled :=
  let num := if 0 ≤ e then i.value else i.value * 10 ^ (-e).toNat
  let den := if 0 ≤ e then i.unit * 10 ^ e.toNat else i.unit
  let floor := num / den
  let hit (n : Nat) : Bool :=
    if 0 ≤ e then i.contains (n * 10 ^ e.toNat) 1 else i.contains n (10 ^ (-e).toNat)
  match hit floor, hit (floor + 1) with
  | true, true => some ⟨if 2 * (num % den) < den then floor else floor + 1, e⟩
  | true, false => some ⟨floor, e⟩
  | false, true => some ⟨floor + 1, e⟩
  | false, false => none

/-- The first grid with a decimal for the value, among `count` grids from `10 ^ e` down. -/
def Interval.firstGrid (i : Interval) : Nat → Int → Option Scaled
  | 0, _ => none
  | count + 1, e => (i.onGrid e).orElse fun _ => i.firstGrid count (e - 1)

def Scaled.trimmed (s : Scaled) : Scaled :=
  let rec go (fuel : Nat) (digits : Nat) (exponent : Int) : Scaled :=
    match fuel with
    | 0 => ⟨digits, exponent⟩
    | fuel + 1 => if digits % 10 = 0 then go fuel (digits / 10) (exponent + 1) else ⟨digits, exponent⟩
  if s.digits = 0 then s else go 20 s.digits s.exponent

/-- The shortest decimal that reads back as this positive finite double. -/
def shortest (d : Double) : Scaled :=
  let i := Interval.ofDouble d
  ((i.firstGrid 18 (leadingExponent i.value i.unit)).getD ⟨0, 0⟩).trimmed

end BaselineTier.Decimal
