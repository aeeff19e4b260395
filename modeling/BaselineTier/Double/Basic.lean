/-
  BaselineTier.Double.Basic — 64-bit floating-point numbers as bit patterns.

  A double is its pattern: one sign bit, eleven exponent bits, fifty-two fraction bits.
  Everything here reads the pattern with exact integers, so equality and order are facts
  about integers and not about a processor: `rank` sends a pattern to the integer line
  (both zeros to 0), and away from NaN a double equals or precedes another exactly when
  its rank does.
-/

namespace BaselineTier

structure Double where
  bits : UInt64
deriving DecidableEq, Repr, Inhabited

namespace Double

/-! ## Powers of two -/

-- Powers of numbers are the built-in ones, also where every monoid has powers.
attribute [instance (20000), default_instance (20000)] instPowNat

/-- `2 ^ k`, made by a shift where a word holds it. -/
def twoPow (k : Nat) : Nat := if k < 63 then (1 <<< k.toUInt64 : UInt64).toNat else 2 ^ k

@[simp] theorem twoPow_eq (k : Nat) : twoPow k = 2 ^ k := by
  unfold twoPow
  split
  · rename_i h
    have small : 2 ^ k < 2 ^ 64 := Nat.pow_lt_pow_right (by decide) (by omega)
    rw [UInt64.toNat_shiftLeft, UInt64.toNat_ofNat', Nat.mod_eq_of_lt (by omega : k < 2 ^ 64),
      Nat.mod_eq_of_lt (by omega : k < 64), UInt64.toNat_one, Nat.one_shiftLeft, Nat.mod_eq_of_lt small]
  · rfl

/-! ## The parts of a pattern -/

/-- The largest pattern without a sign that is not a NaN: exponent all ones, fraction zero. -/
@[noinline] def infinityMagnitude : Nat := 0x7FF0000000000000

/-- One step of the exponent field; also the bit that a significand has on top unless the field is zero. -/
@[noinline] def leadingBit : Nat := 2 ^ 52

def negative (d : Double) : Bool := 0x8000000000000000 ≤ d.bits

def magnitude (d : Double) : Nat := (d.bits % 0x8000000000000000).toNat

def ofMagnitude (negative : Bool) (magnitude : Nat) : Double :=
  ⟨(if negative then 0x8000000000000000 else 0) + UInt64.ofNat magnitude⟩

def exponentField (d : Double) : Nat := d.magnitude / leadingBit

/-- A finite double is `significand * 2 ^ power`, with its sign. -/
def significand (d : Double) : Nat :=
  if d.exponentField = 0 then d.magnitude % leadingBit else d.magnitude % leadingBit + leadingBit

def power (d : Double) : Int := (max d.exponentField 1 : Nat) - 1075

/-! ## Classes -/

def isNaN (d : Double) : Bool := infinityMagnitude < d.magnitude

def isInfinite (d : Double) : Bool := d.magnitude = infinityMagnitude

def isFinite (d : Double) : Bool := d.magnitude < infinityMagnitude

def isZero (d : Double) : Bool := d.magnitude = 0

/-- The one NaN that the boxed value representation keeps. -/
def nan : Double := ⟨0x7FF8000000000000⟩

def infinity : Double := ⟨0x7FF0000000000000⟩

def negInfinity : Double := ⟨0xFFF0000000000000⟩

def zero : Double := ⟨0⟩

def negZero : Double := ⟨0x8000000000000000⟩

def one : Double := ⟨0x3FF0000000000000⟩

def canonical (d : Double) : Double := if d.isNaN then nan else d

/-! ## Equality and order -/

/-- The place of a double that is not a NaN on the line of integers; both zeros are 0. -/
def rank (d : Double) : Int := if d.negative then -(d.magnitude : Int) else d.magnitude

/-- Numeric equality: a NaN equals nothing, and the two zeros are equal. -/
def eq (a b : Double) : Bool := !a.isNaN && !b.isNaN && a.rank == b.rank

/-- Numeric order: a NaN neither precedes nor follows anything. -/
def lt (a b : Double) : Bool := !a.isNaN && !b.isNaN && decide (a.rank < b.rank)

def le (a b : Double) : Bool := !a.isNaN && !b.isNaN && decide (a.rank ≤ b.rank)

def neg (d : Double) : Double := ofMagnitude (!d.negative) d.magnitude

/-! ## Whole numbers -/

/-- The whole part of a finite double, rounded toward zero; 0 for the others. -/
def truncate (d : Double) : Int :=
  if d.isFinite then
    let whole : Nat :=
      if 0 ≤ d.power then d.significand * twoPow d.power.toNat else d.significand / twoPow (-d.power).toNat
    if d.negative then -(whole : Int) else whole
  else 0

def isWhole (d : Double) : Bool :=
  d.isFinite && (0 ≤ d.power || d.significand % twoPow (-d.power).toNat == 0)

def toInt? (d : Double) : Option Int := if d.isWhole then some d.truncate else none

/-- The whole part modulo 2^32, as a signed word; 0 for a NaN or an infinity. -/
def toInt32 (d : Double) : Int32 := Int32.ofInt d.truncate

end Double
end BaselineTier
