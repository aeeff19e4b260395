/-
  BaselineTier.Semantics.Operators — arithmetic and comparison.

  Arithmetic is done on small integers where the result is one, and on doubles otherwise.
  Addition joins texts if either operand is a string. Comparisons with NaN are false.
-/

import BaselineTier.RunError
import BaselineTier.Semantics.Conversion

namespace BaselineTier

namespace Value

/-! ## Arithmetic -/

def fits? (n : Int) : Option Int32 := if -2 ^ 31 ≤ n ∧ n < 2 ^ 31 then some (Int32.ofInt n) else none

/-- The result of small integers, if it is a small integer again. A zero product with a negative factor is not: it is
    the negative zero. -/
def smallArith? (op : Opcode) (a b : Int32) : Option Int32 :=
  match op with
  | .add => fits? (a.toInt + b.toInt)
  | .sub => fits? (a.toInt - b.toInt)
  | .mul => (fits? (a.toInt * b.toInt)).filter fun p => p != 0 || (0 ≤ a.toInt && 0 ≤ b.toInt)
  | _ => none

def shiftCount (d : Double) : UInt32 := d.toInt32.toUInt32 % 32

def numberArith? (op : Opcode) (a b : Double) : Option Value :=
  match op with
  | .add => some (.number (a.add b))
  | .sub => some (.number (a.sub b))
  | .mul => some (.number (a.mul b))
  | .div => some (.number (a.div b))
  | .mod => some (.number (a.rem b))
  | .bitAnd => some (.int32 (a.toInt32 &&& b.toInt32))
  | .bitOr => some (.int32 (a.toInt32 ||| b.toInt32))
  | .bitXor => some (.int32 (a.toInt32 ^^^ b.toInt32))
  | .lsh => some (.int32 (a.toInt32.toUInt32 <<< shiftCount b).toInt32)
  | .rsh => some (.int32 (Int32.ofInt (a.toInt32.toInt / 2 ^ (shiftCount b).toNat)))
  | .ursh => some (.number (.ofInt (a.toInt32.toUInt32 >>> shiftCount b).toNat))
  | _ => none

def numericArith (t : AtomTable) (op : Opcode) (a b : Value) : Except RunError Value :=
  match a.asInt32.bind fun x => b.asInt32.bind fun y => smallArith? op x y with
  | some n => .ok (.int32 n)
  | none =>
    match numberArith? op (a.toNumber t) (b.toNumber t) with
    | some v => .ok v
    | none => .error (.type (.notArithmetic op))

def join (t : AtomTable) (a b : Value) : Value × AtomTable :=
  let (atom, t) := t.intern (a.spelled t ++ b.spelled t)
  (.string atom, t)

/-- The result of a binary operator, and the atom table after it. -/
def arith (t : AtomTable) (op : Opcode) (a b : Value) : Except RunError Value × AtomTable :=
  if op = .add ∧ (a.isString ∨ b.isString) then
    let (v, t) := join t a b
    (.ok v, t)
  else (numericArith t op a b, t)

/-- The result of a unary operator: negation, or else the complement of the bits. -/
def unary (t : AtomTable) (op : Opcode) (v : Value) : Value :=
  match op, v.asInt32 with
  | .neg, some 0 => .double .negZero
  | .neg, some n => if n = Int32.minValue then .number (v.toNumber t).neg else .int32 (-n)
  | .neg, none => .number (v.toNumber t).neg
  | _, _ => .int32 (~~~(v.toNumber t).toInt32)

/-! ## Comparison -/

/-- Numbers are equal as numbers, other values if they are the same. -/
def strictEquals (a b : Value) : Bool :=
  match a.asNumber, b.asNumber with
  | some x, some y => x.eq y
  | none, none => a == b
  | _, _ => false

/-- Equality after conversion. Null and undefined are equal to each other only, and an object to itself only. -/
def looseEquals (t : AtomTable) (a b : Value) : Bool :=
  if a.type = b.type ∨ (a.type.isNumber ∧ b.type.isNumber) then strictEquals a b
  else if a.isNullish ∨ b.isNullish then a.isNullish && b.isNullish
  else if a.isObject ∨ b.isObject then false
  else (a.toNumber t).eq (b.toNumber t)

/-- Order: of texts by their characters if both are strings, else of numbers. -/
def ordered (t : AtomTable) (op : Opcode) (a b : Value) : Bool :=
  if a.isString ∧ b.isString then
    let (x, y) := (a.spelled t, b.spelled t)
    match op with
    | .lt => x < y
    | .le => !decide (y < x)
    | .gt => y < x
    | _ => !decide (x < y)
  else
    let (x, y) := (a.toNumber t, b.toNumber t)
    match op with
    | .lt => x.lt y
    | .le => x.le y
    | .gt => y.lt x
    | _ => y.le x

def compare (t : AtomTable) (op : Opcode) (a b : Value) : Bool :=
  match op with
  | .eq => looseEquals t a b
  | .ne => !looseEquals t a b
  | .strictEq => strictEquals a b
  | .strictNe => !strictEquals a b
  | _ => ordered t op a b

end Value
end BaselineTier
