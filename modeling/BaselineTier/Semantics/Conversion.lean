/-
  BaselineTier.Semantics.Conversion — values as truth values, numbers and texts.

  Strings are atoms, so conversions look at the atom table. A string whose atom is not in
  the table counts as the empty text, and as no number.
-/

import BaselineTier.Atom
import BaselineTier.Decimal.Reading
import BaselineTier.Decimal.Text
import BaselineTier.Text.Blank
import BaselineTier.Value

namespace BaselineTier

def AtomTable.textOf? (t : AtomTable) (v : Value) : Option String := v.asString.bind t.text?

/-- The number that a text reads as. Blanks around it do not count, nothing is zero, and what is no number is NaN. -/
def Text.number (s : String) : Double :=
  let cs := Text.trim s.toList
  if cs.isEmpty then .zero
  else if cs = "Infinity".toList ∨ cs = "+Infinity".toList then .infinity
  else if cs = "-Infinity".toList then .negInfinity
  else (Decimal.read? cs).getD .nan

/-- The text of a number. Whole numbers below 10^21 are written with all their digits. -/
def Double.spelled (d : Double) : String :=
  if d.isNaN then "NaN"
  else if d.isInfinite then (if d.negative then "-Infinity" else "Infinity")
  else if d.isZero then "0"
  else if d.isWhole ∧ d.truncate.natAbs < 10 ^ 21 then toString d.truncate
  else d.text .plain

namespace Value

def truthy (t : AtomTable) (v : Value) : Bool :=
  match v.type with
  | .boolean => v.asBool == some true
  | .int32 => v.asInt32 != some 0
  | .double => v.asDouble.any fun d => !d.isZero && !d.isNaN
  | .string => (t.textOf? v).any fun s => !s.isEmpty
  | .object => true
  | .undefined | .null | .magic => false

def toNumber (t : AtomTable) (v : Value) : Double :=
  match v.type with
  | .int32 | .double => v.asNumber.getD .nan
  | .boolean => if v.asBool == some true then .one else .zero
  | .null => .zero
  | .string => ((t.textOf? v).map Text.number).getD .nan
  | .undefined | .object | .magic => .nan

def spelled (t : AtomTable) (v : Value) : String :=
  match v.type with
  | .string => (t.textOf? v).getD ""
  | .int32 | .double => (v.asNumber.getD .nan).spelled
  | .boolean => if v.asBool == some true then "true" else "false"
  | .undefined | .magic => "undefined"
  | .null => "null"
  | .object => "[object Object]"

end Value
end BaselineTier
