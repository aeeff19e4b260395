/-
  BaselineTier.Value — dynamic values boxed in the unused NaN patterns of a double.

  Sixty-four bits hold either a double or a tag and a payload. The top sixteen bits below
  0xFFF8 mean a double; 0xFFF8 to 0xFFFF mean tag 0 to 7, and the low forty-eight bits are
  the payload. A NaN is stored as one pattern, so no double reaches the tagged range.
-/

import BaselineTier.Atom
import BaselineTier.Decimal.Text
import BaselineTier.Double.Arithmetic

namespace BaselineTier

structure Value where
  bits : UInt64
deriving DecidableEq, Repr

inductive ValueType where
  | double | int32 | boolean | string | undefined | null | object | magic
deriving DecidableEq, Repr, Inhabited

namespace ValueType

def name : ValueType → String
  | double => "Double"
  | int32 => "Int32"
  | boolean => "Boolean"
  | string => "String"
  | undefined => "Undefined"
  | null => "Null"
  | object => "Object"
  | magic => "Magic"

def all : List ValueType := [double, int32, boolean, string, undefined, null, object, magic]

def isNumber : ValueType → Bool
  | int32 | double => true
  | _ => false

end ValueType

namespace Value

/-! ## Building -/

def tagged (tag payload : UInt64) : Value := ⟨(0xFFF8 + tag) * 0x1000000000000 + payload⟩

def object (handle : UInt32) : Value := tagged 0 handle.toUInt64

def int32 (n : Int32) : Value := tagged 1 n.toUInt32.toUInt64

def bool (b : Bool) : Value := tagged 2 (if b then 1 else 0)

def string (a : Atom) : Value := tagged 3 a.index.toUInt64

def undefined : Value := tagged 4 0

def hole : Value := tagged 5 0

def null : Value := tagged 6 0

instance : Inhabited Value := ⟨undefined⟩

/-- A double; every NaN is stored as the same pattern. -/
def double (d : Double) : Value := ⟨d.canonical.bits⟩

/-- A number: as an int32 if it is one exactly, else as a double. A negative zero is no int32. -/
def number (d : Double) : Value :=
  match d.toInt? with
  | some n => if -2147483648 ≤ n ∧ n ≤ 2147483647 ∧ d ≠ Double.negZero then int32 (Int32.ofInt n) else double d
  | none => double d

/-! ## The parts of a value -/

def top (v : Value) : Nat := (v.bits / 0x1000000000000).toNat

def payload (v : Value) : UInt64 := v.bits % 0x1000000000000

def word (v : Value) : UInt32 := v.bits.toUInt32

/-! ## Types -/

def type (v : Value) : ValueType :=
  if v.top < 0xFFF8 then .double
  else if v.top = 0xFFF8 then .object
  else if v.top = 0xFFF9 then .int32
  else if v.top = 0xFFFA then .boolean
  else if v.top = 0xFFFB then .string
  else if v.top = 0xFFFC then .undefined
  else if v.top = 0xFFFD then .magic
  else .null

def isUndefined (v : Value) : Bool := v == undefined

def isNull (v : Value) : Bool := v == null

def isNullish (v : Value) : Bool := v.isNull || v.isUndefined

def isBool (v : Value) : Bool := v.top == 0xFFFA

def isInt32 (v : Value) : Bool := v.top == 0xFFF9

def isDouble (v : Value) : Bool := decide (v.top < 0xFFF8)

def isNumber (v : Value) : Bool := v.isDouble || v.isInt32

def isString (v : Value) : Bool := v.top == 0xFFFB

def isObject (v : Value) : Bool := v.top == 0xFFF8

def isHole (v : Value) : Bool := v.top == 0xFFFD

/-! ## Payloads -/

def asBool (v : Value) : Option Bool := if v.isBool then some (v.payload != 0) else none

def asInt32 (v : Value) : Option Int32 := if v.isInt32 then some v.word.toInt32 else none

def asDouble (v : Value) : Option Double := if v.isDouble then some ⟨v.bits⟩ else none

/-- The number that an int32 or a double stands for. -/
def asNumber (v : Value) : Option Double :=
  match v.asInt32 with
  | some n => some (Double.ofInt n.toInt)
  | none => v.asDouble

def asString (v : Value) : Option Atom := if v.isString then some ⟨v.word⟩ else none

def asObject (v : Value) : Option UInt32 := if v.isObject then some v.word else none

/-! ## Texts -/

/-- The text of a value in an instruction listing or a message. -/
def text (v : Value) : String :=
  match v.type with
  | .double => (Double.mk v.bits).text .plain
  | .int32 => toString v.word.toInt32.toInt
  | .boolean => toString (v.payload != 0)
  | .string => (Atom.mk v.word).text
  | .undefined => "undefined"
  | .null => "null"
  | .object => "[object #" ++ toString v.word.toNat ++ "]"
  | .magic => "<hole>"

def inspect (v : Value) : String :=
  match v.type with
  | .double => "Double(" ++ (Double.mk v.bits).text .plain ++ ")"
  | .int32 => "Int32(" ++ toString v.word.toInt32.toInt ++ ")"
  | .boolean => "Bool(" ++ toString (v.payload != 0) ++ ")"
  | .string => "String(" ++ (Atom.mk v.word).text ++ ")"
  | .undefined => "Undefined"
  | .null => "Null"
  | .object => "Object(" ++ toString v.word.toNat ++ ")"
  | .magic => "Hole"

end Value
end BaselineTier
