/-
  BaselineTier.Instruction.Literal — the values that instructions name outright.
-/

import BaselineTier.Instruction.Basic
import BaselineTier.Value

namespace BaselineTier.Instruction

/-- The value of a literal. An operand that is not of the opcode's format makes it none; strings are not literals, for
    their atoms are not known here. -/
def literal? (i : Instruction) : Option Value :=
  match i.opcode, i.operand with
  | .pushUndefined, _ => some .undefined
  | .pushNull, _ => some .null
  | .pushTrue, _ => some (.bool true)
  | .pushFalse, _ => some (.bool false)
  | .pushZero, _ => some (.int32 0)
  | .pushOne, _ => some (.int32 1)
  | .pushHole, _ => some .hole
  | .pushInt8, .i8 n => some (.int32 n.toInt32)
  | .pushInt32, .i32 n => some (.int32 n)
  | .pushDouble, .f64 d => some (.double d)
  | _, _ => none

end BaselineTier.Instruction
