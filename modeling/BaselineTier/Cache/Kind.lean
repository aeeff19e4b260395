/-
  BaselineTier.Cache.Kind — what an inline-cache site does.

  Operands are in `r0` and `r1` and results in `r0`. A value that is to be stored waits in
  the scratch cell. A call finds its callee, receiver and arguments on the stack.
-/

import BaselineTier.Atom
import BaselineTier.Opcode

namespace BaselineTier

inductive SiteKind where
  | toBool
  | toNumber
  | arith (op : Opcode)
  | unary (op : Opcode)
  | compare (op : Opcode)
  | getName (name : Atom)
  | setName (name : Atom)
  | getGlobal (name : Atom)
  | setGlobal (name : Atom)
  | getProp (key : Atom)
  | setProp (key : Atom)
  | getElem
  | setElem
  | call (argc : UInt16)
deriving DecidableEq, Repr, Inhabited

def SiteKind.text : SiteKind → String
  | toBool => "ToBool"
  | toNumber => "ToNumber"
  | arith op => s!"BinaryArith({op.name})"
  | unary op => s!"Unary({op.name})"
  | compare op => s!"Compare({op.name})"
  | getName name => s!"GetName({name.text})"
  | setName name => s!"SetName({name.text})"
  | getGlobal name => s!"GetGlobal({name.text})"
  | setGlobal name => s!"SetGlobal({name.text})"
  | getProp key => s!"GetProp({key.text})"
  | setProp key => s!"SetProp({key.text})"
  | getElem => "GetElem"
  | setElem => "SetElem"
  | call argc => s!"Call({argc})"

end BaselineTier
