/-
  BaselineTier.Machine.Frame — what moves act on.

  An activation has three registers, a scratch cell and its arguments to itself. Its slots
  and, above them, its operand stack lie on the machine's value stack, which all
  activations share: the slots from the frame pointer on, the operand stack after them.
  Nothing is popped that lies below the operand stack.
-/

import BaselineTier.RunError
import BaselineTier.Settings.Basic

namespace BaselineTier

structure Registers where
  r0 : Value := .undefined
  r1 : Value := .undefined
  r2 : Value := .undefined
deriving DecidableEq, Repr, Inhabited

namespace Registers

def get (rs : Registers) : Reg → Value
  | .r0 => rs.r0
  | .r1 => rs.r1
  | .r2 => rs.r2

def set (rs : Registers) (reg : Reg) (v : Value) : Registers :=
  match reg with
  | .r0 => { rs with r0 := v }
  | .r1 => { rs with r1 := v }
  | .r2 => { rs with r2 := v }

end Registers

/-- An activation's own data, and where its part of the stack begins. -/
structure Frame where
  registers : Registers := {}
  scratch : Value := .undefined
  args : Array Value
  fp : Nat
  slots : Nat := 0
deriving DecidableEq, Repr, Inhabited

abbrev ValueStack := Array Value

structure Machine where
  stack : ValueStack := #[]
  /-- How many activations are open. -/
  depth : Nat := 0
  maxDepth : Nat
deriving DecidableEq, Repr, Inhabited

namespace Machine

def ofSettings (s : Settings) : Machine := { maxDepth := s.maxDepth }

def inspect (m : Machine) : String :=
  "Machine \x7b stack: " ++ toString m.stack.size ++ ", depth: " ++ toString m.depth ++ ", max_depth: " ++
    toString m.maxDepth ++ ", .. \x7d"

end Machine

namespace Frame

/-- Where the operand stack begins. -/
def floor (f : Frame) : Nat := f.fp + f.slots

def setReg (f : Frame) (reg : Reg) (v : Value) : Frame := { f with registers := f.registers.set reg v }

@[inline] def read (f : Frame) (stack : ValueStack) (a : Address) : Except RunError Value :=
  let v := match a with
    | .slot index => stack[f.fp + index]?
    | .stack index => stack[f.floor + index]?
    | .arg index => f.args[index]?
    | .scratch => some f.scratch
  match v with
  | some v => .ok v
  | none => .error (.badAddress a)

@[inline] def writeStack (f : Frame) (stack : ValueStack) (index : Nat) (v : Value) (a : Address) :
    Except RunError (Frame × ValueStack) :=
  if index < stack.size then .ok (f, stack.setIfInBounds index v) else .error (.badAddress a)

@[inline] def write (f : Frame) (stack : ValueStack) (a : Address) (v : Value) : Except RunError (Frame × ValueStack) :=
  match a with
  | .slot index => f.writeStack stack (f.fp + index) v a
  | .stack index => f.writeStack stack (f.floor + index) v a
  | .arg index =>
    if index < f.args.size then .ok ({ f with args := f.args.setIfInBounds index v }, stack) else .error (.badAddress a)
  | .scratch => .ok ({ f with scratch := v }, stack)

def boolean (f : Frame) (reg : Reg) : Except RunError Bool :=
  match (f.registers.get reg).asBool with
  | some b => .ok b
  | none => .error (.type (.notBoolean (f.registers.get reg)))

@[inline] def free (f : Frame) (stack : ValueStack) (count : Nat) : Except RunError ValueStack :=
  if f.floor + count ≤ stack.size then .ok (stack.take (stack.size - count)) else .error .stackUnderflow

@[inline] def perform (f : Frame) (stack : ValueStack) : Move → Except RunError (Frame × ValueStack)
  | .copy src dst => .ok (f.setReg dst (f.registers.get src), stack)
  | .setReg v dst => .ok (f.setReg dst v, stack)
  | .load src dst => do pure (f.setReg dst (← f.read stack src), stack)
  | .store src dst => f.write stack dst (f.registers.get src)
  | .setCell v dst => f.write stack dst v
  | .push reg => .ok (f, stack.push (f.registers.get reg))
  | .pushValue v => .ok (f, stack.push v)
  | .pushFrom src => do pure (f, stack.push (← f.read stack src))
  | .pop dst =>
    match stack.back? with
    | some v => if f.floor < stack.size then .ok (f.setReg dst v, stack.pop) else .error .stackUnderflow
    | none => .error .stackUnderflow
  | .free count => do pure (f, ← f.free stack count)

def performAll (f : Frame) (stack : ValueStack) (moves : List Move) : Except RunError (Frame × ValueStack) :=
  moves.foldlM (fun (f, stack) m => f.perform stack m) (f, stack)

end Frame
end BaselineTier
