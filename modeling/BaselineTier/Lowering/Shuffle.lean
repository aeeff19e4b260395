/-
  BaselineTier.Lowering.Shuffle — literals, slots and stack shuffles.

  None of these calls through a site. Most only rearrange the picture of the stack and
  emit nothing.
-/

import BaselineTier.Instruction.Literal
import BaselineTier.Lowering.Basic

namespace BaselineTier.Lowering

variable {β : Type}

def nop : Lowering β := fun _ _ => pure ()

def pop : Lowering β := fun _ _ => Emit.drop 1

def popN : Lowering β := fun _ i => do Emit.drop (← u16 i).toNat

def dup : Lowering β := fun _ _ => do
  let known := (← Emit.peek 1).known
  Emit.popRegisters 1
  Emit.move (.copy .r0 .r1)
  Emit.push ⟨.register .r1, known⟩
  Emit.push ⟨.register .r0, known⟩

def dup2 : Lowering β := fun _ _ => do
  Emit.flushBelow 0
  let depth ← Emit.depth
  Emit.assume (2 ≤ depth) .overflow
  Emit.move (.load (.stack (depth - 2)) .r0)
  Emit.move (.load (.stack (depth - 1)) .r1)
  Emit.pushReg .r0
  Emit.pushReg .r1

def swap : Lowering β := fun _ _ => do
  Emit.popRegisters 2
  Emit.pushReg .r1
  Emit.pushReg .r0

def literal : Lowering β := fun _ i =>
  match i.literal? with
  | some value => Emit.push (.constant value)
  | none => throw (.breach (.notLiteral i.opcode i.operand))

def string : Lowering β := fun job i => do
  let atom ← Emit.atom job (← u32 i)
  Emit.push (.constant (.string atom))

/-- A slot is read only when its value is needed. An index past the slots reads the operand stack, which is written out
    for it. -/
def getLocal : Lowering β := fun job i => do
  let index := (← u16 i).toNat
  if index < job.program.slots then
    Emit.pushSlot job index
  else
    Emit.flushBelow 0
    Emit.move (.load (.slot index) .r0)
    Emit.pushReg .r0

/-- Entries that still live in the slot are written out before it changes. -/
def setLocal : Lowering β := fun _ i => do
  let index := (← u16 i).toNat
  Emit.flushAliases (.slot index)
  Emit.storeTop (.slot index)

def getArg : Lowering β := fun job i => do Emit.pushArg job (← u16 i).toNat

def setArg : Lowering β := fun _ i => do
  let index := (← u16 i).toNat
  Emit.flushAliases (.arg index)
  Emit.storeTop (.arg index)

end BaselineTier.Lowering
