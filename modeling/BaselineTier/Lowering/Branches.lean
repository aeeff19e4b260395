/-
  BaselineTier.Lowering.Branches — jumps, branches and returns.

  Every jump leaves the whole operand stack written out, so the code at its target can
  count on that.
-/

import BaselineTier.Lowering.Basic

namespace BaselineTier.Lowering

variable {β : Type}

def goto : Lowering β := fun job i => do
  let label ← target job i
  Emit.flushBelow 0
  Emit.inst (.jump label)

/-- Takes the tested value off the stack. -/
def branch : Lowering β := fun job i => do
  let label ← target job i
  let known := (← Emit.peek 1).isBoolean
  Emit.popRegisters 1
  unless known do Emit.site job .toBool
  Emit.inst (.branch .r0 (i.opcode = .ifNe) label)

/-- The tested value stays on the stack on both ways. -/
def shortCircuit : Lowering β := fun job i => do
  let label ← target job i
  let known := (← Emit.peek 1).isBoolean
  Emit.flushBelow 0
  Emit.move (.load (.stack ((← Emit.depth) - 1)) .r0)
  unless known do Emit.site job .toBool
  Emit.inst (.branch .r0 (i.opcode = .orJump) label)

/-- The way out follows the last instruction; from any other it takes a jump. -/
def leave (job : Job β) (i : Instruction) : Emit β Unit := do
  if i.next < job.program.length then
    Emit.inst (.jump (← Emit.exitLabel))

def ret : Lowering β := fun job i => do
  Emit.popInto .r0
  Emit.assume ((← Emit.depth) = 0) .leftAtReturn
  leave job i

def stop : Lowering β := fun job i => do
  Emit.assume ((← Emit.depth) = 0) .leftAtStop
  Emit.move (.setReg .undefined .r0)
  leave job i

end BaselineTier.Lowering
