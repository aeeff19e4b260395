/-
  BaselineTier.Breach — broken assumptions of the compiler.

  The parts of the tier assume things about the order in which they are used and about the
  code they are given, and check what they assume. A breach names the assumption that did
  not hold. A verified program compiled in the proper order meets none of them.
-/

import BaselineTier.Instruction.Basic
import BaselineTier.VirtualStack.Entry

namespace BaselineTier

inductive Breach where
  /-- An entry that the operand stack does not have. -/
  | peek (n depth : Nat)
  /-- The address of a place that is not in memory. -/
  | noAddress (place : Place)
  | popEmpty
  | popMany (n depth : Nat)
  | popRegisters (uses depth : Nat)
  /-- An entry written out above one that is not. -/
  | spilledAbove (index : Nat)
  /-- An entry written out at a place that is not its own. -/
  | spilledElsewhere (index place : Nat)
  | claimed (reg : Reg) (times : Nat)
  | boundTwice (label : Label)
  | belowFrame (inst : Inst Label)
  /-- A label, a site or a byte that does not exist. -/
  | outOfRange
  /-- A sum or a difference that 32 bits do not hold. -/
  | overflow
  /-- A local slot that the frame does not have. -/
  | noSlot (index : Nat)
  | noArg (index : Nat)
  /-- An offset past the end of the program, which has no label. -/
  | noLabel (offset : Nat)
  /-- Code that calls through a site that was not made for it. -/
  | noSite
  | outOfOrder
  | mergeDepth (offset : Nat)
  | mergeHeight (offset : Nat)
  | entryDepth (offset : Nat)
  | noReturnLabel
  | leftAtReturn
  | leftAtStop
  | notLiteral (opcode : Opcode) (operand : Operand)
  | wrongOperand (instruction : Instruction)
deriving Repr

def Breach.message : Breach → Option String
  | peek n depth => some s!"peek({n}) with stack depth {depth}"
  | noAddress place => some s!"{place.inspect} has no address"
  | popEmpty => some "pop_value on empty operand stack"
  | popMany n depth => some s!"popn({n}) with stack depth {depth}"
  | popRegisters uses depth => some s!"pop_regs_and_sync({uses}) with stack depth {depth}"
  | spilledAbove index => some s!"spilled entry {index} above unsynced entries"
  | spilledElsewhere index place => some s!"spilled entry {index} at slot {place}"
  | claimed reg times => some s!"{reg.text} claimed {times} times"
  | boundTwice label => some s!"{label.text} bound twice"
  | belowFrame inst => some (inst.text Label.text ++ " pops below the frame")
  | outOfRange | overflow | noSlot _ | noArg _ | noLabel _ | noSite => none
  | outOfOrder => some "compiler step out of order"
  | mergeDepth offset => some s!"stack depth mismatch at merge {offset}"
  | mergeHeight offset => some s!"machine stack height mismatch at merge {offset}"
  | entryDepth offset => some s!"stack depth mismatch at offset {offset}"
  | noReturnLabel => some "return label used before init"
  | leftAtReturn => some "values left on stack at return"
  | leftAtStop => some "values left on stack at stop"
  | notLiteral opcode operand => some s!"{opcode.name} is not a literal (operands {operand.inspect})"
  | wrongOperand i => some s!"{i.opcode.name} at {i.offset} has operands {i.operand.inspect}"

/-- Why something ended early: an error that it may report, or a broken assumption. -/
inductive Fault (ε : Type) where
  | error (cause : ε)
  | breach (cause : Breach)
deriving Repr

end BaselineTier
