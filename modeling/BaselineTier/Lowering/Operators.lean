/-
  BaselineTier.Lowering.Operators — operators, names, properties and calls.

  Each goes through a site: the operands are brought into `r0` and `r1`, or for a call
  onto the stack, the site is called, and its result is pushed from `r0`. A value to be
  stored waits in the scratch cell and is pushed again from there.
-/

import BaselineTier.Lowering.Basic

namespace BaselineTier.Lowering

variable {β : Type}

def arith : Lowering β := fun job i => do
  Emit.popRegisters 2
  Emit.site job (.arith i.opcode)
  Emit.pushReg .r0

def compare : Lowering β := fun job i => do
  Emit.popRegisters 2
  Emit.site job (.compare i.opcode)
  Emit.pushBoolean .r0

def unary : Lowering β := fun job i => do
  Emit.popRegisters 1
  Emit.site job (.unary i.opcode)
  Emit.pushReg .r0

/-- Numbers pass; everything else goes through the conversion. -/
def pos : Lowering β := fun job _ => do
  Emit.popRegisters 1
  let done ← Emit.newLabel
  Emit.inst (.branchNumber .r0 done)
  Emit.site job .toNumber
  Emit.bind done
  Emit.pushReg .r0

def logicalNot : Lowering β := fun job _ => do
  let known := (← Emit.peek 1).isBoolean
  Emit.popRegisters 1
  unless known do Emit.site job .toBool
  Emit.inst (.negate .r0)
  Emit.pushBoolean .r0

def getName : Lowering β := fun job i => do
  let name ← Emit.atom job (← u32 i)
  Emit.flushBelow 0
  Emit.site job (if i.opcode = .getGlobal then .getGlobal name else .getName name)
  Emit.pushReg .r0

def setName : Lowering β := fun job i => do
  let name ← Emit.atom job (← u32 i)
  Emit.stageTop
  Emit.flushBelow 0
  Emit.site job (if i.opcode = .setGlobal then .setGlobal name else .setName name)
  Emit.pushScratch

def getProp : Lowering β := fun job i => do
  let key ← Emit.atom job (← u32 i)
  Emit.popRegisters 1
  Emit.site job (.getProp key)
  Emit.pushReg .r0

def setProp : Lowering β := fun job i => do
  let key ← Emit.atom job (← u32 i)
  Emit.stageTop
  Emit.popRegisters 1
  Emit.site job (.setProp key)
  Emit.pushScratch

def getElem : Lowering β := fun job _ => do
  Emit.popRegisters 2
  Emit.site job .getElem
  Emit.pushReg .r0

def setElem : Lowering β := fun job _ => do
  Emit.stageTop
  Emit.popRegisters 2
  Emit.site job .setElem
  Emit.pushScratch

/-- Callee, receiver and arguments are passed on the stack, and dropped after the call. -/
def call : Lowering β := fun job i => do
  let argc ← u16 i
  Emit.flushBelow 0
  Emit.inst (.setArgc argc.toNat)
  Emit.site job (.call argc)
  Emit.drop (argc.toNat + 2)
  Emit.pushReg .r0

end BaselineTier.Lowering
