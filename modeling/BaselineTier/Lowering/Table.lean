/-
  BaselineTier.Lowering.Table — how each opcode is compiled.

  An opcode without a routine is either short for a sequence of others, which are lowered
  in its place, or it makes the script one that this tier cannot compile.
-/

import BaselineTier.Lowering.Branches
import BaselineTier.Lowering.Operators
import BaselineTier.Lowering.Shuffle

namespace BaselineTier.Lowering

variable {β : Type}

def routine? : Opcode → Option (Lowering β)
  | .nop | .loopHead => some nop
  | .pop => some pop
  | .popN => some popN
  | .dup => some dup
  | .dup2 => some dup2
  | .swap => some swap
  | .pushUndefined | .pushNull | .pushTrue | .pushFalse | .pushZero | .pushOne | .pushInt8 | .pushInt32
  | .pushDouble | .pushHole => some literal
  | .pushString => some string
  | .getLocal => some getLocal
  | .setLocal => some setLocal
  | .getArg => some getArg
  | .setArg => some setArg
  | .add | .sub | .mul | .div | .mod | .bitAnd | .bitOr | .bitXor | .lsh | .rsh | .ursh => some arith
  | .neg | .bitNot => some unary
  | .pos => some pos
  | .logicalNot => some logicalNot
  | .eq | .ne | .strictEq | .strictNe | .lt | .le | .gt | .ge => some compare
  | .goto => some goto
  | .ifEq | .ifNe => some branch
  | .andJump | .orJump => some shortCircuit
  | .ret => some ret
  | .stop => some stop
  | .getName | .getGlobal => some getName
  | .setName | .setGlobal => some setName
  | .getProp => some getProp
  | .setProp => some setProp
  | .getElem => some getElem
  | .setElem => some setElem
  | .call => some call
  | .incLocal | .decLocal | .debugger | .throwValue | .lambda | .arguments | .enterWith | .leaveWith => none

/-- Compiles an instruction, by its own routine or part by part. -/
def lower (job : Job β) (i : Instruction) : Emit β Unit :=
  match routine? i.opcode with
  | some routine => routine job i
  | none =>
    let unsupported : CompileError := .cantCompile (.unsupported i.opcode i.offset)
    match i.expand with
    | none => Emit.fail unsupported
    | some parts => parts.forM fun part =>
      match routine? part.opcode with
      | some routine => routine job part
      | none => Emit.fail unsupported

end BaselineTier.Lowering
