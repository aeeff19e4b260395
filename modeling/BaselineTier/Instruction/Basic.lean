/-
  BaselineTier.Instruction.Basic — decoded instructions.

  An instruction is an opcode with its operand, at the byte offset where it starts. Jumps
  carry the absolute offset they go to. `pops` and `pushes` say what an instruction does
  to the height of the operand stack; `expand` gives the sequence that a compound
  instruction stands for.
-/

import BaselineTier.Decimal.Text
import BaselineTier.Opcode

namespace BaselineTier

inductive Operand where
  | none
  | i8 (n : Int8)
  | u16 (n : UInt16)
  | i32 (n : Int32)
  | u32 (n : UInt32)
  | f64 (d : Double)
  | jump (target : Nat)
deriving DecidableEq, Repr, Inhabited

namespace Operand

def format : Operand → OperandFormat
  | none => .none
  | i8 _ => .i8
  | u16 _ => .u16
  | i32 _ => .i32
  | u32 _ => .u32
  | f64 _ => .f64
  | jump _ => .jump

def inspect : Operand → String
  | none => "None"
  | i8 n => "I8(" ++ toString n.toInt ++ ")"
  | u16 n => "U16(" ++ toString n.toNat ++ ")"
  | i32 n => "I32(" ++ toString n.toInt ++ ")"
  | u32 n => "U32(" ++ toString n.toNat ++ ")"
  | f64 d => "F64(" ++ d.text .inspect ++ ")"
  | jump target => "Jump \x7b target: " ++ toString target ++ " \x7d"

end Operand

structure Instruction where
  /-- Where it starts. -/
  offset : Nat
  opcode : Opcode
  operand : Operand
  /-- Its bytes; a part of an expanded instruction has none. -/
  size : Nat
deriving DecidableEq, Repr, Inhabited

namespace Instruction

def target? (i : Instruction) : Option Nat :=
  match i.operand with
  | .jump target => some target
  | _ => none

/-- A slot, an argument index or a count. -/
def u16? (i : Instruction) : Option UInt16 :=
  match i.operand with
  | .u16 n => some n
  | _ => none

/-- An atom index or a function index. -/
def u32? (i : Instruction) : Option UInt32 :=
  match i.operand with
  | .u32 n => some n
  | _ => none

def next (i : Instruction) : Nat := i.offset + i.opcode.length

/-- The count that the operand gives, 0 without one. -/
def count (i : Instruction) : Nat := (i.u16?.map UInt16.toNat).getD 0

def pops (i : Instruction) : Nat :=
  match i.opcode with
  | .nop | .loopHead | .goto | .stop | .debugger | .leaveWith => 0
  | .pop | .ifEq | .ifNe | .ret | .throwValue | .enterWith => 1
  | .popN => i.count
  | .dup => 1
  | .dup2 => 2
  | .swap => 2
  | .pushUndefined | .pushNull | .pushTrue | .pushFalse | .pushZero | .pushOne | .pushInt8 | .pushInt32
  | .pushDouble | .pushString | .pushHole => 0
  | .getLocal | .getArg | .incLocal | .decLocal | .getName | .getGlobal | .lambda | .arguments => 0
  | .setLocal | .setArg | .setName | .setGlobal => 1
  | .add | .sub | .mul | .div | .mod | .bitAnd | .bitOr | .bitXor | .lsh | .rsh | .ursh => 2
  | .neg | .pos | .bitNot | .logicalNot => 1
  | .eq | .ne | .strictEq | .strictNe | .lt | .le | .gt | .ge => 2
  | .andJump | .orJump => 1
  | .getProp => 1
  | .setProp | .getElem => 2
  | .setElem => 3
  | .call => i.count + 2

def pushes (i : Instruction) : Nat :=
  match i.opcode with
  | .nop | .loopHead | .goto | .stop | .debugger | .leaveWith => 0
  | .pop | .popN | .ifEq | .ifNe | .ret | .throwValue | .enterWith => 0
  | .dup | .swap => 2
  | .dup2 => 4
  | _ => 1

/-- The sequence that a compound instruction stands for, at the same offset. -/
def expand (i : Instruction) : Option (List Instruction) :=
  let part (opcode : Opcode) (operand : Operand) : Instruction := ⟨i.offset, opcode, operand, 0⟩
  let step (arith : Opcode) : Option (List Instruction) := i.u16?.map fun slot =>
    [part .getLocal (.u16 slot), part .pushOne .none, part arith .none, part .setLocal (.u16 slot)]
  match i.opcode with
  | .incLocal => step .add
  | .decLocal => step .sub
  | _ => none

end Instruction
end BaselineTier
