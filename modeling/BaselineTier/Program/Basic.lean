/-
  BaselineTier.Program.Basic — verified programs.

  A program is one function's bytecode with what the compiler needs to know about it: how
  many local slots and arguments it has, the texts its atom operands name, its stack map,
  and whether it asks for an arguments object. Only code that the verifier accepts becomes
  a program.
-/

import BaselineTier.StackMap

namespace BaselineTier

structure Program where
  name : String
  code : List UInt8
  instructions : List Instruction
  slots : Nat
  args : Nat
  /-- The texts that atom operands name, by index. -/
  atoms : Array String
  /-- Whether some instruction, reachable or not, asks for the arguments object. -/
  needsArguments : Bool
  stackMap : StackMap
deriving DecidableEq, Repr, Inhabited

namespace Program

/-- The program of a code that the verifier accepts. -/
def ofCode (name : String) (code : List UInt8) (slots args : Nat) (atoms : Array String) :
    Except (Fault VerifyError) Program := do
  let stackMap ← StackMap.verify ⟨slots, args, atoms.size⟩ code
  match Instruction.decode code with
  | .error e => throw (.error (.decode e))
  | .ok instructions =>
    pure { name, code, instructions, slots, args, atoms, stackMap
           needsArguments := instructions.any fun i => i.opcode == .arguments }

def length (p : Program) : Nat := p.code.length

def offsets (p : Program) : List Nat := Instruction.offsetsFrom p.code 0 0

def atomText? (p : Program) (index : Nat) : Option String := p.atoms[index]?

end Program
end BaselineTier
