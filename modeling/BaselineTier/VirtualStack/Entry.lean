/-
  BaselineTier.VirtualStack.Entry — where the value of an operand-stack entry lives.
-/

import BaselineTier.Code.Inst

namespace BaselineTier

inductive Place where
  | constant (value : Value)
  | register (reg : Reg)
  /-- Still in the local slot it was read from. -/
  | slot (index : Nat)
  /-- Still in the argument it was read from. -/
  | arg (index : Nat)
  /-- Written out, at this place of the operand stack. -/
  | spilled (index : Nat)
deriving DecidableEq, Repr, Inhabited

namespace Place

def inspect : Place → String
  | constant value => s!"Constant({value.inspect})"
  | register reg => s!"Register({reg.inspect})"
  | slot index => s!"LocalSlot({index})"
  | arg index => s!"ArgSlot({index})"
  | spilled index => s!"Spilled({index})"

def isSpilled : Place → Bool
  | spilled _ => true
  | _ => false

def register? : Place → Option Reg
  | register reg => some reg
  | _ => none

/-- Brings the value into a register; a value that was written out is on top of the stack. -/
def load (dst : Reg) : Place → List Move
  | constant value => [.setReg value dst]
  | register src => if src = dst then [] else [.copy src dst]
  | slot index => [.load (.slot index) dst]
  | arg index => [.load (.arg index) dst]
  | spilled _ => [.pop dst]

def spill : Place → List Move
  | constant value => [.pushValue value]
  | register reg => [.push reg]
  | slot index => [.pushFrom (.slot index)]
  | arg index => [.pushFrom (.arg index)]
  | spilled _ => []

/-- Copies the value to a place in memory, by way of the register `via` if it comes from memory. -/
def store (dst : Address) (via : Reg) : Place → List Move
  | constant value => [.setCell value dst]
  | register reg => [.store reg dst]
  | slot index => [.load (.slot index) via, .store via dst]
  | arg index => [.load (.arg index) via, .store via dst]
  | spilled index => [.load (.stack index) via, .store via dst]

def address? : Place → Option Address
  | slot index => some (.slot index)
  | arg index => some (.arg index)
  | spilled index => some (.stack index)
  | _ => none

end Place

/-- An entry of the operand stack: where its value lives, and its type if that is known. -/
structure Entry where
  place : Place
  known : Option ValueType := none
deriving DecidableEq, Repr, Inhabited

namespace Entry

def constant (value : Value) : Entry := ⟨.constant value, some value.type⟩

def isBoolean (e : Entry) : Bool := e.known == some .boolean

def inspect (e : Entry) : String :=
  e.place.inspect ++ match e.known with
    | some type => ":" ++ type.name
    | none => ""

end Entry
end BaselineTier
