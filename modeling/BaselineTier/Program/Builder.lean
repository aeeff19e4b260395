/-
  BaselineTier.Program.Builder — programs put together step by step.

  The builder writes instructions and gives every name a script-local index in the order of
  first use. Building interns the names in that order into a shared table, and then
  verifies the code; the table keeps the names even when the code is refused.

  A listing is a sequence of `Line`s: instructions, literals, and labels that jumps refer
  to by name. A jump to a label that is already placed is written at once; one to a later
  label waits and is pointed at the label when that is placed.
-/

import BaselineTier.Atom
import BaselineTier.Instruction.Writer
import BaselineTier.Program.Basic

namespace BaselineTier

structure Builder where
  writer : Writer := {}
  /-- The names used so far, each at its script-local index. -/
  atoms : Array String := #[]
  /-- The script-local index of every name used so far. -/
  index : List (String × UInt32) := []
deriving DecidableEq, Repr, Inhabited

namespace Builder

def empty : Builder := {}

def offset (b : Builder) : Nat := b.writer.offset

/-- The script-local index of a name, new if the name is. -/
def atom (b : Builder) (text : String) : UInt32 × Builder :=
  match b.index.lookup text with
  | some index => (index, b)
  | none =>
    let index := UInt32.ofNat b.atoms.size
    (index, { b with atoms := b.atoms.push text, index := (text, index) :: b.index })

def op (b : Builder) (opcode : Opcode) : Builder := { b with writer := b.writer.op opcode }

def opU16 (b : Builder) (opcode : Opcode) (n : UInt16) : Builder := { b with writer := b.writer.opU16 opcode n }

def opU32 (b : Builder) (opcode : Opcode) (n : UInt32) : Builder := { b with writer := b.writer.opU32 opcode n }

def opAtom (b : Builder) (opcode : Opcode) (text : String) : Builder :=
  let (index, b) := b.atom text
  b.opU32 opcode index

def int (b : Builder) (n : Int32) : Builder := { b with writer := b.writer.int n }

def double (b : Builder) (d : Double) : Builder := { b with writer := b.writer.double d }

def string (b : Builder) (text : String) : Builder := b.opAtom .pushString text

def jump (b : Builder) (opcode : Opcode) : JumpSite × Builder :=
  let (site, writer) := b.writer.jump opcode
  (site, { b with writer })

def jumpTo (b : Builder) (opcode : Opcode) (target : Nat) : Builder :=
  { b with writer := b.writer.jumpTo opcode target }

/-- A forward jump pointed here. A site that this builder did not make leaves it as it is. -/
def bind (b : Builder) (site : JumpSite) : Builder := { b with writer := (b.writer.patchHere site).getD b.writer }

/-- The program, and the table with the program's names interned. -/
def build (b : Builder) (name : String) (slots args : Nat) (table : AtomTable) :
    Except (Fault VerifyError) Program × AtomTable :=
  (Program.ofCode name b.writer.bytes.toList slots args b.atoms, table.internAll b.atoms.toList)

end Builder

inductive Line where
  | label (name : String)
  | int (n : Int32)
  | double (d : Double)
  | string (text : String)
  /-- Gives a name its index and writes nothing. -/
  | atom (text : String)
  | jump (opcode : Opcode) (label : String)
  | jumpTo (opcode : Opcode) (offset : Nat)
  | u16 (opcode : Opcode) (n : UInt16)
  | name (opcode : Opcode) (text : String)
  | u32 (opcode : Opcode) (n : UInt32)
  | op (opcode : Opcode)
deriving Repr

/-- A listing under way: labels that are placed, and forward jumps that wait for one. -/
structure Listing where
  builder : Builder := {}
  placed : List (String × Nat) := []
  waiting : List (String × JumpSite) := []

namespace Listing

def line (l : Listing) : Line → Listing
  | .label name =>
    { builder := (l.waiting.filter (·.1 == name)).foldl (fun b w => b.bind w.2) l.builder
      placed := (name, l.builder.offset) :: l.placed
      waiting := l.waiting.filter (·.1 != name) }
  | .int n => { l with builder := l.builder.int n }
  | .double d => { l with builder := l.builder.double d }
  | .string text => { l with builder := l.builder.string text }
  | .atom text => { l with builder := (l.builder.atom text).2 }
  | .jump opcode label =>
    match l.placed.lookup label with
    | some offset => { l with builder := l.builder.jumpTo opcode offset }
    | none =>
      let (site, builder) := l.builder.jump opcode
      { l with builder, waiting := l.waiting ++ [(label, site)] }
  | .jumpTo opcode offset => { l with builder := l.builder.jumpTo opcode offset }
  | .u16 opcode n => { l with builder := l.builder.opU16 opcode n }
  | .name opcode text => { l with builder := l.builder.opAtom opcode text }
  | .u32 opcode n => { l with builder := l.builder.opU32 opcode n }
  | .op opcode => { l with builder := l.builder.op opcode }

/-- The builder after a whole listing. A jump whose label is never placed keeps distance 0. -/
def assemble (lines : List Line) : Builder := (lines.foldl line {}).builder

end Listing
end BaselineTier
