/-
  BaselineTier.Instruction.Writer — writing bytecode.

  A writer appends opcodes and operands. A forward jump is written with distance 0 and
  leaves a `JumpSite`, which is pointed at its target later; a jump to a known offset is
  written with its distance at once. An integer literal takes the shortest instruction. A
  step takes an opcode of its own operand format; it is for the caller to see to that.
-/

import BaselineTier.Instruction.Bytes

namespace BaselineTier

structure Writer where
  bytes : Array UInt8 := #[]
deriving DecidableEq, Repr, Inhabited

structure JumpSite where
  offset : Nat
deriving DecidableEq, Repr

namespace Writer

def empty : Writer := {}

def offset (w : Writer) : Nat := w.bytes.size

def append (w : Writer) (bytes : List UInt8) : Writer := ⟨w.bytes ++ bytes⟩

def u8 (w : Writer) (n : UInt8) : Writer := ⟨w.bytes.push n⟩

def u16 (w : Writer) (n : UInt16) : Writer := w.append (littleEndian 2 n.toNat)

def u32 (w : Writer) (n : UInt32) : Writer := w.append (littleEndian 4 n.toNat)

def i32 (w : Writer) (n : Int32) : Writer := w.append (littleEndian 4 n.toUInt32.toNat)

def f64 (w : Writer) (d : Double) : Writer := w.append (littleEndian 8 d.bits.toNat)

def op (w : Writer) (opcode : Opcode) : Writer := w.u8 opcode.byte

def opU16 (w : Writer) (opcode : Opcode) (n : UInt16) : Writer := (w.op opcode).u16 n

def opU32 (w : Writer) (opcode : Opcode) (n : UInt32) : Writer := (w.op opcode).u32 n

/-- The shortest literal for an integer. -/
def int (w : Writer) (n : Int32) : Writer :=
  if n = 0 then w.op .pushZero
  else if n = 1 then w.op .pushOne
  else if -128 ≤ n ∧ n ≤ 127 then (w.op .pushInt8).u8 n.toUInt32.toUInt8
  else (w.op .pushInt32).i32 n

def double (w : Writer) (d : Double) : Writer := (w.op .pushDouble).f64 d

def jump (w : Writer) (opcode : Opcode) : JumpSite × Writer := (⟨w.offset⟩, (w.op opcode).i32 0)

def jumpTo (w : Writer) (opcode : Opcode) (target : Nat) : Writer :=
  (w.op opcode).i32 (displacement w.offset target)

/-- Four bytes overwritten by a number, if they have been written. -/
def patchInt32 (w : Writer) (offset : Nat) (n : Int32) : Option Writer :=
  if offset + 4 ≤ w.bytes.size then
    some ⟨w.bytes.take offset ++ littleEndian 4 n.toUInt32.toNat ++ w.bytes.drop (offset + 4)⟩
  else none

def patch (w : Writer) (site : JumpSite) (target : Nat) : Option Writer :=
  w.patchInt32 (site.offset + 1) (displacement site.offset target)

def patchHere (w : Writer) (site : JumpSite) : Option Writer := w.patch site w.offset

end Writer
end BaselineTier
