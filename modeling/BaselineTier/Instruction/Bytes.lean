/-
  BaselineTier.Instruction.Bytes — instructions as bytes.

  Operands are little-endian. A jump is written as the distance from its own opcode byte
  to its target, in thirty-two bits.
-/

import BaselineTier.Instruction.Basic

namespace BaselineTier

/-- The low `count` bytes of a number, least significant first. -/
def littleEndian : (count : Nat) → Nat → List UInt8
  | 0, _ => []
  | count + 1, n => UInt8.ofNat n :: littleEndian count (n / 256)

def ofLittleEndian : List UInt8 → Nat
  | [] => 0
  | b :: rest => b.toNat + 256 * ofLittleEndian rest

/-- The distance from a jump at `site` to `target`, in thirty-two bits. -/
def displacement (site target : Nat) : Int32 := Int32.ofInt ((target : Int) - site)

def Operand.encode (offset : Nat) : Operand → List UInt8
  | .none => []
  | .i8 n => [n.toUInt8]
  | .u16 n => littleEndian 2 n.toNat
  | .i32 n => littleEndian 4 n.toUInt32.toNat
  | .u32 n => littleEndian 4 n.toNat
  | .f64 d => littleEndian 8 d.bits.toNat
  | .jump target => littleEndian 4 (displacement offset target).toUInt32.toNat

def Instruction.encode (i : Instruction) : List UInt8 := i.opcode.byte :: i.operand.encode i.offset

end BaselineTier
