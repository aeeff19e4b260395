/-
  BaselineTier.Instruction.Decoding — reading instructions from bytes.

  A `Cursor` is a place in a byte string. A read that fails does not move it, except that
  a byte which is no opcode is consumed. `decodeAt` reads the instruction at an offset;
  `decode` reads a whole byte string as one instruction after another.
-/

import BaselineTier.Instruction.Bytes
import BaselineTier.Text.Quoted

namespace BaselineTier

inductive DecodeError where
  | unexpectedEnd (offset : Nat)
  | invalidOpcode (byte : UInt8) (offset : Nat)
  | jumpOutOfRange (offset : Nat) (displacement : Int32)
deriving DecidableEq, Repr

def DecodeError.message : DecodeError → String
  | unexpectedEnd offset => "Unexpected end of bytecode at offset " ++ toString offset
  | invalidOpcode byte offset => "Invalid opcode 0x" ++ Text.hex byte.toNat ++ " at offset " ++ toString offset
  | jumpOutOfRange offset displacement =>
    "Jump at offset " ++ toString offset ++ " has out-of-range displacement " ++ toString displacement.toInt

/-- A place in a byte string: what lies ahead and how much is behind. -/
structure Cursor where
  rest : List UInt8
  position : Nat
deriving DecidableEq, Repr

abbrev Read := EStateM DecodeError Cursor

namespace Cursor

/-- The cursor at an offset of a byte string; it may lie past the end. -/
def start (code : List UInt8) (offset : Nat) : Cursor := ⟨code.drop offset, offset⟩

def hasMore (c : Cursor) : Bool := !c.rest.isEmpty

def take (count : Nat) : Read (List UInt8) := fun c =>
  let bytes := c.rest.take count
  if bytes.length = count then .ok bytes ⟨c.rest.drop count, c.position + count⟩
  else .error (.unexpectedEnd c.position) c

def number (count : Nat) : Read Nat := ofLittleEndian <$> take count

def u8 : Read UInt8 := UInt8.ofNat <$> number 1

def i8 : Read Int8 := UInt8.toInt8 <$> u8

def u16 : Read UInt16 := UInt16.ofNat <$> number 2

def u32 : Read UInt32 := UInt32.ofNat <$> number 4

def i32 : Read Int32 := UInt32.toInt32 <$> u32

def f64 : Read Double := (fun n => ⟨UInt64.ofNat n⟩) <$> number 8

def opcode : Read Opcode := do
  let start := (← get).position
  let byte ← u8
  match Opcode.ofByte? byte with
  | some op => pure op
  | none => throw (.invalidOpcode byte start)

def operand (length offset : Nat) : OperandFormat → Read Operand
  | .none => pure .none
  | .i8 => .i8 <$> i8
  | .u16 => .u16 <$> u16
  | .i32 => .i32 <$> i32
  | .u32 => .u32 <$> u32
  | .f64 => .f64 <$> f64
  | .jump => do
    let distance ← i32
    let target := (offset : Int) + distance.toInt
    if 0 ≤ target ∧ target < length then pure (.jump target.toNat)
    else throw (.jumpOutOfRange offset distance)

def instruction (length : Nat) : Read Instruction := do
  let offset := (← get).position
  let op ← opcode
  let operand ← operand length offset op.format
  pure ⟨offset, op, operand, (← get).position - offset⟩

end Cursor

namespace Instruction

def decodeHead (length : Nat) (c : Cursor) : Except DecodeError Instruction :=
  match Cursor.instruction length c with
  | .ok i _ => .ok i
  | .error e _ => .error e

def decodeAt (code : List UInt8) (offset : Nat) : Except DecodeError Instruction :=
  decodeHead code.length (Cursor.start code offset)

/-- The instructions of what lies ahead, after `skip` bytes that belong to the one before. -/
def decodeFrom (length : Nat) : List UInt8 → (offset skip : Nat) → Except DecodeError (List Instruction)
  | [], _, _ => .ok []
  | _ :: rest, offset, skip + 1 => decodeFrom length rest (offset + 1) skip
  | b :: rest, offset, 0 => do
    let i ← decodeHead length ⟨b :: rest, offset⟩
    let is ← decodeFrom length rest (offset + 1) (i.size - 1)
    pure (i :: is)

def decode (code : List UInt8) : Except DecodeError (List Instruction) := decodeFrom code.length code 0 0

/-- The offsets at which instructions start, found by the lengths of their opcodes alone; a byte
    that is no opcode counts as one instruction. -/
def offsetsFrom : List UInt8 → (offset skip : Nat) → List Nat
  | [], _, _ => []
  | _ :: rest, offset, skip + 1 => offsetsFrom rest (offset + 1) skip
  | b :: rest, offset, 0 =>
    offset :: offsetsFrom rest (offset + 1) (((Opcode.ofByte? b).map Opcode.length).getD 1 - 1)

end Instruction
end BaselineTier
