/-
  BaselineTier.StackMap — the operand-stack depth at every reachable instruction.

  A program is walked from offset 0 with an empty stack. Visiting an instruction checks its
  operand against the program's limits, its pops against the depth it is reached with, and
  where it leads: a jump must land where an instruction starts, and control may not run off
  the end. Every offset must be reached with one depth only. What comes out is the depth at
  each reachable offset, whether a jump lands there, and the greatest depth met.

  The walk takes the place reached last first, and a conditional jump reaches its target
  before the next instruction; of several faults this order decides which is reported. An
  offset becomes pending only when it gets its depth, so it is visited once and the walk
  ends within as many visits as the code has bytes.
-/

import BaselineTier.Breach
import BaselineTier.Instruction.Decoding

namespace BaselineTier

def maxStackDepth : Nat := 1024

/-- What a program may refer to: its local slots, its arguments and its atoms. -/
structure Limits where
  slots : Nat
  args : Nat
  atoms : Nat
deriving DecidableEq, Repr, Inhabited

inductive VerifyError where
  | emptyProgram
  | decode (cause : DecodeError)
  | stackUnderflow (offset : Nat)
  | stackOverflow (offset depth : Nat)
  | depthMismatch (offset expected found : Nat)
  | invalidJumpTarget (target offset : Nat)
  | fallOffEnd (offset : Nat)
  | badReturnDepth (opcode : Opcode) (offset depth : Nat)
  | invalidLocal (index max offset : Nat)
  | invalidArg (index max offset : Nat)
  | invalidAtom (index offset : Nat)
deriving DecidableEq, Repr

def VerifyError.message : VerifyError → String
  | emptyProgram => "Program is empty"
  | decode cause => "Decode error: " ++ cause.message
  | stackUnderflow offset => s!"Stack underflow at offset {offset}"
  | stackOverflow offset depth => s!"Stack overflow at offset {offset} (depth: {depth})"
  | depthMismatch offset expected found => s!"Stack depth mismatch at offset {offset}: {expected} vs {found}"
  | invalidJumpTarget target offset => s!"Invalid jump target {target} at offset {offset}"
  | fallOffEnd offset => s!"Execution falls off end of program at offset {offset}"
  | badReturnDepth opcode offset depth => s!"{opcode.name} at offset {offset} with stack depth {depth}"
  | invalidLocal index max offset => s!"Invalid local slot reference: index {index} (max {max}) at offset {offset}"
  | invalidArg index max offset => s!"Invalid argument reference: index {index} (max {max}) at offset {offset}"
  | invalidAtom index offset => s!"Invalid atom reference: index {index} at offset {offset}"

/-! ## One instruction -/

namespace Limits

/-- Reads past the slots reach into the operand stack. The sum is a 32-bit count, and is checked to be one. -/
def readable (l : Limits) (depth : Nat) : Except Breach Nat :=
  if l.slots + depth < 2 ^ 32 then .ok (l.slots + depth) else .error .overflow

def checkOperand (l : Limits) (i : Instruction) (depth : Nat) : Except (Fault VerifyError) Unit :=
  let below (index limit : Nat) (refusal : VerifyError) : Except (Fault VerifyError) Unit :=
    if index < limit then .ok () else .error (.error refusal)
  match i.opcode with
  | .getLocal =>
    match l.readable depth with
    | .ok limit => below i.count limit (.invalidLocal i.count limit i.offset)
    | .error b => .error (.breach b)
  | .setLocal | .incLocal | .decLocal => below i.count l.slots (.invalidLocal i.count l.slots i.offset)
  | .getArg | .setArg => below i.count l.args (.invalidArg i.count l.args i.offset)
  | .pushString | .getName | .setName | .getGlobal | .setGlobal | .getProp | .setProp =>
    let index := (i.u32?.map UInt32.toNat).getD 0
    below index l.atoms (.invalidAtom index i.offset)
  | _ => .ok ()

end Limits

/-- The depth at which an instruction must be met, if only one will do. -/
def Opcode.requiredDepth : Opcode → Option Nat
  | .ret => some 1
  | .stop => some 0
  | _ => none

/-- The depth that an instruction leaves, having checked the one it is met with. -/
def Limits.depthAfter (l : Limits) (i : Instruction) (depth : Nat) : Except (Fault VerifyError) Nat := do
  l.checkOperand i depth
  if depth < i.pops then throw (.error (.stackUnderflow i.offset))
  if (i.opcode.requiredDepth.getD depth) ≠ depth then throw (.error (.badReturnDepth i.opcode i.offset depth))
  let after := depth - i.pops + i.pushes
  if maxStackDepth < after then throw (.error (.stackOverflow i.offset after))
  pure after

/-! ## The walk -/

structure StackMap.Info where
  depth : Nat
  jumpTarget : Bool
deriving DecidableEq, Repr, Inhabited

structure StackMap where
  infos : Array (Option StackMap.Info)
  deepest : Nat
deriving DecidableEq, Repr, Inhabited

namespace StackMap

def info? (m : StackMap) (offset : Nat) : Option Info := m.infos[offset]?.join

def isReachable (m : StackMap) (offset : Nat) : Bool := (m.info? offset).isSome

def isJumpTarget (m : StackMap) (offset : Nat) : Bool := ((m.info? offset).map Info.jumpTarget).getD false

def depthAt (m : StackMap) (offset : Nat) : Option Nat := (m.info? offset).map Info.depth

def reachableCount (m : StackMap) : Nat := m.infos.countP Option.isSome

/-- The walk under way: the map so far and the offsets still to visit, the next one first. -/
structure Walk where
  map : StackMap
  pending : List Nat
deriving DecidableEq, Repr

/-- An offset is reached with a depth: a new one becomes pending, a known one must agree. -/
def Walk.reach (w : Walk) (offset depth : Nat) (byJump : Bool) : Except (Fault VerifyError) Walk :=
  match w.map.info? offset with
  | none =>
    .ok { map := { w.map with infos := w.map.infos.setIfInBounds offset (some ⟨depth, byJump⟩) },
          pending := offset :: w.pending }
  | some known =>
    if known.depth = depth then
      .ok { w with
        map := { w.map with
          infos := w.map.infos.setIfInBounds offset (some ⟨depth, known.jumpTarget || byJump⟩) } }
    else .error (.error (.depthMismatch offset known.depth depth))

def starts (length : Nat) (is : List Instruction) : Array (Option Instruction) :=
  is.foldl (fun a i => a.setIfInBounds i.offset (some i)) (Array.replicate length none)

def Walk.visit (l : Limits) (code : Array (Option Instruction)) (w : Walk) (offset : Nat) :
    Except (Fault VerifyError) Walk :=
  match code[offset]?.join, w.map.depthAt offset with
  | some i, some depth => do
    let after ← l.depthAfter i depth
    let w := { w with map := { w.map with deepest := max (max w.map.deepest depth) after } }
    let w ← match i.target? with
      | some target =>
        if code[target]?.join.isSome then w.reach target after true
        else .error (.error (.invalidJumpTarget target i.offset))
      | none => .ok w
    if i.opcode.fallsThrough then
      if i.next < code.size then w.reach i.next after false else .error (.error (.fallOffEnd i.offset))
    else .ok w
  | _, _ => .ok w

/-- The walk, for a given number of visits at most. -/
def Walk.run (l : Limits) (code : Array (Option Instruction)) : Nat → Walk → Except (Fault VerifyError) Walk
  | 0, w => .ok w
  | visits + 1, w =>
    match w.pending with
    | [] => .ok w
    | offset :: rest => do
      let w ← Walk.visit l code { w with pending := rest } offset
      Walk.run l code visits w

/-- The walk before the first visit: offset 0 is reached with an empty stack. -/
def Walk.start (length : Nat) : Walk :=
  { map := { infos := (Array.replicate length none).setIfInBounds 0 (some ⟨0, false⟩), deepest := 0 }, pending := [0] }

def verify (l : Limits) (code : List UInt8) : Except (Fault VerifyError) StackMap :=
  if code.isEmpty then .error (.error .emptyProgram) else
    match Instruction.decode code with
    | .error e => .error (.error (.decode e))
    | .ok is => do
      let w ← Walk.run l (starts code.length is) code.length (Walk.start code.length)
      pure w.map

end StackMap
end BaselineTier
