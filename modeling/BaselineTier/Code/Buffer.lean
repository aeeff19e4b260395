/-
  BaselineTier.Code.Buffer — code as it is emitted.

  A buffer holds the instructions so far, the labels with the offsets they are bound to,
  the places that call through a site, and the height that the operand stack has at this
  point of straight-line code. Emitting an instruction that would take the stack below the
  frame is a breach, and so is binding a label twice.

  Code has fewer than 2^32 instructions, so that 32-bit offsets reach all of them; offsets
  are counted without bound.
-/

import BaselineTier.Breach

namespace BaselineTier

structure PatchSite where
  offset : Nat
  site : Nat
deriving DecidableEq, Repr, Inhabited

structure CodeBuffer where
  insts : Array (Inst Label) := #[]
  /-- The offset of each label that is bound. -/
  labels : Array (Option Nat) := #[]
  patches : Array PatchSite := #[]
  /-- The height of the operand stack at this point. -/
  height : Nat := 0
  /-- The height before each instruction. -/
  heights : Array Nat := #[]
deriving DecidableEq, Repr, Inhabited

namespace CodeBuffer

def empty : CodeBuffer := {}

def offset (b : CodeBuffer) : Nat := b.insts.size

def newLabel (b : CodeBuffer) : Label × CodeBuffer := (⟨b.labels.size⟩, { b with labels := b.labels.push none })

def newLabels (b : CodeBuffer) (count : Nat) : CodeBuffer :=
  { b with labels := b.labels ++ Array.replicate count none }

def bind (b : CodeBuffer) (label : Label) : Except Breach CodeBuffer :=
  match b.labels[label.index]? with
  | none => .error .outOfRange
  | some (some _) => .error (.boundTwice label)
  | some none => .ok { b with labels := b.labels.setIfInBounds label.index (some b.offset) }

def labelOffset? (b : CodeBuffer) (label : Label) : Option Nat := b.labels[label.index]?.join

def emit (b : CodeBuffer) (i : Inst Label) : Except Breach CodeBuffer :=
  match i.height b.height with
  | some height => .ok { b with insts := b.insts.push i, height, heights := b.heights.push b.height }
  | none => .error (.belowFrame i)

def emitMoves (b : CodeBuffer) (moves : List Move) : Except Breach CodeBuffer :=
  moves.foldlM (fun b m => b.emit (.move m)) b

/-- A call through a site; the offset after it is where the call returns to. -/
def callSite (b : CodeBuffer) (site : Nat) : Except Breach CodeBuffer :=
  { b with patches := b.patches.push ⟨b.offset, site⟩ }.emit (.callSite b.patches.size)

def column (n : Nat) : String :=
  let digits := toString n
  String.ofList (List.replicate (4 - digits.length) ' ') ++ digits

/-- The listing: the labels bound at each instruction, then the instruction. -/
def listing (b : CodeBuffer) : String :=
  let row (offset : Nat) (i : Inst Label) : String :=
    let bound := (List.range b.labels.size).filter fun l => b.labels[l]?.join == some offset
    String.join (bound.map fun l => (Label.mk l).text ++ ":\n") ++ "  " ++ column offset ++ "  " ++
      i.text Label.text ++ "\n"
  String.join (b.insts.toList.mapIdx row)

end CodeBuffer
end BaselineTier
