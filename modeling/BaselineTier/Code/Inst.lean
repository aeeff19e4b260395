/-
  BaselineTier.Code.Inst — the instruction set of compiled code.

  A small machine with three value registers, one value stack shared by all activations,
  and frame-relative memory. `Move` holds the instructions that only carry values from
  place to place; they are what the picture of the operand stack is written out with.
  `Inst` adds frames, branches and calls through an inline-cache site. Branch targets are
  labels while code is being emitted and code offsets once it is linked, so `Inst` takes
  the type of its targets as a parameter.
-/

import BaselineTier.Value

namespace BaselineTier

inductive Reg where
  | r0 | r1 | r2
deriving DecidableEq, Repr, Inhabited

namespace Reg

/-- All registers, in the order in which they are handed out. -/
def all : List Reg := [r0, r1, r2]

def text : Reg → String
  | r0 => "r0"
  | r1 => "r1"
  | r2 => "r2"

def inspect : Reg → String
  | r0 => "R0"
  | r1 => "R1"
  | r2 => "R2"

end Reg

inductive Address where
  /-- A local slot; an index past the slots reaches into the operand stack. -/
  | slot (index : Nat)
  | arg (index : Nat)
  /-- A place of the operand stack, counted from its bottom. -/
  | stack (index : Nat)
  /-- Where a value waits while a site is called. -/
  | scratch
deriving DecidableEq, Repr, Inhabited

def Address.text : Address → String
  | slot index => s!"[local {index}]"
  | arg index => s!"[arg {index}]"
  | stack index => s!"[stack {index}]"
  | scratch => "[scratch]"

/-- An instruction that only moves values. -/
inductive Move where
  | copy (src dst : Reg)
  | setReg (value : Value) (dst : Reg)
  | load (src : Address) (dst : Reg)
  | store (src : Reg) (dst : Address)
  | setCell (value : Value) (dst : Address)
  | push (reg : Reg)
  | pushValue (value : Value)
  | pushFrom (src : Address)
  | pop (dst : Reg)
  /-- Drops values from the top of the stack. -/
  | free (count : Nat)
deriving DecidableEq, Repr, Inhabited

namespace Move

def text : Move → String
  | copy src dst => s!"mov {dst.text}, {src.text}"
  | setReg value dst => s!"mov {dst.text}, #{value.text}"
  | load src dst => s!"load {dst.text}, {src.text}"
  | store src dst => s!"store {dst.text}, {src.text}"
  | setCell value dst => s!"store {dst.text}, #{value.text}"
  | push reg => s!"push {reg.text}"
  | pushValue value => s!"push #{value.text}"
  | pushFrom src => s!"push {src.text}"
  | pop dst => s!"pop {dst.text}"
  | free count => s!"free_stack {count}"

/-- Dropping nothing takes no instruction. -/
def dropping (count : Nat) : List Move := if count = 0 then [] else [free count]

/-- The height of the stack after the move, from the height before; `none` below the frame. What may be taken is
    told by the low 32 bits of the height, all that is kept of it. -/
def height (m : Move) (before : Nat) : Option Nat :=
  match m with
  | push _ | pushValue _ | pushFrom _ => some (before + 1)
  | pop _ => if 1 ≤ before % 2 ^ 32 then some (before - 1) else none
  | free count => if count ≤ before % 2 ^ 32 then some (before - count) else none
  | _ => some before

end Move

/-- An instruction with branch targets of type `τ`. -/
inductive Inst (τ : Type) where
  | move (m : Move)
  /-- Opens a frame with room for local slots. -/
  | enterFrame (slots : Nat)
  | leaveFrame
  /-- Gives control back, with the result in `r0`. -/
  | ret
  /-- Fails when too many activations are nested. -/
  | stackCheck
  /-- Says how many arguments the call that follows passes. -/
  | setArgc (count : Nat)
  /-- Turns a Boolean around in its register. -/
  | negate (reg : Reg)
  | jump (target : τ)
  /-- Branches if the Boolean in the register is `condition`. -/
  | branch (reg : Reg) (condition : Bool) (target : τ)
  /-- Branches if the register holds a number. -/
  | branchNumber (reg : Reg) (target : τ)
  /-- Calls through the site that the patch slot names. -/
  | callSite (patch : Nat)
deriving DecidableEq, Repr, Inhabited

namespace Inst

def text {τ : Type} (showTarget : τ → String) : Inst τ → String
  | move m => m.text
  | enterFrame slots => s!"enter_frame {slots}"
  | leaveFrame => "leave_frame"
  | ret => "ret"
  | stackCheck => "stack_check"
  | setArgc count => s!"mov argc, {count}"
  | negate reg => s!"not {reg.text}"
  | jump target => "jmp " ++ showTarget target
  | branch reg condition target => s!"b{condition} {reg.text}, " ++ showTarget target
  | branchNumber reg target => s!"bnum {reg.text}, " ++ showTarget target
  | callSite patch => s!"call_ic @{patch}"

def target? {τ : Type} : Inst τ → Option τ
  | jump target | branch _ _ target | branchNumber _ target => some target
  | _ => none

def height {τ : Type} (i : Inst τ) (before : Nat) : Option Nat :=
  match i with
  | move m => m.height before
  | _ => some before

def resolve {τ υ ε : Type} (find : τ → Except ε υ) : Inst τ → Except ε (Inst υ)
  | move m => .ok (.move m)
  | enterFrame slots => .ok (.enterFrame slots)
  | leaveFrame => .ok .leaveFrame
  | ret => .ok .ret
  | stackCheck => .ok .stackCheck
  | setArgc count => .ok (.setArgc count)
  | negate reg => .ok (.negate reg)
  | jump target => (find target).map .jump
  | branch reg condition target => (find target).map (.branch reg condition)
  | branchNumber reg target => (find target).map (.branchNumber reg)
  | callSite patch => .ok (.callSite patch)

end Inst

structure Label where
  index : Nat
deriving DecidableEq, Repr, Inhabited

def Label.text (l : Label) : String := s!"L{l.index}"

end BaselineTier
