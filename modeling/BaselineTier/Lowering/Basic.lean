/-
  BaselineTier.Lowering.Basic — what lowering works with.

  A job says what is compiled and under which limits; a draft is what has been compiled so
  far. A lowering step changes the draft. It ends early with a compile error, or with a
  breach if an assumption of the compiler does not hold; the draft is then left as it was
  at that moment.
-/

import BaselineTier.Cache.Table
import BaselineTier.Program.Basic
import BaselineTier.Settings.Basic
import BaselineTier.VirtualStack.Basic

namespace BaselineTier

structure Job (β : Type) where
  program : Program
  settings : Settings
  /-- The names known to the code that will run. -/
  atoms : AtomTable
  factory : Factory β

inductive Phase where
  | created
  | initialized
  | prologueEmitted
  | bodyEmitted
  | epilogueEmitted
  | linked
  | installed
  | failed (status : Status)
deriving DecidableEq, Repr

def Phase.name : Phase → String
  | created => "Created"
  | initialized => "Initialized"
  | prologueEmitted => "PrologueEmitted"
  | bodyEmitted => "BodyEmitted"
  | epilogueEmitted => "EpilogueEmitted"
  | linked => "Linked"
  | installed => "Installed"
  | failed status => s!"Failed({status.name})"

structure Draft (β : Type) where
  buffer : CodeBuffer := {}
  stack : VirtualStack := {}
  sites : SiteTable β
  /-- The label of the shared way out, once there is one. -/
  exit : Option Label := none
  /-- The offset of the instruction being lowered. -/
  pc : Nat := 0
  phase : Phase := .created
deriving DecidableEq, Repr

def Draft.start {β : Type} (settings : Settings) : Draft β := { sites := .empty settings.maxSites settings.maxStubs }

abbrev Emit (β : Type) := EStateM (Fault CompileError) (Draft β)

namespace Emit

variable {β : Type}

def fail {α : Type} (e : CompileError) : Emit β α := throw (.error e)

/-- Goes on with the result unless an assumption is broken. -/
def guarded {α : Type} (r : Except Breach α) : Emit β α :=
  match r with
  | .ok a => pure a
  | .error b => throw (.breach b)

def assume (condition : Bool) (b : Breach) : Emit β Unit := if condition then pure () else throw (.breach b)

/-! ## Code -/

def inst (i : Inst Label) : Emit β Unit := do
  let buffer ← guarded ((← get).buffer.emit i)
  modify fun d => { d with buffer }

def moves (ms : List Move) : Emit β Unit := do
  let buffer ← guarded ((← get).buffer.emitMoves ms)
  modify fun d => { d with buffer }

def move (m : Move) : Emit β Unit := inst (.move m)

def newLabel : Emit β Label := do
  let (label, buffer) := (← get).buffer.newLabel
  modify fun d => { d with buffer }
  pure label

def bind (label : Label) : Emit β Unit := do
  let buffer ← guarded ((← get).buffer.bind label)
  modify fun d => { d with buffer }

/-- The label of the instruction at an offset; labels are numbered with 32 bits. -/
def labelOf (offset : Nat) : Label := ⟨offset % 2 ^ 32⟩

/-- The label of an offset that must be one of the program. -/
def label (job : Job β) (offset : Nat) : Emit β Label := do
  assume (offset < job.program.length) (.noLabel offset)
  pure (labelOf offset)

def exitLabel : Emit β Label := do
  match (← get).exit with
  | some label => pure label
  | none => throw (.breach .noReturnLabel)

/-! ## The virtual stack -/

def depth : Emit β Nat := do pure (← get).stack.depth

/-- Emits the moves of an operation and takes over the picture that holds after them. -/
def adopt (r : List Move × VirtualStack) : Emit β Unit := do
  moves r.1
  modify fun d => { d with stack := r.2 }

def flushBelow (keep : Nat) : Emit β Unit := do adopt ((← get).stack.flushBelow keep)

def flushAliases (place : Place) : Emit β Unit := do adopt ((← get).stack.flushAliases place)

def push (e : Entry) : Emit β Unit := do adopt ((← get).stack.push e)

def pushReg (reg : Reg) : Emit β Unit := push ⟨.register reg, none⟩

def pushBoolean (reg : Reg) : Emit β Unit := push ⟨.register reg, some .boolean⟩

def pushSlot (job : Job β) (index : Nat) : Emit β Unit := do
  adopt (← guarded ((← get).stack.pushSlot job.program.slots index))

def pushArg (job : Job β) (index : Nat) : Emit β Unit := do
  adopt (← guarded ((← get).stack.pushArg job.program.args index))

def pushScratch : Emit β Unit := do adopt (← get).stack.pushScratch

def peek (n : Nat) : Emit β Entry := do guarded ((← get).stack.peek n)

def popInto (reg : Reg) : Emit β Unit := do adopt (← guarded ((← get).stack.popInto reg))

def drop (n : Nat) : Emit β Unit := do adopt (← guarded ((← get).stack.drop n))

/-- Takes the top one or two values into `r0`, or `r0` and `r1`, and writes out the rest. -/
def popRegisters (uses : Nat) : Emit β Unit := do adopt (← guarded ((← get).stack.popRegisters uses))

/-- Copies the top value to a place in memory; it stays on the stack. -/
def storeTop (dst : Address) : Emit β Unit := do
  let (via, r) := (← get).stack.freeRegister
  adopt r
  let top ← peek 1
  moves (top.place.store dst via)

def stageTop : Emit β Unit := do
  storeTop .scratch
  drop 1

/-! ## Sites and names -/

def site (job : Job β) (kind : SiteKind) : Emit β Unit := do
  let d ← get
  let (index, sites) := d.sites.allocate job.factory kind d.pc
  set { d with sites }
  match index with
  | .error e => fail e
  | .ok index =>
    let buffer ← guarded ((← get).buffer.callSite index)
    modify fun d => { d with buffer }
    let sites ← guarded ((← get).sites.setReturn index buffer.offset)
    modify fun d => { d with sites }

def atom (job : Job β) (index : UInt32) : Emit β Atom :=
  match job.program.atomText? index.toNat with
  | none => fail (.unknownAtom s!"#{index}")
  | some text =>
    match job.atoms.lookup text with
    | some atom => pure atom
    | none => fail (.unknownAtom text)

end Emit

abbrev Lowering (β : Type) := Job β → Instruction → Emit β Unit

namespace Lowering

variable {β : Type}

def u16 (i : Instruction) : Emit β UInt16 := Emit.guarded (i.u16?.elim (.error (.wrongOperand i)) .ok)

def u32 (i : Instruction) : Emit β UInt32 := Emit.guarded (i.u32?.elim (.error (.wrongOperand i)) .ok)

def target (job : Job β) (i : Instruction) : Emit β Label := do
  Emit.label job (← Emit.guarded (i.target?.elim (.error (.wrongOperand i)) .ok))

end Lowering
end BaselineTier
