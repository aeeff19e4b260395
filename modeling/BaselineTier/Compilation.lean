/-
  BaselineTier.Compilation — compiling one program.

  A compilation goes through its phases in order: it is checked and given labels, then the
  prologue, the body and the epilogue are emitted, and the code is linked. A phase that
  fails leaves the compilation failed. The body is one pass over the reachable
  instructions; where control can come from elsewhere, the whole operand stack is written
  out and the depth that the stack map declares is taken over.
-/

import BaselineTier.Lowering.Table
import BaselineTier.Method

namespace BaselineTier

/-- Places code: the linked code or why not, and what became of the linker's own state. -/
abbrev Linker (π : Type) := CodeBuffer → π → Except (Fault CompileError) LinkedCode × π

namespace Linker

def pool : Linker CodePool := fun buffer p =>
  match buffer.link p with
  | .ok (code, p) => (.ok code, p)
  | .error e => (.error (.error (.link e)), p)

end Linker

namespace Compilation

variable {β : Type}

/-! ## Phases -/

/-- Moves on from the phase that must be the present one. -/
def advance (before after : Phase) : Emit β Unit := do
  Emit.assume ((← get).phase = before) .outOfOrder
  modify fun d => { d with phase := after }

/-- An error leaves the compilation failed. -/
def failing {α : Type} (x : Emit β α) : Emit β α := fun d =>
  match x d with
  | .error (.error e) d => .error (.error e) { d with phase := .failed e.status }
  | r => r

/-! ## Beginning -/

/-- One label for every byte of the program, then the one of the shared way out. -/
def makeLabels (job : Job β) : Emit β Unit := do
  let length := job.program.length
  match (← get).buffer.reserve (length + 1) with
  | .error e => Emit.fail e
  | .ok _ =>
    modify fun d => { d with buffer := d.buffer.newLabels length }
    let label ← Emit.newLabel
    modify fun d => { d with exit := some label }

def check (job : Job β) : Emit β Unit := do
  let p := job.program
  if p.needsArguments then Emit.fail (.cantCompile .argumentsObject)
  if job.settings.maxScriptLength < p.length then
    Emit.fail (.cantCompile (.tooLarge p.length job.settings.maxScriptLength))

def start (job : Job β) : Emit β Unit := do
  failing do
    check job
    makeLabels job
  advance .created .initialized

def prologue (job : Job β) : Emit β Unit := do
  Emit.inst (.enterFrame job.program.slots)
  Emit.moves ((List.range job.program.slots).map fun index => .setCell .undefined (.slot index))
  Emit.inst .stackCheck
  advance .initialized .prologueEmitted

/-! ## The body -/

/-- Arrives where control meets. A way in from above must have the declared depth; after a jump, which leaves everything
    written out, the declared depth is taken over. -/
def merge (job : Job β) (offset depth : Nat) (fellThrough : Bool) : Emit β Unit := do
  Emit.flushBelow 0
  if fellThrough then
    Emit.assume ((← Emit.depth) = depth) (.mergeDepth offset)
    Emit.assume ((← get).buffer.height = depth) (.mergeHeight offset)
  modify fun d => { d with stack := d.stack.resize depth, buffer := { d.buffer with height := depth } }
  Emit.bind (← Emit.label job offset)

def meet (job : Job β) (offset : Nat) (info : StackMap.Info) (fellThrough : Bool) : Emit β Unit := do
  if info.jumpTarget then
    merge job offset info.depth fellThrough
  else if fellThrough then
    Emit.assume ((← Emit.depth) = info.depth) (.entryDepth offset)

/-- Writes out all entries but the top two, or all of them for a debugger. -/
def settle (job : Job β) : Emit β Unit := do
  if job.settings.debugMode then
    Emit.flushBelow 0
  else if 2 < (← Emit.depth) then
    Emit.flushBelow 2

def arrive (job : Job β) (offset : Nat) (info : StackMap.Info) (fellThrough : Bool) : Emit β Unit := do
  meet job offset info fellThrough
  settle job
  Emit.guarded (← get).stack.check
  modify fun d => { d with pc := offset }

/-- Lowers the instructions at the reachable ones of the offsets in turn. -/
def lowerAll (job : Job β) : List Nat → Bool → Emit β Unit
  | [], _ => pure ()
  | offset :: rest, fellThrough =>
    match job.program.stackMap.info? offset with
    | none => lowerAll job rest false
    | some info =>
      match Instruction.decodeAt job.program.code offset with
      | .error e => Emit.fail (.bytecode e)
      | .ok i => do
        arrive job offset info fellThrough
        Lowering.lower job i
        lowerAll job rest i.opcode.fallsThrough

def body (job : Job β) : Emit β Unit := do
  failing (lowerAll job job.program.offsets false)
  advance .prologueEmitted .bodyEmitted

/-! ## Ending -/

def epilogue : Emit β Unit := do
  Emit.bind (← Emit.exitLabel)
  Emit.inst .leaveFrame
  Emit.inst .ret
  advance .bodyEmitted .epilogueEmitted

def emission (job : Job β) : Emit β Unit := do
  start job
  prologue job
  body job
  epilogue

def link (answer : Except (Fault CompileError) LinkedCode) : Emit β LinkedCode := do
  modify fun d => { d with buffer := .empty }
  let code ← failing (match answer with
    | .ok code => pure code
    | .error f => throw f)
  advance .epilogueEmitted .linked
  pure code

/-- Makes the method of linked code, whose calls must go through the sites that were made. -/
def finish (code : LinkedCode) : Emit β (Method β) := do
  advance .linked .installed
  let sites := (← get).sites
  Emit.assume (code.patches.all (·.site < sites.size)) .noSite
  pure (.make code sites)

def compile {π : Type} (job : Job β) (linker : Linker π) (p : π) : Except (Fault CompileError) (Method β) × π :=
  match emission job (.start job.settings) with
  | .error f _ => (.error f, p)
  | .ok _ d =>
    let (answer, p) := linker d.buffer p
    match (link answer >>= finish) d with
    | .error f _ => (.error f, p)
    | .ok method _ => (.ok method, p)

end Compilation
end BaselineTier
