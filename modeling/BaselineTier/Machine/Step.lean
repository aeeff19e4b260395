/-
  BaselineTier.Machine.Step — running compiled code, one instruction at a time.

  A configuration is the machine, the world, the running activation and the ones that wait
  for it, innermost first. A step carries out one instruction. Calling a script opens an
  activation; returning closes one and hands the result to the activation below. An error
  ends the run: every activation is closed and the stack is cut back to where the run
  began.

  That a run which returns has left the stack as high as it was is not checked; code that
  the compiler made leaves it so. Activations are counted without bound.
-/

import BaselineTier.Machine.Stub
import BaselineTier.Script

namespace BaselineTier

structure Activation (σ : Type) where
  method : Method (StubBody σ)
  /-- The offset of the next instruction. -/
  pc : Nat
  /-- How many arguments the next call passes. -/
  argc : Nat := 0
  frame : Frame

structure Config (σ : Type) where
  machine : Machine
  world : World σ
  current : Activation σ
  callers : List (Activation σ) := []
  /-- The height of the stack where the run began. -/
  base : Nat

inductive Progress (σ : Type) where
  | running (c : Config σ)
  | ended (result : Except RunError Value) (machine : Machine) (world : World σ)

abbrev Scripts (σ : Type) := Nat → Option (Script (StubBody σ))

namespace Activation

variable {σ : Type}

/-- The activation of a script that is called with arguments; missing ones are undefined. -/
def enter (s : Script (StubBody σ)) (args : List Value) (height : Nat) : Except RunError (Activation σ) :=
  match s.baseline with
  | none => .error (.notCompiled s.program.name)
  | some method =>
    let padding := List.replicate (s.program.args - args.length) Value.undefined
    .ok { method, pc := method.code.entry, frame := { args := (args ++ padding).toArray, fp := height } }

end Activation

namespace Config

variable {σ : Type}

/-- Closes every activation. -/
def fail (c : Config σ) (e : RunError) : Progress σ :=
  .ended (.error e)
    { c.machine with stack := c.machine.stack.take c.base, depth := c.machine.depth - (c.callers.length + 1) } c.world

def ret (c : Config σ) (v : Value) : Progress σ :=
  let machine := { c.machine with depth := c.machine.depth - 1 }
  match c.callers with
  | [] => .ended (.ok v) machine c.world
  | caller :: callers =>
    .running { c with machine, callers, current := { caller with frame := caller.frame.setReg .r0 v } }

def invoke (c : Config σ) (scripts : Scripts σ) (script : Nat) (args : List Value) : Progress σ :=
  match scripts script with
  | none => c.fail .notCallable
  | some s =>
    match Activation.enter s args c.machine.stack.size with
    | .error e => c.fail e
    | .ok a =>
      .running { c with
        machine := { c.machine with depth := c.machine.depth + 1 }, current := a, callers := c.current :: c.callers }

def tryStubs (host : Host σ) (call : SiteCall) (site : Nat) :
    List (Nat × Stub (StubBody σ)) → StubM σ Verdict
  | [] => throw (.chainExhausted site)
  | (_, stub) :: rest => do
    match ← stub.body.run host call with
    | .next => tryStubs host call site rest
    | verdict => pure verdict

def callSite (host : Host σ) (scripts : Scripts σ) (c : Config σ) (patch : Nat) : Progress σ :=
  let method := c.current.method
  match (method.code.slot? patch).bind fun index => (method.site? index).map fun site => (index, site) with
  | none => c.fail (.unpatchedSite patch)
  | some (index, site) =>
    let frame := c.current.frame
    let before : SiteState σ := ⟨frame.registers, frame.scratch, c.machine, c.world⟩
    let after (s : SiteState σ) : Config σ :=
      { c with
        machine := s.machine
        world := s.world
        current := { c.current with frame := { frame with registers := s.registers, scratch := s.scratch } } }
    match tryStubs host ⟨site, c.current.argc⟩ index (method.store.chain site.head) before with
    | .error e s => (after s).fail e
    | .ok (.invoke script args) s => (after s).invoke scripts script args
    | .ok _ s => .running (after s)

/-- Carries out an instruction; the program counter is already past it. -/
def exec (host : Host σ) (scripts : Scripts σ) (i : Inst Nat) : Config σ → Progress σ
  | ⟨⟨stack, depth, maxDepth⟩, world, ⟨method, pc, argc, frame⟩, callers, base⟩ =>
    let next (stack : ValueStack) (pc argc : Nat) (frame : Frame) : Config σ :=
      ⟨⟨stack, depth, maxDepth⟩, world, ⟨method, pc, argc, frame⟩, callers, base⟩
    match i with
    | .move m =>
      match frame.perform stack m with
      | .ok (frame, stack) => .running (next stack pc argc frame)
      | .error e => (next stack pc argc frame).fail e
    | .enterFrame slots =>
      .running (next (stack ++ Array.replicate slots Value.undefined) pc argc { frame with fp := stack.size, slots })
    | .leaveFrame => .running (next (stack.take frame.fp) pc argc frame)
    | .ret => (next stack pc argc frame).ret frame.registers.r0
    | .stackCheck =>
      if maxDepth < depth then (next stack pc argc frame).fail (.stackOverflow depth)
      else .running (next stack pc argc frame)
    | .setArgc count => .running (next stack pc count frame)
    | .negate reg =>
      match frame.boolean reg with
      | .ok b => .running (next stack pc argc (frame.setReg reg (.bool !b)))
      | .error e => (next stack pc argc frame).fail e
    | .jump target => .running (next stack target argc frame)
    | .branch reg condition target =>
      match frame.boolean reg with
      | .ok b => .running (next stack (if b = condition then target else pc) argc frame)
      | .error e => (next stack pc argc frame).fail e
    | .branchNumber reg target =>
      .running (next stack (if (frame.registers.get reg).isNumber then target else pc) argc frame)
    | .callSite patch => callSite host scripts (next stack pc argc frame) patch

def step (host : Host σ) (scripts : Scripts σ) (c : Config σ) : Progress σ :=
  match c.current.method.code.insts[c.current.pc]? with
  | none => c.fail (.pcOutOfRange c.current.pc)
  | some i => exec host scripts i { c with current := { c.current with pc := c.current.pc + 1 } }

/-- Runs for at most `fuel` steps; `none` if that is not enough. -/
def run (host : Host σ) (scripts : Scripts σ) : Nat → Config σ → Option (Except RunError Value × Machine × World σ)
  | 0, _ => none
  | fuel + 1, c =>
    match c.step host scripts with
    | .running c => run host scripts fuel c
    | .ended result machine world => some (result, machine, world)

end Config

namespace Machine

variable {σ : Type}

def start (m : Machine) (s : Script (StubBody σ)) (args : List Value) (world : World σ) : Except RunError (Config σ) :=
  (Activation.enter s args m.stack.size).map fun a =>
    { machine := { m with depth := m.depth + 1 }, world, current := a, base := m.stack.size }

def execute (m : Machine) (host : Host σ) (scripts : Scripts σ) (fuel : Nat) (s : Script (StubBody σ))
    (args : List Value) (world : World σ) : Option (Except RunError Value × Machine × World σ) :=
  match m.start s args world with
  | .error e => some (.error e, m, world)
  | .ok c => c.run host scripts fuel

end Machine
end BaselineTier
