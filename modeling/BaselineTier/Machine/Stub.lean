/-
  BaselineTier.Machine.Stub — what stubs do.

  A stub sees its site and the argument count, and works on the registers, the scratch cell,
  the machine and the world. It says whether the operation is done, is to be passed on to
  the next stub, or is to be done by running a script. A fallback whose operation depends
  on the kind of the site passes on what is of another kind.
-/

import BaselineTier.Cache.Fallback
import BaselineTier.Cache.Table
import BaselineTier.Host
import BaselineTier.Machine.Frame
import BaselineTier.Semantics.Operators

namespace BaselineTier

/-- What a stub may look at. -/
structure SiteCall where
  site : Site
  argc : Nat

/-- What a stub may change. -/
structure SiteState (σ : Type) where
  registers : Registers
  scratch : Value
  machine : Machine
  world : World σ

inductive Verdict where
  | done
  /-- The next stub is to try. -/
  | next
  /-- The script of that number is to be run; its result is the operation's. -/
  | invoke (script : Nat) (args : List Value)
deriving DecidableEq, Repr

abbrev StubM (σ : Type) := EStateM RunError (SiteState σ)

abbrev Routine (σ : Type) := SiteCall → StubM σ Verdict

namespace StubM

variable {σ : Type}

def reg (r : Reg) : StubM σ Value := do pure ((← get).registers.get r)

def answer (v : Value) : StubM σ Verdict := do
  modify fun s => { s with registers := s.registers.set .r0 v }
  pure .done

def atoms : StubM σ AtomTable := do pure (← get).world.atoms

def ask {α : Type} (x : Ask σ α) : StubM σ α := fun s =>
  match x s.world with
  | .ok a world => .ok a { s with world }
  | .error e world => .error e { s with world }

end StubM

namespace Fallback

variable {σ : Type}

/-- Callee, receiver and arguments are the top values of the stack; they stay there. -/
def callTop (host : Host σ) : Routine σ := fun c => do
  let stack := (← get).machine.stack
  if stack.size < c.argc + 2 then throw .stackUnderflow
  match (stack.extract (stack.size - (c.argc + 2)) stack.size).toList with
  | callee :: this :: args =>
    match ← StubM.ask (host.call callee this args) with
    | .value v => StubM.answer v
    | .invoke script => pure (.invoke script args)
  | _ => throw .stackUnderflow

def run (host : Host σ) : Fallback → Routine σ
  | .toBool, _ => do StubM.answer (.bool ((← StubM.reg .r0).truthy (← StubM.atoms)))
  | .toNumber, _ => do StubM.answer (.number ((← StubM.reg .r0).toNumber (← StubM.atoms)))
  | .arith, c => do
    let .arith op := c.site.kind | pure .next
    let (result, atoms) := Value.arith (← StubM.atoms) op (← StubM.reg .r0) (← StubM.reg .r1)
    modify fun s => { s with world := { s.world with atoms } }
    match result with
    | .ok v => StubM.answer v
    | .error e => throw e
  | .unary, c => do
    let .unary op := c.site.kind | pure .next
    StubM.answer (Value.unary (← StubM.atoms) op (← StubM.reg .r0))
  | .compare, c => do
    let .compare op := c.site.kind | pure .next
    StubM.answer (.bool (Value.compare (← StubM.atoms) op (← StubM.reg .r0) (← StubM.reg .r1)))
  | .getName, c => do
    let .getName name := c.site.kind | pure .next
    StubM.answer (← StubM.ask (host.getName name))
  | .setName, c => do
    let .setName name := c.site.kind | pure .next
    StubM.ask (host.setName name (← get).scratch)
    pure .done
  | .getGlobal, c => do
    let .getGlobal name := c.site.kind | pure .next
    StubM.answer (← StubM.ask (host.getGlobal name))
  | .setGlobal, c => do
    let .setGlobal name := c.site.kind | pure .next
    StubM.ask (host.setGlobal name (← get).scratch)
    pure .done
  | .getProp, c => do
    let .getProp key := c.site.kind | pure .next
    StubM.answer (← StubM.ask (host.getProperty (← StubM.reg .r0) (.string key)))
  | .setProp, c => do
    let .setProp key := c.site.kind | pure .next
    StubM.ask (host.setProperty (← StubM.reg .r0) (.string key) (← get).scratch)
    pure .done
  | .getElem, _ => do
    StubM.answer (← StubM.ask (host.getProperty (← StubM.reg .r0) (← StubM.reg .r1)))
  | .setElem, _ => do
    StubM.ask (host.setProperty (← StubM.reg .r0) (← StubM.reg .r1) (← get).scratch)
    pure .done
  | .call, c => callTop host c

end Fallback

namespace Routine

variable {σ : Type}

def skip : Routine σ := fun _ => pure .next

def fail (text : String) : Routine σ := fun _ => throw (.host text)

end Routine

inductive StubBody (σ : Type) where
  | fallback (f : Fallback)
  | custom (routine : Routine σ)

namespace StubBody

variable {σ : Type}

def run (host : Host σ) : StubBody σ → Routine σ
  | .fallback f => f.run host
  | .custom routine => routine

def fallbacks : Factory (StubBody σ) := fun _ kind => (Fallback.ofKind? kind).map .fallback

end StubBody

end BaselineTier
