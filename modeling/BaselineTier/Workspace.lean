/-
  BaselineTier.Workspace — everything that runs scripts, put together.

  A workspace has one atom table, one realm, one machine and one tier, all under the same
  settings.
-/

import BaselineTier.Machine.Step
import BaselineTier.Realm
import BaselineTier.Tier

namespace BaselineTier

abbrev RealmStub := StubBody Realm

structure Workspace where
  settings : Settings
  world : World Realm := { atoms := {}, host := {} }
  tier : Tier RealmStub
  machine : Machine

namespace Workspace

def ofSettings (s : Settings) : Workspace := { settings := s, tier := .ofSettings s, machine := .ofSettings s }

def job (w : Workspace) (p : Program) (s : Settings) (factory : Factory RealmStub) : Job RealmStub :=
  { program := p, settings := s, atoms := w.world.atoms, factory }

/-- Compiles a script into the shared pool and lets go of the handle. -/
def compile (w : Workspace) (index : Nat) (p : Program) (factory : Factory RealmStub) :
    Except (Fault CompileError) (Method RealmStub) × Workspace :=
  match w.tier.tryCompile index (w.job p w.settings factory) with
  | (.error f, tier) => (.error f, { w with tier })
  | (.ok (method, lease), tier) => (.ok method, { w with tier := tier.dropHandle lease })

/-- Compiles a script with a linker of its own, whose state includes the atom table. -/
def compileWith {π : Type} (w : Workspace) (index : Nat) (p : Program) (s : Settings) (factory : Factory RealmStub)
    (linker : Linker (π × AtomTable)) (state : π) : Except (Fault CompileError) (Method RealmStub) × Workspace :=
  match Compilation.compile (w.job p s factory) linker (state, w.world.atoms) with
  | (.error f, (_, atoms)) => (.error f, { w with world := { w.world with atoms } })
  | (.ok method, (_, atoms)) =>
    (.ok method, { w with world := { w.world with atoms }, tier := w.tier.install index method })

def run (w : Workspace) (fuel : Nat) (s : Script RealmStub) (args : List Value) :
    Option (Except RunError Value × Workspace) :=
  (w.machine.execute Realm.host w.tier.script? fuel s args w.world).map fun (result, machine, world) =>
    (result, { w with machine, world })

def inspectTier (s : Settings) : String := "BaselineJit \x7b config: " ++ s.inspect ++ ", .. \x7d"

end Workspace
end BaselineTier
