/-
  BaselineTier.Tier — scripts, their code, and the pool that the code is charged to.

  A tier compiles its scripts one at a time. The code of a compilation takes room in the
  pool and is installed on its script; whoever asked for it also gets a handle to it. Room
  is given back when neither a script nor a handle holds the code any more. A compilation
  that fails changes nothing: the script keeps the code that it had.
-/

import BaselineTier.Compilation
import BaselineTier.Script

namespace BaselineTier

/-- The room in the pool that a piece of code takes, told apart by number. -/
structure Lease where
  id : Nat
  size : Nat
deriving DecidableEq, Repr, Inhabited

/-- A script, and the lease of the code that is installed on it. Code that was not charged to the pool has none. -/
structure Tenant (β : Type) where
  script : Script β
  lease : Option Lease := none
deriving DecidableEq, Repr

structure Tier (β : Type) where
  pool : CodePool
  tenants : Array (Tenant β) := #[]
  /-- The handles that are still held, one lease for each. -/
  handles : List Lease := []
  /-- Room that was taken without code. -/
  bare : List Nat := []
  nextLease : Nat := 0
deriving DecidableEq, Repr

namespace Tier

variable {β : Type}

def ofSettings (s : Settings) : Tier β := { pool := { capacity := s.codePool } }

def script? (t : Tier β) (index : Nat) : Option (Script β) := t.tenants[index]?.map Tenant.script

def method? (t : Tier β) (index : Nat) : Option (Method β) := (t.script? index).bind Script.baseline

def addScript (t : Tier β) (p : Program) : Nat × Tier β :=
  (t.tenants.size, { t with tenants := t.tenants.push { script := { program := p } } })

/-! ## Leases -/

def holds (t : Tier β) (l : Lease) : Bool := t.handles.contains l || t.tenants.any (·.lease == some l)

/-- Gives the room back if nobody holds the code any more. -/
def settle (t : Tier β) (lease : Option Lease) : Tier β :=
  match lease with
  | none => t
  | some l => if t.holds l then t else { t with pool := t.pool.release l.size }

/-- Puts code on a script, or takes it off; the code that was there is let go. -/
def replace (t : Tier β) (index : Nat) (method : Option (Method β)) (lease : Option Lease) : Tier β :=
  match t.tenants[index]? with
  | none => t
  | some old =>
    let new : Tenant β := { script := { old.script with baseline := method }, lease }
    { t with tenants := t.tenants.setIfInBounds index new }.settle old.lease

def dropHandle (t : Tier β) (l : Lease) : Tier β :=
  if t.handles.contains l then { t with handles := t.handles.erase l }.settle (some l) else t

/-! ## Compiling -/

/-- Compiles a script and installs its code. The handle is the lease of the code. -/
def tryCompile (t : Tier β) (index : Nat) (job : Job β) : Except (Fault CompileError) (Method β × Lease) × Tier β :=
  match Compilation.compile job Linker.pool t.pool with
  | (.error f, pool) => (.error f, { t with pool })
  | (.ok method, pool) =>
    let lease : Lease := ⟨t.nextLease, method.code.size⟩
    (.ok (method, lease),
     { t with pool, nextLease := t.nextLease + 1, handles := lease :: t.handles }.replace index (some method)
       (some lease))

/-- Installs code that is not charged to the pool. -/
def install (t : Tier β) (index : Nat) (method : Method β) : Tier β := t.replace index (some method) none

def detach (t : Tier β) (index : Nat) : Option Lease × Tier β :=
  match t.tenants[index]?.bind Tenant.lease with
  | none => (none, t.replace index none none)
  | some l => (some l, { t with handles := l :: t.handles }.replace index none none)

/-- Takes the code off a script and lets it go; whether there was any. -/
def discard (t : Tier β) (index : Nat) : Bool × Tier β :=
  let (lease, after) := t.detach index
  ((t.method? index).isSome, match lease with
    | some l => after.dropHandle l
    | none => after)

def prepend (t : Tier β) (script site : Nat) (body : β) : Option (Except CompileError Nat × Tier β) :=
  (t.method? script).map fun method =>
    match method.prepend site body with
    | .error e => (.error e, t)
    | .ok (id, method) =>
      (.ok id, { t with tenants := t.tenants.modify script fun tenant =>
        { tenant with script := { tenant.script with baseline := some method } } })

/-! ## Bare room -/

def reserve (t : Tier β) (size : Nat) : Except LinkError (Tier β) := do
  let pool ← t.pool.reserve size
  pure { t with pool, bare := size :: t.bare }

def release (t : Tier β) (size : Nat) : Tier β :=
  if t.bare.contains size then { t with bare := t.bare.erase size, pool := t.pool.release size } else t

end Tier
end BaselineTier
