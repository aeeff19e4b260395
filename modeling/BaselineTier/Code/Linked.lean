/-
  BaselineTier.Code.Linked — code that can run, and the pool that it is charged to.

  Linking turns labels into offsets; a label that a branch uses must be bound. The pool
  has room for a fixed number of instructions. Code takes its size from the pool when it
  is linked and gives it back when it is let go.

  Every place that calls through a site has a patch slot. The slots are empty until the
  code becomes a method.
-/

import BaselineTier.Code.Buffer

namespace BaselineTier

inductive LinkError where
  | unboundLabel (index : Nat)
  | poolExhausted (requested available : Nat)
  | backend (text : String)
deriving DecidableEq, Repr

def LinkError.message : LinkError → String
  | unboundLabel index => s!"Label L{index} used but never bound"
  | poolExhausted requested available => s!"Code pool exhausted: requested {requested}, available {available}"
  | backend text => "Backend error: " ++ text

/-- Room for code, measured in instructions. -/
structure CodePool where
  capacity : Nat
  used : Nat := 0
deriving DecidableEq, Repr, Inhabited

namespace CodePool

def available (p : CodePool) : Nat := p.capacity - p.used

def reserve (p : CodePool) (size : Nat) : Except LinkError CodePool :=
  if size ≤ p.available then .ok { p with used := p.used + size } else .error (.poolExhausted size p.available)

def release (p : CodePool) (size : Nat) : CodePool := { p with used := p.used - size }

end CodePool

/-- What an empty patch slot holds. -/
def unpatched : Nat := 0xFFFFFFFF

structure LinkedCode where
  insts : Array (Inst Nat)
  /-- Where execution starts. -/
  entry : Nat
  patches : Array PatchSite
  /-- The site that each patch slot names, once it does. -/
  slots : Array Nat
deriving DecidableEq, Repr, Inhabited

namespace LinkedCode

/-- Code with empty patch slots. -/
def ofInsts (insts : Array (Inst Nat)) (entry : Nat) (patches : Array PatchSite) : LinkedCode :=
  { insts, entry, patches, slots := patches.map fun _ => unpatched }

def size (c : LinkedCode) : Nat := c.insts.size

def slot? (c : LinkedCode) (patch : Nat) : Option Nat := c.slots[patch]?.filter (· != unpatched)

def patched (c : LinkedCode) : LinkedCode := { c with slots := c.patches.map PatchSite.site }

def listing (c : LinkedCode) : String :=
  String.join (c.insts.toList.mapIdx fun offset i => CodeBuffer.column offset ++ "  " ++ i.text toString ++ "\n")

def inspect (c : LinkedCode) : String :=
  "ExecutableCode \x7b code_size: " ++ toString c.size ++ ", entry: " ++ toString c.entry ++ ", patches: " ++
    toString c.patches.size ++ " \x7d"

end LinkedCode

namespace CodeBuffer

def find (b : CodeBuffer) (label : Label) : Except LinkError Nat :=
  match b.labelOffset? label with
  | some offset => .ok offset
  | none => .error (.unboundLabel label.index)

def resolved (b : CodeBuffer) : Except LinkError (Array (Inst Nat)) := b.insts.mapM fun i => i.resolve b.find

def link (b : CodeBuffer) (pool : CodePool) : Except LinkError (LinkedCode × CodePool) := do
  let insts ← b.resolved
  let pool ← pool.reserve insts.size
  pure (.ofInsts insts 0 b.patches, pool)

end CodeBuffer
end BaselineTier
