/-
  BaselineTier.Host — what running code needs from its surroundings.

  Code that runs never touches scopes or objects itself; it asks a host. A host is a set
  of operations on a world: the atom table and the host's own state, of any type `σ`. An
  operation may fail, and what it did to the world before stands.
-/

import BaselineTier.Atom
import BaselineTier.RunError

namespace BaselineTier

/-- What outlives a run: the names in use and the host's state. -/
structure World (σ : Type) where
  atoms : AtomTable
  host : σ

inductive CallAnswer where
  | value (v : Value)
  /-- The script of that number is to be run with the same arguments. -/
  | invoke (script : Nat)
deriving DecidableEq, Repr

abbrev Ask (σ : Type) := EStateM RunError (World σ)

structure Host (σ : Type) where
  getName : Atom → Ask σ Value
  setName : Atom → Value → Ask σ Unit
  getGlobal : Atom → Ask σ Value
  setGlobal : Atom → Value → Ask σ Unit
  getProperty (object key : Value) : Ask σ Value
  setProperty (object key value : Value) : Ask σ Unit
  call (callee this : Value) (args : List Value) : Ask σ CallAnswer

end BaselineTier
