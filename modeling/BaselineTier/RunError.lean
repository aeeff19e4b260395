/-
  BaselineTier.RunError — why a run ended without a value.
-/

import BaselineTier.Code.Inst
import BaselineTier.Opcode

namespace BaselineTier

inductive TypeFault where
  | notBoolean (value : Value)
  | noProperties (value : Value)
  | cannotSet (value : Value)
  | notArithmetic (op : Opcode)
  /-- A host's own complaint. -/
  | other (text : String)
deriving DecidableEq, Repr

def TypeFault.message : TypeFault → String
  | notBoolean value => "expected boolean, got " ++ value.text
  | noProperties value => "cannot read property of " ++ value.text
  | cannotSet value => "cannot set property of " ++ value.text
  | notArithmetic op => op.name ++ " is not an arithmetic operator"
  | other text => text

inductive RunError where
  | notCompiled (script : String)
  | stackOverflow (depth : Nat)
  | type (fault : TypeFault)
  | reference (name : String)
  | notCallable
  | unpatchedSite (patch : Nat)
  | chainExhausted (site : Nat)
  | stackUnderflow
  | badAddress (address : Address)
  | pcOutOfRange (pc : Nat)
  | host (text : String)
deriving DecidableEq, Repr

def RunError.message : RunError → String
  | notCompiled script => "Script '" ++ script ++ "' has no baseline code"
  | stackOverflow depth => s!"Too much recursion (depth {depth})"
  | type fault => "TypeError: " ++ fault.message
  | reference name => s!"ReferenceError: {name} is not defined"
  | notCallable => "Value is not callable"
  | unpatchedSite patch => s!"IC patch slot {patch} is unresolved"
  | chainExhausted site => s!"Stub chain of IC entry {site} ended without handling the operation"
  | stackUnderflow => "Machine stack underflow"
  | badAddress address => "Bad address " ++ address.text
  | pcOutOfRange pc => s!"Code offset {pc} out of range"
  | host text => "Host error: " ++ text

end BaselineTier
