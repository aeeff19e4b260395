/-
  BaselineTier.Script — a program and its compiled code.
-/

import BaselineTier.Method
import BaselineTier.Program.Basic

namespace BaselineTier

structure Script (β : Type) where
  program : Program
  baseline : Option (Method β) := none
deriving DecidableEq, Repr

def Script.inspect {β : Type} (s : Script β) : String :=
  "Script \x7b name: " ++ Text.quoted s.program.name ++ ", baseline: " ++ toString s.baseline.isSome ++ " \x7d"

end BaselineTier
