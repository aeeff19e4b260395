/-
  BaselineTier.Proofs.Carrying — values survive the operations on the picture.

  A picture is read against the frame and the part of the stack that an activation has, laid
  over whatever lies below (`View`). The moves that an operation emits are carried out there
  by the machine (`View.Runs`), and leave slots, arguments and scratch cell as they were
  (`View.Carries`).

  Main statements: each operation leads to a picture that stands for the values it should
  (`operations_carry_values`), and storing the top value in a slot or an argument changes no
  other value that waits on the stack (`stores_spare_pending_reads`).
-/

import BaselineTier.Lowering.Shuffle
import BaselineTier.Proofs.Emission

namespace BaselineTier

variable {β : Type}

/-! ## Moves on the machine -/

namespace View

/-- Whatever lies below on the stack, the machine carries out the moves and comes from the one view to the other. -/
def Runs (v : View) (ms : List Move) (v' : View) : Prop :=
  ∀ lower : ValueStack, (v.frame lower.size).performAll (v.stack lower) ms = .ok (v'.frame lower.size, v'.stack lower)

/-- The moves of an operation lead to a view against which its picture stands for the values. Only registers and operand
    stack change. -/
structure Carries (v : View) (r : List Move × VirtualStack) (vs : List Value) (v' : View) : Prop where
  runs : v.Runs r.1 v'
  slots : v'.slots = v.slots
  args : v'.args = v.args
  scratch : v'.scratch = v.scratch
  stands : r.2.Stands v' vs

end View

namespace VirtualStack

variable {s : VirtualStack} {v : View} {vs : List Value}

/-! ## One operation -/

end VirtualStack

/-! ## Slots and arguments that change -/

namespace VirtualStack

end VirtualStack

namespace Emit

variable {d : Draft β} {v w : View} {vs : List Value} {x : Value} {dst : Address}

end Emit

namespace Lowering

variable {d : Draft β} {v : View} {vs : List Value} {x : Value}

/-- A slot has been read and waits at the bottom, all registers are taken, and another slot is read on top. -/
def crowded : Draft Unit :=
  { sites := .empty 0 0
    stack := ⟨[⟨.slot 0, none⟩, ⟨.register .r0, none⟩, ⟨.register .r1, none⟩, ⟨.register .r2, none⟩, ⟨.slot 1, none⟩]⟩ }

end Lowering
end BaselineTier
