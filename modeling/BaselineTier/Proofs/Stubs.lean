/-
  BaselineTier.Proofs.Stubs — what stubs do to the machine.

  A stub is handed the machine and may leave it as it likes. The usual fallbacks read its
  stack and leave it alone, and if they fail with an overflow it is the host's
  (`Fallback.run_modest`). What every stub of a method leaves alone, a call through one of
  its sites leaves alone (`Config.of_callSite`). The stubs of a method that was compiled
  are those that its factory made, so a method with the usual fallbacks leaves the machine
  alone until others are put in front (`Compilation.leaves_of_compile`).
-/

import BaselineTier.Proofs.Correspondence
import BaselineTier.Proofs.Running

namespace BaselineTier

variable {σ α γ τ : Type}

/-! ## Two steps in a row -/

section

variable {ε : Type} {x : EStateM ε τ α} {k : α → EStateM ε τ γ} {s s' : τ}

theorem ok_of_bind {b : γ} (h : (x >>= k) s = .ok b s') : ∃ a s₁, x s = .ok a s₁ ∧ k a s₁ = .ok b s' := by
  have h : EStateM.bind x k s = .ok b s' := h
  rw [EStateM.bind] at h
  cases hx : x s with
  | error e s₁ => rw [hx] at h; cases h
  | ok a s₁ =>
    rw [hx] at h
    exact ⟨a, s₁, rfl, h⟩

theorem error_of_bind {e : ε} (h : (x >>= k) s = .error e s') :
    x s = .error e s' ∨ ∃ a s₁, x s = .ok a s₁ ∧ k a s₁ = .error e s' := by
  have h : EStateM.bind x k s = .error e s' := h
  rw [EStateM.bind] at h
  cases hx : x s with
  | error e₁ s₁ =>
    rw [hx] at h
    cases h
    exact .inl rfl
  | ok a s₁ =>
    rw [hx] at h
    exact .inr ⟨a, s₁, rfl, h⟩

end

/-! ## Errors -/

def RunError.isOverflow : RunError → Bool
  | .stackOverflow _ => true
  | _ => false

inductive Host.Raises (host : Host σ) (e : RunError) : Prop
  | getName {name : Atom} {w w' : World σ} : host.getName name w = .error e w' → Raises host e
  | setName {name : Atom} {v : Value} {w w' : World σ} : host.setName name v w = .error e w' → Raises host e
  | getGlobal {name : Atom} {w w' : World σ} : host.getGlobal name w = .error e w' → Raises host e
  | setGlobal {name : Atom} {v : Value} {w w' : World σ} : host.setGlobal name v w = .error e w' → Raises host e
  | getProperty {object key : Value} {w w' : World σ} : host.getProperty object key w = .error e w' → Raises host e
  | setProperty {object key v : Value} {w w' : World σ} : host.setProperty object key v w = .error e w' → Raises host e
  | call {callee this : Value} {args : List Value} {w w' : World σ} :
      host.call callee this args w = .error e w' → Raises host e

/-! ## Fallbacks -/

/-- However the step of a stub ends, it leaves the machine as it was, and an overflow is the host's. -/
structure StubM.Modest (host : Host σ) (x : StubM σ α) : Prop where
  ok : ∀ {s a s'}, x s = .ok a s' → s'.machine = s.machine
  error : ∀ {s e s'}, x s = .error e s' → s'.machine = s.machine ∧ (e.isOverflow = true → host.Raises e)

namespace StubM.Modest

variable {host : Host σ} {x : StubM σ α} {k : α → StubM σ γ}

theorem pure (a : α) : Modest host (Pure.pure a : StubM σ α) := ⟨fun h => by cases h; rfl, nofun⟩

theorem get : Modest host (MonadState.get : StubM σ (SiteState σ)) := ⟨fun h => by cases h; rfl, nofun⟩

theorem update {f : SiteState σ → SiteState σ} (hf : ∀ s, (f s).machine = s.machine) :
    Modest host (modify f : StubM σ PUnit) := ⟨fun h => by cases h; exact hf _, nofun⟩

theorem fail {e : RunError} (he : e.isOverflow = false) : Modest host (throw e : StubM σ α) := by
  refine ⟨nofun, fun h => ?_⟩
  cases h
  exact ⟨rfl, fun ho => absurd (he.symm.trans ho) Bool.false_ne_true⟩

theorem bind (h : Modest host x) (hk : ∀ a, Modest host (k a)) : Modest host (x >>= k) := by
  refine ⟨fun hb => ?_, fun hb => ?_⟩
  · obtain ⟨a, s₁, hx, hrest⟩ := ok_of_bind hb
    exact ((hk a).ok hrest).trans (h.ok hx)
  · rcases error_of_bind hb with hx | ⟨a, s₁, hx, hrest⟩
    · exact h.error hx
    · obtain ⟨hmachine, hraises⟩ := (hk a).error hrest
      exact ⟨hmachine.trans (h.ok hx), hraises⟩

theorem reg (r : Reg) : Modest host (StubM.reg r : StubM σ Value) := get.bind fun _ => pure _

theorem atoms : Modest host (StubM.atoms : StubM σ AtomTable) := get.bind fun _ => pure _

theorem answer (v : Value) : Modest host (StubM.answer v : StubM σ Verdict) := by
  refine .bind (.update ?_) fun _ => pure _
  exact fun _ => rfl

theorem ask {x : Ask σ α} (hx : ∀ {w e w'}, x w = .error e w' → host.Raises e) : Modest host (StubM.ask x) := by
  refine ⟨fun {s a s'} h => ?_, fun {s e s'} h => ?_⟩ <;> unfold StubM.ask at h <;> split at h <;> cases h
  · rfl
  · rename_i hw
    exact ⟨rfl, fun _ => hx hw⟩

end StubM.Modest

theorem Value.arith_error {t : AtomTable} {op : Opcode} {a b : Value} {e : RunError}
    (h : (arith t op a b).1 = .error e) : e = .type (.notArithmetic op) := by
  unfold arith at h
  split at h
  · cases h
  · unfold numericArith at h
    split at h
    · cases h
    · split at h <;> cases h
      rfl

namespace Fallback

open StubM.Modest

variable {host : Host σ}

theorem callTop_modest (c : SiteCall) : StubM.Modest host (callTop host c) := by
  refine get.bind fun s => ?_
  simp only
  split
  · exact .fail rfl
  · split
    · refine .bind (.ask .call) fun answer => ?_
      cases answer with
      | value v => exact .answer v
      | invoke script => exact .pure _
    · exact .fail rfl

theorem run_modest (fb : Fallback) (c : SiteCall) : StubM.Modest host (fb.run host c) := by
  -- A fallback that needs something of the kind of its site passes on if the kind is another.
  cases fb with
  | toBool | toNumber => exact (reg _).bind fun _ => atoms.bind fun _ => answer _
  | arith =>
    simp only [run]
    split
    · refine atoms.bind fun t => (reg _).bind fun a => (reg _).bind fun b => .bind (.update ?_) fun _ => ?_
      · exact fun _ => rfl
      split
      · exact answer _
      · rename_i he
        rw [Value.arith_error he]
        exact .fail rfl
    · exact .pure _
  | unary =>
    simp only [run]
    split
    · exact atoms.bind fun _ => (reg _).bind fun _ => answer _
    · exact .pure _
  | compare =>
    simp only [run]
    split
    · exact atoms.bind fun _ => (reg _).bind fun _ => (reg _).bind fun _ => answer _
    · exact .pure _
  | getName =>
    simp only [run]
    split
    · exact (ask .getName).bind fun _ => answer _
    · exact .pure _
  | setName =>
    simp only [run]
    split
    · exact get.bind fun _ => (ask .setName).bind fun _ => .pure _
    · exact .pure _
  | getGlobal =>
    simp only [run]
    split
    · exact (ask .getGlobal).bind fun _ => answer _
    · exact .pure _
  | setGlobal =>
    simp only [run]
    split
    · exact get.bind fun _ => (ask .setGlobal).bind fun _ => .pure _
    · exact .pure _
  | getProp =>
    simp only [run]
    split
    · exact (reg _).bind fun _ => (ask .getProperty).bind fun _ => answer _
    · exact .pure _
  | setProp =>
    simp only [run]
    split
    · exact (reg _).bind fun _ => get.bind fun _ => (ask .setProperty).bind fun _ => .pure _
    · exact .pure _
  | getElem => exact (reg _).bind fun _ => (reg _).bind fun _ => (ask .getProperty).bind fun _ => answer _
  | setElem =>
    exact (reg _).bind fun _ => (reg _).bind fun _ => get.bind fun _ => (ask .setProperty).bind fun _ => .pure _
  | call => exact callTop_modest c

end Fallback

/-! ## What is left alone -/

def Machine.nesting (m : Machine) : Nat × Nat := (m.depth, m.maxDepth)

/-- However the stub ends, a part of the machine is what it was. -/
structure StubM.Leaves (part : Machine → τ) (x : StubM σ α) : Prop where
  ok : ∀ {s a s'}, x s = .ok a s' → part s'.machine = part s.machine
  error : ∀ {s e s'}, x s = .error e s' → part s'.machine = part s.machine

theorem StubM.Modest.leaves {host : Host σ} {x : StubM σ α} (h : x.Modest host) (part : Machine → τ) : x.Leaves part :=
  ⟨fun hs => congrArg part (h.ok hs), fun hs => congrArg part (h.error hs).1⟩

def Method.Leaves (host : Host σ) (part : Machine → τ) (m : Method (StubBody σ)) : Prop :=
  ∀ stub ∈ m.store.stubs, ∀ call, StubM.Leaves part (stub.body.run host call)

/-- A chain consists of stubs of the store. -/
theorem StubStore.mem_of_mem_chain {β : Type} {s : StubStore β} {head : Nat} {p : Nat × Stub β} (h : p ∈ s.chain head) :
    p.2 ∈ s.stubs := by
  have hfrom {fuel : Nat} {head : Option Nat} (h : p ∈ s.chainFrom fuel head) : p.2 ∈ s.stubs := by
    induction fuel generalizing head with
    | zero => cases h
    | succ fuel ih =>
      cases head with
      | none => cases h
      | some id =>
        unfold chainFrom at h
        cases hstub : s.get? id with
        | none => rw [hstub] at h; cases h
        | some stub =>
          rw [hstub] at h
          rcases List.mem_cons.mp h with rfl | h
          · exact Array.mem_of_getElem? hstub
          · exact ih h
  exact hfrom h

namespace Config

variable {host : Host σ} {scripts : Scripts σ} {c c' : Config σ} {part : Machine → τ}

theorem tryStubs_leaves {chain : List (Nat × Stub (StubBody σ))} {call : SiteCall}
    (h : ∀ p ∈ chain, StubM.Leaves part (p.2.body.run host call)) (index : Nat) :
    StubM.Leaves part (tryStubs host call index chain) := by
  induction chain with
  | nil =>
    refine ⟨nofun, fun hs => ?_⟩
    cases hs
    rfl
  | cons p rest ih =>
    have hp := h p List.mem_cons_self
    have ih := ih fun q hq => h q (List.mem_cons_of_mem _ hq)
    -- The rest of the chain is tried only if the first stub passes on.
    refine ⟨fun {s v s'} hs => ?_, fun {s e s'} hs => ?_⟩ <;> rw [tryStubs_cons] at hs <;> split at hs
    · cases hs
    · rename_i hrun
      exact (ih.ok hs).trans (hp.ok hrun)
    · rename_i hrun
      cases hs
      exact hp.ok hrun
    · rename_i hrun
      cases hs
      exact hp.error hrun
    · rename_i hrun
      exact (ih.error hs).trans (hp.ok hrun)
    · cases hs

/-- What a call through a site comes to if the run goes on: the stubs answer, or a script is called. -/
theorem of_callSite {patch : Nat} (h : callSite host scripts c patch = .running c')
    (hm : c.current.method.Leaves host part) :
    ∃ (machine : Machine) (f : Frame) (w : World σ), part machine = part c.machine ∧ f.fp = c.current.frame.fp ∧
      f.slots = c.current.frame.slots ∧
      (c' = { c with machine, world := w, current := { c.current with frame := f } } ∨
        ∃ n s args a, scripts n = some s ∧ Activation.enter s args machine.stack.size = .ok a ∧
          c' = { c with
            machine := { machine with depth := machine.depth + 1 }, world := w, current := a
            callers := { c.current with frame := f } :: c.callers }) := by
  let after (s : SiteState σ) : Frame := { c.current.frame with registers := s.registers, scratch := s.scratch }
  unfold callSite at h
  simp only at h
  split at h
  · cases h
  · rename_i index site _
    have hleaves : StubM.Leaves part (tryStubs host ⟨site, c.current.argc⟩ index
        (c.current.method.store.chain site.head)) :=
      tryStubs_leaves (fun p hp => hm p.2 (StubStore.mem_of_mem_chain hp) _) index
    split at h
    · cases h
    · rename_i n args s htry
      refine ⟨s.machine, after s, s.world, hleaves.ok htry, rfl, rfl, .inr ?_⟩
      unfold invoke at h
      split at h
      · cases h
      · rename_i script hs
        split at h
        · cases h
        · rename_i a ha
          cases h
          exact ⟨n, script, args, a, hs, ha, rfl⟩
    · rename_i s _ htry
      cases h
      exact ⟨s.machine, after s, s.world, hleaves.ok htry, rfl, rfl, .inl rfl⟩

end Config

/-! ## Compiled methods -/

namespace Compilation

/-- The stubs of a method that was compiled with the usual fallbacks are such. -/
theorem fallback_of_compile {job : Job (StubBody σ)} {pool : CodePool} {m : Method (StubBody σ)}
    (hfactory : job.factory = StubBody.fallbacks) (h : (compile job Linker.pool pool).1 = .ok m)
    {stub : Stub (StubBody σ)} (hstub : stub ∈ m.store.stubs) : ∃ fb, stub.body = .fallback fb := by
  obtain ⟨f, insts, hf, _, rfl⟩ := compile_ok h
  obtain ⟨n, kind, hbody⟩ := emission_made hf stub hstub
  rw [hfactory] at hbody
  obtain ⟨fb, _, hfb⟩ := Option.map_eq_some_iff.mp hbody
  exact ⟨fb, hfb.symm⟩

theorem leaves_of_compile {job : Job (StubBody σ)} {pool : CodePool} {m : Method (StubBody σ)}
    (hfactory : job.factory = StubBody.fallbacks) (h : (compile job Linker.pool pool).1 = .ok m) (host : Host σ)
    (part : Machine → τ) : m.Leaves host part := by
  intro stub hstub call
  obtain ⟨fb, hfb⟩ := fallback_of_compile hfactory h hstub
  rw [hfb]
  exact (fb.run_modest call).leaves part

end Compilation
end BaselineTier
