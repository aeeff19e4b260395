/-
  BaselineTier.Proofs.Heights — the height of the operand stack at run time.

  A step either runs on in its activation (`Inst.Runs`), calls a script or returns
  (`Config.Steps`). Linked code is levelled if every offset has a height that the instructions
  before it lead to, whether control runs on or jumps (`LinkedCode.Levelled`); the chart of what
  was emitted gives such heights. Whatever is called on the way, the stack is then as high as
  the code says: above the frame of the running activation, and for every one that waits once it
  is given back control (`Config.Poised`). So the heights that were counted when the code was
  emitted are the real ones (`counted_heights_are_real`).
-/

import BaselineTier.Proofs.Census
import BaselineTier.Proofs.Stubs

namespace BaselineTier

variable {σ : Type}

/-! ## What a step does -/

namespace Frame

variable {f f' : Frame} {stack stack' : ValueStack}

/-- What a move makes of the stack: it keeps it, sets a place of its frame, pushes, or takes what lies above the
    floor. -/
inductive Shifts (f : Frame) (stack : ValueStack) : Move → ValueStack → Prop
  | keep {m : Move} : (∀ height, m.height height = some height) → Shifts f stack m stack
  | set {m : Move} {index : Nat} (v : Value) :
      (∀ height, m.height height = some height) → f.fp ≤ index → Shifts f stack m (stack.setIfInBounds index v)
  | push {m : Move} (v : Value) : (∀ height, m.height height = some (height + 1)) → Shifts f stack m (stack.push v)
  | pop {dst : Reg} : f.floor < stack.size → Shifts f stack (.pop dst) stack.pop
  | free {count : Nat} : f.floor + count ≤ stack.size → Shifts f stack (.free count) (stack.take (stack.size - count))

theorem write_shifts {m : Move} {a : Address} {v : Value} (h : f.write stack a v = .ok (f', stack'))
    (hm : ∀ height, m.height height = some height) : f'.fp = f.fp ∧ f'.slots = f.slots ∧ f.Shifts stack m stack' := by
  cases a <;> simp only [write, writeStack] at h
  case slot index =>
    split at h <;> cases h
    exact ⟨rfl, rfl, .set v hm (Nat.le_add_right _ _)⟩
  case stack index =>
    split at h <;> cases h
    refine ⟨rfl, rfl, .set v hm ?_⟩
    rw [floor]
    omega
  case arg index =>
    split at h <;> cases h
    exact ⟨rfl, rfl, .keep hm⟩
  case scratch =>
    cases h
    exact ⟨rfl, rfl, .keep hm⟩

/-- A move leaves the frame where it is. -/
theorem perform_shifts {m : Move} (h : f.perform stack m = .ok (f', stack')) :
    f'.fp = f.fp ∧ f'.slots = f.slots ∧ f.Shifts stack m stack' := by
  cases m with
  | copy src dst | setReg v dst =>
    cases h
    exact ⟨rfl, rfl, .keep fun _ => rfl⟩
  | load src dst =>
    simp only [perform] at h
    cases hr : f.read stack src with
    | error e => rw [hr] at h; cases h
    | ok v =>
      rw [hr] at h
      cases h
      exact ⟨rfl, rfl, .keep fun _ => rfl⟩
  | store src dst | setCell v dst => exact write_shifts h fun _ => rfl
  | push reg | pushValue v =>
    cases h
    exact ⟨rfl, rfl, .push _ fun _ => rfl⟩
  | pushFrom src =>
    simp only [perform] at h
    cases hr : f.read stack src with
    | error e => rw [hr] at h; cases h
    | ok v =>
      rw [hr] at h
      cases h
      exact ⟨rfl, rfl, .push _ fun _ => rfl⟩
  | pop dst =>
    simp only [perform] at h
    split at h
    · split at h
      · rename_i hfloor
        cases h
        exact ⟨rfl, rfl, .pop hfloor⟩
      · cases h
    · cases h
  | free count =>
    simp only [perform, free] at h
    split at h
    · rename_i hfloor
      cases h
      exact ⟨rfl, rfl, .free hfloor⟩
    · cases h

/-- A move makes the stack as high as is counted for it. -/
theorem Shifts.height {m : Move} (h : f.Shifts stack m stack') {height height' : Nat}
    (hm : m.height height = some height') (hs : stack.size = f.floor + height) : stack'.size = f.floor + height' := by
  cases h with
  | keep hlevel =>
    cases (hlevel height).symm.trans hm
    exact hs
  | set v hlevel _ =>
    cases (hlevel height).symm.trans hm
    rw [Array.size_setIfInBounds, hs]
  | push v hup =>
    rw [hup] at hm
    cases hm
    rw [Array.size_push, hs, Nat.add_assoc]
  | pop hfloor =>
    simp only [Move.height] at hm
    split at hm <;> cases hm
    rw [Array.size_pop, hs]
    omega
  | free hfloor =>
    simp only [Move.height] at hm
    split at hm <;> cases hm
    simp
    omega

end Frame

inductive Inst.Runs : Inst Nat → Nat → Frame → ValueStack → Nat → Frame → ValueStack → Prop
  | move {m : Move} {pc : Nat} {f f' : Frame} {stack stack' : ValueStack} :
      f.perform stack m = .ok (f', stack') → Runs (.move m) pc f stack (pc + 1) f' stack'
  | enter {slots pc : Nat} {f : Frame} {stack : ValueStack} :
      Runs (.enterFrame slots) pc f stack (pc + 1) { f with fp := stack.size, slots }
      (stack ++ Array.replicate slots .undefined)
  | leave {pc : Nat} {f : Frame} {stack : ValueStack} : Runs .leaveFrame pc f stack (pc + 1) f (stack.take f.fp)
  | plain {i : Inst Nat} {pc : Nat} {f f' : Frame} {stack : ValueStack} :
      (∀ height, i.height height = some height) → i.isInner = true → i.passes = true → f'.fp = f.fp →
      f'.slots = f.slots →
      Runs i pc f stack (pc + 1) f' stack
  | branch {i : Inst Nat} {target pc pc' : Nat} {f : Frame} {stack : ValueStack} :
      i.target? = some target → (pc' = target ∨ i.passes = true ∧ pc' = pc + 1) → Runs i pc f stack pc' f stack

namespace Config

/-- What a step leads to: the activation runs on, it calls a script, or it returns. -/
inductive Steps (scripts : Scripts σ) (c : Config σ) : Config σ → Prop
  | runs {i : Inst Nat} {pc argc : Nat} {f : Frame} {stack : ValueStack} {w : World σ} :
      c.current.method.code.insts[c.current.pc]? = some i →
      i.Runs c.current.pc c.current.frame c.machine.stack pc f stack →
      Steps scripts c
        { c with machine := { c.machine with stack }, world := w, current := { c.current with pc, argc, frame := f } }
  | calls {patch n : Nat} {f : Frame} {w : World σ} {s : Script (StubBody σ)} {args : List Value} {a : Activation σ} :
      c.current.method.code.insts[c.current.pc]? = some (.callSite patch) → f.fp = c.current.frame.fp →
      f.slots = c.current.frame.slots →
      scripts n = some s → Activation.enter s args c.machine.stack.size = .ok a →
      Steps scripts c { c with
        machine := { c.machine with depth := c.machine.depth + 1 }, world := w, current := a
        callers := { c.current with pc := c.current.pc + 1, frame := f } :: c.callers }
  | returns {caller : Activation σ} {callers : List (Activation σ)} {v : Value} :
      c.current.method.code.insts[c.current.pc]? = some .ret → c.callers = caller :: callers →
      Steps scripts c { c with
        machine := { c.machine with depth := c.machine.depth - 1 }, callers
        current := { caller with frame := caller.frame.setReg .r0 v } }

def after? (host : Host σ) (scripts : Scripts σ) : Nat → Config σ → Option (Config σ)
  | 0, c => some c
  | n + 1, c =>
    match c.step host scripts with
    | .running c => after? host scripts n c
    | .ended .. => none

theorem leads_of_after? {host : Host σ} {scripts : Scripts σ} {n : Nat} {c c' : Config σ}
    (h : c.after? host scripts n = some c') :
    Leads host scripts c c' := by
  refine ⟨n, ?_⟩
  induction n generalizing c with
  | zero =>
    cases h
    rfl
  | succ n ih =>
    unfold after? at h
    split at h
    · rename_i c₁ hstep
      exact ⟨c₁, hstep, ih h⟩
    · cases h

/-- A step that calls no site leads to one of these, and one that does if its call does. -/
theorem steps_of_uncalled {host : Host σ} {scripts : Scripts σ} {c c' : Config σ}
    (hcall : ∀ patch, c.current.method.code.insts[c.current.pc]? = some (.callSite patch) →
      callSite host scripts { c with current := { c.current with pc := c.current.pc + 1 } } patch = .running c' →
      Steps scripts c c')
    (h : c.step host scripts = .running c') : Steps scripts c c' := by
  unfold step at h
  split at h
  · cases h
  · rename_i i hi
    -- An instruction that can fail has a case in which the run does not go on.
    cases i with
    | move m =>
      simp only [exec] at h
      split at h
      · rename_i hm
        cases h
        exact .runs hi (.move hm)
      · cases h
    | enterFrame slots =>
      cases h
      exact .runs hi .enter
    | leaveFrame =>
      cases h
      exact .runs hi .leave
    | ret =>
      simp only [exec, ret] at h
      split at h
      · cases h
      · rename_i hcallers
        cases h
        exact .returns hi hcallers
    | stackCheck =>
      simp only [exec] at h
      split at h
      · cases h
      · cases h
        exact .runs hi (.plain (fun _ => rfl) rfl rfl rfl rfl)
    | setArgc count =>
      cases h
      exact .runs hi (.plain (fun _ => rfl) rfl rfl rfl rfl)
    | negate reg =>
      simp only [exec] at h
      split at h
      · cases h
        exact .runs hi (.plain (fun _ => rfl) rfl rfl rfl rfl)
      · cases h
    | jump target =>
      cases h
      exact .runs hi (.branch rfl (.inl rfl))
    | branch reg condition target =>
      simp only [exec] at h
      split at h
      · rename_i b _
        cases h
        refine .runs hi (.branch rfl ?_)
        by_cases hb : b = condition
        · exact .inl (if_pos hb)
        · exact .inr ⟨rfl, if_neg hb⟩
      · cases h
    | branchNumber reg target =>
      cases h
      refine .runs hi (.branch rfl ?_)
      by_cases hn : (c.current.frame.registers.get reg).isNumber = true
      · exact .inl (if_pos hn)
      · exact .inr ⟨rfl, if_neg hn⟩
    | callSite patch => exact hcall patch hi h

/-- A step of a method whose stubs leave the machine alone. -/
theorem steps_of_step {host : Host σ} {scripts : Scripts σ} {c c' : Config σ} (hm : c.current.method.Leaves host id)
    (h : c.step host scripts = .running c') : Steps scripts c c' := by
  refine steps_of_uncalled (fun patch hi hcall => ?_) h
  obtain ⟨machine, f, w, hmachine, hfp, hslots, rfl | ⟨n, s, args, a, hs, ha, rfl⟩⟩ := of_callSite hcall hm
  · obtain rfl : machine = c.machine := hmachine
    exact .runs hi (.plain (fun _ => rfl) rfl rfl hfp hslots)
  · obtain rfl : machine = c.machine := hmachine
    exact .calls hi hfp hslots hs ha

/-! ## Nested activations -/

/-- What a step does to the activations: they stay, or one of a script is opened, or the running one is closed. -/
inductive Nests (scripts : Scripts σ) (c c' : Config σ) : Prop
  | stays : c'.machine.nesting = c.machine.nesting → c'.current.method = c.current.method → c'.callers = c.callers →
      Nests scripts c c'
  | opens {n height : Nat} {s : Script (StubBody σ)} {args : List Value} {caller : Activation σ} :
      c'.machine.nesting = (c.machine.depth + 1, c.machine.maxDepth) → scripts n = some s →
      Activation.enter s args height = .ok c'.current → caller.method = c.current.method →
      c'.callers = caller :: c.callers → Nests scripts c c'
  | closes {caller : Activation σ} : c'.machine.nesting = (c.machine.depth - 1, c.machine.maxDepth) →
      c.callers = caller :: c'.callers → c'.current.method = caller.method → Nests scripts c c'

theorem Steps.nests {scripts : Scripts σ} {c c' : Config σ} (h : c.Steps scripts c') : c.Nests scripts c' := by
  cases h with
  | runs => exact .stays rfl rfl rfl
  | @calls _ n f _ s args a _ _ _ hs ha =>
    have hcaller : Activation.method { c.current with pc := c.current.pc + 1, frame := f } = c.current.method := rfl
    exact .opens rfl hs ha hcaller rfl
  | returns _ hcallers => exact .closes rfl hcallers rfl

def All (P : Method (StubBody σ) → Prop) (c : Config σ) : Prop := P c.current.method ∧ ∀ a ∈ c.callers, P a.method

theorem method_of_enter {s : Script (StubBody σ)} {args : List Value} {height : Nat} {a : Activation σ}
    (h : Activation.enter s args height = .ok a) : s.baseline = some a.method := by
  unfold Activation.enter at h
  split at h
  · cases h
  · cases h
    assumption

theorem All.step {P : Method (StubBody σ) → Prop} {scripts : Scripts σ} {c c' : Config σ}
    (hscripts : ∀ n s m, scripts n = some s → s.baseline = some m → P m) (h : c.All P) (hs : c.Nests scripts c') :
    c'.All P := by
  unfold All
  cases hs with
  | stays _ hmethod hcallers =>
    rw [hmethod, hcallers]
    exact h
  | opens _ hs ha hcaller hcallers =>
    rw [hcallers]
    refine ⟨hscripts _ _ _ hs (method_of_enter ha), fun a' ha' => ?_⟩
    rcases List.mem_cons.mp ha' with rfl | ha'
    · exact hcaller ▸ h.1
    · exact h.2 a' ha'
  | closes _ hcallers hmethod =>
    have hall := h.2
    rw [hcallers] at hall
    rw [hmethod]
    exact ⟨hall _ List.mem_cons_self, fun a ha => hall a (List.mem_cons_of_mem _ ha)⟩

/-- What every step keeps, a run keeps. -/
theorem Leads.invariant {host : Host σ} {scripts : Scripts σ} {P : Config σ → Prop} {c c' : Config σ}
    (hl : Leads host scripts c c') (hstep : ∀ c c', P c → c.step host scripts = .running c' → P c')
    (h : P c) : P c' := by
  obtain ⟨n, hn⟩ := hl
  induction n generalizing c with
  | zero => cases hn; exact h
  | succ n ih =>
    obtain ⟨c₁, hc₁, hn⟩ := hn
    exact ih (hstep c c₁ h hc₁) hn

end Config

def Scripts.Spares (host : Host σ) (scripts : Scripts σ) : Prop :=
  ∀ n s m, scripts n = some s → s.baseline = some m → m.Leaves host id

namespace Config

def Spares (host : Host σ) (c : Config σ) : Prop := c.All fun m => m.Leaves host id

theorem Spares.step {host : Host σ} {scripts : Scripts σ} {c c' : Config σ} (hscripts : scripts.Spares host)
    (h : c.Spares host) (hs : c.Steps scripts c') : c'.Spares host := All.step hscripts h hs.nests

/-- What follows from what steps lead to, whatever the host answers. -/
theorem Leads.keeps {host : Host σ} {scripts : Scripts σ} {P : Config σ → Prop} {c c' : Config σ}
    (hl : Leads host scripts c c') (hscripts : scripts.Spares host) (hc : c.Spares host)
    (hstep : ∀ c c', P c → Steps scripts c c' → P c') (h : P c) : c'.Spares host ∧ P c' := by
  refine hl.invariant (P := fun c => c.Spares host ∧ P c) ?_ ⟨hc, h⟩
  rintro c c' ⟨hc, h⟩ hs
  have hsteps := steps_of_step hc.1 hs
  exact ⟨hc.step hscripts hsteps, hstep c c' h hsteps⟩

end Config

/-- A run begins with an activation of the script. -/
theorem Machine.enter_of_start {machine : Machine} {s : Script (StubBody σ)} {args : List Value} {world : World σ}
    {c : Config σ} (h : machine.start s args world = .ok c) :
    ∃ a, Activation.enter s args machine.stack.size = .ok a ∧
      c = ⟨{ machine with depth := machine.depth + 1 }, world, a, [], machine.stack.size⟩ := by
  unfold start at h
  cases ha : Activation.enter s args machine.stack.size with
  | error e => rw [ha] at h; cases h
  | ok a =>
    rw [ha] at h
    cases h
    exact ⟨a, rfl, rfl⟩

/-! ## Levelled code -/

/-- Each offset up to the way out has a height: that is what instructions that run on or jump leave the stack with. -/
structure LinkedCode.Levelled (slots : Nat) (level : Nat → Nat) (out : Nat) (c : LinkedCode) : Prop where
  entry : c.entry = 0
  begins : 0 < out
  opens : level 1 = 0
  enters : c.insts[0]? = some (.enterFrame slots)
  leave : c.insts[out]? = some .leaveFrame
  ret : c.insts[out + 1]? = some .ret
  inner : ∀ {k : Nat} {i : Inst Nat}, 0 < k → k < out → c.insts[k]? = some i → i.isInner = true
  falls : ∀ {k : Nat} {i : Inst Nat}, 0 < k → k < out → c.insts[k]? = some i → i.passes = true →
    i.height (level k) = some (level (k + 1))
  jumps : ∀ {k : Nat} {i : Inst Nat} {target : Nat}, 0 < k → k < out → c.insts[k]? = some i → i.target? = some target →
    0 < target ∧ target ≤ out ∧ level target = level k

theorem LinkedCode.Levelled.ret_only {slots : Nat} {level : Nat → Nat} {out : Nat} {c : LinkedCode}
    (h : c.Levelled slots level out) {k : Nat} (hk : c.insts[k]? = some .ret) (hle : k ≤ out + 1) : k = out + 1 := by
  by_cases hzero : k = 0
  · rw [hzero, h.enters] at hk
    cases hk
  by_cases hlt : k < out
  · cases h.inner (Nat.pos_of_ne_zero hzero) hlt hk
  by_cases hout : k = out
  · rw [hout, h.leave] at hk
    cases hk
  · omega

/-- The stack is as high as levelled code says where the activation stands. -/
structure Activation.Keeps (slots : Nat) (level : Nat → Nat) (out : Nat) (a : Activation σ) (size : Nat) : Prop where
  range : a.pc ≤ out + 1
  opens : a.pc = 0 → size = a.frame.fp
  inside : 0 < a.pc → a.pc ≤ out → a.frame.slots = slots ∧ size = a.frame.fp + slots + level a.pc
  leaves : a.pc = out + 1 → size = a.frame.fp

namespace Activation

variable {slots : Nat} {level : Nat → Nat} {out : Nat} {a : Activation σ} {size : Nat}

/-- Only where the stack is, and the program counter, matter. -/
theorem Keeps.place (h : a.Keeps slots level out size) {a' : Activation σ} (hpc : a'.pc = a.pc)
    (hfp : a'.frame.fp = a.frame.fp) (hslots : a'.frame.slots = a.frame.slots) : a'.Keeps slots level out size := by
  refine ⟨by rw [hpc]; exact h.range, fun hz => ?_, fun hpos hle => ?_, fun hl => ?_⟩
  · rw [hfp]
    exact h.opens (hpc ▸ hz)
  · rw [hslots, hfp, hpc]
    exact h.inside (hpc ▸ hpos) (hpc ▸ hle)
  · rw [hfp]
    exact h.leaves (hpc ▸ hl)

theorem keeps_inside (hpos : 0 < a.pc) (hle : a.pc ≤ out) (hslots : a.frame.slots = slots)
    (hsize : size = a.frame.fp + slots + level a.pc) : a.Keeps slots level out size :=
  ⟨Nat.le_succ_of_le hle, fun hz => by omega, fun _ _ => ⟨hslots, hsize⟩, fun hl => by omega⟩

variable {i : Inst Nat} {pc : Nat} {f : Frame} {stack stack' : ValueStack}

/-- What an instruction of the body does: it comes to an offset that has the height it leaves the stack with. -/
theorem Keeps.runs_inside (hc : a.method.code.Levelled slots level out) (h : a.Keeps slots level out stack.size)
    (hi : a.method.code.insts[a.pc]? = some i) (hpos : 0 < a.pc) (hlt : a.pc < out)
    (hr : i.Runs a.pc a.frame stack pc f stack') (argc : Nat) :
    Keeps slots level out { a with pc, argc, frame := f } stack'.size ∧ f.fp = a.frame.fp := by
  obtain ⟨hslots, hsize⟩ := h.inside hpos (Nat.le_of_lt hlt)
  have hinner := hc.inner hpos hlt hi
  cases hr with
  | move hm =>
    have hfloor : a.frame.floor = a.frame.fp + slots := by rw [Frame.floor, hslots]
    obtain ⟨hfp, hslots', hshifts⟩ := Frame.perform_shifts hm
    have hsize' := hshifts.height (hc.falls hpos hlt hi rfl) (by rw [hfloor]; exact hsize)
    rw [hfloor] at hsize'
    exact ⟨keeps_inside (Nat.succ_pos _) hlt (hslots'.trans hslots) (by rw [hfp]; exact hsize'), hfp⟩
  | enter => cases hinner
  | leave => cases hinner
  | plain hheight _ hpass hfp hslots' =>
    have hlevel : level a.pc = level (a.pc + 1) := Option.some.inj ((hheight _).symm.trans (hc.falls hpos hlt hi hpass))
    exact ⟨keeps_inside (Nat.succ_pos _) hlt (hslots'.trans hslots) (by rw [hfp, ← hlevel]; exact hsize), hfp⟩
  | branch htarget hto =>
    rcases hto with rfl | ⟨hpass, rfl⟩
    · obtain ⟨hpos', hle, hlevel⟩ := hc.jumps hpos hlt hi htarget
      exact ⟨keeps_inside hpos' hle hslots (by rw [hlevel]; exact hsize), rfl⟩
    · have hstays : i.height (level a.pc) = some (level a.pc) := by cases i <;> first | rfl | cases htarget
      have hlevel : level a.pc = level (a.pc + 1) := Option.some.inj (hstays.symm.trans (hc.falls hpos hlt hi hpass))
      exact ⟨keeps_inside (Nat.succ_pos _) hlt hslots (by rw [← hlevel]; exact hsize), rfl⟩

/-- An activation that runs on keeps to the heights, and its frame stays where it is. -/
theorem Keeps.runs (hc : a.method.code.Levelled slots level out) (h : a.Keeps slots level out stack.size)
    (hi : a.method.code.insts[a.pc]? = some i) (hr : i.Runs a.pc a.frame stack pc f stack') (argc : Nat) :
    Keeps slots level out { a with pc, argc, frame := f } stack'.size ∧ f.fp = a.frame.fp := by
  have hrange := h.range
  by_cases hzero : a.pc = 0
  · rw [hzero, hc.enters] at hi
    cases hi
    have hfp := h.opens hzero
    cases hr with
    | enter =>
      refine ⟨keeps_inside (Nat.succ_pos _) ?_ rfl ?_, hfp⟩
      · rw [hzero]
        exact hc.begins
      · rw [hzero, hc.opens]
        simp
    | plain _ hinner => cases hinner
    | branch htarget => cases htarget
  by_cases hlt : a.pc < out
  · exact h.runs_inside hc hi (Nat.pos_of_ne_zero hzero) hlt hr argc
  by_cases hout : a.pc = out
  · obtain ⟨_, hsize⟩ := h.inside (Nat.pos_of_ne_zero hzero) (Nat.le_of_eq hout)
    rw [hout, hc.leave] at hi
    cases hi
    cases hr with
    | leave =>
      refine ⟨⟨Nat.succ_le_succ (Nat.le_of_eq hout), fun hz => absurd hz (Nat.succ_ne_zero _), fun _ hle => ?_,
        fun _ => ?_⟩, rfl⟩
      · exact absurd hle (by rw [hout]; exact Nat.not_succ_le_self _)
      · simp
        omega
    | plain _ hinner => cases hinner
    | branch htarget => cases htarget
  · obtain hend : a.pc = out + 1 := by omega
    rw [hend, hc.ret] at hi
    cases hi
    cases hr with
    | plain _ hinner => cases hinner
    | branch htarget => cases htarget

def Poised (a : Activation σ) (size : Nat) : Prop :=
  (∃ slots level out, a.method.code.Levelled slots level out) ∧
    ∀ slots level out, a.method.code.Levelled slots level out → a.Keeps slots level out size

theorem Poised.place (h : a.Poised size) {a' : Activation σ} (hmethod : a'.method = a.method) (hpc : a'.pc = a.pc)
    (hfp : a'.frame.fp = a.frame.fp) (hslots : a'.frame.slots = a.frame.slots) : a'.Poised size := by
  unfold Poised
  rw [hmethod]
  exact ⟨h.1, fun slots level out hc => (h.2 slots level out hc).place hpc hfp hslots⟩

end Activation

namespace Config

/-- Each of the activations that wait finds the stack as high as it left it once the frame above it is gone. -/
def Waits : List (Activation σ) → Nat → Prop
  | [], _ => True
  | a :: rest, size => a.Poised size ∧ Waits rest a.frame.fp

structure Poised (c : Config σ) : Prop where
  current : c.current.Poised c.machine.stack.size
  callers : Waits c.callers c.current.frame.fp

end Config

def Scripts.Levelled (scripts : Scripts σ) : Prop :=
  ∀ n s m, scripts n = some s → s.baseline = some m → ∃ slots level out, m.code.Levelled slots level out

namespace Activation

theorem enter_poised {s : Script (StubBody σ)} {args : List Value} {size : Nat} {a : Activation σ}
    (h : enter s args size = .ok a)
    (hs : ∀ m, s.baseline = some m → ∃ slots level out, m.code.Levelled slots level out) :
    a.Poised size ∧ a.frame.fp = size := by
  unfold enter at h
  cases hm : s.baseline with
  | none => rw [hm] at h; cases h
  | some m =>
    rw [hm] at h
    cases h
    refine ⟨⟨hs m hm, fun slots level out hc => ?_⟩, rfl⟩
    have hentry : m.code.entry = 0 := hc.entry
    exact ⟨by simp [hentry], fun _ => rfl, fun hpos => by simp [hentry] at hpos, fun hl => by simp [hentry] at hl⟩

end Activation

namespace Config

variable {scripts : Scripts σ} {c c' : Config σ}

/-- One step leaves every activation with the height that its code says. -/
theorem Poised.step (hscripts : scripts.Levelled) (h : c.Poised) (hs : c.Steps scripts c') : c'.Poised := by
  obtain ⟨⟨slots, level, out, hc⟩, hkeeps⟩ := h.current
  cases hs with
  | @runs i pc argc f stack w hi hr =>
    obtain ⟨_, hfp⟩ := (hkeeps slots level out hc).runs hc hi hr argc
    refine ⟨⟨⟨slots, level, out, hc⟩, fun slots' level' out' hc' => ?_⟩, ?_⟩
    · have hcurrent : c.current.method.code.Levelled slots' level' out' := hc'
      exact ((hkeeps slots' level' out' hcurrent).runs hcurrent hi hr argc).1
    · show Waits c.callers f.fp
      rw [hfp]
      exact h.callers
  | @calls patch n f w s args a hi hfp hslots hs ha =>
    obtain ⟨hpoised, hheight⟩ := Activation.enter_poised ha fun m hm => hscripts n s m hs hm
    refine ⟨hpoised, ⟨⟨slots, level, out, hc⟩, fun slots' level' out' hc' => ?_⟩, ?_⟩
    · have hcurrent : c.current.method.code.Levelled slots' level' out' := hc'
      have hruns : (Inst.callSite patch).Runs c.current.pc c.current.frame c.machine.stack (c.current.pc + 1) f
          c.machine.stack :=
        .plain (fun _ => rfl) rfl rfl hfp hslots
      rw [hheight]
      exact ((hkeeps slots' level' out' hcurrent).runs hcurrent hi hruns c.current.argc).1
    · show Waits c.callers f.fp
      rw [hfp]
      exact h.callers
  | @returns caller callers v hi hcallers =>
    have hkeep := hkeeps slots level out hc
    have hsize := hkeep.leaves (hc.ret_only hi hkeep.range)
    have hwaits := h.callers
    rw [hcallers] at hwaits
    refine ⟨?_, hwaits.2⟩
    rw [show _ = c.current.frame.fp from hsize]
    exact hwaits.1.place rfl rfl rfl rfl

end Config

/-! ## Compiled code is levelled -/

/-- An instruction is linked as one of the same kind; its target is where the label is bound. -/
theorem Inst.resolve_same {find : Label → Except LinkError Nat} {i : Inst Label} {i' : Inst Nat}
    (h : i.resolve find = .ok i') :
    i'.isInner = i.isInner ∧ i'.passes = i.passes ∧ (∀ height, i'.height height = i.height height) ∧
      ∀ target, i'.target? = some target → ∃ l, i.target? = some l ∧ find l = .ok target := by
  have hmap {l : Label} {g : Nat → Inst Nat} (h : (find l).map g = .ok i') :
      ∃ target, find l = .ok target ∧ g target = i' := by
    cases hl : find l with
    | error e => rw [hl] at h; cases h
    | ok target =>
      rw [hl] at h
      cases h
      exact ⟨target, rfl, rfl⟩
  cases i with
  | jump l | branch _ _ l | branchNumber _ l =>
    obtain ⟨target, hl, rfl⟩ := hmap h
    exact ⟨rfl, rfl, fun _ => rfl, fun t ht => ⟨l, rfl, by cases ht; exact hl⟩⟩
  | _ =>
    cases h
    exact ⟨rfl, rfl, fun _ => rfl, fun t ht => by cases ht⟩

theorem Draft.Charted.levelled {p : Program} {b : CodeBuffer} {f : Draft (StubBody σ)} {m : Method (StubBody σ)}
    (h : f.Charted p b) (hm : f.Installed m) (hentry : m.code.entry = 0) :
    m.code.Levelled p.slots b.heightAt b.insts.size := by
  have hfind : f.buffer.find = b.find := by
    funext l
    simp only [CodeBuffer.find, CodeBuffer.labelOffset?, h.labels]
  have hinsts {k : Nat} (hk : k < b.insts.size) {i' : Inst Nat} (hi' : m.code.insts[k]? = some i') :
      ∃ i, b.insts[k]? = some i ∧ i.resolve b.find = .ok i' := by
    have hi : b.insts[k]? = some (b.insts[k]) := Array.getElem?_eq_getElem hk
    have hf : f.buffer.insts[k]? = some (b.insts[k]) := by rw [h.insts, Array.getElem?_append_left hk]; exact hi
    obtain ⟨i'', hi'', hr⟩ := hm.insts hf
    rw [hi'] at hi''
    cases hi''
    exact ⟨_, hi, hfind ▸ hr⟩
  have hend (k : Nat) {i : Inst Label} (hk : #[Inst.leaveFrame, Inst.ret][k]? = some i) :
      f.buffer.insts[b.insts.size + k]? = some i := by
    rw [h.insts, Array.getElem?_append_right (Nat.le_add_right _ _), Nat.add_sub_cancel_left]
    exact hk
  have hzero : f.buffer.insts[0]? = some (.enterFrame p.slots) := by
    rw [h.insts, Array.getElem?_append_left h.chart.begins]
    exact h.enters
  refine ⟨hentry, h.chart.begins, ?_, ?_, ?_, ?_, fun hpos hlt hi => ?_, fun hpos hlt hi hpass => ?_,
    fun {k i target} hpos hlt hi ht => ?_⟩
  · have hfalls := h.chart.falls h.enters rfl
    rw [h.chart.zero] at hfalls
    exact (Option.some.inj hfalls).symm
  · exact hm.inst (.refl f) hzero fun _ => rfl
  · exact hm.inst (.refl f) (hend 0 rfl) fun _ => rfl
  · exact hm.inst (.refl f) (hend 1 rfl) fun _ => rfl
  · obtain ⟨j, hj, hr⟩ := hinsts hlt hi
    rw [(Inst.resolve_same hr).1]
    exact h.chart.inner hpos hj
  · obtain ⟨j, hj, hr⟩ := hinsts hlt hi
    obtain ⟨_, hpasses, hheight, _⟩ := Inst.resolve_same hr
    rw [hheight]
    exact h.chart.falls hj (hpasses ▸ hpass)
  · obtain ⟨j, hj, hr⟩ := hinsts hlt hi
    obtain ⟨l, hl, hfound⟩ := (Inst.resolve_same hr).2.2.2 target ht
    have hbound : b.labelOffset? l = some target := by
      unfold CodeBuffer.find at hfound
      split at hfound
      · cases hfound
        assumption
      · cases hfound
    rcases h.chart.jumps hj hl with hdeclared | ⟨pc, hpc, hpos', hlevel⟩
    · obtain ⟨hpos', hlevel⟩ := h.chart.bound hdeclared hbound
      exact ⟨hpos', h.chart.within hbound, hlevel⟩
    · rw [hbound] at hpc
      cases hpc
      exact ⟨hpos', h.chart.within hbound, hlevel⟩

/-- What a script holds was linked from code with a sound chart and the sites of a verdict. -/
theorem Script.Baseline.charted {s : Script (StubBody σ)} {m : Method (StubBody σ)} (h : s.Baseline)
    (hm : s.baseline = some m) :
    ∃ settings atoms, ∃ f : Draft (StubBody σ), ∃ b, f.Installed m ∧ m.code.entry = 0 ∧ f.Charted s.program b ∧
      Job.verdict (⟨s.program, settings, atoms, StubBody.fallbacks⟩ : Job (StubBody σ)) = .ok f.sites.log := by
  obtain ⟨name, code, slots, args, texts, hp⟩ := h.accepted
  obtain ⟨settings, atoms, pool, hcompile⟩ := h.made m hm
  obtain ⟨f, b, _, hrest⟩ := Compilation.compile_charted (Program.verified_of_ofCode hp) h.short rfl hcompile
  exact ⟨settings, atoms, f, b, hrest⟩

theorem Script.Baseline.levelled {s : Script (StubBody σ)} {m : Method (StubBody σ)} (h : s.Baseline)
    (hm : s.baseline = some m) :
    ∃ slots level out, m.code.Levelled slots level out := by
  obtain ⟨_, _, f, b, hinstalled, hentry, hcharted, _⟩ := h.charted hm
  exact ⟨_, _, _, hcharted.levelled hinstalled hentry⟩

theorem Scripts.Baseline.levelled {scripts : Scripts σ} (h : scripts.Baseline) : scripts.Levelled :=
  fun n s _ hs hm => (h n s hs).levelled hm

theorem Script.Baseline.leaves {s : Script (StubBody σ)} {m : Method (StubBody σ)} (h : s.Baseline)
    (hm : s.baseline = some m) (host : Host σ) : m.Leaves host id := by
  obtain ⟨settings, atoms, pool, hmade⟩ := h.made m hm
  exact Compilation.leaves_of_compile rfl hmade host id

theorem Scripts.Baseline.spares {scripts : Scripts σ} (h : scripts.Baseline) (host : Host σ) : scripts.Spares host :=
  fun n s _ hs hm => (h n s hs).leaves hm host

theorem Machine.start_spares {machine : Machine} {s : Script (StubBody σ)} {args : List Value} {world : World σ}
    {c : Config σ} (hs : s.Baseline) (h : machine.start s args world = .ok c) (host : Host σ) : c.Spares host := by
  obtain ⟨a, ha, rfl⟩ := enter_of_start h
  exact ⟨hs.leaves (Config.method_of_enter ha) host, fun a ha => by cases ha⟩

/-- A run of a script, from its beginning on. -/
theorem Machine.start_poised {machine : Machine} {s : Script (StubBody σ)} {args : List Value} {world : World σ}
    {c : Config σ} (hs : s.Baseline) (h : machine.start s args world = .ok c) : c.Poised := by
  obtain ⟨a, ha, rfl⟩ := enter_of_start h
  exact ⟨(Activation.enter_poised ha fun m hm => hs.levelled hm).1, trivial⟩

/-! ## Counted and real heights -/

/-- Where the running activation stands, its operand stack is as high as was counted when the code was emitted: at a
    place where control meets as the verifier declares, at the way out not at all, and nowhere higher than the verifier
    says. -/
structure Config.Measures (p : Program) (f : Draft (StubBody σ)) (out : Nat) (c : Config σ) : Prop where
  slots : 0 < c.current.pc → c.current.pc ≤ out → c.current.frame.slots = p.slots
  body : 0 < c.current.pc → c.current.pc < out → ∃ height, f.buffer.heights[c.current.pc]? = some height ∧
    c.machine.stack.size = c.current.frame.floor + height ∧ height ≤ p.stackMap.deepest
  meets : ∀ o info, p.stackMap.info? o = some info → info.jumpTarget = true →
    ∃ pc, f.buffer.labelOffset? (Emit.labelOf o) = some pc ∧
    (c.current.pc = pc → c.machine.stack.size = c.current.frame.floor + info.depth)
  leaves : c.current.pc = out → c.machine.stack.size = c.current.frame.floor

theorem Config.Poised.measures {p : Program} (hv : p.Verified) (hlen : p.length < 2 ^ 32) {b : CodeBuffer}
    {f : Draft (StubBody σ)} {c : Config σ} (h : c.Poised) (hf : f.Charted p b)
    (hc : c.current.method.code.Levelled p.slots b.heightAt b.insts.size) :
    c.Measures p f b.insts.size := by
  have hkeeps := h.current.2 _ _ _ hc
  have hfloor (hpos : 0 < c.current.pc) (hle : c.current.pc ≤ b.insts.size) :
      c.machine.stack.size = c.current.frame.floor + b.heightAt c.current.pc := by
    obtain ⟨hslots, hsize⟩ := hkeeps.inside hpos hle
    rw [Frame.floor, hslots]
    exact hsize
  refine ⟨fun hpos hle => (hkeeps.inside hpos hle).1, fun hpos hlt => ?_, fun o info hinfo htarget => ?_,
    fun hout => ?_⟩
  · refine ⟨b.heightAt c.current.pc, ?_, hfloor hpos (Nat.le_of_lt hlt), hf.chart.low (Nat.le_of_lt hlt)⟩
    rw [hf.heights hlt, CodeBuffer.heightAt, Array.getElem?_eq_getElem (by rw [hf.chart.size]; exact hlt)]
    rfl
  · obtain ⟨i, hi, ho⟩ := hv.instruction hinfo
    have hlt : o < p.length := ho ▸ hv.tiles.offset_lt hi
    obtain ⟨pc, hpc⟩ := Option.isSome_iff_exists.mp
      (hf.bound (o := o) (by rw [StackMap.isJumpTarget, hinfo]; exact htarget))
    obtain ⟨hpos, hlevel⟩ := hf.chart.bound (.inl ⟨info, hinfo, htarget, rfl⟩) hpc
    refine ⟨pc, ?_, fun hat => ?_⟩
    · rw [Draft.labelOf_eq (Nat.lt_trans hlt hlen), CodeBuffer.labelOffset?, hf.labels]
      exact hpc
    · subst hat
      rw [hfloor hpos (hf.chart.within hpc), hlevel]
  · rw [hfloor (hout ▸ hf.chart.begins) (Nat.le_of_eq hout), hout, hf.chart.heightAt_size, hf.height, Nat.add_zero]

namespace Compilation

/-- Whatever is run and called, an activation of compiled code finds its operand stack as high as was counted where it
    stands. Labels have 32-bit numbers, and the program has no more bytes than that. -/
theorem counted_heights_are_real {name : String} {code : List UInt8} {slots args : Nat} {texts : Array String}
    {p : Program} (hp : Program.ofCode name code slots args texts = .ok p) (hlen : p.length < 2 ^ 32)
    {settings : Settings} {atoms : AtomTable} {pool : CodePool} {m : Method (StubBody σ)}
    (hm : (compile ⟨p, settings, atoms, StubBody.fallbacks⟩ Linker.pool pool).1 = .ok m) {host : Host σ}
    {scripts : Scripts σ} (hscripts : scripts.Baseline) {s : Script (StubBody σ)} (hs : s.Baseline) {machine : Machine}
    {passed : List Value} {world : World σ} {c₀ c : Config σ} (hstart : machine.start s passed world = .ok c₀)
    (hleads : Config.Leads host scripts c₀ c) (hcode : c.current.method.code = m.code) :
    ∃ f out, emission ⟨p, settings, atoms, StubBody.fallbacks⟩ (.start settings) = .ok () f ∧
      f.buffer.labelOffset? ⟨p.length⟩ = some out ∧ c.Measures p f out := by
  have hv := Program.verified_of_ofCode hp
  obtain ⟨f, b, hemission, hinstalled, hentry, hcharted, _⟩ := compile_charted hv hlen rfl hm
  obtain ⟨_, hpoised⟩ := hleads.keeps (hscripts.spares host) (Machine.start_spares hs hstart host)
    (fun _ _ h hsteps => h.step hscripts.levelled hsteps) (Machine.start_poised hs hstart)
  have hlevelled := hcharted.levelled hinstalled hentry
  rw [← hcode] at hlevelled
  refine ⟨f, b.insts.size, hemission, ?_, hpoised.measures hv hlen hcharted hlevelled⟩
  rw [CodeBuffer.labelOffset?, hcharted.labels]
  exact hcharted.out

/-- Behind a call that has returned, with callee, receiver and argument still on the stack. -/
theorem counted_heights_are_real_lookupCall : ∃ (m : Method (StubBody Unit)) (c₀ c : Config Unit),
    (compile ⟨LookupCall.program, {}, .internAll .empty ["f"], StubBody.fallbacks⟩ Linker.pool ⟨100, 0⟩).1 = .ok m ∧
      Machine.start { maxDepth := 2 } (LookupCall.script Unit) [.bool true] ⟨.internAll .empty ["f"], ()⟩ = .ok c₀ ∧
      Config.Leads LookupCall.host (LookupCall.scripts Unit) c₀ c ∧ c.current.method.code = m.code ∧
      c.current.pc = 11 ∧ c.machine.stack.size = 3 ∧
      ∃ f out, emission ⟨LookupCall.program, {}, .internAll .empty ["f"], StubBody.fallbacks⟩ (.start {}) = .ok () f ∧
        f.buffer.labelOffset? ⟨LookupCall.program.length⟩ = some out ∧ c.Measures LookupCall.program f out := by
  have hrun : ((Machine.start { maxDepth := 2 } (LookupCall.script Unit) [.bool true]
      ⟨.internAll .empty ["f"], ()⟩).toOption.bind
      (Config.after? LookupCall.host (LookupCall.scripts Unit) 19)).map
        (fun c => (some c.current.method.code, c.current.pc, c.machine.stack.size)) =
      some ((LookupCall.script Unit).baseline.map Method.code, 11, 3) := by cbv
  obtain ⟨c, hc, hfacts⟩ := Option.map_eq_some_iff.mp hrun
  obtain ⟨c₀, hc₀, hafter⟩ := Option.bind_eq_some_iff.mp hc
  simp only [Prod.mk.injEq] at hfacts
  obtain ⟨hcode, hpc, hsize⟩ := hfacts
  obtain ⟨m, hm, hmcode⟩ := Option.map_eq_some_iff.mp hcode.symm
  have hmade : (compile ⟨LookupCall.program, {}, .internAll .empty ["f"], StubBody.fallbacks⟩ Linker.pool ⟨100, 0⟩).1 =
      .ok m :=
    Script.compile_of_compiling hm
  have hstart := Script.ok_of_toOption hc₀
  have hleads := Config.leads_of_after? hafter
  have hp : Program.ofCode "f" LookupCall.code 0 1 #["f"] = .ok LookupCall.program := rfl
  exact ⟨m, c₀, c, hmade, hstart, hleads, hmcode.symm, hpc, hsize, counted_heights_are_real hp (by decide) hmade
    (LookupCall.scripts_baseline Unit) (LookupCall.baseline Unit) hstart hleads hmcode.symm⟩

end Compilation
end BaselineTier
