/-
  BaselineTier.Proofs.Frames — what a run leaves of the machine's stack.

  Each activation has a base, the height of the stack where it was opened. What lies below it is
  not touched while the activation runs (`Frame.Shifts.below`, `Config.Poised.step_below`), nor
  by what it calls, whose bases are higher. A call that returns therefore gives its caller back
  the machine as it was (`Inside.returned`), and so does a whole run, whether it ends with a
  value or with an error that closes every activation at once (`execution_leaves_no_trace`).
-/

import BaselineTier.Proofs.Heights

namespace BaselineTier

variable {σ : Type}

/-! ## What lies below a height -/

def ValueStack.SameBelow (height : Nat) (stack stack' : ValueStack) : Prop := ∀ k < height, stack'[k]? = stack[k]?

namespace ValueStack.SameBelow

variable {height : Nat} {stack stack' stack'' : ValueStack}

theorem refl (height : Nat) (stack : ValueStack) : SameBelow height stack stack := fun _ _ => rfl

theorem trans (h : SameBelow height stack stack') (h' : SameBelow height stack' stack'') :
    SameBelow height stack stack'' :=
  fun k hk => (h' k hk).trans (h k hk)

theorem mono (h : SameBelow height stack stack') {lower : Nat} (hle : lower ≤ height) : SameBelow lower stack stack' :=
  fun k hk => h k (Nat.lt_of_lt_of_le hk hle)

theorem push (v : Value) (hle : height ≤ stack.size) : SameBelow height stack (stack.push v) := by
  intro k hk
  rw [Array.getElem?_push, if_neg (by omega)]

theorem append (vs : Array Value) (hle : height ≤ stack.size) : SameBelow height stack (stack ++ vs) := by
  intro k hk
  rw [Array.getElem?_append_left (by omega)]

theorem take {count : Nat} (hle : height ≤ count) : SameBelow height stack (stack.take count) := by
  intro k hk
  simp only [Array.take_eq_extract, Array.getElem?_extract]
  by_cases hlt : k < stack.size
  · rw [if_pos (by omega), Nat.zero_add]
  · rw [if_neg (by omega), Array.getElem?_eq_none (by omega)]

theorem pop (hlt : height < stack.size) : SameBelow height stack stack.pop := by
  intro k hk
  rw [Array.getElem?_pop, if_pos (by omega)]

theorem set {index : Nat} (v : Value) (hle : height ≤ index) :
    SameBelow height stack (stack.setIfInBounds index v) := by
  intro k hk
  rw [Array.getElem?_setIfInBounds_ne (by omega)]

theorem eq (h : SameBelow height stack stack') (hs : stack.size = height) (hs' : stack'.size = height) :
    stack' = stack := by
  refine Array.ext_getElem? fun k => ?_
  by_cases hk : k < height
  · exact h k hk
  · rw [Array.getElem?_eq_none (by omega), Array.getElem?_eq_none (by omega)]

end ValueStack.SameBelow

open ValueStack

namespace Frame

variable {f : Frame} {stack stack' : ValueStack}

/-- A move touches nothing below its frame. -/
theorem Shifts.below {m : Move} (h : f.Shifts stack m stack') (hfp : f.fp ≤ stack.size) :
    SameBelow f.fp stack stack' := by
  have hfloor : f.fp ≤ f.floor := Nat.le_add_right _ _
  cases h with
  | keep => exact .refl _ _
  | set v _ hle => exact .set v hle
  | push v => exact .push v hfp
  | pop hlt => exact .pop (Nat.lt_of_le_of_lt hfloor hlt)
  | free hle => exact .take (by omega)

end Frame

theorem Inst.Runs.below {i : Inst Nat} {pc pc' : Nat} {f f' : Frame} {stack stack' : ValueStack}
    (h : i.Runs pc f stack pc' f' stack') (hfp : f.fp ≤ stack.size) : SameBelow f.fp stack stack' := by
  cases h with
  | move hm => exact (Frame.perform_shifts hm).2.2.below hfp
  | enter => exact .append _ hfp
  | leave => exact .take (Nat.le_refl _)
  | plain => exact .refl _ _
  | branch => exact .refl _ _

/-! ## Bases -/

theorem Activation.Poised.fp_le {a : Activation σ} {size : Nat} (h : a.Poised size) : a.frame.fp ≤ size := by
  obtain ⟨⟨slots, level, out, hc⟩, hkeeps⟩ := h
  have hkeep := hkeeps slots level out hc
  have hrange := hkeep.range
  by_cases hzero : a.pc = 0
  · exact Nat.le_of_eq (hkeep.opens hzero).symm
  by_cases hout : a.pc = out + 1
  · exact Nat.le_of_eq (hkeep.leaves hout).symm
  · have hsize := (hkeep.inside (Nat.pos_of_ne_zero hzero) (by omega)).2
    omega

theorem Activation.fp_of_enter {s : Script (StubBody σ)} {args : List Value} {height : Nat} {a : Activation σ}
    (h : enter s args height = .ok a) : a.frame.fp = height := by
  unfold enter at h
  split at h <;> cases h
  rfl

namespace Config

variable {host : Host σ} {scripts : Scripts σ} {c c' : Config σ}

def bases (c : Config σ) : List Nat := (c.current :: c.callers).map fun a => a.frame.fp

theorem Waits.fp_le {callers : List (Activation σ)} {size : Nat} (h : Waits callers size) {a : Activation σ}
    (ha : a ∈ callers) :
    a.frame.fp ≤ size := by
  induction callers generalizing size with
  | nil => cases ha
  | cons b rest ih =>
    have hb := h.1.fp_le
    rcases List.mem_cons.mp ha with rfl | ha
    · exact hb
    · exact Nat.le_trans (ih h.2 ha) hb

/-- The running activation has the highest base. -/
theorem Poised.base_le (h : c.Poised) {base : Nat} (hbase : base ∈ c.bases) : base ≤ c.current.frame.fp := by
  obtain ⟨a, ha, rfl⟩ := List.mem_map.mp hbase
  rcases List.mem_cons.mp ha with rfl | ha
  · exact Nat.le_refl _
  · exact h.callers.fp_le ha

/-- A step touches nothing below the base of an activation. -/
theorem Poised.step_below (h : c.Poised) (hs : c.Steps scripts c') {base : Nat} (hbase : base ∈ c.bases) :
    SameBelow base c.machine.stack c'.machine.stack := by
  cases hs with
  | runs _ hr => exact (hr.below h.current.fp_le).mono (h.base_le hbase)
  | calls => exact .refl _ _
  | returns => exact .refl _ _

/-- What a step does to the bases: nothing, or a call opens one at the height of the stack, or a return closes one. -/
theorem Poised.step_bases (h : c.Poised) (hs : c.Steps scripts c') :
    c'.bases = c.bases ∨ c'.bases = c.machine.stack.size :: c.bases ∨ ∃ base, c.bases = base :: c'.bases := by
  obtain ⟨⟨slots, level, out, hc⟩, hkeeps⟩ := h.current
  cases hs with
  | @runs i pc argc f stack w hi hr =>
    obtain ⟨_, hfp⟩ := (hkeeps slots level out hc).runs hc hi hr argc
    refine .inl ?_
    simp only [bases, List.map_cons, hfp]
  | @calls patch n f w s args a _ hfp _ _ ha =>
    refine .inr (.inl ?_)
    simp only [bases, List.map_cons, hfp, Activation.fp_of_enter ha]
  | @returns caller callers v _ hcallers =>
    refine .inr (.inr ⟨c.current.frame.fp, ?_⟩)
    simp only [bases, List.map_cons, hcallers]
    rfl

/-! ## Inside an activation -/

/-- The machine works for an activation that was opened on a machine `m`, above those that waited then: for itself, or
    for what it has called. -/
structure Inside (outer : List (Activation σ)) (m : Machine) (c : Config σ) : Prop where
  callers : ∃ inner, c.callers = inner ++ outer ∧ c.machine.depth = m.depth + inner.length + 1 ∧
    c.bases[inner.length]? = some m.stack.size
  below : SameBelow m.stack.size m.stack c.machine.stack
  maxDepth : c.machine.maxDepth = m.maxDepth

variable {outer : List (Activation σ)} {m : Machine}

theorem Inside.base_mem (h : c.Inside outer m) : m.stack.size ∈ c.bases := by
  obtain ⟨inner, _, _, hbase⟩ := h.callers
  exact List.mem_of_getElem? hbase

theorem Inside.length_le (h : c.Inside outer m) : outer.length ≤ c.callers.length := by
  obtain ⟨inner, hcallers, _⟩ := h.callers
  rw [hcallers, List.length_append]
  omega

/-- The activation has left its frame, so the stack is what it was. -/
theorem Inside.stack_eq (h : c.Inside outer m) (hp : c.Poised)
    (hi : c.current.method.code.insts[c.current.pc]? = some .ret) (hlen : c.callers.length = outer.length) :
    c.machine.stack = m.stack ∧ c.machine.depth = m.depth + 1 := by
  obtain ⟨inner, hcallers, hdepth, hbase⟩ := h.callers
  obtain rfl : inner = [] := by
    rw [hcallers, List.length_append] at hlen
    exact List.eq_nil_of_length_eq_zero (by omega)
  obtain ⟨⟨slots, level, out, hc⟩, hkeeps⟩ := hp.current
  have hkeep := hkeeps slots level out hc
  have hsize := hkeep.leaves (hc.ret_only hi hkeep.range)
  have hfp : c.current.frame.fp = m.stack.size := Option.some.inj hbase
  exact ⟨h.below.eq rfl (hsize.trans hfp), hdepth⟩

theorem eq_machine {m m' : Machine} (hstack : m.stack = m'.stack) (hdepth : m.depth = m'.depth)
    (hmax : m.maxDepth = m'.maxDepth) :
    m = m' := by
  cases m
  cases m'
  cases hstack
  cases hdepth
  cases hmax
  rfl

/-- A step stays inside the activation, or closes it and gives the machine back. -/
theorem Inside.step (h : c.Inside outer m) (hp : c.Poised) (hs : c.Steps scripts c') :
    c'.Inside outer m ∨ c'.machine = m ∧ c'.callers.length + 1 = outer.length := by
  have hbelow := h.below.trans (hp.step_below hs h.base_mem)
  obtain ⟨⟨slots, level, out, hc⟩, hkeeps⟩ := hp.current
  obtain ⟨inner, hcallers, hdepth, hbase⟩ := h.callers
  cases hs with
  | @runs i pc argc f stack w hi hr =>
    obtain ⟨_, hfp⟩ := (hkeeps slots level out hc).runs hc hi hr argc
    refine .inl ⟨⟨inner, hcallers, hdepth, ?_⟩, hbelow, h.maxDepth⟩
    rw [← hbase]
    simp only [bases, List.map_cons, hfp]
  | @calls patch n f w s args a hi hfp hslots hs ha =>
    refine .inl ⟨⟨{ c.current with pc := c.current.pc + 1, frame := f } :: inner, ?_, ?_, ?_⟩, hbelow, h.maxDepth⟩
    · rw [hcallers]
      rfl
    · simp only [List.length_cons]
      omega
    · rw [← hbase]
      simp only [bases, List.map_cons, hfp, List.length_cons, List.getElem?_cons_succ]
  | @returns caller callers v hi hcaller =>
    cases inner with
    | nil =>
      have hlen : c.callers.length = outer.length := by rw [hcallers]; rfl
      obtain ⟨hstack, hdepth'⟩ := h.stack_eq hp hi hlen
      refine .inr ⟨eq_machine hstack ?_ h.maxDepth, ?_⟩
      · show c.machine.depth - 1 = m.depth
        omega
      · rw [← hlen, hcaller]
        rfl
    | cons a inner =>
      rw [hcaller] at hcallers
      cases hcallers
      refine .inl ⟨⟨inner, rfl, ?_, ?_⟩, hbelow, h.maxDepth⟩
      · simp only [List.length_cons] at hdepth
        show c.machine.depth - 1 = _
        omega
      · rw [← hbase]
        simp only [bases, List.map_cons, hcaller, List.length_cons, List.getElem?_cons_succ]
        rfl

/-- The first configuration in which the activation that runs in another one has returned. -/
def Returns (host : Host σ) (scripts : Scripts σ) (c c' : Config σ) : Prop :=
  ∃ n, After host scripts n c c' ∧ c'.callers.length < c.callers.length ∧
    ∀ k < n, ∀ d, After host scripts k c d → c.callers.length ≤ d.callers.length

/-- Once an activation has returned, the machine is the one that it was opened on. -/
theorem Inside.returned {n : Nat} (hscripts : scripts.Levelled) (hspares : scripts.Spares host) (h : c.Inside outer m)
    (hp : c.Poised) (hc : c.Spares host) (hafter : After host scripts n c c') (hlt : c'.callers.length < outer.length)
    (hwaits : ∀ k < n, ∀ d, After host scripts k c d → outer.length ≤ d.callers.length) : c'.machine = m := by
  induction n generalizing c with
  | zero =>
    cases hafter
    exact absurd h.length_le (Nat.not_le_of_lt hlt)
  | succ n ih =>
    obtain ⟨c₁, hstep, hrest⟩ := hafter
    have hsteps := steps_of_step hc.1 hstep
    rcases h.step hp hsteps with hinside | ⟨hmachine, hlen⟩
    · refine ih hinside (hp.step hscripts hsteps) (hc.step hspares hsteps) hrest fun k hk d hd => ?_
      exact hwaits (k + 1) (Nat.succ_lt_succ hk) d ⟨c₁, hstep, hd⟩
    · cases n with
      | zero =>
        cases hrest
        exact hmachine
      | succ n =>
        have := hwaits 1 (by omega) c₁ (After.one hstep)
        omega

/-- A call opens an activation on the machine as it is. -/
theorem inside_of_call (hs : c.Steps scripts c') (hlen : c.callers.length < c'.callers.length) :
    c'.Inside c'.callers c.machine := by
  cases hs with
  | runs => exact absurd hlen (Nat.lt_irrefl _)
  | @calls patch n f w s args a hi hfp hslots hs ha =>
    exact ⟨⟨[], rfl, rfl, congrArg some (Activation.fp_of_enter ha)⟩, .refl _ _, rfl⟩
  | @returns caller callers v hi hcallers =>
    have hlen : c.callers.length < callers.length := hlen
    rw [hcallers, List.length_cons] at hlen
    omega

end Config

/-! ## How a run ends -/

namespace Config

/-- Why a step fails: the stack check, the stubs of a site, or something else, which is no overflow. -/
inductive Fails (host : Host σ) (c : Config σ) : RunError → Prop
  | check : c.current.method.code.insts[c.current.pc]? = some .stackCheck → c.machine.maxDepth < c.machine.depth →
      Fails host c (.stackOverflow c.machine.depth)
  | stubs {patch index : Nat} {site : Site} {e : RunError} {s : SiteState σ} :
      c.current.method.code.insts[c.current.pc]? = some (.callSite patch) →
      c.current.method.code.slot? patch = some index →
      c.current.method.site? index = some site →
      tryStubs host ⟨site, c.current.argc⟩ index (c.current.method.store.chain site.head)
        ⟨c.current.frame.registers, c.current.frame.scratch, c.machine, c.world⟩ = .error e s →
      Fails host c e
  | other {e : RunError} : e.isOverflow = false → Fails host c e

/-- How a step ends a run: the outermost activation returns, or every activation is closed for an error, on the machine
    as it was unless a stub has done something to it. -/
inductive Closes (host : Host σ) (c : Config σ) : Except RunError Value → Machine → Prop
  | returned {v : Value} : c.current.method.code.insts[c.current.pc]? = some .ret → c.callers = [] →
      Closes host c (.ok v) { c.machine with depth := c.machine.depth - 1 }
  | failed {e : RunError} {machine : Machine} : c.Fails host e →
      (c.current.method.Leaves host id → machine = c.machine) →
      Closes host c (.error e)
        { machine with stack := machine.stack.take c.base, depth := machine.depth - (c.callers.length + 1) }

end Config

theorem Frame.perform_error {f : Frame} {stack : ValueStack} {m : Move} {e : RunError}
    (h : f.perform stack m = .error e) :
    e.isOverflow = false := by
  have hread {a : Address} {e : RunError} (h : f.read stack a = .error e) : e.isOverflow = false := by
    simp only [read] at h
    split at h <;> cases h
    rfl
  have hwrite {a : Address} {v : Value} {e : RunError} (h : f.write stack a v = .error e) : e.isOverflow = false := by
    cases a <;> simp only [write, writeStack] at h
    case slot | stack | arg =>
      split at h <;> cases h
      rfl
    case scratch => cases h
  cases m with
  | copy src dst | setReg v dst | push reg | pushValue v => cases h
  | load src dst | pushFrom src =>
    simp only [perform] at h
    cases hr : f.read stack src with
    | error e' =>
      rw [hr] at h
      cases h
      exact hread hr
    | ok v => rw [hr] at h; cases h
  | store src dst | setCell v dst => exact hwrite h
  | pop dst =>
    simp only [perform] at h
    split at h
    · split at h <;> cases h
      rfl
    · cases h
      rfl
  | free count =>
    simp only [perform, free] at h
    split at h <;> cases h
    rfl

namespace Config

variable {host : Host σ} {scripts : Scripts σ} {c : Config σ} {r : Except RunError Value} {m : Machine} {w : World σ}

theorem closes_of_callSite {patch : Nat} (hi : c.current.method.code.insts[c.current.pc]? = some (.callSite patch))
    (h : callSite host scripts { c with current := { c.current with pc := c.current.pc + 1 } } patch = .ended r m w) :
    c.Closes host r m := by
  unfold callSite at h
  simp only at h
  split at h
  · cases h
    exact .failed (.other rfl) fun _ => rfl
  · rename_i index site hsite
    obtain ⟨index', hslot, hsite⟩ := Option.bind_eq_some_iff.mp hsite
    obtain ⟨site', hsite', heq⟩ := Option.map_eq_some_iff.mp hsite
    cases heq
    have hleaves (hm : c.current.method.Leaves host id) :
        StubM.Leaves id (tryStubs host ⟨site, c.current.argc⟩ index (c.current.method.store.chain site.head)) :=
      tryStubs_leaves (fun p hp => hm p.2 (StubStore.mem_of_mem_chain hp) _) index
    split at h
    · rename_i e s htry
      cases h
      exact .failed (.stubs hi hslot hsite' htry) fun hm => (hleaves hm).error htry
    · rename_i n args s htry
      unfold invoke at h
      split at h
      · cases h
        exact .failed (.other rfl) fun hm => (hleaves hm).ok htry
      · split at h
        · rename_i e henter
          cases h
          refine .failed (.other ?_) fun hm => (hleaves hm).ok htry
          unfold Activation.enter at henter
          split at henter <;> cases henter
          rfl
        · cases h
    · cases h

theorem closes_of_step (h : c.step host scripts = .ended r m w) : c.Closes host r m := by
  unfold step at h
  split at h
  · cases h
    exact .failed (.other rfl) fun _ => rfl
  · rename_i i hi
    cases i with
    | move mv =>
      simp only [exec] at h
      split at h
      · cases h
      · rename_i hm
        cases h
        exact .failed (.other (Frame.perform_error hm)) fun _ => rfl
    | enterFrame | leaveFrame | setArgc | jump | branchNumber => cases h
    | ret =>
      simp only [exec, ret] at h
      split at h
      · rename_i hcallers
        cases h
        exact .returned hi hcallers
      · cases h
    | stackCheck =>
      simp only [exec] at h
      split at h
      · rename_i hdeep
        cases h
        exact .failed (.check hi hdeep) fun _ => rfl
      · cases h
    | negate reg | branch reg condition target =>
      simp only [exec] at h
      split at h
      · cases h
      · rename_i e hb
        cases h
        refine .failed (.other ?_) fun _ => rfl
        unfold Frame.boolean at hb
        split at hb <;> cases hb
        rfl
    | callSite patch => exact closes_of_callSite hi h

/-- However a run of an activation with nothing below ends, the machine is the one that it was opened on. -/
theorem Inside.closed (h : c.Inside [] m) (hp : c.Poised) (hspares : c.Spares host) (hbase : c.base = m.stack.size)
    {m' : Machine} (hc : c.Closes host r m') : m' = m := by
  obtain ⟨inner, hcallers, hdepth, _⟩ := h.callers
  cases hc with
  | returned hi hnone =>
    obtain ⟨hstack, hdepth⟩ := h.stack_eq hp hi (by rw [hnone])
    refine eq_machine hstack ?_ h.maxDepth
    show c.machine.depth - 1 = m.depth
    omega
  | failed _ hmachine =>
    obtain rfl := hmachine hspares.1
    have hle : m.stack.size ≤ c.machine.stack.size := Nat.le_trans (hp.base_le h.base_mem) hp.current.fp_le
    refine eq_machine ?_ ?_ h.maxDepth
    · have hcut : SameBelow m.stack.size m.stack (c.machine.stack.take m.stack.size) :=
        h.below.trans (.take (Nat.le_refl _))
      show c.machine.stack.take c.base = m.stack
      rw [hbase]
      exact hcut.eq rfl (by simp; omega)
    · show c.machine.depth - (c.callers.length + 1) = m.depth
      rw [hcallers, List.append_nil]
      omega

end Config

/-! ## Whole runs -/

namespace Machine

variable {scripts : Scripts σ} {s : Script (StubBody σ)} {machine : Machine} {args : List Value} {world : World σ}
  {c₀ c : Config σ} {host : Host σ}

theorem start_inside (h : machine.start s args world = .ok c₀) :
    c₀.Inside [] machine ∧ c₀.bases = [machine.stack.size] := by
  obtain ⟨a, ha, rfl⟩ := enter_of_start h
  have hheight := Activation.fp_of_enter ha
  refine ⟨⟨⟨[], rfl, rfl, congrArg some hheight⟩, .refl _ _, rfl⟩, ?_⟩
  simp only [Config.bases, List.map_cons, List.map_nil, hheight]

/-- A run stays inside the activation that it began with. -/
theorem inside_of_leads (hscripts : scripts.Baseline) (hs : s.Baseline) (hstart : machine.start s args world = .ok c₀)
    (hleads : Config.Leads host scripts c₀ c) :
    c.Spares host ∧ c.Poised ∧ c.Inside [] machine ∧ c.base = machine.stack.size := by
  have hbase : c₀.base = machine.stack.size := by
    obtain ⟨a, _, rfl⟩ := enter_of_start hstart
    rfl
  refine hleads.keeps (P := fun c => c.Poised ∧ c.Inside [] machine ∧ c.base = machine.stack.size)
    (hscripts.spares host)
    (start_spares hs hstart host) ?_ ⟨start_poised hs hstart, (start_inside hstart).1, hbase⟩
  rintro c c' ⟨hp, hinside, hbase⟩ hsteps
  refine ⟨hp.step hscripts.levelled hsteps, ?_, ?_⟩
  · rcases hinside.step hp hsteps with hinside | ⟨_, hlen⟩
    · exact hinside
    · cases hlen
  · cases hsteps <;> exact hbase

/-- A run of a script leaves no trace on the machine: however it ends, the stack and the depth are what they were. On
    its way nothing below the base of an activation is touched, and a call that returns leaves the machine as the caller
    had it. -/
theorem execution_leaves_no_trace (hscripts : scripts.Baseline) (hs : s.Baseline) (host : Host σ) (machine : Machine)
    (args : List Value) (world : World σ) :
    (∀ fuel r m w, machine.execute host scripts fuel s args world = some (r, m, w) → m = machine) ∧
      ∀ c₀ c, machine.start s args world = .ok c₀ → Config.Leads host scripts c₀ c →
        (c₀.bases = [machine.stack.size] ∧ SameBelow machine.stack.size machine.stack c.machine.stack) ∧
        ∀ c', c.step host scripts = .running c' →
          (c'.bases = c.bases ∨ c'.bases = c.machine.stack.size :: c.bases ∨ ∃ base, c.bases = base :: c'.bases) ∧
          (∀ base ∈ c.bases, SameBelow base c.machine.stack c'.machine.stack) ∧
          (c.callers.length < c'.callers.length → ∀ c'', Config.Returns host scripts c' c'' →
            c''.machine = c.machine) := by
  refine ⟨fun fuel r m w hrun => ?_, fun c₀ c hstart hleads => ?_⟩
  · unfold execute at hrun
    cases hstart : machine.start s args world with
    | error e =>
      rw [hstart] at hrun
      cases hrun
      rfl
    | ok c₀ =>
      rw [hstart] at hrun
      obtain ⟨last, hlast, hend⟩ := Config.run_iff.mp ⟨fuel, hrun⟩
      obtain ⟨hspares, hp, hinside, hbase⟩ := inside_of_leads hscripts hs hstart hlast
      exact hinside.closed hp hspares hbase (Config.closes_of_step hend)
  · obtain ⟨hspares, hp, hinside, _⟩ := inside_of_leads hscripts hs hstart hleads
    refine ⟨⟨(start_inside hstart).2, hinside.below⟩, fun c' hstep => ?_⟩
    have hsteps := Config.steps_of_step hspares.1 hstep
    refine ⟨hp.step_bases hsteps, fun base hbase => hp.step_below hsteps hbase, fun hcall c'' hreturns => ?_⟩
    obtain ⟨n, hafter, hlt, hwaits⟩ := hreturns
    have hopened := Config.inside_of_call hsteps hcall
    exact hopened.returned hscripts.levelled (hscripts.spares host) (hp.step hscripts.levelled hsteps)
      (hspares.step (hscripts.spares host) hsteps) hafter hlt hwaits

/-- A call that is nested too deeply is cut off while the one below it still has its operands on the stack. -/
theorem execution_leaves_no_trace_lookupCall : ∃ (m : Machine) (w : World Unit) (c₀ c : Config Unit),
    execute ⟨#[.null], 1, 2⟩ LookupCall.host (LookupCall.scripts Unit) 100 (LookupCall.script Unit) [.bool true]
      ⟨.internAll .empty ["f"], ()⟩ =
        some (.error (.stackOverflow 3), m, w) ∧ m = ⟨#[.null], 1, 2⟩ ∧
      start ⟨#[.null], 1, 2⟩ (LookupCall.script Unit) [.bool true] ⟨.internAll .empty ["f"], ()⟩ = .ok c₀ ∧
      Config.Leads LookupCall.host (LookupCall.scripts Unit) c₀ c ∧ c.bases = [4, 1] ∧
        SameBelow 1 #[.null] c.machine.stack := by
  have hruns : (execute ⟨#[.null], 1, 2⟩ LookupCall.host (LookupCall.scripts Unit) 100
      (LookupCall.script Unit) [.bool true]
      ⟨.internAll .empty ["f"], ()⟩).map Prod.fst = some (.error (.stackOverflow 3)) := by cbv
  have hcalls : ((start ⟨#[.null], 1, 2⟩ (LookupCall.script Unit) [.bool true]
      ⟨.internAll .empty ["f"], ()⟩).toOption.bind
      (Config.after? LookupCall.host (LookupCall.scripts Unit) 11)).map Config.bases = some [4, 1] := by cbv
  obtain ⟨⟨r, m, w⟩, hrun, rfl⟩ := Option.map_eq_some_iff.mp hruns
  obtain ⟨c, hc, hbases⟩ := Option.map_eq_some_iff.mp hcalls
  obtain ⟨c₀, hc₀, hafter⟩ := Option.bind_eq_some_iff.mp hc
  have hstart := Script.ok_of_toOption hc₀
  have hleads := Config.leads_of_after? hafter
  obtain ⟨hends, hduring⟩ := execution_leaves_no_trace (LookupCall.scripts_baseline Unit) (LookupCall.baseline Unit)
    LookupCall.host
    ⟨#[.null], 1, 2⟩ [.bool true] ⟨.internAll .empty ["f"], ()⟩
  exact ⟨m, w, c₀, c, hrun, hends _ _ _ _ hrun, hstart, hleads, hbases, (hduring c₀ c hstart hleads).1.2⟩

end Machine
end BaselineTier
