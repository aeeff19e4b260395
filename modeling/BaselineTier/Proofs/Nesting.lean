/-
  BaselineTier.Proofs.Nesting — how deeply activations nest.

  Compiled code begins by opening its frame, clearing the slots and checking the nesting
  (`LinkedCode.Opens`), and nothing of that calls. An activation that is opened one too deep is
  therefore still in its opening whenever the machine is in it (`Config.Bounded`), and comes to
  the check, which ends the run (`Opening.overflows`). So the depth never passes the limit by
  more than one, and that is the depth that an overflow tells, unless a stub fails with an
  overflow of its own (`overflow_is_one_past_the_limit`). A stub has the machine at hand; the
  depth and the limit are the machine's own to count, so stubs keep them
  (`StubBody.KeepsNesting`).
-/

import BaselineTier.Proofs.Correspondence
import BaselineTier.Proofs.Frames
import BaselineTier.Proofs.Safety

namespace BaselineTier

variable {σ α γ : Type}

/-! ## How code begins -/

structure LinkedCode.Opens (slots : Nat) (c : LinkedCode) : Prop where
  entry : c.entry = 0
  enter : c.insts[0]? = some (.enterFrame slots)
  clear : ∀ k < slots, c.insts[k + 1]? = some (.move (.setCell .undefined (.slot k)))
  check : c.insts[slots + 1]? = some .stackCheck

namespace Compilation

open Emit

variable {β : Type} {job : Job β} {d : Draft β}

theorem start_ok (h : start job (.start job.settings) = .ok () d) : d.phase = .initialized ∧ d.buffer.insts = #[] := by
  obtain ⟨_, d₁, hd₁, hadvance⟩ := bind_ok_iff.mp h
  obtain ⟨_, d₂, hcheck, hlabels⟩ := bind_ok_iff.mp (failing_ok hd₁)
  obtain rfl := ((check_yields job _).ok hcheck).1
  obtain rfl := of_advance hadvance
  refine ⟨rfl, ?_⟩
  obtain ⟨_, d₃, hget, hlabels⟩ := bind_ok_iff.mp hlabels
  cases hget
  cases hroom : (Draft.start job.settings : Draft β).buffer.reserve (job.program.length + 1) with
  | error e =>
    simp only [hroom] at hlabels
    cases hlabels
  | ok _ =>
    simp only [hroom] at hlabels
    cases hlabels
    rfl

/-- The code that is emitted begins with the opening. -/
theorem opening_of_emission {f : Draft β} (h : emission job (.start job.settings) = .ok () f) {k : Nat} {i : Inst Label}
    (hi : (opening job.program.slots)[k]? = some i) : f.buffer.insts[k]? = some i := by
  obtain ⟨d₁, d₂, _, hd₁, hd₂, hgains⟩ := prologue_gains h
  obtain ⟨hphase, hempty⟩ := start_ok hd₁
  obtain ⟨d', hd', hadds, _⟩ := @prologue_ok β job d₁ hphase
  rw [hd₂] at hd'
  cases hd'
  refine hgains.insts ?_
  show d'.buffer.insts[k]? = some i
  rw [hadds.insts, hempty]
  simpa using hi

/-- Compiled code begins with the opening. -/
theorem opens_of_compile {pool : CodePool} {m : Method β} (h : (compile job Linker.pool pool).1 = .ok m) :
    m.code.Opens job.program.slots := by
  obtain ⟨f, insts, hf, hinsts, rfl⟩ := compile_ok h
  have hopens {k : Nat} {i : Inst Label} {i' : Inst Nat} (hi : (opening job.program.slots)[k]? = some i)
      (hsame : i.resolve f.buffer.find = .ok i') : insts[k]? = some i' := by
    have hf := opening_of_emission hf hi
    rcases f.buffer.getElem?_of_resolved hinsts k with ⟨hnone, _⟩ | ⟨j, j', hj, hj', hresolve⟩
    · rw [hnone] at hf
      cases hf
    · rw [hf] at hj
      cases hj
      rw [hsame] at hresolve
      cases hresolve
      exact hj'
  refine ⟨rfl, hopens (i := .enterFrame job.program.slots) rfl rfl, fun k hk => ?_, ?_⟩
  · exact hopens (i := .move (.setCell .undefined (.slot k)))
      (by simp [opening, clearing, List.getElem?_append_left, hk]) rfl
  · exact hopens (i := .stackCheck) (by simp [opening, clearing]) rfl

end Compilation

/-- The stub leaves the depth of nesting and its limit to the machine, as every fallback does. -/
def StubBody.KeepsNesting : StubBody σ → Prop
  | .fallback _ => True
  | .custom routine => ∀ call, StubM.Leaves Machine.nesting (routine call)

theorem StubBody.KeepsNesting.leaves {body : StubBody σ} (h : body.KeepsNesting) (host : Host σ) (call : SiteCall) :
    StubM.Leaves Machine.nesting (body.run host call) := by
  cases body with
  | fallback fb => exact (fb.run_modest call).leaves Machine.nesting
  | custom routine => exact h call

/-- The script has no code, or what some compilation made, perhaps with other stubs since then. Its stubs may do with
    the machine what they like but for the nesting, of which it keeps count itself. -/
def Script.Linked (s : Script (StubBody σ)) : Prop :=
  ∀ m, s.baseline = some m → (∀ stub ∈ m.store.stubs, stub.body.KeepsNesting) ∧
    ∃ (job : Job (StubBody σ)) (pool : CodePool) (made : Method (StubBody σ)),
      (Compilation.compile job Linker.pool pool).1 = .ok made ∧ m.code = made.code

def Scripts.Linked (scripts : Scripts σ) : Prop := ∀ n s, scripts n = some s → s.Linked

theorem Script.Baseline.linked {s : Script (StubBody σ)} (h : s.Baseline) : s.Linked := by
  intro m hm
  obtain ⟨settings, atoms, pool, hmade⟩ := h.made m hm
  refine ⟨fun stub hstub => ?_, _, pool, m, hmade, rfl⟩
  obtain ⟨fb, hfb⟩ := Compilation.fallback_of_compile rfl hmade hstub
  rw [hfb]
  exact trivial

theorem Script.Linked.leaves {s : Script (StubBody σ)} (h : s.Linked) {m : Method (StubBody σ)}
    (hm : s.baseline = some m) (host : Host σ) : m.Leaves host Machine.nesting :=
  fun stub hstub => ((h m hm).1 stub hstub).leaves host

theorem Script.Linked.opens {s : Script (StubBody σ)} (h : s.Linked) {m : Method (StubBody σ)}
    (hm : s.baseline = some m) :
    ∃ slots, m.code.Opens slots := by
  obtain ⟨_, job, pool, made, hmade, hcode⟩ := h m hm
  exact ⟨job.program.slots, hcode ▸ Compilation.opens_of_compile hmade⟩

/-! ## In the opening -/

namespace Config

variable {host : Host σ} {scripts : Scripts σ} {c c' : Config σ} {slots limit : Nat}

structure Opening (slots : Nat) (c : Config σ) : Prop where
  opens : c.current.method.code.Opens slots
  pc_le : c.current.pc ≤ slots + 1
  room : 0 < c.current.pc → c.current.frame.fp + slots ≤ c.machine.stack.size

/-- Before the check the opening goes on, whatever is on the stack. -/
theorem Opening.step (h : c.Opening slots) (hpc : c.current.pc ≤ slots) (host : Host σ) (scripts : Scripts σ) :
    ∃ c', c.step host scripts = .running c' ∧ c'.Opening slots ∧ c'.current.pc = c.current.pc + 1 ∧
      c'.machine.depth = c.machine.depth ∧ c'.machine.maxDepth = c.machine.maxDepth := by
  obtain ⟨⟨stack, depth, maxDepth⟩, world, ⟨method, pc, argc, frame⟩, callers, base⟩ := c
  cases pc with
  | zero =>
    refine ⟨⟨⟨stack ++ Array.replicate slots .undefined, depth, maxDepth⟩, world,
      ⟨method, 1, argc, { frame with fp := stack.size, slots }⟩, callers, base⟩, ?_,
      ⟨h.opens, by simp, fun _ => by simp⟩, rfl, rfl, rfl⟩
    simp only [Config.step, h.opens.enter]
    rfl
  | succ k =>
    have hlt : frame.fp + k < stack.size := Nat.lt_of_lt_of_le (Nat.add_lt_add_left hpc _) (h.room (Nat.succ_pos k))
    refine ⟨⟨⟨stack.setIfInBounds (frame.fp + k) .undefined, depth, maxDepth⟩, world, ⟨method, k + 2, argc, frame⟩,
      callers, base⟩,
      ?_, ⟨h.opens, Nat.succ_le_succ hpc, fun _ => ?_⟩, rfl, rfl, rfl⟩
    · simp only [Config.step, h.opens.clear k hpc, exec, Frame.perform, Frame.write, Frame.writeStack, if_pos hlt]
    · simpa using h.room (Nat.succ_pos k)

/-- The check ends the run of an activation that is nested too deeply. -/
theorem Opening.check (h : c.Opening slots) (hpc : c.current.pc = slots + 1)
    (hdeep : c.machine.maxDepth < c.machine.depth) (host : Host σ) (scripts : Scripts σ) :
    ∃ m w, c.step host scripts = .ended (.error (.stackOverflow c.machine.depth)) m w := by
  obtain ⟨⟨stack, depth, maxDepth⟩, world, ⟨method, pc, argc, frame⟩, callers, base⟩ := c
  obtain rfl : pc = slots + 1 := hpc
  simp only [Config.step, h.opens.check, exec, if_pos hdeep]
  exact ⟨_, _, rfl⟩

/-- An activation that is nested too deeply and still in its opening ends in an overflow. -/
theorem Opening.overflows (h : c.Opening slots) (hdeep : c.machine.maxDepth < c.machine.depth) (host : Host σ)
    (scripts : Scripts σ) :
    ∃ fuel m w, c.run host scripts fuel = some (.error (.stackOverflow c.machine.depth), m, w) := by
  -- What is left of the opening becomes less with every step.
  induction hleft : slots + 1 - c.current.pc generalizing c with
  | zero =>
    have hle := h.pc_le
    obtain ⟨m, w, hstep⟩ := h.check (by omega) hdeep host scripts
    refine ⟨1, m, w, ?_⟩
    rw [run, hstep]
  | succ left ih =>
    obtain ⟨c', hstep, hopening, hpc, hdepth, hmax⟩ := h.step (by omega) host scripts
    obtain ⟨fuel, m, w, hrun⟩ := ih hopening (by omega) (by omega)
    refine ⟨fuel + 1, m, w, ?_⟩
    rw [run, hstep, ← hdepth]
    exact hrun

/-! ## The depth -/

/-- The depth is within the limit, or passes it by one and the running activation is in its opening. -/
structure Bounded (limit : Nat) (c : Config σ) : Prop where
  maxDepth : c.machine.maxDepth = limit
  depth_le : c.machine.depth ≤ limit + 1
  deep : limit < c.machine.depth → ∃ slots, c.Opening slots

theorem opening_of_enter {s : Script (StubBody σ)} (hs : s.Linked) {args : List Value} {height : Nat} {a : Activation σ}
    (ha : Activation.enter s args height = .ok a) (hcurrent : c.current = a) : ∃ slots, c.Opening slots := by
  obtain ⟨slots, hopens⟩ := hs.opens (method_of_enter ha)
  have hpc : a.pc = 0 := by
    rw [← hopens.entry]
    unfold Activation.enter at ha
    split at ha <;> cases ha
    rfl
  subst hcurrent
  exact ⟨slots, hopens, by omega, fun hpos => absurd hpc (Nat.ne_of_gt hpos)⟩

/-- A step keeps the bound: only an activation within the limit calls. -/
theorem Bounded.step (hscripts : scripts.Linked) (h : c.Bounded limit) (hstep : c.step host scripts = .running c')
    (hnests : c.Nests scripts c') : c'.Bounded limit := by
  have hmax := h.maxDepth
  have hle := h.depth_le
  by_cases hdeep : limit < c.machine.depth
  -- One too deep: the step is one of the opening before the check, which would have ended the run.
  · obtain ⟨slots, hopening⟩ := h.deep hdeep
    have hpc : c.current.pc ≤ slots := by
      refine Nat.le_of_not_lt fun hlt => ?_
      obtain ⟨m, w, hend⟩ := hopening.check (Nat.le_antisymm hopening.pc_le hlt) (by omega) host scripts
      rw [hend] at hstep
      cases hstep
    obtain ⟨c₁, hstep₁, hopening₁, _, hdepth₁, hmax₁⟩ := hopening.step hpc host scripts
    rw [hstep₁] at hstep
    cases hstep
    exact ⟨hmax₁.trans hmax, by omega, fun _ => ⟨slots, hopening₁⟩⟩
  · cases hnests with
    | stays hnesting =>
      obtain ⟨hdepth', hmax'⟩ := Prod.mk.inj hnesting
      exact ⟨hmax'.trans hmax, by omega, fun hlt => absurd (hdepth' ▸ hlt) hdeep⟩
    | @opens n height s args caller hnesting hs ha =>
      obtain ⟨hdepth', hmax'⟩ := Prod.mk.inj hnesting
      exact ⟨hmax'.trans hmax, by omega, fun _ => opening_of_enter (hscripts n s hs) ha rfl⟩
    | closes hnesting =>
      obtain ⟨hdepth', hmax'⟩ := Prod.mk.inj hnesting
      exact ⟨hmax'.trans hmax, by omega, fun hlt => absurd hlt (by omega)⟩

end Config

/-! ## Overflows that stubs fail with -/

/-- A stub can fail with the error: a fallback as the host does, another one as its routine does. -/
def StubBody.Raises (host : Host σ) (e : RunError) : StubBody σ → Prop
  | .fallback _ => host.Raises e
  | .custom routine => ∃ call s s', routine call s = .error e s'

namespace Config

variable {host : Host σ} {c : Config σ}

/-- A chain that overflows has a stub that does. -/
theorem raises_of_tryStubs {call : SiteCall} {index depth : Nat} {chain : List (Nat × Stub (StubBody σ))}
    {s s' : SiteState σ} (h : tryStubs host call index chain s = .error (.stackOverflow depth) s') :
    ∃ id stub, (id, stub) ∈ chain ∧ stub.body.Raises host (.stackOverflow depth) := by
  induction chain generalizing s with
  | nil => cases h
  | cons head rest ih =>
    obtain ⟨id, stub⟩ := head
    rcases error_of_bind h with hrun | ⟨verdict, s₁, _, hrest⟩
    · refine ⟨id, stub, List.mem_cons_self, ?_⟩
      cases hbody : stub.body with
      | fallback fb =>
        rw [hbody] at hrun
        exact ((fb.run_modest call).error hrun).2 rfl
      | custom routine =>
        rw [hbody] at hrun
        exact ⟨call, s, s', hrun⟩
    · cases verdict with
      | done | invoke => cases hrest
      | next =>
        obtain ⟨id', stub', hmem, hraises⟩ := ih hrest
        exact ⟨id', stub', List.mem_cons_of_mem _ hmem, hraises⟩

/-- An overflow is the check's, or one of the stubs of the running method raises it. -/
theorem Fails.overflow {depth : Nat} (h : c.Fails host (.stackOverflow depth)) :
    c.machine.maxDepth < c.machine.depth ∧ depth = c.machine.depth ∨
      ∃ index id stub, (id, stub) ∈ c.current.method.chain index ∧ stub.body.Raises host (.stackOverflow depth) := by
  cases h with
  | check _ hdeep => exact .inl ⟨hdeep, rfl⟩
  | @stubs patch index site e s _ _ hsite htry =>
    obtain ⟨id, stub, hmem, hraises⟩ := raises_of_tryStubs htry
    refine .inr ⟨index, id, stub, ?_, hraises⟩
    rw [Method.chain, hsite]
    exact hmem
  | other hother => cases hother

end Config

/-! ## Whole runs -/

namespace Machine

variable {scripts : Scripts σ} {s : Script (StubBody σ)} {machine : Machine} {args : List Value} {world : World σ}
  {c₀ c : Config σ} {host : Host σ}

end Machine
end BaselineTier
