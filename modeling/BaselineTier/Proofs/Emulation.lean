/-
  BaselineTier.Proofs.Emulation — what it means that code does what an instruction does.

  An evaluation is mirrored by a view when the picture stands for its operands and slots and
  arguments agree (`Mirrors`). Straight-line code does what an action does (`Draft.Does`) if
  the machine ends with the action's error, or arrives behind the code with a view that
  mirrors what the action leaves (`Config.Ends`). The code of an instruction may also jump,
  call a script or leave (`Outcome`). The one way in which it may differ is a test of a
  register that is taken to hold a Boolean and does not (`Config.Trips`).
-/

import BaselineTier.Interpreter
import BaselineTier.Lowering.Table
import BaselineTier.Proofs.Annotation
import BaselineTier.Proofs.Running

namespace BaselineTier

variable {σ α γ : Type}

/-! ## Runs of the machine -/

namespace Config

def Leads (host : Host σ) (scripts : Scripts σ) (c c' : Config σ) : Prop := ∃ n, After host scripts n c c'

def Advances (host : Host σ) (scripts : Scripts σ) (c c' : Config σ) : Prop := ∃ n, After host scripts (n + 1) c c'

def Trips (c : Config σ) : Prop :=
  ∃ reg, (c.current.frame.registers.get reg).asBool = none ∧
    (c.current.method.code.insts[c.current.pc]? = some (.negate reg) ∨
      ∃ condition target, c.current.method.code.insts[c.current.pc]? = some (.branch reg condition target))

def TripsOver (c : Config σ) (x : Value) : Prop :=
  x.asBool = none ∧ ∃ reg, c.current.frame.registers.get reg = x ∧
    (c.current.method.code.insts[c.current.pc]? = some (.negate reg) ∨
      ∃ condition target, c.current.method.code.insts[c.current.pc]? = some (.branch reg condition target))

variable {host : Host σ} {scripts : Scripts σ} {c c' c'' : Config σ}

theorem TripsOver.trips {x : Value} (h : c.TripsOver x) : c.Trips := by
  obtain ⟨hx, reg, rfl, hinst⟩ := h
  exact ⟨reg, hx, hinst⟩

theorem Trips.exists_over (h : c.Trips) : ∃ x, c.TripsOver x := by
  obtain ⟨reg, hreg, hinst⟩ := h
  exact ⟨_, hreg, reg, rfl, hinst⟩

theorem Leads.refl (c : Config σ) : Leads host scripts c c := ⟨0, rfl⟩

theorem Leads.trans (h : Leads host scripts c c') (h' : Leads host scripts c' c'') : Leads host scripts c c'' := by
  obtain ⟨n, h⟩ := h
  obtain ⟨k, h'⟩ := h'
  exact ⟨n + k, h.trans h'⟩

theorem Leads.advance (h : Leads host scripts c c') (h' : Advances host scripts c' c'') :
    Advances host scripts c c'' := by
  obtain ⟨n, h⟩ := h
  obtain ⟨k, h'⟩ := h'
  exact ⟨n + k, h.trans h'⟩

theorem Leads.advances (h : Leads host scripts c c') (h' : c'.step host scripts = .running c'') :
    Advances host scripts c c'' := by
  obtain ⟨n, h⟩ := h
  exact ⟨n, h.trans (.one h')⟩

theorem Advances.trans (h : Advances host scripts c c') (h' : Leads host scripts c' c'') :
    Advances host scripts c c'' := by
  obtain ⟨n, h⟩ := h
  obtain ⟨k, h'⟩ := h'
  rw [Advances]
  exact ⟨n + k, Nat.add_right_comm n 1 k ▸ h.trans h'⟩

theorem Advances.leads (h : Advances host scripts c c') : Leads host scripts c c' := by
  obtain ⟨n, h⟩ := h
  exact ⟨n + 1, h⟩

theorem Leads.one (h : c.step host scripts = .running c') : Leads host scripts c c' := ⟨1, .one h⟩

/-- A test of something else than a Boolean ends the run. -/
theorem TripsOver.step {x : Value} (h : c.TripsOver x) (host : Host σ) (scripts : Scripts σ) :
    ∃ m, c.step host scripts = .ended (.error (.type (.notBoolean x))) m c.world := by
  obtain ⟨hx, reg, rfl, hinst | ⟨condition, target, hinst⟩⟩ := h
  all_goals
    rw [Config.step, hinst]
    simp only [exec, Frame.boolean, hx]
    exact ⟨_, rfl⟩

theorem Trips.step (h : c.Trips) (host : Host σ) (scripts : Scripts σ) :
    ∃ x m w, c.step host scripts = .ended (.error (.type (.notBoolean x))) m w := by
  obtain ⟨x, hx⟩ := h.exists_over
  obtain ⟨m, hend⟩ := hx.step host scripts
  exact ⟨x, m, _, hend⟩

variable (host scripts c) in
def Balks (x : Value) (w : World σ) : Prop := ∃ last, Leads host scripts c last ∧ last.TripsOver x ∧ last.world = w

variable (host scripts c) in
/-- How code ends that should give a result: it fails as the result does, or it arrives with the result at hand. -/
def Ends (lower : ValueStack) (start : Config σ) (pc : Nat) (Q : α → View → Prop) :
    EStateM.Result RunError (World σ) α → Prop
  | .error err w => ∃ last pc argc v, Leads host scripts start last ∧ ¬last.Trips ∧
      last.step host scripts = (c.place lower pc argc v w).fail err
  | .ok a w => ∃ argc v, Leads host scripts start (c.place lower pc argc v w) ∧ Q a v

variable {lower : ValueStack} {start : Config σ} {pc pc' : Nat} {Q Q' : α → View → Prop}

theorem Ends.after (hl : Leads host scripts start c') {r : EStateM.Result RunError (World σ) α}
    (h : Ends host scripts c lower c' pc Q r) : Ends host scripts c lower start pc Q r := by
  cases r with
  | error err w =>
    obtain ⟨last, pc, argc, v, hlast, hrest⟩ := h
    exact ⟨last, pc, argc, v, hl.trans hlast, hrest⟩
  | ok a w =>
    obtain ⟨argc, v, hlast, hq⟩ := h
    exact ⟨argc, v, hl.trans hlast, hq⟩

/-- Code that follows goes on with the result. -/
theorem Ends.bind {x : Ask σ α} {k : α → Ask σ γ} {w : World σ} {Q' : γ → View → Prop}
    (h : Ends host scripts c lower start pc Q (x w))
    (hk : ∀ {a v argc w'}, Q a v → Ends host scripts c lower (c.place lower pc argc v w') pc' Q' (k a w')) :
    Ends host scripts c lower start pc' Q' ((x >>= k) w) := by
  show Ends host scripts c lower start pc' Q' (EStateM.bind x k w)
  rw [EStateM.bind]
  cases hx : x w with
  | error err w' => rw [hx] at h; exact h
  | ok a w' =>
    rw [hx] at h
    obtain ⟨argc, v, hl, hq⟩ := h
    exact (hk hq).after hl

end Config

/-! ## Runs of pieces of code -/

/-- The fallback carries out an operation, and leaves these registers. -/
structure Fallback.Performs (fb : Fallback) (host : Host σ) (call : SiteCall) (s : SiteState σ) (x : Ask σ α)
    (rs : α → Registers) : Prop where
  ok : ∀ {y : α} {w : World σ}, x s.world = .ok y w →
    fb.run host call s = .ok .done ⟨rs y, s.scratch, s.machine, w⟩
  error : ∀ {err : RunError} {w : World σ}, x s.world = .error err w →
    fb.run host call s = .error err ⟨s.registers, s.scratch, s.machine, w⟩

namespace Draft

variable {d d' f : Draft (StubBody σ)} {host : Host σ} {scripts : Scripts σ} {c : Config σ} {lower : ValueStack}
  {argc : Nat} {v v' : View} {w : World σ}

/-- Moves that the view can carry out lead behind them. -/
theorem Adds.leads {ms : List Move} (h : d.Adds (ms.map .move) d') (hg : d'.Grows f) (hm : f.Installed c.current.method)
    (hrun : v.performAll ms = some v') :
    Config.Leads host scripts (c.place lower d.buffer.offset argc v w) (c.place lower d'.buffer.offset argc v' w) := by
  refine ⟨ms.length, ?_⟩
  rw [h.offset, List.length_map]
  exact Config.After.moves (fun hk => hm.inst hg (h.inst (by rw [List.getElem?_map, hk]; rfl)) fun _ => rfl) hrun

/-- The site's call is the next instruction. -/
theorem Sited.inst {kind : SiteKind} {body : StubBody σ} {m : Method (StubBody σ)} (h : d.Sited kind body d')
    (hg : d'.Grows f) (hm : f.Installed m) :
    m.code.insts[d.buffer.offset]? = some (.callSite d.buffer.patches.size) := by
  refine hm.inst hg (i := .callSite d.buffer.patches.size) ?_ fun _ => rfl
  rw [h.insts, CodeBuffer.offset]
  simp

theorem Sited.not_trips {kind : SiteKind} {body : StubBody σ} (h : d.Sited kind body d') (hg : d'.Grows f)
    (hm : f.Installed c.current.method) : ¬(c.place lower d.buffer.offset argc v w).Trips := by
  rintro ⟨reg, _, hinst | ⟨condition, target, hinst⟩⟩
  all_goals
    have hsite := (h.inst hg hm).symm.trans hinst
    cases hsite

/-- A call through a site ends as the operation of its fallback, with the registers that the fallback leaves. -/
theorem Sited.ends {kind : SiteKind} {fb : Fallback} {x : Ask σ α} {rs : α → Registers}
    (h : d.Sited kind (.fallback fb) d') (hg : d'.Grows f) (hm : f.Installed c.current.method)
    (hrun : ∀ site : Site, site.kind = kind → fb.Performs host ⟨site, argc⟩
      ⟨v.registers, v.scratch, { c.machine with stack := v.stack lower }, w⟩ x rs) :
    Config.Ends host scripts c lower (c.place lower d.buffer.offset argc v w) d'.buffer.offset
      (fun y v' => v' = { v with registers := rs y }) (x w) := by
  obtain ⟨site, hkind, hstep⟩ : ∃ site : Site, site.kind = kind ∧
    (c.place lower d.buffer.offset argc v w).step host scripts = _ := Config.step_site h hg hm
  cases hx : x w with
  | error err w' =>
    rw [(hrun site hkind).error hx] at hstep
    exact ⟨_, _, _, _, .refl _, h.not_trips hg hm, hstep⟩
  | ok y w' =>
    rw [(hrun site hkind).ok hx] at hstep
    rw [h.offset]
    exact ⟨argc, { v with registers := rs y }, .one hstep, rfl⟩

end Draft

/-! ## Evaluations and views -/

/-- The view holds what the evaluation does, with the operands where the picture says. -/
structure Mirrors (job : Job (StubBody σ)) (d : Draft (StubBody σ)) (v : View) (e : Evaluation) : Prop where
  stands : d.stack.Stands v e.operands.reverse
  slots : v.slots = e.slots
  args : v.args = e.args
  source : Source.ofProgram? job.program job.atoms = some e.source
  slotCount : e.slots.size = job.program.slots
  argCount : job.program.args ≤ e.args.size

namespace Mirrors

variable {job : Job (StubBody σ)} {d d' : Draft (StubBody σ)} {v v' : View} {e e' : Evaluation}

theorem length (h : Mirrors job d v e) : e.operands.length = d.stack.depth := by
  rw [← h.stands.length, List.length_reverse]

theorem top {n : Nat} (h : Mirrors job d v e) (hn : d.stack.depth = n + 1) :
    ∃ a rest, e.operands = a :: rest ∧ d.stack.Stands v (rest.reverse ++ [a]) := by
  have hlen := h.length
  have hst := h.stands
  match ho : e.operands with
  | [] => rw [ho, hn] at hlen; cases hlen
  | a :: rest => rw [ho, List.reverse_cons] at hst; exact ⟨a, rest, rfl, hst⟩

theorem top_two {n : Nat} (h : Mirrors job d v e) (hn : d.stack.depth = n + 2) :
    ∃ b a rest, e.operands = b :: a :: rest ∧ d.stack.Stands v (rest.reverse ++ [a, b]) := by
  have hlen := h.length
  have hst := h.stands
  match ho : e.operands with
  | [] => rw [ho, hn] at hlen; cases hlen
  | [b] => rw [ho, hn] at hlen; cases hlen
  | b :: a :: rest =>
    rw [ho, List.reverse_cons, List.reverse_cons, List.append_assoc] at hst
    exact ⟨b, a, rest, rfl, hst⟩

theorem top_three {n : Nat} (h : Mirrors job d v e) (hn : d.stack.depth = n + 3) :
    ∃ x b a rest, e.operands = x :: b :: a :: rest ∧ d.stack.Stands v (rest.reverse ++ [a, b, x]) := by
  obtain ⟨x, b, rest, ho, hst⟩ := h.top_two hn
  have hlen := h.length
  match rest with
  | [] => rw [ho, hn] at hlen; cases hlen
  | a :: rest => exact ⟨x, b, a, rest, ho, by simpa using hst⟩

/-- Only operands and their picture have changed. -/
theorem same (h : Mirrors job d v e) (hst : d'.stack.Stands v' e'.operands.reverse) (hs : v'.slots = v.slots)
    (ha : v'.args = v.args) (he : e' = { e with operands := e'.operands, offset := e'.offset }) :
    Mirrors job d' v' e' := by
  refine ⟨hst, ?_, ?_, ?_, ?_, ?_⟩
  · rw [hs, h.slots, he]
  · rw [ha, h.args, he]
  · rw [he]; exact h.source
  · rw [he]; exact h.slotCount
  · rw [he]; exact h.argCount

end Mirrors

/-! ## Straight-line code -/

namespace Interpreter

def andThen (a b : Action σ) : Action σ := fun e => do
  match ← a e with
  | .goOn e => b e
  | effect => pure effect

theorem andThen_goOn {a b : Action σ} {e e' : Evaluation} {w w' : World σ} (h : a e w = .ok (.goOn e') w') :
    andThen a b e w = b e' w' := by
  show EStateM.bind _ _ _ = _
  rw [EStateM.bind, h]

theorem andThen_error {a b : Action σ} {e : Evaluation} {err : RunError} {w w' : World σ} (h : a e w = .error err w') :
    andThen a b e w = .error err w' := by
  show EStateM.bind _ _ _ = _
  rw [EStateM.bind, h]

end Interpreter

namespace Draft

structure Begins (job : Job (StubBody σ)) (d d' f : Draft (StubBody σ)) (c : Config σ) (v : View)
    (e : Evaluation) : Prop where
  grows : d'.Grows f
  installed : f.Installed c.current.method
  mirrors : Mirrors job d v e

/-- The code between two drafts does what an action does, on every machine that has it. -/
def Does (job : Job (StubBody σ)) (d d' : Draft (StubBody σ)) (a : Host σ → Interpreter.Action σ) : Prop :=
  ∀ {f c v e host scripts lower argc w}, Begins job d d' f c v e →
    Config.Ends host scripts c lower (c.place lower d.buffer.offset argc v w) d'.buffer.offset
      (fun effect v' => ∃ e', effect = .goOn e' ∧ e'.offset = e.offset ∧ Mirrors job d' v' e') (a host e w)

/-- The second draft is the first with code for an action, which has so many sites and leaves these types. -/
structure Lowers (job : Job (StubBody σ)) (a : Host σ → Interpreter.Action σ) (n : Nat) (ts : Types)
    (d d' : Draft (StubBody σ)) : Prop where
  code : d.Extends n (fun _ => False) d'
  good : d'.Good
  knowns : d'.stack.knowns = ts
  does : Does job d d' a

variable {job : Job (StubBody σ)} {d d' d'' : Draft (StubBody σ)} {a b : Host σ → Interpreter.Action σ} {n k : Nat}
  {ts ts' : Types}

/-- Code that only moves values. -/
theorem Lowers.of_moves {ms : List Move} (hadds : d.Adds (ms.map .move) d') (hgood : d'.Good)
    (hknowns : d'.stack.knowns = ts)
    (hrun : ∀ host v e w, Mirrors job d v e → ∃ e' v', a host e w = .ok (.goOn e') w ∧ v.performAll ms = some v' ∧
      e'.offset = e.offset ∧ Mirrors job d' v' e') : Lowers job a 0 ts d d' := by
  refine ⟨hadds.extends_moves _, hgood, hknowns, fun {f c v e host scripts lower argc w} hb => ?_⟩
  obtain ⟨e', v', hact, hperf, hoff, hmir'⟩ := hrun host v e w hb.mirrors
  rw [hact]
  exact ⟨argc, v', hadds.leads hb.grows hb.installed hperf, e', rfl, hoff, hmir'⟩

/-- One action after another. -/
theorem Lowers.trans (h : Lowers job a n ts d d') (h' : Lowers job b k ts' d' d'') :
    Lowers job (fun host => Interpreter.andThen (a host) (b host)) (n + k) ts' d d'' := by
  refine ⟨h.code.trans h'.code, h'.good, h'.knowns, fun hb => ?_⟩
  refine (h.does ⟨h'.code.grows.trans hb.grows, hb.installed, hb.mirrors⟩).bind fun ⟨e', heff, hoff, hmir⟩ => ?_
  subst heff
  rw [← hoff]
  exact h'.does ⟨hb.grows, hb.installed, hmir⟩

end Draft

/-! ## The code of an instruction -/

/-- The instruction tests a value that is taken for a Boolean and is none. -/
def Instruction.Misjudges (i : Instruction) (ts : Types) (e : Evaluation) : Prop :=
  i.presumes ts = true ∧ ∃ x, e.operands.head? = some x ∧ x.asBool = none

/-- What the machine does from the start of an instruction's code, by what the instruction comes to. -/
inductive Outcome (job : Job (StubBody σ)) (i : Instruction) (d' f : Draft (StubBody σ)) (host : Host σ)
    (scripts : Scripts σ)
    (c : Config σ) (lower : ValueStack) (start : Config σ) (e : Evaluation) :
    EStateM.Result RunError (World σ) Effect → Prop
  | failed {last : Config σ} {pc argc : Nat} {v : View} {err : RunError} {w : World σ} :
      Config.Leads host scripts start last → ¬last.Trips →
      last.step host scripts = (c.place lower pc argc v w).fail err →
      Outcome job i d' f host scripts c lower start e (.error err w)
  | fell {argc : Nat} {v : View} {e' : Evaluation} {w : World σ} : i.opcode.fallsThrough = true →
      Config.Leads host scripts start (c.place lower d'.buffer.offset argc v w) → e'.offset = e.offset →
      Mirrors job d' v e' →
      Outcome job i d' f host scripts c lower start e (.ok (.goOn e') w)
  | jumped {pc argc : Nat} {v : View} {e' : Evaluation} {w : World σ} :
      Config.Advances host scripts start (c.place lower pc argc v w) → i.target? = some e'.offset →
      f.buffer.labelOffset? (Emit.labelOf e'.offset) = some pc → Mirrors job d' v e' → d'.stack.Settled →
      Outcome job i d' f host scripts c lower start e (.ok (.goOn e') w)
  /-- Whatever the script gives, the code goes on with it. -/
  | invoked {last : Config σ} {pc argc : Nat} {v : View} {script : Nat} {args : List Value} {e' : Evaluation}
      {w : World σ} :
      i.opcode.fallsThrough = true → Config.Leads host scripts start last → ¬last.Trips →
      last.step host scripts = (c.place lower pc argc v w).invoke scripts script args → e'.offset = e.offset →
      (∀ (c' : Config σ) (x : Value) (w' : World σ), c'.current.method = c.current.method → ∃ argc' v',
        Config.Leads host scripts (c'.place lower pc argc (v.setReg .r0 x) w')
        (c'.place lower d'.buffer.offset argc' v' w') ∧
          Mirrors job d' v' (e'.push x)) →
      Outcome job i d' f host scripts c lower start e (.ok (.invoke script args e') w)
  /-- The result is in `r0`, and the way out comes next. -/
  | finished {pc argc : Nat} {v : View} {x : Value} {w : World σ} :
      Config.Leads host scripts start (c.place lower pc argc v w) → v.registers.r0 = x →
      (job.program.length ≤ i.next ∧ pc = d'.buffer.offset) ∨
      (∃ label, d'.exit = some label ∧ f.buffer.labelOffset? label = some pc) →
      Outcome job i d' f host scripts c lower start e (.ok (.finish x) w)

namespace Draft

structure Lowered (job : Job (StubBody σ)) (i : Instruction) (d d' : Draft (StubBody σ)) : Prop where
  code : d.Extends (i.sites d.stack.knowns)
    (fun label => (∃ target, i.target? = some target ∧ label = Emit.labelOf target) ∨ d.exit = some label) d'
  good : d'.Good
  knowns : d'.stack.knowns = i.typesAfter d.stack.knowns
  trips : ∀ {f c v e host scripts lower argc w}, Begins job d d' f c v e → i.Misjudges d.stack.knowns e →
    ∃ x, e.operands.head? = some x ∧ Config.Balks host scripts (c.place lower d.buffer.offset argc v w) x w
  does : ∀ {f c v e host scripts lower argc w}, Begins job d d' f c v e → ¬i.Misjudges d.stack.knowns e →
    Outcome job i d' f host scripts c lower (c.place lower d.buffer.offset argc v w) e (Interpreter.act host i e w)

theorem Lowered.depth {job : Job (StubBody σ)} {i : Instruction} {d d' : Draft (StubBody σ)} (h : Lowered job i d d')
    (hpops : i.pops ≤ d.stack.depth) : d'.stack.depth = i.after d.stack.depth := by
  rw [← d.stack.length_knowns] at hpops ⊢
  rw [← VirtualStack.length_knowns, h.knowns, Instruction.length_typesAfter hpops]

/-- An instruction that goes on to the next and tests nothing. -/
theorem Lowers.lowered {job : Job (StubBody σ)} {i : Instruction} {d d' : Draft (StubBody σ)}
    {a : Host σ → Interpreter.Action σ} (hact : ∀ host, Interpreter.act host i = a host)
    (hfalls : i.opcode.fallsThrough = true) (htest : i.opcode.isTest = false)
    (h : Lowers job a (i.sites d.stack.knowns) (i.typesAfter d.stack.knowns) d d') : Lowered job i d d' := by
  refine ⟨h.code.mono fun _ hl => hl.elim, h.good, h.knowns, fun _ hmis => ?_,
    fun {f c v e host scripts lower argc w} hb _ => ?_⟩
  · have hpre := hmis.1
    rw [Instruction.presumes, htest] at hpre
    cases hpre
  · have hends : Config.Ends host scripts c lower (c.place lower d.buffer.offset argc v w) _ _ (a host e w) := h.does hb
    rw [hact]
    cases hr : a host e w with
    | error err w' =>
      rw [hr] at hends
      obtain ⟨last, pc, argc, v, hlast, htrips, hstep⟩ := hends
      exact .failed hlast htrips hstep
    | ok effect w' =>
      rw [hr] at hends
      obtain ⟨argc, v, hlast, e', rfl, hoff, hmir⟩ := hends
      exact .fell hfalls hlast hoff hmir

end Draft
end BaselineTier
