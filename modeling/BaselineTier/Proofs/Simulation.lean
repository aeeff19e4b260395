/-
  BaselineTier.Proofs.Simulation — the machine and the interpreter side by side.

  The machine follows an interpretation when its running activation stands where the
  evaluation is, and each activation that waits is ready to go on with whatever the call gives
  (`Follows`). Each step of the interpretation is taken by the machine as well, in any number
  of steps of its own; where it takes none, fewer bytes of the program are left
  (`Follows.step`). So the machine gets as far as the interpretation (`Follows.along`), and
  where it stops the interpretation does (`Follows.stops`), but for an instruction that the
  machine trips over.
-/

import BaselineTier.Proofs.Activation

namespace BaselineTier

variable {σ : Type}

/-! ## Scripts and sources -/

/-- The script holds what an accepted program was compiled to, with the fallbacks and a table that has the names of the
    source. Offsets and the numbers of sites have 32 bits, so a longer program could give two sites one number. -/
structure Script.Compiled (s : Script (StubBody σ)) (source : Source) : Prop where
  accepted : ∃ name code slots args texts, Program.ofCode name code slots args texts = .ok s.program
  short : s.program.length < 2 ^ 32
  made : ∃ settings atoms pool m, s.baseline = some m ∧ Source.ofProgram? s.program atoms = some source ∧
    (Compilation.compile ⟨s.program, settings, atoms, StubBody.fallbacks⟩ Linker.pool pool).1 = .ok m

inductive Called : Option (Script (StubBody σ)) → Except RunError Source → Prop
  | missing : Called none (.error .notCallable)
  | plain {s : Script (StubBody σ)} : s.baseline = none → Called (some s) (.error (.notCompiled s.program.name))
  | compiled {s : Script (StubBody σ)} {source : Source} : s.Compiled source → Called (some s) (.ok source)

def Corresponds (scripts : Scripts σ) (sources : Interpreter.Sources) : Prop :=
  ∀ script, Called (scripts script) (sources script)

theorem Script.Compiled.verified {s : Script (StubBody σ)} {source : Source} (h : s.Compiled source) :
    source.program.Verified := by
  obtain ⟨_, _, _, _, _, hp⟩ := h.accepted
  obtain ⟨_, _, _, _, _, hsource, _⟩ := h.made
  rw [Source.program_eq hsource]
  exact Program.verified_of_ofCode hp

theorem Script.Compiled.built {s : Script (StubBody σ)} {source : Source} (h : s.Compiled source) :
    ∃ job f m, s.baseline = some m ∧ Built job f m ∧ job.program = s.program ∧
      Source.ofProgram? job.program job.atoms = some source := by
  obtain ⟨name, code, slots, args, texts, hp⟩ := h.accepted
  obtain ⟨settings, atoms, pool, m, hm, hsource, hcompile⟩ := h.made
  have hsound : Job.Sound (⟨s.program, settings, atoms, StubBody.fallbacks⟩ : Job (StubBody σ)) :=
    Job.sound_of_ofCode hp h.short settings hsource
  obtain ⟨d₁, d₂, f, _, hemitted, hinstalled, hentry⟩ := (Compilation.compile_ends hsound pool).2 m hcompile
  exact ⟨_, f, m, hm, ⟨hsound, ⟨d₁, d₂, hemitted⟩, hinstalled, hentry⟩, rfl, hsource⟩

/-- An activation of a script that has just been opened is a view of its arguments over the whole stack. -/
theorem Script.Compiled.enter {s : Script (StubBody σ)} {source : Source} (h : s.Compiled source) (args : List Value)
    (height : Nat) :
    ∃ job f m, ∃ v : View, Activation.enter s args height =
      .ok { method := m, pc := 0, argc := 0, frame := v.frame height } ∧ Built job f m ∧
      Source.ofProgram? job.program job.atoms = some source ∧ v.args = (Evaluation.enter source args).args ∧
        v.slots = #[] ∧
      v.operands = [] := by
  obtain ⟨job, f, m, hm, hb, hprogram, hsource⟩ := h.built
  refine ⟨job, f, m, { args := (Evaluation.enter source args).args, slots := #[] }, ?_, hb, hsource, rfl, rfl, rfl⟩
  have hargs : source.program = s.program := (Source.program_eq hsource).trans hprogram
  simp only [Activation.enter, hm, hb.entry, Evaluation.enter, View.frame, hargs]
  rfl

/-! ## Both at once -/

/-- The activations that wait, each over the ones that wait for it. Whatever the call gives, the code goes on as the
    evaluation does. -/
inductive Waiting (host : Host σ) (scripts : Scripts σ) : ValueStack → List (Activation σ) → List Evaluation → Prop
  | nil {lower : ValueStack} : Waiting host scripts lower [] []
  | cons {job : Job (StubBody σ)} {f : Draft (StubBody σ)} {lower : ValueStack} {m : Method (StubBody σ)}
      {pc argc : Nat} {v : View}
      {e : Evaluation} {callers : List (Activation σ)} {evaluations : List Evaluation} : Built job f m →
      (∀ (c : Config σ) (x : Value) (w : World σ), c.current.method = m → ∃ pc' argc' v',
        Config.Leads host scripts (c.place lower pc argc (v.setReg .r0 x) w) (c.place lower pc' argc' v' w) ∧
          Standing job f pc' v' (e.push x)) →
      Waiting host scripts lower callers evaluations →
      Waiting host scripts (v.stack lower) ({ method := m, pc, argc, frame := v.frame lower.size } :: callers)
      (e :: evaluations)

/-- The machine is where the interpretation is. -/
inductive Follows (host : Host σ) (scripts : Scripts σ) : Config σ → Interpreter.Config σ → Prop
  | intro {job : Job (StubBody σ)} {f : Draft (StubBody σ)} {c : Config σ} {k : Interpreter.Config σ}
      {lower : ValueStack}
      {pc argc : Nat} {v : View} {w : World σ} : Built job f c.current.method → Standing job f pc v k.current →
      w = k.world →
      c.machine.depth = k.depth → c.machine.maxDepth = k.maxDepth → Waiting host scripts lower c.callers k.callers →
      Follows host scripts (c.place lower pc argc v w) k

/-- What the machine does with an activation that has just been opened, by what becomes of the evaluation. -/
def Opens (host : Host σ) (scripts : Scripts σ) (c : Config σ) (callers : List Evaluation) :
    Except RunError Evaluation → Prop
  | .error err => Config.Halts host scripts c (.error err) c.world
  | .ok e => ∃ c', Config.Leads host scripts c c' ∧
      Follows host scripts c'
        { world := c.world, depth := c.machine.depth, maxDepth := c.machine.maxDepth, current := e, callers }

theorem Built.opens {job : Job (StubBody σ)} {f : Draft (StubBody σ)} {host : Host σ} {scripts : Scripts σ}
    {c : Config σ} {v : View} {source : Source} {args : List Value} {callers : List Evaluation}
    (hb : Built job f c.current.method) (hsource : Source.ofProgram? job.program job.atoms = some source)
    (hargs : v.args = (Evaluation.enter source args).args) (hslots : v.slots = #[]) (hops : v.operands = [])
    (hc : c = c.place c.machine.stack 0 0 v c.world) (hwait : Waiting host scripts c.machine.stack c.callers callers) :
    Opens host scripts c callers (Interpreter.open? source args c.machine.depth c.machine.maxDepth) := by
  by_cases hdeep : c.machine.maxDepth < c.machine.depth
  · rw [Interpreter.open?, if_pos hdeep]
    have hhalts : Config.Halts host scripts (c.place c.machine.stack 0 0 v c.world) _ _ :=
      hb.overflows hslots hops hdeep
    rwa [← hc] at hhalts
  · rw [Interpreter.open?, if_neg hdeep]
    obtain ⟨pc, v', hleads, hst⟩ : ∃ pc v', Config.Leads host scripts (c.place c.machine.stack 0 0 v c.world) _ ∧ _ :=
      hb.enters hsource hargs hslots hops hdeep
    rw [← hc] at hleads
    exact ⟨_, hleads, .intro hb hst rfl rfl rfl hwait⟩

def Interpreter.Config.left (k : Interpreter.Config σ) : Nat := k.current.source.program.length - k.current.offset

/-- The next instruction of the interpretation is one that the machine trips over. -/
def Interpreter.Config.Misjudged (k : Interpreter.Config σ) : Prop :=
  ∃ i ts, (i, ts) ∈ k.current.source.program.annotated ∧ i.offset = k.current.offset ∧ i.Misjudges ts k.current

/-- What the machine does by what a step of the interpretation leads to. -/
inductive Tracks (host : Host σ) (scripts : Scripts σ) (c : Config σ) (k : Interpreter.Config σ) :
    Interpreter.Progress σ → Prop
  | ended {r : Except RunError Value} {w : World σ} :
      Config.Halts host scripts c r w → Tracks host scripts c k (.ended r w)
  | advanced {c' : Config σ} {k' : Interpreter.Config σ} :
      Config.Advances host scripts c c' → Follows host scripts c' k' →
      Tracks host scripts c k (.running k')
  | stayed {k' : Interpreter.Config σ} : Follows host scripts c k' → k'.left < k.left →
      Tracks host scripts c k (.running k')

section Steps

variable {host : Host σ} {scripts : Scripts σ} {sources : Interpreter.Sources} {c : Config σ} {k : Interpreter.Config σ}

theorem Config.Leads.halts {c' : Config σ} {r : Except RunError Value} {w : World σ}
    (h : Config.Leads host scripts c c') (h' : Config.Halts host scripts c' r w) : Config.Halts host scripts c r w := by
  obtain ⟨last, hlast, hrest⟩ := h'
  exact ⟨last, h.trans hlast, hrest⟩

/-- A script is called on both sides. -/
theorem Called.tracks {start last : Config σ} {script : Nat} {args : List Value} {e : Evaluation}
    (h : Called (scripts script) (sources script)) (hleads : Config.Leads host scripts start last)
    (htrips : ¬last.Trips) (hstep : last.step host scripts = c.invoke scripts script args)
    (hdepth : c.machine.depth = k.depth) (hmax : c.machine.maxDepth = k.maxDepth)
    (hwait : Waiting host scripts c.machine.stack (c.current :: c.callers) (e :: k.callers)) :
    Tracks host scripts start k
      (match sources script >>= fun s => Interpreter.open? s args (k.depth + 1) k.maxDepth with
      | .error err => .ended (.error err) c.world
      | .ok callee =>
        .running { k with world := c.world, depth := k.depth + 1, current := callee, callers := e :: k.callers }) := by
  rw [Config.invoke] at hstep
  generalize scripts script = found at h hstep
  generalize sources script = source at h
  cases h with
  | missing => exact .ended ⟨last, hleads, htrips, _, hstep⟩
  | @plain s hs =>
    simp only [Activation.enter, hs] at hstep
    exact .ended ⟨last, hleads, htrips, _, hstep⟩
  | @compiled s source hs =>
    obtain ⟨job, f, m, v, henter, hb, hsource, hargs, hslots, hops⟩ := hs.enter args c.machine.stack.size
    simp only [henter] at hstep
    have hopens : Opens host scripts { c with
        machine := { c.machine with depth := c.machine.depth + 1 }
        current := { method := m, pc := 0, argc := 0, frame := v.frame c.machine.stack.size }
        callers := c.current :: c.callers } (e :: k.callers) _ :=
      Built.opens hb hsource hargs hslots hops (by simp [Config.place, View.stack, hslots, hops]) hwait
    rw [← hdepth, ← hmax]
    show Tracks host scripts start k (match Interpreter.open? source args (c.machine.depth + 1) c.machine.maxDepth with
      | .error err => _
      | .ok callee => _)
    cases hopen : Interpreter.open? source args (c.machine.depth + 1) c.machine.maxDepth with
    | error err =>
      rw [hopen] at hopens
      exact .ended ((hleads.advances hstep).leads.halts hopens)
    | ok callee =>
      rw [hopen] at hopens
      obtain ⟨c', hc', hfollows⟩ := hopens
      exact .advanced ((hleads.advances hstep).trans hc') hfollows

/-- The running activation comes to its end on both sides. -/
theorem Built.tracks {job : Job (StubBody σ)} {f : Draft (StubBody σ)} {start : Config σ} {lower : ValueStack}
    {pc argc : Nat} {v : View} {w : World σ} (hb : Built job f c.current.method)
    (hleads : Config.Leads host scripts start (c.place lower pc argc v w))
    (hpc : f.buffer.labelOffset? ⟨job.program.length⟩ = some pc) (hdepth : c.machine.depth = k.depth)
    (hmax : c.machine.maxDepth = k.maxDepth) (hwait : Waiting host scripts lower c.callers k.callers) :
    Tracks host scripts start k (match k.callers with
      | [] => .ended (.ok v.registers.r0) w
      | caller :: callers =>
        .running { k with world := w, depth := k.depth - 1, current := caller.push v.registers.r0, callers }) := by
  obtain ⟨c', hleave, htrips, hret⟩ := hb.leaves hpc
  have hout := hleads.advances hleave
  rw [Config.ret] at hret
  generalize hcallers : c.callers = callers at hwait
  generalize k.callers = evaluations at hwait ⊢
  cases hwait with
  | nil =>
    simp only [hcallers] at hret
    exact .ended ⟨c', hout.leads, htrips, _, hret⟩
  | @cons job' f' lower' m pc' argc' v' e callers evaluations hb' hresume hwait =>
    simp only [hcallers] at hret
    generalize hc₁ : ({ c with
      machine := { c.machine with stack := v'.stack lower', depth := c.machine.depth - 1 }
      world := w
      current := ⟨m, pc', argc', (v'.frame lower'.size).setReg .r0 v.registers.r0⟩
      callers } : Config σ) = c₁ at hret
    have hplace : c₁ = c₁.place lower' pc' argc' (v'.setReg .r0 v.registers.r0) w := by rw [← hc₁]; rfl
    have hmethod : c₁.current.method = m := by rw [← hc₁]
    obtain ⟨pc'', argc'', v'', hres, hst⟩ := hresume c₁ v.registers.r0 w hmethod
    rw [← hplace] at hres
    refine .advanced ((hout.leads.advances hret).trans hres) (.intro (hmethod ▸ hb') hst rfl ?_ ?_ ?_)
    · rw [← hc₁, ← hdepth]
    · rw [← hc₁, ← hmax]
    · rw [← hc₁]
      exact hwait

theorem Standing.program {job : Job (StubBody σ)} {f : Draft (StubBody σ)} {pc : Nat} {v : View} {e : Evaluation}
    (h : Standing job f pc v e) : e.source.program = job.program := by
  obtain ⟨_, _, _, hmir⟩ := h
  exact Source.program_eq hmir.source

theorem Standing.offset_lt {job : Job (StubBody σ)} {f : Draft (StubBody σ)} {pc : Nat} {v : View} {e : Evaluation}
    (h : Standing job f pc v e) (hj : job.Sound) : e.offset < job.program.length := by
  obtain ⟨hspot, hoff, _, _⟩ := h
  exact hoff ▸ hj.verified.tiles.offset_lt hspot.mem

/-- The machine takes each step of the interpretation, or trips over it. -/
theorem Follows.step (h : Follows host scripts c k) (hs : Corresponds scripts sources) :
    (k.Misjudged → ∃ x, k.current.operands.head? = some x ∧ Config.Balks host scripts c x k.world) ∧
      (¬k.Misjudged → Tracks host scripts c k (Interpreter.step host sources k)) := by
  obtain ⟨hb, hst, rfl, hdepth, hmax, hwait⟩ := h
  rename_i job f c lower pc argc v
  obtain ⟨i, ts, hknown, hoff, hdecode, htrips, hturn⟩ :=
    hst.turn hb host scripts lower argc k.world
  have hprogram := hst.program
  refine ⟨fun hmis => ?_, fun hmis => ?_⟩
  · obtain ⟨j, ts', hknown', hoff', hmis⟩ := hmis
    rw [hprogram] at hknown'
    have heq : (i, ts) = (j, ts') := StackMap.annotate_unique hb.sound.verified.tiles hknown hknown'
      (hoff.trans hoff'.symm)
    cases heq
    exact htrips hmis
  · have hturn := hturn fun h => hmis ⟨i, ts, hprogram ▸ hknown, hoff, h⟩
    rw [Interpreter.step]
    simp only [hprogram, hdecode]
    generalize Interpreter.act host i { k.current with offset := i.next } k.world = r at hturn
    cases hturn with
    | failed hleads htrips hstep => exact .ended ⟨_, hleads, htrips, _, hstep⟩
    | @went n pc' argc' v' e' w hafter hfar hst' =>
      have hfollows : Follows host scripts (c.place lower pc' argc' v' w) { k with world := w, current := e' } :=
        .intro hb hst' rfl hdepth hmax hwait
      cases n with
      | zero =>
        rw [← show _ = _ from hafter] at hfollows
        refine .stayed hfollows ?_
        have hlt := hst'.offset_lt hb.sound
        have hfar := hfar rfl
        show e'.source.program.length - e'.offset < k.current.source.program.length - k.current.offset
        rw [hprogram, hst'.program]
        omega
      | succ n => exact .advanced ⟨n, hafter⟩ hfollows
    | invoked hleads htrips hstep hresume =>
      exact (hs _).tracks hleads htrips hstep hdepth hmax (.cons hb hresume hwait)
    | finished hleads hpc => exact hb.tracks hleads hpc hdepth hmax hwait

end Steps

/-! ## Whole runs -/

namespace Config

variable {host : Host σ} {scripts : Scripts σ} {c c₁ c₂ : Config σ} {n k : Nat}

/-- Of two configurations that the machine comes to, one comes before the other. -/
theorem After.total (h : After host scripts n c c₁) (h' : After host scripts k c c₂) :
    (∃ j, k = n + j ∧ After host scripts j c₁ c₂) ∨ ∃ j, After host scripts (j + 1) c₂ c₁ := by
  induction n generalizing c k with
  | zero => cases h; exact .inl ⟨k, (Nat.zero_add k).symm, h'⟩
  | succ n ih =>
    obtain ⟨c', hstep, hrest⟩ := h
    cases k with
    | zero => cases h'; exact .inr ⟨n, c', hstep, hrest⟩
    | succ k =>
      obtain ⟨c'', hstep', hrest'⟩ := h'
      rw [hstep] at hstep'
      cases hstep'
      rcases ih hrest hrest' with ⟨j, rfl, hj⟩ | hj
      · exact .inl ⟨j, Nat.add_right_comm n j 1, hj⟩
      · exact .inr hj

/-- The machine comes to one end only. -/
theorem Leads.ends_unique {r r' : Except RunError Value} {m m' : Machine} {w w' : World σ} (h : Leads host scripts c c₁)
    (hend : c₁.step host scripts = .ended r m w) (h' : Leads host scripts c c₂)
    (hend' : c₂.step host scripts = .ended r' m' w') :
    c₁ = c₂ := by
  obtain ⟨n, h⟩ := h
  obtain ⟨k, h'⟩ := h'
  rcases h.total h' with ⟨j, _, hj⟩ | ⟨j, c₃, hstep, _⟩
  · cases j with
    | zero => exact hj
    | succ j =>
      obtain ⟨c₃, hstep, _⟩ := hj
      rw [hend] at hstep
      cases hstep
  · rw [hend'] at hstep
    cases hstep

/-- A run gives what the machine comes to in the end. -/
theorem run_iff {r : Except RunError Value} {m : Machine} {w : World σ} :
    (∃ fuel, c.run host scripts fuel = some (r, m, w)) ↔
      ∃ last, Leads host scripts c last ∧ last.step host scripts = .ended r m w := by
  constructor
  · rintro ⟨fuel, hrun⟩
    induction fuel generalizing c with
    | zero => cases hrun
    | succ fuel ih =>
      rw [Config.run] at hrun
      cases hstep : c.step host scripts with
      | running c' =>
        rw [hstep] at hrun
        obtain ⟨last, hlast, hend⟩ := ih hrun
        exact ⟨last, (Leads.one hstep).trans hlast, hend⟩
      | ended r' m' w' =>
        rw [hstep] at hrun
        cases hrun
        exact ⟨c, .refl c, hstep⟩
  · rintro ⟨last, ⟨n, hlast⟩, hend⟩
    refine ⟨n + 1, ?_⟩
    rw [hlast.run, Config.run, hend]

end Config

namespace Interpreter

inductive Leads (host : Host σ) (sources : Sources) : Interpreter.Config σ → Interpreter.Config σ → Prop
  | refl (k : Interpreter.Config σ) : Leads host sources k k
  | step {k k' k'' : Interpreter.Config σ} : Interpreter.step host sources k = .running k' → Leads host sources k' k'' →
      Leads host sources k k''

inductive Clears (host : Host σ) (sources : Sources) : Interpreter.Config σ → Interpreter.Config σ → Prop
  | refl (k : Interpreter.Config σ) : Clears host sources k k
  | step {k k' k'' : Interpreter.Config σ} : ¬k.Misjudged → Interpreter.step host sources k = .running k' →
      Clears host sources k' k'' →
      Clears host sources k k''

theorem Clears.leads {host : Host σ} {sources : Sources} {k k' : Interpreter.Config σ} (h : Clears host sources k k') :
    Leads host sources k k' := by
  induction h with
  | refl k => exact .refl k
  | step _ hstep _ ih => exact .step hstep ih

/-- How a machine that follows the interpretation ends here: with the value that is misjudged, or as the next step
    does. -/
inductive Config.Concludes (host : Host σ) (sources : Sources) (k : Interpreter.Config σ) :
    Except RunError Value → World σ → Prop
  | misjudged {x : Value} : k.Misjudged → k.current.operands.head? = some x →
      Concludes host sources k (.error (.type (.notBoolean x))) k.world
  | ended {r : Except RunError Value} {w : World σ} : ¬k.Misjudged → Interpreter.step host sources k = .ended r w →
      Concludes host sources k r w

/-- A run gives what the interpretation comes to in the end. -/
theorem run_iff {host : Host σ} {sources : Sources} {k : Interpreter.Config σ} {r : Except RunError Value}
    {w : World σ} :
    (∃ fuel, run host sources fuel k = some (r, w)) ↔
      ∃ last, Leads host sources k last ∧ step host sources last = .ended r w := by
  constructor
  · rintro ⟨fuel, hrun⟩
    induction fuel generalizing k with
    | zero => cases hrun
    | succ fuel ih =>
      rw [run] at hrun
      cases hstep : step host sources k with
      | running k' =>
        rw [hstep] at hrun
        obtain ⟨last, hlast, hend⟩ := ih hrun
        exact ⟨last, .step hstep hlast, hend⟩
      | ended r' w' =>
        rw [hstep] at hrun
        cases hrun
        exact ⟨k, .refl k, hstep⟩
  · rintro ⟨last, hlast, hend⟩
    induction hlast with
    | refl k => exact ⟨1, by rw [run, hend]⟩
    | step hstep _ ih =>
      obtain ⟨fuel, hrun⟩ := ih hend
      exact ⟨fuel + 1, by rw [run, hstep]; exact hrun⟩

end Interpreter

section Runs

variable {host : Host σ} {scripts : Scripts σ} {sources : Interpreter.Sources}

/-- As far as the interpretation goes the machine follows it, unless it trips. -/
theorem Follows.along {c : Config σ} {k k' : Interpreter.Config σ} (h : Follows host scripts c k)
    (hs : Corresponds scripts sources) (hk : Interpreter.Leads host sources k k') :
    (∃ last, Config.Leads host scripts c last ∧ last.Trips) ∨ ∃ c', Config.Leads host scripts c c' ∧
      Follows host scripts c' k' := by
  induction hk generalizing c with
  | refl k => exact .inr ⟨c, .refl c, h⟩
  | @step k k₁ k' hstep _ ih =>
    by_cases hmis : k.Misjudged
    · obtain ⟨x, _, last, hlast, htrips, _⟩ := (h.step hs).1 hmis
      exact .inl ⟨last, hlast, htrips.trips⟩
    · have htracks := (h.step hs).2 hmis
      rw [hstep] at htracks
      cases htracks with
      | @advanced c₁ _ hadv hfollows =>
        rcases ih hfollows with ⟨last, hlast, htrips⟩ | ⟨c', hc', hfollows'⟩
        · exact .inl ⟨last, hadv.leads.trans hlast, htrips⟩
        · exact .inr ⟨c', hadv.leads.trans hc', hfollows'⟩
      | stayed hfollows _ => exact ih hfollows

/-- The machine trips over an instruction that the interpretation comes to. -/
theorem Follows.trips {c : Config σ} {k k' : Interpreter.Config σ} (h : Follows host scripts c k)
    (hs : Corresponds scripts sources) (hk : Interpreter.Leads host sources k k') (hmis : k'.Misjudged) :
    ∃ last, Config.Leads host scripts c last ∧ last.Trips := by
  rcases h.along hs hk with htrips | ⟨c', hc', hfollows⟩
  · exact htrips
  · obtain ⟨x, _, last, hlast, htrips, _⟩ := (hfollows.step hs).1 hmis
    exact ⟨last, hc'.trans hlast, htrips.trips⟩

/-- The machine ends as the interpretation does, unless it trips. -/
theorem Follows.ends {c : Config σ} {k k' : Interpreter.Config σ} {r : Except RunError Value} {w : World σ}
    (h : Follows host scripts c k) (hs : Corresponds scripts sources) (hk : Interpreter.Leads host sources k k')
    (hend : Interpreter.step host sources k' = .ended r w) :
    (∃ last, Config.Leads host scripts c last ∧ last.Trips) ∨ Config.Halts host scripts c r w := by
  rcases h.along hs hk with htrips | ⟨c', hc', hfollows⟩
  · exact .inl htrips
  · by_cases hmis : k'.Misjudged
    · exact .inl (h.trips hs hk hmis)
    · have htracks := (hfollows.step hs).2 hmis
      rw [hend] at htracks
      cases htracks with
      | ended hhalts => exact .inr (hc'.halts hhalts)

/-- Over instructions that are not misjudged the machine follows the interpretation. -/
theorem Follows.clears {c : Config σ} {k k' : Interpreter.Config σ} (h : Follows host scripts c k)
    (hs : Corresponds scripts sources) (hk : Interpreter.Clears host sources k k') :
    ∃ c', Config.Leads host scripts c c' ∧ Follows host scripts c' k' := by
  induction hk generalizing c with
  | refl k => exact ⟨c, .refl c, h⟩
  | step hmis hstep _ ih =>
    have htracks := (h.step hs).2 hmis
    rw [hstep] at htracks
    cases htracks with
    | advanced hadv hfollows =>
      obtain ⟨c', hc', hfollows'⟩ := ih hfollows
      exact ⟨c', hadv.leads.trans hc', hfollows'⟩
    | stayed hfollows _ => exact ih hfollows

/-- The machine ends as the interpretation concludes. -/
theorem Follows.concludes {c : Config σ} {k : Interpreter.Config σ} {r : Except RunError Value} {w : World σ}
    (h : Follows host scripts c k) (hs : Corresponds scripts sources) (hk : k.Concludes host sources r w) :
    ∃ last m, Config.Leads host scripts c last ∧ last.step host scripts = .ended r m w := by
  cases hk with
  | misjudged hmis hx =>
    obtain ⟨y, hy, last, hlast, htrips, hw⟩ := (h.step hs).1 hmis
    rw [hx] at hy
    cases hy
    obtain ⟨m, hend⟩ := htrips.step host scripts
    rw [hw] at hend
    exact ⟨last, m, hlast, hend⟩
  | ended hmis hstep =>
    have htracks := (h.step hs).2 hmis
    rw [hstep] at htracks
    cases htracks with
    | ended hhalts =>
      obtain ⟨last, hlast, _, m, hend⟩ := hhalts
      exact ⟨last, m, hlast, hend⟩

/-- Where the machine stops, it follows an interpretation that concludes so; and it trips if that is at a misjudged
    instruction. -/
theorem Follows.stops {c last : Config σ} {k : Interpreter.Config σ} {n : Nat} {r : Except RunError Value} {m : Machine}
    {w : World σ} (h : Follows host scripts c k) (hs : Corresponds scripts sources)
    (hafter : Config.After host scripts n c last) (hend : last.step host scripts = .ended r m w) :
    ∃ c' k', Interpreter.Clears host sources k k' ∧ Follows host scripts c' k' ∧ k'.Concludes host sources r w ∧
      (last.Trips ↔ k'.Misjudged) := by
  by_cases hmis : k.Misjudged
  · obtain ⟨x, hx, last', hlast', htrips, hw⟩ := (h.step hs).1 hmis
    obtain ⟨m', hend'⟩ := htrips.step host scripts
    obtain rfl := Config.Leads.ends_unique ⟨n, hafter⟩ hend hlast' hend'
    rw [hend, hw] at hend'
    cases hend'
    exact ⟨c, k, .refl k, h, .misjudged hmis hx, fun _ => hmis, fun _ => htrips.trips⟩
  · have htracks := (h.step hs).2 hmis
    generalize hstep : Interpreter.step host sources k = p at htracks
    cases htracks with
    | ended hhalts =>
      obtain ⟨last', hlast', hnot, m', hend'⟩ := hhalts
      obtain rfl := Config.Leads.ends_unique ⟨n, hafter⟩ hend hlast' hend'
      rw [hend] at hend'
      cases hend'
      exact ⟨c, k, .refl k, h, .ended hmis hstep, fun htrips => absurd htrips hnot, fun h => absurd h hmis⟩
    | advanced hadv hfollows =>
      obtain ⟨i, hadv⟩ := hadv
      rcases hadv.total hafter with ⟨j, rfl, hj⟩ | ⟨j, c', hrun, _⟩
      · obtain ⟨c', k', hk', hrest⟩ := hfollows.stops hs hj hend
        exact ⟨c', k', .step hmis hstep hk', hrest⟩
      · rw [hend] at hrun
        cases hrun
    | stayed hfollows hleft =>
      obtain ⟨c', k', hk', hrest⟩ := hfollows.stops hs hafter hend
      exact ⟨c', k', .step hmis hstep hk', hrest⟩
termination_by (n, k.left)
decreasing_by
  · exact Prod.Lex.left _ _ (by omega)
  · exact Prod.Lex.right _ hleft

/-- What a run of the machine gives is what the interpretation concludes with. -/
theorem Follows.run_iff {c : Config σ} {k : Interpreter.Config σ} {r : Except RunError Value} {w : World σ}
    (h : Follows host scripts c k) (hs : Corresponds scripts sources) :
    (∃ fuel m, c.run host scripts fuel = some (r, m, w)) ↔
      ∃ k', Interpreter.Clears host sources k k' ∧ k'.Concludes host sources r w := by
  constructor
  · rintro ⟨fuel, m, hrun⟩
    obtain ⟨last, ⟨n, hlast⟩, hend⟩ := Config.run_iff.mp ⟨fuel, hrun⟩
    obtain ⟨_, k', hk', _, hconcludes, _⟩ := h.stops hs hlast hend
    exact ⟨k', hk', hconcludes⟩
  · rintro ⟨k', hk', hconcludes⟩
    obtain ⟨c', hc', hfollows⟩ := h.clears hs hk'
    obtain ⟨last, m, hlast, hend⟩ := hfollows.concludes hs hconcludes
    obtain ⟨fuel, hrun⟩ := Config.run_iff.mpr ⟨last, hc'.trans hlast, hend⟩
    exact ⟨fuel, m, hrun⟩

end Runs
end BaselineTier
