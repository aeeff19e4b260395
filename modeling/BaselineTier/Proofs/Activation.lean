/-
  BaselineTier.Proofs.Activation — one activation of compiled code.

  The code of each reachable instruction lies between two drafts of the compilation
  (`Draft.Spot`), and the machine stands before it when its view mirrors an evaluation that is
  at that instruction (`Standing`). From there it does what the instruction does and arrives
  before the next one, at a call, or at the way out (`Standing.turn`). The code that comes
  first takes an activation to its first instruction (`Built.enters`), and the code that comes
  last gives up its frame (`Built.leaves`).
-/

import BaselineTier.Proofs.Compilation

namespace BaselineTier

variable {σ : Type}

/-- The machine comes to an end with a result, and not by a test of something else than a Boolean. -/
def Config.Halts (host : Host σ) (scripts : Scripts σ) (c : Config σ) (r : Except RunError Value)
    (w : World σ) : Prop :=
  ∃ last, Leads host scripts c last ∧ ¬last.Trips ∧ ∃ m, last.step host scripts = .ended r m w

/-! ## Where the code of an instruction lies -/

namespace Draft

theorem Arrives.annotate {job : Job (StubBody σ)} {i : Instruction} {info : StackMap.Info} {d d₁ : Draft (StubBody σ)}
    (ha : Arrives job i.offset info d d₁) (hinfo : job.program.stackMap.info? i.offset = some info)
    (rest : List Instruction) :
    job.program.stackMap.annotate (i :: rest) d.stack.knowns =
      (i, d₁.stack.knowns) :: job.program.stackMap.annotate rest (i.typesAfter d₁.stack.knowns) := by
  simp only [StackMap.annotate, hinfo]
  rw [ha.knowns]

/-- The code of the instructions from an offset on begins at the draft, and leads up to the way out. -/
inductive Rest (job : Job (StubBody σ)) (f : Draft (StubBody σ)) (offset : Nat) (d : Draft (StubBody σ)) : Prop
  | intro {is : List Instruction} {d' : Draft (StubBody σ)} : Instruction.Tiles job.program.code offset is →
      (∀ i ∈ is, i ∈ job.program.instructions) → (∀ a ∈ job.program.stackMap.annotate is d.stack.knowns,
      a ∈ job.program.annotated) →
      Body job is d d' → d'.Grows f → f.buffer.labelOffset? ⟨job.program.length⟩ = some d'.buffer.offset →
      Rest job f offset d

/-- The code of an instruction that can be reached: it is arrived at from the first draft, and its own code lies between
    the other two. -/
structure Spot (job : Job (StubBody σ)) (f : Draft (StubBody σ)) (i : Instruction) (info : StackMap.Info)
    (d₀ d₁ d₂ : Draft (StubBody σ)) : Prop where
  mem : i ∈ job.program.instructions
  reached : job.program.stackMap.info? i.offset = some info
  taken : i.opcode.isRefused = false
  known : (i, d₁.stack.knowns) ∈ job.program.annotated
  arrives : Arrives job i.offset info d₀ d₁
  lowered : Lowered job i d₁ d₂
  rest : Rest job f i.next d₂

variable {job : Job (StubBody σ)} {i : Instruction} {info : StackMap.Info} {offset : Nat}
  {d d₀ d₁ d₂ f : Draft (StubBody σ)}

theorem Rest.grows (h : Rest job f offset d) : d.Grows f := by
  obtain ⟨_, _, _, hbody, hgrows, _⟩ := h
  exact hbody.grows.trans hgrows

theorem Spot.grows (h : Spot job f i info d₀ d₁ d₂) : d₂.Grows f := h.rest.grows

/-- At the end of the code comes the way out. -/
theorem Rest.out (h : Rest job f offset d) (hend : job.program.length ≤ offset) :
    f.buffer.labelOffset? ⟨job.program.length⟩ = some d.buffer.offset := by
  obtain ⟨htiles, _, _, hbody, _, hout⟩ := h
  cases htiles.eq_nil hend
  cases hbody
  exact hout

/-- The first of the instructions. -/
theorem Rest.head (h : Rest job f i.offset d) (hi : i ∈ job.program.instructions)
    (htiles : Instruction.Tiles job.program.code 0 job.program.instructions)
    (hinfo : job.program.stackMap.info? i.offset = some info) :
    ∃ d₁ d₂, Spot job f i info d d₁ d₂ := by
  obtain ⟨htiles', hmem, hknown, hbody, hgrows, hout⟩ := h
  have hlt := htiles.offset_lt hi
  cases hbody with
  | nil => exact absurd htiles' (Nat.ne_of_lt hlt)
  | @skip j rest _ _ hnone hbody =>
    have hoff : j.offset = i.offset := (Instruction.decodeAt_ok htiles'.1).1
    rw [hoff, hinfo] at hnone
    cases hnone
  | @code j rest info' _ d₁ d₂ _ hinfo' href ha hl hbody =>
    have hoff : j.offset = i.offset := (Instruction.decodeAt_ok htiles'.1).1
    obtain rfl : j = i := htiles.eq_of_offset (hmem j (by simp)) hi hoff
    rw [hinfo] at hinfo'
    cases hinfo'
    rw [ha.annotate hinfo] at hknown
    refine ⟨d₁, d₂, hi, hinfo, href, hknown _ (by simp), ha, hl,
      .intro htiles'.2 (fun k hk => hmem k (List.mem_cons_of_mem _ hk)) ?_ hbody
      hgrows hout⟩
    rw [hl.knowns]
    exact fun a ha => hknown a (List.mem_cons_of_mem _ ha)

/-- Any of the instructions. -/
theorem Body.spot {is : List Instruction} {d' : Draft (StubBody σ)} (h : Body job is d d')
    (htiles : Instruction.Tiles job.program.code offset is) (hmem : ∀ j ∈ is, j ∈ job.program.instructions)
    (hknown : ∀ a ∈ job.program.stackMap.annotate is d.stack.knowns, a ∈ job.program.annotated) (hgrows : d'.Grows f)
    (hout : f.buffer.labelOffset? ⟨job.program.length⟩ = some d'.buffer.offset) (hi : i ∈ is)
    (hinfo : job.program.stackMap.info? i.offset = some info) : ∃ d₀ d₁ d₂, Spot job f i info d₀ d₁ d₂ := by
  induction h generalizing offset with
  | nil d => cases hi
  | @skip j rest d d' hnone hbody ih =>
    rcases List.mem_cons.mp hi with rfl | hi
    · rw [hinfo] at hnone
      cases hnone
    · refine ih htiles.2 (fun k hk => hmem k (List.mem_cons_of_mem _ hk)) (fun a ha => hknown a ?_) hgrows hout hi
      simp only [StackMap.annotate, hnone]
      exact ha
  | @code j rest info' d d₁ d₂ d' hinfo' href ha hl hbody ih =>
    have hrest : ∀ k ∈ rest, k ∈ job.program.instructions := fun k hk => hmem k (List.mem_cons_of_mem _ hk)
    have hknown' : ∀ a ∈ job.program.stackMap.annotate rest d₂.stack.knowns, a ∈ job.program.annotated := by
      rw [ha.annotate hinfo'] at hknown
      rw [hl.knowns]
      exact fun a ha => hknown a (List.mem_cons_of_mem _ ha)
    rcases List.mem_cons.mp hi with rfl | hi
    · rw [hinfo] at hinfo'
      cases hinfo'
      rw [ha.annotate hinfo] at hknown
      exact ⟨d, d₁, d₂, hmem i (by simp), hinfo, href, hknown _ (by simp), ha, hl,
        .intro htiles.2 hrest hknown' hbody hgrows hout⟩
    · exact ih htiles.2 hrest hknown' hgrows hout hi

end Draft

structure Built (job : Job (StubBody σ)) (f : Draft (StubBody σ)) (m : Method (StubBody σ)) : Prop where
  sound : job.Sound
  emitted : ∃ d₁ d₂, Draft.Emitted job d₁ d₂ f
  installed : f.Installed m
  entry : m.code.entry = 0

/-- With the view, the code at an offset goes on as the next instruction of the evaluation does. -/
inductive Standing (job : Job (StubBody σ)) (f : Draft (StubBody σ)) (pc : Nat) (v : View) (e : Evaluation) : Prop
  | intro {i : Instruction} {info : StackMap.Info} {d₀ d₁ d₂ : Draft (StubBody σ)} : Draft.Spot job f i info d₀ d₁ d₂ →
      i.offset = e.offset → d₁.buffer.offset = pc → Mirrors job d₁ v e → Standing job f pc v e

namespace Built

variable {job : Job (StubBody σ)} {f : Draft (StubBody σ)} {m : Method (StubBody σ)}
  {c : Config σ} {lower : ValueStack} {pc argc : Nat} {v : View} {w : World σ} {e : Evaluation} {i : Instruction}
  {info : StackMap.Info} {d₀ d₁ d₂ : Draft (StubBody σ)}

theorem rest (hb : Built job f m) : ∃ d, Draft.Rest job f 0 d ∧ d.stack = {} ∧
    d.buffer.offset = (Compilation.opening job.program.slots).length ∧
    ∀ {k : Nat} {i : Inst Label}, (Compilation.opening job.program.slots)[k]? = some i →
      f.buffer.insts[k]? = some i := by
  obtain ⟨d₁, d₂, he⟩ := hb.emitted
  refine ⟨d₁, .intro hb.sound.verified.tiles (fun _ hi => hi) ?_ he.body he.grows he.out, he.empty, he.start,
    fun hk => (he.body.grows.trans he.grows).insts (he.first hk)⟩
  rw [he.empty]
  exact fun _ ha => ha

theorem spot (hb : Built job f m) (hi : i ∈ job.program.instructions)
    (hinfo : job.program.stackMap.info? i.offset = some info) :
    ∃ d₀ d₁ d₂, Draft.Spot job f i info d₀ d₁ d₂ := by
  obtain ⟨d₁, d₂, he⟩ := hb.emitted
  refine he.body.spot hb.sound.verified.tiles (fun _ hi => hi) ?_ he.grows he.out hi hinfo
  rw [he.empty]
  exact fun _ ha => ha

/-- Control that falls through arrives at the instruction that comes next. -/
theorem fall (hb : Built job f m) (host : Host σ) (scripts : Scripts σ) (hm : c.current.method = m)
    (hrest : Draft.Rest job f e.offset d₂) (hinfo : job.program.stackMap.info? e.offset = some info)
    (hdepth : d₂.stack.depth = info.depth) (hmir : Mirrors job d₂ v e) :
    ∃ pc v', Config.Leads host scripts (c.place lower d₂.buffer.offset argc v w) (c.place lower pc argc v' w) ∧
      Standing job f pc v' e := by
  subst hm
  obtain ⟨i, hi, hoff⟩ := hb.sound.verified.instruction hinfo
  rw [← hoff] at hrest hinfo
  obtain ⟨d₁', d₂', hspot⟩ := hrest.head hi hb.sound.verified.tiles hinfo
  have hgrows := hspot.lowered.code.grows.trans hspot.grows
  obtain ⟨v', hleads, hmir'⟩ := hspot.arrives.fell ⟨hgrows, hb.installed, hmir⟩ hdepth
  exact ⟨_, v', hleads, .intro hspot hoff rfl hmir'⟩

/-- Control that jumps, with everything written out, arrives at its target. -/
theorem jump (hb : Built job f m) (host : Host σ) (scripts : Scripts σ) (hm : c.current.method = m)
    (hinfo : job.program.stackMap.info? e.offset = some info) (htarget : info.jumpTarget = true)
    (hpc : f.buffer.labelOffset? (Emit.labelOf e.offset) = some pc) (hmir : Mirrors job d₂ v e)
    (hset : d₂.stack.Settled) (hdepth : d₂.stack.depth = info.depth) :
    ∃ pc' v', Config.Leads host scripts (c.place lower pc argc v w) (c.place lower pc' argc v' w) ∧
      Standing job f pc' v' e := by
  subst hm
  obtain ⟨i, hi, hoff⟩ := hb.sound.verified.instruction hinfo
  rw [← hoff] at hinfo hpc
  obtain ⟨d₀', d₁', d₂', hspot⟩ := hb.spot hi hinfo
  have hgrows := hspot.lowered.code.grows.trans hspot.grows
  obtain ⟨pc', hbound, hmet⟩ := hspot.arrives.met htarget
  rw [hgrows.labels hbound] at hpc
  cases hpc
  obtain ⟨v', hleads, hmir'⟩ := hmet hgrows hb.installed hmir hset hdepth
  exact ⟨_, v', hleads, .intro hspot hoff rfl hmir'⟩

end Built

/-! ## One instruction -/

theorem Source.program_eq {p : Program} {atoms : AtomTable} {s : Source} (h : ofProgram? p atoms = some s) :
    s.program = p := by
  obtain ⟨names, _, rfl⟩ := Option.map_eq_some_iff.mp h
  rfl

/-- What the machine does by what an instruction comes to, up to the code of the next. If it takes no step, the next
    instruction is further on. -/
inductive Turn (job : Job (StubBody σ)) (f : Draft (StubBody σ)) (host : Host σ) (scripts : Scripts σ) (c : Config σ)
    (lower : ValueStack) (start : Config σ) (e : Evaluation) : EStateM.Result RunError (World σ) Effect → Prop
  | failed {last : Config σ} {pc argc : Nat} {v : View} {err : RunError} {w : World σ} :
      Config.Leads host scripts start last → ¬last.Trips →
      last.step host scripts = (c.place lower pc argc v w).fail err →
      Turn job f host scripts c lower start e (.error err w)
  | went {n pc argc : Nat} {v : View} {e' : Evaluation} {w : World σ} :
      Config.After host scripts n start (c.place lower pc argc v w) → (n = 0 → e.offset < e'.offset) →
      Standing job f pc v e' →
      Turn job f host scripts c lower start e (.ok (.goOn e') w)
  | invoked {last : Config σ} {pc argc : Nat} {v : View} {script : Nat} {args : List Value} {e' : Evaluation}
      {w : World σ} :
      Config.Leads host scripts start last → ¬last.Trips →
      last.step host scripts = (c.place lower pc argc v w).invoke scripts script args →
      (∀ (c' : Config σ) (x : Value) (w' : World σ), c'.current.method = c.current.method → ∃ pc' argc' v',
        Config.Leads host scripts (c'.place lower pc argc (v.setReg .r0 x) w') (c'.place lower pc' argc' v' w') ∧
          Standing job f pc' v' (e'.push x)) →
      Turn job f host scripts c lower start e (.ok (.invoke script args e') w)
  | finished {pc argc : Nat} {v : View} {w : World σ} : Config.Leads host scripts start (c.place lower pc argc v w) →
      f.buffer.labelOffset? ⟨job.program.length⟩ = some pc →
      Turn job f host scripts c lower start e (.ok (.finish v.registers.r0) w)

section Turns

variable {job : Job (StubBody σ)} {f : Draft (StubBody σ)} {host : Host σ} {scripts : Scripts σ} {c : Config σ}
  {lower : ValueStack} {pc argc : Nat} {v : View} {w : World σ} {e : Evaluation} {i : Instruction}
  {info : StackMap.Info} {d₀ d₁ d₂ : Draft (StubBody σ)}

/-- The depth at which a place is reached that the instruction leads to. -/
theorem Draft.Spot.depth (hs : Draft.Spot job f i info d₀ d₁ d₂) (hj : job.Sound) :
    d₂.stack.depth = i.after info.depth := by
  have hadm := hj.verified.admissible hs.mem hs.reached
  rw [hs.lowered.depth (by rw [hs.arrives.depth]; exact hadm.pops), hs.arrives.depth]

theorem Draft.Spot.next (hs : Draft.Spot job f i info d₀ d₁ d₂) (hj : job.Sound)
    (hfalls : i.opcode.fallsThrough = true) :
    ∃ info', job.program.stackMap.info? i.next = some info' ∧ d₂.stack.depth = info'.depth := by
  have hadm := hj.verified.admissible hs.mem hs.reached
  obtain ⟨info', hinfo', hdepth⟩ :=
    (hj.verified.exact.depth _ _).mpr (.next hs.mem (hj.verified.reaches hs.reached) hadm.pops hfalls)
  exact ⟨info', hinfo', by rw [hs.depth hj, hdepth]⟩

theorem Draft.Spot.target (hs : Draft.Spot job f i info d₀ d₁ d₂) (hj : job.Sound) {target : Nat}
    (ht : i.target? = some target) :
    ∃ info', job.program.stackMap.info? target = some info' ∧ info'.jumpTarget = true ∧
      d₂.stack.depth = info'.depth := by
  have hadm := hj.verified.admissible hs.mem hs.reached
  have hr := hj.verified.reaches hs.reached
  obtain ⟨info', hinfo', hdepth⟩ := (hj.verified.exact.depth _ _).mpr (.jump hs.mem hr hadm.pops ht)
  have hmet := (hj.verified.exact.jump target).mpr ⟨i, hs.mem, _, hr, ht⟩
  rw [StackMap.isJumpTarget, hinfo'] at hmet
  exact ⟨info', hinfo', hmet, by rw [hs.depth hj, hdepth]⟩

theorem Outcome.turn {r : EStateM.Result RunError (World σ) Effect} {start : Config σ}
    (hb : Built job f c.current.method) (hs : Draft.Spot job f i info d₀ d₁ d₂)
    (h : Outcome job i d₂ f host scripts c lower start { e with offset := i.next } r) (hoff : i.offset = e.offset) :
    Turn job f host scripts c lower start e r := by
  cases h with
  | failed hleads htrips hstep => exact .failed hleads htrips hstep
  | @fell argc v e' w hfalls hleads hnext hmir =>
    have hnext : e'.offset = i.next := hnext
    obtain ⟨info', hinfo', hdepth⟩ := hs.next hb.sound hfalls
    have hrest := hs.rest
    rw [← hnext] at hrest hinfo'
    obtain ⟨pc, v', hleads', hst⟩ := hb.fall host scripts rfl hrest hinfo' hdepth hmir
    obtain ⟨n, hafter⟩ := hleads.trans hleads'
    refine .went hafter (fun _ => ?_) hst
    rw [hnext, ← hoff]
    exact i.offset_lt_next
  | @jumped pc argc v e' w hadv htarget hpc hmir hset =>
    obtain ⟨info', hinfo', hmet, hdepth⟩ := hs.target hb.sound htarget
    obtain ⟨pc', v', hleads', hst⟩ := hb.jump host scripts rfl hinfo' hmet hpc hmir hset hdepth
    obtain ⟨n, hadv⟩ := hadv
    obtain ⟨k, hleads'⟩ := hleads'
    exact .went (hadv.trans hleads') (fun h => by omega) hst
  | @invoked last pc argc v script args e' w hfalls hleads htrips hstep hnext hresume =>
    refine .invoked hleads htrips hstep fun c' x w' hm => ?_
    have hnext : (e'.push x).offset = i.next := hnext
    obtain ⟨info', hinfo', hdepth⟩ := hs.next hb.sound hfalls
    have hrest := hs.rest
    rw [← hnext] at hrest hinfo'
    obtain ⟨argc', v', hleads, hmir⟩ := hresume c' x w' hm
    obtain ⟨pc', v'', hleads', hst⟩ := hb.fall host scripts hm hrest hinfo' hdepth hmir
    exact ⟨pc', argc', v'', hleads.trans hleads', hst⟩
  | @finished pc argc v x w hleads hx hout =>
    subst hx
    refine .finished hleads ?_
    rcases hout with ⟨hend, rfl⟩ | ⟨label, hlabel, hpc⟩
    · exact hs.rest.out hend
    · obtain ⟨_, _, he⟩ := hb.emitted
      have hexit := hs.grows.exit hlabel
      rw [he.exit] at hexit
      cases hexit
      exact hpc

/-- The next instruction of the evaluation is taken by the machine as well, or the machine trips over it. -/
theorem Standing.turn (hs : Standing job f pc v e) (hb : Built job f c.current.method) (host : Host σ)
    (scripts : Scripts σ) (lower : ValueStack) (argc : Nat) (w : World σ) :
    ∃ i ts, (i, ts) ∈ job.program.annotated ∧ i.offset = e.offset ∧
      Instruction.decodeAt job.program.code e.offset = .ok i ∧
      (i.Misjudges ts e → ∃ x, e.operands.head? = some x ∧ Config.Balks host scripts (c.place lower pc argc v w) x w) ∧
      (¬i.Misjudges ts e → Turn job f host scripts c lower (c.place lower pc argc v w) e
        (Interpreter.act host i { e with offset := i.next } w)) := by
  obtain ⟨hspot, hoff, rfl, hmir⟩ := hs
  rename_i i info d₀ d₁ d₂
  have hbegins : Draft.Begins job d₁ d₂ f c v { e with offset := i.next } :=
    ⟨hspot.grows, hb.installed, hmir.same hmir.stands rfl rfl rfl⟩
  refine ⟨i, d₁.stack.knowns, hspot.known, hoff, ?_, fun hmis => ?_,
    fun hmis => Outcome.turn hb hspot (hspot.lowered.does hbegins hmis) hoff⟩
  · rw [← hoff]
    exact hb.sound.verified.tiles.decodeAt i hspot.mem
  · exact hspot.lowered.trips (e := { e with offset := i.next }) hbegins hmis

end Turns

/-! ## Opening and leaving a frame -/

namespace Built

variable {job : Job (StubBody σ)} {f : Draft (StubBody σ)} {host : Host σ} {scripts : Scripts σ} {c : Config σ}
  {lower : ValueStack} {pc argc : Nat} {v : View} {w : World σ}

theorem opening_inst (hb : Built job f c.current.method) {k : Nat} {i : Inst Label} {i' : Inst Nat}
    (hk : (Compilation.opening job.program.slots)[k]? = some i)
    (hi : ∀ find : Label → Except LinkError Nat, i.resolve find = .ok i') :
    c.current.method.code.insts[k]? = some i' := by
  obtain ⟨_, _, _, _, hfirst⟩ := hb.rest
  exact hb.installed.inst (.refl f) (hfirst hk) hi

theorem performAll_clearing {slots : Nat} {v : View} (h : v.slots = Array.replicate slots .undefined) :
    v.performAll (Compilation.clearing slots) = some v := by
  have hone : ∀ m ∈ Compilation.clearing slots, v.perform m = some v := by
    intro m hm
    obtain ⟨index, hindex, rfl⟩ := List.mem_map.mp hm
    have hlt : index < v.slots.size := by rw [h, Array.size_replicate]; exact List.mem_range.mp hindex
    have hsame : v.slots.setIfInBounds index .undefined = v.slots := by
      rw [h]
      apply Array.ext <;> simp
    simp only [View.perform, View.write?, if_pos hlt, hsame]
  revert hone
  generalize Compilation.clearing slots = ms
  intro hone
  induction ms with
  | nil => rfl
  | cons m ms ih =>
    show (v.perform m).bind _ = _
    rw [hone m (by simp)]
    exact ih fun m hm => hone m (List.mem_cons_of_mem _ hm)

/-- The code that comes first makes room for the slots, and leads up to the check of the nesting. -/
theorem opened (hb : Built job f c.current.method) (hslots : v.slots = #[]) (hops : v.operands = []) :
    Config.Leads host scripts (c.place lower 0 argc v w) (c.place lower (job.program.slots + 1) argc
      { v with slots := Array.replicate job.program.slots .undefined } w) := by
  generalize hv' : { v with slots := Array.replicate job.program.slots .undefined } = v'
  have henter : c.current.method.code.insts[0]? = some (.enterFrame job.program.slots) :=
    hb.opening_inst (i := .enterFrame job.program.slots) rfl fun _ => rfl
  have hfirst : (c.place lower 0 argc v w).step host scripts = .running (c.place lower 1 argc v' w) := by
    rw [Config.step_eq henter, ← hv']
    simp only [Config.exec, Config.place, View.stack, View.frame, hslots, hops, Array.append_empty,
      Array.size_replicate]
  have hlen : (Compilation.clearing job.program.slots).length = job.program.slots := by
    rw [Compilation.clearing, List.length_map, List.length_range]
  have hcode : ∀ {k mv}, (Compilation.clearing job.program.slots)[k]? = some mv →
      c.current.method.code.insts[1 + k]? = some (.move mv) := by
    intro k mv hk
    have hlt := (List.getElem?_eq_some_iff.mp hk).1
    refine hb.opening_inst (i := .move mv) ?_ fun _ => rfl
    rw [Compilation.opening, List.cons_append, Nat.add_comm, List.getElem?_cons_succ,
      List.getElem?_append_left (by rw [List.length_map]; exact hlt), List.getElem?_map, hk]
    rfl
  refine (Config.Leads.one hfirst).trans ⟨job.program.slots, ?_⟩
  have hmoves : Config.After host scripts _ (c.place lower 1 argc v' w) _ :=
    .moves hcode (performAll_clearing (by rw [← hv']))
  rwa [hlen, Nat.add_comm 1] at hmoves

theorem check_inst (hb : Built job f c.current.method) :
    c.current.method.code.insts[job.program.slots + 1]? = some .stackCheck := by
  refine hb.opening_inst (i := .stackCheck) ?_ fun _ => rfl
  rw [Compilation.opening, List.cons_append, List.getElem?_cons_succ,
    List.getElem?_append_right (by simp [Compilation.clearing])]
  simp [Compilation.clearing]

/-- An activation that is nested too deeply comes no further than the check. -/
theorem overflows (hb : Built job f c.current.method) (hslots : v.slots = #[]) (hops : v.operands = [])
    (hdeep : c.machine.maxDepth < c.machine.depth) :
    Config.Halts host scripts (c.place lower 0 argc v w) (.error (.stackOverflow c.machine.depth)) w := by
  refine ⟨_, hb.opened hslots hops, fun htrips => ?_, ?_⟩
  · obtain ⟨_, _, hinst | ⟨_, _, hinst⟩⟩ := htrips
    all_goals cases hb.check_inst.symm.trans hinst
  · exact ⟨_, (Config.step_eq hb.check_inst).trans (if_pos hdeep)⟩

/-- Any other begins as the evaluation does. -/
theorem enters (hb : Built job f c.current.method) {source : Source}
    (hsource : Source.ofProgram? job.program job.atoms = some source) {args : List Value}
    (hargs : v.args = (Evaluation.enter source args).args) (hslots : v.slots = #[]) (hops : v.operands = [])
    (hroom : ¬c.machine.maxDepth < c.machine.depth) :
    ∃ pc v', Config.Leads host scripts (c.place lower 0 argc v w) (c.place lower pc argc v' w) ∧
      Standing job f pc v' (.enter source args) := by
  generalize hv' : { v with slots := Array.replicate job.program.slots .undefined } = v'
  have hcheck : (c.place lower (job.program.slots + 1) argc v' w).step host scripts =
      .running (c.place lower (job.program.slots + 2) argc v' w) :=
    (Config.step_eq hb.check_inst).trans (if_neg hroom)
  obtain ⟨d, hrest, hempty, hstart, _⟩ := hb.rest
  have hoffset : d.buffer.offset = job.program.slots + 2 := by
    rw [hstart, Compilation.opening]
    simp [Compilation.clearing]
  have hprogram := Source.program_eq hsource
  have hmir : Mirrors job d v' (.enter source args) := by
    subst hv'
    refine ⟨?_, ?_, hargs, hsource, ?_, ?_⟩
    · rw [hempty]
      exact ⟨VirtualStack.check_ok_iff.mp rfl, by rw [hops]; rfl, rfl⟩
    · rw [Evaluation.enter, hprogram]
    · rw [Evaluation.enter, hprogram, Array.size_replicate]
    · simp only [Evaluation.enter, hprogram, List.size_toArray, List.length_append, List.length_replicate]
      omega
  obtain ⟨info, hinfo, hdepth⟩ := (hb.sound.verified.exact.depth 0 0).mpr .start
  have hopened : Config.Leads host scripts (c.place lower 0 argc v w)
      (c.place lower (job.program.slots + 1) argc v' w) :=
    hv' ▸ hb.opened hslots hops
  obtain ⟨pc, v'', hleads, hst⟩ := hb.fall (e := .enter source args) host scripts rfl hrest hinfo
    (by rw [hempty, hdepth]; rfl) hmir
  rw [hoffset] at hleads
  exact ⟨pc, v'', (hopened.trans (.one hcheck)).trans hleads, hst⟩

/-- The way out gives up the frame and returns what is in `r0`. -/
theorem leaves (hb : Built job f c.current.method) (hpc : f.buffer.labelOffset? ⟨job.program.length⟩ = some pc) :
    ∃ c', (c.place lower pc argc v w).step host scripts = .running c' ∧ ¬c'.Trips ∧
      c'.step host scripts = Config.ret { c with machine := { c.machine with stack := lower }, world := w }
        v.registers.r0 := by
  obtain ⟨d₁, d₂, he⟩ := hb.emitted
  rw [he.out] at hpc
  cases hpc
  have hleave : c.current.method.code.insts[d₂.buffer.offset]? = some .leaveFrame :=
    hb.installed.inst (.refl f) he.leave fun _ => rfl
  have hret : c.current.method.code.insts[d₂.buffer.offset + 1]? = some .ret :=
    hb.installed.inst (.refl f) he.ret fun _ => rfl
  refine ⟨_, Config.step_eq hleave, fun htrips => ?_, ?_⟩
  · obtain ⟨_, _, hinst | ⟨_, _, hinst⟩⟩ := htrips
    all_goals cases hret.symm.trans hinst
  · have hcut : (v.stack lower).take lower.size = lower := by
      rw [View.stack, Array.append_assoc, Array.take_eq_extract, Array.extract_append_left, Array.extract_size]
    rw [Config.step, show _ = some Inst.ret from hret]
    simp only [Config.exec, View.frame, hcut]
    rfl

end Built

end BaselineTier
