/-
  BaselineTier.Proofs.Compilation — compiling a whole program.

  The code of a program is what opens the frame, the body and the shared way out
  (`Draft.Emitted`); every label that a branch goes to is bound by then, so linking needs
  nothing but room in the pool. Compiling an accepted program breaks no assumption of the
  compiler. It fails for one of the reasons listed (`Obstacle`), at the first instruction that
  is refused, or for want of room in the pool, and it succeeds if nothing of that kind is the
  case (`compile_fails_only_for_cause`).
-/

import BaselineTier.Proofs.Body

namespace BaselineTier

variable {σ : Type}

/-! ## Phases and failures -/

namespace Compilation

open Draft Emit

section Phases

variable {β α : Type} {d : Draft β} {E : CompileError → Prop} {Q : α → Draft β → Prop}

theorem advance_ok {before after : Phase} (h : d.phase = before) :
    advance before after d = .ok () { d with phase := after } := by
  rw [advance, bind_eq (get_eq d), Emit.assume, if_pos (decide_eq_true h)]
  rfl

/-- A failure is only noted. -/
theorem failing_yields {x : Emit β α} (h : Yields x d E Q) : Yields (failing x) d E Q := by
  obtain ⟨e, d', hx, he⟩ | ⟨a, d', hx, hq⟩ := h.cases
  · have hf : failing x d = .error (.error e) { d' with phase := .failed e.status } := by simp only [failing, hx]
    exact .of_error hf he
  · exact .of_ok (by simp only [failing, hx]) hq

theorem check_yields (job : Job β) (d : Draft β) :
    Yields (check job) d (fun e => (e = .cantCompile .argumentsObject ∧ job.program.needsArguments = true) ∨
        (e = .cantCompile (.tooLarge job.program.length job.settings.maxScriptLength) ∧
          job.program.needsArguments = false ∧
          job.settings.maxScriptLength < job.program.length))
      fun _ d' => d' = d ∧ job.program.needsArguments = false ∧ job.program.length ≤ job.settings.maxScriptLength := by
  by_cases hargs : job.program.needsArguments = true
  · have hx : check job d = .error (.error (.cantCompile .argumentsObject)) d := by
      rw [check, if_pos hargs]
      rfl
    exact .of_error hx (.inl ⟨rfl, hargs⟩)
  · by_cases hlong : job.settings.maxScriptLength < job.program.length
    · have hx : check job d = .error (.error (.cantCompile (.tooLarge job.program.length job.settings.maxScriptLength)))
          d := by
        rw [check, if_neg hargs, if_pos hlong]
        rfl
      exact .of_error hx (.inr ⟨rfl, by simpa using hargs, hlong⟩)
    · have hx : check job d = .ok () d := by
        rw [check, if_neg hargs, if_neg hlong]
        rfl
      exact .of_ok hx ⟨rfl, by simpa using hargs, Nat.le_of_not_lt hlong⟩

theorem makeLabels_ok {job : Job β} (hlabels : d.buffer.labels = #[]) (hshort : job.program.length < 2 ^ 32) :
    makeLabels job d = .ok () { d with
      buffer := { d.buffer with labels := (Array.replicate job.program.length none).push none }
      exit := some ⟨job.program.length⟩ } := by
  have hroom : d.buffer.reserve (job.program.length + 1) = .ok () := by
    rw [CodeBuffer.reserve, hlabels]
    exact if_pos (by simp only [List.size_toArray, List.length_nil]; omega)
  rw [makeLabels, bind_eq (get_eq d)]
  simp only [hroom]
  show EStateM.Result.ok _ _ = _
  simp [CodeBuffer.newLabels, hlabels]

/-- Moves that leave the operand stack alone. -/
theorem moves_level {ms : List Move} (h : ∀ m ∈ ms, ∀ height, m.height height = some height) :
    ∃ d', moves ms d = .ok () d' ∧ d.Adds (ms.map .move) d' ∧ d'.stack = d.stack ∧ d'.buffer.height = d.buffer.height :=
  moves_of_heightAfter (Move.heightAfter_level fun m hm => h m hm _)

end Phases

def clearing (slots : Nat) : List Move := (List.range slots).map fun index => .setCell .undefined (.slot index)

def opening (slots : Nat) : List (Inst Label) := .enterFrame slots :: (clearing slots).map .move ++ [.stackCheck]

/-- The code that comes first, piece by piece. It leaves the counted height alone. -/
theorem opening_ok {β : Type} (slots : Nat) (d : Draft β) :
    ∃ d₁ d₂ d₃, inst (.enterFrame slots) d = .ok () d₁ ∧ moves (clearing slots) d₁ = .ok () d₂ ∧
      inst .stackCheck d₂ = .ok () d₃ ∧
      d.Adds (opening slots) d₃ ∧ d₃.stack = d.stack ∧
      d₁.buffer.height = d.buffer.height ∧ d₂.buffer.height = d.buffer.height ∧ d₃.buffer.height = d.buffer.height := by
  obtain ⟨d₁, hd₁, hadds₁, hstack₁, hheight₁⟩ := inst_ok (d := d) (i := .enterFrame slots) rfl
  have hlevel : ∀ m ∈ clearing slots, ∀ height, m.height height = some height := by
    intro m hm height
    obtain ⟨index, _, rfl⟩ := List.mem_map.mp hm
    rfl
  obtain ⟨d₂, hd₂, hadds₂, hstack₂, hheight₂⟩ := moves_level (d := d₁) hlevel
  obtain ⟨d₃, hd₃, hadds₃, hstack₃, hheight₃⟩ := inst_ok (d := d₂) (i := .stackCheck) rfl
  refine ⟨d₁, d₂, d₃, hd₁, hd₂, hd₃, (hadds₁.trans hadds₂).trans hadds₃, ?_, hheight₁, ?_, ?_⟩
  · rw [hstack₃, hstack₂, hstack₁]
  · rw [hheight₂, hheight₁]
  · rw [hheight₃, hheight₂, hheight₁]

theorem prologue_ok {β : Type} {job : Job β} {d : Draft β} (hphase : d.phase = .initialized) :
    ∃ d', prologue job d = .ok () { d' with phase := .prologueEmitted } ∧ d.Adds (opening job.program.slots) d' ∧
      d'.stack = d.stack ∧ d'.buffer.height = d.buffer.height := by
  obtain ⟨d₁, d₂, d₃, hd₁, hd₂, hd₃, hadds, hstack, _, _, hheight⟩ := opening_ok job.program.slots d
  refine ⟨d₃, ?_, hadds, hstack, hheight⟩
  exact (bind_eq hd₁).trans ((bind_eq hd₂).trans ((bind_eq hd₃).trans (advance_ok (by rw [hadds.phase, hphase]))))

end Compilation

/-! ## Everything up to linking -/

/-- The code of a whole program: what comes first, the body between two drafts, and the way out. -/
structure Draft.Emitted (job : Job (StubBody σ)) (d₁ d₂ f : Draft (StubBody σ)) : Prop where
  first : ∀ {k : Nat} {i : Inst Label}, (Compilation.opening job.program.slots)[k]? = some i →
    d₁.buffer.insts[k]? = some i
  start : d₁.buffer.offset = (Compilation.opening job.program.slots).length
  empty : d₁.stack = {}
  body : Body job job.program.instructions d₁ d₂
  grows : d₂.Grows f
  exit : f.exit = some ⟨job.program.length⟩
  out : f.buffer.labelOffset? ⟨job.program.length⟩ = some d₂.buffer.offset
  leave : f.buffer.insts[d₂.buffer.offset]? = some .leaveFrame
  ret : f.buffer.insts[d₂.buffer.offset + 1]? = some .ret
  bound : ∀ {k : Nat} {i : Inst Label} {l : Label}, f.buffer.insts[k]? = some i → i.target? = some l →
    (f.buffer.labelOffset? l).isSome = true
  sites : f.sites.sites.size = job.program.sites
  stubs : f.sites.store.stubs.size = job.program.sites
  limits : f.sites.maxSites = job.settings.maxSites ∧ f.sites.store.limit = job.settings.maxStubs
  fits : f.Fits
  patched : f.Patched
  phase : f.phase = .epilogueEmitted

/-- What stands against compiling a program, apart from the room for its code, with the error that says so. -/
inductive Obstacle (p : Program) (s : Settings) : CompileError → Prop
  | arguments {i : Instruction} : i ∈ p.instructions → i.opcode = .arguments →
      Obstacle p s (.cantCompile .argumentsObject)
  | tooLarge : s.maxScriptLength < p.length → Obstacle p s (.cantCompile (.tooLarge p.length s.maxScriptLength))
  | unsupported {i : Instruction} : p.stackMap.Refused p.instructions i → i.opcode ≠ .arguments →
      Obstacle p s (.cantCompile (.unsupported i.opcode i.offset))
  | sites : s.maxSites < p.sites → Obstacle p s (.tableFull s.maxSites)
  | stubs : s.maxStubs < p.sites → Obstacle p s (.stubsExhausted s.maxStubs)

namespace Compilation

open Draft Emit

variable {job : Job (StubBody σ)}

theorem exists_arguments (hj : job.Sound) (h : job.program.needsArguments = true) :
    ∃ i ∈ job.program.instructions, i.opcode = .arguments := by
  rw [hj.verified.arguments, List.any_eq_true] at h
  obtain ⟨i, hi, hop⟩ := h
  exact ⟨i, hi, eq_of_beq hop⟩

theorem ne_arguments (hj : job.Sound) (h : job.program.needsArguments = false) {i : Instruction}
    (hi : i ∈ job.program.instructions) : i.opcode ≠ .arguments := by
  intro hop
  rw [hj.verified.arguments, List.any_eq_false] at h
  exact h i hi (beq_iff_eq.mpr hop)

/-- The draft that the body begins with. -/
theorem stage_start (hj : job.Sound) {d d₁ : Draft (StubBody σ)} (hadds : d.Adds (opening job.program.slots) d₁)
    (hstack : d₁.stack = {}) (hheight : d₁.buffer.height = 0) (hinsts : d.buffer.insts = #[])
    (hlabels : d.buffer.labels = (Array.replicate job.program.length none).push none)
    (hexit : d.exit = some ⟨job.program.length⟩)
    (hsites : d.sites = .empty job.settings.maxSites job.settings.maxStubs) :
    Stage job 0 false [] 0 { d₁ with phase := .prologueEmitted } := by
  refine ⟨⟨by rw [hstack]; exact VirtualStack.check_ok_iff.mp rfl, by rw [hstack]; exact hheight⟩, by rw [hstack]; rfl,
    by rw [hstack]; exact Nat.zero_le _, hadds.exit.trans hexit, fun info hinfo _ => ?_, fun {k} _ hk => ?_,
    fun {k} hk => ?_, fun {k i l} hk ht => ?_, by rw [hadds.sites, hsites]; rfl, by rw [hadds.sites, hsites]; rfl, ?_⟩
  · rw [hj.verified.depth_eq hinfo .start, hstack]
    rfl
  · show d₁.buffer.labels[k]? = some none
    rw [hadds.labels, hlabels, Array.getElem?_push, Array.size_replicate]
    split
    · rfl
    · rw [Array.getElem?_replicate, if_pos (by omega)]
  · cases hk
  · have hk' : d₁.buffer.insts[k]? = some i := hk
    rw [hadds.insts, hinsts, Array.empty_append, List.getElem?_toArray] at hk'
    have hmem := List.mem_of_getElem? hk'
    simp only [opening, List.cons_append, List.mem_cons, List.mem_append, List.mem_map, List.not_mem_nil,
      or_false] at hmem
    rcases hmem with rfl | ⟨m, _, rfl⟩ | rfl <;> cases ht
  · rw [Fits, hadds.sites, hsites]
    exact ⟨Nat.zero_le _, Nat.zero_le _⟩

theorem inst_heights {i : Inst Label} {d d' : Draft (StubBody σ)} (h : Emit.inst i d = .ok () d') :
    d'.buffer.heights = d.buffer.heights.push d.buffer.height := by
  obtain ⟨buffer, hb, rfl⟩ := of_inst h
  rw [(CodeBuffer.emit_ok hb).2]

/-- The way out is bound and its code follows; the heights of what is there stay. -/
theorem epilogue_ok {d : Draft (StubBody σ)} {label : Label} (hexit : d.exit = some label)
    (hfree : d.buffer.labels[label.index]? = some none) (hphase : d.phase = .bodyEmitted) :
    ∃ d₁ d', epilogue d = .ok () { d' with phase := .epilogueEmitted } ∧ d.Binds label d₁ ∧
      d₁.Adds [.leaveFrame, .ret] d' ∧
      ∀ k < d.buffer.heights.size, d'.buffer.heights[k]? = d.buffer.heights[k]? := by
  obtain ⟨d₁, hd₁, hbinds⟩ := bind_label_ok hfree
  obtain ⟨d₂, hd₂, hadds₂, _⟩ := inst_ok (d := d₁) (i := .leaveFrame) rfl
  obtain ⟨d₃, hd₃, hadds₃, _⟩ := inst_ok (d := d₂) (i := .ret) rfl
  have hadds := hadds₂.trans hadds₃
  refine ⟨d₁, d₃, ?_, hbinds, hadds, fun k hk => ?_⟩
  · have hlabel : (exitLabel : Emit (StubBody σ) Label) d = .ok label d := by
      rw [exitLabel, bind_eq (get_eq d), hexit]
      rfl
    have hphase₃ : d₃.phase = .bodyEmitted := by rw [hadds.phase, hbinds.eq]; exact hphase
    exact (bind_eq hlabel).trans ((bind_eq hd₁).trans ((bind_eq hd₂).trans ((bind_eq hd₃).trans (advance_ok hphase₃))))
  · rw [inst_heights hd₃, inst_heights hd₂, hbinds.eq, Array.getElem?_push, if_neg (by simp; omega),
      Array.getElem?_push,
      if_neg (Nat.ne_of_lt hk)]

def labelled (job : Job (StubBody σ)) : Draft (StubBody σ) :=
  { Draft.start job.settings with
    buffer := { labels := (Array.replicate job.program.length none).push none }
    exit := some ⟨job.program.length⟩
    phase := .initialized }

/-- A job that passes the checks gets its labels. -/
theorem start_checks (hlen : job.program.length < 2 ^ 32) :
    Yields (start job) (.start job.settings) (fun e =>
      (e = .cantCompile .argumentsObject ∧ job.program.needsArguments = true) ∨
        (e = .cantCompile (.tooLarge job.program.length job.settings.maxScriptLength) ∧
          job.program.needsArguments = false ∧
          job.settings.maxScriptLength < job.program.length))
      fun _ d => d = labelled job ∧ job.program.needsArguments = false ∧
        job.program.length ≤ job.settings.maxScriptLength := by
  have hmake (d : Draft (StubBody σ)) (hd : d = .start job.settings) :
      makeLabels job d = .ok () { labelled job with phase := .created } := by
    subst hd
    exact makeLabels_ok rfl hlen
  refine (failing_yields ((check_yields job _).bind fun _ d ⟨hd, hrest⟩ => .of_ok (hmake d hd) ⟨rfl, hrest⟩)).bind
    (P := fun _ d => d = { labelled job with phase := .created } ∧ _) fun _ d ⟨hd, hrest⟩ => ?_
  subst hd
  exact .of_ok (advance_ok rfl) ⟨rfl, hrest⟩

theorem start_yields (hj : job.Sound) :
    Yields (start job) (.start job.settings) (Obstacle job.program job.settings) fun _ d =>
      d = labelled job ∧ job.program.needsArguments = false ∧
      job.program.length ≤ job.settings.maxScriptLength := by
  refine (start_checks hj.short).mono (fun e he => ?_) fun _ _ h => h
  rcases he with ⟨rfl, hargs⟩ | ⟨rfl, _, hlong⟩
  · obtain ⟨i, hi, hop⟩ := exists_arguments hj hargs
    exact .arguments hi hop
  · exact .tooLarge hlong

/-- With the way out behind the body, every branch has its place. -/
theorem emitted_of_fills (hj : job.Sound) {d d₁ d₂ d₃ d' : Draft (StubBody σ)}
    (hadds : (labelled job).Adds (opening job.program.slots) d) (hd₁ : d₁ = { d with phase := .prologueEmitted })
    (hempty : d₁.stack = {}) (hfills : Fills job job.program.instructions [] 0 d₁ d₂)
    (hbinds : Binds { d₂ with phase := .bodyEmitted } ⟨job.program.length⟩ d₃)
    (hadds' : d₃.Adds [.leaveFrame, .ret] d') :
    Emitted job d₁ d₂ { d' with phase := .epilogueEmitted } := by
  subst hd₁
  obtain ⟨fell, ts, hstage⟩ := hfills.stage
  rw [Nat.zero_add] at hstage
  have hoffset : d₃.buffer.offset = d₂.buffer.offset := hbinds.offset
  have hgrows₃ : d₂.Grows d₃ := ⟨hbinds.grows.insts, hbinds.grows.labels, hbinds.grows.patches, hbinds.grows.sites,
    hbinds.grows.stubs,
    hbinds.grows.exit, hbinds.grows.patched, hbinds.grows.limits⟩
  have hgrows' := hadds'.grows
  have hgrows : d₂.Grows { d' with phase := .epilogueEmitted } := by
    have hg := hgrows₃.trans hgrows'
    exact ⟨hg.insts, hg.labels, hg.patches, hg.sites, hg.stubs, hg.exit, hg.patched, hg.limits⟩
  have hinsts : d₃.buffer.insts = d₂.buffer.insts := by rw [hbinds.eq]
  have hsites : d'.sites = d₂.sites := by rw [hadds'.sites, hbinds.eq]
  have hout : d'.buffer.labelOffset? ⟨job.program.length⟩ = some d₂.buffer.offset := hgrows'.labels hbinds.bound
  have hlimits := hfills.body.grows.limits
  refine ⟨fun hk => ?_, ?_, hempty, hfills.body, hgrows, hgrows.exit hstage.exit, hout, ?_, ?_, fun {k i l} hk ht => ?_,
    by rw [hsites]; exact hstage.sites, by rw [hsites]; exact hstage.stubs, ?_, by rw [Fits, hsites]; exact hstage.fits,
    hgrows.patched (hfills.body.grows.patched ?_), rfl⟩
  · have hinst := hadds.inst hk
    rwa [show (labelled job).buffer.offset = 0 from rfl, Nat.zero_add] at hinst
  · have hoff := hadds.offset
    rwa [show (labelled job).buffer.offset = 0 from rfl, Nat.zero_add] at hoff
  · rw [← hoffset]
    exact hadds'.inst (k := 0) rfl
  · rw [← hoffset]
    exact hadds'.inst (k := 1) rfl
  · have hk' : d'.buffer.insts[k]? = some i := hk
    rw [hadds'.insts, hinsts, Array.getElem?_append] at hk'
    split at hk'
    · rcases hstage.waiting hk' ht with hb | hexit | htarget
      · obtain ⟨offset, hb⟩ := Option.isSome_iff_exists.mp hb
        rw [hgrows.labels hb]
        rfl
      · rw [hstage.exit] at hexit
        cases hexit
        show (d'.buffer.labelOffset? _).isSome = true
        rw [hout]
        rfl
      · obtain ⟨j, hjmem, hjo, _⟩ := hj.verified.jumpTarget htarget
        have hlt : l.index < job.program.length := hjo ▸ hj.verified.tiles.offset_lt hjmem
        obtain ⟨offset, hb⟩ := Option.isSome_iff_exists.mp (hstage.bound hlt htarget)
        rw [hgrows.labels hb]
        rfl
    · have hmem := Array.mem_of_getElem? hk'
      simp only [List.mem_toArray, List.mem_cons, List.not_mem_nil, or_false] at hmem
      rcases hmem with rfl | rfl <;> cases ht
  · rw [hsites, hlimits.1, hlimits.2]
    show d.sites.maxSites = _ ∧ d.sites.store.limit = _
    rw [hadds.sites]
    exact ⟨rfl, rfl⟩
  · have hnone : d.buffer.patches = #[] := hadds.patches
    intro p hp
    exact absurd (hnone ▸ hp : p ∈ #[]) (Array.not_mem_empty p)

theorem body_yields (hj : job.Sound) {d : Draft (StubBody σ)} (hs : Stage job 0 false [] 0 d)
    (hphase : d.phase = .prologueEmitted) :
    Yields (body job) d (Stops job job.program.instructions [] d) fun _ d' =>
      ∃ d₂, d' = { d₂ with phase := .bodyEmitted } ∧ Fills job job.program.instructions [] 0 d d₂ := by
  rw [body, lowerAll_offsets hj.verified]
  refine (failing_yields (lowerEach_yields hj hj.verified.tiles (fun _ hi => hi) hs)).bind fun _ d₂ hfills => ?_
  exact .of_ok (advance_ok (hfills.body.phase.trans hphase)) ⟨d₂, rfl, hfills⟩

/-- What stops the body stands against compiling the job. -/
theorem obstacle_of_stops (hj : job.Sound) (hargs : job.program.needsArguments = false) {d : Draft (StubBody σ)}
    {e : CompileError} (hsites : d.sites = .empty job.settings.maxSites job.settings.maxStubs)
    (h : Stops job job.program.instructions [] d e) :
    Obstacle job.program job.settings e := by
  rcases h with (⟨rfl, hlt⟩ | ⟨rfl, hlt⟩) | ⟨i, hi, rfl⟩
  · rw [hsites] at hlt ⊢
    exact .sites (Nat.lt_of_lt_of_eq hlt (Nat.zero_add _))
  · rw [hsites] at hlt ⊢
    exact .stubs (Nat.lt_of_lt_of_eq hlt (Nat.zero_add _))
  · exact .unsupported hi (ne_arguments hj hargs hi.mem)

/-- Nothing stands against a job whose code was emitted. -/
theorem not_obstacle (hj : job.Sound) {d₁ d₂ f : Draft (StubBody σ)} (hargs : job.program.needsArguments = false)
    (hshort : job.program.length ≤ job.settings.maxScriptLength) (hf : Emitted job d₁ d₂ f)
    (htaken : ∀ i ∈ job.program.instructions, job.program.stackMap.isReachable i.offset = true →
      i.opcode.isRefused = false) (e : CompileError) : ¬Obstacle job.program job.settings e := by
  have hfits := hf.fits
  rw [Fits, hf.sites, hf.stubs, hf.limits.1, hf.limits.2] at hfits
  intro h
  cases h with
  | arguments hi hop => exact ne_arguments hj hargs hi hop
  | tooLarge hlt => omega
  | unsupported hi _ =>
    have hnot := htaken _ hi.mem hi.reachable
    rw [hi.refused] at hnot
    cases hnot
  | sites hlt => omega
  | stubs hlt => omega

/-- Emitting breaks no assumption, and succeeds if nothing stands against it. -/
theorem emission_yields (hj : job.Sound) :
    Yields (emission job) (.start job.settings) (Obstacle job.program job.settings) fun _ f =>
      (∃ d₁ d₂, Emitted job d₁ d₂ f) ∧ ∀ e, ¬Obstacle job.program job.settings e := by
  refine (start_yields hj).bind fun _ d ⟨hd, hargs, hshort⟩ => ?_
  subst hd
  obtain ⟨d, hd, hadds, hstack, hheight⟩ := prologue_ok (d := labelled job) rfl
  refine .bind_ok hd ?_
  have hstage := stage_start hj hadds hstack hheight rfl rfl rfl rfl
  refine ((body_yields hj hstage rfl).mono (fun e he => obstacle_of_stops hj hargs hadds.sites he) fun _ _ h => h).bind
    fun _ d' ⟨d₂, hd', hfills⟩ => ?_
  subst hd'
  obtain ⟨_, _, hend⟩ := hfills.stage
  have hphase : ({ d₂ with phase := .bodyEmitted } : Draft (StubBody σ)).phase = .bodyEmitted := rfl
  obtain ⟨d₃, d₄, hd₄, hbinds, hadds', _⟩ := epilogue_ok (d := { d₂ with phase := .bodyEmitted }) hend.exit
    (hend.free (Nat.le_refl _) (Nat.le_refl _)) hphase
  have hemitted := emitted_of_fills hj hadds rfl hstack hfills hbinds hadds'
  exact .of_ok hd₄ ⟨⟨_, d₂, hemitted⟩, not_obstacle hj hargs hshort hemitted hfills.taken⟩

end Compilation

/-! ## Linking -/

theorem Inst.resolve_ok {i : Inst Label} {find : Label → Except LinkError Nat}
    (h : ∀ l, i.target? = some l → ∃ offset, find l = .ok offset) : ∃ i', i.resolve find = .ok i' := by
  cases i with
  | jump target => obtain ⟨offset, ho⟩ := h target rfl; exact ⟨.jump offset, by rw [resolve, ho]; rfl⟩
  | branch reg condition target =>
    obtain ⟨offset, ho⟩ := h target rfl; exact ⟨.branch reg condition offset, by rw [resolve, ho]; rfl⟩
  | branchNumber reg target =>
    obtain ⟨offset, ho⟩ := h target rfl; exact ⟨.branchNumber reg offset, by rw [resolve, ho]; rfl⟩
  | _ => exact ⟨_, rfl⟩

/-- If every label that is used is bound, the labels can be turned into offsets. -/
theorem CodeBuffer.resolved_of_bound {b : CodeBuffer}
    (h : ∀ {k : Nat} {i : Inst Label} {l : Label}, b.insts[k]? = some i → i.target? = some l →
      (b.labelOffset? l).isSome = true) :
    ∃ insts, b.resolved = .ok insts ∧ insts.size = b.insts.size ∧
      ∀ {k : Nat} {i : Inst Label}, b.insts[k]? = some i → ∃ i', insts[k]? = some i' ∧ i.resolve b.find = .ok i' := by
  have hall : ∀ i ∈ b.insts, ∃ i', i.resolve b.find = .ok i' := by
    intro i hi
    obtain ⟨k, hk⟩ := Array.mem_iff_getElem?.mp hi
    refine Inst.resolve_ok fun l hl => ?_
    obtain ⟨offset, hb⟩ := Option.isSome_iff_exists.mp (h hk hl)
    exact ⟨offset, by rw [CodeBuffer.find, hb]⟩
  obtain ⟨insts, hinsts⟩ := Array.exists_mapM (splits_except LinkError) hall
  refine ⟨insts, hinsts, ?_, fun {k i} hk => ?_⟩
  · have hmap := congrArg Array.size ((Array.mapM_eq_pure_iff (splits_except LinkError)).mp hinsts)
    rw [Array.size_map, Array.size_map] at hmap
    exact hmap.symm
  · have hplace := Array.getElem?_of_mapM (splits_except LinkError) hinsts k
    rw [hk, Option.map_some] at hplace
    obtain ⟨i', hi', hresolve⟩ := Option.map_eq_some_iff.mp hplace.symm
    exact ⟨i', hi', hresolve.symm⟩

namespace Compilation

open Draft Emit

variable {job : Job (StubBody σ)} {d₁ d₂ f : Draft (StubBody σ)}

/-- The code of a method that is linked from the draft. -/
theorem resolved_ok (hf : Emitted job d₁ d₂ f) :
    ∃ insts, f.buffer.resolved = .ok insts ∧ insts.size = f.buffer.insts.size ∧
      ∀ {k : Nat} {i : Inst Label}, f.buffer.insts[k]? = some i →
        ∃ i', insts[k]? = some i' ∧ i.resolve f.buffer.find = .ok i' := CodeBuffer.resolved_of_bound hf.bound

theorem installed_of_emitted (hj : job.Sound) (hf : Emitted job d₁ d₂ f) {insts : Array (Inst Nat)}
    (hget : ∀ {k : Nat} {i : Inst Label}, f.buffer.insts[k]? = some i →
        ∃ i', insts[k]? = some i' ∧ i.resolve f.buffer.find = .ok i') :
    f.Installed (Method.make (.ofInsts insts 0 f.buffer.patches) f.sites) := by
  have hfew : job.program.sites < 2 ^ 32 := by
    have hle := StackMap.sites_le_length job.program.stackMap job.program.instructions []
    have hcount := hj.verified.tiles.length_le
    have hshort := hj.short
    rw [Program.length] at hshort
    rw [Program.sites]
    omega
  refine ⟨hget, rfl, rfl, rfl, ?_, ?_⟩
  · show f.sites.sites.size < 2 ^ 32
    rw [hf.sites]
    exact hfew
  · show f.sites.store.stubs.size ≤ 2 ^ 32
    rw [hf.stubs]
    exact Nat.le_of_lt hfew

theorem finish_ok {β : Type} {f : Draft β} {c : LinkedCode} (hphase : f.phase = .linked)
    (hpatches : ∀ p ∈ c.patches, p.site < f.sites.sites.size) : ∃ d, finish c f = .ok (Method.make c f.sites) d := by
  have hall : (c.patches.all fun p => decide (p.site < f.sites.sites.size)) = true := by
    rw [Array.all_eq_true_iff_forall_mem]
    exact fun p hp => decide_eq_true (hpatches p hp)
  refine ⟨{ f with phase := .installed }, ?_⟩
  rw [finish, bind_eq (advance_ok hphase), bind_eq (get_eq _)]
  exact bind_eq (assume_ok hall _ _)

theorem link_ok {β : Type} {f : Draft β} {c : LinkedCode} (hphase : f.phase = .epilogueEmitted)
    (hpatches : ∀ p ∈ c.patches, p.site < f.sites.sites.size) :
    ∃ d, (link (.ok c) >>= finish) f = .ok (Method.make c f.sites) d := by
  have hlink : link (.ok c) f = .ok c { f with buffer := .empty, phase := .linked } := by
    obtain ⟨buffer, stack, sites, exit, pc, phase⟩ := f
    subst hphase
    rfl
  rw [bind_eq hlink]
  exact finish_ok rfl hpatches

theorem link_error {β : Type} (fault : Fault CompileError) (f : Draft β) :
    ∃ d, (link (.error fault) >>= finish) f = .error fault d := by
  cases fault with
  | error e => exact ⟨_, rfl⟩
  | breach b => exact ⟨_, rfl⟩

/-- How compiling may end: something stands against it, the pool has no room for the code, or there is a method. -/
inductive Ending (job : Job (StubBody σ)) (pool : CodePool) :
    Except (Fault CompileError) (Method (StubBody σ)) × CodePool → Prop
  | hindered {e : CompileError} : Obstacle job.program job.settings e → Ending job pool (.error (.error e), pool)
  | exhausted {f : Draft (StubBody σ)} : (∀ e, ¬Obstacle job.program job.settings e) →
      emission job (.start job.settings) = .ok () f →
      pool.available < f.buffer.insts.size →
      Ending job pool (.error (.error (.link (.poolExhausted f.buffer.insts.size pool.available))), pool)
  | compiled {f : Draft (StubBody σ)} {m : Method (StubBody σ)} : (∀ e, ¬Obstacle job.program job.settings e) →
      emission job (.start job.settings) = .ok () f → m.code.size = f.buffer.insts.size → m.code.size ≤ pool.available →
      Ending job pool (.ok m, { pool with used := pool.used + m.code.size })

theorem compile_ends (hj : job.Sound) (pool : CodePool) : Ending job pool (compile job Linker.pool pool) ∧
    ∀ m, (compile job Linker.pool pool).1 = .ok m → ∃ d₁ d₂ f, emission job (.start job.settings) = .ok () f ∧
      Emitted job d₁ d₂ f ∧
      f.Installed m ∧ m.code.entry = 0 := by
  rw [compile]
  obtain ⟨e, d, he, hobstacle⟩ | ⟨_, f, he, ⟨d₁, d₂, hf⟩, hnone⟩ := (emission_yields hj).cases
  · rw [he]
    exact ⟨.hindered hobstacle, fun m hm => by cases hm⟩
  · rw [he]
    obtain ⟨insts, hinsts, hsize, hget⟩ := resolved_ok hf
    by_cases hroom : insts.size ≤ pool.available
    · have hreserve : pool.reserve insts.size = .ok { pool with used := pool.used + insts.size } := if_pos hroom
      have hpool : Linker.pool f.buffer pool =
          (.ok (.ofInsts insts 0 f.buffer.patches), { pool with used := pool.used + insts.size }) := by
        simp only [Linker.pool, CodeBuffer.link, hinsts, Bind.bind, Except.bind, hreserve, pure, Except.pure]
      obtain ⟨d, hd⟩ := link_ok (c := .ofInsts insts 0 f.buffer.patches) hf.phase hf.patched
      simp only [hpool, hd]
      refine ⟨.compiled hnone he hsize hroom, fun m hm => ?_⟩
      cases hm
      exact ⟨d₁, d₂, f, rfl, hf, installed_of_emitted hj hf hget, rfl⟩
    · have hreserve : pool.reserve insts.size = .error (.poolExhausted insts.size pool.available) := if_neg hroom
      have hpool : Linker.pool f.buffer pool = (.error
          (.error (.link (.poolExhausted insts.size pool.available))), pool) := by
        simp only [Linker.pool, CodeBuffer.link, hinsts, Bind.bind, Except.bind, hreserve]
      obtain ⟨d, hd⟩ := link_error (.error (.link (.poolExhausted insts.size pool.available))) f
      simp only [hpool, hd]
      rw [hsize] at hroom ⊢
      exact ⟨.exhausted hnone he (Nat.lt_of_not_le hroom), fun m hm => by cases hm⟩

end Compilation

/-- The job of a program that the verifier accepts, with the names that it uses. -/
theorem Job.sound_of_ofCode {name : String} {code : List UInt8} {slots args : Nat} {texts : Array String} {p : Program}
    {atoms : AtomTable} (hp : Program.ofCode name code slots args texts = .ok p) (hlen : p.length < 2 ^ 32)
    (settings : Settings) {source : Source} (hsource : Source.ofProgram? p atoms = some source) :
    Sound (⟨p, settings, atoms, StubBody.fallbacks⟩ : Job (StubBody σ)) :=
  ⟨Program.verified_of_ofCode hp, hlen, ⟨source, hsource⟩, rfl⟩

theorem Source.exists_ofProgram {p : Program} {atoms : AtomTable}
    (h : ∀ text ∈ p.atoms, (atoms.lookup text).isSome = true) :
    ∃ source, ofProgram? p atoms = some source := by
  obtain ⟨names, hnames⟩ := Array.exists_mapM splits_option fun text ht => Option.isSome_iff_exists.mp (h text ht)
  exact ⟨⟨p, names⟩, by rw [ofProgram?, hnames]; rfl⟩

namespace Compilation

/-- The ways to end name every error that there can be. -/
theorem Ending.cause {job : Job (StubBody σ)} {pool : CodePool}
    {result : Except (Fault CompileError) (Method (StubBody σ)) × CodePool} (h : Ending job pool result)
    {fault : Fault CompileError} (hfault : result.1 = .error fault) :
    ∃ e, fault = .error e ∧ (Obstacle job.program job.settings e ∨
      ∃ requested available, e = .link (.poolExhausted requested available)) := by
  cases h with
  | hindered hobstacle =>
    cases hfault
    exact ⟨_, rfl, .inl hobstacle⟩
  | exhausted =>
    cases hfault
    exact ⟨_, rfl, .inr ⟨_, _, rfl⟩⟩
  | compiled => cases hfault

/-- Compiling an accepted program whose names are known breaks no assumption, and nothing of what it relies on is
    missing: no label, no fallback, no name, no instruction. It fails only if something stands against it or the pool is
    out of room. The labels of a program of this length have 32-bit numbers. -/
theorem compile_fails_only_for_cause {name : String} {code : List UInt8} {slots args : Nat} {texts : Array String}
    {p : Program} (hp : Program.ofCode name code slots args texts = .ok p) (hlen : p.length < 2 ^ 32)
    {atoms : AtomTable} (hatoms : ∀ text ∈ p.atoms, (atoms.lookup text).isSome = true) (settings : Settings)
    (pool : CodePool) :
    let job : Job (StubBody σ) := ⟨p, settings, atoms, StubBody.fallbacks⟩
    (∀ breach, (compile job Linker.pool pool).1 ≠ .error (.breach breach)) ∧
      (∀ e, (compile job Linker.pool pool).1 = .error (.error e) → ∀ label kind text cause,
        e ≠ .link (.unboundLabel label) ∧ e ≠ .noFallback kind ∧ e ≠ .unknownAtom text ∧ e ≠ .bytecode cause) ∧
      Ending job pool (compile job Linker.pool pool) := by
  obtain ⟨source, hsource⟩ := Source.exists_ofProgram hatoms
  intro job
  obtain ⟨hending, _⟩ := compile_ends (Job.sound_of_ofCode hp hlen settings hsource) pool
  refine ⟨fun breach h => ?_, fun e h label kind text cause => ?_, hending⟩
  · obtain ⟨e, he, _⟩ := hending.cause h
    cases he
  · obtain ⟨e', he, hobstacle | ⟨requested, available, rfl⟩⟩ := hending.cause h
    · cases he
      cases hobstacle <;> exact ⟨nofun, nofun, nofun, nofun⟩
    · cases he
      exact ⟨nofun, nofun, nofun, nofun⟩

/-- A script that reads a name needs a site, and there is room for none. -/
theorem compile_fails_only_for_cause_site :
    ∃ p : Program, Program.ofCode "f" [0x50, 0, 0, 0, 0, 0x60] 0 0 #["x"] = .ok p ∧ p.length < 2 ^ 32 ∧
      (∀ text ∈ p.atoms, ((AtomTable.internAll .empty ["x"]).lookup text).isSome = true) ∧
      let job : Job (StubBody Unit) := ⟨p, { maxSites := 0 }, .internAll .empty ["x"], StubBody.fallbacks⟩
      (compile job Linker.pool ⟨100, 0⟩).1 = .error (.error (.tableFull 0)) ∧
      (∀ breach, (compile job Linker.pool ⟨100, 0⟩).1 ≠ .error (.breach breach)) ∧
        Ending job ⟨100, 0⟩ (compile job Linker.pool ⟨100, 0⟩) := by
  have hknown : ∀ text ∈ #["x"], ((AtomTable.internAll .empty ["x"]).lookup text).isSome = true := by
    intro text ht
    obtain rfl : text = "x" := by simpa using ht
    cbv
  have hending := @compile_fails_only_for_cause Unit "f" [0x50, 0, 0, 0, 0, 0x60] 0 0 #["x"] _ rfl (by decide) _ hknown
    { maxSites := 0 } ⟨100, 0⟩
  refine ⟨_, rfl, by decide, hknown, ?_, hending.1, hending.2.2⟩
  cbv

end Compilation
end BaselineTier
