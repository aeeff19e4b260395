/-
  BaselineTier.Proofs.Branches — the code of tests, jumps and returns.

  A test brings the tested value into `r0` and turns it into a Boolean there, unless it is
  known to be one (`Testing`). Where it is known and is none, the machine trips; else the
  branch goes where the truth of the value says, with everything written out (`Branching`).
-/

import BaselineTier.Proofs.Operators

namespace BaselineTier.Lowering

open Draft Emit Interpreter

variable {σ : Type} {job : Job (StubBody σ)} {i : Instruction} {d d' d₁ : Draft (StubBody σ)} {ms : List Move}
  {known condition : Bool} {target : Nat}

/-! ## Tests -/

/-- What a test presumes of the top entry, and the site that it needs if it presumes nothing. -/
theorem peek_test {n : Nat} (htest : i.opcode.isTest = true) (hn : d.stack.depth = n + 1) :
    ∃ top, peek 1 d = .ok top d ∧ i.presumes d.stack.knowns = top.isBoolean ∧
      i.sites d.stack.knowns = if top.isBoolean then 0 else 1 := by
  obtain ⟨top, hpeek, _, hlast⟩ := peek_ok hn
  have hpre : i.presumes d.stack.knowns = top.isBoolean := Instruction.presumes_of_isTest htest hlast
  exact ⟨top, hpeek, hpre, by rw [Instruction.sites_of_isTest htest, hpre]⟩

/-- The code of a test comes before what is done with its outcome. -/
theorem test_then (job : Job (StubBody σ)) (known : Bool) (rest : Emit (StubBody σ) Unit) :
    (do unless known do site job .toBool
        rest) = (unless known do site job .toBool) >>= fun _ => rest := by
  cases known <;> rfl

/-- Code that turns `r0` into the Boolean that its value counts as, or leaves it if it is known to be one. -/
structure Testing (d d' : Draft (StubBody σ)) (known : Bool) : Prop where
  code : d.Extends (if known then 0 else 1) (fun _ => False) d'
  stack : d'.stack = d.stack
  good : d.Good → d'.Good
  none : known = true → d' = d
  leads : ∀ {f c} v host scripts lower argc w, d'.Grows f → f.Installed (Config.current c).method →
    (known = true → v.registers.r0.asBool ≠ .none) →
    ∃ argc' x, Config.Leads host scripts (c.place lower d.buffer.offset argc v w)
      (c.place lower d'.buffer.offset argc' (v.setReg .r0 x) w) ∧ x.asBool = some (v.registers.r0.truthy w.atoms)

theorem test_testing (known : Bool) (hfac : job.factory = StubBody.fallbacks) :
    Yields (unless known do site job .toBool) d (d.Lacks (if known then 0 else 1)) fun _ d' => Testing d d' known := by
  cases known with
  | true =>
    refine .of_ok rfl ⟨.refl d _, rfl, fun hg => hg, fun _ => rfl,
      fun {f c} v host scripts lower argc w _ _ hbool => ?_⟩
    obtain ⟨b, hb⟩ := Option.ne_none_iff_exists'.mp (hbool rfl)
    refine ⟨argc, v.registers.get .r0, by rw [View.setReg_get]; exact .refl _, ?_⟩
    rw [Value.truthy_of_asBool w.atoms hb]
    exact hb
  | false =>
    refine (site_answering (fun _ rs => do pure (Value.bool (rs.r0.truthy (← get).atoms))) hfac rfl
      fun _ => Fallback.toBool_performs).mono (fun _ he => he) fun _ d' h => ?_
    refine ⟨h.code, h.stack, h.good, fun hk => (Bool.false_ne_true hk).elim,
      fun {f c} v host scripts lower argc w hg hm _ => ?_⟩
    obtain ⟨argc', v', hlead, rfl⟩ : Config.Ends host scripts c lower (c.place lower d.buffer.offset argc v w) _ _
      (.ok (Value.bool (v.registers.r0.truthy w.atoms)) w) := h.ends hg hm
    exact ⟨argc', _, hlead, Value.asBool_bool _⟩

structure Branching (d d' : Draft (StubBody σ)) (known condition : Bool) (target : Nat) : Prop where
  code : d.Extends (if known then 0 else 1) (· = labelOf target) d'
  stack : d'.stack = d.stack
  good : d.Good → d'.Good
  trips : ∀ {f c v lower argc w}, d'.Grows f → f.Installed (Config.current c).method → known = true →
    v.registers.r0.asBool = none → (c.place lower d.buffer.offset argc v w).TripsOver v.registers.r0
  leads : ∀ {f c} v host scripts lower argc w, d'.Grows f → f.Installed (Config.current c).method →
    (known = true → v.registers.r0.asBool ≠ none) →
    ∃ argc' x pc, Config.Advances host scripts (c.place lower d.buffer.offset argc v w)
      (c.place lower pc argc' (v.setReg .r0 x) w) ∧
      if v.registers.r0.truthy w.atoms = condition then f.buffer.labelOffset? (labelOf target) = some pc
      else pc = d'.buffer.offset

theorem test_branching (known condition : Bool) (target : Nat) (hfac : job.factory = StubBody.fallbacks) (hg : d.Good) :
    Yields (do unless known do site job .toBool
               inst (.branch .r0 condition (labelOf target))) d (d.Lacks (if known then 0 else 1)) fun _ d' =>
      Branching d d' known condition target := by
  rw [test_then]
  refine (test_testing known hfac).bind fun _ d₁ h₁ => ?_
  obtain ⟨d₂, hd₂, hadds₂, hstack₂, hgood₂⟩ := inst_good (h₁.good hg) (i := .branch .r0 condition (labelOf target)) rfl
  have hext : d₁.Extends 0 (· = labelOf target) d₂ := hadds₂.extends_inst fun l hl => (Option.some.inj hl).symm
  have hbranch {f : Draft (StubBody σ)} {m : Method (StubBody σ)} (hg : d₂.Grows f) (hm : f.Installed m) :
      ∃ offset, f.buffer.labelOffset? (labelOf target) = some offset ∧
        m.code.insts[d₁.buffer.offset]? = some (.branch .r0 condition offset) :=
    hm.branch hg (hadds₂.inst (k := 0) rfl) fun _ => rfl
  refine .of_ok hd₂ ⟨(h₁.code.mono fun _ hl => hl.elim).trans hext, hstack₂.trans h₁.stack, fun _ => hgood₂, ?_, ?_⟩
  · intro f c v lower argc w hg hm hknown hbool
    obtain ⟨offset, _, hinst⟩ := hbranch hg hm
    rw [h₁.none hknown] at hinst
    exact ⟨hbool, .r0, rfl, .inr ⟨condition, offset, hinst⟩⟩
  · intro f c v host scripts lower argc w hg hm hbool
    obtain ⟨offset, hoffset, hinst⟩ := hbranch hg hm
    obtain ⟨argc', x, hlead, hx⟩ := h₁.leads v host scripts lower argc w (hadds₂.grows.trans hg) hm hbool
    have hr₀ : ((v.setReg .r0 x).registers.get .r0).asBool = some (v.registers.r0.truthy w.atoms) := by
      rw [View.get_setReg_self, hx]
    refine ⟨argc', x, _, hlead.advances (Config.step_branch hinst hr₀), ?_⟩
    split
    · exact hoffset
    · exact hadds₂.offset.symm

/-- Moves that bring the tested value into `r0` and write out everything, and then a test and its branch. -/
theorem Branching.lowered (h : Branching d₁ d' known condition target) (hadds : d.Adds (ms.map .move) d₁)
    (hgood : d₁.Good) (hset : d₁.stack.Settled) (htarget : i.target? = some target)
    (hpre : i.presumes d.stack.knowns = known) (hsites : i.sites d.stack.knowns = if known then 0 else 1)
    (hknowns : d₁.stack.knowns = i.typesAfter d.stack.knowns) (hfalls : i.opcode.fallsThrough = true)
    (hrun : ∀ v e, Mirrors job d v e → ∃ a rest e₁ v₁, e.operands = a :: rest ∧ v.performAll ms = some v₁ ∧
      v₁.registers.r0 = a ∧ d₁.stack.Stands v₁ e₁.operands.reverse ∧ v₁.slots = v.slots ∧ v₁.args = v.args ∧
      e₁ = { e with operands := e₁.operands } ∧ ∀ (host : Host σ) w, act host i e w = jumpIf i condition a e₁ w) :
    Lowered job i d d' := by
  have hext := (hadds.extends_moves (· = labelOf target)).trans h.code
  rw [Nat.zero_add, ← hsites] at hext
  refine ⟨hext.mono fun l hl => .inl ⟨target, htarget, hl⟩, h.good hgood, by rw [h.stack, hknowns], ?_, ?_⟩
  · intro f c v e host scripts lower argc w hb hmis
    obtain ⟨a, rest, e₁, v₁, ho, hperf, hr₀, _⟩ := hrun v e hb.mirrors
    obtain ⟨hknown, x, hx, hbool⟩ := hmis
    rw [hpre] at hknown
    rw [ho] at hx
    cases hx
    rw [← hr₀] at hbool
    refine ⟨v₁.registers.r0, by rw [ho, hr₀]; rfl, _,
      hadds.leads (h.code.grows.trans hb.grows) hb.installed hperf, ?_, rfl⟩
    exact h.trips hb.grows hb.installed hknown hbool
  · intro f c v e host scripts lower argc w hb hmis
    obtain ⟨a, rest, e₁, v₁, ho, hperf, hr₀, hst, hslots, hargs, he₁, hact⟩ := hrun v e hb.mirrors
    have hbool : known = true → v₁.registers.r0.asBool ≠ none := fun hknown hbool =>
      hmis ⟨hpre.trans hknown, a, by rw [ho]; rfl, by rw [← hr₀]; exact hbool⟩
    obtain ⟨argc', x, pc, hadv, hpc⟩ := h.leads v₁ host scripts lower argc w hb.grows hb.installed hbool
    have hmoves : Config.Leads host scripts (c.place lower d.buffer.offset argc v w) _ :=
      hadds.leads (h.code.grows.trans hb.grows) hb.installed hperf
    have hst' : d'.stack.Stands (v₁.setReg .r0 x) e₁.operands.reverse := by
      rw [h.stack]
      exact hst.setReg (hset.unclaimed .r0) x
    rw [hact]
    show Outcome job i d' f host scripts c lower _ e
      ((if a.truthy w.atoms = condition then jump i e₁ else goOn e₁ : Ask σ Effect) w)
    rw [hr₀] at hpc
    split at hpc
    · rename_i hcond
      rw [if_pos hcond]
      have hjump : (jump i e₁ : Ask σ Effect) w = .ok (.goOn { e₁ with offset := target }) w := by
        rw [jump, htarget]; rfl
      rw [hjump]
      exact .jumped (hmoves.advance hadv) htarget hpc (hb.mirrors.same hst' hslots hargs (by rw [he₁]))
        (by rw [h.stack]; exact hset)
    · rename_i hcond
      rw [if_neg hcond]
      rw [hpc] at hadv
      exact .fell hfalls (hmoves.trans hadv.leads) (by rw [he₁]) (hb.mirrors.same hst' hslots hargs (by rw [he₁]))

theorem branch_lowered {n : Nat} (hop : i.opcode = .ifEq ∨ i.opcode = .ifNe) (htarget : i.target? = some target)
    (hlt : target < job.program.length) (hfac : job.factory = StubBody.fallbacks) (hg : d.Good)
    (hroom : d.stack.depth < 2 ^ 30) (hn : d.stack.depth = n + 1) :
    Yields (branch job i) d (d.Lacks (i.sites d.stack.knowns)) fun _ d' => Lowered job i d d' := by
  have htest : i.opcode.isTest = true := by rcases hop with hop | hop <;> rw [hop] <;> rfl
  obtain ⟨top, hpeek, hpre, hsites⟩ := peek_test htest hn
  obtain ⟨d₁, ms₁, hd₁, hadds₁, hgood₁, hset₁, hdepth₁, hknowns₁, hrun₁⟩ := popOne_ok hg hroom hn
  refine .bind_ok (target_ok htarget hlt) (.bind_ok hpeek (.bind_ok hd₁ ?_))
  refine (test_branching top.isBoolean (i.opcode = .ifNe) target hfac hgood₁).mono
    (fun _ he => by rwa [hadds₁.lacks, ← hsites] at he) fun _ d' h => ?_
  refine h.lowered hadds₁ hgood₁ hset₁ htarget hpre hsites ?_ (by rcases hop with hop | hop <;> rw [hop] <;> rfl)
    fun v e hmir => ?_
  · rcases hop with hop | hop <;>
      simp [hknowns₁, Instruction.typesAfter, hop, Instruction.pops, Instruction.pushes, VirtualStack.length_knowns, hn]
  · obtain ⟨a, rest, ho, hst⟩ := hmir.top hn
    obtain ⟨v₁, hperf, hst₁, hsame⟩ := hrun₁ hst
    refine ⟨a, rest, { e with operands := rest }, v₁, ho, hperf, by rw [hsame]; rfl,
      hst₁, by rw [hsame]; rfl, by rw [hsame]; rfl,
      rfl, fun host w => ?_⟩
    rcases hop with hop | hop <;> simp only [act, hop, one_eq ho] <;> rfl

theorem shortCircuit_lowered {n : Nat} (hop : i.opcode = .andJump ∨ i.opcode = .orJump)
    (htarget : i.target? = some target) (hlt : target < job.program.length) (hfac : job.factory = StubBody.fallbacks)
    (hg : d.Good) (hroom : d.stack.depth < 2 ^ 30) (hn : d.stack.depth = n + 1) :
    Yields (shortCircuit job i) d (d.Lacks (i.sites d.stack.knowns)) fun _ d' => Lowered job i d d' := by
  have htest : i.opcode.isTest = true := by rcases hop with hop | hop <;> rw [hop] <;> rfl
  obtain ⟨top, hpeek, hpre, hsites⟩ := peek_test htest hn
  obtain ⟨d₁, ms₁, hd₁, hadds₁, hgood₁, hset₁, hdepth₁, hknowns₁, hrun₁⟩ := flushAll_ok hg hroom
  obtain ⟨d₂, hd₂, hadds₂, hstack₂, hgood₂⟩ := move_good hgood₁
    (m := .load (.stack (d₁.stack.depth - 1)) .r0) fun _ => rfl
  have hadds := hadds₁.moves hadds₂
  refine .bind_ok (target_ok htarget hlt) (.bind_ok hpeek (.bind_ok hd₁ (.bind_ok (depth_eq d₁) (.bind_ok hd₂ ?_))))
  refine (test_branching top.isBoolean (i.opcode = .orJump) target hfac hgood₂).mono
    (fun _ he => by rwa [hadds.lacks, ← hsites] at he) fun _ d' h => ?_
  refine h.lowered hadds hgood₂ (by rw [hstack₂]; exact hset₁) htarget hpre hsites ?_
    (by rcases hop with hop | hop <;> rw [hop] <;> rfl) fun v e hmir => ?_
  · rcases hop with hop | hop <;> simp [hstack₂, hknowns₁, Instruction.typesAfter, hop]
  · obtain ⟨a, rest, ho, hst⟩ := hmir.top hn
    obtain ⟨hperf₁, hst₁⟩ := hrun₁ hst
    have hrest : rest.reverse.length = d₁.stack.depth - 1 := by
      have := hst.length
      simp only [List.length_append, List.length_singleton] at this
      omega
    have hread : { v with operands := rest.reverse ++ [a] }.perform (.load (.stack (d₁.stack.depth - 1)) .r0) =
        some ({ v with operands := rest.reverse ++ [a] }.setReg .r0 a) := by
      simp [View.perform, View.read?, ← hrest]
    refine ⟨a, rest, e, { v with operands := rest.reverse ++ [a] }.setReg .r0 a, ho, ?_, rfl, ?_, rfl, rfl, rfl,
      fun host w => ?_⟩
    · rw [View.performAll_append hperf₁, View.performAll, hread]
      rfl
    · rw [hstack₂, ho, List.reverse_cons]
      exact hst₁.setReg (hset₁.unclaimed .r0) a
    · have he : e = { e with operands := a :: rest } := by rw [← ho]
      rcases hop with hop | hop <;> simp only [act, hop, one_eq ho] <;> rw [he] <;> rfl

structure Negating (d d' : Draft (StubBody σ)) (known : Bool) : Prop where
  code : d.Extends (if known then 0 else 1) (fun _ => False) d'
  stack : d'.stack = d.stack
  good : d.Good → d'.Good
  trips : ∀ {f c v lower argc w}, d'.Grows f → f.Installed (Config.current c).method → known = true →
    v.registers.r0.asBool = none → (c.place lower d.buffer.offset argc v w).TripsOver v.registers.r0
  leads : ∀ {f c} v host scripts lower argc w, d'.Grows f → f.Installed (Config.current c).method →
    (known = true → v.registers.r0.asBool ≠ none) →
    ∃ argc', Config.Leads host scripts (c.place lower d.buffer.offset argc v w)
      (c.place lower d'.buffer.offset argc' (v.setReg .r0 (.bool !(v.registers.r0.truthy w.atoms))) w)

theorem test_negating (known : Bool) (hfac : job.factory = StubBody.fallbacks) (hg : d.Good) :
    Yields (do unless known do site job .toBool
               inst (.negate .r0)) d (d.Lacks (if known then 0 else 1)) fun _ d' => Negating d d' known := by
  rw [test_then]
  refine (test_testing known hfac).bind fun _ d₁ h₁ => ?_
  obtain ⟨d₂, hd₂, hadds₂, hstack₂, hgood₂⟩ := inst_good (h₁.good hg) (i := .negate .r0) rfl
  have hext : d₁.Extends 0 (fun _ => False) d₂ := hadds₂.extends_inst fun l hl => by cases hl
  have hnegate {f : Draft (StubBody σ)} {m : Method (StubBody σ)} (hg : d₂.Grows f) (hm : f.Installed m) :
      m.code.insts[d₁.buffer.offset]? = some (.negate .r0) := hm.inst hg (hadds₂.inst (k := 0) rfl) fun _ => rfl
  refine .of_ok hd₂ ⟨h₁.code.trans hext, hstack₂.trans h₁.stack, fun _ => hgood₂, ?_, ?_⟩
  · intro f c v lower argc w hg hm hknown hbool
    have hinst := hnegate hg hm
    rw [h₁.none hknown] at hinst
    exact ⟨hbool, .r0, rfl, .inl hinst⟩
  · intro f c v host scripts lower argc w hg hm hbool
    obtain ⟨argc', x, hlead, hx⟩ := h₁.leads v host scripts lower argc w (hadds₂.grows.trans hg) hm hbool
    have hr₀ : ((v.setReg .r0 x).registers.get .r0).asBool = some (v.registers.r0.truthy w.atoms) := by
      rw [View.get_setReg_self, hx]
    have hstep : (c.place lower d₁.buffer.offset argc' (v.setReg .r0 x) w).step host scripts = _ :=
      Config.step_negate (hnegate hg hm) hr₀
    have hoffset : d₂.buffer.offset = d₁.buffer.offset + 1 := hadds₂.offset
    rw [← hoffset] at hstep
    exact ⟨argc', hlead.trans (.one hstep)⟩

theorem logicalNot_lowered {n : Nat} (hop : i.opcode = .logicalNot) (hfac : job.factory = StubBody.fallbacks)
    (hg : d.Good) (hroom : d.stack.depth < 2 ^ 30) (hn : d.stack.depth = n + 1) :
    Yields (logicalNot job i) d (d.Lacks (i.sites d.stack.knowns)) fun _ d' => Lowered job i d d' := by
  have htest : i.opcode.isTest = true := by rw [hop]; rfl
  obtain ⟨top, hpeek, hpre, hsites⟩ := peek_test htest hn
  obtain ⟨d₁, ms₁, hd₁, hadds₁, hgood₁, hset₁, hdepth₁, hknowns₁, hrun₁⟩ := popOne_ok hg hroom hn
  refine .bind_ok hpeek (.bind_ok hd₁ ?_)
  have hform : (do unless top.isBoolean do site job .toBool
                   inst (.negate .r0)
                   pushBoolean .r0 : Emit (StubBody σ) Unit) =
      (do unless top.isBoolean do site job .toBool
          inst (.negate .r0)) >>= fun _ => pushBoolean .r0 := by
    rw [test_then, test_then, bind_assoc]
  refine hform ▸ ((test_negating top.isBoolean hfac hgood₁).mono (fun _ he => by rwa [hadds₁.lacks, ← hsites] at he)
    fun _ _ h => h).bind fun _ d₂ h₂ => ?_
  obtain ⟨d₃, ms₃, hd₃, hadds₃, hgood₃, _, hknowns₃, hrun₃⟩ :=
    pushReg_ok (h₂.good hgood₁) (by rw [h₂.stack]; omega) .r0 (some .boolean)
  have hext := ((hadds₁.extends_moves _).trans h₂.code).trans (hadds₃.extends_moves _)
  rw [Nat.zero_add, Nat.add_zero, ← hsites] at hext
  refine .of_ok hd₃ ⟨hext.mono fun _ hl => hl.elim, hgood₃, ?_, ?_, ?_⟩
  · simp [hknowns₃, h₂.stack, hknowns₁, Instruction.typesAfter, hop, Instruction.pops, VirtualStack.length_knowns, hn]
  · rintro f c v e host scripts lower argc w hb ⟨hknown, x, hx, hbool⟩
    obtain ⟨a, rest, ho, hst⟩ := hb.mirrors.top hn
    obtain ⟨v₁, hperf₁, hst₁, hsame₁⟩ := hrun₁ hst
    rw [ho] at hx
    cases hx
    have hr₀ : v₁.registers.r0 = x := by rw [hsame₁]; rfl
    have hgrows := hadds₃.grows.trans hb.grows
    refine ⟨v₁.registers.r0, by rw [ho, hr₀]; rfl, _,
      hadds₁.leads (h₂.code.grows.trans hgrows) hb.installed hperf₁, ?_, rfl⟩
    exact h₂.trips hgrows hb.installed (hpre.symm.trans hknown) (by rw [hr₀]; exact hbool)
  · intro f c v e host scripts lower argc w hb hmis
    obtain ⟨a, rest, ho, hst⟩ := hb.mirrors.top hn
    obtain ⟨v₁, hperf₁, hst₁, hsame₁⟩ := hrun₁ hst
    have hr₀ : v₁.registers.r0 = a := by rw [hsame₁]; rfl
    have hbool : top.isBoolean = true → v₁.registers.r0.asBool ≠ none := fun hknown hbool =>
      hmis ⟨hpre.trans hknown, a, by rw [ho]; rfl, by rw [← hr₀]; exact hbool⟩
    have hgrows := hadds₃.grows.trans hb.grows
    obtain ⟨argc', hlead⟩ := h₂.leads v₁ host scripts lower argc w hgrows hb.installed hbool
    rw [hr₀] at hlead
    have hst₂ : d₂.stack.Stands (v₁.setReg .r0 (.bool !(a.truthy w.atoms))) rest.reverse := by
      rw [h₂.stack]
      exact hst₁.setReg (hset₁.unclaimed .r0) _
    obtain ⟨v₃, hperf₃, hst₃, hsame₃⟩ := hrun₃ hst₂
    have hact : act host i e w = .ok (.goOn ({ e with operands := rest }.push (.bool !(a.truthy w.atoms)))) w := by
      simp only [act, hop, one_eq ho]
      rfl
    rw [hact]
    have hmoves : Config.Leads host scripts (c.place lower d.buffer.offset argc v w) _ :=
      hadds₁.leads (h₂.code.grows.trans hgrows) hb.installed hperf₁
    refine .fell (by rw [hop]; rfl) ((hmoves.trans hlead).trans (hadds₃.leads hb.grows hb.installed hperf₃)) rfl ?_
    refine hb.mirrors.same (by simpa [Evaluation.push] using hst₃) ?_ ?_ rfl
    · rw [hsame₃, hsame₁]; rfl
    · rw [hsame₃, hsame₁]; rfl

/-! ## Jumps and returns -/

theorem goto_lowered (hop : i.opcode = .goto) (htarget : i.target? = some target) (hlt : target < job.program.length)
    (hg : d.Good) (hroom : d.stack.depth < 2 ^ 30) {E : CompileError → Prop} :
    Yields (goto job i) d E fun _ d' => Lowered job i d d' := by
  obtain ⟨d₁, ms₁, hd₁, hadds₁, hgood₁, hset₁, hdepth₁, hknowns₁, hrun₁⟩ := flushAll_ok hg hroom
  obtain ⟨d₂, hd₂, hadds₂, hstack₂, hgood₂⟩ := inst_good hgood₁ (i := .jump (labelOf target)) rfl
  refine .bind_ok (target_ok htarget hlt) (.bind_ok hd₁ (.of_ok hd₂ ?_))
  have hext₂ : d₁.Extends 0 (· = labelOf target) d₂ := hadds₂.extends_inst fun l hl => (Option.some.inj hl).symm
  have hsites : i.sites d.stack.knowns = 0 := by rw [Instruction.sites, hop]
  refine ⟨?_, hgood₂, ?_, fun _ hmis => ?_, ?_⟩
  · rw [hsites]
    exact ((hadds₁.extends_moves _).trans hext₂).mono fun l hl => .inl ⟨target, htarget, hl⟩
  · simp [hstack₂, hknowns₁, Instruction.typesAfter, hop, Instruction.pops, Instruction.pushes]
  · have hpre := hmis.1
    rw [Instruction.presumes, hop] at hpre
    cases hpre
  · intro f c v e host scripts lower argc w hb _
    obtain ⟨hperf₁, hst₁⟩ := hrun₁ hb.mirrors.stands
    obtain ⟨offset, hoffset, hinst⟩ := hb.installed.branch hb.grows (hadds₂.inst (k := 0) rfl) fun _ => rfl
    have hact : act host i e w = .ok (.goOn { e with offset := target }) w := by
      simp only [act, hop, jump, htarget]
      rfl
    rw [hact]
    have hmoves : Config.Leads host scripts (c.place lower d.buffer.offset argc v w) _ :=
      hadds₁.leads (hadds₂.grows.trans hb.grows) hb.installed hperf₁
    refine .jumped (hmoves.advances (Config.step_jump hinst)) htarget hoffset ?_ (by rw [hstack₂]; exact hset₁)
    exact hb.mirrors.same (by rw [hstack₂]; exact hst₁) rfl rfl rfl

/-- With the result in `r0`, the way out follows, or is jumped to. -/
theorem leave_lowered {label : Label} {E : CompileError → Prop} (hop : i.opcode.isReturn = true)
    (hexit : d.exit = some label) (hadds : d.Adds (ms.map .move) d₁) (hgood : d₁.Good)
    (hknowns : d₁.stack.knowns = i.typesAfter d.stack.knowns)
    (hrun : ∀ v e, Mirrors job d v e → ∃ v₁, v.performAll ms = some v₁ ∧
      ∀ (host : Host σ) w, act host i e w = .ok (.finish v₁.registers.r0) w) :
    Yields (leave job i) d₁ E fun _ d' => Lowered job i d d' := by
  have hsites : i.sites d.stack.knowns = 0 := by
    unfold Instruction.sites
    generalize i.opcode = op at hop ⊢
    cases op <;> first | rfl | cases hop
  have htest : i.opcode.isTest = false := by
    generalize i.opcode = op at hop ⊢
    cases op <;> first | rfl | cases hop
  have hmis {e : Evaluation} : ¬i.Misjudges d.stack.knowns e := fun hmis => by
    have hpre := hmis.1
    rw [Instruction.presumes, htest] at hpre
    cases hpre
  rw [leave]
  split
  · have hlabel : exitLabel d₁ = .ok label d₁ := by
      rw [exitLabel, bind_eq (get_eq d₁), hadds.exit, hexit]
      rfl
    obtain ⟨d₂, hd₂, hadds₂, hstack₂, hgood₂⟩ := inst_good hgood (i := .jump label) rfl
    refine .bind_ok hlabel (.of_ok hd₂ ⟨?_, hgood₂, by rw [hstack₂, hknowns], fun _ h => (hmis h).elim, ?_⟩)
    · rw [hsites]
      exact (hadds.extends_moves _).trans (hadds₂.extends_inst fun l hl => .inr (hexit.trans hl))
    · intro f c v e host scripts lower argc w hb _
      obtain ⟨v₁, hperf, hact⟩ := hrun v e hb.mirrors
      obtain ⟨offset, hoffset, hinst⟩ := hb.installed.branch hb.grows (hadds₂.inst (k := 0) rfl) fun _ => rfl
      rw [hact]
      have hmoves : Config.Leads host scripts (c.place lower d.buffer.offset argc v w) _ :=
        hadds.leads (hadds₂.grows.trans hb.grows) hb.installed hperf
      exact .finished (hmoves.trans (.one (Config.step_jump hinst))) rfl
        (.inr ⟨label, by rw [hadds₂.exit, hadds.exit, hexit], hoffset⟩)
  · rename_i hlast
    refine .of_ok rfl ⟨?_, hgood, hknowns, fun _ h => (hmis h).elim, ?_⟩
    · rw [hsites]
      exact hadds.extends_moves _
    · intro f c v e host scripts lower argc w hb _
      obtain ⟨v₁, hperf, hact⟩ := hrun v e hb.mirrors
      rw [hact]
      exact .finished (hadds.leads hb.grows hb.installed hperf) rfl (.inl ⟨by omega, rfl⟩)

theorem ret_lowered {label : Label} {E : CompileError → Prop} (hop : i.opcode = .ret) (hexit : d.exit = some label)
    (hg : d.Good) (hn : d.stack.depth = 1) : Yields (ret job i) d E fun _ d' => Lowered job i d d' := by
  obtain ⟨d₁, ms₁, hd₁, hadds₁, hgood₁, hdepth₁, hknowns₁, hrun₁⟩ := popLast_ok hg hn
  refine .bind_ok hd₁ (.bind_ok (depth_eq d₁) ?_)
  have hassume : (assume (d₁.stack.depth = 0) .leftAtReturn : Emit (StubBody σ) Unit) d₁ = .ok () d₁ := by
    rw [hdepth₁]
    rfl
  refine .bind_ok hassume (leave_lowered (by rw [hop]; rfl) hexit hadds₁ hgood₁ ?_ fun v e hmir => ?_)
  · simp [hknowns₁, Instruction.typesAfter, hop, Instruction.pops, Instruction.pushes, VirtualStack.length_knowns, hn]
  · obtain ⟨a, rest, ho, hst⟩ := hmir.top hn
    have hnil : rest = [] := by
      have := hst.length
      simp only [List.length_append, List.length_reverse, List.length_singleton] at this
      exact List.eq_nil_of_length_eq_zero (by omega)
    subst hnil
    obtain ⟨v₁, hperf, _, hsame⟩ := hrun₁ hst
    refine ⟨v₁, hperf, fun host w => ?_⟩
    simp only [act, hop, one_eq ho, hsame]
    rfl

theorem stop_lowered {label : Label} {E : CompileError → Prop} (hop : i.opcode = .stop) (hexit : d.exit = some label)
    (hg : d.Good) (hn : d.stack.depth = 0) : Yields (stop job i) d E fun _ d' => Lowered job i d d' := by
  obtain ⟨d₁, hd₁, hadds₁, hstack₁, hgood₁⟩ := move_good hg (m := .setReg .undefined .r0) fun _ => rfl
  have hassume : (assume (d.stack.depth = 0) .leftAtStop : Emit (StubBody σ) Unit) d = .ok () d := by
    rw [hn]
    rfl
  refine .bind_ok (depth_eq d) (.bind_ok hassume (.bind_ok hd₁ ?_))
  refine leave_lowered (by rw [hop]; rfl) hexit hadds₁ hgood₁ ?_ fun v e hmir => ?_
  · simp [hstack₁, Instruction.typesAfter, hop, Instruction.pops, Instruction.pushes]
  · refine ⟨v.setReg .r0 .undefined, rfl, fun host w => ?_⟩
    simp only [act, hop]
    rfl

end BaselineTier.Lowering
