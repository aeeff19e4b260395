/-
  BaselineTier.Proofs.Operators — the code of operators, names, properties and calls.

  Every one of these routines brings its operands to where the fallback of its site looks for
  them, calls through the site, and takes the result from `r0` or from the scratch cell. What
  a fallback does with the registers is said once for each (`Fallback.Performs`); what the
  code around the site does is said once for those that answer with a value
  (`answering_lowers`) and once for those that store one (`storing_lowers`).
-/

import BaselineTier.Proofs.Shuffle

namespace BaselineTier

variable {σ : Type}

/-! ## Fallbacks -/

namespace Fallback

variable {host : Host σ} {call : SiteCall} {s : SiteState σ}

/-- A fallback that asks and answers. -/
theorem performs_ask {fb : Fallback} {x : Ask σ Value} (h : fb.run host call s = (StubM.ask x >>= StubM.answer) s) :
    fb.Performs host call s x (s.registers.set .r0) := by
  have hask : (StubM.ask x >>= StubM.answer) s = EStateM.bind (StubM.ask x) StubM.answer s := rfl
  rw [hask, EStateM.bind, StubM.ask] at h
  refine ⟨fun hx => ?_, fun hx => ?_⟩
  all_goals
    rw [hx] at h
    exact h

/-- A fallback that asks for something to be done. -/
theorem performs_tell {fb : Fallback} {x : Ask σ Unit}
    (h : fb.run host call s = (do StubM.ask x; pure .done : StubM σ Verdict) s) :
    fb.Performs host call s x fun _ => s.registers := by
  have hask : (do StubM.ask x; pure .done : StubM σ Verdict) s =
    EStateM.bind (StubM.ask x) (fun _ => pure .done) s := rfl
  rw [hask, EStateM.bind, StubM.ask] at h
  refine ⟨fun hx => ?_, fun hx => ?_⟩
  all_goals
    rw [hx] at h
    exact h

theorem arith_performs {op : Opcode} (hk : call.site.kind = .arith op) :
    arith.Performs host call s (Interpreter.arith op s.registers.r0 s.registers.r1) (s.registers.set .r0) := by
  refine performs_ask ?_
  simp only [run, hk]
  show EStateM.bind _ _ s = EStateM.bind _ _ s
  simp only [EStateM.bind, StubM.ask, Interpreter.arith, StubM.atoms, StubM.reg, bind, get, getThe,
    MonadStateOf.get, EStateM.get,
    pure, EStateM.pure, Registers.get]
  generalize Value.arith s.world.atoms op s.registers.r0 s.registers.r1 = r
  obtain ⟨result, atoms⟩ := r
  cases result <;> rfl

theorem compare_performs {op : Opcode} (hk : call.site.kind = .compare op) :
    compare.Performs host call s (do pure (.bool (Value.compare (← get).atoms op s.registers.r0 s.registers.r1)))
      (s.registers.set .r0) := by
  refine performs_ask ?_
  simp only [run, hk]
  rfl

theorem unary_performs {op : Opcode} (hk : call.site.kind = .unary op) :
    unary.Performs host call s (do pure (Value.unary (← get).atoms op s.registers.r0)) (s.registers.set .r0) := by
  refine performs_ask ?_
  simp only [run, hk]
  rfl

theorem toBool_performs :
    toBool.Performs host call s (do pure (.bool (s.registers.r0.truthy (← get).atoms))) (s.registers.set .r0) :=
  performs_ask rfl

theorem toNumber_performs :
    toNumber.Performs host call s (do pure (.number (s.registers.r0.toNumber (← get).atoms))) (s.registers.set .r0) :=
  performs_ask rfl

theorem getName_performs {name : Atom} (hk : call.site.kind = .getName name) :
    getName.Performs host call s (host.getName name) (s.registers.set .r0) := by
  refine performs_ask ?_
  simp only [run, hk]

theorem getGlobal_performs {name : Atom} (hk : call.site.kind = .getGlobal name) :
    getGlobal.Performs host call s (host.getGlobal name) (s.registers.set .r0) := by
  refine performs_ask ?_
  simp only [run, hk]

theorem getProp_performs {key : Atom} (hk : call.site.kind = .getProp key) :
    getProp.Performs host call s (host.getProperty s.registers.r0 (.string key)) (s.registers.set .r0) := by
  refine performs_ask ?_
  simp only [run, hk]
  rfl

theorem getElem_performs :
    getElem.Performs host call s (host.getProperty s.registers.r0 s.registers.r1) (s.registers.set .r0) :=
  performs_ask rfl

theorem setName_performs {name : Atom} (hk : call.site.kind = .setName name) :
    setName.Performs host call s (host.setName name s.scratch) fun _ => s.registers := by
  refine performs_tell ?_
  simp only [run, hk]
  rfl

theorem setGlobal_performs {name : Atom} (hk : call.site.kind = .setGlobal name) :
    setGlobal.Performs host call s (host.setGlobal name s.scratch) fun _ => s.registers := by
  refine performs_tell ?_
  simp only [run, hk]
  rfl

theorem setProp_performs {key : Atom} (hk : call.site.kind = .setProp key) :
    setProp.Performs host call s (host.setProperty s.registers.r0 (.string key) s.scratch) fun _ => s.registers := by
  refine performs_tell ?_
  simp only [run, hk]
  rfl

theorem setElem_performs :
    setElem.Performs host call s (host.setProperty s.registers.r0 s.registers.r1 s.scratch) fun _ => s.registers :=
  performs_tell rfl

end Fallback

/-! ## The code around a site -/

namespace Lowering

open Draft Emit Interpreter

variable {job : Job (StubBody σ)} {i : Instruction} {d d₁ : Draft (StubBody σ)} {ms : List Move} {kind : SiteKind}
  {fb : Fallback} {a : Host σ → Action σ}

theorem site_fallback (hfac : job.factory = StubBody.fallbacks) (hfb : Fallback.ofKind? kind = some fb) :
    Yields (site job kind) d (d.Lacks 1) fun _ d' => d.Sited kind (.fallback fb) d' :=
  site_yields job kind (by rw [hfac, StubBody.fallbacks, hfb]; rfl)

structure Answering (d d' : Draft (StubBody σ)) (n : Nat) (x : Host σ → Registers → Ask σ Value) : Prop where
  code : d.Extends n (fun _ => False) d'
  stack : d'.stack = d.stack
  good : d.Good → d'.Good
  ends : ∀ {f c v host scripts lower argc w}, d'.Grows f → f.Installed (Config.current c).method →
    Config.Ends host scripts c lower (c.place lower d.buffer.offset argc v w) d'.buffer.offset
      (fun y v' => v' = v.setReg .r0 y) (x host v.registers w)

theorem site_answering (x : Host σ → Registers → Ask σ Value) (hfac : job.factory = StubBody.fallbacks)
    (hfb : Fallback.ofKind? kind = some fb)
    (hx : ∀ {host : Host σ} {call : SiteCall} {s : SiteState σ}, call.site.kind = kind →
      fb.Performs host call s (x host s.registers) (s.registers.set .r0)) :
    Yields (site job kind) d (d.Lacks 1) fun _ d' => Answering d d' 1 x :=
  (site_fallback hfac hfb).mono (fun _ he => he) fun _ _ hs =>
    ⟨hs.extends _, hs.stack, hs.good, fun hg hm => hs.ends hg hm fun _ hkind => hx hkind⟩

/-- The answer is pushed, after moves that bring the operands to the code that gives it. -/
theorem answering_lowers {n : Nat} {piece : Emit (StubBody σ) Unit} {x : Host σ → Registers → Ask σ Value}
    (hpiece : Yields piece d₁ (d₁.Lacks n) fun _ d₂ => Answering d₁ d₂ n x) (known : Option ValueType)
    (hadds : d.Adds (ms.map .move) d₁) (hgood : d₁.Good) (hset : d₁.stack.Settled) (hroom : d₁.stack.depth < 2 ^ 30)
    (hrun : ∀ host v e, Mirrors job d v e → ∃ e₁ v₁, v.performAll ms = some v₁ ∧
      d₁.stack.Stands v₁ e₁.operands.reverse ∧ v₁.slots = v.slots ∧ v₁.args = v.args ∧
      e₁ = { e with operands := e₁.operands } ∧ ∀ w,
      a host e w = (x host v₁.registers >>= fun y => push y e₁ : Ask σ Effect) w) :
    Yields (do piece; Emit.push ⟨.register .r0, known⟩) d₁ (d.Lacks n) fun _ d' =>
      Lowers job a n (d₁.stack.knowns ++ [known]) d d' := by
  refine (hpiece.mono (fun _ he => by rwa [hadds.lacks] at he) fun _ _ h => h).bind fun _ d₂ h₂ => ?_
  obtain ⟨d₃, ms₃, hd₃, hadds₃, hgood₃, _, hknowns₃, hrun₃⟩ :=
    pushReg_ok (h₂.good hgood) (by rw [h₂.stack]; exact hroom) .r0 known
  have hcode := ((hadds.extends_moves _).trans h₂.code).trans (hadds₃.extends_moves _)
  rw [Nat.zero_add, Nat.add_zero] at hcode
  refine .of_ok hd₃ ⟨hcode, hgood₃, by rw [hknowns₃, h₂.stack], fun {f c v e host scripts lower argc w} hb => ?_⟩
  have hgrows := hadds₃.grows.trans hb.grows
  obtain ⟨e₁, v₁, hperf, hst, hslots, hargs, he₁, hact⟩ := hrun host v e hb.mirrors
  rw [hact w]
  refine Config.Ends.after (hadds.leads (h₂.code.grows.trans hgrows) hb.installed hperf) ?_
  refine (h₂.ends hgrows hb.installed).bind fun {y v' argc' w'} hv' => ?_
  subst hv'
  have hst₂ : d₂.stack.Stands (v₁.setReg .r0 y) e₁.operands.reverse := by
    rw [h₂.stack]
    exact hst.setReg (hset.unclaimed .r0) y
  obtain ⟨v₃, hperf₃, hst₃, hsame₃⟩ := hrun₃ hst₂
  refine ⟨argc', v₃, hadds₃.leads hb.grows hb.installed hperf₃, e₁.push y, rfl, by rw [he₁]; rfl, ?_⟩
  refine hb.mirrors.same (by simpa [Evaluation.push] using hst₃) ?_ ?_ (by rw [he₁]; rfl)
  · rw [hsame₃]; exact hslots
  · rw [hsame₃]; exact hargs

/-- A site that stores the value in the scratch cell, which is pushed again. -/
theorem storing_lowers (hfac : job.factory = StubBody.fallbacks) (hfb : Fallback.ofKind? kind = some fb)
    (hadds : d.Adds (ms.map .move) d₁) (hgood : d₁.Good) (hroom : d₁.stack.depth < 2 ^ 30)
    (hrun : ∀ host v e, Mirrors job d v e → ∃ x e₁ v₁, v.performAll ms = some v₁ ∧
      d₁.stack.Stands v₁ e₁.operands.reverse ∧ v₁.slots = v.slots ∧ v₁.args = v.args ∧
      e₁ = { e with operands := e₁.operands } ∧ (∀ w,
      a host e w = (x >>= fun _ => push v₁.scratch e₁ : Ask σ Effect) w) ∧
      ∀ (call : SiteCall) machine w, call.site.kind = kind →
      fb.Performs host call ⟨v₁.registers, v₁.scratch, machine, w⟩ x fun _ : Unit => v₁.registers) :
    Yields (do site job kind; pushScratch) d₁ (d.Lacks 1) fun _ d' =>
      Lowers job a 1 (d₁.stack.knowns ++ [none]) d d' := by
  refine ((site_fallback hfac hfb).mono (fun _ he => by rwa [hadds.lacks] at he) fun _ _ h => h).bind fun _ d₂ hs => ?_
  obtain ⟨d₃, ms₃, hd₃, hadds₃, hgood₃, _, hknowns₃, hrun₃⟩ :=
    pushScratch_ok (hs.good hgood) (by rw [hs.stack]; exact hroom)
  refine .of_ok hd₃ ⟨((hadds.extends_moves _).trans (hs.extends _)).trans (hadds₃.extends_moves _), hgood₃,
    by rw [hknowns₃, hs.stack], fun {f c v e host scripts lower argc w} hb => ?_⟩
  have hgrows := hadds₃.grows.trans hb.grows
  obtain ⟨x, e₁, v₁, hperf, hst, hslots, hargs, he₁, hact, hfbrun⟩ := hrun host v e hb.mirrors
  rw [hact w]
  refine Config.Ends.after (hadds.leads (hs.grows.trans hgrows) hb.installed hperf) ?_
  refine (hs.ends hgrows hb.installed fun _ hkind => hfbrun _ _ w hkind).bind fun {y v' argc' w'} hv' => ?_
  subst hv'
  have hst₂ : d₂.stack.Stands v₁ e₁.operands.reverse := by rw [hs.stack]; exact hst
  obtain ⟨hperf₃, hst₃⟩ := hrun₃ hst₂
  refine ⟨argc', _, hadds₃.leads hb.grows hb.installed hperf₃, e₁.push v₁.scratch, rfl, by rw [he₁]; rfl, ?_⟩
  exact hb.mirrors.same (by simpa [Evaluation.push] using hst₃) hslots hargs (by rw [he₁]; rfl)

/-! ## Operators -/

/-- An operation on the top two values. -/
theorem binary_lowers {n : Nat} (x : Host σ → Value → Value → Ask σ Value) (hfac : job.factory = StubBody.fallbacks)
    (hfb : Fallback.ofKind? kind = some fb) (known : Option ValueType)
    (hx : ∀ {host : Host σ} {call : SiteCall} {s : SiteState σ}, call.site.kind = kind →
      fb.Performs host call s (x host s.registers.r0 s.registers.r1) (s.registers.set .r0))
    (hg : d.Good) (hroom : d.stack.depth < 2 ^ 30) (hn : d.stack.depth = n + 2) :
    Yields (do popRegisters 2; site job kind; Emit.push ⟨.register .r0, known⟩) d (d.Lacks 1) fun _ d' =>
      Lowers job (fun host => two fun a b e => do push (← x host a b) e) 1 (d.stack.knowns.take n ++ [known]) d d' := by
  obtain ⟨d₁, ms₁, hd₁, hadds₁, hgood₁, hset₁, hdepth₁, hknowns₁, hrun₁⟩ := popTwo_ok hg hroom hn
  refine .bind_ok hd₁ ?_
  rw [← hknowns₁]
  refine answering_lowers (site_answering (fun host rs => x host rs.r0 rs.r1) hfac hfb hx) known hadds₁ hgood₁ hset₁
    (by omega) fun host v e hmir => ?_
  obtain ⟨b, a, rest, ho, hst⟩ := hmir.top_two hn
  obtain ⟨v₁, hperf, hst₁, hsame, ha, hb⟩ := hrun₁ hst
  exact ⟨{ e with operands := rest }, v₁, hperf, hst₁, by rw [hsame], by rw [hsame], rfl,
    fun w => by rw [two_eq ho, ha, hb]⟩

/-- An operation on the top value. -/
theorem single_lowers {n k : Nat} {piece : Emit (StubBody σ) Unit} (x : Host σ → Value → Ask σ Value)
    (hpiece : ∀ d₁ : Draft (StubBody σ), d₁.Good →
      Yields piece d₁ (d₁.Lacks k) fun _ d₂ => Answering d₁ d₂ k fun host rs => x host rs.r0) (known : Option ValueType)
    (hg : d.Good) (hroom : d.stack.depth < 2 ^ 30) (hn : d.stack.depth = n + 1) :
    Yields (do popRegisters 1; piece; Emit.push ⟨.register .r0, known⟩) d (d.Lacks k) fun _ d' =>
      Lowers job (fun host => one fun a e => do push (← x host a) e) k (d.stack.knowns.take n ++ [known]) d d' := by
  obtain ⟨d₁, ms₁, hd₁, hadds₁, hgood₁, hset₁, hdepth₁, hknowns₁, hrun₁⟩ := popOne_ok hg hroom hn
  refine .bind_ok hd₁ ?_
  rw [← hknowns₁]
  refine answering_lowers (hpiece d₁ hgood₁) known hadds₁ hgood₁ hset₁ (by omega) fun host v e hmir => ?_
  obtain ⟨a, rest, ho, hst⟩ := hmir.top hn
  obtain ⟨v₁, hperf, hst₁, hsame⟩ := hrun₁ hst
  have ha : v₁.registers.r0 = a := by rw [hsame]; rfl
  exact ⟨{ e with operands := rest }, v₁, hperf, hst₁, by rw [hsame]; rfl, by rw [hsame]; rfl, rfl,
    fun w => by rw [one_eq ho, ha]⟩

theorem arith_lowers {n : Nat} (hfac : job.factory = StubBody.fallbacks) (hop : i.opcode.isArith = true) (hg : d.Good)
    (hroom : d.stack.depth < 2 ^ 30) (hn : d.stack.depth = n + 2) :
    Yields (arith job i) d (d.Lacks 1) fun _ d' =>
      Lowers job (fun _ => two fun a b e => do push (← Interpreter.arith i.opcode a b) e) 1
        (d.stack.knowns.take n ++ [none]) d d' := by
  have hfb : Fallback.ofKind? (.arith i.opcode) = some .arith := if_pos hop
  exact binary_lowers (fun _ => Interpreter.arith i.opcode) hfac hfb none Fallback.arith_performs hg hroom hn

theorem compare_lowers {n : Nat} (hfac : job.factory = StubBody.fallbacks) (hop : i.opcode.isCompare = true)
    (hg : d.Good) (hroom : d.stack.depth < 2 ^ 30) (hn : d.stack.depth = n + 2) :
    Yields (compare job i) d (d.Lacks 1) fun _ d' =>
      Lowers job (fun _ => two fun a b e => do push (.bool (Value.compare (← get).atoms i.opcode a b)) e) 1
        (d.stack.knowns.take n ++ [some .boolean]) d d' := by
  have hfb : Fallback.ofKind? (.compare i.opcode) = some .compare := if_pos hop
  exact binary_lowers (fun _ a b => do pure (.bool (Value.compare (← get).atoms i.opcode a b))) hfac hfb (some .boolean)
    Fallback.compare_performs hg hroom hn

theorem unary_lowers {n : Nat} (hfac : job.factory = StubBody.fallbacks) (hop : i.opcode = .neg ∨ i.opcode = .bitNot)
    (hg : d.Good) (hroom : d.stack.depth < 2 ^ 30) (hn : d.stack.depth = n + 1) :
    Yields (unary job i) d (d.Lacks 1) fun _ d' =>
      Lowers job (fun _ => one fun a e => do push (Value.unary (← get).atoms i.opcode a) e) 1
        (d.stack.knowns.take n ++ [none]) d d' := by
  have hfb : Fallback.ofKind? (.unary i.opcode) = some .unary := if_pos hop
  exact single_lowers (fun _ a => do pure (Value.unary (← get).atoms i.opcode a))
    (fun _ _ => site_answering _ hfac hfb Fallback.unary_performs) none hg hroom hn

theorem getElem_lowers {n : Nat} (hfac : job.factory = StubBody.fallbacks) (hg : d.Good)
    (hroom : d.stack.depth < 2 ^ 30) (hn : d.stack.depth = n + 2) :
    Yields (getElem job i) d (d.Lacks 1) fun _ d' =>
      Lowers job (fun host => two fun object key e => do push (← host.getProperty object key) e) 1
        (d.stack.knowns.take n ++ [none]) d d' :=
  binary_lowers Host.getProperty hfac rfl none (fun _ => Fallback.getElem_performs) hg hroom hn

/-! ## Names and properties -/

section Names

variable {source : Source} {index : UInt32}

theorem getProp_lowers {n : Nat} (hfac : job.factory = StubBody.fallbacks) (hindex : i.u32? = some index)
    (hlt : index.toNat < job.program.atoms.size) (hsource : Source.ofProgram? job.program job.atoms = some source)
    (hg : d.Good) (hroom : d.stack.depth < 2 ^ 30) (hn : d.stack.depth = n + 1) :
    Yields (getProp job i) d (d.Lacks 1) fun _ d' =>
      Lowers job (fun host => one fun object e => do push (← host.getProperty object (.string (← name i e))) e) 1
        (d.stack.knowns.take n ++ [none]) d d' := by
  obtain ⟨atom, hatom, hname⟩ := atom_name hindex hlt hsource
  refine .bind_ok (u32_ok hindex) (.bind_ok (hatom d) ?_)
  refine (single_lowers (·.getProperty · (.string atom))
    (fun _ _ => site_answering _ hfac rfl Fallback.getProp_performs) none hg
    hroom hn).mono (fun _ he => he) fun _ d' h => h.congr fun host v e w hmir => ?_
  obtain ⟨a, rest, ho, _⟩ := hmir.top hn
  rw [one_eq ho, one_eq ho]
  show _ = (do push (← host.getProperty a (.string (← name i e))) { e with operands := rest } : Ask σ Effect) w
  rw [hname hmir]
  rfl

theorem getName_lowers (hfac : job.factory = StubBody.fallbacks) (hop : i.opcode = .getName ∨ i.opcode = .getGlobal)
    (hindex : i.u32? = some index) (hlt : index.toNat < job.program.atoms.size)
    (hsource : Source.ofProgram? job.program job.atoms = some source) (hg : d.Good) (hroom : d.stack.depth < 2 ^ 30) :
    Yields (getName job i) d (d.Lacks 1) fun _ d' =>
      Lowers job (fun host => Interpreter.act host i) 1 (d.stack.knowns ++ [none]) d d' := by
  obtain ⟨atom, hatom, hname⟩ := atom_name hindex hlt hsource
  obtain ⟨d₁, ms₁, hd₁, hadds₁, hgood₁, hset₁, hdepth₁, hknowns₁, hrun₁⟩ := flushAll_ok hg hroom
  refine .bind_ok (u32_ok hindex) (.bind_ok (hatom d) (.bind_ok hd₁ ?_))
  rw [← hknowns₁]
  rcases hop with hop | hop
  · simp only [hop, reduceCtorEq, if_false]
    refine answering_lowers (site_answering (fun host _ => host.getName atom) hfac rfl Fallback.getName_performs) none
      hadds₁
      hgood₁ hset₁ (by omega) fun host v e hmir => ?_
    obtain ⟨hperf, hst⟩ := hrun₁ hmir.stands
    refine ⟨e, _, hperf, hst, rfl, rfl, rfl, fun w => ?_⟩
    simp only [act, hop, hname hmir]
    rfl
  · simp only [hop, if_true]
    refine answering_lowers (site_answering (fun host _ => host.getGlobal atom) hfac rfl Fallback.getGlobal_performs)
      none hadds₁
      hgood₁ hset₁ (by omega) fun host v e hmir => ?_
    obtain ⟨hperf, hst⟩ := hrun₁ hmir.stands
    refine ⟨e, _, hperf, hst, rfl, rfl, rfl, fun w => ?_⟩
    simp only [act, hop, hname hmir]
    rfl

theorem setName_lowers {n : Nat} (hfac : job.factory = StubBody.fallbacks)
    (hop : i.opcode = .setName ∨ i.opcode = .setGlobal) (hindex : i.u32? = some index)
    (hlt : index.toNat < job.program.atoms.size) (hsource : Source.ofProgram? job.program job.atoms = some source)
    (hg : d.Good) (hroom : d.stack.depth < 2 ^ 30) (hn : d.stack.depth = n + 1) :
    Yields (setName job i) d (d.Lacks 1) fun _ d' =>
      Lowers job (fun host => Interpreter.act host i) 1 (d.stack.knowns.take n ++ [none]) d d' := by
  obtain ⟨atom, hatom, hname⟩ := atom_name hindex hlt hsource
  obtain ⟨d₁, ms₁, hd₁, hadds₁, hgood₁, hdepth₁, hknowns₁, hrun₁⟩ := stageTop_ok hg hroom hn
  obtain ⟨d₂, ms₂, hd₂, hadds₂, hgood₂, _, hdepth₂, hknowns₂, hrun₂⟩ := flushAll_ok hgood₁ (by omega)
  refine .bind_ok (u32_ok hindex) (.bind_ok (hatom d) (.bind_ok hd₁ (.bind_ok hd₂ ?_)))
  rw [← hknowns₁, ← hknowns₂]
  have hrun (v : View) (e : Evaluation) (hmir : Mirrors job d v e) : ∃ a rest v₂, e.operands = a :: rest ∧
      v.performAll (ms₁ ++ ms₂) = some v₂ ∧ d₂.stack.Stands v₂ rest.reverse ∧ v₂.slots = v.slots ∧ v₂.args = v.args ∧
      v₂.scratch = a := by
    obtain ⟨a, rest, ho, hst⟩ := hmir.top hn
    obtain ⟨v₁, hperf₁, hst₁, hsame₁⟩ := hrun₁ hst
    obtain ⟨hperf₂, hst₂⟩ := hrun₂ hst₁
    exact ⟨a, rest, _, ho, (View.performAll_append hperf₁).trans hperf₂,
      hst₂, by rw [hsame₁], by rw [hsame₁], by rw [hsame₁]⟩
  rcases hop with hop | hop
  · simp only [hop, reduceCtorEq, if_false]
    refine storing_lowers hfac rfl (hadds₁.moves hadds₂) hgood₂ (by omega) fun host v e hmir => ?_
    obtain ⟨a, rest, v₂, ho, hperf, hst, hslots, hargs, rfl⟩ := hrun v e hmir
    refine ⟨host.setName atom v₂.scratch, { e with operands := rest }, v₂, hperf, hst, hslots, hargs, rfl, fun w => ?_,
      fun call _ w hk => Fallback.setName_performs hk⟩
    simp only [act, hop, hname hmir, keeping, pure_bind, one_eq ho]
  · simp only [hop, if_true]
    refine storing_lowers hfac rfl (hadds₁.moves hadds₂) hgood₂ (by omega) fun host v e hmir => ?_
    obtain ⟨a, rest, v₂, ho, hperf, hst, hslots, hargs, rfl⟩ := hrun v e hmir
    refine ⟨host.setGlobal atom v₂.scratch, { e with operands := rest }, v₂, hperf, hst, hslots, hargs,
      rfl, fun w => ?_,
      fun call _ w hk => Fallback.setGlobal_performs hk⟩
    simp only [act, hop, hname hmir, keeping, pure_bind, one_eq ho]

theorem setProp_lowers {n : Nat} (hfac : job.factory = StubBody.fallbacks) (hindex : i.u32? = some index)
    (hlt : index.toNat < job.program.atoms.size) (hsource : Source.ofProgram? job.program job.atoms = some source)
    (hg : d.Good) (hroom : d.stack.depth < 2 ^ 30) (hn : d.stack.depth = n + 2) :
    Yields (setProp job i) d (d.Lacks 1) fun _ d' =>
      Lowers job (fun host => two fun object v e => do host.setProperty object (.string (← name i e)) v; push v e) 1
        (d.stack.knowns.take n ++ [none]) d d' := by
  obtain ⟨atom, hatom, hname⟩ := atom_name hindex hlt hsource
  obtain ⟨d₁, ms₁, hd₁, hadds₁, hgood₁, hdepth₁, hknowns₁, hrun₁⟩ := stageTop_ok hg hroom hn
  obtain ⟨d₂, ms₂, hd₂, hadds₂, hgood₂, _, hdepth₂, hknowns₂, hrun₂⟩ := popOne_ok hgood₁ (by omega) hdepth₁
  refine .bind_ok (u32_ok hindex) (.bind_ok (hatom d) (.bind_ok hd₁ (.bind_ok hd₂ ?_)))
  have hknowns : d.stack.knowns.take n = d₂.stack.knowns := by
    rw [hknowns₂, hknowns₁, List.take_take, Nat.min_eq_left (by omega)]
  rw [hknowns]
  refine storing_lowers hfac rfl (hadds₁.moves hadds₂) hgood₂ (by omega) fun host v e hmir => ?_
  obtain ⟨b, a, rest, ho, hst⟩ := hmir.top_two hn
  have hst₀ : d.stack.Stands v (rest.reverse ++ [a] ++ [b]) := by simpa using hst
  obtain ⟨v₁, hperf₁, hst₁, hsame₁⟩ := hrun₁ hst₀
  obtain ⟨v₂, hperf₂, hst₂, hsame₂⟩ := hrun₂ hst₁
  have ha : v₂.registers.r0 = a := by rw [hsame₂]; rfl
  have hb : v₂.scratch = b := by rw [hsame₂, hsame₁]; rfl
  refine ⟨host.setProperty a (.string atom) b, { e with operands := rest }, v₂,
    (View.performAll_append hperf₁).trans hperf₂, hst₂,
    by rw [hsame₂, hsame₁]; rfl, by rw [hsame₂, hsame₁]; rfl, rfl, fun w => ?_, fun call _ w hk => ?_⟩
  · have hname' : (name i e : Ask σ Atom) = pure atom := hname hmir
    rw [two_eq ho]
    show (name i e >>= fun key => host.setProperty a (.string key) b >>= fun _ => push b { e with operands := rest })
      w = _
    rw [hname', pure_bind, hb]
  · rw [← ha, ← hb]
    exact Fallback.setProp_performs hk

end Names

theorem setElem_lowers {n : Nat} (hfac : job.factory = StubBody.fallbacks) (hg : d.Good)
    (hroom : d.stack.depth < 2 ^ 30) (hn : d.stack.depth = n + 3) :
    Yields (setElem job i) d (d.Lacks 1) fun _ d' =>
      Lowers job (fun host => three fun object key v e => do host.setProperty object key v; push v e) 1
        (d.stack.knowns.take n ++ [none]) d d' := by
  obtain ⟨d₁, ms₁, hd₁, hadds₁, hgood₁, hdepth₁, hknowns₁, hrun₁⟩ := stageTop_ok hg hroom hn
  obtain ⟨d₂, ms₂, hd₂, hadds₂, hgood₂, _, hdepth₂, hknowns₂, hrun₂⟩ := popTwo_ok hgood₁ (by omega) hdepth₁
  refine .bind_ok hd₁ (.bind_ok hd₂ ?_)
  have hknowns : d.stack.knowns.take n = d₂.stack.knowns := by
    rw [hknowns₂, hknowns₁, List.take_take, Nat.min_eq_left (by omega)]
  rw [hknowns]
  refine storing_lowers hfac rfl (hadds₁.moves hadds₂) hgood₂ (by omega) fun host v e hmir => ?_
  obtain ⟨x, b, a, rest, ho, hst⟩ := hmir.top_three hn
  have hst₀ : d.stack.Stands v (rest.reverse ++ [a, b] ++ [x]) := by simpa using hst
  obtain ⟨v₁, hperf₁, hst₁, hsame₁⟩ := hrun₁ hst₀
  obtain ⟨v₂, hperf₂, hst₂, hsame₂, ha, hb⟩ := hrun₂ hst₁
  have hx : v₂.scratch = x := by rw [hsame₂, hsame₁]
  refine ⟨host.setProperty a b x, { e with operands := rest }, v₂, (View.performAll_append hperf₁).trans hperf₂, hst₂,
    by rw [hsame₂, hsame₁], by rw [hsame₂, hsame₁], rfl, fun w => ?_, fun call _ w hk => ?_⟩
  · rw [three, one_eq ho, two_eq rfl, hx]
  · rw [← ha, ← hb, ← hx]
    exact Fallback.setElem_performs

/-- A number is passed on as it is; the code of the site is jumped over. -/
theorem number_answering (hfac : job.factory = StubBody.fallbacks) (hg : d.Good) :
    Yields (do let done ← newLabel; inst (.branchNumber .r0 done); site job .toNumber; Emit.bind done) d
      (d.Lacks 1) fun _ d' =>
      Answering d d' 1 (fun _ rs => do
        let number := Value.number (rs.r0.toNumber (← get).atoms)
        pure (if rs.r0.isNumber then rs.r0 else number)) := by
  have hext₁ := extends_newLabel d (· = ⟨d.buffer.labels.size⟩)
  obtain ⟨d₂, hd₂, hadds₂, hstack₂, hgood₂⟩ := inst_good (i := .branchNumber .r0 ⟨d.buffer.labels.size⟩)
    (d := { d with buffer := { d.buffer with labels := d.buffer.labels.push none } }) ⟨hg.valid, hg.height⟩ rfl
  refine .bind_ok (newLabel_eq d) (.bind_ok hd₂ ?_)
  have hext₂ := hext₁.trans (hadds₂.extends_inst fun l hl => (Option.some.inj hl).symm)
  refine ((site_fallback hfac rfl).mono (fun _ he => hext₂.lacks he) fun _ _ h => h).bind fun _ d₃ hs => ?_
  have hfresh : d₃.buffer.labels[d.buffer.labels.size]? = some none := by
    rw [hs.labels, hadds₂.labels]
    simp
  obtain ⟨d₄, hd₄, hbinds⟩ := bind_label_ok (l := ⟨d.buffer.labels.size⟩) hfresh
  refine .of_ok hd₄ ⟨(hext₂.trans (hs.extends _)).bind hbinds (Nat.le_refl _) _, ?_,
    fun _ => hbinds.good (hs.good hgood₂), ?_⟩
  · rw [hbinds.stack, hs.stack, hstack₂]
  intro f c v host scripts lower argc w hg hm
  have hgrows := hbinds.grows.trans hg
  have hnumber : (d₂.buffer.insts)[d.buffer.offset]? = some (.branchNumber .r0 ⟨d.buffer.labels.size⟩) :=
    hadds₂.inst (k := 0) rfl
  obtain ⟨offset, hoffset, hinst⟩ := hm.branch (hs.grows.trans hgrows) hnumber fun _ => rfl
  have hbound : offset = d₃.buffer.offset := Option.some.inj (hoffset.symm.trans (hg.labels hbinds.bound))
  have hstep : (c.place lower d.buffer.offset argc v w).step host scripts = _ := Config.step_branchNumber hinst
  have hreg : v.registers.get .r0 = v.registers.r0 := rfl
  rw [hreg] at hstep
  show Config.Ends host scripts c lower _ _ _ (.ok (if v.registers.r0.isNumber then v.registers.r0
    else .number (v.registers.r0.toNumber w.atoms)) w)
  rw [hbinds.offset]
  cases hnum : v.registers.r0.isNumber with
  | true =>
    rw [hnum, if_pos rfl, hbound] at hstep
    exact ⟨argc, v, .one hstep, by rw [if_pos rfl, ← hreg]; exact (View.setReg_get v .r0).symm⟩
  | false =>
    rw [hnum, if_neg Bool.false_ne_true] at hstep
    have hoffset₂ : d₂.buffer.offset = d.buffer.offset + 1 := hadds₂.offset
    rw [← hoffset₂] at hstep
    have hends : Config.Ends host scripts c lower (c.place lower d₂.buffer.offset argc v w) _ _ _ :=
      hs.ends hgrows hm fun _ _ => Fallback.toNumber_performs
    exact hends.after (.one hstep)

theorem pos_lowers {n : Nat} (hfac : job.factory = StubBody.fallbacks) (hg : d.Good) (hroom : d.stack.depth < 2 ^ 30)
    (hn : d.stack.depth = n + 1) :
    Yields (pos job i) d (d.Lacks 1) fun _ d' => Lowers job (fun _ => one fun a e => do
      let number := Value.number (a.toNumber (← get).atoms)
      push (if a.isNumber then a else number) e) 1 (d.stack.knowns.take n ++ [none]) d d' := by
  have hpos : pos job i = popRegisters 1 >>= fun _ =>
      (do let done ← newLabel; inst (.branchNumber .r0 done); site job .toNumber; Emit.bind done) >>= fun _ =>
        Emit.push ⟨.register .r0, none⟩ := by
    simp only [pos, pushReg, bind_assoc]
  rw [hpos]
  exact single_lowers (fun _ a => do
    let number := Value.number (a.toNumber (← get).atoms)
    pure (if a.isNumber then a else number)) (fun _ hg => number_answering hfac hg) none hg hroom hn

end Lowering

/-! ## Calls -/

theorem View.extract_stack {v : View} {n k : Nat} (lower : ValueStack) (h : v.operands.length = n + k) :
    ((v.stack lower).extract ((v.stack lower).size - k) (v.stack lower).size).toList = v.operands.drop n := by
  have hsize : (v.stack lower).size - k = (lower ++ v.slots).size + n := by
    rw [View.size_stack, Array.size_append]
    omega
  rw [hsize, Array.toList_extract, List.extract_eq_take_drop, List.take_of_length_le (by simp), View.stack,
    Array.toList_append,
    List.drop_append]
  simp

/-- The callee, the receiver and the arguments are the top values of the stack. -/
theorem Fallback.call_run {host : Host σ} {site : Site} {argc n : Nat} {v : View} {s : SiteState σ}
    {callee this : Value} {args : List Value} {lower : ValueStack} (hstack : s.machine.stack = v.stack lower)
    (hlen : v.operands.length = n + (argc + 2)) (hargs : v.operands.drop n = callee :: this :: args) :
    call.run host ⟨site, argc⟩ s = match host.call callee this args s.world with
      | .ok (.value y) w => .ok .done ⟨s.registers.set .r0 y, s.scratch, s.machine, w⟩
      | .ok (.invoke script) w => .ok (.invoke script args) ⟨s.registers, s.scratch, s.machine, w⟩
      | .error err w => .error err ⟨s.registers, s.scratch, s.machine, w⟩ := by
  have hsize : ¬(v.stack lower).size < argc + 2 := by rw [View.size_stack]; omega
  show (get >>= _ : StubM σ Verdict) s = _
  show EStateM.bind get _ s = _
  simp only [EStateM.bind, show (get : StubM σ (SiteState σ)) s = .ok s s from rfl, hstack, if_neg hsize,
    View.extract_stack lower hlen, hargs]
  show EStateM.bind (StubM.ask (host.call callee this args)) _ s = _
  simp only [EStateM.bind, StubM.ask]
  cases host.call callee this args s.world with
  | error err w => rfl
  | ok answer w => cases answer <;> rfl

/-- The callee, the receiver and the arguments, and the operands below them. -/
theorem Mirrors.called {job : Job (StubBody σ)} {d : Draft (StubBody σ)} {v : View} {e : Evaluation} {n argc : Nat}
    (h : Mirrors job d v e) (hn : d.stack.depth = n + (argc + 2)) :
    ∃ callee this args, (e.operands.take (argc + 2)).reverse = callee :: this :: args ∧
      (callee :: this :: args).length = argc + 2 ∧
      e.operands.reverse = (e.operands.drop (argc + 2)).reverse ++ callee :: this :: args ∧
      e.operands.reverse.drop n = callee :: this :: args := by
  have hlen := h.length
  have hsplit : e.operands.reverse = (e.operands.drop (argc + 2)).reverse ++ (e.operands.take (argc + 2)).reverse := by
    rw [← List.reverse_append, List.take_append_drop]
  have hbelow : (e.operands.drop (argc + 2)).reverse.length = n := by rw [List.length_reverse, List.length_drop]; omega
  have htop : (e.operands.take (argc + 2)).reverse.length = argc + 2 := by
    rw [List.length_reverse, List.length_take]; omega
  match hl : (e.operands.take (argc + 2)).reverse with
  | [] => rw [hl] at htop; cases htop
  | [_] => rw [hl] at htop; cases htop
  | callee :: this :: args =>
    rw [hl] at hsplit htop
    exact ⟨callee, this, args, rfl, htop, hsplit, by rw [hsplit, ← hbelow, List.drop_left]⟩

/-- What a call comes to, by the host's answer. -/
theorem Interpreter.call_eq {host : Host σ} {argc : Nat} {e : Evaluation} {w : World σ} {callee this : Value}
    {args : List Value} (hlen : argc + 2 ≤ e.operands.length)
    (hargs : (e.operands.take (argc + 2)).reverse = callee :: this :: args) :
    call host argc e w = match host.call callee this args w with
      | .ok (.value y) w => .ok (.goOn ({ e with operands := e.operands.drop (argc + 2) }.push y)) w
      | .ok (.invoke script) w => .ok (.invoke script args { e with operands := e.operands.drop (argc + 2) }) w
      | .error err w => .error err w := by
  simp only [call, hargs, if_neg (Nat.not_lt.mpr hlen)]
  show EStateM.bind (host.call callee this args) _ w = _
  rw [EStateM.bind]
  cases host.call callee this args w with
  | error err w => rfl
  | ok answer w => cases answer <;> rfl

namespace Lowering

open Draft Emit Interpreter

variable {job : Job (StubBody σ)} {i : Instruction} {d : Draft (StubBody σ)}

theorem call_lowered {n : Nat} {count : UInt16} (hop : i.opcode = .call) (hcount : i.u16? = some count)
    (hfac : job.factory = StubBody.fallbacks) (hg : d.Good) (hroom : d.stack.depth < 2 ^ 30)
    (hn : d.stack.depth = n + (i.count + 2)) :
    Yields (call job i) d (d.Lacks (i.sites d.stack.knowns)) fun _ d' => Lowered job i d d' := by
  have hsites : i.sites d.stack.knowns = 1 := by rw [Instruction.sites, hop]
  have hc : count.toNat = i.count := (count_of_u16 hcount).symm
  obtain ⟨d₁, ms₁, hd₁, hadds₁, hgood₁, hset₁, hdepth₁, hknowns₁, hrun₁⟩ := flushAll_ok hg hroom
  obtain ⟨d₂, hd₂, hadds₂, hstack₂, hgood₂⟩ := inst_good hgood₁ (i := .setArgc i.count) rfl
  refine .bind_ok (u16_ok hcount) (.bind_ok hd₁ ?_)
  rw [hc]
  refine .bind_ok hd₂ ?_
  have hext₂ : d.Extends 0 (fun _ => False) d₂ :=
    (hadds₁.extends_moves _).trans (hadds₂.extends_inst fun l hl => by cases hl)
  rw [hsites]
  refine ((site_fallback hfac rfl).mono (fun _ he => hext₂.lacks he) fun _ _ h => h).bind fun _ d₃ hs => ?_
  have hgood₃ := hs.good hgood₂
  have hstack₃ : d₃.stack = d₁.stack := hs.stack.trans hstack₂
  obtain ⟨d₄, ms₄, hd₄, hadds₄, hgood₄, hdepth₄, hknowns₄, hrun₄⟩ :=
    drop_ok hgood₃ (k := i.count + 2) (n := n) (by rw [hstack₃]; omega) (by rw [hstack₃]; omega)
  obtain ⟨d₅, ms₅, hd₅, hadds₅, hgood₅, _, hknowns₅, hrun₅⟩ := pushReg_ok hgood₄ (by omega) .r0 none
  refine .bind_ok hd₄ (.of_ok hd₅ ?_)
  have hext₅ : d.Extends 1 (fun _ => False) d₅ :=
    (hext₂.trans (hs.extends _)).trans ((hadds₄.extends_moves _).trans (hadds₅.extends_moves _))
  refine ⟨by rw [hsites]; exact hext₅.mono fun _ hl => hl.elim, hgood₅, ?_, fun _ hmis => ?_, ?_⟩
  · simp [hknowns₅, hknowns₄, hstack₃, hknowns₁, Instruction.typesAfter, hop, Instruction.pops, Instruction.pushes,
      VirtualStack.length_knowns, hn]
  · have hpre := hmis.1
    rw [Instruction.presumes, hop] at hpre
    cases hpre
  intro f c v e host scripts lower argc w hb _
  have hgrows₄ := hadds₅.grows.trans hb.grows
  have hgrows₃ := hadds₄.grows.trans hgrows₄
  have hgrows₂ := hs.grows.trans hgrows₃
  have hlen := hb.mirrors.length
  obtain ⟨callee, this, args, hargs, htop, hsplit, hdrop⟩ := hb.mirrors.called hn
  obtain ⟨hperf₁, hst₁⟩ := hrun₁ hb.mirrors.stands
  -- up to the call
  have hstart : Config.Leads host scripts (c.place lower d.buffer.offset argc v w)
      (c.place lower d₂.buffer.offset i.count { v with operands := e.operands.reverse } w) := by
    refine (hadds₁.leads (hadds₂.grows.trans hgrows₂) hb.installed hperf₁).trans (.one ?_)
    have hinst : c.current.method.code.insts[d₁.buffer.offset]? = some (.setArgc i.count) :=
      hb.installed.inst hgrows₂ (hadds₂.inst (k := 0) rfl) fun _ => rfl
    rw [hadds₂.offset]
    exact Config.step_setArgc hinst
  -- from the call on, with whatever it gives
  have hafter (c' : Config σ) (y : Value) (argc' : Nat) (w' : World σ)
      (hmethod : c'.current.method = c.current.method) :
      ∃ v', Config.Leads host scripts
          (c'.place lower d₃.buffer.offset argc' ({ v with operands := e.operands.reverse }.setReg .r0 y) w')
          (c'.place lower d₅.buffer.offset argc' v' w') ∧
        Mirrors job d₅ v' ({ e with operands := e.operands.drop (i.count + 2) }.push y) := by
    have hst₃ : d₃.stack.Stands ({ v with operands := e.operands.reverse }.setReg .r0 y)
        ((e.operands.drop (i.count + 2)).reverse ++ callee :: this :: args) := by
      rw [hstack₃, ← hsplit]
      exact hst₁.setReg (hset₁.unclaimed .r0) y
    obtain ⟨v₄, hperf₄, hst₄, hsame₄⟩ := hrun₄ hst₃ htop
    obtain ⟨v₅, hperf₅, hst₅, hsame₅⟩ := hrun₅ hst₄
    have hinstalled : f.Installed c'.current.method := by rw [hmethod]; exact hb.installed
    have hr₀ : v₄.registers.get .r0 = y := by rw [hsame₄]; rfl
    rw [hr₀] at hst₅
    refine ⟨v₅, (hadds₄.leads hgrows₄ hinstalled hperf₄).trans (hadds₅.leads hb.grows hinstalled hperf₅), ?_⟩
    exact hb.mirrors.same (by simpa [Evaluation.push] using hst₅) (by rw [hsame₅, hsame₄]; rfl)
      (by rw [hsame₅, hsame₄]; rfl) rfl
  obtain ⟨site, _, hstep⟩ : ∃ site : Site, site.kind = .call count ∧
      (c.place lower d₂.buffer.offset i.count { v with operands := e.operands.reverse } w).step host scripts = _ :=
    Config.step_site hs hgrows₃ hb.installed
  rw [Fallback.call_run rfl (n := n) (by rw [List.length_reverse]; omega) hdrop, ← hs.offset] at hstep
  have hact : act host i e w = Interpreter.call host i.count e w := by rw [act, hop]
  rw [hact, Interpreter.call_eq (by omega) hargs]
  have hfalls : i.opcode.fallsThrough = true := by rw [hop]; rfl
  cases hanswer : host.call callee this args w with
  | error err w' =>
    simp only [hanswer] at hstep
    exact .failed hstart (hs.not_trips hgrows₃ hb.installed) hstep
  | ok answer w' =>
    cases answer with
    | value y =>
      simp only [hanswer] at hstep
      obtain ⟨v', hlead, hmir⟩ := hafter c y i.count w' rfl
      exact .fell hfalls ((hstart.trans (.one hstep)).trans hlead) rfl hmir
    | invoke script =>
      simp only [hanswer] at hstep
      refine .invoked hfalls hstart (hs.not_trips hgrows₃ hb.installed) hstep rfl fun c' x w'' hmethod => ?_
      obtain ⟨v', hlead, hmir⟩ := hafter c' x i.count w'' hmethod
      exact ⟨i.count, v', hlead, hmir⟩

end Lowering
end BaselineTier
