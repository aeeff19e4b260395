/-
  BaselineTier.Proofs.Kinds — the site of each instruction, and the heights of its code.

  Which site an instruction gets is a matter of its opcode, its operands and what is known of
  the operand stack (`Job.kind?`). Lowering it writes exactly that site and keeps the chart of
  the code sound, or stops because there is no room for the site (`lower_writes`).
-/

import BaselineTier.Proofs.Lowering
import BaselineTier.Proofs.Naming
import BaselineTier.Proofs.Writing

namespace BaselineTier

variable {σ β : Type}

/-! ## The site of an instruction -/

namespace Job

/-- What the site of an instruction does, if it has one; the name that it mentions must be known. -/
def kind? (job : Job β) (i : Instruction) (ts : Types) : Except CompileError (Option SiteKind) :=
  match i.opcode with
  | .add | .sub | .mul | .div | .mod | .bitAnd | .bitOr | .bitXor | .lsh | .rsh | .ursh => .ok (some (.arith i.opcode))
  | .incLocal => .ok (some (.arith .add))
  | .decLocal => .ok (some (.arith .sub))
  | .neg | .bitNot => .ok (some (.unary i.opcode))
  | .pos => .ok (some .toNumber)
  | .eq | .ne | .strictEq | .strictNe | .lt | .le | .gt | .ge => .ok (some (.compare i.opcode))
  | .ifEq | .ifNe | .andJump | .orJump | .logicalNot => .ok (if i.presumes ts then none else some .toBool)
  | .getName => (job.name i).map fun name => some (.getName name)
  | .setName => (job.name i).map fun name => some (.setName name)
  | .getGlobal => (job.name i).map fun name => some (.getGlobal name)
  | .setGlobal => (job.name i).map fun name => some (.setGlobal name)
  | .getProp => (job.name i).map fun key => some (.getProp key)
  | .setProp => (job.name i).map fun key => some (.setProp key)
  | .getElem => .ok (some .getElem)
  | .setElem => .ok (some .setElem)
  | .call => .ok (some (.call (i.u16?.getD 0)))
  | .pushString => (job.name i).map fun _ => none
  | _ => .ok none

variable {job : Job β} {i : Instruction} {ts : Types}

theorem exists_name {f : Atom → Option SiteKind} {kind : Option SiteKind} (h : (job.name i).map f = .ok kind) :
    ∃ atom, job.name i = .ok atom ∧ f atom = kind := by
  cases hname : job.name i with
  | error e => rw [hname] at h; cases h
  | ok atom =>
    rw [hname] at h
    cases h
    exact ⟨atom, rfl, rfl⟩

/-- Only a name can be unknown. -/
theorem kind?_error {e : CompileError} (h : job.kind? i ts = .error e) :
    i.opcode.hasAtom = true ∧ job.name i = .error e := by
  have hmap {f : Atom → Option SiteKind} (h : (job.name i).map f = .error e) : job.name i = .error e := by
    cases hname : job.name i with
    | ok atom => rw [hname] at h; cases h
    | error e' => rw [hname] at h; cases h; rfl
  unfold kind? at h
  generalize hop : i.opcode = op at h
  cases op <;> first | cases h | exact ⟨rfl, hmap h⟩

theorem name_of_kind? {kind : Option SiteKind} (h : job.kind? i ts = .ok kind) (hop : i.opcode.hasAtom = true) :
    ∃ atom, job.name i = .ok atom := by
  unfold kind? at h
  generalize i.opcode = op at h hop
  cases op <;> cases hop
  all_goals
    obtain ⟨atom, hname, _⟩ := exists_name h
    exact ⟨atom, hname⟩

theorem kind?_named {kind : Option SiteKind} (h : job.kind? i ts = .ok kind) : job.named.kind? i ts = .ok kind := by
  have hmap {f : Atom → Option SiteKind} (h : (job.name i).map f = .ok kind) : (job.named.name i).map f = .ok kind := by
    obtain ⟨atom, hname, rfl⟩ := exists_name h
    rw [show job.named.name i = .ok atom from Job.atom_named hname]
    rfl
  unfold kind? at h ⊢
  generalize i.opcode = op at h ⊢
  cases op <;> first | exact h | exact hmap h

theorem sites_of_kind? {kind : Option SiteKind} (h : job.kind? i ts = .ok kind) : i.sites ts = kind.toList.length := by
  have hmap {f : Atom → Option SiteKind} (h : (job.name i).map f = .ok kind) : ∃ atom, kind = f atom := by
    obtain ⟨atom, _, rfl⟩ := exists_name h
    exact ⟨atom, rfl⟩
  unfold kind? at h
  unfold Instruction.sites
  generalize i.opcode = op at h ⊢
  cases op
  case ifEq | ifNe | andJump | orJump | logicalNot =>
    cases h
    simp only
    split <;> rfl
  case getName | setName | getGlobal | setGlobal | getProp | setProp | pushString =>
    obtain ⟨atom, rfl⟩ := hmap h
    rfl
  all_goals
    cases h
    rfl

end Job

namespace Lowering

open Draft Emit

variable {limit n : Nat} {T : Label → Nat → Prop} {d₀ d : Draft (StubBody σ)} {ks : List SiteKind}
  {E : CompileError → Prop} {job : Job (StubBody σ)} {i : Instruction}

/-! ## Routines without a site -/

theorem dup_writes (hw : Writes limit T d₀ ks (n + 1) d) (hn : n + 1 ≤ limit) :
    Yields (dup job i) d E fun _ d' => Writes limit T d₀ ks (n + 2) d' := by
  obtain ⟨top, hpeek, _⟩ := peek_ok hw.depth
  refine .bind_ok hpeek ((hw.popOne (by omega)).bind fun _ _ ⟨hw, _⟩ => (hw.move fun _ => rfl).bind
    fun _ _ ⟨hw, _⟩ => ?_)
  exact (hw.pushReg (by omega) .r1 _).bind fun _ _ hw => hw.pushReg (by omega) .r0 _

theorem dup2_writes (hw : Writes limit T d₀ ks n d) (htwo : 2 ≤ n) (hn : n + 1 ≤ limit) :
    Yields (dup2 job i) d E fun _ d' => Writes limit T d₀ ks (n + 2) d' := by
  refine (hw.flushBelow (by omega) 0).bind fun _ d₁ hw => .bind_ok (depth_eq d₁) ?_
  refine .bind_ok (assume_ok (decide_eq_true (by rw [hw.depth]; exact htwo)) .overflow d₁) ?_
  refine (hw.move fun _ => rfl).bind fun _ _ ⟨hw, _⟩ => (hw.move fun _ => rfl).bind fun _ _ ⟨hw, _⟩ => ?_
  exact (hw.pushReg (by omega) .r0 none).bind fun _ _ hw => hw.pushReg (by omega) .r1 none

theorem swap_writes (hw : Writes limit T d₀ ks (n + 2) d) (hn : n + 2 ≤ limit) :
    Yields (swap job i) d E fun _ d' => Writes limit T d₀ ks (n + 2) d' := by
  refine (hw.popTwo (by omega)).bind fun _ _ ⟨hw, _⟩ => ?_
  exact (hw.pushReg (by omega) .r1 none).bind fun _ _ hw => hw.pushReg (by omega) .r0 none

theorem literal_writes {x : Value} (hx : i.literal? = some x) (hw : Writes limit T d₀ ks n d) (hn : n ≤ limit + 1) :
    Yields (literal job i) d E fun _ d' => Writes limit T d₀ ks (n + 1) d' := by
  simp only [literal, hx]
  exact hw.push hn rfl fun h => absurd rfl h

theorem string_writes {index : UInt32} {atom : Atom} (hindex : i.u32? = some index)
    (hatom : Emit.atom job index d = .ok atom d) (hw : Writes limit T d₀ ks n d) (hn : n ≤ limit) :
    Yields (string job i) d E fun _ d' => Writes limit T d₀ ks (n + 1) d' :=
  .bind_ok (u32_ok hindex) (.bind_ok hatom (hw.push (by omega) rfl fun h => absurd rfl h))

theorem getLocal_writes {index : UInt16} (hindex : i.u16? = some index) (hw : Writes limit T d₀ ks n d)
    (hn : n ≤ limit) :
    Yields (getLocal job i) d E fun _ d' => Writes limit T d₀ ks (n + 1) d' := by
  refine .bind_ok (u16_ok hindex) ?_
  by_cases hslot : index.toNat < job.program.slots
  · rw [if_pos hslot, pushSlot_eq hslot]
    exact hw.push (by omega) rfl fun h => absurd rfl h
  · rw [if_neg hslot]
    refine (hw.flushBelow hn 0).bind fun _ _ hw => (hw.move fun _ => rfl).bind fun _ _ ⟨hw, _⟩ => ?_
    exact hw.pushReg hn .r0 none

theorem setLocal_writes {index : UInt16} (hindex : i.u16? = some index) (hw : Writes limit T d₀ ks (n + 1) d)
    (hn : n + 1 ≤ limit) :
    Yields (setLocal job i) d E fun _ d' => Writes limit T d₀ ks (n + 1) d' := by
  have hdst : ∀ k, Address.slot index.toNat ≠ .stack k := nofun
  refine .bind_ok (u16_ok hindex) ((hw.flushAliases (by omega) (.slot index.toNat) rfl hdst).bind
    fun _ _ ⟨hw, hclear⟩ => ?_)
  exact hw.storeTop (by omega) hdst hclear

theorem getArg_writes {index : UInt16} (hindex : i.u16? = some index) (harg : index.toNat < job.program.args)
    (hw : Writes limit T d₀ ks n d) (hn : n ≤ limit) :
    Yields (getArg job i) d E fun _ d' => Writes limit T d₀ ks (n + 1) d' := by
  refine .bind_ok (u16_ok hindex) ?_
  rw [pushArg_eq harg]
  exact hw.push (by omega) rfl fun h => absurd rfl h

theorem setArg_writes {index : UInt16} (hindex : i.u16? = some index) (hw : Writes limit T d₀ ks (n + 1) d)
    (hn : n + 1 ≤ limit) :
    Yields (setArg job i) d E fun _ d' => Writes limit T d₀ ks (n + 1) d' := by
  have hdst : ∀ k, Address.arg index.toNat ≠ .stack k := nofun
  refine .bind_ok (u16_ok hindex) ((hw.flushAliases (by omega) (.arg index.toNat) rfl hdst).bind
    fun _ _ ⟨hw, hclear⟩ => ?_)
  exact hw.storeTop (by omega) hdst hclear

/-! ## Routines with a site -/

section Sites

variable (hfac : job.factory = StubBody.fallbacks)

include hfac

theorem arith_writes (hop : i.opcode.isArith = true) (hw : Writes limit T d₀ [] (n + 2) d) (hn : n + 1 ≤ limit) :
    Yields (arith job i) d (fun e => d₀.sites.refusal? = some e) fun _ d' =>
      Writes limit T d₀ [.arith i.opcode] (n + 1) d' := by
  have hkind : Fallback.ofKind? (.arith i.opcode) = some .arith := if_pos hop
  refine (hw.popTwo hn).bind fun _ _ ⟨hw, _⟩ => (hw.site hfac _ hkind).bind fun _ _ ⟨hw, _⟩ => ?_
  exact hw.pushReg (by omega) .r0 none

theorem compare_writes (hop : i.opcode.isCompare = true) (hw : Writes limit T d₀ [] (n + 2) d) (hn : n + 1 ≤ limit) :
    Yields (compare job i) d (fun e => d₀.sites.refusal? = some e) fun _ d' =>
      Writes limit T d₀ [.compare i.opcode] (n + 1) d' := by
  have hkind : Fallback.ofKind? (.compare i.opcode) = some .compare := if_pos hop
  refine (hw.popTwo hn).bind fun _ _ ⟨hw, _⟩ => (hw.site hfac _ hkind).bind fun _ _ ⟨hw, _⟩ => ?_
  exact hw.pushReg (by omega) .r0 _

theorem unary_writes (hop : i.opcode = .neg ∨ i.opcode = .bitNot) (hw : Writes limit T d₀ [] (n + 1) d)
    (hn : n + 1 ≤ limit) :
    Yields (unary job i) d (fun e => d₀.sites.refusal? = some e) fun _ d' =>
      Writes limit T d₀ [.unary i.opcode] (n + 1) d' := by
  have hkind : Fallback.ofKind? (.unary i.opcode) = some .unary := if_pos hop
  refine (hw.popOne (by omega)).bind fun _ _ ⟨hw, _⟩ => (hw.site hfac _ hkind).bind fun _ _ ⟨hw, _⟩ => ?_
  exact hw.pushReg (by omega) .r0 none

/-- The label behind the site is one of the code's own. -/
theorem pos_writes (hfresh : ∀ l k, T l k → l.index < d.buffer.labels.size) (hw : Writes limit T d₀ [] (n + 1) d)
    (hn : n + 1 ≤ limit) :
    Yields (pos job i) d (fun e => d₀.sites.refusal? = some e) fun _ d' =>
      Writes limit T d₀ [.toNumber] (n + 1) d' := by
  obtain ⟨d₁, ms, hd₁, hadds₁, _⟩ := popOne_ok hw.good (hw.shallow (by omega)) hw.depth
  obtain ⟨hw, _⟩ := (hw.popOne (E := fun _ => False) (by omega)).ok hd₁
  obtain ⟨hw, hfree, _⟩ := (hw.newLabel (E := fun _ => False)).ok (newLabel_eq d₁)
  refine .bind_ok hd₁ (.bind_ok (newLabel_eq d₁) ?_)
  refine (hw.inst (i := .branchNumber .r0 ⟨d₁.buffer.labels.size⟩) (fun _ => rfl) rfl fun l hl => ?_).bind
    fun _ d₂ ⟨hw, _, hd₂⟩ => ?_
  · cases hl
    exact .inr ⟨rfl, rfl⟩
  obtain ⟨hheight₂, hbuffer₂⟩ := CodeBuffer.emit_ok hd₂
  refine (hw.site hfac .toNumber rfl).bind fun _ d₃ ⟨hw, _, hheight₃, hlabels₃⟩ => ?_
  have hheight : d₃.buffer.height = d₁.buffer.height := hheight₃.trans (Option.some.inj hheight₂.symm)
  refine (hw.bind (by rw [hlabels₃, hbuffer₂]; exact hfree) fun k hk => ?_).bind fun _ _ ⟨hw, _⟩ =>
    hw.pushReg (by omega) .r0 none
  rcases hk with hk | rfl
  · have hlt := hfresh _ _ hk
    rw [hadds₁.labels] at hlt
    exact absurd hlt (Nat.lt_irrefl _)
  · exact hheight

theorem getName_writes {kind : SiteKind} (fb : Fallback) {index : UInt32} {atom : Atom} (hindex : i.u32? = some index)
    (hatom : Emit.atom job index d = .ok atom d)
    (hkind : (if i.opcode = .getGlobal then SiteKind.getGlobal atom else .getName atom) = kind)
    (hfb : Fallback.ofKind? kind = some fb) (hw : Writes limit T d₀ [] n d) (hn : n ≤ limit) :
    Yields (getName job i) d (fun e => d₀.sites.refusal? = some e) fun _ d' => Writes limit T d₀ [kind] (n + 1) d' := by
  refine .bind_ok (u32_ok hindex) (.bind_ok hatom ((hw.flushBelow hn 0).bind fun _ _ hw => ?_))
  simp only [hkind]
  exact (hw.site hfac _ hfb).bind fun _ _ ⟨hw, _⟩ => hw.pushReg hn .r0 none

theorem setName_writes {kind : SiteKind} (fb : Fallback) {index : UInt32} {atom : Atom} (hindex : i.u32? = some index)
    (hatom : Emit.atom job index d = .ok atom d)
    (hkind : (if i.opcode = .setGlobal then SiteKind.setGlobal atom else .setName atom) = kind)
    (hfb : Fallback.ofKind? kind = some fb) (hw : Writes limit T d₀ [] (n + 1) d) (hn : n + 1 ≤ limit) :
    Yields (setName job i) d (fun e => d₀.sites.refusal? = some e) fun _ d' => Writes limit T d₀ [kind] (n + 1) d' := by
  refine .bind_ok (u32_ok hindex) (.bind_ok hatom
    ((hw.stageTop hn).bind fun _ _ hw => (hw.flushBelow (by omega) 0).bind fun _ _ hw => ?_))
  simp only [hkind]
  exact (hw.site hfac _ hfb).bind fun _ _ ⟨hw, _⟩ => hw.pushScratch hn

theorem getProp_writes {index : UInt32} {atom : Atom} (hindex : i.u32? = some index)
    (hatom : Emit.atom job index d = .ok atom d) (hw : Writes limit T d₀ [] (n + 1) d) (hn : n + 1 ≤ limit) :
    Yields (getProp job i) d (fun e => d₀.sites.refusal? = some e) fun _ d' =>
      Writes limit T d₀ [.getProp atom] (n + 1) d' := by
  refine .bind_ok (u32_ok hindex) (.bind_ok hatom ((hw.popOne (by omega)).bind fun _ _ ⟨hw, _⟩ => ?_))
  exact (hw.site hfac .getProp rfl).bind fun _ _ ⟨hw, _⟩ => hw.pushReg (by omega) .r0 none

theorem setProp_writes {index : UInt32} {atom : Atom} (hindex : i.u32? = some index)
    (hatom : Emit.atom job index d = .ok atom d) (hw : Writes limit T d₀ [] (n + 2) d) (hn : n + 2 ≤ limit) :
    Yields (setProp job i) d (fun e => d₀.sites.refusal? = some e) fun _ d' =>
      Writes limit T d₀ [.setProp atom] (n + 1) d' := by
  refine .bind_ok (u32_ok hindex) (.bind_ok hatom
    ((hw.stageTop hn).bind fun _ _ hw => (hw.popOne (by omega)).bind fun _ _ ⟨hw, _⟩ => ?_))
  exact (hw.site hfac .setProp rfl).bind fun _ _ ⟨hw, _⟩ => hw.pushScratch (by omega)

theorem getElem_writes (hw : Writes limit T d₀ [] (n + 2) d) (hn : n + 2 ≤ limit) :
    Yields (getElem job i) d (fun e => d₀.sites.refusal? = some e) fun _ d' =>
      Writes limit T d₀ [.getElem] (n + 1) d' := by
  refine (hw.popTwo (by omega)).bind fun _ _ ⟨hw, _⟩ => (hw.site hfac .getElem rfl).bind fun _ _ ⟨hw, _⟩ => ?_
  exact hw.pushReg (by omega) .r0 none

theorem setElem_writes (hw : Writes limit T d₀ [] (n + 3) d) (hn : n + 3 ≤ limit) :
    Yields (setElem job i) d (fun e => d₀.sites.refusal? = some e) fun _ d' =>
      Writes limit T d₀ [.setElem] (n + 1) d' := by
  refine (hw.stageTop hn).bind fun _ _ hw => (hw.popTwo (by omega)).bind fun _ _ ⟨hw, _⟩ => ?_
  exact (hw.site hfac .setElem rfl).bind fun _ _ ⟨hw, _⟩ => hw.pushScratch (by omega)

theorem call_writes {argc : UInt16} (hargc : i.u16? = some argc) (hw : Writes limit T d₀ [] (n + (argc.toNat + 2)) d)
    (hn : n + (argc.toNat + 2) ≤ limit) :
    Yields (call job i) d (fun e => d₀.sites.refusal? = some e) fun _ d' =>
      Writes limit T d₀ [.call argc] (n + 1) d' := by
  refine .bind_ok (u16_ok hargc) ((hw.flushBelow hn 0).bind fun _ _ hw => ?_)
  refine (hw.inst (i := .setArgc argc.toNat) (fun _ => rfl) rfl fun _ hl => by cases hl).bind fun _ _ ⟨hw, _⟩ => ?_
  refine (hw.site hfac .call rfl).bind fun _ _ ⟨hw, _⟩ => (hw.drop hn).bind fun _ _ hw => ?_
  exact hw.pushReg (by omega) .r0 none

/-- On the way, the picture has an entry more than there ever are values. -/
theorem stepLocal_writes {offset : Nat} {slot : UInt16} {op : Opcode} (hop : op.isArith = true)
    (hw : Writes limit T d₀ [] n d) (hn : n + 1 ≤ limit) :
    Yields (do getLocal job ⟨offset, .getLocal, .u16 slot, 0⟩
               literal job ⟨offset, .pushOne, .none, 0⟩
               arith job ⟨offset, op, .none, 0⟩
               setLocal job ⟨offset, .setLocal, .u16 slot, 0⟩) d (fun e => d₀.sites.refusal? = some e) fun _ d' =>
      Writes limit T d₀ [.arith op] (n + 1) d' := by
  refine (getLocal_writes (i := ⟨offset, .getLocal, .u16 slot, 0⟩) rfl hw (by omega)).bind fun _ _ hw => ?_
  refine (literal_writes (i := ⟨offset, .pushOne, .none, 0⟩) rfl hw (by omega)).bind fun _ _ hw => ?_
  refine (arith_writes (i := ⟨offset, op, .none, 0⟩) hfac hop hw hn).bind fun _ _ hw => ?_
  exact setLocal_writes (i := ⟨offset, .setLocal, .u16 slot, 0⟩) rfl hw hn

/-! ## Tests -/

theorem test_writes (known : Bool) (hw : Writes limit T d₀ [] n d) :
    Yields (unless known do site job .toBool) d (fun e => known = false ∧ d₀.sites.refusal? = some e) fun _ d' =>
      Writes limit T d₀ (if known then [] else [.toBool]) n d' ∧ d'.stack = d.stack ∧
        d'.buffer.height = d.buffer.height := by
  cases known with
  | true => exact .of_ok rfl ⟨hw, rfl, rfl⟩
  | false => exact (hw.site hfac .toBool rfl).mono (fun _ he => ⟨rfl, he⟩) fun _ _ h => ⟨h.1, h.2.1, h.2.2.1⟩

theorem logicalNot_writes (hop : i.opcode = .logicalNot) (hw : Writes limit T d₀ [] (n + 1) d) (hn : n + 1 ≤ limit) :
    Yields (logicalNot job i) d (fun e => i.presumes d.stack.knowns = false ∧ d₀.sites.refusal? = some e) fun _ d' =>
      Writes limit T d₀ (if i.presumes d.stack.knowns then [] else [.toBool]) (n + 1) d' := by
  obtain ⟨top, hpeek, hpre, _⟩ := peek_test (i := i) (by rw [hop]; rfl) hw.depth
  rw [hpre]
  have hform : (do unless top.isBoolean do site job .toBool
                   inst (.negate .r0)
                   pushBoolean .r0 : Emit (StubBody σ) Unit) =
      (unless top.isBoolean do site job .toBool) >>= fun _ => (inst (.negate .r0) >>= fun _ => pushBoolean .r0) :=
    test_then job top.isBoolean _
  refine .bind_ok hpeek ((hw.popOne (by omega)).bind fun _ _ ⟨hw, _⟩ => ?_)
  refine hform ▸ (test_writes hfac top.isBoolean hw).bind fun _ _ ⟨hw, _⟩ => ?_
  refine (hw.inst (i := .negate .r0) (fun _ => rfl) rfl fun _ hl => by cases hl).bind fun _ _ ⟨hw, _⟩ => ?_
  exact hw.pushReg (by omega) .r0 _

/-- A test and a branch on its outcome, with everything written out. -/
theorem branching_writes {target : Nat} (known condition : Bool) (hw : Writes limit T d₀ [] n d)
    (hset : d.stack.Settled) (htarget : T (labelOf target) n) :
    Yields (do unless known do site job .toBool
               inst (.branch .r0 condition (labelOf target))) d
                 (fun e => known = false ∧ d₀.sites.refusal? = some e) fun _ d' =>
      Writes limit T d₀ (if known then [] else [.toBool]) n d' := by
  rw [test_then]
  have hheight := hw.height_of_settled hset
  refine (test_writes hfac known hw).bind fun _ _ ⟨hw, _, hheight'⟩ => ?_
  refine (hw.inst (i := .branch .r0 condition (labelOf target)) (fun _ => rfl) rfl fun l hl => ?_).mono (fun _ he => he)
    fun _ _ h => h.1
  cases hl
  rw [hheight', hheight]
  exact htarget

theorem branch_writes {target : Nat} (hop : i.opcode = .ifEq ∨ i.opcode = .ifNe) (hi : i.target? = some target)
    (hlt : target < job.program.length) (hw : Writes limit T d₀ [] (n + 1) d) (hn : n + 1 ≤ limit)
    (htarget : T (labelOf target) n) :
    Yields (branch job i) d (fun e => i.presumes d.stack.knowns = false ∧ d₀.sites.refusal? = some e) fun _ d' =>
      Writes limit T d₀ (if i.presumes d.stack.knowns then [] else [.toBool]) n d' := by
  have htest : i.opcode.isTest = true := by rcases hop with hop | hop <;> rw [hop] <;> rfl
  obtain ⟨top, hpeek, hpre, _⟩ := peek_test htest hw.depth
  rw [hpre]
  refine .bind_ok (target_ok hi hlt) (.bind_ok hpeek ((hw.popOne (by omega)).bind fun _ _ ⟨hw, hset⟩ => ?_))
  exact branching_writes hfac top.isBoolean _ hw hset htarget

theorem shortCircuit_writes {target : Nat} (hop : i.opcode = .andJump ∨ i.opcode = .orJump)
    (hi : i.target? = some target) (hlt : target < job.program.length) (hw : Writes limit T d₀ [] (n + 1) d)
    (hn : n + 1 ≤ limit) (htarget : T (labelOf target) (n + 1)) :
    Yields (shortCircuit job i) d (fun e => i.presumes d.stack.knowns = false ∧ d₀.sites.refusal? = some e) fun _ d' =>
      Writes limit T d₀ (if i.presumes d.stack.knowns then [] else [.toBool]) (n + 1) d' := by
  have htest : i.opcode.isTest = true := by rcases hop with hop | hop <;> rw [hop] <;> rfl
  obtain ⟨top, hpeek, hpre, _⟩ := peek_test htest hw.depth
  rw [hpre]
  refine .bind_ok (target_ok hi hlt) (.bind_ok hpeek
    ((hw.flushAll hn).bind fun _ d₁ ⟨hw, hset⟩ => .bind_ok (depth_eq d₁) ?_))
  refine (hw.move fun _ => rfl).bind fun _ _ ⟨hw, hstack⟩ => ?_
  exact branching_writes hfac top.isBoolean _ hw (by rw [hstack]; exact hset) htarget

end Sites

/-! ## Ends -/

/-- Behind an instruction that control does not go on from, everything is written out, and nothing runs through; only at
    the end of the program the way out follows, with an empty stack. -/
structure Closes (job : Job (StubBody σ)) (i : Instruction) (d : Draft (StubBody σ)) : Prop where
  settled : d.stack.Settled
  severed : d.buffer.Severed ∨ job.program.length ≤ i.next ∧ d.buffer.height = 0

theorem goto_writes {target : Nat} (hi : i.target? = some target) (hlt : target < job.program.length)
    (hw : Writes limit T d₀ ks n d) (hn : n ≤ limit) (htarget : T (labelOf target) n) :
    Yields (goto job i) d E fun _ d' => Writes limit T d₀ ks n d' ∧ Closes job i d' := by
  refine .bind_ok (target_ok hi hlt) ((hw.flushAll hn).bind fun _ _ ⟨hw, hset⟩ => ?_)
  have hheight := hw.height_of_settled hset
  refine (hw.inst (i := .jump (labelOf target)) (fun _ => rfl) rfl fun l hl => ?_).mono (fun _ he => he) fun _ _ h => ?_
  · cases hl
    rw [hheight]
    exact htarget
  · exact ⟨h.1, by rw [h.2.1]; exact hset, .inl (hw.chart.severed h.2.2)⟩

theorem leave_writes {label : Label} (hexit : d.exit = some label) (hw : Writes limit T d₀ ks 0 d)
    (htarget : T label 0) :
    Yields (leave job i) d E fun _ d' => Writes limit T d₀ ks 0 d' ∧ Closes job i d' := by
  have hempty : d.stack.entries = [] := List.eq_nil_of_length_eq_zero hw.depth
  have hset : d.stack.Settled := fun k e he => by rw [hempty] at he; cases he
  have hheight := hw.height_of_settled hset
  by_cases hnext : i.next < job.program.length
  · have hlabel : (exitLabel : Emit (StubBody σ) Label) d = .ok label d := by
      rw [exitLabel, bind_eq (get_eq d), hexit]
      rfl
    rw [leave, if_pos hnext]
    refine .bind_ok hlabel ((hw.inst (i := .jump label) (fun _ => rfl) rfl fun l hl => ?_).mono (fun _ he => he)
      fun _ _ h => ?_)
    · cases hl
      rw [hheight]
      exact htarget
    · exact ⟨h.1, by rw [h.2.1]; exact hset, .inl (hw.chart.severed h.2.2)⟩
  · rw [leave, if_neg hnext]
    exact .of_ok rfl ⟨hw, hset, .inr ⟨Nat.le_of_not_lt hnext, hheight⟩⟩

theorem ret_writes {label : Label} (hexit : d.exit = some label) (hw : Writes limit T d [] 1 d) (htarget : T label 0) :
    Yields (ret job i) d E fun _ d' => Writes limit T d [] 0 d' ∧ Closes job i d' := by
  refine hw.popLast.bind fun _ d₁ hw => .bind_ok (depth_eq d₁) ?_
  refine .bind_ok (assume_ok (decide_eq_true hw.depth) _ d₁) ?_
  exact leave_writes (hw.exit.trans hexit) hw htarget

theorem stop_writes {label : Label} (hexit : d.exit = some label) (hw : Writes limit T d [] 0 d) (htarget : T label 0) :
    Yields (stop job i) d E fun _ d' => Writes limit T d [] 0 d' ∧ Closes job i d' := by
  refine .bind_ok (depth_eq d) (.bind_ok (assume_ok (decide_eq_true hw.depth) _ d) ?_)
  exact (hw.move fun _ => rfl).bind fun _ _ ⟨hw, _⟩ => leave_writes (hw.exit.trans hexit) hw htarget

/-! ## Every instruction -/

/-- Lowering writes the site of that kind, if there is one, and leaves the picture with so many entries. -/
def Written (limit : Nat) (T : Label → Nat → Prop) (job : Job (StubBody σ)) (i : Instruction) (kind : Option SiteKind)
    (n : Nat) (d : Draft (StubBody σ)) : Prop :=
  Yields (lower job i) d (fun e => kind.isSome = true ∧ d.sites.refusal? = some e) fun _ d' =>
    Writes limit T d kind.toList n d' ∧ (i.opcode.fallsThrough = false → Closes job i d')

variable {r : Lowering (StubBody σ)} {kind : SiteKind}

theorem lower_eq {job : Job β} {r : Lowering β} (hr : routine? i.opcode = some r) :
    lower job i = r job i := by simp only [lower, hr]

theorem written_plain (hr : routine? i.opcode = some r) (hfalls : i.opcode.fallsThrough = true)
    (h : Yields (r job i) d (fun _ => False) fun _ d' => Writes limit T d [] n d') :
    Written limit T job i none n d := by
  unfold Written
  rw [lower_eq hr]
  exact h.mono (fun _ he => he.elim) fun _ d' h => ⟨h, fun hf => by rw [hfalls] at hf; cases hf⟩

theorem written_site {x : Emit (StubBody σ) Unit} (hx : lower job i = x) (hfalls : i.opcode.fallsThrough = true)
    (h : Yields x d (fun e => d.sites.refusal? = some e) fun _ d' => Writes limit T d [kind] n d') :
    Written limit T job i (some kind) n d := by
  unfold Written
  rw [hx]
  exact h.mono (fun _ he => ⟨rfl, he⟩) fun _ d' h => ⟨h, fun hf => by rw [hfalls] at hf; cases hf⟩

theorem written_test {known : Bool} (hr : routine? i.opcode = some r) (hfalls : i.opcode.fallsThrough = true)
    (h : Yields (r job i) d (fun e => known = false ∧ d.sites.refusal? = some e) fun _ d' =>
      Writes limit T d (if known then [] else [.toBool]) n d') :
    Written limit T job i (if known then none else some .toBool) n d := by
  cases known with
  | true => exact written_plain hr hfalls (h.mono (fun _ he => by cases he.1) fun _ _ h => h)
  | false => exact written_site (lower_eq hr) hfalls (h.mono (fun _ he => he.2) fun _ _ h => h)

theorem written_end (hr : routine? i.opcode = some r)
    (h : Yields (r job i) d (fun _ => False) fun _ d' => Writes limit T d [] n d' ∧ Closes job i d') :
    Written limit T job i none n d := by
  unfold Written
  rw [lower_eq hr]
  exact h.mono (fun _ he => he.elim) fun _ d' h => ⟨h.1, fun _ => h.2⟩

theorem atom_of_name {index : UInt32} {atom : Atom} (hindex : i.u32? = some index) (h : job.name i = .ok atom)
    (d : Draft (StubBody σ)) :
    Emit.atom job index d = .ok atom d := by
  rw [Job.name, hindex] at h
  rw [atom_eq, show job.atom index = .ok atom from h]

/-- The code of every instruction that this tier compiles has the site that belongs to it and a sound chart. -/
theorem lower_writes {kind : Option SiteKind} (hr : Ready job i d) (href : i.opcode.isRefused = false)
    (hw : Writes limit T d [] d.stack.depth d) (hkind : job.kind? i d.stack.knowns = .ok kind)
    (hdepth : d.stack.depth ≤ limit) (hafter : i.after d.stack.depth ≤ limit)
    (htarget : ∀ target, i.target? = some target → T (labelOf target) (i.after d.stack.depth))
    (hexit : ∀ l, d.exit = some l → T l 0) (hfresh : ∀ l k, T l k → l.index < d.buffer.labels.size) :
    Written limit T job i kind (i.after d.stack.depth) d := by
  obtain ⟨n, hn⟩ : ∃ n, d.stack.depth = n + i.pops := ⟨_, (Nat.sub_add_cancel hr.pops).symm⟩
  have hi : i.after d.stack.depth = n + i.pushes := by rw [Instruction.after, hn, Nat.add_sub_cancel]
  have hret := hr.ret
  have hstop := hr.stop
  have hformat := hr.format
  have hoperand := hr.operand
  have hwithin := hr.target
  have hfac := hr.factory
  obtain ⟨label, hlabel⟩ := hr.exit
  have hout := hexit label hlabel
  rw [hi] at hafter htarget ⊢
  rw [hn] at hw hdepth hret hstop
  clear hi hexit hr
  obtain ⟨offset, op, operand, size⟩ := i
  cases op
  case debugger | throwValue | lambda | arguments | enterWith | leaveWith => cases href
  all_goals simp only [Instruction.pops, Instruction.pushes] at hw hdepth hafter htarget hret hstop ⊢
  -- Shuffles and literals.
  case nop | loopHead =>
    cases hkind
    exact written_plain (r := nop) rfl rfl (.of_ok rfl hw)
  case pop =>
    cases hkind
    exact written_plain (r := pop) rfl rfl (hw.drop hdepth)
  case popN =>
    cases hkind
    obtain ⟨count, hcount⟩ := u16_of_format hformat
    rw [count_of_u16 hcount] at hw hdepth
    exact written_plain (r := popN) rfl rfl (.bind_ok (u16_ok hcount) (hw.drop hdepth))
  case dup =>
    cases hkind
    exact written_plain (r := dup) rfl rfl (dup_writes hw hdepth)
  case dup2 =>
    cases hkind
    exact written_plain (r := dup2) rfl rfl (dup2_writes hw (by omega) (by omega))
  case swap =>
    cases hkind
    exact written_plain (r := swap) rfl rfl (swap_writes hw hdepth)
  case pushUndefined | pushNull | pushTrue | pushFalse | pushZero | pushOne | pushHole =>
    cases hkind
    exact written_plain (r := literal) rfl rfl (literal_writes rfl hw (by omega))
  case pushInt8 | pushInt32 | pushDouble =>
    cases hkind
    cases operand <;> try cases hformat
    exact written_plain (r := literal) rfl rfl (literal_writes rfl hw (by omega))
  case pushString =>
    obtain ⟨index, hindex⟩ := u32_of_format hformat
    obtain ⟨atom, hname, rfl⟩ := Job.exists_name hkind
    exact written_plain (r := string) rfl rfl (string_writes hindex (atom_of_name hindex hname d) hw (by omega))
  -- Slots and arguments.
  case getLocal =>
    cases hkind
    obtain ⟨index, hindex⟩ := u16_of_format hformat
    exact written_plain (r := getLocal) rfl rfl (getLocal_writes hindex hw (by omega))
  case setLocal =>
    cases hkind
    obtain ⟨index, hindex⟩ := u16_of_format hformat
    exact written_plain (r := setLocal) rfl rfl (setLocal_writes hindex hw hdepth)
  case getArg =>
    cases hkind
    obtain ⟨index, hindex⟩ := u16_of_format hformat
    have harg : index.toNat < job.program.args := by
      rw [← count_of_u16 hindex]
      exact hoperand
    exact written_plain (r := getArg) rfl rfl (getArg_writes hindex harg hw (by omega))
  case setArg =>
    cases hkind
    obtain ⟨index, hindex⟩ := u16_of_format hformat
    exact written_plain (r := setArg) rfl rfl (setArg_writes hindex hw hdepth)
  case incLocal =>
    cases hkind
    cases operand <;> try cases hformat
    exact written_site (lower_incLocal ..) rfl (stepLocal_writes hfac rfl hw hafter)
  case decLocal =>
    cases hkind
    cases operand <;> try cases hformat
    exact written_site (lower_decLocal ..) rfl (stepLocal_writes hfac rfl hw hafter)
  -- Operators.
  case add | sub | mul | div | mod | bitAnd | bitOr | bitXor | lsh | rsh | ursh =>
    cases hkind
    exact written_site (lower_eq (r := arith) rfl) rfl (arith_writes hfac rfl hw hafter)
  case eq | ne | strictEq | strictNe | lt | le | gt | ge =>
    cases hkind
    exact written_site (lower_eq (r := compare) rfl) rfl (compare_writes hfac rfl hw hafter)
  case neg =>
    cases hkind
    exact written_site (lower_eq (r := unary) rfl) rfl (unary_writes hfac (.inl rfl) hw hafter)
  case bitNot =>
    cases hkind
    exact written_site (lower_eq (r := unary) rfl) rfl (unary_writes hfac (.inr rfl) hw hafter)
  case pos =>
    cases hkind
    exact written_site (lower_eq (r := pos) rfl) rfl (pos_writes hfac hfresh hw hafter)
  case logicalNot =>
    cases hkind
    exact written_test (r := logicalNot) rfl rfl (logicalNot_writes hfac rfl hw hafter)
  -- Names, properties and calls.
  case getName =>
    obtain ⟨index, hindex⟩ := u32_of_format hformat
    obtain ⟨atom, hname, rfl⟩ := Job.exists_name hkind
    exact written_site (lower_eq (r := getName) rfl) rfl
      (getName_writes hfac .getName hindex (atom_of_name hindex hname d) rfl rfl hw (by omega))
  case getGlobal =>
    obtain ⟨index, hindex⟩ := u32_of_format hformat
    obtain ⟨atom, hname, rfl⟩ := Job.exists_name hkind
    exact written_site (lower_eq (r := getName) rfl) rfl
      (getName_writes hfac .getGlobal hindex (atom_of_name hindex hname d) rfl rfl hw (by omega))
  case setName =>
    obtain ⟨index, hindex⟩ := u32_of_format hformat
    obtain ⟨atom, hname, rfl⟩ := Job.exists_name hkind
    exact written_site (lower_eq (r := setName) rfl) rfl
      (setName_writes hfac .setName hindex (atom_of_name hindex hname d) rfl rfl hw hafter)
  case setGlobal =>
    obtain ⟨index, hindex⟩ := u32_of_format hformat
    obtain ⟨atom, hname, rfl⟩ := Job.exists_name hkind
    exact written_site (lower_eq (r := setName) rfl) rfl
      (setName_writes hfac .setGlobal hindex (atom_of_name hindex hname d) rfl rfl hw hafter)
  case getProp =>
    obtain ⟨index, hindex⟩ := u32_of_format hformat
    obtain ⟨atom, hname, rfl⟩ := Job.exists_name hkind
    exact written_site (lower_eq (r := getProp) rfl) rfl
      (getProp_writes hfac hindex (atom_of_name hindex hname d) hw hafter)
  case setProp =>
    obtain ⟨index, hindex⟩ := u32_of_format hformat
    obtain ⟨atom, hname, rfl⟩ := Job.exists_name hkind
    exact written_site (lower_eq (r := setProp) rfl) rfl
      (setProp_writes hfac hindex (atom_of_name hindex hname d) hw hdepth)
  case getElem =>
    cases hkind
    exact written_site (lower_eq (r := getElem) rfl) rfl (getElem_writes hfac hw hdepth)
  case setElem =>
    cases hkind
    exact written_site (lower_eq (r := setElem) rfl) rfl (setElem_writes hfac hw hdepth)
  case call =>
    cases hkind
    obtain ⟨argc, hargc⟩ := u16_of_format hformat
    rw [count_of_u16 hargc] at hw hdepth
    rw [hargc]
    exact written_site (lower_eq (r := call) rfl) rfl (call_writes hfac hargc hw hdepth)
  -- Jumps and returns.
  case goto =>
    cases hkind
    obtain ⟨target, hto⟩ := target_of_format hformat
    exact written_end (r := goto) rfl (goto_writes hto (hwithin target hto) hw hdepth (htarget target hto))
  case ifEq =>
    cases hkind
    obtain ⟨target, hto⟩ := target_of_format hformat
    exact written_test (r := branch) rfl rfl (branch_writes hfac (.inl rfl) hto (hwithin target hto) hw hdepth
      (htarget target hto))
  case ifNe =>
    cases hkind
    obtain ⟨target, hto⟩ := target_of_format hformat
    exact written_test (r := branch) rfl rfl (branch_writes hfac (.inr rfl) hto (hwithin target hto) hw hdepth
      (htarget target hto))
  case andJump =>
    cases hkind
    obtain ⟨target, hto⟩ := target_of_format hformat
    exact written_test (r := shortCircuit) rfl rfl
      (shortCircuit_writes hfac (.inl rfl) hto (hwithin target hto) hw hdepth (htarget target hto))
  case orJump =>
    cases hkind
    obtain ⟨target, hto⟩ := target_of_format hformat
    exact written_test (r := shortCircuit) rfl rfl
      (shortCircuit_writes hfac (.inr rfl) hto (hwithin target hto) hw hdepth (htarget target hto))
  case ret =>
    cases hkind
    obtain rfl : n = 0 := by simpa using hret
    exact written_end (r := ret) rfl (ret_writes hlabel hw hout)
  case stop =>
    cases hkind
    obtain rfl : n = 0 := by simpa using hstop
    exact written_end (r := stop) rfl (stop_writes hlabel hw hout)

end Lowering
end BaselineTier
