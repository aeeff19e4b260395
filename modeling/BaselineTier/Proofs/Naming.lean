/-
  BaselineTier.Proofs.Naming — names that the table may lack.

  A program may mention texts that were never interned, as long as no instruction that is
  compiled names one of them; compiling stops at the first that does (`lower_unknown`). Had all
  the texts been interned first, those that were known would have the same atoms
  (`lookup_internAll`), so compiling that succeeds would have given the same code
  (`compile_named`). Whatever is proved of programs whose names are all known thereby holds of
  every script that holds compiled code (`Script.Baseline`).
-/

import BaselineTier.Proofs.Agreement
import BaselineTier.Proofs.Numbering

namespace BaselineTier

variable {σ β : Type}

/-- With all of the program's texts interned there is a source. -/
theorem Source.exists_interned (p : Program) (t : AtomTable) :
    ∃ source, ofProgram? p (t.internAll p.atoms.toList) = some source := by
  refine exists_ofProgram fun text ht => ?_
  have hmem : text ∈ p.atoms.toList := Array.mem_toList_iff.mpr ht
  exact AtomTable.lookup_internAll_of_mem hmem t

/-! ## What an instruction names -/

namespace Job

def atom (job : Job β) (index : UInt32) : Except CompileError Atom :=
  match job.program.atomText? index.toNat with
  | none => .error (.unknownAtom s!"#{index}")
  | some text =>
    match job.atoms.lookup text with
    | some atom => .ok atom
    | none => .error (.unknownAtom text)

def name (job : Job β) (i : Instruction) : Except CompileError Atom := job.atom (i.u32?.getD 0)

def named (job : Job β) : Job β := { job with atoms := job.atoms.internAll job.program.atoms.toList }

theorem atom_error {job : Job β} {index : UInt32} {e : CompileError} (h : job.atom index = .error e) :
    ∃ text, e = .unknownAtom text := by
  unfold atom at h
  split at h
  · cases h
    exact ⟨_, rfl⟩
  · split at h
    · cases h
    · cases h
      exact ⟨_, rfl⟩

theorem atom_named {job : Job β} {index : UInt32} {a : Atom} (h : job.atom index = .ok a) :
    job.named.atom index = .ok a := by
  unfold atom at h
  cases ht : job.program.atomText? index.toNat with
  | none => rw [ht] at h; cases h
  | some text =>
    rw [ht] at h
    cases ha : job.atoms.lookup text with
    | none => simp only [ha] at h; cases h
    | some b =>
      simp only [ha] at h
      have hb : job.named.atoms.lookup text = some b := AtomTable.lookup_internAll ha _
      have ht' : job.named.program.atomText? index.toNat = some text := ht
      simp only [atom, ht', hb]
      exact h

theorem sound_named {job : Job (StubBody σ)} (hv : job.program.Verified) (hlen : job.program.length < 2 ^ 32)
    (hfac : job.factory = StubBody.fallbacks) : job.named.Sound := by
  exact ⟨hv, hlen, Source.exists_interned job.program job.atoms, hfac⟩

end Job

/-! ## Compiling with and without them -/

namespace Lowering

variable {job : Job β} {i : Instruction} {e : CompileError}

theorem atom_eq (job : Job β) (index : UInt32) (d : Draft β) : Emit.atom job index d = match job.atom index with
    | .ok a => .ok a d
    | .error e => .error (.error e) d := by
  unfold Emit.atom Job.atom
  cases job.program.atomText? index.toNat with
  | none => rfl
  | some text => cases ha : job.atoms.lookup text <;> simp only [ha] <;> rfl

theorem named_error {α : Type} (hformat : i.operand.format = .u32) (h : job.name i = .error e) (k : Atom → Emit β α)
    (d : Draft β) :
    (do k (← Emit.atom job (← u32 i))) d = .error (.error e) d := by
  obtain ⟨index, hindex⟩ := u32_of_format hformat
  rw [Job.name, hindex] at h
  rw [Emit.bind_eq (u32_ok hindex)]
  show EStateM.bind _ _ d = _
  rw [EStateM.bind, atom_eq, show job.atom index = .error e from h]

/-- A name that is not known ends the compilation. -/
theorem lower_unknown (hformat : i.operand.format = i.opcode.format) (hop : i.opcode.hasAtom = true)
    (h : job.name i = .error e) (d : Draft β) : lower job i d = .error (.error e) d := by
  obtain ⟨offset, op, operand, size⟩ := i
  cases op <;> cases hop
  all_goals
    simp only [lower, routine?, string, getName, setName, getProp, setProp]
    exact named_error hformat h _ d

/-- If the name is known, it does not matter whether others are. -/
theorem lower_named (hformat : i.operand.format = i.opcode.format)
    (h : i.opcode.hasAtom = true → ∃ a, job.name i = .ok a) :
    lower job i = lower job.named i := by
  by_cases href : i.opcode.hasAtom = true
  · obtain ⟨a, ha⟩ := h href
    refine lower_congr ⟨rfl, rfl, rfl, rfl, fun index hindex => ?_⟩
    rw [Job.name, hindex] at ha
    have hknown : job.atom index = .ok a := ha
    funext d
    rw [atom_eq, atom_eq, hknown, Job.atom_named hknown]
  · obtain ⟨offset, op, operand, size⟩ := i
    by_cases hlambda : op = .lambda
    · subst hlambda
      rfl
    · refine lower_congr ⟨rfl, rfl, rfl, rfl, fun index hindex => ?_⟩
      exfalso
      revert hformat hindex
      cases operand <;> intro hformat hindex <;> cases hindex
      cases op <;> first | exact href rfl | exact hlambda rfl | cases hformat

end Lowering

namespace Compilation

open Lowering

variable {job : Job β}

/-- Lowering the instructions in turn is the same if all names are known, unless it comes to one that is not. -/
theorem lowerEach_named {is : List Instruction} (hformat : ∀ i ∈ is, i.operand.format = i.opcode.format) (fell : Bool)
    (d : Draft β) :
    lowerEach job is fell d = lowerEach job.named is fell d ∨
      ∃ text d', lowerEach job is fell d = .error (.error (.unknownAtom text)) d' := by
  induction is generalizing fell d with
  | nil => exact .inl rfl
  | cons i rest ih =>
    have hrest := ih fun j hj => hformat j (List.mem_cons_of_mem _ hj)
    simp only [lowerEach, show job.named.program.stackMap.info? i.offset = job.program.stackMap.info? i.offset from rfl]
    cases job.program.stackMap.info? i.offset with
    | none => exact hrest false d
    | some info =>
      show EStateM.bind _ _ d = EStateM.bind (arrive job i.offset info fell) _ d ∨ ∃ text d', EStateM.bind _ _ d = _
      simp only [EStateM.bind]
      cases arrive job i.offset info fell d with
      | error fault d₁ => exact .inl rfl
      | ok _ d₁ =>
        show EStateM.bind _ _ d₁ = EStateM.bind _ _ d₁ ∨ ∃ text d', EStateM.bind _ _ d₁ = _
        by_cases hknown : i.opcode.hasAtom = true → ∃ a, job.name i = .ok a
        · rw [← lower_named (hformat i (by simp)) hknown]
          simp only [EStateM.bind]
          cases lower job i d₁ with
          | error fault d₂ => exact .inl rfl
          | ok _ d₂ => exact hrest i.opcode.fallsThrough d₂
        · obtain ⟨hop, hnone⟩ := Classical.not_imp.mp hknown
          cases hname : job.name i with
          | ok a => exact absurd ⟨a, hname⟩ hnone
          | error e =>
            obtain ⟨text, rfl⟩ := Job.atom_error hname
            refine .inr ⟨text, d₁, ?_⟩
            rw [EStateM.bind, lower_unknown (hformat i (by simp)) hop hname]

/-- What is compiled is the same if all names are known. -/
theorem emission_named (hv : job.program.Verified) {d f : Draft β} (h : emission job d = .ok () f) :
    emission job.named d = .ok () f := by
  have hformat : ∀ i ∈ job.program.instructions, i.operand.format = i.opcode.format := fun i hi =>
    (hv.tiles.sound hi).2.format
  obtain ⟨_, d₁, hstart, h⟩ := Emit.bind_ok_iff.mp h
  obtain ⟨_, d₂, hprologue, h⟩ := Emit.bind_ok_iff.mp h
  obtain ⟨_, d₃, hbody, hepilogue⟩ := Emit.bind_ok_iff.mp h
  refine Emit.bind_ok_iff.mpr ⟨(), d₁, hstart, Emit.bind_ok_iff.mpr
    ⟨(), d₂, hprologue, Emit.bind_ok_iff.mpr ⟨(), d₃, ?_, hepilogue⟩⟩⟩
  obtain ⟨_, d₄, hlower, hadvance⟩ := Emit.bind_ok_iff.mp hbody
  refine Emit.bind_ok_iff.mpr ⟨(), d₄, ?_, hadvance⟩
  have hnamed : job.named.program.Verified := hv
  rw [lowerAll_offsets hv] at hlower
  rw [lowerAll_offsets hnamed]
  rcases lowerEach_named hformat false d₂ with heq | ⟨text, d', herr⟩
  · rw [failing, heq] at hlower
    exact hlower
  · rw [failing, herr] at hlower
    cases hlower

theorem compile_named (hv : job.program.Verified) {π : Type} {linker : Linker π} {p : π} {m : Method β}
    (h : (compile job linker p).1 = .ok m) : (compile job.named linker p).1 = .ok m := by
  rw [compile] at h ⊢
  cases he : emission job (.start job.settings) with
  | error fault d => rw [he] at h; cases h
  | ok _ f =>
    rw [he] at h
    have hnamed : emission job.named (.start job.named.settings) = .ok () f := emission_named hv he
    rw [hnamed]
    exact h

end Compilation

/-! ## Scripts -/

/-- The script has no code, or what its program, which was accepted, was compiled to with the fallbacks. The program is
    as short as the 32 bits of an offset ask for. -/
structure Script.Baseline (s : Script (StubBody σ)) : Prop where
  accepted : ∃ name code slots args texts, Program.ofCode name code slots args texts = .ok s.program
  short : s.program.length < 2 ^ 32
  made : ∀ m, s.baseline = some m → ∃ settings atoms pool,
    (Compilation.compile ⟨s.program, settings, atoms, StubBody.fallbacks⟩ Linker.pool pool).1 = .ok m

def Scripts.Baseline (scripts : Scripts σ) : Prop := ∀ n s, scripts n = some s → s.Baseline

/-- What a program was compiled to is what its source says, with the texts interned that the table lacked. -/
theorem Script.compiled_of_made {s : Script (StubBody σ)} {settings : Settings} {atoms : AtomTable} {pool : CodePool}
    {m : Method (StubBody σ)} {source : Source}
    (haccepted : ∃ name code slots args texts, Program.ofCode name code slots args texts = .ok s.program)
    (hshort : s.program.length < 2 ^ 32) (hm : s.baseline = some m)
    (hcompile : (Compilation.compile ⟨s.program, settings, atoms, StubBody.fallbacks⟩ Linker.pool pool).1 = .ok m)
    (hsource : Source.ofProgram? s.program (atoms.internAll s.program.atoms.toList) = some source) :
    s.Compiled source := by
  obtain ⟨name, code, slots, args, texts, hp⟩ := haccepted
  have hnamed := Compilation.compile_named (Program.verified_of_ofCode hp) hcompile
  exact ⟨⟨name, code, slots, args, texts, hp⟩, hshort, settings, _, pool, m, hm, hsource, hnamed⟩

theorem Script.Baseline.compiled {s : Script (StubBody σ)} {m : Method (StubBody σ)} (h : s.Baseline)
    (hm : s.baseline = some m) :
    ∃ source, s.Compiled source := by
  obtain ⟨settings, atoms, pool, hcompile⟩ := h.made m hm
  obtain ⟨source, hsource⟩ := Source.exists_interned s.program atoms
  exact ⟨source, compiled_of_made h.accepted h.short hm hcompile hsource⟩

/-- There are sources for the scripts, and the machine finds what the interpreter does. -/
theorem Scripts.Baseline.corresponds {scripts : Scripts σ} (h : scripts.Baseline) :
    ∃ sources, Corresponds scripts sources := by
  have hone : ∀ n, ∃ found, Called (scripts n) found := by
    intro n
    cases hn : scripts n with
    | none => exact ⟨_, .missing⟩
    | some s =>
      cases hs : s.baseline with
      | none => exact ⟨_, .plain hs⟩
      | some m =>
        obtain ⟨source, hsource⟩ := (h n s hn).compiled hs
        exact ⟨_, .compiled hsource⟩
  exact ⟨fun n => (hone n).choose, fun n => (hone n).choose_spec⟩

/-- What a program was compiled to, if it was. -/
theorem Script.baseline_compiling {name : String} {code : List UInt8} {slots args : Nat} {texts : Array String}
    {p : Program} (hp : Program.ofCode name code slots args texts = .ok p) (hlen : p.length < 2 ^ 32)
    (atoms : AtomTable) :
    (compiling σ p atoms).Baseline := by
  exact ⟨⟨name, code, slots, args, texts, hp⟩, hlen, fun m hm => ⟨{}, atoms, ⟨100, 0⟩, compile_of_compiling hm⟩⟩

theorem LookupCall.baseline (σ : Type) : (script σ).Baseline := by
  have hp : Program.ofCode "f" code 0 1 #["f"] = .ok program := rfl
  exact Script.baseline_compiling hp (by decide) _

theorem LookupCall.scripts_baseline (σ : Type) : (scripts σ).Baseline := by
  intro n s hs
  unfold scripts at hs
  split at hs
  · cases hs
    exact baseline σ
  · cases hs

end BaselineTier
