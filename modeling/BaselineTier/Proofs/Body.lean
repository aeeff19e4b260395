/-
  BaselineTier.Proofs.Body — the code of a verified program's instructions.

  A draft between two instructions is at a stage (`Draft.Stage`): the depth is the one that the
  verifier declares, the labels of what is still to come are free, and those of what has been
  passed are bound. Lowering one more instruction takes a draft from stage to stage, so
  lowering them all breaks no assumption (`lowerEach_yields`): it gives the code of each
  reachable instruction in turn (`Draft.Body`), or stops for want of room for a site or at the
  first reachable instruction that this tier does not compile (`Draft.Stops`).
-/

import BaselineTier.Proofs.Arrival
import BaselineTier.Proofs.Encoding
import BaselineTier.Proofs.Lowering

namespace BaselineTier

variable {σ : Type}

/-! ## Between two instructions -/

/-- A verified program whose names are known, short enough for its labels to be told apart, with the fallbacks. -/
structure Job.Sound (job : Job (StubBody σ)) : Prop where
  verified : job.program.Verified
  short : job.program.length < 2 ^ 32
  source : ∃ source, Source.ofProgram? job.program job.atoms = some source
  factory : job.factory = StubBody.fallbacks

/-- Of the offsets that an instruction covers only its own can be jumped to. -/
theorem Job.Sound.jumpTarget {job : Job (StubBody σ)} (hj : job.Sound) {i : Instruction}
    (hi : i ∈ job.program.instructions) {k : Nat} (hk : k < i.next) (ht : job.program.stackMap.isJumpTarget k = true) :
    k < i.offset ∨ k = i.offset := by
  obtain ⟨j, hjmem, rfl, _⟩ := hj.verified.jumpTarget ht
  have := j.offset_lt_next
  rcases hj.verified.tiles.disjoint hi hjmem with rfl | h | h
  · exact .inr rfl
  · omega
  · omega

/-- The draft before the instruction at an offset, with the types known there and so many sites. Every label that a
    branch goes to is bound, or belongs to a place that is still to come. -/
structure Draft.Stage (job : Job (StubBody σ)) (offset : Nat) (fell : Bool) (ts : Types) (n : Nat)
    (d : Draft (StubBody σ)) :
    Prop where
  good : d.Good
  knowns : d.stack.knowns = ts
  room : d.stack.depth ≤ maxStackDepth
  exit : d.exit = some ⟨job.program.length⟩
  entry : ∀ info, job.program.stackMap.info? offset = some info → fell = true ∨ info.jumpTarget = false →
    d.stack.depth = info.depth
  free : ∀ {k : Nat}, offset ≤ k → k ≤ job.program.length → d.buffer.labels[k]? = some none
  bound : ∀ {k : Nat}, k < offset → job.program.stackMap.isJumpTarget k = true →
    (d.buffer.labelOffset? ⟨k⟩).isSome = true
  waiting : ∀ {k : Nat} {i : Inst Label} {l : Label}, d.buffer.insts[k]? = some i → i.target? = some l →
    (d.buffer.labelOffset? l).isSome = true ∨ d.exit = some l ∨ job.program.stackMap.isJumpTarget l.index = true
  sites : d.sites.sites.size = n
  stubs : d.sites.store.stubs.size = n
  fits : d.Fits

namespace Draft

open Emit

variable {job : Job (StubBody σ)} {i : Instruction} {info : StackMap.Info} {fell : Bool} {ts : Types} {n : Nat}
  {d d₁ d₂ : Draft (StubBody σ)}

theorem labelOf_eq {offset : Nat} (h : offset < 2 ^ 32) : labelOf offset = ⟨offset⟩ := by
  rw [labelOf, Nat.mod_eq_of_lt h]

/-- An instruction that cannot be reached is passed over. -/
theorem Stage.skip (h : Stage job i.offset fell ts n d) (hj : job.Sound) (hi : i ∈ job.program.instructions)
    (hinfo : job.program.stackMap.info? i.offset = none) : Stage job i.next false ts n d := by
  have hlt := i.offset_lt_next
  refine ⟨h.good, h.knowns, h.room, h.exit, fun info' hinfo' hor => ?_, fun hk => h.free (by omega),
    fun hk ht => ?_, h.waiting,
    h.sites, h.stubs, h.fits⟩
  · obtain ⟨before, hbefore, _⟩ := hj.verified.fell hi hinfo' (hor.resolve_left Bool.false_ne_true)
    rw [hinfo] at hbefore
    cases hbefore
  · rcases hj.jumpTarget hi hk ht with hk | rfl
    · exact h.bound hk ht
    · rw [StackMap.isJumpTarget, hinfo] at ht
      cases ht

/-- What is needed to lower the instruction is there once it is arrived at. -/
theorem Stage.ready (h : Stage job i.offset fell ts n d) (hj : job.Sound) (hi : i ∈ job.program.instructions)
    (hinfo : job.program.stackMap.info? i.offset = some info) (ha : Arrives job i.offset info d d₁) :
    Lowering.Ready job i d₁ := by
  have hadm := hj.verified.admissible hi hinfo
  refine ⟨ha.good, ?_, (hj.verified.tiles.sound hi).2.format, ?_, ?_, ?_, ?_, (hj.verified.tiles.sound hi).2.target,
    ⟨_, ha.grows.exit h.exit⟩, hj.source, hj.factory⟩
  all_goals rw [ha.depth]
  · exact hj.verified.depth_le hinfo
  · exact hadm.operand
  · exact hadm.pops
  · exact hadm.ret
  · exact hadm.stop

/-- The code of an instruction takes a draft to the next one. -/
theorem Stage.next (h : Stage job i.offset fell ts n d) (hj : job.Sound) (hi : i ∈ job.program.instructions)
    (hinfo : job.program.stackMap.info? i.offset = some info) (ha : Arrives job i.offset info d d₁)
    (hl : Lowered job i d₁ d₂) :
    Stage job i.next i.opcode.fallsThrough (i.typesAfter d₁.stack.knowns) (n + i.sites d₁.stack.knowns) d₂ := by
  have hadm := hj.verified.admissible hi hinfo
  have hlt := i.offset_lt_next
  have hshort : i.offset < 2 ^ 32 := Nat.lt_trans (hj.verified.tiles.offset_lt hi) hj.short
  have hlabel := labelOf_eq hshort
  have hdepth : d₂.stack.depth = i.after info.depth := by
    rw [hl.depth (by rw [ha.depth]; exact hadm.pops), ha.depth]
  have hfree {k : Nat} (hk : i.next ≤ k) (hk' : k ≤ job.program.length) : d₁.buffer.labels[k]? = some none := by
    rw [ha.labels (by rw [hlabel]; simp only; omega)]
    exact h.free (by omega) hk'
  have hbound {l : Label} (hb : (d.buffer.labelOffset? l).isSome = true) :
      (d₂.buffer.labelOffset? l).isSome = true := by
    obtain ⟨offset, hb⟩ := Option.isSome_iff_exists.mp hb
    rw [hl.code.grows.labels (ha.grows.labels hb)]
    rfl
  refine ⟨hl.good, hl.knowns, by rw [hdepth]; exact hadm.room, hl.code.grows.exit (ha.grows.exit h.exit),
    fun info' hinfo' hor => ?_,
    fun {k} hk hk' => ?_, fun {k} hk ht => ?_, fun {k i' l} hk ht => ?_, by rw [hl.code.sites, ha.sites, h.sites],
    by rw [hl.code.stubs, ha.sites, h.stubs], hl.code.fits (by rw [Fits, ha.sites]; exact h.fits)⟩
  · rw [hdepth]
    rcases hor with hfalls | ht
    · exact (hj.verified.depth_eq hinfo' (.next hi (hj.verified.reaches hinfo) hadm.pops hfalls)).symm
    · obtain ⟨before, hbefore, _, hafter⟩ := hj.verified.fell hi hinfo' ht
      rw [hinfo] at hbefore
      cases hbefore
      exact hafter.symm
  · have hsome := hfree hk hk'
    rw [hl.code.labels (Array.getElem?_eq_some_iff.mp hsome).1, hsome]
  · rcases hj.jumpTarget hi hk ht with hk | rfl
    · exact hbound (h.bound hk ht)
    · have htarget : info.jumpTarget = true := by rw [StackMap.isJumpTarget, hinfo] at ht; exact ht
      obtain ⟨pc, hpc, _⟩ := ha.met htarget
      rw [← hlabel, hl.code.grows.labels hpc]
      rfl
  · rcases hl.code.targets hk ht with hk | hb | htarget | hexit
    · rcases h.waiting (ha.targets hk ht) ht with hb | hexit | htarget
      · exact .inl (hbound hb)
      · exact .inr (.inl (hl.code.grows.exit (ha.grows.exit hexit)))
      · exact .inr (.inr htarget)
    · exact .inl hb
    · obtain ⟨target, htarget, rfl⟩ := htarget
      have hmet := (hj.verified.exact.jump target).mpr ⟨i, hi, _, hj.verified.reaches hinfo, htarget⟩
      obtain ⟨j, hjmem, hjo, _⟩ := hj.verified.jumpTarget hmet
      have hlt' : target < job.program.length := hjo ▸ hj.verified.tiles.offset_lt hjmem
      rw [labelOf_eq (Nat.lt_trans hlt' hj.short)]
      exact .inr (.inr hmet)
    · exact .inr (.inl (hl.code.grows.exit hexit))

inductive Body (job : Job (StubBody σ)) : List Instruction → Draft (StubBody σ) → Draft (StubBody σ) → Prop
  | nil (d : Draft (StubBody σ)) : Body job [] d d
  | skip {i : Instruction} {rest : List Instruction} {d d' : Draft (StubBody σ)} :
      job.program.stackMap.info? i.offset = none → Body job rest d d' → Body job (i :: rest) d d'
  | code {i : Instruction} {rest : List Instruction} {info : StackMap.Info} {d d₁ d₂ d' : Draft (StubBody σ)} :
      job.program.stackMap.info? i.offset = some info → i.opcode.isRefused = false → Arrives job i.offset info d d₁ →
      Lowered job i d₁ d₂ → Body job rest d₂ d' → Body job (i :: rest) d d'

theorem Body.grows {is : List Instruction} {d d' : Draft (StubBody σ)} (h : Body job is d d') : d.Grows d' := by
  induction h with
  | nil d => exact .refl d
  | skip _ _ ih => exact ih
  | code _ _ ha hl _ ih => exact ha.grows.trans (hl.code.grows.trans ih)

theorem Body.phase {is : List Instruction} {d d' : Draft (StubBody σ)} (h : Body job is d d') : d'.phase = d.phase := by
  induction h with
  | nil d => rfl
  | skip _ _ ih => exact ih
  | code _ _ ha hl _ ih => rw [ih, hl.code.phase, ha.phase]

end Draft

def Draft.Stops (job : Job (StubBody σ)) (is : List Instruction) (ts : Types) (d : Draft (StubBody σ))
    (e : CompileError) : Prop :=
  d.Lacks (job.program.stackMap.sites is ts) e ∨
    ∃ i, job.program.stackMap.Refused is i ∧ e = .cantCompile (.unsupported i.opcode i.offset)

structure Draft.Fills (job : Job (StubBody σ)) (is : List Instruction) (ts : Types) (n : Nat)
    (d d' : Draft (StubBody σ)) : Prop where
  body : Body job is d d'
  stage : ∃ fell ts', Stage job job.program.length fell ts' (n + job.program.stackMap.sites is ts) d'
  taken : ∀ i ∈ is, job.program.stackMap.isReachable i.offset = true → i.opcode.isRefused = false

namespace Draft

variable {job : Job (StubBody σ)} {i : Instruction} {rest : List Instruction} {info : StackMap.Info} {ts : Types}
  {n : Nat} {d d₁ d₂ d' : Draft (StubBody σ)} {e : CompileError}

theorem Stops.skip (h : Stops job rest ts d e) (hinfo : job.program.stackMap.info? i.offset = none) :
    Stops job (i :: rest) ts d e := by
  refine h.imp (fun h => by rw [StackMap.sites_skip hinfo]; exact h) fun ⟨j, hj, he⟩ => ⟨j, hj.cons fun hr => ?_, he⟩
  rw [StackMap.isReachable, hinfo] at hr
  cases hr

theorem Fills.skip (h : Fills job rest ts n d d') (hinfo : job.program.stackMap.info? i.offset = none) :
    Fills job (i :: rest) ts n d d' := by
  refine ⟨.skip hinfo h.body, by rw [StackMap.sites_skip hinfo]; exact h.stage, fun j hj hr => ?_⟩
  rcases List.mem_cons.mp hj with rfl | hj
  · rw [StackMap.isReachable, hinfo] at hr
    cases hr
  · exact h.taken j hj hr

section Code

variable (hinfo : job.program.stackMap.info? i.offset = some info) (ha : Arrives job i.offset info d d₁)

include ha in
theorem Arrives.lacks (n : Nat) : d₁.Lacks n = d.Lacks n := by
  funext e
  rw [Lacks, Lacks, ha.sites]

include hinfo ha

theorem Arrives.sites_code (hts : d.stack.knowns = ts) (rest : List Instruction) :
    job.program.stackMap.sites (i :: rest) ts =
    i.sites d₁.stack.knowns + job.program.stackMap.sites rest (i.typesAfter d₁.stack.knowns) := by
  refine StackMap.sites_code hinfo rest ?_
  rw [← hts, ha.knowns]

/-- There was no room for a site of this instruction. -/
theorem Arrives.stops (hts : d.stack.knowns = ts) (h : d₁.Lacks (i.sites d₁.stack.knowns) e) :
    Stops job (i :: rest) ts d e := by
  refine .inl ?_
  rw [ha.sites_code hinfo hts rest, ← ha.lacks]
  exact h.mono (Nat.le_add_right _ _)

theorem Stops.code (hts : d.stack.knowns = ts) (hl : Lowered job i d₁ d₂) (href : i.opcode.isRefused = false)
    (h : Stops job rest (i.typesAfter d₁.stack.knowns) d₂ e) : Stops job (i :: rest) ts d e := by
  refine h.imp (fun h => ?_) fun ⟨j, hj, he⟩ => ⟨j, hj.cons fun _ => href, he⟩
  rw [ha.sites_code hinfo hts rest, ← ha.lacks]
  exact hl.code.lacks h

theorem Fills.code (hts : d.stack.knowns = ts) (hl : Lowered job i d₁ d₂) (href : i.opcode.isRefused = false)
    (h : Fills job rest (i.typesAfter d₁.stack.knowns) (n + i.sites d₁.stack.knowns) d₂ d') :
    Fills job (i :: rest) ts n d d' := by
  refine ⟨.code hinfo href ha hl h.body, ?_, fun j hj hr => ?_⟩
  · rw [ha.sites_code hinfo hts rest, ← Nat.add_assoc]
    exact h.stage
  · rcases List.mem_cons.mp hj with rfl | hj
    · exact href
    · exact h.taken j hj hr

end Code
end Draft

namespace Compilation

section Walk

variable {β : Type} {job : Job β}

def lowerEach (job : Job β) : List Instruction → Bool → Emit β Unit
  | [], _ => pure ()
  | i :: rest, fellThrough =>
    match job.program.stackMap.info? i.offset with
    | none => lowerEach job rest false
    | some info => do
      arrive job i.offset info fellThrough
      Lowering.lower job i
      lowerEach job rest i.opcode.fallsThrough

/-- Where instructions start that tile the code, decoding meets each of them again. -/
theorem lowerAll_map {is : List Instruction} {offset : Nat} (h : Instruction.Tiles job.program.code offset is)
    (fell : Bool) : lowerAll job (is.map Instruction.offset) fell = lowerEach job is fell := by
  induction is generalizing offset fell with
  | nil => rfl
  | cons i is ih =>
    obtain ⟨hdecode, htiles⟩ := h
    rw [← (Instruction.decodeAt_ok hdecode).1] at hdecode
    rw [List.map_cons, lowerAll, lowerEach]
    cases job.program.stackMap.info? i.offset with
    | none => exact ih htiles false
    | some info => simp only [hdecode, ih htiles]

/-- The walk over the offsets of a verified program is a walk over its instructions: nothing is decoded in vain. -/
theorem lowerAll_offsets (h : job.program.Verified) (fell : Bool) :
    lowerAll job job.program.offsets fell = lowerEach job job.program.instructions fell := by
  have hoffsets : job.program.offsets = job.program.instructions.map Instruction.offset := h.tiles.offsetsFrom
  rw [hoffsets, lowerAll_map h.tiles]

end Walk

open Draft Emit

variable {job : Job (StubBody σ)}

/-- Lowering the instructions in turn gives their code, and stops only for want of room or at one that is refused. -/
theorem lowerEach_yields (hj : job.Sound) {is : List Instruction} {offset : Nat} {fell : Bool} {ts : Types} {n : Nat}
    {d : Draft (StubBody σ)} (htiles : Instruction.Tiles job.program.code offset is)
    (hmem : ∀ i ∈ is, i ∈ job.program.instructions) (hs : Stage job offset fell ts n d) :
    Yields (lowerEach job is fell) d (Stops job is ts d) fun _ d' => Fills job is ts n d d' := by
  induction is generalizing offset fell ts n d with
  | nil =>
    have hend : offset = job.program.length := htiles
    subst hend
    exact .of_ok rfl ⟨.nil d, ⟨fell, ts, hs⟩, fun i hi => by cases hi⟩
  | cons i rest ih =>
    obtain ⟨hdecode, htiles'⟩ := htiles
    have hoff := (Instruction.decodeAt_ok hdecode).1
    subst hoff
    have hi := hmem i (by simp)
    have hrest : ∀ j ∈ rest, j ∈ job.program.instructions := fun j hj => hmem j (List.mem_cons_of_mem _ hj)
    cases hinfo : job.program.stackMap.info? i.offset with
    | none =>
      simp only [lowerEach, hinfo]
      exact (ih htiles' hrest (hs.skip hj hi hinfo)).mono (fun e he => he.skip hinfo) fun _ d' h => h.skip hinfo
    | some info =>
      simp only [lowerEach, hinfo]
      have hmax : maxStackDepth < 2 ^ 30 := by decide
      have hlen := hj.verified.tiles.offset_lt hi
      have hlabel : d.buffer.labels[(labelOf i.offset).index]? = some none := by
        rw [labelOf_eq (Nat.lt_trans hlen hj.short)]
        exact hs.free (Nat.le_refl _) (Nat.le_of_lt hlen)
      obtain ⟨d₁, hd₁, ha⟩ := arrive_ok job hs.good (Nat.lt_of_le_of_lt hs.room hmax)
        (Nat.lt_of_le_of_lt (hj.verified.depth_le hinfo) hmax) hlen (hs.entry info hinfo) fun _ => hlabel
      refine .bind_ok hd₁ ?_
      cases href : i.opcode.isRefused with
      | true =>
        refine Yields.bind (P := fun _ _ => False) ?_ fun _ _ h => h.elim
        rw [Yields, Lowering.lower_refused href]
        refine .inr ⟨i, ⟨by simp, by rw [StackMap.isReachable, hinfo]; rfl, href, fun j hj hr hlt => ?_⟩, rfl⟩
        rcases List.mem_cons.mp hj with rfl | hj
        · omega
        · have := htiles'.offset_le j hj
          have := i.offset_lt_next
          omega
      | false =>
        refine ((Lowering.lower_lowered (hs.ready hj hi hinfo ha) href).mono (fun e he => ha.stops hinfo hs.knowns he)
          fun _ _ h => h).bind
          fun _ d₂ hl => ?_
        exact (ih htiles' hrest (hs.next hj hi hinfo ha hl)).mono (fun e he => he.code hinfo ha hs.knowns hl href)
          fun _ d' h =>
          h.code hinfo ha hs.knowns hl href

end Compilation
end BaselineTier
