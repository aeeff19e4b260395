/-
  BaselineTier.Proofs.Census — the sites of a whole program, and the heights of its code.

  Which sites a program has, or what keeps it from being compiled, is found by going through
  its annotated instructions once (`Job.census`, `Job.verdict`). Compiling comes to the same
  (`emission_verdict`). So it depends neither on how the operand stack is kept in between nor
  on the room in the pool. What is emitted has a sound chart, in which a place where control
  meets has the depth that the verifier declares and the way out has none (`Draft.Charted`).
-/

import BaselineTier.Proofs.Compilation
import BaselineTier.Proofs.Kinds

namespace BaselineTier

variable {σ β : Type}

/-! ## Going through the instructions -/

def Settings.refusal? (s : Settings) (n : Nat) : Option CompileError :=
  if s.maxSites ≤ n then some (.tableFull s.maxSites)
  else if s.maxStubs ≤ n then some (.stubsExhausted s.maxStubs)
  else none

namespace Job

/-- The sites of the instructions in order, with so many before them, or the first thing that stands in the way. -/
def census (job : Job β) : List (Instruction × Types) → Nat → Except CompileError (List (UInt32 × SiteKind))
  | [], _ => .ok []
  | (i, ts) :: rest, n =>
    if i.opcode.isRefused then .error (.cantCompile (.unsupported i.opcode i.offset))
    else match job.kind? i ts with
      | .error e => .error e
      | .ok none => job.census rest n
      | .ok (some kind) =>
        match job.settings.refusal? n with
        | some e => .error e
        | none => (job.census rest (n + 1)).map ((UInt32.ofNat i.offset, kind) :: ·)

def verdict (job : Job β) : Except CompileError (List (UInt32 × SiteKind)) :=
  if job.program.needsArguments then .error (.cantCompile .argumentsObject)
  else if job.settings.maxScriptLength < job.program.length then
    .error (.cantCompile (.tooLarge job.program.length job.settings.maxScriptLength))
  else job.census job.program.annotated 0

variable {job : Job β} {i : Instruction} {ts : Types} {rest : List (Instruction × Types)} {n : Nat}

theorem census_cons (rest : List (Instruction × Types)) {kind : Option SiteKind} (href : i.opcode.isRefused = false)
    (hkind : job.kind? i ts = .ok kind) (hroom : kind.isSome = true → job.settings.refusal? n = none) :
    job.census ((i, ts) :: rest) n =
      (job.census rest (n + kind.toList.length)).map (kind.toList.map (UInt32.ofNat i.offset, ·) ++ ·) := by
  rw [census, if_neg (by rw [href]; exact Bool.false_ne_true), hkind]
  cases kind with
  | none =>
    show job.census rest n = (job.census rest n).map ([] ++ ·)
    cases job.census rest n <;> rfl
  | some kind =>
    simp only [hroom rfl]
    rfl

theorem census_refused {kind : SiteKind} {e : CompileError} (href : i.opcode.isRefused = false)
    (hkind : job.kind? i ts = .ok (some kind)) (hroom : job.settings.refusal? n = some e) :
    job.census ((i, ts) :: rest) n = .error e := by
  rw [census, if_neg (by rw [href]; exact Bool.false_ne_true), hkind]
  simp only [hroom]

end Job

theorem SiteTable.refusal?_eq {t : SiteTable β} {s : Settings} {n : Nat} (hsites : t.sites.size = n)
    (hstubs : t.store.stubs.size = n) (hlimits : t.maxSites = s.maxSites ∧ t.store.limit = s.maxStubs) :
    t.refusal? = s.refusal? n := by
  unfold refusal? size StubStore.size Settings.refusal?
  rw [hsites, hstubs, hlimits.1, hlimits.2]

/-! ## Heights between two instructions -/

/-- The height that belongs to a label: the declared depth where control meets, and none at the way out. -/
def Program.Declares (p : Program) (l : Label) (height : Nat) : Prop :=
  (∃ info, p.stackMap.info? l.index = some info ∧ info.jumpTarget = true ∧ info.depth = height) ∨
    l.index = p.length ∧ height = 0

theorem Program.Verified.deepest_le {p : Program} (h : p.Verified) : p.stackMap.deepest ≤ maxStackDepth := by
  obtain ⟨i, hi, depth, hr, hdeepest⟩ := h.exact.attained
  rcases hdeepest with hd | hd
  · obtain ⟨info, hinfo, rfl⟩ := (h.exact.depth _ _).mpr hr
    rw [hd]
    exact h.depth_le hinfo
  · rw [hd]
    exact (h.wellFormed.admissible i hi depth hr).room

/-- The draft before the instruction at an offset has a sound chart. If nothing runs through to there, then everything
    is written out, and unless it is the beginning or the end, the last instruction is a jump. -/
structure Draft.Level (p : Program) (s : Settings) (offset : Nat) (fell : Bool) (d : Draft (StubBody σ)) : Prop where
  chart : d.buffer.Chart p.stackMap.deepest p.Declares
  limits : d.sites.maxSites = s.maxSites ∧ d.sites.store.limit = s.maxStubs
  flows : fell = true → (p.stackMap.info? offset).isSome = true
  settled : fell = false → d.stack.Settled
  severed : fell = false → d.buffer.Severed ∨ d.buffer.height = 0 ∧ (offset = 0 ∨ p.length ≤ offset)

namespace Compilation

open Draft Emit

variable {job : Job (StubBody σ)} {limit offset : Nat} {T : Label → Nat → Prop} {d : Draft (StubBody σ)} {fell : Bool}
  {info : StackMap.Info} {E : CompileError → Prop}

/-- Where control meets, the declared depth is taken over as the height. -/
theorem merge_writes (job : Job (StubBody σ)) {n depth : Nat} (hw : Writes limit T d [] n d) (hn : n ≤ limit)
    (hdepth : depth ≤ limit) (hfell : fell = true → n = depth) (hset : fell = false → d.stack.Settled)
    (hsev : fell = false → d.buffer.Severed ∨ d.buffer.height = depth) (hlt : offset < job.program.length)
    (hfree : d.buffer.labels[(labelOf offset).index]? = some none) (hlabel : ∀ k, T (labelOf offset) k → depth = k) :
    Yields (merge job offset depth fell) d E fun _ d' => Writes limit T d [] depth d' := by
  obtain ⟨d₁, d', hd', hd₁, hflush, hset₁, hbinds⟩ := merge_ok hw.good (hw.shallow (by omega)) hlt
    (fun h => hw.depth.trans (hfell h)) hfree
  obtain ⟨hw₁, _⟩ := (hw.flushAll (E := fun _ => False) hn).ok hd₁
  obtain ⟨ms, hadds, _⟩ := hflush.moves
  have hchart : CodeBuffer.Chart limit T { d₁.buffer with height := depth } := by
    cases hf : fell with
    | true =>
      have hheight := hw₁.height_of_settled hset₁
      rw [hfell hf] at hheight
      rw [← hheight]
      exact hw₁.chart
    | false =>
      obtain ⟨buffer, hb, rfl⟩ := of_adopt hd₁
      have hmoves : (d.stack.flushBelow 0).1 = [] := (hset hf).flush_moves _
      rw [hmoves] at hb
      cases hb
      rcases hsev hf with hsev | hheight
      · exact hw.chart.reset hsev hdepth
      · rw [← hheight]
        exact hw.chart
  obtain ⟨hset', hdepth'⟩ := VirtualStack.settled_resize hset₁ depth
  have hgood := hbinds.good ⟨hset'.valid, (hset'.spilledCount.trans hdepth').symm⟩
  obtain ⟨rfl, _⟩ := hbinds
  refine .of_ok hd' (hw₁.same (hchart.bind ?_ hlabel) hgood hdepth')
  show d₁.buffer.labels[(labelOf offset).index]? = some none
  rw [hadds.labels, hfree]

theorem settle_writes {n : Nat} {d₀ : Draft (StubBody σ)} (hw : Writes limit T d₀ [] n d) (hn : n ≤ limit) :
    Yields (settle job) d E fun _ d' => Writes limit T d₀ [] n d' := by
  unfold settle
  by_cases hdebug : job.settings.debugMode = true
  · rw [if_pos hdebug]
    exact hw.flushBelow hn 0
  · rw [if_neg hdebug]
    refine .bind_ok (depth_eq d) ?_
    by_cases hdeep : 2 < d.stack.depth
    · rw [if_pos hdeep]
      exact hw.flushBelow hn 2
    · rw [if_neg hdeep]
      exact .of_ok rfl hw

/-- Arriving at an instruction keeps the chart sound. -/
theorem arrive_charted (job : Job (StubBody σ)) {n : Nat} (hw : Writes limit T d [] n d) (hn : n ≤ limit)
    (hdepth : info.depth ≤ limit) (hfell : fell = true ∨ info.jumpTarget = false → n = info.depth)
    (hset : fell = false → d.stack.Settled) (hsev : fell = false → d.buffer.Severed ∨ d.buffer.height = info.depth)
    (hlt : offset < job.program.length) (hfree : d.buffer.labels[(labelOf offset).index]? = some none)
    (hlabel : info.jumpTarget = true → ∀ k, T (labelOf offset) k → info.depth = k) :
    Yields (arrive job offset info fell) d E fun _ d' => d'.buffer.Chart limit T ∧ d'.pc = offset := by
  have hmeet : Yields (meet job offset info fell) d E fun _ d' => Writes limit T d [] info.depth d' := by
    unfold meet
    by_cases htarget : info.jumpTarget = true
    · rw [if_pos htarget]
      exact merge_writes job hw hn hdepth (fun h => hfell (.inl h)) hset hsev hlt hfree (hlabel htarget)
    · rw [if_neg htarget]
      have hsame := hfell (.inr (by simpa using htarget))
      rw [hsame] at hw
      cases fell with
      | false => exact .of_ok rfl hw
      | true =>
        rw [if_pos rfl]
        exact .bind_ok (depth_eq d) (.of_ok (assume_ok (decide_eq_true hw.depth) _ d) hw)
  refine hmeet.bind fun _ _ hw => (settle_writes hw hdepth).bind fun _ d₂ hw => .bind_ok (get_eq d₂) ?_
  rw [VirtualStack.check_ok_iff.mpr hw.good.valid]
  exact .of_ok rfl ⟨hw.chart, rfl⟩

end Compilation

namespace Draft

open Emit

variable {job : Job (StubBody σ)} {i : Instruction} {fell : Bool} {ts : Types} {n : Nat} {info : StackMap.Info}
  {d d₁ d₂ : Draft (StubBody σ)}

theorem Level.skip (h : Level job.program job.settings i.offset fell d) (hv : job.program.Verified)
    (hi : i ∈ job.program.instructions) (hinfo : job.program.stackMap.info? i.offset = none) :
    Level job.program job.settings i.next false d := by
  have hfell : fell = false := by
    cases fell with
    | false => rfl
    | true =>
      have hsome := h.flows rfl
      rw [hinfo] at hsome
      cases hsome
  refine ⟨h.chart, h.limits, nofun, fun _ => h.settled hfell, fun _ => ?_⟩
  rcases h.severed hfell with hsev | ⟨_, hzero | hlast⟩
  · exact .inl hsev
  · obtain ⟨info, hsome⟩ := hv.exists_info .start
    rw [hzero, hsome] at hinfo
    cases hinfo
  · exact absurd (hv.tiles.offset_lt hi) (Nat.not_lt_of_le hlast)

theorem declares_depth (hv : job.program.Verified) (hi : i ∈ job.program.instructions)
    (hinfo : job.program.stackMap.info? i.offset = some info) {k : Nat} (h : job.program.Declares ⟨i.offset⟩ k) :
    info.depth = k := by
  rcases h with ⟨info', hinfo', _, rfl⟩ | ⟨hlast, _⟩
  · rw [hinfo] at hinfo'
    cases hinfo'
    rfl
  · exact absurd hlast (Nat.ne_of_lt (hv.tiles.offset_lt hi))

/-- The label that an instruction goes to has the depth behind it. -/
theorem declares_target (hj : job.Sound) (hi : i ∈ job.program.instructions)
    (hinfo : job.program.stackMap.info? i.offset = some info) {target : Nat} (ht : i.target? = some target) :
    job.program.Declares (labelOf target) (i.after info.depth) := by
  have hreach := hj.verified.reaches hinfo
  have hadm := hj.verified.admissible hi hinfo
  have hmet : job.program.stackMap.isJumpTarget target = true :=
    (hj.verified.exact.jump target).mpr ⟨i, hi, _, hreach, ht⟩
  obtain ⟨j, hjmem, hjo⟩ := hadm.target target ht
  have hlt : target < job.program.length := hjo ▸ hj.verified.tiles.offset_lt hjmem
  rw [labelOf_eq (Nat.lt_trans hlt hj.short)]
  obtain ⟨info', hinfo'⟩ := hj.verified.exists_info (.jump hi hreach hadm.pops ht)
  refine .inl ⟨info', hinfo', ?_, hj.verified.depth_eq hinfo' (.jump hi hreach hadm.pops ht)⟩
  rw [StackMap.isJumpTarget, hinfo'] at hmet
  exact hmet

theorem declares_le (hv : job.program.Verified) {l : Label} {k : Nat} (h : job.program.Declares l k) :
    l.index ≤ job.program.length := by
  rcases h with ⟨info, hinfo, _⟩ | ⟨hl, _⟩
  · obtain ⟨j, hjmem, hjo⟩ := hv.instruction hinfo
    rw [← hjo]
    exact Nat.le_of_lt (hv.tiles.offset_lt hjmem)
  · exact Nat.le_of_eq hl

/-- Arriving at a reachable instruction, with the chart sound. -/
theorem Level.arrive (hj : job.Sound) (h : Level job.program job.settings i.offset fell d)
    (hs : Stage job i.offset fell ts n d) (hi : i ∈ job.program.instructions)
    (hinfo : job.program.stackMap.info? i.offset = some info) :
    ∃ d₁, Compilation.arrive job i.offset info fell d = .ok () d₁ ∧ Arrives job i.offset info d d₁ ∧ d₁.pc = i.offset ∧
      d₁.buffer.Chart job.program.stackMap.deepest job.program.Declares := by
  have hmax : maxStackDepth < 2 ^ 30 := by decide
  have hlen := hj.verified.tiles.offset_lt hi
  have hlabel : labelOf i.offset = ⟨i.offset⟩ := labelOf_eq (Nat.lt_trans hlen hj.short)
  have hfree : d.buffer.labels[(labelOf i.offset).index]? = some none := by
    rw [hlabel]
    exact hs.free (Nat.le_refl _) (Nat.le_of_lt hlen)
  obtain ⟨d₁, hd₁, ha⟩ := Compilation.arrive_ok job hs.good (Nat.lt_of_le_of_lt hs.room hmax)
    (Nat.lt_of_le_of_lt (hj.verified.depth_le hinfo) hmax) hlen (hs.entry info hinfo) fun _ => hfree
  have hbound := (hj.verified.exact.bound i hi _ (hj.verified.reaches hinfo)).1
  have hw : Writes job.program.stackMap.deepest job.program.Declares d [] d.stack.depth d :=
    .refl hj.verified.deepest_le h.chart hs.good
  have hdepth : d.stack.depth ≤ job.program.stackMap.deepest := by
    cases hf : fell with
    | true =>
      rw [hs.entry info hinfo (.inl hf)]
      exact hbound
    | false =>
      rw [← hw.height_of_settled (h.settled hf)]
      exact h.chart.height_le
  have hsev : fell = false → d.buffer.Severed ∨ d.buffer.height = info.depth := by
    intro hf
    rcases h.severed hf with hsev | ⟨hheight, hzero | hlast⟩
    · exact .inl hsev
    · rw [hzero] at hinfo
      rw [hheight, hj.verified.depth_eq hinfo .start]
      exact .inr rfl
    · exact absurd hlen (Nat.not_lt_of_le hlast)
  have hcharted := Compilation.arrive_charted job (E := fun _ => False) hw hdepth hbound (hs.entry info hinfo) h.settled
    hsev hlen hfree
    fun _ k hk => by rw [hlabel] at hk; exact declares_depth hj.verified hi hinfo hk
  obtain ⟨hchart, hpc⟩ := hcharted.ok hd₁
  exact ⟨d₁, hd₁, ha, hpc, hchart⟩

/-- The code of an instruction, with the chart sound and the site that belongs to it. -/
structure Places (job : Job (StubBody σ)) (i : Instruction) (kind : Option SiteKind)
    (d d' : Draft (StubBody σ)) : Prop where
  lowered : Lowered job i d d'
  writes : Writes job.program.stackMap.deepest job.program.Declares d kind.toList (i.after d.stack.depth) d'
  closes : i.opcode.fallsThrough = false → Lowering.Closes job i d'

theorem Stage.places (hs : Stage job i.offset fell ts n d) (hj : job.Sound) (hi : i ∈ job.program.instructions)
    (hinfo : job.program.stackMap.info? i.offset = some info) (ha : Arrives job i.offset info d d₁)
    (hchart : d₁.buffer.Chart job.program.stackMap.deepest job.program.Declares) (href : i.opcode.isRefused = false)
    {kind : Option SiteKind} (hkind : job.kind? i d₁.stack.knowns = .ok kind) :
    Yields (Lowering.lower job i) d₁ (fun e => kind.isSome = true ∧ d₁.sites.refusal? = some e) fun _ d₂ =>
      Places job i kind d₁ d₂ := by
  have hready := hs.ready hj hi hinfo ha
  obtain ⟨hdepth, hafter⟩ := hj.verified.exact.bound i hi _ (hj.verified.reaches hinfo)
  have hw : Writes job.program.stackMap.deepest job.program.Declares d₁ [] d₁.stack.depth d₁ :=
    .refl hj.verified.deepest_le hchart ha.good
  have hexit (l : Label) (hl : d₁.exit = some l) : job.program.Declares l 0 := by
    rw [ha.grows.exit hs.exit] at hl
    cases hl
    exact .inr ⟨rfl, rfl⟩
  have hfresh (l : Label) (k : Nat) (hk : job.program.Declares l k) : l.index < d₁.buffer.labels.size := by
    have hlen := hj.verified.tiles.offset_lt hi
    have hlabel := labelOf_eq (Nat.lt_trans hlen hj.short)
    have hlast : d₁.buffer.labels[job.program.length]? = some none := by
      rw [ha.labels (by rw [hlabel]; exact Nat.ne_of_gt hlen)]
      exact hs.free (Nat.le_of_lt hlen) (Nat.le_refl _)
    exact Nat.lt_of_le_of_lt (declares_le hj.verified hk) (Array.getElem?_eq_some_iff.mp hlast).1
  rw [← ha.depth] at hdepth hafter
  have htarget (target : Nat) (ht : i.target? = some target) :
      job.program.Declares (labelOf target) (i.after d₁.stack.depth) := by
    rw [ha.depth]
    exact declares_target hj hi hinfo ht
  have hwritten := Lowering.lower_writes hready href hw hkind hdepth hafter htarget hexit hfresh
  exact (hwritten.and (Lowering.lower_lowered hready href)).mono (fun _ he => he.1) fun _ _ h => ⟨h.2, h.1.1, h.1.2⟩

/-- The code of an instruction takes the chart to the next one. -/
theorem Level.next (hj : job.Sound) (h : Level job.program job.settings i.offset fell d)
    (hi : i ∈ job.program.instructions) (hinfo : job.program.stackMap.info? i.offset = some info)
    (ha : Arrives job i.offset info d d₁) {kind : Option SiteKind} (hp : Places job i kind d₁ d₂) :
    Level job.program job.settings i.next i.opcode.fallsThrough d₂ := by
  have hlimits := hp.lowered.code.grows.limits
  refine ⟨hp.writes.chart, ?_, fun hf => ?_, fun hf => (hp.closes hf).settled, fun hf => ?_⟩
  · rw [hlimits.1, hlimits.2, ha.sites]
    exact h.limits
  · have hadm := hj.verified.admissible hi hinfo
    obtain ⟨info', hinfo'⟩ := hj.verified.exists_info (.next hi (hj.verified.reaches hinfo) hadm.pops hf)
    rw [hinfo']
    rfl
  · exact (hp.closes hf).severed.imp_right fun ⟨hend, hheight⟩ => ⟨hheight, .inr hend⟩

structure Counted (job : Job (StubBody σ)) (is : List Instruction) (ts : Types) (n : Nat)
    (d d' : Draft (StubBody σ)) : Prop where
  log : ∃ log, job.census (job.program.stackMap.annotate is ts) n = .ok log ∧ d'.sites.log = d.sites.log ++ log
  grows : d.Grows d'
  phase : d'.phase = d.phase
  ends : ∃ fell ts' n', Stage job.named job.program.length fell ts' n' d' ∧
    Level job.program job.settings job.program.length fell d'

/-- A site that is new comes before those of the rest. -/
theorem Writes.log_append {limit m : Nat} {T : Label → Nat → Prop} {kind : Option SiteKind} {d' : Draft (StubBody σ)}
    {log : List (UInt32 × SiteKind)} (h : Writes limit T d kind.toList m d₁)
    (hlog : d'.sites.log = d₁.sites.log ++ log) :
    d'.sites.log = d.sites.log ++ (kind.toList.map (UInt32.ofNat d.pc, ·) ++ log) := by
  rw [hlog, h.log, List.append_assoc]

end Draft

namespace Compilation

open Draft Emit

variable {job : Job (StubBody σ)}

/-- Lowering the instructions in turn comes to what the census says. -/
theorem lowerEach_counts (hv : job.program.Verified) (hlen : job.program.length < 2 ^ 32)
    (hfac : job.factory = StubBody.fallbacks) {is : List Instruction} {offset : Nat} {fell : Bool} {ts : Types}
    {n : Nat} {d : Draft (StubBody σ)} (htiles : Instruction.Tiles job.program.code offset is)
    (hmem : ∀ i ∈ is, i ∈ job.program.instructions) (hs : Stage job.named offset fell ts n d)
    (hl : Level job.program job.settings offset fell d) :
    Yields (lowerEach job is fell) d (fun e => job.census (job.program.stackMap.annotate is ts) n = .error e)
      fun _ d' =>
      Counted job is ts n d d' := by
  have hj : job.named.Sound := Job.sound_named hv hlen hfac
  induction is generalizing offset fell ts n d with
  | nil =>
    have hend : offset = job.program.length := htiles
    subst hend
    exact .of_ok rfl ⟨⟨[], rfl, by simp⟩, .refl d, rfl, fell, ts, n, hs, hl⟩
  | cons i rest ih =>
    obtain ⟨hdecode, htiles'⟩ := htiles
    have hoff := (Instruction.decodeAt_ok hdecode).1
    subst hoff
    have hi := hmem i (by simp)
    have hrest : ∀ j ∈ rest, j ∈ job.program.instructions := fun j hj => hmem j (List.mem_cons_of_mem _ hj)
    have hformat := (hv.tiles.sound hi).2.format
    cases hinfo : job.program.stackMap.info? i.offset with
    | none =>
      simp only [lowerEach, StackMap.annotate, hinfo]
      refine (ih htiles' hrest (hs.skip hj hi hinfo) (hl.skip hv hi hinfo)).mono (fun e he => he) fun _ d' h => ?_
      exact ⟨by simpa only [StackMap.annotate, hinfo] using h.log, h.grows, h.phase, h.ends⟩
    | some info =>
      simp only [lowerEach, hinfo]
      obtain ⟨d₁, hd₁, ha, hpc, hchart⟩ := Level.arrive hj hl hs hi hinfo
      refine .bind_ok hd₁ ?_
      have hts : (if info.jumpTarget then ts.resize info.depth else ts) = d₁.stack.knowns := by
        rw [ha.knowns, hs.knowns]
      have hann : job.program.stackMap.annotate (i :: rest) ts =
          (i, d₁.stack.knowns) :: job.program.stackMap.annotate rest (i.typesAfter d₁.stack.knowns) := by
        simp only [StackMap.annotate, hinfo, hts]
      have hrefusal : d₁.sites.refusal? = job.settings.refusal? n := by
        rw [ha.sites]
        exact SiteTable.refusal?_eq hs.sites hs.stubs hl.limits
      cases href : i.opcode.isRefused with
      | true =>
        refine Yields.bind (P := fun _ _ => False) ?_ fun _ _ h => h.elim
        rw [Yields, Lowering.lower_refused href, hann, Job.census, if_pos href]
      | false =>
        cases hkind : job.kind? i d₁.stack.knowns with
        | error e =>
          obtain ⟨hop, hname⟩ := Job.kind?_error hkind
          refine Yields.bind (P := fun _ _ => False) ?_ fun _ _ h => h.elim
          rw [Yields, Lowering.lower_unknown hformat hop hname, hann, Job.census,
            if_neg (by rw [href]; exact Bool.false_ne_true), hkind]
        | ok kind =>
          rw [Lowering.lower_named hformat fun hop => Job.name_of_kind? hkind hop]
          have hplaces := hs.places hj hi hinfo ha hchart href (Job.kind?_named hkind)
          refine (hplaces.mono (fun e he => ?_) fun _ _ h => h).bind fun _ d₂ hp => ?_
          · obtain ⟨hsome, he⟩ := he
            obtain ⟨kind, rfl⟩ := Option.isSome_iff_exists.mp hsome
            rw [hann]
            exact Job.census_refused href hkind (hrefusal.symm.trans he)
          · have hroom (hsome : kind.isSome = true) : job.settings.refusal? n = none := by
              rw [← hrefusal]
              exact hp.writes.room (by obtain ⟨kind, rfl⟩ := Option.isSome_iff_exists.mp hsome; simp)
            have hcons := Job.census_cons (job.program.stackMap.annotate rest (i.typesAfter d₁.stack.knowns))
              href hkind hroom
            rw [← Job.sites_of_kind? hkind] at hcons
            have hnext := Level.next hj hl hi hinfo ha hp
            refine (ih htiles' hrest (hs.next hj hi hinfo ha hp.lowered) hnext).mono (fun e he => ?_) fun _ d' h => ?_
            · rw [hann, hcons, he]
              rfl
            · obtain ⟨⟨log, hlog, hd'⟩, hgrows, hphase, hends⟩ := h
              have hcode := hp.lowered.code
              refine ⟨⟨_, by rw [hann, hcons, hlog]; rfl, ?_⟩,
                ha.grows.trans (hcode.grows.trans hgrows), by rw [hphase, hcode.phase, ha.phase], hends⟩
              rw [hp.writes.log_append hd', hpc, ha.sites]

end Compilation

/-! ## The whole program -/

/-- The code of a whole program up to its way out has a sound chart, and nothing is on the stack at the way out. -/
structure Draft.Charted (p : Program) (b : CodeBuffer) (f : Draft (StubBody σ)) : Prop where
  chart : b.Chart p.stackMap.deepest p.Declares
  height : b.height = 0
  enters : b.insts[0]? = some (.enterFrame p.slots)
  out : b.labelOffset? ⟨p.length⟩ = some b.insts.size
  bound : ∀ {o : Nat}, p.stackMap.isJumpTarget o = true → (b.labelOffset? ⟨o⟩).isSome = true
  insts : f.buffer.insts = b.insts ++ #[.leaveFrame, .ret]
  heights : ∀ {k : Nat}, k < b.insts.size → f.buffer.heights[k]? = b.heights[k]?
  labels : f.buffer.labels = b.labels

namespace Compilation

open Draft Emit

variable {job : Job (StubBody σ)} {E : CompileError → Prop}

/-- The code that opens the frame has a sound chart, with nothing on the stack. -/
theorem prologue_charted (job : Job (StubBody σ)) (limit : Nat) (T : Label → Nat → Prop) :
    Yields (prologue job) (labelled job) E fun _ d =>
      d.buffer.Chart limit T ∧ d.buffer.insts[0]? = some (.enterFrame job.program.slots) := by
  obtain ⟨d₁, d₂, d₃, hd₁, hd₂, hd₃, hadds, _, hheight₁, _, hheight₃⟩ := opening_ok job.program.slots (labelled job)
  have hzero : (labelled job).buffer.height = 0 := rfl
  have hfree (l : Label) : (labelled job).buffer.labelOffset? l = none := by
    show ((Array.replicate job.program.length none).push none)[l.index]?.join = none
    rw [Array.getElem?_push, Array.getElem?_replicate]
    split
    · rfl
    · split <;> rfl
  have hchart₁ : d₁.buffer.Chart limit T := by
    obtain ⟨buffer, hb, rfl⟩ := of_inst hd₁
    exact .start rfl rfl rfl hfree hb rfl rfl
  have hchart₂ : d₂.buffer.Chart limit T := by
    obtain ⟨buffer, hb, rfl⟩ := of_moves hd₂
    refine hchart₁.emitMoves hb ?_
    have hpushes : (clearing job.program.slots).countP Move.isPush = 0 := by
      refine List.countP_eq_zero.mpr fun m hm => ?_
      obtain ⟨index, _, rfl⟩ := List.mem_map.mp hm
      exact Bool.false_ne_true
    rw [hheight₁, hzero, hpushes]
    exact Nat.zero_le _
  have hchart₃ : d₃.buffer.Chart limit T := by
    obtain ⟨buffer, hb, rfl⟩ := of_inst hd₃
    refine hchart₂.emit hb ?_ rfl fun l hl => by cases hl
    rw [hheight₃, hzero]
    exact Nat.zero_le _
  refine .bind_ok hd₁ (.bind_ok hd₂ (.bind_ok hd₃ (.of_ok (advance_ok (by rw [hadds.phase]; rfl)) ⟨hchart₃, ?_⟩)))
  have hfirst := hadds.inst (k := 0) (i := .enterFrame job.program.slots) rfl
  exact hfirst

/-- The way out follows where nothing is on the stack, or where nothing runs through. -/
theorem epilogue_charted {p : Program} (hv : p.Verified) {d : Draft (StubBody σ)} (hexit : d.exit = some ⟨p.length⟩)
    (hfree : d.buffer.labels[p.length]? = some none) (hphase : d.phase = .bodyEmitted)
    (henters : d.buffer.insts[0]? = some (.enterFrame p.slots)) (hchart : d.buffer.Chart p.stackMap.deepest p.Declares)
    (hsev : d.buffer.Severed ∨ d.buffer.height = 0)
    (hmet : ∀ o, p.stackMap.isJumpTarget o = true → (d.buffer.labelOffset? ⟨o⟩).isSome = true) :
    Yields epilogue d E fun _ f => f.sites = d.sites ∧ ∃ b, f.Charted p b := by
  have hfree : d.buffer.labels[(⟨p.length⟩ : Label).index]? = some none := hfree
  obtain ⟨d₁, d₃, hd₃, hbinds, hadds, hheights⟩ := epilogue_ok hexit hfree hphase
  refine .of_ok hd₃ ⟨?_, ?_⟩
  · show d₃.sites = d.sites
    rw [hadds.sites, hbinds.eq]
  · have hlevel : CodeBuffer.Chart p.stackMap.deepest p.Declares { d.buffer with height := 0 } := by
      rcases hsev with hsev | hheight
      · exact hchart.reset hsev (Nat.zero_le _)
      · rw [← hheight]
        exact hchart
    have hend := hlevel.bind hfree fun k hk => ?_
    · refine ⟨_, hend, rfl, henters, ?_, fun {o} ho => ?_, ?_, fun {k} hk => ?_, ?_⟩
      · have hbound := hbinds.bound
        rw [hbinds.eq] at hbound
        exact hbound
      · obtain ⟨pc, hpc⟩ := Option.isSome_iff_exists.mp (hmet o ho)
        have hkept := hbinds.grows.labels hpc
        rw [hbinds.eq] at hkept
        exact Option.isSome_iff_exists.mpr ⟨pc, hkept⟩
      · show d₃.buffer.insts = _
        rw [hadds.insts, hbinds.eq]
      · have hlt : k < d.buffer.heights.size := by rw [hchart.size]; exact hk
        exact hheights k hlt
      · show d₃.buffer.labels = _
        rw [hadds.labels, hbinds.eq]
        rfl
    · rcases hk with ⟨info, hinfo, _⟩ | ⟨_, rfl⟩
      · obtain ⟨i, hi, ho⟩ := hv.instruction hinfo
        exact absurd ho (Nat.ne_of_lt (hv.tiles.offset_lt hi))
      · rfl

theorem body_counts (hv : job.program.Verified) (hlen : job.program.length < 2 ^ 32)
    (hfac : job.factory = StubBody.fallbacks) {d : Draft (StubBody σ)} (hs : Stage job.named 0 false [] 0 d)
    (hl : Level job.program job.settings 0 false d) (hphase : d.phase = .prologueEmitted) :
    Yields (body job) d (fun e => job.census job.program.annotated 0 = .error e) fun _ d' =>
      ∃ d₂, d' = { d₂ with phase := .bodyEmitted } ∧ Counted job job.program.instructions [] 0 d d₂ := by
  rw [body, lowerAll_offsets hv]
  refine (failing_yields (lowerEach_counts hv hlen hfac hv.tiles (fun _ hi => hi) hs hl)).bind fun _ d₂ hcounted => ?_
  exact .of_ok (advance_ok (hcounted.phase.trans hphase)) ⟨d₂, rfl, hcounted⟩

/-- Compiling comes to what the verdict on the job is, and gives code with a sound chart. -/
theorem emission_verdict (hv : job.program.Verified) (hlen : job.program.length < 2 ^ 32)
    (hfac : job.factory = StubBody.fallbacks) :
    Yields (emission job) (.start job.settings) (fun e => job.verdict = .error e) fun _ f =>
      job.verdict = .ok f.sites.log ∧ ∃ b, f.Charted job.program b := by
  have hj : job.named.Sound := Job.sound_named hv hlen hfac
  refine ((start_checks hlen).mono (fun e he => ?_) fun _ _ h => h).bind fun _ d ⟨hd, hargs, hshort⟩ => ?_
  · rcases he with ⟨rfl, hargs⟩ | ⟨rfl, hargs, hlong⟩
    · rw [Job.verdict, if_pos hargs]
    · rw [Job.verdict, if_neg (by rw [hargs]; exact Bool.false_ne_true), if_pos hlong]
  subst hd
  have hverdict : job.verdict = job.census job.program.annotated 0 := by
    rw [Job.verdict, if_neg (by rw [hargs]; exact Bool.false_ne_true), if_neg (Nat.not_lt_of_le hshort)]
  rw [hverdict]
  obtain ⟨d₁, hd₁, hadds, hstack, hheight⟩ := @prologue_ok (StubBody σ) job (labelled job) rfl
  obtain ⟨hchart, henters⟩ := (prologue_charted (E := fun _ => False) job job.program.stackMap.deepest
    job.program.Declares).ok hd₁
  refine .bind_ok hd₁ ?_
  have hstage : Stage job.named 0 false [] 0 { d₁ with phase := .prologueEmitted } :=
    stage_start hj hadds hstack hheight rfl rfl rfl rfl
  have hsites : d₁.sites = .empty job.settings.maxSites job.settings.maxStubs := hadds.sites
  have hsettled : d₁.stack.Settled := by
    rw [hstack]
    exact fun k e he => by cases he
  have hlevel : Level job.program job.settings 0 false { d₁ with phase := .prologueEmitted } :=
    ⟨hchart, by rw [hsites]; exact ⟨rfl, rfl⟩, nofun, fun _ => hsettled, fun _ => .inr ⟨hheight, .inl rfl⟩⟩
  refine (body_counts hv hlen hfac hstage hlevel rfl).bind fun _ d₂ ⟨d₃, hd₃, hcounted⟩ => ?_
  subst hd₃
  obtain ⟨⟨log, hlog, hd₃⟩, hgrows, _, fell, ts, n, hs, hl⟩ := hcounted
  have hfell : fell = false := by
    cases fell with
    | false => rfl
    | true =>
      obtain ⟨info, hinfo⟩ := Option.isSome_iff_exists.mp (hl.flows rfl)
      obtain ⟨i, hi, ho⟩ := hv.instruction hinfo
      exact absurd ho (Nat.ne_of_lt (hv.tiles.offset_lt hi))
  have hsev : d₃.buffer.Severed ∨ d₃.buffer.height = 0 := (hl.severed hfell).imp_right And.left
  have hmet (o : Nat) (ho : job.program.stackMap.isJumpTarget o = true) :
      (d₃.buffer.labelOffset? ⟨o⟩).isSome = true := by
    obtain ⟨i, hi, rfl, _⟩ := hv.jumpTarget ho
    exact hs.bound (hv.tiles.offset_lt hi) ho
  refine (epilogue_charted (d := { d₃ with phase := .bodyEmitted }) hv hs.exit
    (hs.free (Nat.le_refl _) (Nat.le_refl _)) rfl
    (hgrows.insts henters) hl.chart hsev hmet).mono (fun _ he => he) fun _ f ⟨hf, hcharted⟩ => ⟨?_, hcharted⟩
  have hempty : d₁.sites.log = [] := by
    rw [hsites]
    rfl
  rw [Program.annotated, hlog, hf]
  show Except.ok log = .ok d₃.sites.log
  rw [hd₃, show ({ d₁ with phase := .prologueEmitted } : Draft (StubBody σ)).sites.log = [] from hempty,
    List.nil_append]

/-- A method that was compiled holds code with a sound chart and the sites that the verdict lists. -/
theorem compile_charted (hv : job.program.Verified) (hlen : job.program.length < 2 ^ 32)
    (hfac : job.factory = StubBody.fallbacks) {pool : CodePool} {m : Method (StubBody σ)}
    (h : (compile job Linker.pool pool).1 = .ok m) :
    ∃ f b, emission job (.start job.settings) = .ok () f ∧ f.Installed m ∧ m.code.entry = 0 ∧ f.Charted job.program b ∧
      job.verdict = .ok f.sites.log := by
  have hj : job.named.Sound := Job.sound_named hv hlen hfac
  obtain ⟨_, _, f, hnamed, _, hinstalled, hentry⟩ := (compile_ends hj pool).2 m (compile_named hv h)
  cases hemission : emission job (.start job.settings) with
  | error fault d =>
    rw [compile, hemission] at h
    cases h
  | ok _ f' =>
    rw [show job.named.settings = job.settings from rfl, emission_named hv hemission] at hnamed
    cases hnamed
    obtain ⟨hverdict, b, hcharted⟩ := (emission_verdict hv hlen hfac).ok hemission
    exact ⟨f, b, rfl, hinstalled, hentry, hcharted, hverdict⟩

def Accommodates (pool : CodePool) (job : Job (StubBody σ)) : Prop :=
  ∀ f, emission job (.start job.settings) = .ok () f → f.buffer.insts.size ≤ pool.available

theorem accommodates_of_compile (hv : job.program.Verified) (hlen : job.program.length < 2 ^ 32)
    (hfac : job.factory = StubBody.fallbacks) {pool : CodePool} {m : Method (StubBody σ)}
    (h : (compile job Linker.pool pool).1 = .ok m) : Accommodates pool job := by
  intro f hf
  have hnamed : emission job.named (.start job.named.settings) = .ok () f := emission_named hv hf
  have hm := compile_named hv h
  have hending := (compile_ends (Job.sound_named hv hlen hfac) pool).1
  generalize compile job.named Linker.pool pool = result at hm hending
  cases hending with
  | hindered _ | exhausted _ _ _ => cases hm
  | compiled _ hf' hsize hroom =>
    cases hnamed.symm.trans hf'
    exact hsize ▸ hroom

/-- What stands in the way is what compiling fails with. -/
theorem compile_of_error (hv : job.program.Verified) (hlen : job.program.length < 2 ^ 32)
    (hfac : job.factory = StubBody.fallbacks) {e : CompileError} (h : job.verdict = .error e) (pool : CodePool) :
    (compile job Linker.pool pool).1 = .error (.error e) := by
  obtain ⟨e', d, hemission, hverdict⟩ | ⟨_, f, _, hverdict, _⟩ := (emission_verdict hv hlen hfac).cases
  · cases h.symm.trans hverdict
    rw [compile, hemission]
  · cases h.symm.trans hverdict

/-- If nothing stands in the way and there is room, there is a method with the sites that the verdict lists. -/
theorem compile_of_ok (hv : job.program.Verified) (hlen : job.program.length < 2 ^ 32)
    (hfac : job.factory = StubBody.fallbacks) {log : List (UInt32 × SiteKind)} (h : job.verdict = .ok log)
    {pool : CodePool} (hroom : Accommodates pool job) :
    ∃ m, (compile job Linker.pool pool).1 = .ok m ∧ m.log = log := by
  have hj : job.named.Sound := Job.sound_named hv hlen hfac
  obtain ⟨e, d, _, hverdict⟩ | ⟨_, f, hemission, _⟩ := (emission_verdict hv hlen hfac).cases
  · cases h.symm.trans hverdict
  · have hnamed : emission job.named (.start job.named.settings) = .ok () f := emission_named hv hemission
    -- Linking looks at the draft alone, so the job with all names known may stand in for this one.
    have hsame : compile job Linker.pool pool = compile job.named Linker.pool pool := by
      rw [compile, compile, hemission, hnamed]
    have hending := (compile_ends hj pool).1
    rw [← hsame] at hending
    generalize hresult : compile job Linker.pool pool = result at hending
    cases hending with
    | hindered hobstacle => exact absurd hobstacle (((emission_yields hj).ok hnamed).2 _)
    | exhausted _ hf hlt =>
      rw [hnamed] at hf
      cases hf
      exact absurd (hroom f hemission) (Nat.not_le_of_lt hlt)
    | @compiled _ m _ _ _ _ =>
      have hm : (compile job Linker.pool pool).1 = .ok m := by rw [hresult]
      obtain ⟨f', _, _, hinstalled, _, _, hverdict⟩ := compile_charted hv hlen hfac hm
      refine ⟨m, rfl, ?_⟩
      rw [hinstalled.log]
      exact Except.ok.inj (hverdict.symm.trans h)

end Compilation
end BaselineTier
