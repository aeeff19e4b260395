/-
  BaselineTier.Proofs.Correspondence — sites, calls and instructions correspond.

  The instructions that can be reached are lowered in the order of the code, each from a draft
  that says what is known of the operand stack (`stations`). Compiling therefore gives one site
  for each of them that has one, in that order, and each site is called from one place
  (`sites_calls_and_instructions_correspond`). Linking turns labels into offsets and leaves the
  calls where they are.
-/

import BaselineTier.Proofs.Allocation
import BaselineTier.Proofs.Unreachable

namespace BaselineTier

variable {α β γ : Type}

/-! ## Phases -/

namespace Compilation

open Emit Draft

variable {job : Job β} {d d' : Draft β}

theorem failing_ok {x : Emit β α} {a : α} (h : failing x d = .ok a d') : x d = .ok a d' := by
  unfold failing at h
  split at h
  · cases h
  · exact h

theorem failing_allocates {x : Emit β α} {ks : List SiteKind} (hx : x.Allocates job.factory ks) :
    (failing x).Allocates job.factory ks :=
  fun d a d' h => hx d a d' (failing_ok h)

theorem advance_allocates (before after : Phase) : (advance before after : Emit β Unit).Allocates job.factory [] := by
  refine get_allocates.bind fun _ => (assume_allocates _ _).bind fun _ => ?_
  exact modify_allocates _ fun _ => ⟨rfl, rfl, rfl, rfl⟩

theorem check_allocates : (check job).Allocates job.factory [] := by
  refine allocates_of_same fun {d a d'} h => ?_
  exact ((check_yields job d).ok h).1

theorem makeLabels_allocates : (makeLabels job).Allocates job.factory [] := by
  refine get_allocates.bind fun _ => ?_
  split
  · exact throw_allocates _
  · have hlabels : (modify fun d => { d with buffer := d.buffer.newLabels job.program.length } : Emit β Unit).Allocates
        job.factory [] :=
      modify_allocates _ fun _ => ⟨rfl, rfl, rfl, rfl⟩
    exact hlabels.bind fun _ => newLabel_allocates.bind fun _ => modify_allocates _ fun _ => ⟨rfl, rfl, rfl, rfl⟩

theorem start_allocates : (start job).Allocates job.factory [] :=
  (failing_allocates (check_allocates.bind fun _ => makeLabels_allocates)).bind fun _ => advance_allocates _ _

theorem prologue_allocates : (prologue job).Allocates job.factory [] :=
  (inst_allocates (.enterFrame job.program.slots) fun _ => nofun).bind fun _ => (moves_allocates _).bind fun _ =>
    (inst_allocates .stackCheck fun _ => nofun).bind fun _ => advance_allocates _ _

theorem epilogue_allocates : (epilogue : Emit β Unit).Allocates job.factory [] :=
  exitLabel_allocates.bind fun label => (bind_label_allocates label).bind fun _ =>
    (inst_allocates .leaveFrame fun _ => nofun).bind fun _ => (inst_allocates .ret fun _ => nofun).bind fun _ =>
      advance_allocates _ _

/-! ## The body -/

theorem merge_allocates (offset depth : Nat) (fell : Bool) :
    (merge job offset depth fell).Allocates job.factory [] := by
  have hresize : (modify fun d =>
      { d with stack := d.stack.resize depth, buffer := { d.buffer with height := depth } } :
      Emit β Unit).Allocates job.factory [] := modify_allocates _ fun _ => ⟨rfl, rfl, rfl, rfl⟩
  have hbind : (do Emit.bind (← label job offset) : Emit β Unit).Allocates job.factory [] :=
    (label_allocates job offset).bind bind_label_allocates
  refine (flushBelow_allocates 0).bind fun _ => ?_
  cases fell with
  | false => exact hresize.bind fun _ => hbind
  | true =>
    refine depth_allocates.bind fun _ => (assume_allocates _ _).bind fun _ => get_allocates.bind fun _ => ?_
    exact (assume_allocates _ _).bind fun _ => hresize.bind fun _ => hbind

theorem meet_allocates (offset : Nat) (info : StackMap.Info) (fell : Bool) :
    (meet job offset info fell).Allocates job.factory [] := by
  unfold meet
  split
  · exact merge_allocates _ _ _
  · split
    · exact depth_allocates.bind fun _ => assume_allocates _ _
    · exact pure_allocates _

theorem settle_allocates : (settle job).Allocates job.factory [] := by
  unfold settle
  split
  · exact flushBelow_allocates 0
  · refine depth_allocates.bind fun _ => ?_
    split
    · exact flushBelow_allocates 2
    · exact pure_allocates _

/-- Getting ready for an instruction gains no site. -/
theorem arrive_gains {offset : Nat} {info : StackMap.Info} {fell : Bool}
    (h : arrive job offset info fell d = .ok () d') :
    d'.pc = offset ∧ d.Gains job.factory [] d' := by
  obtain ⟨_, d₁, hd₁, h⟩ := bind_ok_iff.mp h
  obtain ⟨_, d₂, hd₂, h⟩ := bind_ok_iff.mp h
  obtain ⟨_, d₃, hd₃, h⟩ := bind_ok_iff.mp h
  obtain ⟨_, d₄, hd₄, h⟩ := bind_ok_iff.mp h
  cases h
  have hmeet := (meet_allocates offset info fell).gains hd₁
  have hsettle := settle_allocates.gains hd₂
  have hlook := (hmeet.trans hsettle).trans (get_allocates.gains hd₃)
  have hcheck := hlook.trans ((guarded_allocates _).gains hd₄)
  exact ⟨rfl, hcheck.trans (gains_same rfl rfl rfl)⟩

/-- The reachable ones of the instructions, with the drafts that they are lowered from. -/
def stationsFrom (job : Job β) : List Instruction → Bool → Draft β → List (Instruction × Draft β)
  | [], _, _ => []
  | i :: rest, fellThrough, d =>
    match job.program.stackMap.info? i.offset with
    | none => stationsFrom job rest false d
    | some info =>
      match arrive job i.offset info fellThrough d with
      | .error _ _ => []
      | .ok _ d₁ => (i, d₁) ::
        match Lowering.lower job i d₁ with
        | .error _ _ => []
        | .ok _ d₂ => stationsFrom job rest i.opcode.fallsThrough d₂

def siteOf? (job : Job β) (station : Instruction × Draft β) : Option (Nat × SiteKind) :=
  (job.kind? station.1 station.2.stack.knowns).toOption.join.map (station.1.offset, ·)

/-- The instructions of the body are lowered in turn, each with its site. -/
theorem lowerEach_gains {is : List Instruction} {fell : Bool} (h : lowerEach job is fell d = .ok () d') :
    (stationsFrom job is fell d).map Prod.fst = is.filter (fun i => job.program.stackMap.isReachable i.offset) ∧
      (∀ s ∈ stationsFrom job is fell d, ∃ kind, job.kind? s.1 s.2.stack.knowns = .ok kind) ∧
      d.Gains job.factory (((stationsFrom job is fell d).filterMap (siteOf? job)).map fun e => (UInt32.ofNat e.1, e.2))
        d' := by
  induction is generalizing fell d with
  | nil =>
    cases h
    refine ⟨rfl, fun _ hs => ?_, .refl _ _⟩
    cases hs
  | cons i is ih =>
    unfold lowerEach at h
    unfold stationsFrom
    cases hinfo : job.program.stackMap.info? i.offset with
    | none =>
      rw [hinfo] at h
      have hreach : job.program.stackMap.isReachable i.offset = false := by rw [StackMap.isReachable, hinfo]; rfl
      rw [List.filter_cons, if_neg (by rw [hreach]; exact Bool.false_ne_true)]
      exact ih h
    | some info =>
      rw [hinfo] at h
      obtain ⟨_, d₁, hd₁, h⟩ := bind_ok_iff.mp h
      obtain ⟨_, d₂, hd₂, h⟩ := bind_ok_iff.mp h
      have hreach : job.program.stackMap.isReachable i.offset = true := by rw [StackMap.isReachable, hinfo]; rfl
      obtain ⟨hpc, harrives⟩ := arrive_gains hd₁
      obtain ⟨kind, hkind, _, hlowered⟩ := Lowering.lower_allots hd₂
      obtain ⟨hmap, hkinds, hrest⟩ := ih h
      simp only [hd₁, hd₂]
      refine ⟨by rw [List.map_cons, hmap, List.filter_cons, if_pos hreach], ?_, ?_⟩
      · rintro s (_ | ⟨_, hs⟩)
        · exact ⟨kind, hkind⟩
        · exact hkinds s hs
      · have hentry : siteOf? job (i, d₁) = kind.map (i.offset, ·) := by rw [siteOf?, hkind]; rfl
        have hgains := (harrives.trans hlowered).trans hrest
        rw [hpc] at hgains
        cases kind with
        | none => rw [List.filterMap_cons_none hentry]; exact hgains
        | some kind => rw [List.filterMap_cons_some hentry]; exact hgains

def stations (job : Job β) : List (Instruction × Draft β) :=
  match (do start job; prologue job) (.start job.settings) with
  | .error _ _ => []
  | .ok _ d => stationsFrom job job.program.instructions false d

/-- Everything up to linking: after the prologue, each reachable instruction gets its site. -/
theorem emission_gains (hv : job.program.Verified) {f : Draft β} (h : emission job (.start job.settings) = .ok () f) :
    ∃ d₁ d₂, start job (.start job.settings) = .ok () d₁ ∧ prologue job d₁ = .ok () d₂ ∧
      (stations job).map Prod.fst = job.program.reachable ∧
        (∀ s ∈ stations job, ∃ kind, job.kind? s.1 s.2.stack.knowns = .ok kind) ∧
      d₂.Gains job.factory (((stations job).filterMap (siteOf? job)).map fun e => (UInt32.ofNat e.1, e.2)) f := by
  obtain ⟨_, d₁, hd₁, h⟩ := bind_ok_iff.mp h
  obtain ⟨_, d₂, hd₂, h⟩ := bind_ok_iff.mp h
  obtain ⟨_, d₃, hd₃, hf⟩ := bind_ok_iff.mp h
  obtain ⟨_, d₄, hd₄, hadvance⟩ := bind_ok_iff.mp hd₃
  have hstations : stations job = stationsFrom job job.program.instructions false d₂ := by
    rw [stations, bind_eq hd₁]
    simp only [hd₂]
  have hlower := failing_ok hd₄
  rw [lowerAll_offsets hv] at hlower
  obtain ⟨hmap, hkinds, hbody⟩ := lowerEach_gains hlower
  have hbehind : d₄.Gains job.factory [] f := ((advance_allocates _ _).gains hadvance).trans
    (epilogue_allocates.gains hf)
  have hgains := hbody.trans hbehind
  simp only [List.append_nil] at hgains
  rw [hstations]
  exact ⟨d₁, d₂, hd₁, hd₂, hmap, hkinds, hgains⟩

/-- The sites are those of the reachable instructions, and as many as 32 bits number are aligned. -/
theorem emission_aligned (hv : job.program.Verified) {f : Draft β} (h : emission job (.start job.settings) = .ok () f) :
    f.sites.log = ((stations job).filterMap (siteOf? job)).map (fun e => (UInt32.ofNat e.1, e.2)) ∧
      (f.sites.sites.size ≤ 2 ^ 32 → f.Aligned) := by
  obtain ⟨d₁, d₂, hd₁, hd₂, _, _, hbody⟩ := emission_gains hv h
  have hgains := ((start_allocates.gains hd₁).trans (prologue_allocates.gains hd₂)).trans hbody
  have hempty : (Draft.start job.settings : Draft β).sites.log = [] := rfl
  refine ⟨?_, fun hfew => hgains.aligned hfew Aligned.empty⟩
  rw [hgains.log, hempty]
  simp

/-- Whatever is walked over. -/
theorem lowerAll_gains {offsets : List Nat} {fell : Bool} (h : lowerAll job offsets fell d = .ok () d') :
    ∃ es, d.Gains job.factory es d' := by
  induction offsets generalizing fell d with
  | nil =>
    cases h
    exact ⟨[], .refl _ _⟩
  | cons offset offsets ih =>
    unfold lowerAll at h
    cases hinfo : job.program.stackMap.info? offset with
    | none =>
      rw [hinfo] at h
      exact ih h
    | some info =>
      rw [hinfo] at h
      cases hdecode : Instruction.decodeAt job.program.code offset with
      | error e => simp only [hdecode] at h; cases h
      | ok i =>
        simp only [hdecode] at h
        obtain ⟨_, d₁, hd₁, h⟩ := bind_ok_iff.mp h
        obtain ⟨_, d₂, hd₂, h⟩ := bind_ok_iff.mp h
        obtain ⟨_, harrives⟩ := arrive_gains hd₁
        obtain ⟨_, _, _, hlowered⟩ := Lowering.lower_allots hd₂
        obtain ⟨es, hrest⟩ := ih h
        exact ⟨_, (harrives.trans hlowered).trans hrest⟩

/-- After the prologue, for programs that need not have been accepted. -/
theorem prologue_gains {f : Draft β} (h : emission job (.start job.settings) = .ok () f) :
    ∃ d₁ d₂ es, start job (.start job.settings) = .ok () d₁ ∧ prologue job d₁ = .ok () d₂ ∧
      d₂.Gains job.factory es f := by
  obtain ⟨_, d₁, hd₁, h⟩ := bind_ok_iff.mp h
  obtain ⟨_, d₂, hd₂, h⟩ := bind_ok_iff.mp h
  obtain ⟨_, d₃, hd₃, hf⟩ := bind_ok_iff.mp h
  obtain ⟨_, d₄, hd₄, hadvance⟩ := bind_ok_iff.mp hd₃
  have hbehind : d₄.Gains job.factory [] f := ((advance_allocates _ _).gains hadvance).trans
    (epilogue_allocates.gains hf)
  obtain ⟨es, hbody⟩ := lowerAll_gains (failing_ok hd₄)
  exact ⟨d₁, d₂, _, hd₁, hd₂, hbody.trans hbehind⟩

theorem start_gains {f : Draft β} (h : emission job (.start job.settings) = .ok () f) :
    ∃ es, (Draft.start job.settings).Gains job.factory es f := by
  obtain ⟨d₁, d₂, es, hd₁, hd₂, hrest⟩ := prologue_gains h
  exact ⟨_, ((start_allocates.gains hd₁).trans (prologue_allocates.gains hd₂)).trans hrest⟩

/-- Every stub that there is when the code is linked is one that the factory made. -/
theorem emission_made {f : Draft β} (h : emission job (.start job.settings) = .ok () f) :
    ∀ stub ∈ f.sites.store.stubs, ∃ n kind, job.factory n kind = some stub.body := by
  intro stub hstub
  obtain ⟨_, hgains⟩ := start_gains h
  rcases hgains.made stub hstub with hnone | hmade
  · exact absurd hnone (Array.not_mem_empty stub)
  · exact hmade

/-- The patches name sites that there are. -/
theorem emission_patched {f : Draft β} (h : emission job (.start job.settings) = .ok () f) : f.Patched := by
  obtain ⟨es, hgains⟩ := start_gains h
  exact hgains.patched fun p hp => absurd hp (Array.not_mem_empty p)

theorem of_assume {condition : Bool} {b : Breach} {u : Unit} (h : Emit.assume condition b d = .ok u d') : d' = d := by
  unfold Emit.assume at h
  split at h
  · cases h
    rfl
  · cases h

theorem of_advance {before after : Phase} {u : Unit} (h : advance before after d = .ok u d') :
    d' = { d with phase := after } := by
  obtain ⟨_, d₁, hget, hrest⟩ := bind_ok_iff.mp h
  obtain ⟨_, d₂, hassume, hlast⟩ := bind_ok_iff.mp hrest
  cases hget
  cases hlast
  rw [of_assume hassume]

/-- A method is made of the code that the linker gave and the sites of the draft. -/
theorem of_finish {answer : Except (Fault CompileError) LinkedCode} {m : Method β}
    (h : (link answer >>= finish) d = .ok m d') :
    ∃ code, answer = .ok code ∧ m = .make code d.sites := by
  obtain ⟨code, d₁, hlink, hfinish⟩ := bind_ok_iff.mp h
  obtain ⟨_, d₂, hd₂, hrest⟩ := bind_ok_iff.mp hlink
  obtain ⟨code', d₃, hd₃, hlast⟩ := bind_ok_iff.mp hrest
  obtain ⟨_, d₄, hd₄, hpure⟩ := bind_ok_iff.mp hlast
  obtain ⟨_, d₅, hd₅, hrest'⟩ := bind_ok_iff.mp hfinish
  obtain ⟨_, d₆, hget, hrest''⟩ := bind_ok_iff.mp hrest'
  obtain ⟨_, d₇, _, hmake⟩ := bind_ok_iff.mp hrest''
  cases hget
  cases hd₂
  cases hpure
  cases hmake
  obtain rfl := of_advance hd₅
  obtain rfl := of_advance hd₄
  cases answer with
  | error fault => exact nomatch failing_ok hd₃
  | ok code' =>
    cases failing_ok hd₃
    exact ⟨code, rfl, rfl⟩

/-- Whatever the linker, a method is made of the code that it gave and the sites of the draft. -/
theorem compile_made {π : Type} {linker : Linker π} {p : π} {m : Method β} (h : (compile job linker p).1 = .ok m) :
    ∃ f code, emission job (.start job.settings) = .ok () f ∧ (linker f.buffer p).1 = .ok code ∧
      m = .make code f.sites := by
  unfold compile at h
  split at h
  · cases h
  · rename_i f hf
    simp only at h
    split at h
    · cases h
    · rename_i m' d' hlinked
      cases h
      obtain ⟨code, hcode, rfl⟩ := of_finish hlinked
      exact ⟨f, code, hf, hcode, rfl⟩

/-- Code that was linked has its labels resolved and is charged to the pool. -/
theorem link_ok_iff {b : CodeBuffer} {pool pool' : CodePool} {code : LinkedCode} : b.link pool = .ok (code, pool') ↔
    ∃ insts, b.resolved = .ok insts ∧ pool.reserve insts.size = .ok pool' ∧ code = .ofInsts insts 0 b.patches := by
  unfold CodeBuffer.link
  cases b.resolved with
  | error e =>
    refine iff_of_false (fun h => ?_) (fun h => ?_)
    · cases h
    · obtain ⟨_, h, _⟩ := h
      cases h
  | ok insts =>
    simp only [Bind.bind, Except.bind]
    cases hreserve : pool.reserve insts.size with
    | error e =>
      refine iff_of_false (fun h => ?_) (fun h => ?_)
      · cases h
      · obtain ⟨_, hinsts, h, _⟩ := h
        cases hinsts
        cases hreserve.symm.trans h
    | ok charged =>
      constructor
      · intro h
        cases h
        exact ⟨insts, rfl, hreserve, rfl⟩
      · rintro ⟨_, hinsts, h, rfl⟩
        cases hinsts
        cases hreserve.symm.trans h
        rfl

/-- What was compiled is what was emitted, with the labels turned into offsets. -/
theorem compile_ok {pool : CodePool} {m : Method β} (h : (compile job Linker.pool pool).1 = .ok m) :
    ∃ f insts, emission job (.start job.settings) = .ok () f ∧ f.buffer.resolved = .ok insts ∧
      m = .make (.ofInsts insts 0 f.buffer.patches) f.sites := by
  obtain ⟨f, code, hf, hcode, rfl⟩ := compile_made h
  unfold Linker.pool at hcode
  split at hcode
  · rename_i hlink
    cases hcode
    obtain ⟨insts, hinsts, _, rfl⟩ := link_ok_iff.mp hlink
    exact ⟨f, insts, hf, hinsts, rfl⟩
  · cases hcode

end Compilation

/-- The instructions of linked code are the resolved ones of the buffer. -/
theorem CodeBuffer.getElem?_of_resolved {b : CodeBuffer} {insts : Array (Inst Nat)} (h : b.resolved = .ok insts)
    (k : Nat) :
    (b.insts[k]? = none ∧ insts[k]? = none) ∨ ∃ i i', b.insts[k]? = some i ∧ insts[k]? = some i' ∧
      i.resolve b.find = .ok i' := by
  have hplace := Array.getElem?_of_mapM (splits_except LinkError) h k
  cases hi : b.insts[k]? with
  | none =>
    rw [hi] at hplace
    exact .inl ⟨rfl, Option.map_eq_none_iff.mp hplace.symm⟩
  | some i =>
    rw [hi] at hplace
    obtain ⟨i', hi', hresolve⟩ := Option.map_eq_some_iff.mp hplace.symm
    exact .inr ⟨i, i', rfl, hi', hresolve.symm⟩

theorem Inst.callSite_of_resolve {find : Label → Except LinkError Nat} {i : Inst Label} {i' : Inst Nat}
    (h : i.resolve find = .ok i') (patch : Nat) : i' = .callSite patch ↔ i = .callSite patch := by
  have hmap {l : Label} {g : Nat → Inst Nat} (hg : ∀ target, g target ≠ .callSite patch) (h : (find l).map g = .ok i') :
      i' ≠ .callSite patch := by
    cases hl : find l with
    | error e => rw [hl] at h; cases h
    | ok target =>
      rw [hl] at h
      cases h
      exact hg target
  cases i with
  | jump l => exact iff_of_false (hmap (g := .jump) (fun _ => nofun) h) nofun
  | branch reg condition l => exact iff_of_false (hmap (g := .branch reg condition) (fun _ => nofun) h) nofun
  | branchNumber reg l => exact iff_of_false (hmap (g := .branchNumber reg) (fun _ => nofun) h) nofun
  | callSite patch' =>
    cases h
    exact ⟨fun hi => by cases hi; rfl, fun hi => by cases hi; rfl⟩
  | _ =>
    cases h
    exact ⟨nofun, nofun⟩

/-- Linking keeps the calls where they are. -/
theorem Aligned.resolved {b : CodeBuffer} {insts : Array (Inst Nat)} {patches : Array PatchSite} {sites : Array Site}
    {stubs : Array (Stub β)} (h : Aligned b.insts patches sites stubs) (hinsts : b.resolved = .ok insts) :
    Aligned insts patches sites stubs := by
  refine h.congr fun offset patch => ?_
  rcases b.getElem?_of_resolved hinsts offset with ⟨hb, hi⟩ | ⟨i, i', hb, hi, hr⟩
  · rw [hb, hi]
    exact iff_of_false nofun nofun
  · rw [hb, hi, Option.some.injEq, Option.some.injEq]
    exact Inst.callSite_of_resolve hr patch

/-! ## Correspondence -/

namespace Compilation

variable {job : Job β}

theorem fst_of_siteOf? {s : Instruction × Draft β} {e : Nat × SiteKind} (h : siteOf? job s = some e) :
    e.1 = s.1.offset := by
  obtain ⟨_, _, rfl⟩ := Option.map_eq_some_iff.mp h
  rfl

/-- Instructions are lowered from first to last. -/
theorem pairwise_entries (hv : job.program.Verified) (hmap : (stations job).map Prod.fst = job.program.reachable) :
    ((stations job).filterMap (siteOf? job)).Pairwise fun e e' => e.1 < e'.1 := by
  have hreach : ((stations job).map Prod.fst).Pairwise fun i j => i.offset < j.offset := by
    rw [hmap]
    exact hv.pairwise_reachable.imp fun {i j} hle => Nat.lt_of_lt_of_le (Instruction.offset_lt_next i) hle
  refine (List.pairwise_map.mp hreach).filterMap (siteOf? job) fun s s' hlt e he e' he' => ?_
  rw [fst_of_siteOf? he, fst_of_siteOf? he']
  exact hlt

theorem entry_lt (hv : job.program.Verified) (hmap : (stations job).map Prod.fst = job.program.reachable)
    {e : Nat × SiteKind} (he : e ∈ (stations job).filterMap (siteOf? job)) : e.1 < job.program.length := by
  obtain ⟨s, hs, hse⟩ := List.mem_filterMap.mp he
  have hi : s.1 ∈ job.program.reachable := hmap ▸ List.mem_map_of_mem hs
  rw [fst_of_siteOf? hse]
  exact hv.tiles.offset_lt (List.mem_filter.mp hi).1

theorem length_entries_le (hv : job.program.Verified) (hmap : (stations job).map Prod.fst = job.program.reachable) :
    ((stations job).filterMap (siteOf? job)).length ≤ job.program.length := by
  calc ((stations job).filterMap (siteOf? job)).length
    _ ≤ (stations job).length := List.length_filterMap_le _ _
    _ = job.program.reachable.length := by rw [← hmap, List.length_map]
    _ ≤ job.program.instructions.length := List.length_filter_le _ _
    _ ≤ job.program.length := by simpa [Program.length] using hv.tiles.length_le

/-- Sites, calls and instructions correspond one to one. The reachable instructions are lowered in the order of the
    code; the sites are those that the kinds of the instructions ask for, by what is known of the operand stack when
    they are lowered, and lie in the order of the code. Sites, stubs, patches and calls are numbered alike, and the code
    has no other calls. Sites keep 32 bits of an offset and have 32-bit numbers, and the program is short enough for
    both. -/
theorem sites_calls_and_instructions_correspond {name : String} {code : List UInt8} {slots args : Nat}
    {texts : Array String} (hp : Program.ofCode name code slots args texts = .ok job.program)
    (hlen : job.program.length < 2 ^ 32) {pool : CodePool} {m : Method β}
    (h : (compile job Linker.pool pool).1 = .ok m) :
    (m.sites.toList.map (·.pc.toNat)).Pairwise (· < ·) ∧
      (stations job).map Prod.fst = job.program.reachable ∧
      (∀ s ∈ stations job, ∃ kind, job.kind? s.1 s.2.stack.knowns = .ok kind) ∧
      m.sites.toList.map (fun site => (site.pc.toNat, site.kind)) = (stations job).filterMap (siteOf? job) ∧
      Aligned m.code.insts m.code.patches m.sites m.store.stubs ∧ ∀ k < m.sites.size, m.code.slot? k = some k := by
  have hv := Program.verified_of_ofCode hp
  obtain ⟨f, insts, hf, hinsts, rfl⟩ := compile_ok h
  obtain ⟨_, _, _, _, hmap, hkinds, _⟩ := emission_gains hv hf
  obtain ⟨hlog, haligned⟩ := emission_aligned hv hf
  have hsites : f.sites.sites.toList.map (fun site => (site.pc.toNat, site.kind)) =
      (stations job).filterMap (siteOf? job) := by
    have hnat : f.sites.sites.toList.map (fun site => (site.pc.toNat, site.kind)) =
        f.sites.log.map fun e => (e.1.toNat, e.2) := by
      rw [SiteTable.log, List.map_map]
      rfl
    rw [hnat, hlog, List.map_map]
    refine (List.map_congr_left fun e he => ?_).trans (List.map_id _)
    have hlt := entry_lt hv hmap he
    have hback : (UInt32.ofNat e.1).toNat = e.1 := UInt32.toNat_ofNat_of_lt' (Nat.lt_trans hlt hlen)
    simp only [Function.comp, hback, id]
  have hsize : f.sites.sites.size = ((stations job).filterMap (siteOf? job)).length := by
    rw [← hsites, List.length_map, Array.length_toList]
  have hfew : f.sites.sites.size < 2 ^ 32 := by
    rw [hsize]
    exact Nat.lt_of_le_of_lt (length_entries_le hv hmap) hlen
  have hcode : Aligned insts f.buffer.patches f.sites.sites f.sites.store.stubs :=
    (haligned (Nat.le_of_lt hfew)).resolved hinsts
  refine ⟨?_, hmap, hkinds, hsites, hcode, fun k hk => ?_⟩
  · have hpairs := pairwise_entries hv hmap
    rw [← hsites, List.pairwise_map] at hpairs
    exact List.pairwise_map.mpr hpairs
  · obtain ⟨offset, _, _, hpatch⟩ := hcode.called (Array.getElem?_eq_getElem hk)
    have hslot : (f.buffer.patches.map PatchSite.site)[k]? = some k := by rw [Array.getElem?_map, hpatch]; rfl
    have hlt : k < 2 ^ 32 - 1 := by
      have hle := length_entries_le hv hmap
      have hk : k < f.sites.sites.size := hk
      omega
    show (f.buffer.patches.map PatchSite.site)[k]?.filter (· != unpatched) = some k
    rw [hslot, Option.filter_some, if_pos]
    exact bne_iff_ne.mpr (Nat.ne_of_lt hlt)

/-- A function that negates its argument twice and then counts in a slot; what follows its return is never reached. -/
def negating : Job Unit :=
  { program := (Program.ofCode "f" [0x1A, 0, 0, 0x33, 0x33, 0x02, 0x1C, 0, 0, 0x60, 0x20] 1 1 #[]).toOption.getD default
    settings := {}
    atoms := .empty
    factory := fun _ _ => some () }

/-- The second negation is of a Boolean and has no site. -/
theorem sites_calls_and_instructions_correspond_negating :
    ∃ m : Method Unit, (compile negating Linker.pool ⟨100, 0⟩).1 = .ok m ∧
      (m.sites.toList.map (·.pc.toNat)).Pairwise (· < ·) ∧
      m.sites.toList.map (fun site => (site.pc.toNat, site.kind)) = (stations negating).filterMap (siteOf? negating) ∧
      (stations negating).filterMap (siteOf? negating) = [(3, .toBool), (6, .arith .add)] ∧
      Aligned m.code.insts m.code.patches m.sites m.store.stubs ∧ ∀ k < m.sites.size, m.code.slot? k = some k := by
  have hp : Program.ofCode "f" [0x1A, 0, 0, 0x33, 0x33, 0x02, 0x1C, 0, 0, 0x60, 0x20] 1 1 #[] =
    .ok negating.program := rfl
  have hm : ((compile negating Linker.pool ⟨100, 0⟩).1.toOption).isSome = true := by cbv
  have hentries : (stations negating).filterMap (siteOf? negating) = [(3, .toBool), (6, .arith .add)] := by cbv
  obtain ⟨m, hm⟩ := Option.isSome_iff_exists.mp hm
  have hm := Script.ok_of_toOption hm
  obtain ⟨hpairs, _, _, hsites, haligned, hslots⟩ := sites_calls_and_instructions_correspond hp (by decide) hm
  exact ⟨m, hm, hpairs, hsites, hentries, haligned, hslots⟩

end Compilation
end BaselineTier
