/-
  BaselineTier.Proofs.Allocation — the sites that lowering allocates.

  Sites, their stubs, the patches and the calls in the code are filled in at different moments,
  but numbered alike (`Aligned`). Every step of a compilation keeps them so, and notes the sites
  that it allocates for the instruction being lowered (`Emit.Allocates`). Lowering an instruction
  allocates the site that belongs to it, judged by what is known of the operand stack at that
  moment (`lower_allots`). Any factory will do, and any table of names.
-/

import BaselineTier.Proofs.Kinds

namespace BaselineTier

variable {α β γ ι : Type}

/-! ## Tables that are numbered alike -/

/-- Sites, stubs, patches and calls are numbered alike: the site with an index is called from one place, which the patch
    with that index names, and its chain is the stub with that index. -/
structure Aligned (insts : Array (Inst ι)) (patches : Array PatchSite) (sites : Array Site)
    (stubs : Array (Stub β)) : Prop where
  patches_size : patches.size = sites.size
  stubs_size : stubs.size = sites.size
  called : ∀ {k : Nat} {site : Site}, sites[k]? = some site →
    ∃ offset, site.returnOffset = offset + 1 ∧ insts[offset]? = some (.callSite k) ∧ patches[k]? = some ⟨offset, k⟩
  chain : ∀ {k : Nat} {site : Site}, sites[k]? = some site → site.head = k ∧
    ∃ body, stubs[k]? = some ⟨.fallback, body, none⟩
  calls : ∀ {offset patch : Nat}, insts[offset]? = some (.callSite patch) →
    ∃ site, sites[patch]? = some site ∧ site.returnOffset = offset + 1

namespace Aligned

variable {insts : Array (Inst ι)} {patches : Array PatchSite} {sites : Array Site} {stubs : Array (Stub β)}

theorem empty : Aligned (#[] : Array (Inst ι)) #[] #[] (#[] : Array (Stub β)) :=
  ⟨rfl, rfl, fun h => by simp at h, fun h => by simp at h, fun h => by simp at h⟩

/-- An instruction that calls through no site. -/
theorem push (h : Aligned insts patches sites stubs) {i : Inst ι} (hi : ∀ patch, i ≠ .callSite patch) :
    Aligned (insts.push i) patches sites stubs := by
  refine ⟨h.patches_size, h.stubs_size, fun hk => ?_, h.chain, fun {offset patch} hcall => ?_⟩
  · obtain ⟨offset, hreturn, hinst, hpatch⟩ := h.called hk
    exact ⟨offset, hreturn, Draft.getElem?_push_of_some i hinst, hpatch⟩
  · rw [Array.getElem?_push] at hcall
    split at hcall
    · cases hcall
      exact absurd rfl (hi patch)
    · exact h.calls hcall

/-- A call through a new site. -/
theorem pushCall (h : Aligned insts patches sites stubs) (pc : UInt32) (kind : SiteKind) (body : β) :
    Aligned (insts.push (.callSite patches.size)) (patches.push ⟨insts.size, sites.size⟩)
      (sites.push ⟨pc, kind, insts.size + 1, stubs.size⟩) (stubs.push ⟨.fallback, body, none⟩) := by
  have hpatches := h.patches_size
  have hstubs := h.stubs_size
  refine ⟨by simp [hpatches], by simp [hstubs], fun {k site} hk => ?_, fun {k site} hk => ?_,
    fun {offset patch} hcall => ?_⟩
  · rw [Array.getElem?_push] at hk
    split at hk
    · cases hk
      subst k
      exact ⟨insts.size, rfl, by simp [hpatches], by simp [← hpatches]⟩
    · obtain ⟨offset, hreturn, hinst, hpatch⟩ := h.called hk
      exact ⟨offset, hreturn, Draft.getElem?_push_of_some _ hinst, Draft.getElem?_push_of_some _ hpatch⟩
  · rw [Array.getElem?_push] at hk
    split at hk
    · cases hk
      subst k
      exact ⟨hstubs, body, by simp [← hstubs]⟩
    · obtain ⟨hhead, body', hbody⟩ := h.chain hk
      exact ⟨hhead, body', Draft.getElem?_push_of_some _ hbody⟩
  · rw [Array.getElem?_push] at hcall
    split at hcall
    · cases hcall
      exact ⟨⟨pc, kind, insts.size + 1, stubs.size⟩, by simp [hpatches], by subst offset; rfl⟩
    · obtain ⟨site, hsite, hreturn⟩ := h.calls hcall
      exact ⟨site, Draft.getElem?_push_of_some _ hsite, hreturn⟩

/-- Code that has the same calls at the same places. -/
theorem congr (h : Aligned insts patches sites stubs) {ι' : Type} {insts' : Array (Inst ι')}
    (hcalls : ∀ offset patch : Nat,
      insts'[offset]? = some (Inst.callSite patch) ↔ insts[offset]? = some (Inst.callSite patch)) :
    Aligned insts' patches sites stubs := by
  refine ⟨h.patches_size, h.stubs_size, fun hk => ?_, h.chain, fun hcall => h.calls ((hcalls _ _).mp hcall)⟩
  obtain ⟨offset, hreturn, hinst, hpatch⟩ := h.called hk
  exact ⟨offset, hreturn, (hcalls _ _).mpr hinst, hpatch⟩

end Aligned

/-! ## Drafts that gain sites -/

namespace Draft

def Aligned (d : Draft β) : Prop :=
  BaselineTier.Aligned d.buffer.insts d.buffer.patches d.sites.sites d.sites.store.stubs

/-- The second draft continues the first, and has these sites more, whose stubs the factory has made. As long as 32 bits
    number the sites, they are aligned. -/
structure Gains (d : Draft β) (factory : Factory β) (entries : List (UInt32 × SiteKind)) (d' : Draft β) : Prop where
  aligned : d'.sites.sites.size ≤ 2 ^ 32 → d.Aligned → d'.Aligned
  patched : d.Patched → d'.Patched
  log : d'.sites.log = d.sites.log ++ entries
  stubs : d'.sites.store.size = d.sites.store.size + entries.length
  made : ∀ stub ∈ d'.sites.store.stubs, stub ∈ d.sites.store.stubs ∨ ∃ n kind, factory n kind = some stub.body
  insts : ∀ {k : Nat} {i : Inst Label}, d.buffer.insts[k]? = some i → d'.buffer.insts[k]? = some i

variable {factory : Factory β} {d d' d'' : Draft β} {es es' : List (UInt32 × SiteKind)}

/-- Code and sites are the same. -/
theorem gains_same (hinsts : d'.buffer.insts = d.buffer.insts) (hpatches : d'.buffer.patches = d.buffer.patches)
    (hsites : d'.sites = d.sites) : d.Gains factory [] d' := by
  refine ⟨fun _ h => ?_, fun h => ?_, by rw [hsites, List.append_nil], by rw [hsites]; rfl,
    fun stub hstub => .inl (hsites ▸ hstub), fun h => hinsts ▸ h⟩
  · unfold Aligned at h ⊢
    rw [hinsts, hpatches, hsites]
    exact h
  · unfold Patched at h ⊢
    rw [hpatches, hsites]
    exact h

theorem Gains.refl (factory : Factory β) (d : Draft β) : d.Gains factory [] d := gains_same rfl rfl rfl

theorem Gains.size (h : d.Gains factory es d') : d'.sites.sites.size = d.sites.sites.size + es.length := by
  rw [← SiteTable.length_log, h.log, List.length_append, SiteTable.length_log]

theorem Gains.trans (h : d.Gains factory es d') (h' : d'.Gains factory es' d'') : d.Gains factory (es ++ es') d'' := by
  refine ⟨fun hfew ha => h'.aligned hfew (h.aligned ?_ ha), fun hp => h'.patched (h.patched hp), ?_, ?_,
    fun stub hstub => (h'.made stub hstub).elim (h.made stub) .inr, fun hi => h'.insts (h.insts hi)⟩
  · have := h'.size
    omega
  · rw [h'.log, h.log, List.append_assoc]
  · rw [h'.stubs, h.stubs, List.length_append, Nat.add_assoc]

theorem gains_emit {i : Inst Label} (hi : ∀ patch, i ≠ .callSite patch) {buffer : CodeBuffer}
    (h : d.buffer.emit i = .ok buffer) :
    d.Gains factory [] { d with buffer } := by
  rw [(CodeBuffer.emit_ok h).2]
  exact ⟨fun _ ha => BaselineTier.Aligned.push ha hi, fun hp => hp, by rw [List.append_nil], rfl,
    fun _ hstub => .inl hstub, fun hk => getElem?_push_of_some i hk⟩

theorem gains_emitMoves {ms : List Move} {buffer : CodeBuffer} (h : d.buffer.emitMoves ms = .ok buffer) :
    d.Gains factory [] { d with buffer } := by
  induction ms generalizing d with
  | nil =>
    cases h
    exact .refl factory d
  | cons m ms ih =>
    rw [CodeBuffer.emitMoves, List.foldlM_cons] at h
    cases he : d.buffer.emit (.move m) with
    | error e => rw [he] at h; cases h
    | ok b =>
      rw [he] at h
      have hrest : Gains { d with buffer := b } factory [] { d with buffer } := ih (d := { d with buffer := b }) h
      exact (gains_emit (i := .move m) (fun _ h => by cases h) he).trans hrest

theorem Sited.gains {kind : SiteKind} {body : β} (h : d.Sited kind body d') {n : Nat}
    (hbody : factory n kind = some body) :
    d.Gains factory [(UInt32.ofNat d.pc, kind)] d' := by
  refine ⟨fun hfew ha => ?_, h.patched, h.log, ?_, fun stub hstub => ?_, fun hk => h.grows.insts hk⟩
  rotate_left
  · rw [StubStore.size, h.stubs, Array.size_push]
    rfl
  · rw [h.stubs] at hstub
    rcases Array.mem_push.mp hstub with hstub | rfl
    · exact .inl hstub
    · exact .inr ⟨n, kind, hbody⟩
  have hlt : d.sites.sites.size < 2 ^ 32 := by
    rw [h.sites, Array.size_modify, Array.size_push] at hfew
    exact hfew
  have hstubs := ha.stubs_size
  unfold Aligned
  rw [h.insts, h.patches, h.sites_of_lt hlt, h.stubs, Nat.mod_eq_of_lt hlt, Nat.mod_eq_of_lt (by omega)]
  exact BaselineTier.Aligned.pushCall ha _ kind body

end Draft

/-! ## Steps that allocate sites -/

namespace Emit

open Draft

/-- If the step succeeds, the sites that it has allocated for the instruction being lowered are of these kinds. -/
def Allocates (x : Emit β α) (factory : Factory β) (ks : List SiteKind) : Prop :=
  ∀ (d : Draft β) (a : α) (d' : Draft β), x d = .ok a d' → d'.pc = d.pc ∧
    d.Gains factory (ks.map (UInt32.ofNat d.pc, ·)) d'

variable {factory : Factory β} {x : Emit β α} {f : α → Emit β γ} {ks ks' : List SiteKind}

theorem Allocates.bind (hx : x.Allocates factory ks) (hf : ∀ a, (f a).Allocates factory ks') :
    Allocates (x >>= f) factory (ks ++ ks') := by
  intro d b d'' h
  obtain ⟨a, d', hd', hd''⟩ := bind_ok_iff.mp h
  obtain ⟨hpc, hgains⟩ := hx d a d' hd'
  obtain ⟨hpc', hgains'⟩ := hf a d' b d'' hd''
  rw [hpc] at hgains'
  exact ⟨hpc'.trans hpc, by rw [List.map_append]; exact hgains.trans hgains'⟩

theorem Allocates.gains (hx : x.Allocates factory []) {d d' : Draft β} {a : α} (h : x d = .ok a d') :
    d.Gains factory [] d' := (hx d a d' h).2

/-- The step leaves the draft alone. -/
theorem allocates_of_same (h : ∀ {d a d'}, x d = .ok a d' → d' = d) : x.Allocates factory [] := by
  intro d a d' hx
  rw [h hx]
  exact ⟨rfl, .refl factory d⟩

theorem pure_allocates (a : α) : (pure a : Emit β α).Allocates factory [] := allocates_of_same fun h => by cases h; rfl

theorem get_allocates : (get : Emit β (Draft β)).Allocates factory [] := allocates_of_same fun h => by cases h; rfl

/-- A change to something else than code and sites. -/
theorem modify_allocates (g : Draft β → Draft β)
    (hg : ∀ d, (g d).pc = d.pc ∧ (g d).buffer.insts = d.buffer.insts ∧ (g d).buffer.patches = d.buffer.patches ∧
      (g d).sites = d.sites) :
    (modify g : Emit β Unit).Allocates factory [] := by
  intro d _ d' h
  cases h
  obtain ⟨hpc, hinsts, hpatches, hsites⟩ := hg d
  exact ⟨hpc, gains_same hinsts hpatches hsites⟩

theorem throw_allocates (e : Fault CompileError) : (throw e : Emit β α).Allocates factory ks := nofun

theorem guarded_allocates (r : Except Breach α) : (guarded r : Emit β α).Allocates factory [] := by
  cases r with
  | ok a => exact pure_allocates a
  | error b => exact throw_allocates _

theorem assume_allocates (condition : Bool) (b : Breach) :
    (Emit.assume condition b : Emit β Unit).Allocates factory [] := by
  cases condition with
  | true => exact pure_allocates ()
  | false => exact throw_allocates _

/-! ## Code -/

theorem inst_allocates (i : Inst Label) (hi : ∀ patch, i ≠ .callSite patch) :
    (inst i : Emit β Unit).Allocates factory [] := by
  intro d _ d' h
  obtain ⟨buffer, hb, rfl⟩ := of_inst h
  exact ⟨rfl, gains_emit hi hb⟩

theorem moves_allocates (ms : List Move) : (moves ms : Emit β Unit).Allocates factory [] := by
  intro d _ d' h
  obtain ⟨buffer, hb, rfl⟩ := of_moves h
  exact ⟨rfl, gains_emitMoves hb⟩

theorem move_allocates (m : Move) : (move m : Emit β Unit).Allocates factory [] :=
  inst_allocates (.move m) fun _ => nofun

theorem newLabel_allocates : (newLabel : Emit β Label).Allocates factory [] := by
  intro d l d' h
  cases h
  exact ⟨rfl, gains_same rfl rfl rfl⟩

theorem bind_label_allocates (l : Label) : (Emit.bind l : Emit β Unit).Allocates factory [] := by
  intro d _ d' h
  obtain ⟨buffer, hb, rfl⟩ := of_bind h
  unfold CodeBuffer.bind at hb
  split at hb
  · cases hb
  · cases hb
  · cases hb
    exact ⟨rfl, gains_same rfl rfl rfl⟩

theorem label_allocates (job : Job β) (offset : Nat) : (label job offset).Allocates factory [] :=
  (assume_allocates _ _).bind fun _ => pure_allocates _

theorem exitLabel_allocates : (exitLabel : Emit β Label).Allocates factory [] := by
  refine get_allocates.bind fun d => ?_
  split
  · exact pure_allocates _
  · exact throw_allocates _

/-! ## The picture -/

theorem depth_allocates : (depth : Emit β Nat).Allocates factory [] := get_allocates.bind fun _ => pure_allocates _

theorem adopt_allocates (r : List Move × VirtualStack) : (adopt r : Emit β Unit).Allocates factory [] := by
  intro d _ d' h
  obtain ⟨buffer, hb, rfl⟩ := of_adopt h
  exact ⟨rfl, (gains_emitMoves hb).trans (gains_same rfl rfl rfl)⟩

theorem flushBelow_allocates (keep : Nat) : (flushBelow keep : Emit β Unit).Allocates factory [] :=
  get_allocates.bind fun _ => adopt_allocates _

theorem flushAliases_allocates (place : Place) : (flushAliases place : Emit β Unit).Allocates factory [] :=
  get_allocates.bind fun _ => adopt_allocates _

theorem push_allocates (e : Entry) : (push e : Emit β Unit).Allocates factory [] :=
  get_allocates.bind fun _ => adopt_allocates _

theorem pushScratch_allocates : (pushScratch : Emit β Unit).Allocates factory [] :=
  get_allocates.bind fun _ => adopt_allocates _

theorem peek_allocates (n : Nat) : (peek n : Emit β Entry).Allocates factory [] :=
  get_allocates.bind fun _ => guarded_allocates _

/-- An operation that the picture may refuse. -/
theorem adopt_guarded_allocates (op : VirtualStack → Except Breach (List Move × VirtualStack)) :
    (do adopt (← guarded (op (← get).stack)) : Emit β Unit).Allocates factory [] :=
  get_allocates.bind fun _ => (guarded_allocates _).bind adopt_allocates

theorem pushSlot_allocates (job : Job β) (index : Nat) : (pushSlot job index).Allocates factory [] :=
  adopt_guarded_allocates (·.pushSlot job.program.slots index)

theorem pushArg_allocates (job : Job β) (index : Nat) : (pushArg job index).Allocates factory [] :=
  adopt_guarded_allocates (·.pushArg job.program.args index)

theorem popInto_allocates (reg : Reg) : (popInto reg : Emit β Unit).Allocates factory [] :=
  adopt_guarded_allocates (·.popInto reg)

theorem drop_allocates (n : Nat) : (drop n : Emit β Unit).Allocates factory [] := adopt_guarded_allocates (·.drop n)

theorem popRegisters_allocates (uses : Nat) : (popRegisters uses : Emit β Unit).Allocates factory [] :=
  adopt_guarded_allocates (·.popRegisters uses)

theorem storeTop_allocates (dst : Address) : (storeTop dst : Emit β Unit).Allocates factory [] :=
  get_allocates.bind fun _ => (adopt_allocates _).bind fun _ => (peek_allocates 1).bind fun _ => moves_allocates _

theorem stageTop_allocates : (stageTop : Emit β Unit).Allocates factory [] :=
  (storeTop_allocates _).bind fun _ => drop_allocates 1

/-! ## Sites -/

theorem site_allocates (job : Job β) (kind : SiteKind) : (site job kind).Allocates job.factory [kind] := by
  intro d _ d' h
  cases hbody : job.factory d.sites.requests kind with
  | none =>
    obtain ⟨e, d₁, hd₁⟩ := site_unmade hbody
    rw [hd₁] at h
    cases h
  | some body =>
    obtain ⟨_, hsited⟩ := (site_refused job kind hbody).ok h
    exact ⟨hsited.pc, hsited.gains hbody⟩

end Emit

/-! ## Routines -/

namespace Lowering

open Emit Draft

variable {job : Job β} {i : Instruction} {d d' : Draft β} {b : α}

theorem u16_allocates : (u16 i : Emit β UInt16).Allocates job.factory [] := guarded_allocates _

theorem target_allocates : (target job i).Allocates job.factory [] :=
  (guarded_allocates _).bind fun _ => label_allocates job _

/-- What was asked for is there. -/
theorem of_guarded {r : Except Breach γ} {k : γ → Emit β α} (h : (guarded r >>= k) d = .ok b d') :
    ∃ a, r = .ok a ∧ k a d = .ok b d' := by
  obtain ⟨a, d₁, ha, h⟩ := bind_ok_iff.mp h
  cases r with
  | error e => cases ha
  | ok a' =>
    cases ha
    exact ⟨a, rfl, h⟩

/-- The place that is jumped to has a label, and finding it changes nothing. -/
theorem of_target {k : Label → Emit β α} (h : (target job i >>= k) d = .ok b d') : ∃ l, k l d = .ok b d' := by
  obtain ⟨l, d₁, hl, h⟩ := bind_ok_iff.mp h
  obtain ⟨offset, _, hl⟩ := of_guarded hl
  unfold label Emit.assume at hl
  split at hl <;> cases hl
  exact ⟨_, h⟩

theorem of_u16 {k : UInt16 → Emit β α} (h : (u16 i >>= k) d = .ok b d') : ∃ n, i.u16? = some n ∧ k n d = .ok b d' := by
  obtain ⟨n, hn, h⟩ := of_guarded h
  cases hu : i.u16? with
  | none => rw [hu] at hn; cases hn
  | some n' =>
    rw [hu] at hn
    cases hn
    exact ⟨n, rfl, h⟩

/-- A name that was looked up is known. -/
theorem of_name {k : Atom → Emit β α} (h : (do k (← Emit.atom job (← u32 i))) d = .ok b d') :
    ∃ atom, job.name i = .ok atom ∧ k atom d = .ok b d' := by
  obtain ⟨index, hindex, h⟩ := of_guarded h
  obtain ⟨atom, d₁, hatom, h⟩ := bind_ok_iff.mp h
  cases hu : i.u32? with
  | none => rw [hu] at hindex; cases hindex
  | some index' =>
    rw [hu] at hindex
    cases hindex
    rw [atom_eq] at hatom
    split at hatom <;> cases hatom
    exact ⟨atom, by rw [Job.name, hu]; assumption, h⟩

/-- The entry that was looked at is the top one. -/
theorem of_peek {k : Entry → Emit β α} (h : (peek 1 >>= k) d = .ok b d') :
    ∃ top, d.stack.knowns.getLast? = some top.known ∧ k top d = .ok b d' := by
  obtain ⟨top, d₁, htop, h⟩ := bind_ok_iff.mp h
  rw [peek, bind_eq (get_eq d)] at htop
  cases he : d.stack.entries.reverse[0]? with
  | none =>
    simp only [VirtualStack.peek, Nat.le_refl, if_true, Nat.sub_self, he] at htop
    cases htop
  | some e =>
    simp only [VirtualStack.peek, Nat.le_refl, if_true, Nat.sub_self, he] at htop
    cases htop
    refine ⟨top, ?_, h⟩
    rw [← List.head?_eq_getElem?, List.head?_reverse] at he
    rw [VirtualStack.knowns, List.getLast?_map, he]
    rfl

/-! ## Routines without a site -/

theorem popN_allocates : (popN job i).Allocates job.factory [] := u16_allocates.bind fun _ => drop_allocates _

theorem dup_allocates : (dup job i).Allocates job.factory [] :=
  (peek_allocates 1).bind fun _ => (popRegisters_allocates 1).bind fun _ => (move_allocates _).bind fun _ =>
    (push_allocates _).bind fun _ => push_allocates _

theorem dup2_allocates : (dup2 job i).Allocates job.factory [] :=
  (flushBelow_allocates 0).bind fun _ => depth_allocates.bind fun _ => (assume_allocates _ _).bind fun _ =>
    (move_allocates _).bind fun _ => (move_allocates _).bind fun _ => (push_allocates _).bind fun _ => push_allocates _

theorem swap_allocates : (swap job i).Allocates job.factory [] :=
  (popRegisters_allocates 2).bind fun _ => (push_allocates _).bind fun _ => push_allocates _

theorem literal_allocates : (literal job i).Allocates job.factory [] := by
  unfold literal
  split
  · exact push_allocates _
  · exact throw_allocates _

theorem getLocal_allocates : (getLocal job i).Allocates job.factory [] := by
  refine u16_allocates.bind fun index => ?_
  simp only
  split
  · exact pushSlot_allocates job _
  · exact (flushBelow_allocates 0).bind fun _ => (move_allocates _).bind fun _ => push_allocates _

theorem setLocal_allocates : (setLocal job i).Allocates job.factory [] :=
  u16_allocates.bind fun _ => (flushAliases_allocates _).bind fun _ => storeTop_allocates _

theorem getArg_allocates : (getArg job i).Allocates job.factory [] :=
  u16_allocates.bind fun _ => pushArg_allocates job _

theorem setArg_allocates : (setArg job i).Allocates job.factory [] :=
  u16_allocates.bind fun _ => (flushAliases_allocates _).bind fun _ => storeTop_allocates _

theorem goto_allocates : (goto job i).Allocates job.factory [] :=
  target_allocates.bind fun label => (flushBelow_allocates 0).bind fun _ => inst_allocates (.jump label) fun _ => nofun

theorem leave_allocates : (leave job i).Allocates job.factory [] := by
  unfold leave
  split
  · exact exitLabel_allocates.bind fun label => inst_allocates (.jump label) fun _ => nofun
  · exact pure_allocates ()

theorem ret_allocates : (ret job i).Allocates job.factory [] :=
  (popInto_allocates _).bind fun _ => depth_allocates.bind fun _ => (assume_allocates _ _).bind fun _ => leave_allocates

theorem stop_allocates : (stop job i).Allocates job.factory [] :=
  depth_allocates.bind fun _ => (assume_allocates _ _).bind fun _ => (move_allocates _).bind fun _ => leave_allocates

/-! ## Routines with a site -/

/-- Operands are taken, the site is called, and the result is pushed. -/
theorem operator_allocates (uses : Nat) (kind : SiteKind) (e : Entry) :
    (do popRegisters uses; site job kind; push e).Allocates job.factory [kind] :=
  (popRegisters_allocates uses).bind fun _ => (site_allocates job kind).bind fun _ => push_allocates e

theorem pos_allocates : (pos job i).Allocates job.factory [.toNumber] :=
  (popRegisters_allocates 1).bind fun _ => newLabel_allocates.bind fun done =>
    (inst_allocates (.branchNumber .r0 done) fun _ => nofun).bind fun _ => (site_allocates job .toNumber).bind fun _ =>
      (bind_label_allocates _).bind fun _ => push_allocates _

theorem setElem_allocates : (setElem job i).Allocates job.factory [.setElem] :=
  stageTop_allocates.bind fun _ => (popRegisters_allocates 2).bind fun _ => (site_allocates job .setElem).bind fun _ =>
    pushScratch_allocates

/-- Arithmetic on a slot is arithmetic between reading and writing it. -/
theorem stepLocal_allocates (offset : Nat) (slot : UInt16) (op : Opcode) :
    (do getLocal job ⟨offset, .getLocal, .u16 slot, 0⟩
        literal job ⟨offset, .pushOne, .none, 0⟩
        arith job ⟨offset, op, .none, 0⟩
        setLocal job ⟨offset, .setLocal, .u16 slot, 0⟩).Allocates job.factory [.arith op] :=
  getLocal_allocates.bind fun _ => literal_allocates.bind fun _ => (operator_allocates 2 (.arith op) _).bind fun _ =>
    setLocal_allocates

/-- A test has a site unless what it tests is known to be a Boolean. -/
theorem test_allocates (known : Bool) {k : Emit β Unit} (hk : k.Allocates job.factory []) :
    (do unless known do site job .toBool
        k).Allocates job.factory (if known then [] else [.toBool]) := by
  cases known with
  | true => exact hk
  | false => exact (site_allocates job .toBool).bind fun _ => hk

/-! ## Every instruction -/

def Allots (job : Job β) (i : Instruction) (d d' : Draft β) : Prop :=
  ∃ kind, job.kind? i d.stack.knowns = .ok kind ∧ d'.pc = d.pc ∧
    d.Gains job.factory (kind.toList.map (UInt32.ofNat d.pc, ·)) d'

theorem allots_of_allocates {x : Emit β Unit} {kind : Option SiteKind} (hkind : job.kind? i d.stack.knowns = .ok kind)
    (hx : x.Allocates job.factory kind.toList) (h : x d = .ok () d') : Allots job i d d' :=
  ⟨kind, hkind, hx d () d' h⟩

theorem allots_of_routine {r : Lowering β} {kind : Option SiteKind} (hr : routine? i.opcode = some r)
    (hkind : job.kind? i d.stack.knowns = .ok kind) (hx : (r job i).Allocates job.factory kind.toList)
    (h : lower job i d = .ok () d') :
    Allots job i d d' := by
  rw [lower_eq hr] at h
  exact allots_of_allocates hkind hx h

/-- With the top entry looked at, the site of a test is settled. -/
theorem allots_of_test {x : Emit β Unit} {top : Entry} (htest : i.opcode.isTest = true)
    (htop : d.stack.knowns.getLast? = some top.known)
    (hx : x.Allocates job.factory (if top.isBoolean then [] else [.toBool])) (h : x d = .ok () d') :
    Allots job i d d' := by
  have hpresumes : i.presumes d.stack.knowns = top.isBoolean := Instruction.presumes_of_isTest htest htop
  have hkind : job.kind? i d.stack.knowns = .ok (if top.isBoolean then none else some .toBool) := by
    rw [← hpresumes]
    unfold Job.kind?
    generalize i.opcode = op at htest
    cases op <;> first | rfl | cases htest
  refine allots_of_allocates hkind ?_ h
  cases hb : top.isBoolean <;> rw [hb] at hx <;> exact hx

theorem logicalNot_allots (hop : i.opcode = .logicalNot) (h : logicalNot job i d = .ok () d') : Allots job i d d' := by
  obtain ⟨top, htop, h⟩ := of_peek h
  refine allots_of_test (by rw [hop]; rfl) htop ((popRegisters_allocates 1).bind fun _ => ?_) h
  exact test_allocates top.isBoolean ((inst_allocates (.negate .r0) fun _ => nofun).bind fun _ => push_allocates _)

theorem branch_allots (hop : i.opcode = .ifEq ∨ i.opcode = .ifNe) (h : branch job i d = .ok () d') :
    Allots job i d d' := by
  obtain ⟨label, h⟩ := of_target h
  obtain ⟨top, htop, h⟩ := of_peek h
  refine allots_of_test (by rcases hop with hop | hop <;> rw [hop] <;> rfl) htop
    ((popRegisters_allocates 1).bind fun _ => ?_) h
  exact test_allocates top.isBoolean (inst_allocates (.branch .r0 _ label) fun _ => nofun)

theorem shortCircuit_allots (hop : i.opcode = .andJump ∨ i.opcode = .orJump) (h : shortCircuit job i d = .ok () d') :
    Allots job i d d' := by
  obtain ⟨label, h⟩ := of_target h
  obtain ⟨top, htop, h⟩ := of_peek h
  refine allots_of_test (by rcases hop with hop | hop <;> rw [hop] <;> rfl) htop ?_ h
  refine (flushBelow_allocates 0).bind fun _ => depth_allocates.bind fun _ => (move_allocates _).bind fun _ => ?_
  exact test_allocates top.isBoolean (inst_allocates (.branch .r0 _ label) fun _ => nofun)

/-- Lowering an instruction allocates the site that belongs to it. -/
theorem lower_allots (h : lower job i d = .ok () d') : Allots job i d d' := by
  obtain ⟨offset, op, operand, size⟩ := i
  cases op
  case debugger | throwValue | lambda | arguments | enterWith | leaveWith => cases h
  case nop | loopHead => exact allots_of_routine rfl rfl (pure_allocates ()) h
  case pop => exact allots_of_routine rfl rfl (drop_allocates 1) h
  case popN => exact allots_of_routine rfl rfl popN_allocates h
  case dup => exact allots_of_routine rfl rfl dup_allocates h
  case dup2 => exact allots_of_routine rfl rfl dup2_allocates h
  case swap => exact allots_of_routine rfl rfl swap_allocates h
  case pushUndefined | pushNull | pushTrue | pushFalse | pushZero | pushOne | pushHole | pushInt8 | pushInt32 |
    pushDouble =>
    exact allots_of_routine rfl rfl literal_allocates h
  case pushString =>
    obtain ⟨atom, hname, h⟩ := of_name h
    exact allots_of_allocates (by rw [Job.kind?, hname]; rfl) (push_allocates _) h
  case getLocal => exact allots_of_routine rfl rfl getLocal_allocates h
  case setLocal => exact allots_of_routine rfl rfl setLocal_allocates h
  case getArg => exact allots_of_routine rfl rfl getArg_allocates h
  case setArg => exact allots_of_routine rfl rfl setArg_allocates h
  case incLocal =>
    cases operand <;> try cases h
    rw [lower_incLocal] at h
    exact allots_of_allocates rfl (stepLocal_allocates offset _ .add) h
  case decLocal =>
    cases operand <;> try cases h
    rw [lower_decLocal] at h
    exact allots_of_allocates rfl (stepLocal_allocates offset _ .sub) h
  case add | sub | mul | div | mod | bitAnd | bitOr | bitXor | lsh | rsh | ursh | eq | ne | strictEq | strictNe | lt |
    le | gt | ge =>
    exact allots_of_routine rfl rfl (operator_allocates 2 _ _) h
  case neg | bitNot => exact allots_of_routine rfl rfl (operator_allocates 1 _ _) h
  case pos => exact allots_of_routine rfl rfl pos_allocates h
  case logicalNot => exact logicalNot_allots rfl h
  case getName | getGlobal =>
    obtain ⟨atom, hname, h⟩ := of_name h
    refine allots_of_allocates (by rw [Job.kind?, hname]; rfl) ?_ h
    exact (flushBelow_allocates 0).bind fun _ => (site_allocates job _).bind fun _ => push_allocates _
  case setName | setGlobal =>
    obtain ⟨atom, hname, h⟩ := of_name h
    refine allots_of_allocates (by rw [Job.kind?, hname]; rfl) ?_ h
    exact stageTop_allocates.bind fun _ => (flushBelow_allocates 0).bind fun _ => (site_allocates job _).bind fun _ =>
      pushScratch_allocates
  case getProp =>
    obtain ⟨atom, hname, h⟩ := of_name h
    exact allots_of_allocates (by rw [Job.kind?, hname]; rfl) (operator_allocates 1 _ _) h
  case setProp =>
    obtain ⟨atom, hname, h⟩ := of_name h
    refine allots_of_allocates (by rw [Job.kind?, hname]; rfl) ?_ h
    exact stageTop_allocates.bind fun _ => (popRegisters_allocates 1).bind fun _ => (site_allocates job _).bind fun _ =>
      pushScratch_allocates
  case getElem => exact allots_of_routine rfl rfl (operator_allocates 2 _ _) h
  case setElem => exact allots_of_routine rfl rfl setElem_allocates h
  case call =>
    obtain ⟨argc, hargc, h⟩ := of_u16 h
    refine allots_of_allocates (by rw [Job.kind?, hargc]) ?_ h
    exact (flushBelow_allocates 0).bind fun _ => (inst_allocates (.setArgc argc.toNat) fun _ => nofun).bind fun _ =>
      (site_allocates job _).bind fun _ =>
      (drop_allocates _).bind fun _ => push_allocates _
  case goto => exact allots_of_routine rfl rfl goto_allocates h
  case ifEq => exact branch_allots (.inl rfl) h
  case ifNe => exact branch_allots (.inr rfl) h
  case andJump => exact shortCircuit_allots (.inl rfl) h
  case orJump => exact shortCircuit_allots (.inr rfl) h
  case ret => exact allots_of_routine rfl rfl ret_allocates h
  case stop => exact allots_of_routine rfl rfl stop_allocates h

end Lowering

end BaselineTier
