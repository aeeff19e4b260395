/-
  BaselineTier.Proofs.Arrival — the code that comes before an instruction's own.

  On the way to an instruction, entries are written out (`Draft.Flushes`). Where control
  meets, everything is, and the declared depth is taken over. Either way the machine gets from
  the code before to the code of the instruction with a view that mirrors the same evaluation
  (`Draft.Arrives`), and no assumption of the compiler is broken (`arrive_ok`).
-/

import BaselineTier.Compilation
import BaselineTier.Proofs.Emulation

namespace BaselineTier

variable {σ : Type}

namespace VirtualStack

theorem knowns_resize (s : VirtualStack) (depth : Nat) : (s.resize depth).knowns = Types.resize s.knowns depth := by
  simp only [knowns, resize, Types.resize, List.map_append, List.map_take, List.map_map, List.length_map]
  congr 1
  refine List.eq_replicate_iff.mpr ⟨by simp [VirtualStack.depth], fun known hk => ?_⟩
  obtain ⟨index, _, rfl⟩ := List.mem_map.mp hk
  rfl

theorem resize_self (s : VirtualStack) : s.resize s.depth = s := by
  simp [resize, depth]

end VirtualStack

/-! ## Writing out -/

namespace Draft

structure Flushes (d d' : Draft (StubBody σ)) : Prop where
  good : d'.Good
  knowns : d'.stack.knowns = d.stack.knowns
  moves : ∃ ms : List Move, d.Adds (ms.map .move) d' ∧ ∀ {v vs}, d.stack.Stands v vs →
    ∃ v', v.performAll ms = some v' ∧ d'.stack.Stands v' vs ∧ v' = { v with operands := v'.operands }

variable {job : Job (StubBody σ)} {d d' f : Draft (StubBody σ)} {c : Config σ} {v : View} {e : Evaluation}

theorem Flushes.refl (hg : d.Good) : d.Flushes d :=
  ⟨hg, rfl, [], ⟨by simp, rfl, rfl, rfl, rfl, rfl, rfl⟩, fun {v _} hst => ⟨v, rfl, hst, rfl⟩⟩

theorem Flushes.depth (h : d.Flushes d') : d'.stack.depth = d.stack.depth := by
  rw [← VirtualStack.length_knowns, h.knowns, VirtualStack.length_knowns]

theorem Flushes.leads {host : Host σ} {scripts : Scripts σ} {lower : ValueStack} {argc : Nat} {w : World σ}
    (h : d.Flushes d') (hb : Begins job d d' f c v e) :
    ∃ v', Config.Leads host scripts (c.place lower d.buffer.offset argc v w)
      (c.place lower d'.buffer.offset argc v' w) ∧
      Mirrors job d' v' e := by
  obtain ⟨ms, hadds, hrun⟩ := h.moves
  obtain ⟨v', hperf, hst, hsame⟩ := hrun hb.mirrors.stands
  exact ⟨v', hadds.leads hb.grows hb.installed hperf, hb.mirrors.same hst (by rw [hsame]) (by rw [hsame]) rfl⟩

end Draft

namespace Compilation

open Draft Emit

variable {job : Job (StubBody σ)} {d : Draft (StubBody σ)}

theorem flushAll_flushes (hg : d.Good) (hroom : d.stack.depth < 2 ^ 30) :
    ∃ d', flushBelow 0 d = .ok () d' ∧ d.Flushes d' ∧ d'.stack.Settled := by
  obtain ⟨d', ms, hd', hadds, hgood, hset, _, hknowns, hrun⟩ := flushAll_ok hg hroom
  refine ⟨d', hd', ⟨hgood, hknowns, ms, hadds, fun hst => ?_⟩, hset⟩
  obtain ⟨hperf, hst'⟩ := hrun hst
  exact ⟨_, hperf, hst', rfl⟩

theorem settle_ok (job : Job (StubBody σ)) (hg : d.Good) (hroom : d.stack.depth < 2 ^ 30) :
    ∃ d', settle job d = .ok () d' ∧ d.Flushes d' := by
  by_cases hdebug : job.settings.debugMode = true
  · obtain ⟨d', hd', hflush, _⟩ := flushAll_flushes hg hroom
    exact ⟨d', by rw [settle, if_pos hdebug]; exact hd', hflush⟩
  · by_cases hdeep : 2 < d.stack.depth
    · obtain ⟨d', ms, hd', hadds, hgood, _, hknowns, hrun⟩ := flushBelow_ok hg hroom 2
      refine ⟨d', ?_, hgood, hknowns, ms, hadds, hrun⟩
      rw [settle, if_neg hdebug, bind_eq (depth_eq d), if_pos hdeep]
      exact hd'
    · refine ⟨d, ?_, .refl hg⟩
      rw [settle, if_neg hdebug, bind_eq (depth_eq d), if_neg hdeep]
      rfl

/-- Everything is written out, the declared depth is taken over, and the label is bound. -/
theorem merge_ok {job : Job (StubBody σ)} {offset depth : Nat} {fell : Bool} (hg : d.Good)
    (hroom : d.stack.depth < 2 ^ 30) (hlt : offset < job.program.length) (hfell : fell = true → d.stack.depth = depth)
    (hfree : d.buffer.labels[(labelOf offset).index]? = some none) :
    ∃ d₁ d', merge job offset depth fell d = .ok () d' ∧ flushBelow 0 d = .ok () d₁ ∧ d.Flushes d₁ ∧ d₁.stack.Settled ∧
      Binds { d₁ with stack := d₁.stack.resize depth, buffer := { d₁.buffer with height := depth } }
        (labelOf offset) d' := by
  obtain ⟨d₁, hd₁, hflush, hset⟩ := flushAll_flushes hg hroom
  obtain ⟨ms, hadds, _⟩ := hflush.moves
  let d₂ : Draft (StubBody σ) :=
    { d₁ with stack := d₁.stack.resize depth, buffer := { d₁.buffer with height := depth } }
  have hfree₂ : d₂.buffer.labels[(labelOf offset).index]? = some none := by
    show d₁.buffer.labels[(labelOf offset).index]? = some none
    rw [hadds.labels, hfree]
  obtain ⟨d', hd', hbinds⟩ := bind_label_ok hfree₂
  have hbind : (do Emit.bind (← label job offset) : Emit (StubBody σ) Unit) d₂ = .ok () d' := by
    rw [bind_eq (label_ok hlt), hd']
  refine ⟨d₁, d', ?_, hd₁, hflush, hset, hbinds⟩
  rw [merge, bind_eq hd₁]
  cases fell with
  | false => exact hbind
  | true =>
    have hdepth : d₁.stack.depth = depth := hflush.depth.trans (hfell rfl)
    have hheight : d₁.buffer.height = depth := by rw [hflush.good.height, hset.spilledCount, hdepth]
    simp only [if_true]
    rw [bind_eq (depth_eq d₁), bind_eq (assume_ok (decide_eq_true hdepth) _ d₁), bind_eq (get_eq d₁),
      bind_eq (assume_ok (decide_eq_true hheight) _ d₁)]
    exact hbind

end Compilation

/-! ## Arriving at an instruction -/

/-- The second draft is the first with the code that comes before an instruction's own. Control that comes from above
    runs through it; control that comes from elsewhere, with everything written out, enters it at the label. -/
structure Draft.Arrives (job : Job (StubBody σ)) (offset : Nat) (info : StackMap.Info)
    (d d' : Draft (StubBody σ)) : Prop where
  grows : d.Grows d'
  labels : ∀ {k : Nat}, k ≠ (Emit.labelOf offset).index → d'.buffer.labels[k]? = d.buffer.labels[k]?
  targets : ∀ {k : Nat} {i : Inst Label} {l : Label}, d'.buffer.insts[k]? = some i → i.target? = some l →
    d.buffer.insts[k]? = some i
  sites : d'.sites = d.sites
  phase : d'.phase = d.phase
  good : d'.Good
  depth : d'.stack.depth = info.depth
  knowns : d'.stack.knowns = if info.jumpTarget then Types.resize d.stack.knowns info.depth else d.stack.knowns
  fell : ∀ {f c v e host scripts lower argc w}, Begins job d d' f c v e → d.stack.depth = info.depth →
    ∃ v', Config.Leads host scripts (c.place lower d.buffer.offset argc v w)
      (c.place lower d'.buffer.offset argc v' w) ∧
      Mirrors job d' v' e
  met : info.jumpTarget = true → ∃ pc, d'.buffer.labelOffset? (Emit.labelOf offset) = some pc ∧
    ∀ {d₀ f : Draft (StubBody σ)} {c v e host scripts lower argc w}, d'.Grows f →
      f.Installed (Config.current c).method →
      Mirrors job d₀ v e → d₀.stack.Settled → d₀.stack.depth = info.depth →
      ∃ v', Config.Leads host scripts (c.place lower pc argc v w) (c.place lower d'.buffer.offset argc v' w) ∧
        Mirrors job d' v' e

namespace Draft

variable {job : Job (StubBody σ)} {offset : Nat} {info : StackMap.Info} {d d₁ d₂ d' : Draft (StubBody σ)}

theorem Flushes.targets (h : d.Flushes d') {k : Nat} {i : Inst Label} {l : Label} (hk : d'.buffer.insts[k]? = some i)
    (hl : i.target? = some l) : d.buffer.insts[k]? = some i := by
  obtain ⟨ms, hadds, _⟩ := h.moves
  rw [hadds.insts, Array.getElem?_append] at hk
  split at hk
  · exact hk
  · obtain ⟨m, _, rfl⟩ := List.mem_map.mp (by simpa using Array.mem_of_getElem? hk)
    cases hl

/-- An instruction that only control from above comes to. -/
theorem Flushes.arrives (h : d.Flushes d') (htarget : info.jumpTarget = false) (hdepth : d.stack.depth = info.depth) :
    Arrives job offset info d d' := by
  obtain ⟨ms, hadds, _⟩ := h.moves
  refine ⟨hadds.grows, fun _ => by rw [hadds.labels], h.targets, hadds.sites, hadds.phase, h.good, h.depth.trans hdepth,
    by rw [htarget, h.knowns]; rfl, fun hb _ => h.leads hb, fun ht => ?_⟩
  rw [htarget] at ht
  cases ht

/-- An instruction where control meets: what is written out is taken over with the declared depth. -/
theorem Flushes.meets (h : d.Flushes d₁) (hset : d₁.stack.Settled)
    (hb : Binds { d₁ with stack := d₁.stack.resize info.depth, buffer := { d₁.buffer with height := info.depth } }
      (Emit.labelOf offset) d₂) (h' : d₂.Flushes d') (htarget : info.jumpTarget = true) :
    Arrives job offset info d d' := by
  obtain ⟨ms, hadds, _⟩ := h.moves
  obtain ⟨ms', hadds', _⟩ := h'.moves
  obtain ⟨hset₂, hdepth₂⟩ := VirtualStack.settled_resize hset info.depth
  have hstack : d₂.stack = d₁.stack.resize info.depth := hb.stack
  have hoffset : d₂.buffer.offset = d₁.buffer.offset := hb.offset
  have hbgrows := hb.grows
  have hgrows : d₁.Grows d₂ :=
    ⟨hbgrows.insts, hbgrows.labels, hbgrows.patches, hbgrows.sites, hbgrows.stubs, hbgrows.exit, hbgrows.patched,
      hbgrows.limits⟩
  have hbound : d₂.buffer.labelOffset? (Emit.labelOf offset) = some d₂.buffer.offset := by rw [hoffset]; exact hb.bound
  rw [← hstack] at hset₂ hdepth₂
  refine ⟨hadds.grows.trans (hgrows.trans hadds'.grows), fun {k} hk => ?_, fun hk hl => ?_, ?_, ?_, h'.good,
    h'.depth.trans hdepth₂,
    ?_, fun {f c v e host scripts lower argc w} hbegins hdepth => ?_, fun _ => ⟨_, hadds'.grows.labels hbound, ?_⟩⟩
  · rw [hadds'.labels, hb.eq]
    simp only
    rw [Array.getElem?_setIfInBounds_ne (Ne.symm hk), hadds.labels]
  · have hk₂ := h'.targets hk hl
    rw [hb.eq] at hk₂
    exact h.targets hk₂ hl
  · rw [hadds'.sites, hb.eq]
    exact hadds.sites
  · rw [hadds'.phase, hb.eq]
    exact hadds.phase
  · rw [h'.knowns, hstack, VirtualStack.knowns_resize, h.knowns, htarget]
    rfl
  · have hg₁ : d₁.Grows f := hgrows.trans (hadds'.grows.trans hbegins.grows)
    obtain ⟨v₁, hleads₁, hmir₁⟩ := h.leads ⟨hg₁, hbegins.installed, hbegins.mirrors⟩
    have hsame : d₂.stack = d₁.stack := by rw [hstack, ← hdepth, ← h.depth, VirtualStack.resize_self]
    have hmir₂ : Mirrors job d₂ v₁ e := hmir₁.same (by rw [hsame]; exact hmir₁.stands) rfl rfl rfl
    obtain ⟨v₂, hleads₂, hmir'⟩ := h'.leads ⟨hbegins.grows, hbegins.installed, hmir₂⟩
    rw [← hoffset] at hleads₁
    exact ⟨v₂, hleads₁.trans hleads₂, hmir'⟩
  · intro d₀ f c v e host scripts lower argc w hg hm hmir hset₀ hdepth₀
    have hops : v.operands = e.operands.reverse := hmir.stands.operands_of_settled hset₀
    have hlen : v.operands.length = d₂.stack.depth := by
      rw [hdepth₂, ← hdepth₀, ← hmir.length, hops, List.length_reverse]
    have hmir₂ : Mirrors job d₂ v e := hmir.same (by rw [← hops]; exact hset₂.stands hlen) rfl rfl rfl
    exact h'.leads ⟨hg, hm, hmir₂⟩

/-- The offset that sites are given is of no account. -/
theorem Arrives.with_pc (h : Arrives job offset info d d') (pc : Nat) : Arrives job offset info d { d' with pc } := by
  have hback {f : Draft (StubBody σ)} (hg : Grows { d' with pc } f) : d'.Grows f :=
    ⟨hg.insts, hg.labels, hg.patches, hg.sites, hg.stubs, hg.exit, hg.patched, hg.limits⟩
  have hmirrors {v : View} {e : Evaluation} (hm : Mirrors job d' v e) : Mirrors job { d' with pc } v e :=
    ⟨hm.stands, hm.slots, hm.args, hm.source, hm.slotCount, hm.argCount⟩
  refine ⟨⟨h.grows.insts, h.grows.labels, h.grows.patches, h.grows.sites, h.grows.stubs, h.grows.exit, h.grows.patched,
    h.grows.limits⟩, h.labels,
    h.targets, h.sites, h.phase, ⟨h.good.valid, h.good.height⟩, h.depth, h.knowns, fun hb hdepth => ?_, fun ht => ?_⟩
  · obtain ⟨v', hleads, hmir⟩ := h.fell ⟨hback hb.grows, hb.installed, hb.mirrors⟩ hdepth
    exact ⟨v', hleads, hmirrors hmir⟩
  · obtain ⟨start, hbound, hmet⟩ := h.met ht
    refine ⟨start, hbound, fun hg hm hmir hset hdepth => ?_⟩
    obtain ⟨v', hleads, hmir'⟩ := hmet (hback hg) hm hmir hset hdepth
    exact ⟨v', hleads, hmirrors hmir'⟩

end Draft

namespace Compilation

open Draft Emit

/-- Where control comes from above, or from nowhere else, the depth must be the declared one. -/
theorem arrive_ok (job : Job (StubBody σ)) {d : Draft (StubBody σ)} {offset : Nat} {info : StackMap.Info} {fell : Bool}
    (hg : d.Good) (hroom : d.stack.depth < 2 ^ 30) (hdepth : info.depth < 2 ^ 30) (hlt : offset < job.program.length)
    (hfell : fell = true ∨ info.jumpTarget = false → d.stack.depth = info.depth)
    (hfree : info.jumpTarget = true → d.buffer.labels[(labelOf offset).index]? = some none) :
    ∃ d', arrive job offset info fell d = .ok () d' ∧ Arrives job offset info d d' := by
  obtain ⟨d₁, hmeet, hgood, hroom₁, hrest⟩ : ∃ d₁, meet job offset info fell d = .ok () d₁ ∧ d₁.Good ∧
      d₁.stack.depth < 2 ^ 30 ∧
      ∀ d', d₁.Flushes d' → Arrives job offset info d d' := by
    cases htarget : info.jumpTarget with
    | true =>
      obtain ⟨d₁, d₂, hmerge, _, hflush, hset, hbinds⟩ :=
        merge_ok hg hroom hlt (fun h => hfell (.inl h)) (hfree htarget)
      obtain ⟨hset', hdepth'⟩ := VirtualStack.settled_resize hset info.depth
      have hdepth₂ : d₂.stack.depth = info.depth := by rw [hbinds.stack]; exact hdepth'
      refine ⟨d₂, ?_, hbinds.good ⟨hset'.valid, ?_⟩, by rw [hdepth₂]; exact hdepth,
        fun d' h => hflush.meets hset hbinds h htarget⟩
      · rw [meet, if_pos htarget]
        exact hmerge
      · exact (hset'.spilledCount.trans hdepth').symm
    | false =>
      have hsame := hfell (.inr htarget)
      refine ⟨d, ?_, hg, hroom, fun d' h => h.arrives htarget hsame⟩
      rw [meet, if_neg (by rw [htarget]; exact Bool.false_ne_true)]
      cases fell with
      | false => rfl
      | true => rw [if_pos rfl, bind_eq (depth_eq d), assume_ok (decide_eq_true hsame)]
  obtain ⟨d₂, hsettle, hflush⟩ := settle_ok job hgood hroom₁
  refine ⟨{ d₂ with pc := offset }, ?_, (hrest d₂ hflush).with_pc offset⟩
  rw [arrive, bind_eq hmeet, bind_eq hsettle, bind_eq (get_eq d₂), VirtualStack.check_ok_iff.mpr hflush.good.valid]
  rfl

end Compilation
end BaselineTier
