/-
  BaselineTier.Proofs.Writing — what lowering writes down.

  From a draft whose chart is sound, each step of a compilation gives one whose chart is sound
  again, and adds to the sites what it says it does (`Draft.Writes`).
-/

import BaselineTier.Proofs.Chart
import BaselineTier.Proofs.Emulation

namespace BaselineTier

variable {σ β : Type}

/-! ## Sites -/

namespace SiteTable

/-- The instructions that the sites belong to, with what they do, in order. -/
def log (t : SiteTable β) : List (UInt32 × SiteKind) := t.sites.toList.map fun s => (s.pc, s.kind)

theorem length_log (t : SiteTable β) : t.log.length = t.sites.size := by simp [log]

theorem refusal?_congr {t t' : SiteTable β} (hsites : t.sites.size = t'.sites.size)
    (hstubs : t.store.stubs.size = t'.store.stubs.size) (hmax : t.maxSites = t'.maxSites)
    (hlimit : t.store.limit = t'.store.limit) : t.refusal? = t'.refusal? := by
  unfold refusal? size StubStore.size
  rw [hsites, hstubs, hmax, hlimit]

end SiteTable

def Method.log (m : Method β) : List (UInt32 × SiteKind) := m.sites.toList.map fun s => (s.pc, s.kind)

theorem Draft.Installed.log {f : Draft (StubBody σ)} {m : Method (StubBody σ)} (h : f.Installed m) :
    m.log = f.sites.log := by
  rw [Method.log, SiteTable.log, h.sites]

namespace Draft

/-- The second draft is the first with code on its way: its chart is sound, the picture has so many entries, and the
    sites that came on the way are of these kinds. -/
structure Writes (limit : Nat) (T : Label → Nat → Prop) (d₀ : Draft (StubBody σ)) (ks : List SiteKind) (n : Nat)
    (d : Draft (StubBody σ)) : Prop where
  small : limit ≤ maxStackDepth
  chart : d.buffer.Chart limit T
  good : d.Good
  depth : d.stack.depth = n
  pc : d.pc = d₀.pc
  exit : d.exit = d₀.exit
  log : d.sites.log = d₀.sites.log ++ ks.map (UInt32.ofNat d₀.pc, ·)
  stubs : d.sites.store.stubs.size = d₀.sites.store.stubs.size + ks.length
  limits : d.sites.maxSites = d₀.sites.maxSites ∧ d.sites.store.limit = d₀.sites.store.limit
  room : ks ≠ [] → d₀.sites.refusal? = none

open Emit

variable {limit n m : Nat} {T : Label → Nat → Prop} {d₀ d d' : Draft (StubBody σ)} {ks : List SiteKind}
  {E : CompileError → Prop} {job : Job (StubBody σ)}

theorem Writes.refl (hsmall : limit ≤ maxStackDepth) (hchart : d.buffer.Chart limit T) (hgood : d.Good) :
    Writes limit T d [] d.stack.depth d :=
  ⟨hsmall, hchart, hgood, rfl, rfl, rfl, by simp, rfl, ⟨rfl, rfl⟩, fun h => absurd rfl h⟩

theorem Writes.low (hw : Writes limit T d₀ ks n d) : d.stack.spilledCount ≤ limit := hw.good.height ▸ hw.chart.height_le

/-- Without a site yet, there is as much room for one as there was. -/
theorem Writes.refusal (hw : Writes limit T d₀ [] n d) : d.sites.refusal? = d₀.sites.refusal? := by
  refine SiteTable.refusal?_congr ?_ hw.stubs hw.limits.1 hw.limits.2
  rw [← SiteTable.length_log, hw.log, ← SiteTable.length_log]
  simp

/-- Only the buffer and the picture have changed. -/
theorem Writes.same (hw : Writes limit T d₀ ks n d) {T' : Label → Nat → Prop} {buffer : CodeBuffer}
    {stack : VirtualStack} (hchart : buffer.Chart limit T') (hgood : Good { d with buffer, stack })
    (hdepth : stack.depth = m) :
    Writes limit T' d₀ ks m { d with buffer, stack } :=
  ⟨hw.small, hchart, hgood, hdepth, hw.pc, hw.exit, hw.log, hw.stubs, hw.limits, hw.room⟩

/-! ## Operations on the picture -/

theorem Writes.adopt (hw : Writes limit T d₀ ks n d) {r : List Move × VirtualStack} (hd : Emit.adopt r d = .ok () d')
    (hgood : d'.Good) (hdepth : d'.stack.depth = m) (hlow : d.stack.spilledCount + r.1.countP Move.isPush ≤ limit) :
    Writes limit T d₀ ks m d' := by
  obtain ⟨buffer, hb, rfl⟩ := of_adopt hd
  exact hw.same (hw.chart.emitMoves hb (by rw [hw.good.height]; exact hlow)) hgood hdepth

/-- The picture is far from the depth that no longer fits 32 bits. -/
theorem Writes.shallow (hw : Writes limit T d₀ ks n d) (hn : n ≤ limit + 2) : d.stack.depth < 2 ^ 30 := by
  have hsmall := hw.small
  have hmax : maxStackDepth + 2 < 2 ^ 30 := by decide
  rw [hw.depth]
  omega

theorem Writes.flushBelow (hw : Writes limit T d₀ ks n d) (hn : n ≤ limit) (keep : Nat) :
    Yields (Emit.flushBelow keep) d E fun _ d' => Writes limit T d₀ ks n d' := by
  obtain ⟨d', ms, hd', _, hgood, hdepth, _⟩ := flushBelow_ok hw.good (hw.shallow (by omega)) keep
  refine .of_ok hd' (hw.adopt (r := d.stack.flushBelow keep) hd' hgood (hdepth.trans hw.depth) ?_)
  have hpush := hw.good.valid.pushes_flush (d.stack.depth - keep)
  have hlow := hw.low
  rw [hw.depth] at hpush
  simp only [VirtualStack.flushBelow, hw.depth]
  omega

theorem Writes.flushAll (hw : Writes limit T d₀ ks n d) (hn : n ≤ limit) :
    Yields (Emit.flushBelow 0) d E fun _ d' => Writes limit T d₀ ks n d' ∧ d'.stack.Settled := by
  obtain ⟨d', ms, hd', _, hgood, hset, _⟩ := flushAll_ok hw.good (hw.shallow (by omega))
  exact .of_ok hd' ⟨(hw.flushBelow (E := fun _ => False) hn 0).ok hd', hset⟩

theorem Writes.flushAliases (hw : Writes limit T d₀ ks (n + 1) d) (hn : n ≤ limit) (place : Place) {dst : Address}
    (hplace : place.address? = some dst) (hdst : ∀ index, dst ≠ .stack index) :
    Yields (Emit.flushAliases place) d E fun _ d' => Writes limit T d₀ ks (n + 1) d' ∧ d'.stack.Clear n dst := by
  obtain ⟨d', ms, hd', _, hgood, hdepth, _, hclear, _⟩ :=
    flushAliases_ok hw.good (hw.shallow (by omega)) hw.depth hplace hdst
  refine .of_ok hd' ⟨hw.adopt (r := d.stack.flushAliases place) hd' hgood (hdepth.trans hw.depth) ?_, hclear⟩
  have hpush := hw.good.valid.pushes_flush (d.stack.aliasReach place)
  have hreach : d.stack.aliasReach place ≤ n := by
    have hlen : d.stack.entries.length = n + 1 := hw.depth
    have := (List.dropWhile_suffix (l := d.stack.entries.dropLast.reverse) fun e : Entry => e.place != place).length_le
    simp only [List.length_reverse, List.length_dropLast, hlen] at this
    exact this
  have hlow := hw.low
  simp only [VirtualStack.flushAliases]
  omega

theorem Writes.push (hw : Writes limit T d₀ ks n d) (hn : n ≤ limit + 1) {e : Entry} (hs : e.place.isSpilled = false)
    (hreg : e.place.register? ≠ none → n ≤ limit) :
    Yields (Emit.push e) d E fun _ d' => Writes limit T d₀ ks (n + 1) d' := by
  obtain ⟨d', ms, hd', _, hgood, hdepth, _⟩ := push_ok hw.good (hw.shallow (by omega)) hs
  refine .of_ok hd' (hw.adopt (r := d.stack.push e) hd' hgood (by rw [hdepth, hw.depth]) ?_)
  by_cases hr : e.place.register? = none
  · simp only [VirtualStack.push, hr]
    exact hw.low
  · have hpush := hw.good.valid.pushes_push e
    rw [hw.depth] at hpush
    exact Nat.le_trans hpush (hreg hr)

theorem Writes.pushReg (hw : Writes limit T d₀ ks n d) (hn : n ≤ limit) (reg : Reg) (known : Option ValueType) :
    Yields (Emit.push ⟨.register reg, known⟩) d E fun _ d' => Writes limit T d₀ ks (n + 1) d' :=
  hw.push (Nat.le_succ_of_le hn) rfl fun _ => hn

theorem Writes.pushScratch (hw : Writes limit T d₀ ks n d) (hn : n + 1 ≤ limit) :
    Yields Emit.pushScratch d E fun _ d' => Writes limit T d₀ ks (n + 1) d' := by
  obtain ⟨d', ms, hd', _, hgood, hdepth, _⟩ := pushScratch_ok hw.good (hw.shallow (by omega))
  refine .of_ok hd' (hw.adopt (r := d.stack.pushScratch) hd' hgood (by rw [hdepth, hw.depth]) ?_)
  have hpush := hw.good.valid.pushes_pushScratch
  rw [hw.depth] at hpush
  omega

theorem Writes.popOne (hw : Writes limit T d₀ ks (n + 1) d) (hn : n ≤ limit) :
    Yields (Emit.popRegisters 1) d E fun _ d' => Writes limit T d₀ ks n d' ∧ d'.stack.Settled := by
  obtain ⟨d', ms, hd', _, hgood, hset, hdepth, _⟩ := popOne_ok hw.good (hw.shallow (by omega)) hw.depth
  obtain ⟨r, hr, hadopt⟩ := of_adopt_guarded (·.popRegisters 1) hd'
  refine .of_ok hd' ⟨hw.adopt hadopt hgood hdepth ?_, hset⟩
  have hpush := hw.good.valid.pushes_popOne hr
  have hlow := hw.low
  rw [hw.depth] at hpush
  omega

theorem Writes.popTwo (hw : Writes limit T d₀ ks (n + 2) d) (hn : n + 1 ≤ limit) :
    Yields (Emit.popRegisters 2) d E fun _ d' => Writes limit T d₀ ks n d' ∧ d'.stack.Settled := by
  obtain ⟨d', ms, hd', _, hgood, hset, hdepth, _⟩ := popTwo_ok hw.good (hw.shallow (by omega)) hw.depth
  obtain ⟨r, hr, hadopt⟩ := of_adopt_guarded (·.popRegisters 2) hd'
  refine .of_ok hd' ⟨hw.adopt hadopt hgood hdepth ?_, hset⟩
  have hpush := hw.good.valid.pushes_popTwo hr
  have hlow := hw.low
  rw [hw.depth] at hpush
  omega

theorem Writes.drop {k : Nat} (hw : Writes limit T d₀ ks (n + k) d) (hn : n + k ≤ limit) :
    Yields (Emit.drop k) d E fun _ d' => Writes limit T d₀ ks n d' := by
  obtain ⟨d', ms, hd', _, hgood, hdepth, _⟩ := drop_ok hw.good (hw.shallow (by omega)) hw.depth
  obtain ⟨r, hr, hadopt⟩ := of_adopt_guarded (·.drop k) hd'
  refine .of_ok hd' (hw.adopt hadopt hgood hdepth ?_)
  rw [VirtualStack.pushes_drop hr]
  exact hw.low

theorem Writes.popLast (hw : Writes limit T d₀ ks 1 d) :
    Yields (Emit.popInto .r0) d E fun _ d' => Writes limit T d₀ ks 0 d' := by
  obtain ⟨d', ms, hd', _, hgood, hdepth, _⟩ := popLast_ok hw.good hw.depth
  obtain ⟨r, hr, hadopt⟩ := of_adopt_guarded (·.popInto .r0) hd'
  refine .of_ok hd' (hw.adopt hadopt hgood hdepth ?_)
  rw [VirtualStack.pushes_popInto hr]
  exact hw.low

theorem Writes.storeTop (hw : Writes limit T d₀ ks (n + 1) d) (hn : n ≤ limit) {dst : Address}
    (hdst : ∀ index, dst ≠ .stack index) (hclear : d.stack.Clear n dst) :
    Yields (Emit.storeTop dst) d E fun _ d' => Writes limit T d₀ ks (n + 1) d' := by
  obtain ⟨d', ms, hd', _, hgood, hdepth, _⟩ := storeTop_ok hw.good (hw.shallow (by omega)) hw.depth hdst hclear
  refine .of_ok hd' ?_
  rw [Emit.storeTop, bind_eq (get_eq d)] at hd'
  obtain ⟨_, d₁, hd₁, hd'⟩ := bind_ok_iff.mp hd'
  obtain ⟨top, d₂, hpeek, hmoves⟩ := bind_ok_iff.mp hd'
  obtain ⟨buffer, hb, rfl⟩ := of_adopt (r := d.stack.freeRegister.2) hd₁
  obtain rfl : d₂ = { d with buffer, stack := d.stack.freeRegister.2.2 } := by
    obtain ⟨_, d₃, hd₃, hguard⟩ := bind_ok_iff.mp hpeek
    cases hd₃
    revert hguard
    cases VirtualStack.peek _ 1 with
    | error b => intro hguard; cases hguard
    | ok e => intro hguard; cases hguard; rfl
  obtain ⟨buffer', hb', rfl⟩ := of_moves hmoves
  have hpush := hw.good.valid.pushes_freeRegister
  have hlow := hw.low
  rw [hw.depth] at hpush
  have hchart : buffer.Chart limit T := hw.chart.emitMoves hb (by rw [hw.good.height]; omega)
  refine hw.same (hchart.emitMoves hb' ?_) hgood (hdepth.trans hw.depth)
  rw [VirtualStack.pushes_store]
  exact hchart.height_le

theorem Writes.stageTop (hw : Writes limit T d₀ ks (n + 1) d) (hn : n + 1 ≤ limit) :
    Yields Emit.stageTop d E fun _ d' => Writes limit T d₀ ks n d' := by
  have hclear : d.stack.Clear n .scratch := fun k e _ _ haddr => by
    cases e with | mk place known => cases place <;> cases haddr
  exact (hw.storeTop (Nat.le_of_succ_le hn) (fun _ h => by cases h) hclear).bind fun _ _ hw => hw.drop hn

/-! ## Single instructions, sites and labels -/

/-- An instruction that leaves the stack as high as it is; a branch must go to a label of that height. -/
theorem Writes.inst (hw : Writes limit T d₀ ks n d) {i : Inst Label} (hi : ∀ height, i.height height = some height)
    (hinner : i.isInner = true) (htarget : ∀ l, i.target? = some l → T l d.buffer.height) :
    Yields (Emit.inst i) d E fun _ d' => Writes limit T d₀ ks n d' ∧ d'.stack = d.stack ∧
      d.buffer.emit i = .ok d'.buffer := by
  obtain ⟨d', hd', _, hstack, hgood⟩ := inst_good hw.good (hi _)
  refine .of_ok hd' ?_
  obtain ⟨buffer, hb, rfl⟩ := of_inst hd'
  refine ⟨hw.same (hw.chart.emit hb ?_ hinner htarget) hgood hw.depth, rfl, hb⟩
  have hheight : buffer.height = d.buffer.height := Option.some.inj ((CodeBuffer.emit_ok hb).1.symm.trans (hi _))
  rw [hheight]
  exact hw.chart.height_le

theorem Writes.move (hw : Writes limit T d₀ ks n d) {mv : Move} (hi : ∀ height, mv.height height = some height) :
    Yields (Emit.move mv) d E fun _ d' => Writes limit T d₀ ks n d' ∧ d'.stack = d.stack :=
  (hw.inst (i := .move mv) hi rfl fun _ hl => by cases hl).mono (fun _ he => he) fun _ _ h => ⟨h.1, h.2.1⟩

theorem Sited.emit {kind : SiteKind} {body : StubBody σ} (h : d.Sited kind body d') :
    { d.buffer with patches := d'.buffer.patches }.emit (.callSite d.buffer.patches.size) = .ok d'.buffer := by
  simp only [CodeBuffer.emit, Inst.height]
  rw [← h.insts, ← h.heights, ← h.labels, ← h.height]

/-- Where a call returns to is not part of the log. -/
theorem Sited.log {β : Type} {d d' : Draft β} {kind : SiteKind} {body : β} (h : d.Sited kind body d') :
    d'.sites.log = d.sites.log ++ [(UInt32.ofNat d.pc, kind)] := by
  have hmodify (sites : Array Site) (k offset : Nat) :
      (sites.modify k fun site => { site with returnOffset := offset }).toList.map (fun s => (s.pc, s.kind)) =
        sites.toList.map fun s => (s.pc, s.kind) := by
    refine List.ext_getElem? fun place => ?_
    rw [List.getElem?_map, List.getElem?_map, Array.getElem?_toList, Array.getElem?_toList, Array.getElem?_modify]
    split <;> cases sites[place]? <;> rfl
  rw [SiteTable.log, h.sites, hmodify, Array.toList_push, List.map_append]
  rfl

theorem Writes.site (hw : Writes limit T d₀ [] n d) (hfac : job.factory = StubBody.fallbacks) {kind : SiteKind}
    (fb : Fallback) (hkind : Fallback.ofKind? kind = some fb) :
    Yields (Emit.site job kind) d (fun e => d₀.sites.refusal? = some e) fun _ d' => Writes limit T d₀ [kind] n d' ∧
      d'.stack = d.stack ∧ d'.buffer.height = d.buffer.height ∧ d'.buffer.labels = d.buffer.labels := by
  have hbody : job.factory d.sites.requests kind = some (.fallback fb) := by rw [hfac, StubBody.fallbacks, hkind]; rfl
  refine (site_refused job kind hbody).mono (fun e he => by rw [← hw.refusal]; exact he) fun _ d' ⟨hroom, h⟩ => ?_
  have hchart : CodeBuffer.Chart limit T { d.buffer with patches := d'.buffer.patches } :=
    ⟨hw.chart.size, hw.chart.begins, hw.chart.zero, hw.chart.low, hw.chart.inner, hw.chart.falls, hw.chart.jumps,
      hw.chart.within, hw.chart.bound⟩
  refine ⟨⟨hw.small, ?_, h.good hw.good, by rw [h.stack, hw.depth], h.pc.trans hw.pc, h.exit.trans hw.exit, ?_, ?_, ?_,
    ?_⟩, h.stack, h.height,
    h.labels⟩
  · exact hchart.emit h.emit (by rw [h.height]; exact hw.chart.height_le) rfl fun l hl => by cases hl
  · have hlog := hw.log
    rw [List.map_nil, List.append_nil] at hlog
    rw [h.log, hlog, hw.pc]
    rfl
  · rw [h.stubs, Array.size_push, hw.stubs]
    rfl
  · rw [h.limits.1, h.limits.2]
    exact hw.limits
  · intro _
    rw [← hw.refusal]
    exact hroom

/-- A label of the code's own has the present height. -/
theorem Writes.newLabel (hw : Writes limit T d₀ ks n d) : Yields Emit.newLabel d E fun l d' =>
    Writes limit (fun l' k => T l' k ∨ l' = l ∧ k = d.buffer.height) d₀ ks n d' ∧
      d'.buffer.labels[l.index]? = some none ∧
      d'.stack = d.stack ∧ d'.buffer.height = d.buffer.height := by
  refine .of_ok (newLabel_eq d) ⟨hw.same (hw.chart.newLabel.declare ?_ _) ⟨hw.good.valid, hw.good.height⟩ hw.depth,
    ?_, rfl, rfl⟩
  · simp [CodeBuffer.labelOffset?]
  · simp

theorem Writes.bind {label : Label} {height : Nat}
    (hw : Writes limit (fun l k => T l k ∨ l = label ∧ k = height) d₀ ks n d)
    (hfree : d.buffer.labels[label.index]? = some none) (hheight : ∀ k, T label k ∨ k = height → d.buffer.height = k) :
    Yields (Emit.bind label) d E fun _ d' => Writes limit T d₀ ks n d' ∧ d'.stack = d.stack := by
  obtain ⟨d', hd', hbinds⟩ := bind_label_ok hfree
  have hbound := hbinds.bound
  have hgood := hbinds.good hw.good
  obtain ⟨rfl, _⟩ := hbinds
  have hchart := hw.chart.bind hfree fun k hk => hheight k (hk.imp_right And.right)
  exact .of_ok hd' ⟨hw.same (hchart.forget hbound) hgood hw.depth, rfl⟩

theorem Writes.height_of_settled (hw : Writes limit T d₀ ks n d) (hset : d.stack.Settled) : d.buffer.height = n := by
  rw [hw.good.height, hset.spilledCount, hw.depth]

end Draft

end BaselineTier
