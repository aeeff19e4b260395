/-
  BaselineTier.Proofs.Emission — what the steps of a compilation do to the draft.

  A draft is good if its picture is valid and the height counted in the buffer is the number
  of entries written out. From a good draft with the entries that it needs, no step breaks an
  assumption (`Emit.Yields`). What it emits is a list of moves that carry the values of the
  picture before to the picture after, one instruction (`Draft.Adds`), or a call through a new
  site (`Draft.Sited`). Drafts only grow: what is emitted, bound or allocated stays
  (`Draft.Grows`), and the code of an instruction leaves the labels of others alone
  (`Draft.Extends`). A site is refused only for want of room (`Draft.Lacks`).
-/

import BaselineTier.Lowering.Basic
import BaselineTier.Proofs.VirtualStack

namespace BaselineTier

variable {α β γ : Type}

/-! ## How a step ends -/

namespace Emit

/-- The step has a result that is as required, or ends with an error that may occur; it breaks no assumption. -/
def Yields (x : Emit β α) (d : Draft β) (E : CompileError → Prop) (Q : α → Draft β → Prop) : Prop :=
  match x d with
  | .ok a d' => Q a d'
  | .error (.error e) _ => E e
  | .error (.breach _) _ => False

theorem bind_eq {x : Emit β α} {f : α → Emit β γ} {d d' : Draft β} {a : α} (h : x d = .ok a d') :
    (x >>= f) d = f a d' := by
  show EStateM.bind x f d = f a d'
  rw [EStateM.bind, h]

theorem bind_error {x : Emit β α} {f : α → Emit β γ} {d d' : Draft β} {e : Fault CompileError} (h : x d = .error e d') :
    (x >>= f) d = .error e d' := by
  show EStateM.bind x f d = _
  rw [EStateM.bind, h]

/-- A step that succeeds is two that do. -/
theorem bind_ok_iff {x : Emit β α} {f : α → Emit β γ} {d d'' : Draft β} {b : γ} :
    (x >>= f) d = .ok b d'' ↔ ∃ a d', x d = .ok a d' ∧ f a d' = .ok b d'' := by
  show EStateM.bind x f d = .ok b d'' ↔ _
  rw [EStateM.bind]
  cases x d with
  | ok a d' => exact ⟨fun h => ⟨a, d', rfl, h⟩, fun ⟨_, _, hx, h⟩ => by cases hx; exact h⟩
  | error e d' => exact ⟨nofun, fun ⟨_, _, hx, _⟩ => nomatch hx⟩

theorem Yields.of_ok {x : Emit β α} {d d' : Draft β} {a : α} {E : CompileError → Prop} {Q : α → Draft β → Prop}
    (h : x d = .ok a d') (hq : Q a d') : Yields x d E Q := by
  rw [Yields, h]
  exact hq

theorem Yields.of_error {x : Emit β α} {d d' : Draft β} {e : CompileError} {E : CompileError → Prop}
    {Q : α → Draft β → Prop} (h : x d = .error (.error e) d') (he : E e) : Yields x d E Q := by
  rw [Yields, h]
  exact he

/-- The step fails with one of the errors, or has a result that was required. -/
theorem Yields.cases {x : Emit β α} {d : Draft β} {E : CompileError → Prop} {Q : α → Draft β → Prop}
    (h : Yields x d E Q) :
    (∃ e d', x d = .error (.error e) d' ∧ E e) ∨ ∃ a d', x d = .ok a d' ∧ Q a d' := by
  unfold Yields at h
  cases hx : x d with
  | ok a d' =>
    rw [hx] at h
    exact .inr ⟨a, d', rfl, h⟩
  | error fault d' =>
    rw [hx] at h
    cases fault with
    | error e => exact .inl ⟨e, d', rfl, h⟩
    | breach b => exact h.elim

theorem Yields.bind_ok {x : Emit β α} {f : α → Emit β γ} {d d' : Draft β} {a : α} {E : CompileError → Prop}
    {Q : γ → Draft β → Prop} (h : x d = .ok a d') (hf : Yields (f a) d' E Q) : Yields (x >>= f) d E Q := by
  rw [Yields, bind_eq h]
  exact hf

theorem Yields.bind {x : Emit β α} {f : α → Emit β γ} {d : Draft β} {E : CompileError → Prop} {P : α → Draft β → Prop}
    {Q : γ → Draft β → Prop} (hx : Yields x d E P) (hf : ∀ a d', P a d' → Yields (f a) d' E Q) :
    Yields (x >>= f) d E Q := by
  obtain ⟨e, d', h, he⟩ | ⟨a, d', h, ha⟩ := hx.cases
  · have hb : (x >>= f) d = .error (.error e) d' := by
      show EStateM.bind x f d = _
      rw [EStateM.bind, h]
    exact .of_error hb he
  · exact .bind_ok h (hf a d' ha)

theorem Yields.mono {x : Emit β α} {d : Draft β} {E E' : CompileError → Prop} {Q Q' : α → Draft β → Prop}
    (h : Yields x d E Q) (he : ∀ e, E e → E' e) (hq : ∀ a d', Q a d' → Q' a d') : Yields x d E' Q' := by
  obtain ⟨e, d', hx, hE⟩ | ⟨a, d', hx, hQ⟩ := h.cases
  · exact .of_error hx (he e hE)
  · exact .of_ok hx (hq a d' hQ)

theorem Yields.and {x : Emit β α} {d : Draft β} {E E' : CompileError → Prop} {Q Q' : α → Draft β → Prop}
    (h : Yields x d E Q) (h' : Yields x d E' Q') : Yields x d (fun e => E e ∧ E' e) fun a d' => Q a d' ∧ Q' a d' := by
  obtain ⟨e, d', hx, hE⟩ | ⟨a, d', hx, hQ⟩ := h.cases
  · rw [Yields, hx] at h'
    exact .of_error hx ⟨hE, h'⟩
  · rw [Yields, hx] at h'
    exact .of_ok hx ⟨hQ, h'⟩

/-- A step that succeeds has the result that was required. -/
theorem Yields.ok {x : Emit β α} {d d' : Draft β} {a : α} {E : CompileError → Prop} {Q : α → Draft β → Prop}
    (h : Yields x d E Q) (hx : x d = .ok a d') : Q a d' := by
  rw [Yields, hx] at h
  exact h

end Emit

/-! ## Drafts that grow -/

namespace Draft

def Patched (d : Draft β) : Prop := ∀ p ∈ d.buffer.patches, p.site < d.sites.sites.size

structure Grows (d d' : Draft β) : Prop where
  insts : ∀ {k : Nat} {i : Inst Label}, d.buffer.insts[k]? = some i → d'.buffer.insts[k]? = some i
  labels : ∀ {l : Label} {offset : Nat}, d.buffer.labelOffset? l = some offset → d'.buffer.labelOffset? l = some offset
  patches : ∀ {k : Nat} {p : PatchSite}, d.buffer.patches[k]? = some p → d'.buffer.patches[k]? = some p
  sites : ∀ {k : Nat} {s : Site}, d.sites.sites[k]? = some s →
    ∃ s', d'.sites.sites[k]? = some s' ∧ s'.kind = s.kind ∧ s'.head = s.head
  stubs : ∀ {k : Nat} {s : Stub β}, d.sites.store.stubs[k]? = some s → d'.sites.store.stubs[k]? = some s
  exit : ∀ {l : Label}, d.exit = some l → d'.exit = some l
  patched : d.Patched → d'.Patched
  limits : d'.sites.maxSites = d.sites.maxSites ∧ d'.sites.store.limit = d.sites.store.limit

theorem Grows.refl (d : Draft β) : d.Grows d :=
  ⟨fun h => h, fun h => h, fun h => h, fun h => ⟨_, h, rfl, rfl⟩, fun h => h, fun h => h, fun h => h, rfl, rfl⟩

theorem Grows.trans {d d' d'' : Draft β} (h : d.Grows d') (h' : d'.Grows d'') : d.Grows d'' := by
  refine ⟨fun hi => h'.insts (h.insts hi), fun hl => h'.labels (h.labels hl), fun hp => h'.patches (h.patches hp),
    fun hs => ?_, fun hs => h'.stubs (h.stubs hs), fun he => h'.exit (h.exit he), fun hp =>
      h'.patched (h.patched hp), ?_, ?_⟩
  · obtain ⟨s', hs', hk, hh⟩ := h.sites hs
    obtain ⟨s'', hs'', hk', hh'⟩ := h'.sites hs'
    exact ⟨s'', hs'', hk'.trans hk, hh'.trans hh⟩
  · rw [h'.limits.1, h.limits.1]
  · rw [h'.limits.2, h.limits.2]

/-- The two drafts differ in code and picture only, and the second has these instructions more. -/
structure Adds (d : Draft β) (is : List (Inst Label)) (d' : Draft β) : Prop where
  insts : d'.buffer.insts = d.buffer.insts ++ is.toArray
  labels : d'.buffer.labels = d.buffer.labels
  patches : d'.buffer.patches = d.buffer.patches
  sites : d'.sites = d.sites
  exit : d'.exit = d.exit
  pc : d'.pc = d.pc
  phase : d'.phase = d.phase

theorem Adds.grows {d d' : Draft β} {is : List (Inst Label)} (h : d.Adds is d') : d.Grows d' := by
  refine ⟨fun hi => ?_, fun hl => ?_, fun hp => ?_, fun hs => ⟨_, by rw [h.sites]; exact hs, rfl, rfl⟩,
    fun hs => by rw [h.sites]; exact hs, fun he => by rw [h.exit]; exact he,
    fun hp => by rw [Patched, h.patches, h.sites]; exact hp, by rw [h.sites], by rw [h.sites]⟩
  · rw [h.insts, Array.getElem?_append_left (Array.getElem?_eq_some_iff.mp hi).1]
    exact hi
  · rw [CodeBuffer.labelOffset?, h.labels]
    exact hl
  · rw [h.patches]
    exact hp

theorem Adds.offset {d d' : Draft β} {is : List (Inst Label)} (h : d.Adds is d') :
    d'.buffer.offset = d.buffer.offset + is.length := by
  simp [CodeBuffer.offset, h.insts]

theorem Adds.inst {d d' : Draft β} {is : List (Inst Label)} (h : d.Adds is d') {k : Nat} {i : Inst Label}
    (hk : is[k]? = some i) : d'.buffer.insts[d.buffer.offset + k]? = some i := by
  rw [h.insts, CodeBuffer.offset, Array.getElem?_append_right (by omega), Nat.add_sub_cancel_left]
  simpa using hk

theorem Adds.trans {d d' d'' : Draft β} {is is' : List (Inst Label)} (h : d.Adds is d') (h' : d'.Adds is' d'') :
    d.Adds (is ++ is') d'' :=
  ⟨by rw [h'.insts, h.insts]; simp, h'.labels.trans h.labels, h'.patches.trans h.patches, h'.sites.trans h.sites,
    h'.exit.trans h.exit, h'.pc.trans h.pc, h'.phase.trans h.phase⟩

theorem Adds.moves {d d' d'' : Draft β} {ms ms' : List Move} (h : d.Adds (ms.map .move) d')
    (h' : d'.Adds (ms'.map .move) d'') :
    d.Adds ((ms ++ ms').map .move) d'' := by
  rw [List.map_append]
  exact h.trans h'

/-! ## Moves -/

/-- The picture is valid and its height is the one counted. -/
structure Good (d : Draft β) : Prop where
  valid : d.stack.Valid
  height : d.buffer.height = d.stack.spilledCount

end Draft

namespace Emit

variable {d : Draft β}

/-- Moves are emitted unless they take the stack below the frame. -/
theorem moves_of_heightAfter {ms : List Move} {height : Nat} (h : Move.heightAfter d.buffer.height ms = some height) :
    ∃ d', moves ms d = .ok () d' ∧ d.Adds (ms.map .move) d' ∧ d'.stack = d.stack ∧ d'.buffer.height = height := by
  obtain ⟨b, hb, hmoved⟩ := CodeBuffer.emitMoves_of_heightAfter h
  refine ⟨{ d with buffer := b }, ?_, ⟨hmoved.insts, hmoved.labels, hmoved.patches, rfl, rfl, rfl, rfl⟩, rfl,
    hmoved.height⟩
  show EStateM.bind _ _ d = _
  simp only [EStateM.bind, hb, guarded]
  rfl

/-- A picture is taken over once its moves are emitted. -/
theorem adopt_of_heightAfter {r : List Move × VirtualStack} {height : Nat}
    (h : Move.heightAfter d.buffer.height r.1 = some height) :
    ∃ d', adopt r d = .ok () d' ∧ d.Adds (r.1.map .move) d' ∧ d'.stack = r.2 ∧ d'.buffer.height = height := by
  obtain ⟨d₁, hmoves, hadds, _, hh⟩ := moves_of_heightAfter h
  refine ⟨{ d₁ with stack := r.2 }, ?_, ⟨hadds.insts, hadds.labels, hadds.patches, hadds.sites, hadds.exit, hadds.pc,
    hadds.phase⟩,
    rfl, hh⟩
  rw [adopt, bind_eq hmoves]
  rfl

/-- It is not if the first of them goes below the frame. -/
theorem adopt_belowFrame {m : Move} {ms : List Move} {s : VirtualStack} (h : m.height d.buffer.height = none) :
    adopt (m :: ms, s) d = .error (.breach (.belowFrame (.move m))) d := by
  have hemit : d.buffer.emitMoves (m :: ms) = .error (.belowFrame (.move m)) := by
    rw [CodeBuffer.emitMoves, List.foldlM_cons, CodeBuffer.emit, Inst.height, h]
    rfl
  refine bind_error ?_
  show EStateM.bind _ _ d = _
  simp only [EStateM.bind, hemit, guarded]
  rfl

/-- The moves can be emitted if some view can carry them out. -/
theorem adopt_ok {r : List Move × VirtualStack} {v v' : View} {vs vs' : List Value} (hg : d.Good)
    (hst : d.stack.Stands v vs) (hrun : v.performAll r.1 = some v') (hst' : r.2.Stands v' vs')
    (hb : d.stack.spilledCount + r.1.countP Move.isPush < 2 ^ 32) :
    ∃ d', adopt r d = .ok () d' ∧ d.Adds (r.1.map .move) d' ∧ d'.stack = r.2 ∧ d'.Good := by
  have hheight : d.buffer.height = v.operands.length := by rw [hg.height, hst.height]
  have hafter := View.heightAfter_of_performAll hrun (by rw [hst.height]; exact hb)
  obtain ⟨d', hd', hadds, hstack, hh⟩ := adopt_of_heightAfter (d := d) (r := r) (by rw [hheight]; exact hafter)
  exact ⟨d', hd', hadds, hstack, by rw [hstack]; exact hst'.valid, by rw [hstack, ← hst'.height, hh]⟩

/-! ## Operations on the picture -/

theorem flushBelow_ok (hg : d.Good) (hroom : d.stack.depth < 2 ^ 30) (keep : Nat) :
    ∃ d' ms, flushBelow keep d = .ok () d' ∧ d.Adds (ms.map .move) d' ∧ d'.Good ∧
      d'.stack.depth = d.stack.depth ∧ d'.stack.knowns = d.stack.knowns ∧
      ∀ {v vs}, d.stack.Stands v vs →
        ∃ v', v.performAll ms = some v' ∧ d'.stack.Stands v' vs ∧ v' = { v with operands := v'.operands } := by
  obtain ⟨v, vs, hst, _⟩ := hg.valid.exists_stands 0
  obtain ⟨v', hrun, _, hst', _⟩ := hst.flush (d.stack.depth - keep)
  have hpush := hg.valid.pushes_flush (d.stack.depth - keep)
  have hle := d.stack.spilledCount_le
  obtain ⟨d', hd', hadds, hstack, hgood⟩ := adopt_ok hg hst hrun hst' (by omega)
  refine ⟨d', _, hd', hadds, hgood, by rw [hstack, VirtualStack.depth_flush], by rw [hstack, VirtualStack.knowns_flush],
    ?_⟩
  intro v vs hst
  obtain ⟨v', hrun, hsame, hst', _⟩ := hst.flush (d.stack.depth - keep)
  exact ⟨v', hrun, by rw [hstack]; exact hst', hsame⟩

theorem flushAll_ok (hg : d.Good) (hroom : d.stack.depth < 2 ^ 30) :
    ∃ d' ms, flushBelow 0 d = .ok () d' ∧ d.Adds (ms.map .move) d' ∧ d'.Good ∧ d'.stack.Settled ∧
      d'.stack.depth = d.stack.depth ∧ d'.stack.knowns = d.stack.knowns ∧
      ∀ {v vs}, d.stack.Stands v vs →
        v.performAll ms = some { v with operands := vs } ∧ d'.stack.Stands { v with operands := vs } vs := by
  obtain ⟨v, vs, hst, _⟩ := hg.valid.exists_stands 0
  obtain ⟨v', hrun, _, hst', hset, hdepth, hknown⟩ := hst.flushAll
  have hpush := hg.valid.pushes_flush (d.stack.depth - 0)
  have hle := d.stack.spilledCount_le
  obtain ⟨d', hd', hadds, hstack, hgood⟩ := adopt_ok hg hst hrun hst' (by simp only [VirtualStack.flushBelow]; omega)
  refine ⟨d', _, hd', hadds, hgood, by rw [hstack]; exact hset, by rw [hstack, hdepth], by rw [hstack, hknown], ?_⟩
  intro v vs hst
  obtain ⟨v', hrun, rfl, hst', _⟩ := hst.flushAll
  exact ⟨hrun, by rw [hstack]; exact hst'⟩

/-- A pushed entry; its value must be at hand when the code runs. -/
theorem push_ok (hg : d.Good) (hroom : d.stack.depth < 2 ^ 30) {e : Entry} (hs : e.place.isSpilled = false) :
    ∃ d' ms, push e d = .ok () d' ∧ d.Adds (ms.map .move) d' ∧ d'.Good ∧
      d'.stack.depth = d.stack.depth + 1 ∧ d'.stack.knowns = d.stack.knowns ++ [e.known] ∧
      ∀ {v vs x}, d.stack.Stands v vs → e.place.value? v = some x →
        ∃ v', v.performAll ms = some v' ∧ d'.stack.Stands v' (vs ++ [x]) ∧ v' = { v with operands := v'.operands } := by
  obtain ⟨v, vs, x, hst, hx⟩ := hg.valid.exists_stands_value hs
  obtain ⟨v', hrun, _, hst', hdepth, hknown⟩ := hst.push hs hx
  have hpush := hg.valid.pushes_push e
  obtain ⟨d', hd', hadds, hstack, hgood⟩ := adopt_ok hg hst hrun hst' (by omega)
  refine ⟨d', _, hd', hadds, hgood, by rw [hstack, hdepth], by rw [hstack, hknown], ?_⟩
  intro v vs x hst hx
  obtain ⟨v', hrun, hsame, hst', _⟩ := hst.push hs hx
  exact ⟨v', hrun, by rw [hstack]; exact hst', hsame⟩

/-- A slot that the program has is pushed like any other place. -/
theorem pushSlot_eq {job : Job β} {index : Nat} (h : index < job.program.slots) :
    pushSlot job index = push ⟨.slot index, none⟩ := by
  funext d
  show EStateM.bind _ _ d = _
  simp only [EStateM.bind, VirtualStack.pushSlot, if_pos h, guarded]
  rfl

theorem pushArg_eq {job : Job β} {index : Nat} (h : index < job.program.args) :
    pushArg job index = push ⟨.arg index, none⟩ := by
  funext d
  show EStateM.bind _ _ d = _
  simp only [EStateM.bind, VirtualStack.pushArg, if_pos h, guarded]
  rfl

theorem pushReg_ok (hg : d.Good) (hroom : d.stack.depth < 2 ^ 30) (reg : Reg) (known : Option ValueType) :
    ∃ d' ms, push ⟨.register reg, known⟩ d = .ok () d' ∧ d.Adds (ms.map .move) d' ∧ d'.Good ∧
      d'.stack.depth = d.stack.depth + 1 ∧ d'.stack.knowns = d.stack.knowns ++ [known] ∧
      ∀ {v vs}, d.stack.Stands v vs → ∃ v', v.performAll ms = some v' ∧
        d'.stack.Stands v' (vs ++ [v.registers.get reg]) ∧ v' = { v with operands := v'.operands } := by
  obtain ⟨d', ms, hd', hadds, hgood, hdepth, hknown, hrun⟩ := push_ok hg hroom (e := ⟨.register reg, known⟩) rfl
  exact ⟨d', ms, hd', hadds, hgood, hdepth, hknown, fun hst => hrun hst rfl⟩

theorem pushScratch_ok (hg : d.Good) (hroom : d.stack.depth < 2 ^ 30) :
    ∃ d' ms, pushScratch d = .ok () d' ∧ d.Adds (ms.map .move) d' ∧ d'.Good ∧
      d'.stack.depth = d.stack.depth + 1 ∧ d'.stack.knowns = d.stack.knowns ++ [none] ∧
      ∀ {v vs}, d.stack.Stands v vs → v.performAll ms = some { v with operands := vs ++ [v.scratch] } ∧
        d'.stack.Stands { v with operands := vs ++ [v.scratch] } (vs ++ [v.scratch]) := by
  obtain ⟨v, vs, hst, _⟩ := hg.valid.exists_stands 0
  obtain ⟨v', hrun, _, hst', hdepth, hknown⟩ := hst.pushScratch
  have hpush := hg.valid.pushes_pushScratch
  obtain ⟨d', hd', hadds, hstack, hgood⟩ := adopt_ok hg hst hrun hst' (by omega)
  refine ⟨d', _, hd', hadds, hgood, by rw [hstack, hdepth], by rw [hstack, hknown], ?_⟩
  intro v vs hst
  obtain ⟨v', hrun, rfl, hst', _⟩ := hst.pushScratch
  exact ⟨hrun, by rw [hstack]; exact hst'⟩

theorem get_eq (d : Draft β) : (get : Emit β (Draft β)) d = .ok d d := rfl

theorem depth_eq (d : Draft β) : (depth : Emit β Nat) d = .ok d.stack.depth d := rfl

theorem adopt_guarded (op : VirtualStack → Except Breach (List Move × VirtualStack)) {r : List Move × VirtualStack}
    (h : op d.stack = .ok r) : (do adopt (← guarded (op (← get).stack)) : Emit β Unit) d = adopt r d := by
  rw [bind_eq (get_eq d), h]
  rfl

end Emit

/-! ## What a step that succeeded has done -/

namespace Draft

open Emit

variable {d d' : Draft β}

/-- A step that changes the buffer, unless an assumption is broken. -/
theorem of_rewrite (f : CodeBuffer → Except Breach CodeBuffer)
    (h : (do let buffer ← guarded (f (← get).buffer); modify fun d => { d with buffer } : Emit β Unit) d = .ok () d') :
    ∃ buffer, f d.buffer = .ok buffer ∧ d' = { d with buffer } := by
  rw [bind_eq (get_eq d)] at h
  cases hb : f d.buffer with
  | error e => rw [hb] at h; cases h
  | ok buffer =>
    rw [hb] at h
    cases h
    exact ⟨buffer, rfl, rfl⟩

theorem of_moves {ms : List Move} (h : Emit.moves ms d = .ok () d') :
    ∃ buffer, d.buffer.emitMoves ms = .ok buffer ∧ d' = { d with buffer } := of_rewrite (·.emitMoves ms) h

theorem of_inst {i : Inst Label} (h : Emit.inst i d = .ok () d') :
    ∃ buffer, d.buffer.emit i = .ok buffer ∧ d' = { d with buffer } :=
  of_rewrite (·.emit i) h

theorem of_bind {label : Label} (h : Emit.bind label d = .ok () d') :
    ∃ buffer, d.buffer.bind label = .ok buffer ∧ d' = { d with buffer } := of_rewrite (·.bind label) h

theorem of_adopt {r : List Move × VirtualStack} (h : Emit.adopt r d = .ok () d') :
    ∃ buffer, d.buffer.emitMoves r.1 = .ok buffer ∧ d' = { d with buffer, stack := r.2 } := by
  obtain ⟨_, d₁, hd₁, hset⟩ := bind_ok_iff.mp h
  obtain ⟨buffer, hb, rfl⟩ := of_moves hd₁
  cases hset
  exact ⟨buffer, hb, rfl⟩

theorem of_adopt_guarded (op : VirtualStack → Except Breach (List Move × VirtualStack))
    (h : (do Emit.adopt (← guarded (op (← get).stack)) : Emit β Unit) d = .ok () d') :
    ∃ r, op d.stack = .ok r ∧ Emit.adopt r d = .ok () d' := by
  rw [bind_eq (get_eq d)] at h
  cases hr : op d.stack with
  | error b => rw [hr] at h; cases h
  | ok r =>
    rw [hr] at h
    exact ⟨r, rfl, h⟩

end Draft

namespace Emit

variable {d : Draft β}

/-! ## Values taken off the picture -/

/-- Every list of a given length is one of which the last element is known. -/
theorem exists_append_one {vs : List Value} {n : Nat} (h : vs.length = n + 1) :
    ∃ ws x, vs = ws ++ [x] ∧ ws.length = n := by
  have hne : vs ≠ [] := by rintro rfl; cases h
  exact ⟨vs.dropLast, vs.getLast hne, (List.dropLast_concat_getLast hne).symm, by simp [h]⟩

theorem popOne_ok {n : Nat} (hg : d.Good) (hroom : d.stack.depth < 2 ^ 30) (hn : d.stack.depth = n + 1) :
    ∃ d' ms, popRegisters 1 d = .ok () d' ∧ d.Adds (ms.map .move) d' ∧ d'.Good ∧ d'.stack.Settled ∧
      d'.stack.depth = n ∧ d'.stack.knowns = d.stack.knowns.take n ∧
      ∀ {v vs x}, d.stack.Stands v (vs ++ [x]) → ∃ v', v.performAll ms = some v' ∧ d'.stack.Stands v' vs ∧
        v' = { v with operands := vs }.setReg .r0 x := by
  obtain ⟨v, vs, hst, _⟩ := hg.valid.exists_stands 0
  obtain ⟨vs, x, rfl, hvs⟩ := exists_append_one (hst.length.trans hn)
  obtain ⟨ms, s', v', hpop, hrun, _, hst', hset, hknown⟩ := hst.popOne
  have hpush := hg.valid.pushes_popOne hpop
  have hle := d.stack.spilledCount_le
  obtain ⟨d', hd', hadds, hstack, hgood⟩ := adopt_ok hg hst (r := (ms, s')) hrun hst' (by omega)
  refine ⟨d', ms, (adopt_guarded (·.popRegisters 1) hpop).trans hd', hadds, hgood, by rw [hstack]; exact hset,
    by rw [hstack, ← hst'.length, hvs], by rw [hstack, hknown, hvs], ?_⟩
  intro v vs x hst
  obtain ⟨ms', s'', v', hpop', hrun, hsame, hst', _⟩ := hst.popOne
  rw [hpop] at hpop'
  cases hpop'
  exact ⟨v', hrun, by rw [hstack]; exact hst', hsame⟩

theorem popTwo_ok {n : Nat} (hg : d.Good) (hroom : d.stack.depth < 2 ^ 30) (hn : d.stack.depth = n + 2) :
    ∃ d' ms, popRegisters 2 d = .ok () d' ∧ d.Adds (ms.map .move) d' ∧ d'.Good ∧ d'.stack.Settled ∧
      d'.stack.depth = n ∧ d'.stack.knowns = d.stack.knowns.take n ∧
      ∀ {v vs a b}, d.stack.Stands v (vs ++ [a, b]) → ∃ v', v.performAll ms = some v' ∧ d'.stack.Stands v' vs ∧
        v' = { v with operands := vs, registers := v'.registers } ∧ v'.registers.r0 = a ∧ v'.registers.r1 = b := by
  obtain ⟨v, vs, hst, _⟩ := hg.valid.exists_stands 0
  obtain ⟨vs, b, rfl, hvs₁⟩ := exists_append_one (hst.length.trans hn)
  obtain ⟨vs, a, rfl, hvs⟩ := exists_append_one hvs₁
  rw [List.append_assoc] at hst
  obtain ⟨ms, s', v', hpop, hrun, _, _, _, hst', hset, hknown⟩ := hst.popTwo
  have hpush := hg.valid.pushes_popTwo hpop
  have hle := d.stack.spilledCount_le
  obtain ⟨d', hd', hadds, hstack, hgood⟩ := adopt_ok hg hst (r := (ms, s')) hrun hst' (by omega)
  refine ⟨d', ms, (adopt_guarded (·.popRegisters 2) hpop).trans hd', hadds, hgood, by rw [hstack]; exact hset,
    by rw [hstack, ← hst'.length, hvs], by rw [hstack, hknown, hvs], ?_⟩
  intro v vs a b hst
  obtain ⟨ms', s'', v', hpop', hrun, hsame, ha, hb, hst', _⟩ := hst.popTwo
  rw [hpop] at hpop'
  cases hpop'
  exact ⟨v', hrun, by rw [hstack]; exact hst', hsame, ha, hb⟩

theorem drop_ok {n k : Nat} (hg : d.Good) (hroom : d.stack.depth < 2 ^ 30) (hn : d.stack.depth = n + k) :
    ∃ d' ms, drop k d = .ok () d' ∧ d.Adds (ms.map .move) d' ∧ d'.Good ∧
      d'.stack.depth = n ∧ d'.stack.knowns = d.stack.knowns.take n ∧
      ∀ {v vs ys}, d.stack.Stands v (vs ++ ys) → ys.length = k → ∃ v', v.performAll ms = some v' ∧
        d'.stack.Stands v' vs ∧
        v' = { v with operands := v'.operands } := by
  obtain ⟨v, vs, hst, _⟩ := hg.valid.exists_stands 0
  have hsplit : vs = vs.take n ++ vs.drop n := (List.take_append_drop n vs).symm
  have hvs : (vs.take n).length = n := by rw [List.length_take, hst.length]; omega
  have hk : (vs.drop n).length = k := by rw [List.length_drop, hst.length]; omega
  rw [hsplit] at hst
  obtain ⟨ms, v', hpop, hrun, _, hst'⟩ := hst.drop
  rw [hk] at hpop
  have hpush := VirtualStack.pushes_drop hpop
  have hle := d.stack.spilledCount_le
  obtain ⟨d', hd', hadds, hstack, hgood⟩ := adopt_ok hg hst (r := (ms, _)) hrun hst' (by omega)
  refine ⟨d', ms, (adopt_guarded (·.drop k) hpop).trans hd', hadds, hgood, by rw [hstack, ← hst'.length, hvs],
    by rw [hstack, VirtualStack.knowns_take, hvs], ?_⟩
  intro v vs ys hst hys
  obtain ⟨ms', v', hpop', hrun, hsame, hst'⟩ := hst.drop
  rw [hys, hpop] at hpop'
  simp only [Except.ok.injEq, Prod.mk.injEq] at hpop'
  obtain ⟨rfl, hentries⟩ := hpop'
  refine ⟨v', hrun, by rw [hstack]; simp only; rw [hentries]; exact hst', by rw [hsame]⟩

/-- With one value on the stack, that value is taken. -/
theorem popLast_ok (hg : d.Good) (hn : d.stack.depth = 1) :
    ∃ d' ms, popInto .r0 d = .ok () d' ∧ d.Adds (ms.map .move) d' ∧ d'.Good ∧
      d'.stack.depth = 0 ∧ d'.stack.knowns = [] ∧
      ∀ {v x}, d.stack.Stands v [x] → ∃ v', v.performAll ms = some v' ∧ d'.stack.Stands v' [] ∧
        v' = { v with operands := [] }.setReg .r0 x := by
  have hnone : VirtualStack.Unclaimed ⟨d.stack.entries.take 0⟩ .r0 := fun e he => by cases he
  obtain ⟨v, vs, hst, _⟩ := hg.valid.exists_stands 0
  obtain ⟨vs, x, rfl, hvs⟩ := exists_append_one (hst.length.trans hn)
  cases List.eq_nil_of_length_eq_zero hvs
  obtain ⟨ms, v', hpop, hrun, _, hst'⟩ := hst.popInto .r0 hnone
  have hpush := VirtualStack.pushes_popInto hpop
  have hle := d.stack.spilledCount_le
  obtain ⟨d', hd', hadds, hstack, hgood⟩ := adopt_ok hg hst (r := (ms, _)) hrun hst' (by omega)
  refine ⟨d', ms, (adopt_guarded (·.popInto .r0) hpop).trans hd', hadds,
    hgood, by rw [hstack, ← hst'.length]; rfl, by rw [hstack]; rfl, ?_⟩
  intro v x hst
  have hst₀ : d.stack.Stands v ([] ++ [x]) := hst
  obtain ⟨ms', v', hpop', hrun, hsame, hst'⟩ := hst₀.popInto .r0 hnone
  rw [hpop] at hpop'
  cases hpop'
  exact ⟨v', hrun, by rw [hstack]; exact hst', by rw [hsame]; simp⟩

theorem flushAliases_ok {n : Nat} (hg : d.Good) (hroom : d.stack.depth < 2 ^ 30) (hn : d.stack.depth = n + 1)
    {place : Place} {dst : Address} (hplace : place.address? = some dst) (hdst : ∀ index, dst ≠ .stack index) :
    ∃ d' ms, flushAliases place d = .ok () d' ∧ d.Adds (ms.map .move) d' ∧ d'.Good ∧
      d'.stack.depth = d.stack.depth ∧ d'.stack.knowns = d.stack.knowns ∧ d'.stack.Clear n dst ∧
      ∀ {v vs}, d.stack.Stands v vs → ∃ v', v.performAll ms = some v' ∧ d'.stack.Stands v' vs ∧
        v' = { v with operands := v'.operands } := by
  obtain ⟨v, vs, hst, _⟩ := hg.valid.exists_stands 0
  obtain ⟨vs, x, rfl, hvs⟩ := exists_append_one (hst.length.trans hn)
  obtain ⟨v', hrun, _, hst', hclear, hknown⟩ := hst.flushAliases hplace hdst
  have hpush := hg.valid.pushes_flush (d.stack.aliasReach place)
  have hle := d.stack.spilledCount_le
  obtain ⟨d', hd', hadds, hstack, hgood⟩ := adopt_ok hg hst hrun hst' (by simp only [VirtualStack.flushAliases]; omega)
  refine ⟨d', _, hd', hadds, hgood, by rw [hstack]; exact VirtualStack.depth_flush _ _, by rw [hstack, hknown],
    by rw [hstack, ← hvs]; exact hclear, ?_⟩
  intro v vs hst
  obtain ⟨v', hrun, hsame, hst', _⟩ := hst.flush (d.stack.aliasReach place)
  exact ⟨v', hrun, by rw [hstack]; exact hst', hsame⟩

theorem peek_ok {n : Nat} (hn : d.stack.depth = n + 1) :
    ∃ e, peek 1 d = .ok e d ∧ d.stack.entries[n]? = some e ∧ d.stack.knowns.getLast? = some e.known := by
  have hlen : d.stack.entries.length = n + 1 := hn
  obtain ⟨e, he⟩ : ∃ e, d.stack.entries[n]? = some e := ⟨_, List.getElem?_eq_getElem (by omega)⟩
  have hrev : d.stack.entries.reverse[0]? = some e := by
    rw [List.getElem?_reverse (by omega), hlen]
    exact he
  refine ⟨e, ?_, he, ?_⟩
  · rw [peek, bind_eq (get_eq d)]
    simp only [VirtualStack.peek, Nat.le_refl, if_true, Nat.sub_self, hrev, guarded]
    rfl
  · rw [VirtualStack.knowns, List.getLast?_map, List.getLast?_eq_getElem?, hlen]
    simp [he]

/-- The top value is copied to a place in memory that no entry below it lives in, and that can be written to when the
    code runs; it stays on the stack. -/
theorem storeTop_ok {n : Nat} (hg : d.Good) (hroom : d.stack.depth < 2 ^ 30) (hn : d.stack.depth = n + 1)
    {dst : Address} (hdst : ∀ index, dst ≠ .stack index) (hclear : d.stack.Clear n dst) :
    ∃ d' ms, storeTop dst d = .ok () d' ∧ d.Adds (ms.map .move) d' ∧ d'.Good ∧
      d'.stack.depth = d.stack.depth ∧ d'.stack.knowns = d.stack.knowns ∧
      ∀ {v vs x v₁}, d.stack.Stands v (vs ++ [x]) → v.write? x dst = some v₁ →
        ∃ v', v.performAll ms = some v' ∧ d'.stack.Stands v' (vs ++ [x]) ∧
          v' = { v₁ with registers := v'.registers, operands := v'.operands } := by
  obtain ⟨v, vs, hst, _⟩ := hg.valid.exists_stands 0
  obtain ⟨v₁, hrun₁, _, hst₁, _, hknown, _⟩ := hst.freeRegister
  have hpush := hg.valid.pushes_freeRegister
  have hle := d.stack.spilledCount_le
  obtain ⟨d₁, hd₁, hadds₁, hstack₁, hgood₁⟩ := adopt_ok hg hst hrun₁ hst₁ (by omega)
  have hn₁ : d₁.stack.depth = n + 1 := by rw [hstack₁, ← hst₁.length, hst.length, hn]
  obtain ⟨e, hpeek, he, _⟩ := peek_ok hn₁
  -- The store leaves the operand stack alone, wherever the value comes from.
  obtain ⟨d₂, hd₂, hadds₂, hstack₂, hheight₂⟩ := moves_of_heightAfter (d := d₁)
    (Move.heightAfter_level fun m (hm : m ∈ e.place.store dst d.stack.freeRegister.1) => VirtualStack.height_store hm _)
  refine ⟨d₂, d.stack.freeRegister.2.1 ++ e.place.store dst d.stack.freeRegister.1, ?_, hadds₁.moves hadds₂,
    ?_, ?_, ?_, ?_⟩
  · rw [storeTop, bind_eq (get_eq d)]
    show (adopt d.stack.freeRegister.2 >>= _) d = _
    rw [bind_eq hd₁, bind_eq hpeek]
    exact hd₂
  · exact ⟨by rw [hstack₂]; exact hgood₁.valid, by rw [hheight₂, hstack₂, hgood₁.height]⟩
  · rw [hstack₂, hn₁, hn]
  · rw [hstack₂, hstack₁, hknown]
  · intro v vs x v₁ hst hw
    have hvs : vs.length = n := by
      have := hst.length
      simp only [List.length_append, List.length_singleton] at this
      omega
    obtain ⟨e', v', he', hrun, hst', hsame⟩ := hst.storeTop hdst (by rw [hvs]; exact hclear) hw
    rw [← hstack₁, hvs, he] at he'
    cases he'
    exact ⟨v', hrun, by rw [hstack₂, hstack₁]; exact hst', hsame⟩

/-- The top value goes to the scratch cell. -/
theorem stageTop_ok {n : Nat} (hg : d.Good) (hroom : d.stack.depth < 2 ^ 30) (hn : d.stack.depth = n + 1) :
    ∃ d' ms, stageTop d = .ok () d' ∧ d.Adds (ms.map .move) d' ∧ d'.Good ∧
      d'.stack.depth = n ∧ d'.stack.knowns = d.stack.knowns.take n ∧
      ∀ {v vs x}, d.stack.Stands v (vs ++ [x]) → ∃ v', v.performAll ms = some v' ∧ d'.stack.Stands v' vs ∧
        v' = { v with registers := v'.registers, operands := v'.operands, scratch := x } := by
  have hclear : d.stack.Clear n .scratch := fun k e _ _ haddr => by
    cases e with | mk place known => cases place <;> cases haddr
  obtain ⟨d₁, ms₁, hd₁, hadds₁, hgood₁, hdepth₁, hknowns₁, hrun₁⟩ :=
    storeTop_ok hg hroom hn (fun _ h => by cases h) hclear
  obtain ⟨d₂, ms₂, hd₂, hadds₂, hgood₂, hdepth₂, hknowns₂, hrun₂⟩ :=
    drop_ok (k := 1) hgood₁ (by omega) (hdepth₁.trans hn)
  refine ⟨d₂, ms₁ ++ ms₂, (bind_eq hd₁).trans hd₂, hadds₁.moves hadds₂, hgood₂, hdepth₂, by rw [hknowns₂, hknowns₁], ?_⟩
  intro v vs x hst
  have hwrite : v.write? x .scratch = some { v with scratch := x } := rfl
  obtain ⟨v₁, hperf₁, hst₁, hsame₁⟩ := hrun₁ hst hwrite
  obtain ⟨v₂, hperf₂, hst₂, hsame₂⟩ := hrun₂ hst₁ rfl
  exact ⟨v₂, (View.performAll_append hperf₁).trans hperf₂, hst₂, by rw [hsame₂, hsame₁]⟩

/-! ## Single instructions and labels -/

theorem inst_ok {i : Inst Label} (hi : i.height d.buffer.height = some d.buffer.height) :
    ∃ d', inst i d = .ok () d' ∧ d.Adds [i] d' ∧ d'.stack = d.stack ∧ d'.buffer.height = d.buffer.height := by
  refine ⟨{ d with
      buffer := { d.buffer with
        insts := d.buffer.insts.push i
        heights := d.buffer.heights.push d.buffer.height } },
    ?_, ⟨by simp, rfl, rfl, rfl, rfl, rfl, rfl⟩, rfl, rfl⟩
  rw [inst, bind_eq (get_eq d)]
  simp only [CodeBuffer.emit, hi, guarded]
  rfl

/-- An instruction that moves nothing keeps the draft good. -/
theorem inst_good {i : Inst Label} (hg : d.Good) (hi : i.height d.buffer.height = some d.buffer.height) :
    ∃ d', inst i d = .ok () d' ∧ d.Adds [i] d' ∧ d'.stack = d.stack ∧ d'.Good := by
  obtain ⟨d', hd', hadds, hstack, hheight⟩ := inst_ok hi
  exact ⟨d', hd', hadds, hstack, by rw [hstack]; exact hg.valid, by rw [hheight, hg.height, hstack]⟩

theorem move_good {m : Move} (hg : d.Good) (hm : ∀ h, m.height h = some h) :
    ∃ d', move m d = .ok () d' ∧ d.Adds ([m].map .move) d' ∧ d'.stack = d.stack ∧ d'.Good :=
  inst_good hg (hm _)

end Emit

namespace Draft

structure Binds (d : Draft β) (label : Label) (d' : Draft β) : Prop where
  eq : d' = { d with
    buffer := { d.buffer with labels := d.buffer.labels.setIfInBounds label.index (some d.buffer.offset) } }
  fresh : d.buffer.labels[label.index]? = some none

theorem Binds.grows {d d' : Draft β} {label : Label} (h : d.Binds label d') : d.Grows d' := by
  obtain ⟨rfl, hfresh⟩ := h
  refine ⟨fun hi => hi, fun {l offset} hl => ?_, fun hp => hp, fun hs => ⟨_, hs, rfl, rfl⟩, fun hs => hs, fun he => he,
    fun hp => hp, rfl, rfl⟩
  simp only [CodeBuffer.labelOffset?] at hl ⊢
  rw [Array.getElem?_setIfInBounds]
  split
  · rename_i heq
    rw [← heq, hfresh] at hl
    cases hl
  · exact hl

theorem Binds.bound {d d' : Draft β} {label : Label} (h : d.Binds label d') :
    d'.buffer.labelOffset? label = some d.buffer.offset := by
  obtain ⟨rfl, hfresh⟩ := h
  have hlt : label.index < d.buffer.labels.size := (Array.getElem?_eq_some_iff.mp hfresh).1
  simp [CodeBuffer.labelOffset?, hlt]

theorem Binds.offset {d d' : Draft β} {label : Label} (h : d.Binds label d') : d'.buffer.offset = d.buffer.offset := by
  obtain ⟨rfl, _⟩ := h
  rfl

theorem Binds.stack {d d' : Draft β} {label : Label} (h : d.Binds label d') : d'.stack = d.stack := by
  obtain ⟨rfl, _⟩ := h
  rfl

theorem Binds.good {d d' : Draft β} {label : Label} (h : d.Binds label d') (hg : d.Good) : d'.Good := by
  obtain ⟨rfl, _⟩ := h
  exact ⟨hg.valid, hg.height⟩

end Draft

namespace Emit

variable {d : Draft β}

theorem bind_label_ok {l : Label} (h : d.buffer.labels[l.index]? = some none) :
    ∃ d', Emit.bind l d = .ok () d' ∧ d.Binds l d' := by
  refine ⟨_, ?_, rfl, h⟩
  rw [Emit.bind, bind_eq (get_eq d)]
  simp only [CodeBuffer.bind, h, guarded]
  rfl

theorem assume_ok {condition : Bool} (h : condition = true) (b : Breach) (d : Draft β) :
    (assume condition b : Emit β Unit) d = .ok () d := by
  rw [assume, if_pos h]
  rfl

/-- An offset of the program has its label. -/
theorem label_ok {job : Job β} {offset : Nat} (h : offset < job.program.length) :
    label job offset d = .ok (labelOf offset) d := by
  rw [label, bind_eq (assume_ok (decide_eq_true h) _ d)]
  rfl

theorem newLabel_eq (d : Draft β) :
    newLabel d = .ok ⟨d.buffer.labels.size⟩
      { d with buffer := { d.buffer with labels := d.buffer.labels.push none } } := rfl

end Emit

/-! ## Sites -/

def SiteTable.refusal? (t : SiteTable β) : Option CompileError :=
  if t.maxSites ≤ t.size then some (.tableFull t.maxSites)
  else if t.store.limit ≤ t.store.size then some (.stubsExhausted t.store.limit)
  else none

namespace Draft

def Fits (d : Draft β) : Prop := d.sites.sites.size ≤ d.sites.maxSites ∧ d.sites.store.stubs.size ≤ d.sites.store.limit

structure Sited (d : Draft β) (kind : SiteKind) (body : β) (d' : Draft β) : Prop where
  insts : d'.buffer.insts = d.buffer.insts.push (.callSite d.buffer.patches.size)
  labels : d'.buffer.labels = d.buffer.labels
  patches : d'.buffer.patches = d.buffer.patches.push ⟨d.buffer.offset, d.sites.sites.size % 2 ^ 32⟩
  height : d'.buffer.height = d.buffer.height
  heights : d'.buffer.heights = d.buffer.heights.push d.buffer.height
  sites : d'.sites.sites =
    (d.sites.sites.push ⟨UInt32.ofNat d.pc, kind, 0, d.sites.store.stubs.size % 2 ^ 32⟩).modify
      (d.sites.sites.size % 2 ^ 32)
      fun site => { site with returnOffset := d.buffer.offset + 1 }
  stubs : d'.sites.store.stubs = d.sites.store.stubs.push ⟨.fallback, body, none⟩
  limits : d'.sites.maxSites = d.sites.maxSites ∧ d'.sites.store.limit = d.sites.store.limit
  fits : d'.Fits
  stack : d'.stack = d.stack
  exit : d'.exit = d.exit
  pc : d'.pc = d.pc
  phase : d'.phase = d.phase

theorem getElem?_push_of_some {xs : Array α} {k : Nat} {a : α} (b : α) (h : xs[k]? = some a) :
    (xs.push b)[k]? = some a := by
  have hlt : k < xs.size := (Array.getElem?_eq_some_iff.mp h).1
  rw [Array.getElem?_push, if_neg (by omega)]
  exact h

theorem Sited.patched {d d' : Draft β} {kind : SiteKind} {body : β} (h : d.Sited kind body d') (hp : d.Patched) :
    d'.Patched := by
  unfold Patched
  rw [h.patches, h.sites, Array.size_modify, Array.size_push]
  intro p hmem
  rcases Array.mem_push.mp hmem with hmem | rfl
  · exact Nat.lt_succ_of_lt (hp p hmem)
  · exact Nat.lt_succ_of_le (Nat.mod_le _ _)

theorem Sited.grows {d d' : Draft β} {kind : SiteKind} {body : β} (h : d.Sited kind body d') : d.Grows d' := by
  refine ⟨fun hi => ?_, fun hl => ?_, fun hp => ?_, fun hs => ?_, fun hs => ?_, fun he => by rw [h.exit]; exact he,
    h.patched, h.limits⟩
  · rw [h.insts]
    exact getElem?_push_of_some _ hi
  · rw [CodeBuffer.labelOffset?, h.labels]
    exact hl
  · rw [h.patches]
    exact getElem?_push_of_some _ hp
  · rw [h.sites, Array.getElem?_modify, getElem?_push_of_some _ hs]
    split
    · exact ⟨_, rfl, rfl, rfl⟩
    · exact ⟨_, rfl, rfl, rfl⟩
  · rw [h.stubs]
    exact getElem?_push_of_some _ hs

theorem modify_push (xs : Array α) (a : α) (f : α → α) : (xs.push a).modify xs.size f = xs.push (f a) := by
  refine Array.ext (by simp) fun k hk _ => ?_
  rw [Array.getElem_modify, Array.getElem_push, Array.getElem_push]
  by_cases hlt : k < xs.size
  · simp [hlt, Nat.ne_of_gt hlt]
  · simp [show xs.size = k by simp at hk; omega]

/-- As long as 32 bits can number them, the site that is recorded is the new one. -/
theorem Sited.sites_of_lt {d d' : Draft β} {kind : SiteKind} {body : β} (h : d.Sited kind body d')
    (hlt : d.sites.sites.size < 2 ^ 32) : d'.sites.sites =
      d.sites.sites.push ⟨UInt32.ofNat d.pc, kind, d.buffer.offset + 1, d.sites.store.stubs.size % 2 ^ 32⟩ := by
  rw [h.sites, Nat.mod_eq_of_lt hlt, modify_push]

theorem Sited.offset {d d' : Draft β} {kind : SiteKind} {body : β} (h : d.Sited kind body d') :
    d'.buffer.offset = d.buffer.offset + 1 := by
  simp [CodeBuffer.offset, h.insts]

theorem Sited.good {d d' : Draft β} {kind : SiteKind} {body : β} (h : d.Sited kind body d') (hg : d.Good) : d'.Good :=
  ⟨by rw [h.stack]; exact hg.valid, by rw [h.height, h.stack, hg.height]⟩

def Lacks (d : Draft β) (n : Nat) (e : CompileError) : Prop :=
  (e = .tableFull d.sites.maxSites ∧ d.sites.maxSites < d.sites.sites.size + n) ∨
    (e = .stubsExhausted d.sites.store.limit ∧ d.sites.store.limit < d.sites.store.stubs.size + n)

theorem Lacks.mono {d : Draft β} {n k : Nat} {e : CompileError} (h : d.Lacks n e) (hle : n ≤ k) : d.Lacks k e :=
  h.imp (fun h => ⟨h.1, by omega⟩) fun h => ⟨h.1, by omega⟩

theorem Adds.lacks {d d' : Draft β} {is : List (Inst Label)} (h : d.Adds is d') (n : Nat) : d'.Lacks n = d.Lacks n := by
  funext e
  rw [Lacks, Lacks, h.sites]

/-! ## The code of an instruction -/

/-- So many sites are new. The labels that there were are as they were, and what is new goes to a label that is bound,
    or to one that may wait. -/
structure Extends (d : Draft β) (n : Nat) (T : Label → Prop) (d' : Draft β) : Prop where
  grows : d.Grows d'
  labels : ∀ {k : Nat}, k < d.buffer.labels.size → d'.buffer.labels[k]? = d.buffer.labels[k]?
  targets : ∀ {k : Nat} {i : Inst Label} {l : Label}, d'.buffer.insts[k]? = some i → i.target? = some l →
    d.buffer.insts[k]? = some i ∨ (d'.buffer.labelOffset? l).isSome ∨ T l
  sites : d'.sites.sites.size = d.sites.sites.size + n
  stubs : d'.sites.store.stubs.size = d.sites.store.stubs.size + n
  fits : d.Fits → d'.Fits
  phase : d'.phase = d.phase

theorem Extends.refl (d : Draft β) (T : Label → Prop) : d.Extends 0 T d :=
  ⟨.refl d, fun _ => rfl, fun hk _ => .inl hk, rfl, rfl, fun h => h, rfl⟩

theorem Extends.trans {d d' d'' : Draft β} {n n' : Nat} {T : Label → Prop} (h : d.Extends n T d')
    (h' : d'.Extends n' T d'') :
    d.Extends (n + n') T d'' := by
  refine ⟨h.grows.trans h'.grows, fun {k} hk => ?_, fun hk ht => ?_, by rw [h'.sites, h.sites, Nat.add_assoc],
    by rw [h'.stubs, h.stubs, Nat.add_assoc], fun hf => h'.fits (h.fits hf), h'.phase.trans h.phase⟩
  · have hsome : d'.buffer.labels[k]? = some d.buffer.labels[k] := by rw [h.labels hk, Array.getElem?_eq_getElem hk]
    rw [h'.labels (Array.getElem?_eq_some_iff.mp hsome).1, h.labels hk]
  · rcases h'.targets hk ht with hk | hbound | hwait
    · rcases h.targets hk ht with hk | hbound | hwait
      · exact .inl hk
      · obtain ⟨offset, hl⟩ := Option.isSome_iff_exists.mp hbound
        exact .inr (.inl (by rw [h'.grows.labels hl]; rfl))
      · exact .inr (.inr hwait)
    · exact .inr (.inl hbound)
    · exact .inr (.inr hwait)

theorem Extends.mono {d d' : Draft β} {n : Nat} {T T' : Label → Prop} (h : d.Extends n T d') (ht : ∀ l, T l → T' l) :
    d.Extends n T' d' :=
  ⟨h.grows, h.labels, fun hk hl => (h.targets hk hl).imp_right fun hl => hl.imp_right (ht _), h.sites, h.stubs,
    h.fits, h.phase⟩

theorem Adds.extends {d d' : Draft β} {is : List (Inst Label)} {T : Label → Prop} (h : d.Adds is d')
    (ht : ∀ i ∈ is, ∀ l, i.target? = some l → T l) : d.Extends 0 T d' := by
  refine ⟨h.grows, fun _ => by rw [h.labels], fun {k i l} hk hl => ?_, by rw [h.sites]; rfl, by rw [h.sites]; rfl,
    fun hf => by rw [Fits, h.sites]; exact hf, h.phase⟩
  rw [h.insts, Array.getElem?_append] at hk
  split at hk
  · exact .inl hk
  · exact .inr (.inr (ht i (by simpa using Array.mem_of_getElem? hk) l hl))

theorem Adds.extends_inst {d d' : Draft β} {i : Inst Label} {T : Label → Prop} (h : d.Adds [i] d')
    (ht : ∀ l, i.target? = some l → T l) :
    d.Extends 0 T d' := by
  refine h.extends fun j hj => ?_
  obtain rfl := List.mem_singleton.mp hj
  exact ht

theorem Adds.extends_moves {d d' : Draft β} {ms : List Move} (h : d.Adds (ms.map .move) d') (T : Label → Prop) :
    d.Extends 0 T d' := by
  refine h.extends fun i hi l hl => ?_
  obtain ⟨m, _, rfl⟩ := List.mem_map.mp hi
  cases hl

theorem Sited.extends {d d' : Draft β} {kind : SiteKind} {body : β} (h : d.Sited kind body d') (T : Label → Prop) :
    d.Extends 1 T d' := by
  refine ⟨h.grows, fun _ => by rw [h.labels], fun {k i l} hk hl => ?_,
    by rw [h.sites, Array.size_modify, Array.size_push], by rw [h.stubs, Array.size_push], fun _ => h.fits, h.phase⟩
  rw [h.insts, Array.getElem?_push] at hk
  split at hk
  · cases hk; cases hl
  · exact .inl hk

theorem extends_newLabel (d : Draft β) (T : Label → Prop) :
    d.Extends 0 T { d with buffer := { d.buffer with labels := d.buffer.labels.push none } } := by
  have hlabels {k : Nat} (hk : k < d.buffer.labels.size) : (d.buffer.labels.push none)[k]? = d.buffer.labels[k]? := by
    rw [Array.getElem?_push, if_neg (by omega)]
  refine ⟨⟨fun hi => hi, fun {l offset} hl => ?_, fun hp => hp, fun hs => ⟨_, hs, rfl, rfl⟩, fun hs => hs, fun he => he,
      fun hp => hp, rfl, rfl⟩,
    hlabels, fun hk _ => .inl hk, rfl, rfl, fun hf => hf, rfl⟩
  have hl' : d.buffer.labels[l.index]?.join = some offset := hl
  have hlt : l.index < d.buffer.labels.size := by
    by_cases hlt : l.index < d.buffer.labels.size
    · exact hlt
    · rw [Array.getElem?_eq_none (by omega)] at hl'
      cases hl'
  show (d.buffer.labels.push none)[l.index]?.join = some offset
  rw [hlabels hlt, hl']

/-- A label of the code's own is bound in the end. -/
theorem Extends.bind {d d' d'' : Draft β} {n : Nat} {label : Label} (h : d.Extends n (· = label) d')
    (hb : d'.Binds label d'') (hown : d.buffer.labels.size ≤ label.index) (T : Label → Prop) : d.Extends n T d'' := by
  have hgrows := hb.grows
  have hbound := hb.bound
  obtain ⟨rfl, _⟩ := hb
  refine ⟨h.grows.trans hgrows, fun {k} hk => ?_, fun hk hl => ?_, h.sites, h.stubs, h.fits, h.phase⟩
  · rw [Array.getElem?_setIfInBounds_ne (by omega)]
    exact h.labels hk
  · rcases h.targets hk hl with hk | hb | rfl
    · exact .inl hk
    · obtain ⟨offset, hl⟩ := Option.isSome_iff_exists.mp hb
      exact .inr (.inl (by rw [hgrows.labels hl]; rfl))
    · exact .inr (.inl (by rw [hbound]; rfl))

/-- What is lacking later was lacking before. -/
theorem Extends.lacks {d d' : Draft β} {n k : Nat} {T : Label → Prop} {e : CompileError} (h : d.Extends n T d')
    (he : d'.Lacks k e) : d.Lacks (n + k) e := by
  obtain ⟨hmax, hlimit⟩ := h.grows.limits
  rcases he with ⟨he, hlt⟩ | ⟨he, hlt⟩
  · rw [hmax] at he hlt
    rw [h.sites] at hlt
    exact .inl ⟨he, by omega⟩
  · rw [hlimit] at he hlt
    rw [h.stubs] at hlt
    exact .inr ⟨he, by omega⟩

end Draft

namespace Emit

variable {d : Draft β}

theorem site_error {job : Job β} {kind : SiteKind} {e : CompileError} {t : SiteTable β}
    (h : d.sites.allocate job.factory kind d.pc = (.error e, t)) :
    site job kind d = .error (.error e) { d with sites := t } := by
  rw [site, bind_eq (get_eq d)]
  simp only [h]
  rfl

/-- A kind that the factory makes nothing for gets no site. -/
theorem site_unmade {job : Job β} {kind : SiteKind} (h : job.factory d.sites.requests kind = none) :
    ∃ e d', site job kind d = .error (.error e) d' := by
  obtain ⟨e, t, halloc⟩ : ∃ e t, d.sites.allocate job.factory kind d.pc = (.error e, t) := by
    unfold SiteTable.allocate
    split
    · exact ⟨_, _, rfl⟩
    · simp only [h]
      exact ⟨_, _, rfl⟩
  exact ⟨e, _, site_error halloc⟩

theorem site_ok {job : Job β} {kind : SiteKind} {index : Nat} {t : SiteTable β}
    (h : d.sites.allocate job.factory kind d.pc = (.ok index, t)) (hi : index < t.sites.size) :
    site job kind d = .ok () { d with
      buffer := { d.buffer with
        patches := d.buffer.patches.push ⟨d.buffer.offset, index⟩
        insts := d.buffer.insts.push (.callSite d.buffer.patches.size)
        heights := d.buffer.heights.push d.buffer.height }
      sites := { t with
        sites := t.sites.modify index fun site => { site with returnOffset := d.buffer.insts.size + 1 } } } := by
  have hret : t.setReturn index (d.buffer.insts.push (Inst.callSite d.buffer.patches.size)).size = .ok { t with
      sites := t.sites.modify index fun site => { site with returnOffset := d.buffer.insts.size + 1 } } := by
    rw [SiteTable.setReturn, SiteTable.size, if_pos hi, Array.size_push]
  have hguard : (guarded (t.setReturn index (d.buffer.insts.push (Inst.callSite d.buffer.patches.size)).size) :
      Emit β (SiteTable β)) = pure { t with
        sites := t.sites.modify index fun site => { site with returnOffset := d.buffer.insts.size + 1 } } := by
    rw [hret]
    rfl
  rw [site, bind_eq (get_eq d)]
  simp only [h]
  show (guarded (t.setReturn index (d.buffer.insts.push (Inst.callSite d.buffer.patches.size)).size) >>= _) _ = _
  rw [hguard]
  rfl

/-- A site is refused exactly if there is no room for it. -/
theorem site_refused (job : Job β) (kind : SiteKind) {body : β}
    (hbody : job.factory d.sites.requests kind = some body) :
    Yields (site job kind) d (fun e => d.sites.refusal? = some e) fun _ d' =>
      d.sites.refusal? = none ∧ d.Sited kind body d' := by
  by_cases hfull : d.sites.maxSites ≤ d.sites.sites.size
  · have halloc : d.sites.allocate job.factory kind d.pc = (.error (.tableFull d.sites.maxSites), d.sites) := by
      rw [SiteTable.allocate, SiteTable.size, if_pos hfull]
    rw [Yields, site_error halloc]
    exact if_pos hfull
  · by_cases hroom : d.sites.store.stubs.size < d.sites.store.limit
    · have hadd : d.sites.store.add ⟨.fallback, body, none⟩ = .ok (d.sites.store.stubs.size % 2 ^ 32,
          { d.sites.store with stubs := d.sites.store.stubs.push ⟨.fallback, body, none⟩ }) := if_pos hroom
      have halloc : d.sites.allocate job.factory kind d.pc = (.ok (d.sites.sites.size % 2 ^ 32), { d.sites with
          requests := d.sites.requests + 1
          store := { d.sites.store with stubs := d.sites.store.stubs.push ⟨.fallback, body, none⟩ }
          sites := d.sites.sites.push
            { pc := UInt32.ofNat d.pc, kind, head := d.sites.store.stubs.size % 2 ^ 32 } }) := by
        simp only [SiteTable.allocate, SiteTable.size, if_neg hfull, hbody, hadd]
      have hindex : d.sites.sites.size % 2 ^ 32 < d.sites.sites.size + 1 := Nat.lt_succ_of_le (Nat.mod_le _ _)
      refine .of_ok (site_ok halloc (by rw [Array.size_push]; exact hindex))
        ⟨?_, rfl, rfl, rfl, rfl, rfl, rfl, rfl, ⟨rfl, rfl⟩, ?_, rfl, rfl, rfl, rfl⟩
      · exact (if_neg hfull).trans (if_neg (Nat.not_le_of_lt hroom))
      · exact ⟨by simp; omega, by simp; omega⟩
    · have hadd : d.sites.store.add ⟨.fallback, body, none⟩ =
        .error (.stubsExhausted d.sites.store.limit) := if_neg hroom
      have halloc : d.sites.allocate job.factory kind d.pc =
          (.error (.stubsExhausted d.sites.store.limit), { d.sites with requests := d.sites.requests + 1 }) := by
        simp only [SiteTable.allocate, SiteTable.size, if_neg hfull, hbody, hadd]
      rw [Yields, site_error halloc]
      exact (if_neg hfull).trans (if_pos (Nat.le_of_not_lt hroom))

theorem lacks_of_refusal {e : CompileError} (h : d.sites.refusal? = some e) : d.Lacks 1 e := by
  unfold SiteTable.refusal? at h
  split at h
  · cases h
    exact .inl ⟨rfl, Nat.lt_succ_of_le (by assumption)⟩
  · split at h
    · cases h
      exact .inr ⟨rfl, Nat.lt_succ_of_le (by assumption)⟩
    · cases h

theorem site_yields (job : Job β) (kind : SiteKind) {body : β} (hbody : job.factory d.sites.requests kind = some body) :
    Yields (site job kind) d (d.Lacks 1) fun _ d' => d.Sited kind body d' :=
  (site_refused job kind hbody).mono (fun _ he => lacks_of_refusal he) fun _ _ h => h.2

/-! ## Operands and names -/

theorem atom_ok {job : Job β} {index : UInt32} {text : String} {atom : Atom}
    (ht : job.program.atomText? index.toNat = some text) (ha : job.atoms.lookup text = some atom) :
    Emit.atom job index d = .ok atom d := by
  simp only [Emit.atom, ht, ha]
  rfl

end Emit

namespace Lowering

variable {d : Draft β} {i : Instruction}

theorem count_of_u16 {n : UInt16} (h : i.u16? = some n) : i.count = n.toNat := by
  rw [Instruction.count, h]
  rfl

theorem u16_ok {n : UInt16} (h : i.u16? = some n) : (u16 i : Emit β UInt16) d = .ok n d := by
  rw [u16, h]; rfl

theorem u32_ok {n : UInt32} (h : i.u32? = some n) : (u32 i : Emit β UInt32) d = .ok n d := by
  rw [u32, h]; rfl

theorem target_ok {job : Job β} {offset : Nat} (h : i.target? = some offset) (hlt : offset < job.program.length) :
    target job i d = .ok (Emit.labelOf offset) d := by
  rw [target, h]
  exact Emit.label_ok hlt

end Lowering
end BaselineTier
