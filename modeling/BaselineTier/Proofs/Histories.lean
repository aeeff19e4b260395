/-
  BaselineTier.Proofs.Histories — whole histories of operations on the picture.

  An operation asks the picture for moves, which may end in a breach (`Operation.apply`), and
  a step of a compilation emits them and takes the new picture over (`Operation.emit`). What
  one operation keeps (`Keeps`): the rules of the picture, and that the height counted over
  its moves is the number of entries written out, without a move that goes below the frame.

  Main statement: from the empty picture, a history whose operations are allowed keeps all of
  this after every one of them, as long as 32 bits count the entries of every picture on the
  way (`histories_keep_the_rules`). A picture with one entry more than that has a height that
  nothing can be taken from (`outgrowing_goes_below_the_frame`).
-/

import BaselineTier.Proofs.Writing

namespace BaselineTier

variable {β : Type}

namespace VirtualStack

/-! ## Operations -/

inductive Operation where
  | pushConstant (value : Value)
  | pushSlot (index : Nat)
  | pushArg (index : Nat)
  | pushReg (reg : Reg)
  | pushTyped (reg : Reg) (type : ValueType)
  | pushScratch
  | popInto (reg : Reg)
  | pop
  | drop (count : Nat)
  | popRegisters (uses : Nat)
  | flushBelow (keep : Nat)
  | flushSlot (index : Nat)
  | flushArg (index : Nat)
  | freeRegister
  /-- Copies a value to a place in memory; the picture does not change. -/
  | store (e : Entry) (dst : Address) (via : Reg)
  /-- Arrives where control meets with this many values on the stack. -/
  | merge (depth : Nat)
deriving Repr

namespace Operation

def apply (p : Program) (s : VirtualStack) : Operation → Except Breach (List Move × VirtualStack)
  | pushConstant value => .ok (s.push (.constant value))
  | pushSlot index => s.pushSlot p.slots index
  | pushArg index => s.pushArg p.args index
  | pushReg reg => .ok (s.push ⟨.register reg, none⟩)
  | pushTyped reg type => .ok (s.push ⟨.register reg, some type⟩)
  | pushScratch => .ok s.pushScratch
  | popInto reg => s.popInto reg
  | pop => s.drop 1
  | drop count => s.drop count
  | popRegisters uses => s.popRegisters uses
  | flushBelow keep => .ok (s.flushBelow keep)
  | flushSlot index => .ok (s.flushAliases (.slot index))
  | flushArg index => .ok (s.flushAliases (.arg index))
  | freeRegister => .ok s.freeRegister.2
  | store e dst via => .ok (e.place.store dst via, s)
  | merge depth => .ok ((s.flushBelow 0).1, (s.flushBelow 0).2.resize depth)

/-- The step of a compilation that carries out an operation. A merge also sets the height that is counted. -/
def emit (job : Job β) : Operation → Emit β Unit
  | pushConstant value => Emit.push (.constant value)
  | pushSlot index => Emit.pushSlot job index
  | pushArg index => Emit.pushArg job index
  | pushReg reg => Emit.pushReg reg
  | pushTyped reg type => Emit.push ⟨.register reg, some type⟩
  | pushScratch => Emit.pushScratch
  | popInto reg => Emit.popInto reg
  | pop => Emit.drop 1
  | drop count => Emit.drop count
  | popRegisters uses => Emit.popRegisters uses
  | flushBelow keep => Emit.flushBelow keep
  | flushSlot index => Emit.flushAliases (.slot index)
  | flushArg index => Emit.flushAliases (.arg index)
  | freeRegister => do Emit.adopt (← get).stack.freeRegister.2
  | store e dst via => Emit.moves (e.place.store dst via)
  | merge depth => do
    Emit.flushBelow 0
    modify fun d => { d with stack := d.stack.resize depth, buffer := { d.buffer with height := depth } }

end Operation

def after (p : Program) (s : VirtualStack) : List Operation → Except Breach VirtualStack
  | [] => .ok s
  | op :: ops => do (← op.apply p s).2.after p ops

def emitAll (job : Job β) : List Operation → Emit β Unit
  | [] => pure ()
  | op :: ops => do op.emit job; emitAll job ops

/-! ## One operation -/

variable {p : Program} {s : VirtualStack} {r : List Move × VirtualStack}

/-- An operation leads from a valid picture to a valid one, and its moves from the height of the one to the height of
    the other, if 32 bits count the entries of both. -/
structure Keeps (s : VirtualStack) (r : List Move × VirtualStack) : Prop where
  valid : r.2.Valid
  height : s.depth < 2 ^ 32 → r.2.depth < 2 ^ 32 → Move.heightAfter s.spilledCount r.1 = some r.2.spilledCount

/-- It is enough that some view can carry out the moves, with no more pushes than entries. -/
theorem keeps_of_stands {v v' : View} {vs vs' : List Value} (hst : s.Stands v vs) (hrun : v.performAll r.1 = some v')
    (hst' : r.2.Stands v' vs') (hroom : s.spilledCount + r.1.countP Move.isPush ≤ max s.depth r.2.depth) :
    s.Keeps r := by
  refine ⟨hst'.valid, fun hs hr => ?_⟩
  have hafter := View.heightAfter_of_performAll hrun (by rw [hst.height]; omega)
  rwa [hst.height, hst'.height] at hafter

theorem Valid.keeps_flush (h : s.Valid) (count : Nat) : s.Keeps (s.flush count) := by
  obtain ⟨v, vs, hst, _⟩ := h.exists_stands 0
  obtain ⟨v', hrun, _, hst', _⟩ := hst.flush count
  have hpush := h.pushes_flush count
  have hle := s.spilledCount_le
  exact keeps_of_stands hst hrun hst' (by omega)

theorem Valid.keeps_freeRegister (h : s.Valid) : s.Keeps s.freeRegister.2 := by
  obtain ⟨v, vs, hst, _⟩ := h.exists_stands 0
  obtain ⟨v', hrun, _, hst', _⟩ := hst.freeRegister
  have hpush := h.pushes_freeRegister
  have hle := s.spilledCount_le
  exact keeps_of_stands hst hrun hst' (by omega)

theorem Valid.keeps_push {e : Entry} (h : s.Valid) (hs : e.place.isSpilled = false) : s.Keeps (s.push e) := by
  obtain ⟨v, vs, x, hst, hx⟩ := h.exists_stands_value hs
  obtain ⟨v', hrun, _, hst', _⟩ := hst.push hs hx
  have hpush := h.pushes_push e
  exact keeps_of_stands hst hrun hst' (by omega)

theorem Valid.keeps_pushSlot {slots index : Nat} (h : s.Valid) (hr : s.pushSlot slots index = .ok r) : s.Keeps r := by
  unfold VirtualStack.pushSlot at hr
  split at hr
  · cases hr
    exact h.keeps_push rfl
  · cases hr

theorem Valid.keeps_pushArg {args index : Nat} (h : s.Valid) (hr : s.pushArg args index = .ok r) : s.Keeps r := by
  unfold VirtualStack.pushArg at hr
  split at hr
  · cases hr
    exact h.keeps_push rfl
  · cases hr

theorem Valid.keeps_pushScratch (h : s.Valid) : s.Keeps s.pushScratch := by
  obtain ⟨v, vs, hst, _⟩ := h.exists_stands 0
  obtain ⟨v', hrun, _, hst', hdepth, _⟩ := hst.pushScratch
  have hpush := h.pushes_pushScratch
  exact keeps_of_stands hst hrun hst' (by omega)

theorem Valid.keeps_drop {count : Nat} (h : s.Valid) (hr : s.drop count = .ok r) : s.Keeps r := by
  have hcount : count ≤ s.depth := by
    unfold VirtualStack.drop at hr
    split at hr
    · assumption
    · cases hr
  obtain ⟨v, vs, hst, _⟩ := h.exists_stands 0
  obtain ⟨r', v', hdrop, hrun, _, hst'⟩ := hst.drop_of_le hcount
  rw [hr] at hdrop
  cases hdrop
  have hle := s.spilledCount_le
  exact keeps_of_stands hst hrun hst' (by rw [pushes_drop hr]; omega)

/-- Whatever the register that the top value is taken to holds, and whoever claims it, the heights agree. -/
theorem Valid.keeps_popInto {dst : Reg} (h : s.Valid) (hr : s.popInto dst = .ok r) : s.Keeps r := by
  obtain ⟨v, vs, hst, _⟩ := h.exists_stands 0
  have hdepth : s.depth = (s.depth - 1) + 1 := by
    by_contra hzero
    have hnil : s.entries = [] := List.eq_nil_of_length_eq_zero (show s.depth = 0 by omega)
    simp only [VirtualStack.popInto, hnil] at hr
    cases hr
  obtain ⟨vs, x, rfl, _⟩ := Emit.exists_append_one (hst.length.trans hdepth)
  obtain ⟨e, he, hlast, hdrop, hx⟩ := hst.top
  obtain ⟨htop, hops⟩ := hst.operands_below he
  simp only [VirtualStack.popInto, hlast, hdrop] at hr
  cases hr
  obtain ⟨hvalid, hcount⟩ := h.take vs.length
  refine ⟨hvalid, fun hs _ => ?_⟩
  have hle := s.spilledCount_le
  have hafter := View.heightAfter_of_performAll (performAll_load dst hx htop) (by rw [hst.height, pushes_load]; omega)
  rw [hops] at hafter
  simpa only [hst.height, hcount, View.setReg, List.length_take] using hafter

theorem Valid.keeps_popRegisters {uses : Nat} (h : s.Valid) (hr : s.popRegisters uses = .ok r) : s.Keeps r := by
  obtain ⟨v, vs, hst, _⟩ := h.exists_stands 0
  have hle := s.spilledCount_le
  unfold VirtualStack.popRegisters at hr
  split at hr
  · have hdepth : s.depth = (s.depth - 1) + 1 := by
      by_contra hzero
      rw [VirtualStack.popOne, if_pos (by omega)] at hr
      cases hr
    obtain ⟨vs, x, rfl, _⟩ := Emit.exists_append_one (hst.length.trans hdepth)
    obtain ⟨moves, s', v', hpop, hrun, _, hst', _⟩ := hst.popOne
    have hpush := h.pushes_popOne hr
    rw [hr] at hpop
    cases hpop
    exact keeps_of_stands hst hrun hst' (by omega)
  · have hdepth : s.depth = (s.depth - 2) + 2 := by
      by_contra hfew
      rw [VirtualStack.popTwo, if_pos (by omega)] at hr
      cases hr
    obtain ⟨vs, a, b, rfl⟩ : ∃ ws a b, vs = ws ++ [a, b] := by
      obtain ⟨ws, b, rfl, hws⟩ := Emit.exists_append_one (hst.length.trans hdepth)
      obtain ⟨ws, a, rfl, _⟩ := Emit.exists_append_one hws
      exact ⟨ws, a, b, by simp⟩
    obtain ⟨moves, s', v', hpop, hrun, _, _, _, hst', _⟩ := hst.popTwo
    have hpush := h.pushes_popTwo hr
    rw [hr] at hpop
    cases hpop
    exact keeps_of_stands hst hrun hst' (by omega)
  · cases hr

theorem Valid.keeps_store (h : s.Valid) (e : Entry) (dst : Address) (via : Reg) : s.Keeps (e.place.store dst via, s) :=
  ⟨h, fun _ _ => Move.heightAfter_level fun _ hm => height_store hm _⟩

theorem Valid.settled_flushAll (h : s.Valid) : (s.flushBelow 0).2.Settled := by
  obtain ⟨v, vs, hst, _⟩ := h.exists_stands 0
  obtain ⟨_, _, _, _, hset, _⟩ := hst.flushAll
  exact hset

namespace Operation

/-- An operation that is allowed leads to a valid picture, and one that is no merge to the height of it. -/
theorem apply_keeps {op : Operation} (h : s.Valid) (hr : op.apply p s = .ok r) :
    r.2.Valid ∧ ((∀ depth, op ≠ .merge depth) → s.Keeps r) := by
  have of_keeps (hk : s.Keeps r) : r.2.Valid ∧ ((∀ depth, op ≠ .merge depth) → s.Keeps r) := ⟨hk.valid, fun _ => hk⟩
  cases op with
  | pushConstant | pushReg | pushTyped => cases hr; exact of_keeps (h.keeps_push rfl)
  | pushSlot index => exact of_keeps (h.keeps_pushSlot hr)
  | pushArg index => exact of_keeps (h.keeps_pushArg hr)
  | pushScratch => cases hr; exact of_keeps h.keeps_pushScratch
  | popInto reg => exact of_keeps (h.keeps_popInto hr)
  | pop => exact of_keeps (h.keeps_drop hr)
  | drop count => exact of_keeps (h.keeps_drop hr)
  | popRegisters uses => exact of_keeps (h.keeps_popRegisters hr)
  | flushBelow keep => cases hr; exact of_keeps (h.keeps_flush _)
  | flushSlot index => cases hr; exact of_keeps (h.keeps_flush _)
  | flushArg index => cases hr; exact of_keeps (h.keeps_flush _)
  | freeRegister => cases hr; exact of_keeps h.keeps_freeRegister
  | store e dst via => cases hr; exact of_keeps (h.keeps_store e dst via)
  | merge depth =>
    cases hr
    exact ⟨(settled_resize h.settled_flushAll depth).1.valid, fun hne => absurd rfl (hne depth)⟩

end Operation

variable {job : Job β} {d : Draft β}

/-- The moves of an operation are emitted, and the picture after it is taken over. -/
theorem adopt_keeps (hg : d.Good) (hk : d.stack.Keeps r) (hs : d.stack.depth < 2 ^ 32) (hr : r.2.depth < 2 ^ 32) :
    ∃ d', Emit.adopt r d = .ok () d' ∧ d'.stack = r.2 ∧ d'.Good := by
  obtain ⟨d', hd', _, hstack, hheight⟩ := Emit.adopt_of_heightAfter (d := d) (r := r)
    (by rw [hg.height]; exact hk.height hs hr)
  exact ⟨d', hd', hstack, by rw [hstack]; exact hk.valid, by rw [hheight, hstack]⟩

/-- An operation that is allowed breaks no assumption, and the height counted after it is the picture's. -/
theorem Operation.emit_ok {op : Operation} (hg : d.Good) (h : op.apply job.program d.stack = .ok r)
    (hs : d.stack.depth < 2 ^ 32) (hr : r.2.depth < 2 ^ 32) :
    ∃ d', op.emit job d = .ok () d' ∧ d'.stack = r.2 ∧ d'.Good := by
  obtain ⟨_, hkeeps⟩ := Operation.apply_keeps hg.valid h
  have hadopt (hop : ∀ depth, op ≠ .merge depth) := adopt_keeps hg (hkeeps hop) hs hr
  have hguarded (f : VirtualStack → Except Breach (List Move × VirtualStack)) (hf : f d.stack = .ok r)
      (hop : ∀ depth, op ≠ .merge depth) : ∃ d', (do Emit.adopt (← Emit.guarded (f (← get).stack))) d = .ok () d' ∧
        d'.stack = r.2 ∧ d'.Good := by
    obtain ⟨d', hd', hd⟩ := hadopt hop
    exact ⟨d', (Emit.adopt_guarded f hf).trans hd', hd⟩
  cases op with
  | pushSlot index => exact hguarded (·.pushSlot job.program.slots index) h (by simp)
  | pushArg index => exact hguarded (·.pushArg job.program.args index) h (by simp)
  | popInto reg => exact hguarded (·.popInto reg) h (by simp)
  | pop => exact hguarded (·.drop 1) h (by simp)
  | drop count => exact hguarded (·.drop count) h (by simp)
  | popRegisters uses => exact hguarded (·.popRegisters uses) h (by simp)
  | store e dst via =>
    cases h
    obtain ⟨d', hd', _, hstack, hheight⟩ := Emit.moves_of_heightAfter (d := d)
      (Move.heightAfter_level fun m (hm : m ∈ e.place.store dst via) => height_store hm _)
    exact ⟨d', hd', hstack, by rw [hstack]; exact hg.valid, by rw [hheight, hstack, hg.height]⟩
  | merge depth =>
    cases h
    obtain ⟨d', hd', hstack, _⟩ := adopt_keeps hg (hg.valid.keeps_flush (d.stack.depth - 0)) hs
      (by rw [depth_flush]; exact hs)
    obtain ⟨hset, hdepth⟩ := settled_resize hg.valid.settled_flushAll depth
    have hemit : (Operation.merge depth).emit job d =
        .ok () { d' with stack := d'.stack.resize depth, buffer := { d'.buffer with height := depth } } :=
          Emit.bind_eq hd'
    rw [hstack] at hemit
    exact ⟨_, hemit, rfl, hset.valid, (hset.spilledCount.trans hdepth).symm⟩
  | _ =>
    cases h
    exact hadopt (by simp)

/-! ## Whole histories -/

theorem after_cons_ok_iff {op : Operation} {ops : List Operation} {t : VirtualStack} :
    s.after p (op :: ops) = .ok t ↔ ∃ r, op.apply p s = .ok r ∧ r.2.after p ops = .ok t := by
  rw [VirtualStack.after]
  cases op.apply p s with
  | error b =>
    constructor
    · intro h
      cases h
    · rintro ⟨r, hr, _⟩
      cases hr
  | ok r =>
    refine ⟨fun h => ⟨r, rfl, h⟩, ?_⟩
    rintro ⟨_, hr, h⟩
    cases hr
    exact h

/-- The beginnings of a history that is allowed are allowed. -/
theorem after_of_append {pre rest : List Operation} {t : VirtualStack} (h : s.after p (pre ++ rest) = .ok t) :
    ∃ u, s.after p pre = .ok u := by
  induction pre generalizing s with
  | nil => exact ⟨s, rfl⟩
  | cons op pre ih =>
    obtain ⟨r, hr, h⟩ := after_cons_ok_iff.mp h
    obtain ⟨u, hu⟩ := ih h
    exact ⟨u, after_cons_ok_iff.mpr ⟨r, hr, hu⟩⟩

/-- Every picture on the way has no more entries than 32 bits can count. -/
def Small (p : Program) (s : VirtualStack) (ops : List Operation) : Prop :=
  ∀ pre t, pre <+: ops → s.after p pre = .ok t → t.depth < 2 ^ 32

theorem Small.tail {op : Operation} {ops : List Operation} (h : s.Small p (op :: ops)) (hr : op.apply p s = .ok r) :
    r.2.Small p ops :=
  fun pre t hpre ht => h (op :: pre) t ((List.prefix_cons_inj op).mpr hpre) (after_cons_ok_iff.mpr ⟨r, hr, ht⟩)

/-- A history that is allowed breaks no assumption. -/
theorem emitAll_ok {ops : List Operation} {t : VirtualStack} (hg : d.Good) (h : d.stack.after job.program ops = .ok t)
    (hsmall : d.stack.Small job.program ops) : ∃ d', emitAll job ops d = .ok () d' ∧ d'.stack = t ∧ d'.Good := by
  induction ops generalizing d with
  | nil => cases h; exact ⟨d, rfl, rfl, hg⟩
  | cons op ops ih =>
    obtain ⟨r, hr, h⟩ := after_cons_ok_iff.mp h
    -- The beginnings of a history are small with it: the empty one says so of this picture and of the next.
    have hstart : d.stack.depth < 2 ^ 32 := hsmall [] _ List.nil_prefix rfl
    have hrest : r.2.Small job.program ops := hsmall.tail hr
    obtain ⟨d₁, hd₁, hstack, hg₁⟩ := Operation.emit_ok hg hr hstart (hrest [] _ List.nil_prefix rfl)
    rw [← hstack] at h hrest
    obtain ⟨d', hd', hd⟩ := ih hg₁ h hrest
    exact ⟨d', (Emit.bind_eq hd₁).trans hd', hd⟩

theorem settled_empty : Settled {} := fun _ _ he => by simp at he

/-- From the empty picture, a history that is allowed and has small pictures only is carried out without a breach, so no
    move of it goes below the frame. After every beginning of it, what is written out is lowest and each at its own
    place, no register is claimed twice, the register that is freed next is claimed by nobody, and the height counted is
    the number of entries that are written out. -/
theorem histories_keep_the_rules (job : Job β) {ops : List Operation} {last : VirtualStack}
    (h : after job.program {} ops = .ok last) (hsmall : Small job.program {} ops) :
    ∀ pre, pre <+: ops → ∃ d, emitAll job pre (.start job.settings) = .ok () d ∧
      after job.program {} pre = .ok d.stack ∧ d.stack.Valid ∧
      d.stack.freeRegister.2.2.Unclaimed d.stack.freeRegister.1 ∧ d.buffer.height = d.stack.spilledCount := by
  rintro pre ⟨rest, rfl⟩
  obtain ⟨s, hs⟩ := after_of_append h
  have hbefore : Small job.program {} pre :=
    fun start t hstart ht => hsmall start t (hstart.trans (List.prefix_append pre rest)) ht
  obtain ⟨d, hd, rfl, hgood⟩ := emitAll_ok (d := .start job.settings) ⟨settled_empty.valid, rfl⟩ hs hbefore
  obtain ⟨v, vs, hst, _⟩ := hgood.valid.exists_stands 0
  obtain ⟨_, _, _, _, hfree, _⟩ := hst.freeRegister
  exact ⟨d, hd, hs, hgood.valid, hfree, hgood.height⟩

def oneSlot : Job Unit := ⟨{ (default : Program) with slots := 1 }, {}, .empty, fun _ _ => none⟩

/-- All registers are claimed, two values are taken back into them, and control meets others. -/
def crowding : List Operation :=
  [.pushSlot 0, .pushReg .r0, .pushReg .r1, .pushTyped .r2 .boolean, .freeRegister, .popRegisters 2, .pushReg .r0,
   .pushScratch, .flushSlot 0, .pop, .merge 5, .popInto .r1, .drop 2]

theorem histories_keep_the_rules_crowding :
    ∃ d : Draft Unit, emitAll oneSlot crowding (.start {}) = .ok () d ∧
      d.stack = ⟨[⟨.spilled 0, none⟩, ⟨.spilled 1, none⟩]⟩ ∧ d.buffer.height = 2 := by
  have hall : ∀ start ∈ crowding.inits,
      (after oneSlot.program {} start).toOption.all (fun t => decide (t.depth < 2 ^ 32)) = true := by decide
  have hsmall : Small oneSlot.program {} crowding := by
    intro start t hstart ht
    have hdepth := hall start ((List.mem_inits _ _).mpr hstart)
    rw [ht] at hdepth
    simpa [Except.toOption] using hdepth
  have hafter : after oneSlot.program {} crowding = .ok ⟨[⟨.spilled 0, none⟩, ⟨.spilled 1, none⟩]⟩ := rfl
  obtain ⟨d, hd, hpicture, _, _, hheight⟩ := histories_keep_the_rules oneSlot hafter hsmall crowding List.prefix_rfl
  have hstack := Except.ok.inj (hafter.symm.trans hpicture)
  rw [← hstack] at hheight
  exact ⟨d, hd, hstack.symm, hheight⟩

/-! ## More entries than 32 bits count -/

/-- The moves that a settled picture and the value in the scratch cell need, and the last of them taken back. -/
theorem Settled.pushScratch_eq (h : s.Settled) :
    s.pushScratch = ([.pushFrom .scratch], (s.flushBelow 0).2.add ⟨.spilled s.depth, none⟩) := by
  have hmoves : (s.flushBelow 0).1 = [] := h.flush_moves _
  have hdepth : (s.flushBelow 0).2.depth = s.depth := depth_flush s _
  show ((s.flushBelow 0).1 ++ _, (s.flushBelow 0).2.add ⟨.spilled (s.flushBelow 0).2.depth, none⟩) = _
  rw [hmoves, hdepth]
  rfl

theorem popInto_add_spilled (s : VirtualStack) (place : Nat) (known : Option ValueType) (dst : Reg) :
    (s.add ⟨.spilled place, known⟩).popInto dst = .ok ([.pop dst], s) := by
  rw [VirtualStack.popInto, VirtualStack.add, List.getLast?_concat, List.dropLast_concat]
  rfl

/-- Control meets with so many values, and one more is pushed and taken back. -/
def outgrowing (depth : Nat) : List Operation := [.merge depth, .pushScratch, .popInto .r0]

theorem after_outgrowing (p : Program) (depth : Nat) : ∃ last, after p {} (outgrowing depth) = .ok last := by
  have hscratch := (settled_resize settled_empty depth).1.pushScratch_eq
  have hpop : (resize {} depth).pushScratch.2.popInto .r0 = .ok ([.pop .r0], ((resize {} depth).flushBelow 0).2) := by
    rw [hscratch]
    exact popInto_add_spilled ..
  have hafter : after p (resize {} depth).pushScratch.2 [.popInto .r0] = .ok ((resize {} depth).flushBelow 0).2 :=
    after_cons_ok_iff.mpr ⟨_, hpop, rfl⟩
  exact ⟨_, after_cons_ok_iff.mpr ⟨([], resize {} depth), rfl, after_cons_ok_iff.mpr ⟨_, rfl, hafter⟩⟩⟩

theorem outgrowing_breach (job : Job β) {depth : Nat} (hfull : (depth + 1) % 2 ^ 32 = 0) :
    ∃ d, emitAll job (outgrowing depth) (.start job.settings) =
      .error (.breach (.belowFrame (.move (.pop .r0)))) d := by
  let d₁ : Draft β := { Draft.start job.settings with stack := resize {} depth, buffer := { height := depth } }
  have hmerge : (Operation.merge depth).emit job (.start job.settings) = .ok () d₁ := rfl
  have hscratch : d₁.stack.pushScratch = _ := (settled_resize settled_empty depth).1.pushScratch_eq
  have hafter : Move.heightAfter d₁.buffer.height d₁.stack.pushScratch.1 = some (depth + 1) := by
    rw [hscratch]
    rfl
  obtain ⟨d₂, hd₂, _, hstack, hheight⟩ := Emit.adopt_of_heightAfter hafter
  have hpush : Operation.pushScratch.emit job d₁ = .ok () d₂ := hd₂
  have hpop : d₂.stack.popInto .r0 = .ok ([.pop .r0], ((resize {} depth).flushBelow 0).2) := by
    rw [hstack, hscratch]
    exact popInto_add_spilled ..
  have hlow : (Move.pop .r0).height d₂.buffer.height = none := by
    rw [hheight]
    exact if_neg (by omega)
  have hlast : Operation.emit job (.popInto .r0) d₂ = .error (.breach (.belowFrame (.move (.pop .r0)))) d₂ :=
    (Emit.adopt_guarded (·.popInto .r0) hpop).trans (Emit.adopt_belowFrame hlow)
  refine ⟨d₂, ?_⟩
  rw [outgrowing, emitAll, Emit.bind_eq hmerge, emitAll, Emit.bind_eq hpush, emitAll, Emit.bind_error hlast]

/-- With 2 ^ 32 entries the height that is kept is zero, and the value on top cannot be taken. -/
theorem outgrowing_goes_below_the_frame :
    (∃ last, after oneSlot.program {} (outgrowing (2 ^ 32 - 1)) = .ok last) ∧
      ∃ d, emitAll oneSlot (outgrowing (2 ^ 32 - 1)) (.start oneSlot.settings) =
        .error (.breach (.belowFrame (.move (.pop .r0)))) d :=
  ⟨after_outgrowing _ _, outgrowing_breach _ (by omega)⟩

end VirtualStack
end BaselineTier
