/-
  BaselineTier.Proofs.Chart — the heights that are noted while code is emitted.

  A buffer notes, before each instruction, how high the operand stack is there. That is sound
  as a chart of the code (`CodeBuffer.Chart`) if no height is above a limit, the height behind
  every instruction that control can run through is what the instruction makes of the height
  before it, and every branch goes to a place with the height that it leaves with. The height
  that belongs to a label is declared beforehand: by the stack map for a place of the program,
  and as zero for the way out. Every step that emits code or binds a label keeps the chart
  sound. Behind a jump that nothing runs through, the height may be set at will
  (`Chart.reset`), as the compiler does where control meets.
-/

import BaselineTier.Code.Buffer

namespace BaselineTier

/-! ## Single moves -/

namespace Move

def isPush : Move → Bool
  | push _ | pushValue _ | pushFrom _ => true
  | _ => false

theorem height_le {m : Move} {before after : Nat} (h : m.height before = some after) :
    after ≤ before + if m.isPush then 1 else 0 := by
  cases m <;> simp only [height, isPush, Option.some.injEq, if_true, Bool.false_eq_true, if_false] at h ⊢
  case pop | free =>
    split at h
    · cases h
      omega
    · cases h
  all_goals omega

/-- The height after moves, counted one by one; none if they take the stack below the frame. -/
def heightAfter (before : Nat) (ms : List Move) : Option Nat := ms.foldlM (fun height m => m.height height) before

theorem heightAfter_cons {m : Move} {ms : List Move} {before next : Nat} (h : m.height before = some next) :
    heightAfter before (m :: ms) = heightAfter next ms := by
  rw [heightAfter, List.foldlM_cons, h]
  rfl

/-- Moves that leave the operand stack alone. -/
theorem heightAfter_level {ms : List Move} {before : Nat} (h : ∀ m ∈ ms, m.height before = some before) :
    heightAfter before ms = some before := by
  induction ms with
  | nil => rfl
  | cons m ms ih =>
    rw [heightAfter_cons (h m List.mem_cons_self)]
    exact ih fun m hm => h m (List.mem_cons_of_mem _ hm)

end Move

namespace Inst

def isInner {τ : Type} : Inst τ → Bool
  | enterFrame _ | leaveFrame | ret => false
  | _ => true

def passes {τ : Type} : Inst τ → Bool
  | jump _ => false
  | _ => true

end Inst

namespace CodeBuffer

/-! ## Heights that are noted -/

def heightAt (b : CodeBuffer) (k : Nat) : Nat := b.heights[k]?.getD b.height

theorem emit_ok {b b' : CodeBuffer} {i : Inst Label} (h : b.emit i = .ok b') :
    i.height b.height = some b'.height ∧
      b' = { b with insts := b.insts.push i, height := b'.height, heights := b.heights.push b.height } := by
  unfold emit at h
  cases hh : i.height b.height with
  | none => rw [hh] at h; cases h
  | some height =>
    rw [hh] at h
    cases h
    exact ⟨rfl, rfl⟩

/-- The chart of the code is sound: `limit` is the greatest height, and `T` says which height a label has. The first
    instruction opens the frame. -/
structure Chart (limit : Nat) (T : Label → Nat → Prop) (b : CodeBuffer) : Prop where
  size : b.heights.size = b.insts.size
  begins : 0 < b.insts.size
  zero : b.heightAt 0 = 0
  low : ∀ {k : Nat}, k ≤ b.insts.size → b.heightAt k ≤ limit
  inner : ∀ {k : Nat} {i : Inst Label}, 0 < k → b.insts[k]? = some i → i.isInner = true
  falls : ∀ {k : Nat} {i : Inst Label}, b.insts[k]? = some i → i.passes = true →
    i.height (b.heightAt k) = some (b.heightAt (k + 1))
  jumps : ∀ {k : Nat} {i : Inst Label} {l : Label}, b.insts[k]? = some i → i.target? = some l →
    T l (b.heightAt k) ∨ ∃ pc, b.labelOffset? l = some pc ∧ 0 < pc ∧ b.heightAt pc = b.heightAt k
  within : ∀ {l : Label} {pc : Nat}, b.labelOffset? l = some pc → pc ≤ b.insts.size
  bound : ∀ {l : Label} {h pc : Nat}, T l h → b.labelOffset? l = some pc → 0 < pc ∧ b.heightAt pc = h

variable {b b' : CodeBuffer} {limit : Nat} {T : Label → Nat → Prop} {i : Inst Label} {label : Label}

theorem Chart.heightAt_size (h : b.Chart limit T) : b.heightAt b.insts.size = b.height := by
  rw [heightAt, ← h.size]
  simp

theorem Chart.height_le (h : b.Chart limit T) : b.height ≤ limit := h.heightAt_size ▸ h.low (Nat.le_refl _)

theorem heightAt_emit (hsize : b.heights.size = b.insts.size) (he : b.emit i = .ok b') {k : Nat}
    (hk : k ≤ b.insts.size) :
    b'.heightAt k = b.heightAt k := by
  rw [(emit_ok he).2]
  simp only [heightAt, Array.getElem?_push, hsize]
  by_cases hlt : k = b.insts.size
  · rw [if_pos hlt, hlt, ← hsize]
    simp
  · rw [if_neg hlt, Array.getElem?_eq_getElem (by rw [hsize]; omega)]
    rfl

theorem heightAt_last (hsize : b.heights.size = b.insts.size) (he : b.emit i = .ok b') :
    b'.heightAt b'.insts.size = b'.height := by
  have hheights : b'.heights.size = b'.insts.size := by rw [(emit_ok he).2]; simp [hsize]
  rw [heightAt, ← hheights]
  simp

/-- The first instruction, with no label bound yet. -/
theorem Chart.start (hempty : b.insts = #[]) (hheights : b.heights = #[]) (hzero : b.height = 0)
    (hlabels : ∀ l, b.labelOffset? l = none) (he : b.emit i = .ok b') (hi : i.height 0 = some 0)
    (htarget : i.target? = none) : b'.Chart limit T := by
  have hsize : b.heights.size = b.insts.size := by rw [hempty, hheights]; rfl
  have hsize' : b'.insts.size = 1 := by rw [(emit_ok he).2]; simp [hempty]
  have hheight : b'.height = 0 := by
    have hb' := (emit_ok he).1
    rw [hzero, hi] at hb'
    exact (Option.some.inj hb').symm
  have hfirst : b'.heightAt 0 = 0 := by
    rw [heightAt_emit hsize he (Nat.zero_le _), heightAt, hheights, hzero]
    rfl
  have hlast : b'.heightAt 1 = 0 := by
    have hat := heightAt_last hsize he
    rw [hsize', hheight] at hat
    exact hat
  have hinst {k : Nat} {j : Inst Label} (hk : b'.insts[k]? = some j) : k = 0 ∧ j = i := by
    rw [(emit_ok he).2, Array.getElem?_push, hempty] at hk
    split at hk
    · cases hk
      exact ⟨by assumption, rfl⟩
    · cases hk
  have hnone (l : Label) : b'.labelOffset? l = none := by
    rw [(emit_ok he).2]
    exact hlabels l
  refine ⟨by rw [(emit_ok he).2]; simp [hsize], by omega, hfirst, fun {k} hk => ?_, fun hk hj => ?_, fun hj _ => ?_,
    fun hj hl => ?_,
    fun hl => ?_, fun _ hl => ?_⟩
  · rcases Nat.le_one_iff_eq_zero_or_eq_one.mp (hsize' ▸ hk) with rfl | rfl
    · rw [hfirst]
      exact Nat.zero_le _
    · rw [hlast]
      exact Nat.zero_le _
  · have := (hinst hj).1
    omega
  · obtain ⟨rfl, rfl⟩ := hinst hj
    rw [hfirst, hlast]
    exact hi
  · obtain ⟨rfl, rfl⟩ := hinst hj
    rw [htarget] at hl
    cases hl
  · rw [hnone] at hl
    cases hl
  · rw [hnone] at hl
    cases hl

/-- One more instruction. A branch must go to a label that has the present height. -/
theorem Chart.emit (h : b.Chart limit T) (he : b.emit i = .ok b') (hlow : b'.height ≤ limit) (hinner : i.isInner = true)
    (htarget : ∀ l, i.target? = some l → T l b.height) : b'.Chart limit T := by
  have hold {k : Nat} (hk : k ≤ b.insts.size) := heightAt_emit h.size he hk
  have hsize : b'.insts.size = b.insts.size + 1 := by rw [(emit_ok he).2]; simp
  have hheights : b'.heights.size = b'.insts.size := by rw [(emit_ok he).2]; simp [h.size]
  have hlabels (l : Label) : b'.labelOffset? l = b.labelOffset? l := by rw [(emit_ok he).2]; rfl
  have hlast := heightAt_last h.size he
  have hinst {k : Nat} {j : Inst Label} (hk : b'.insts[k]? = some j) :
      b.insts[k]? = some j ∧ k < b.insts.size ∨ k = b.insts.size ∧ j = i := by
    rw [(emit_ok he).2, Array.getElem?_push] at hk
    split at hk
    · cases hk
      exact .inr ⟨by assumption, rfl⟩
    · exact .inl ⟨hk, (Array.getElem?_eq_some_iff.mp hk).1⟩
  have hbegins := h.begins
  refine ⟨hheights, by omega, ?_, fun {k} hle => ?_, fun {k j} hk hj => ?_, fun {k j} hj hpass => ?_,
    fun {k j l} hj hl => ?_,
    fun {l pc} hl => ?_, fun {l height pc} ht hl => ?_⟩
  · rw [hold (Nat.zero_le _)]
    exact h.zero
  · by_cases hle' : k ≤ b.insts.size
    · rw [hold hle']
      exact h.low hle'
    · obtain rfl : k = b'.insts.size := by omega
      rw [hlast]
      exact hlow
  · rcases hinst hj with ⟨hj, _⟩ | ⟨_, rfl⟩
    · exact h.inner hk hj
    · exact hinner
  · rcases hinst hj with ⟨hj, hlt⟩ | ⟨rfl, rfl⟩
    · rw [hold (Nat.le_of_lt hlt), hold hlt]
      exact h.falls hj hpass
    · rw [hold (Nat.le_refl _), h.heightAt_size, ← hsize, hlast]
      exact (emit_ok he).1
  · rcases hinst hj with ⟨hj, hlt⟩ | ⟨rfl, rfl⟩
    · rw [hold (Nat.le_of_lt hlt)]
      rcases h.jumps hj hl with ht | ⟨pc, hpc, hle, heq⟩
      · exact .inl ht
      · exact .inr ⟨pc, by rw [hlabels]; exact hpc, hle, by rw [hold (h.within hpc)]; exact heq⟩
    · rw [hold (Nat.le_refl _), h.heightAt_size]
      exact .inl (htarget l hl)
  · rw [hlabels] at hl
    have := h.within hl
    omega
  · rw [hlabels] at hl
    rw [hold (h.within hl)]
    exact h.bound ht hl

/-- Moves never make the stack higher than the pushes among them would. -/
theorem Chart.emitMoves {ms : List Move} (h : b.Chart limit T) (he : b.emitMoves ms = .ok b')
    (hlow : b.height + ms.countP Move.isPush ≤ limit) : b'.Chart limit T := by
  induction ms generalizing b with
  | nil => cases he; exact h
  | cons m ms ih =>
    rw [CodeBuffer.emitMoves, List.foldlM_cons] at he
    cases hm : b.emit (.move m) with
    | error e => rw [hm] at he; cases he
    | ok b₁ =>
      rw [hm] at he
      have hle := Move.height_le (emit_ok hm).1
      rw [List.countP_cons] at hlow
      exact ih (h.emit hm (by omega) rfl fun l hl => by cases hl) he (by omega)

/-! ## Labels -/

/-- A label may get a height as long as it is bound nowhere. -/
theorem Chart.declare (h : b.Chart limit T) (hfree : b.labelOffset? label = none) (height : Nat) :
    b.Chart limit fun l k => T l k ∨ l = label ∧ k = height := by
  refine ⟨h.size, h.begins, h.zero, h.low, h.inner, h.falls, fun hi hl => (h.jumps hi hl).imp_left .inl, h.within,
    fun ht hl => ?_⟩
  rcases ht with ht | ⟨rfl, _⟩
  · exact h.bound ht hl
  · rw [hfree] at hl
    cases hl

/-- Once the label is bound, its height is to be seen there. -/
theorem Chart.forget {height pc : Nat} (h : b.Chart limit fun l k => T l k ∨ l = label ∧ k = height)
    (hbound : b.labelOffset? label = some pc) : b.Chart limit T := by
  refine ⟨h.size, h.begins, h.zero, h.low, h.inner, h.falls, fun hi hl => ?_, h.within,
    fun ht hl => h.bound (.inl ht) hl⟩
  rcases h.jumps hi hl with (ht | ⟨rfl, heq⟩) | hmet
  · exact .inl ht
  · obtain ⟨hle, hat⟩ := h.bound (.inr ⟨rfl, rfl⟩) hbound
    exact .inr ⟨pc, hbound, hle, hat.trans heq.symm⟩
  · exact .inr hmet

theorem Chart.newLabel (h : b.Chart limit T) : Chart limit T { b with labels := b.labels.push none } := by
  have hlabels (l : Label) : labelOffset? { b with labels := b.labels.push none } l = b.labelOffset? l := by
    simp only [labelOffset?, Array.getElem?_push]
    split
    · rename_i hl
      rw [hl, Array.getElem?_eq_none (Nat.le_refl _)]
      rfl
    · rfl
  refine ⟨h.size, h.begins, h.zero, h.low, h.inner, h.falls, fun hi hl => ?_, fun hl => h.within (hlabels _ ▸ hl),
    fun ht hl => h.bound ht (hlabels _ ▸ hl)⟩
  rcases h.jumps hi hl with ht | ⟨pc, hpc, hmet⟩
  · exact .inl ht
  · exact .inr ⟨pc, (hlabels _).trans hpc, hmet⟩

/-- A label is bound where the height is the one that it has. -/
theorem Chart.bind (h : b.Chart limit T) (hfree : b.labels[label.index]? = some none)
    (hheight : ∀ k, T label k → b.height = k) :
    Chart limit T { b with labels := b.labels.setIfInBounds label.index (some b.offset) } := by
  have hlt : label.index < b.labels.size := (Array.getElem?_eq_some_iff.mp hfree).1
  have hlabels (l : Label) (pc : Nat) (hl : b.labelOffset? l = some pc) :
      labelOffset? { b with labels := b.labels.setIfInBounds label.index (some b.offset) } l = some pc := by
    simp only [labelOffset?, Array.getElem?_setIfInBounds] at hl ⊢
    split
    · rename_i heq
      rw [← heq, hfree] at hl
      cases hl
    · exact hl
  have hback {l : Label} {pc : Nat}
      (hl : labelOffset? { b with labels := b.labels.setIfInBounds label.index (some b.offset) } l = some pc) :
      l = label ∧ pc = b.insts.size ∨ b.labelOffset? l = some pc := by
    simp only [labelOffset?, Array.getElem?_setIfInBounds] at hl
    split at hl
    · rename_i heq
      cases hl
      exact .inl ⟨by cases l; cases label; cases heq; rfl, rfl⟩
    · exact .inr hl
  refine ⟨h.size, h.begins, h.zero, h.low, h.inner, h.falls, fun hi hl => ?_, fun hl => ?_, fun ht hl => ?_⟩
  · rcases h.jumps hi hl with ht | ⟨pc, hpc, hmet⟩
    · exact .inl ht
    · exact .inr ⟨pc, hlabels _ _ hpc, hmet⟩
  · rcases hback hl with ⟨_, rfl⟩ | hl
    · exact Nat.le_refl _
    · exact h.within hl
  · rcases hback hl with ⟨rfl, rfl⟩ | hl
    · exact ⟨h.begins, h.heightAt_size.trans (hheight _ ht)⟩
    · exact h.bound ht hl

/-! ## Behind a jump -/

/-- Nothing runs through to this point, and no label is bound here. -/
structure Severed (b : CodeBuffer) : Prop where
  last : ∃ k l, b.insts.size = k + 1 ∧ b.insts[k]? = some (.jump l)
  labels : ∀ {l : Label} {pc : Nat}, b.labelOffset? l = some pc → pc < b.insts.size

theorem Chart.severed (h : b.Chart limit T) (he : b.emit (.jump label) = .ok b') : b'.Severed := by
  rw [(emit_ok he).2]
  refine ⟨⟨b.insts.size, label, by simp, by simp⟩, fun hl => ?_⟩
  have := h.within hl
  simp
  omega

/-- Where nothing runs through, the height may be set at will. -/
theorem Chart.reset (h : b.Chart limit T) (hsev : b.Severed) {height : Nat} (hlow : height ≤ limit) :
    Chart limit T { b with height } := by
  have hold {k : Nat} (hk : k < b.insts.size) : heightAt { b with height } k = b.heightAt k := by
    simp only [heightAt]
    rw [Array.getElem?_eq_getElem (by rw [h.size]; exact hk)]
    rfl
  obtain ⟨last, label, hlast, hjump⟩ := hsev.last
  refine ⟨h.size, h.begins, by rw [hold h.begins]; exact h.zero, fun {k} hle => ?_, h.inner, fun {k i} hi hpass => ?_,
    fun {k i l} hi hl => ?_, h.within, fun {l k pc} ht hl => ?_⟩
  · by_cases hlt : k < b.insts.size
    · rw [hold hlt]
      exact h.low hle
    · have hnone : b.heights[k]? = none := Array.getElem?_eq_none (by rw [h.size]; omega)
      simp only [heightAt, hnone]
      exact hlow
  · have hlt : k < b.insts.size := (Array.getElem?_eq_some_iff.mp hi).1
    have hne : k ≠ last := by
      rintro rfl
      have hi' : b.insts[k]? = some i := hi
      rw [hjump] at hi'
      cases hi'
      cases hpass
    rw [hold hlt, hold (by omega)]
    exact h.falls hi hpass
  · have hlt : k < b.insts.size := (Array.getElem?_eq_some_iff.mp hi).1
    rw [hold hlt]
    rcases h.jumps hi hl with ht | ⟨pc, hpc, hle, heq⟩
    · exact .inl ht
    · exact .inr ⟨pc, hpc, hle, by rw [hold (hsev.labels hpc)]; exact heq⟩
  · rw [hold (hsev.labels hl)]
    exact h.bound ht hl

end CodeBuffer
end BaselineTier
