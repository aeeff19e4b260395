/-
  BaselineTier.Proofs.View — an activation's data, apart from their place on the shared stack.

  A view holds what an activation reads and writes: registers, scratch cell, arguments, slots
  and operand stack. Laid over what lies below it on the shared stack it is a frame and a
  stack (`View.frame`, `View.stack`). A move that a view can carry out is carried out by the
  machine in the same way, whatever lies below (`View.perform_frame`), and the buffer counts
  the height that the operand stack really has (`View.heightAfter_of_performAll`).
-/

import BaselineTier.Machine.Frame
import BaselineTier.Proofs.Chart

namespace BaselineTier

namespace Registers

@[simp] theorem get_set_self (rs : Registers) (reg : Reg) (x : Value) : (rs.set reg x).get reg = x := by
  cases reg <;> rfl

theorem get_set_ne (rs : Registers) {reg other : Reg} (x : Value) (h : other ≠ reg) :
    (rs.set reg x).get other = rs.get other := by
  cases reg <;> cases other <;> first | rfl | exact absurd rfl h

theorem set_get (rs : Registers) (reg : Reg) : rs.set reg (rs.get reg) = rs := by cases reg <;> rfl

end Registers

/-- What an activation has to itself; the operand stack is bottom first. -/
structure View where
  registers : Registers := {}
  scratch : Value := .undefined
  args : Array Value
  slots : Array Value
  operands : List Value := []

namespace View

def frame (v : View) (fp : Nat) : Frame :=
  { registers := v.registers, scratch := v.scratch, args := v.args, fp, slots := v.slots.size }

def stack (v : View) (lower : ValueStack) : ValueStack := lower ++ v.slots ++ v.operands.toArray

def setReg (v : View) (reg : Reg) (x : Value) : View := { v with registers := v.registers.set reg x }

@[simp] theorem get_setReg_self (v : View) (reg : Reg) (x : Value) : (v.setReg reg x).registers.get reg = x :=
  v.registers.get_set_self reg x

theorem setReg_get (v : View) (reg : Reg) : v.setReg reg (v.registers.get reg) = v := by
  rw [setReg, Registers.set_get]

/-- What a place in memory holds; an index past the slots reaches into the operand stack. -/
def read? (v : View) : Address → Option Value
  | .slot index => (v.slots ++ v.operands.toArray)[index]?
  | .stack index => v.operands[index]?
  | .arg index => v.args[index]?
  | .scratch => some v.scratch

def write? (v : View) (x : Value) : Address → Option View
  | .slot index => if index < v.slots.size then some { v with slots := v.slots.setIfInBounds index x } else none
  | .stack _ => none
  | .arg index => if index < v.args.size then some { v with args := v.args.setIfInBounds index x } else none
  | .scratch => some { v with scratch := x }

def push (v : View) (x : Value) : View := { v with operands := v.operands ++ [x] }

def perform (v : View) : Move → Option View
  | .copy src dst => some (v.setReg dst (v.registers.get src))
  | .setReg x dst => some (v.setReg dst x)
  | .load src dst => (v.read? src).map (v.setReg dst)
  | .store src dst => v.write? (v.registers.get src) dst
  | .setCell x dst => v.write? x dst
  | .push reg => some (v.push (v.registers.get reg))
  | .pushValue x => some (v.push x)
  | .pushFrom src => (v.read? src).map v.push
  | .pop dst => v.operands.getLast?.map fun x => { v with operands := v.operands.dropLast }.setReg dst x
  | .free count =>
    if count ≤ v.operands.length then some { v with operands := v.operands.take (v.operands.length - count) } else none

def performAll (v : View) : List Move → Option View
  | [] => some v
  | m :: ms => (v.perform m).bind fun v => v.performAll ms

theorem performAll_append {v v' : View} {ms ms' : List Move} (h : v.performAll ms = some v') :
    v.performAll (ms ++ ms') = v'.performAll ms' := by
  induction ms generalizing v with
  | nil => cases h; rfl
  | cons m ms ih =>
    obtain ⟨w, hw, h⟩ := Option.bind_eq_some_iff.mp h
    show (v.perform m).bind _ = _
    rw [hw]
    exact ih h

/-- Registers and operand stack have no part in a write. -/
theorem write?_with (v : View) (x : Value) (a : Address) (rs : Registers) (ops : List Value) :
    { v with registers := rs, operands := ops }.write? x a =
      (v.write? x a).map fun w => { w with registers := rs, operands := ops } := by
  cases a <;> simp only [write?] <;> (try split) <;> rfl

/-! ## On the machine -/

theorem size_stack (v : View) (lower : ValueStack) :
    (v.stack lower).size = lower.size + v.slots.size + v.operands.length := by
  simp [stack, Nat.add_assoc]

theorem floor_frame (v : View) (fp : Nat) : (v.frame fp).floor = fp + v.slots.size := rfl

theorem stack_push (v : View) (lower : ValueStack) (x : Value) : (v.stack lower).push x = (v.push x).stack lower := by
  simp [stack, push]

theorem read_frame {v : View} {a : Address} {x : Value} (lower : ValueStack) (h : v.read? a = some x) :
    (v.frame lower.size).read (v.stack lower) a = .ok x := by
  cases a with
  | slot index =>
    have hs : (v.stack lower)[lower.size + index]? = some x := by
      rw [stack, Array.append_assoc, Array.getElem?_append_right (by omega), Nat.add_sub_cancel_left]
      exact h
    simp only [Frame.read, frame, hs]
  | stack index =>
    have hs : (v.stack lower)[(v.frame lower.size).floor + index]? = some x := by
      rw [stack, floor_frame, Array.getElem?_append_right (by simp)]
      simpa [read?] using h
    simp only [Frame.read, hs]
  | arg index =>
    have ha : v.args[index]? = some x := h
    simp only [Frame.read, frame, ha]
  | scratch => cases h; rfl

theorem write_frame {v v' : View} {a : Address} {x : Value} (lower : ValueStack) (h : v.write? x a = some v') :
    (v.frame lower.size).write (v.stack lower) a x = .ok (v'.frame lower.size, v'.stack lower) := by
  cases a with
  | slot index =>
    simp only [write?] at h
    split at h
    · rename_i hi
      cases h
      have hlt : lower.size + index < (v.stack lower).size := by rw [size_stack]; omega
      have hset : (v.stack lower).setIfInBounds (lower.size + index) x
          = lower ++ v.slots.setIfInBounds index x ++ v.operands.toArray := by
        rw [stack, Array.setIfInBounds_append_left (by simp; omega), Array.setIfInBounds_append_right (by omega),
          Nat.add_sub_cancel_left]
      simp only [Frame.write, Frame.writeStack, frame, if_pos hlt, hset]
      simp [stack]
    · cases h
  | stack index => cases h
  | arg index =>
    simp only [write?] at h
    split at h
    · rename_i hi
      cases h
      simp [Frame.write, frame, stack, hi]
    · cases h
  | scratch => cases h; rfl

theorem perform_frame {v v' : View} {m : Move} (lower : ValueStack) (h : v.perform m = some v') :
    (v.frame lower.size).perform (v.stack lower) m = .ok (v'.frame lower.size, v'.stack lower) := by
  cases m with
  | copy src dst => cases h; rfl
  | setReg x dst => cases h; rfl
  | load src dst =>
    obtain ⟨x, hx, rfl⟩ := Option.map_eq_some_iff.mp h
    simp only [Frame.perform, read_frame lower hx]
    rfl
  | store src dst => exact write_frame lower h
  | setCell x dst => exact write_frame lower h
  | push reg => cases h; simp only [Frame.perform, stack_push]; rfl
  | pushValue x => cases h; simp only [Frame.perform, stack_push]; rfl
  | pushFrom src =>
    obtain ⟨x, hx, rfl⟩ := Option.map_eq_some_iff.mp h
    simp only [Frame.perform, read_frame lower hx, bind, Except.bind, pure, Except.pure, stack_push]
    rfl
  | pop dst =>
    obtain ⟨x, hx, rfl⟩ := Option.map_eq_some_iff.mp h
    obtain ⟨rest, hr⟩ := List.getLast?_eq_some_iff.mp hx
    have hs : v.stack lower = (lower ++ v.slots ++ rest.toArray).push x := by simp [stack, hr]
    have hf : (v.frame lower.size).floor < (v.stack lower).size := by rw [size_stack, floor_frame, hr]; simp
    simp only [Frame.perform, hs, Array.back?_push]
    rw [← hs, if_pos hf, hs, Array.pop_push]
    simp [hr, View.setReg, frame, stack, Frame.setReg]
  | free count =>
    simp only [perform] at h
    split at h
    · rename_i hc
      cases h
      have hf : (v.frame lower.size).floor + count ≤ (v.stack lower).size := by rw [size_stack, floor_frame]; omega
      have ht : (v.stack lower).take ((v.stack lower).size - count)
          = lower ++ v.slots ++ (v.operands.take (v.operands.length - count)).toArray := by
        have hlow : (lower ++ v.slots).size ≤ (v.stack lower).size - count := by
          rw [size_stack, Array.size_append]; omega
        apply Array.ext'
        simp only [Array.take_eq_extract, Array.toList_extract, List.extract_eq_take_drop, Nat.sub_zero, List.drop_zero]
        rw [stack, Array.toList_append, List.take_append, List.take_of_length_le (by simpa [stack] using hlow)]
        simp
        omega
      simp only [Frame.perform, Frame.free, if_pos hf, ht]
      rfl
    · cases h

/-! ## Heights -/

theorem length_write {v v' : View} {a : Address} {x : Value} (h : v.write? x a = some v') :
    v'.operands = v.operands := by
  cases a <;> simp only [write?] at h
  · split at h <;> cases h; rfl
  · split at h <;> cases h; rfl
  · cases h
  · cases h; rfl

/-- The height that is counted is the one that the operand stack has. -/
theorem height_of_perform {v v' : View} {m : Move} (h : v.perform m = some v') (hb : v.operands.length < 2 ^ 32) :
    m.height v.operands.length = some v'.operands.length := by
  have hpush (x : Value) : some (v.operands.length + 1) = some (v.push x).operands.length := by
    rw [push, List.length_append, List.length_singleton]
  cases m with
  | copy src dst => cases h; rfl
  | setReg x dst => cases h; rfl
  | load src dst => obtain ⟨x, _, rfl⟩ := Option.map_eq_some_iff.mp h; rfl
  | store src dst => rw [length_write h]; rfl
  | setCell x dst => rw [length_write h]; rfl
  | push reg => cases h; exact hpush _
  | pushValue x => cases h; exact hpush _
  | pushFrom src => obtain ⟨x, _, rfl⟩ := Option.map_eq_some_iff.mp h; exact hpush _
  | pop dst =>
    obtain ⟨x, hx, rfl⟩ := Option.map_eq_some_iff.mp h
    obtain ⟨rest, hr⟩ := List.getLast?_eq_some_iff.mp hx
    have hpos : 1 ≤ v.operands.length := by rw [hr]; simp
    simp [Move.height, Nat.mod_eq_of_lt hb, hpos, View.setReg]
  | free count =>
    simp only [perform] at h
    split at h
    · rename_i hc
      cases h
      simp [Move.height, Nat.mod_eq_of_lt hb, hc]
    · cases h

/-- Without more pushes than there is room for, the height counted over moves is the one that the operand stack has
    after them. -/
theorem heightAfter_of_performAll {v v' : View} {ms : List Move} (h : v.performAll ms = some v')
    (hb : v.operands.length + ms.countP Move.isPush < 2 ^ 32) :
    Move.heightAfter v.operands.length ms = some v'.operands.length := by
  induction ms generalizing v with
  | nil => cases h; rfl
  | cons m ms ih =>
    obtain ⟨w, hw, h⟩ := Option.bind_eq_some_iff.mp h
    rw [List.countP_cons] at hb
    have hm : m.height v.operands.length = some w.operands.length := height_of_perform hw (by omega)
    have hle := Move.height_le hm
    rw [Move.heightAfter_cons hm]
    exact ih h (by omega)

end View

namespace CodeBuffer

structure Moved (b : CodeBuffer) (ms : List Move) (height : Nat) (b' : CodeBuffer) : Prop where
  insts : b'.insts = b.insts ++ (ms.map Inst.move).toArray
  labels : b'.labels = b.labels
  patches : b'.patches = b.patches
  height : b'.height = height

/-- Moves that never take the stack below the frame can be emitted. -/
theorem emitMoves_of_heightAfter {b : CodeBuffer} {ms : List Move} {height : Nat}
    (h : Move.heightAfter b.height ms = some height) :
    ∃ b', b.emitMoves ms = .ok b' ∧ b.Moved ms height b' := by
  induction ms generalizing b with
  | nil => cases h; exact ⟨b, rfl, by simp, rfl, rfl, rfl⟩
  | cons m ms ih =>
    obtain ⟨next, hm, h⟩ := Option.bind_eq_some_iff.mp h
    have he : b.emit (.move m) = .ok { b with
        insts := b.insts.push (.move m), height := next, heights := b.heights.push b.height } := by
      simp only [emit, Inst.height, hm]
    obtain ⟨b', hb', hd⟩ := ih (b := { b with
      insts := b.insts.push (.move m), height := next, heights := b.heights.push b.height }) h
    refine ⟨b', ?_, ?_, hd.labels, hd.patches, hd.height⟩
    · simp only [emitMoves, List.foldlM_cons, he]
      exact hb'
    · rw [hd.insts]; simp

end CodeBuffer
end BaselineTier
