/-
  BaselineTier.Proofs.Tiling — decoded instructions lie one after the other.

  A read that succeeds goes ahead by the bytes it takes (`Advances`), so an instruction that
  is decoded has the length that its opcode promises, an operand of its opcode's format and a
  target inside the code (`Sound`). Decoding a whole byte string gives the instructions that
  follow one another without a gap from offset 0 to the end (`decode_iff_tiles`), and each of
  them is the one that decoding at its offset gives.
-/

import BaselineTier.StackMap
import Mathlib

namespace BaselineTier

/-! ## Reads -/

namespace Cursor

variable {α γ : Type}

def Advances (r : Read α) (count : Nat) : Prop :=
  ∀ c a c', r c = .ok a c' → count ≤ c.rest.length ∧ c' = ⟨c.rest.drop count, c.position + count⟩

theorem take_advances (count : Nat) : Advances (take count) count := by
  intro c bytes c' h
  unfold take at h
  simp only [List.length_take] at h
  split at h
  · cases h
    exact ⟨by omega, rfl⟩
  · cases h

theorem map_advances {r : Read α} {count : Nat} (f : α → γ) (h : Advances r count) : Advances (f <$> r) count := by
  intro c b c' hr
  simp only [Functor.map, EStateM.map] at hr
  split at hr
  · rename_i a c₁ ha
    cases hr
    exact h c a _ ha
  · cases hr

theorem number_advances (count : Nat) : Advances (number count) count := map_advances _ (take_advances count)

theorem u32_advances : Advances u32 4 := map_advances _ (number_advances 4)

theorem i32_advances : Advances i32 4 := map_advances _ u32_advances

theorem opcode_advances : Advances opcode 1 := by
  intro c op c' h
  simp only [opcode, bind, EStateM.bind, get, getThe, MonadStateOf.get, EStateM.get] at h
  split at h
  · rename_i byte c₁ hb
    have hu := map_advances UInt8.ofNat (number_advances 1) c byte c₁ hb
    cases ho : Opcode.ofByte? byte with
    | none => rw [ho] at h; cases h
    | some op =>
      rw [ho] at h
      cases h
      exact hu
  · cases h

/-- An operand takes the bytes of its format. -/
theorem operand_advances (length offset : Nat) (f : OperandFormat) : Advances (operand length offset f) f.size := by
  cases f with
  | none =>
    intro c a c' h
    cases h
    exact ⟨Nat.zero_le _, rfl⟩
  | i8 => exact map_advances _ (map_advances _ (map_advances _ (number_advances 1)))
  | u16 => exact map_advances _ (map_advances _ (number_advances 2))
  | i32 => exact map_advances _ i32_advances
  | u32 => exact map_advances _ u32_advances
  | f64 => exact map_advances _ (map_advances _ (number_advances 8))
  | jump =>
    intro c a c' h
    simp only [operand, bind, EStateM.bind] at h
    split at h
    · rename_i distance c₁ hd
      have hi := i32_advances c distance c₁ hd
      split at h
      · cases h
        exact hi
      · cases h
    · cases h

theorem map_ok {r : Read α} {f : α → γ} {c c' : Cursor} {b : γ} (h : (f <$> r) c = .ok b c') : ∃ a, b = f a := by
  simp only [Functor.map, EStateM.map] at h
  split at h
  · rename_i a _ _
    cases h
    exact ⟨a, rfl⟩
  · cases h

/-- An operand has the format that was asked for, and a jump stays inside the code. -/
theorem operand_ok {length offset : Nat} {f : OperandFormat} {c c' : Cursor} {o : Operand}
    (h : operand length offset f c = .ok o c') : o.format = f ∧ ∀ target, o = .jump target → target < length := by
  cases f with
  | none =>
    cases h
    exact ⟨rfl, fun _ e => nomatch e⟩
  | jump =>
    simp only [operand, bind, EStateM.bind] at h
    split at h
    · split at h
      · rename_i hr
        cases h
        refine ⟨rfl, fun target e => ?_⟩
        cases e
        omega
      · cases h
    · cases h
  | _ =>
    obtain ⟨a, rfl⟩ := map_ok h
    exact ⟨rfl, fun _ e => nomatch e⟩

end Cursor

/-! ## One instruction -/

namespace Instruction

structure Sound (length : Nat) (i : Instruction) : Prop where
  size : i.size = i.opcode.length
  format : i.operand.format = i.opcode.format
  target : ∀ target, i.target? = some target → target < length

theorem length_pos (op : Opcode) : 0 < op.length := by
  unfold Opcode.length
  omega

theorem decodeHead_ok {length : Nat} {c : Cursor} {i : Instruction} (h : decodeHead length c = .ok i) :
    i.offset = c.position ∧ i.opcode.length ≤ c.rest.length ∧ i.Sound length := by
  unfold decodeHead at h
  split at h
  · rename_i j c' hj
    cases h
    simp only [Cursor.instruction, bind, EStateM.bind, get, getThe, MonadStateOf.get, EStateM.get] at hj
    split at hj
    · rename_i op c₁ hop
      obtain ⟨h₁, rfl⟩ := Cursor.opcode_advances _ _ _ hop
      split at hj
      · rename_i o c₂ ho
        obtain ⟨h₂, rfl⟩ := Cursor.operand_advances _ _ _ _ _ _ ho
        obtain ⟨hf, ht⟩ := Cursor.operand_ok ho
        cases hj
        simp only [List.length_drop] at h₂
        refine ⟨rfl, ?_, ?_, hf, ?_⟩
        · simp only [Opcode.length]
          omega
        · simp only [Opcode.length]
          omega
        · intro target e
          unfold target? at e
          split at e
          · cases e
            exact ht _ ‹_›
          · cases e
      · cases hj
    · cases hj
  · cases h

theorem decodeAt_ok {code : List UInt8} {offset : Nat} {i : Instruction} (h : decodeAt code offset = .ok i) :
    i.offset = offset ∧ i.next ≤ code.length ∧ i.Sound code.length := by
  obtain ⟨ho, hl, hs⟩ := decodeHead_ok h
  simp only [Cursor.start, List.length_drop] at ho hl
  have := length_pos i.opcode
  exact ⟨ho, by unfold next; omega, hs⟩

/-! ## A whole code -/

/-- The instructions that follow one another from an offset to the end of the code. -/
def Tiles (code : List UInt8) : Nat → List Instruction → Prop
  | offset, [] => offset = code.length
  | offset, i :: is => decodeAt code offset = .ok i ∧ Tiles code i.next is

theorem decodeFrom_skip (length : Nat) : ∀ (bytes : List UInt8) (offset skip : Nat), skip ≤ bytes.length →
    decodeFrom length bytes offset skip = decodeFrom length (bytes.drop skip) (offset + skip) 0 := by
  intro bytes
  induction bytes with
  | nil =>
    intro offset skip h
    simp only [List.length_nil, Nat.le_zero] at h
    subst h
    rfl
  | cons b rest ih =>
    intro offset skip h
    cases skip with
    | zero => rfl
    | succ skip =>
      simp only [List.length_cons] at h
      rw [decodeFrom, ih (offset + 1) skip (by omega), List.drop_succ_cons]
      congr 1
      omega

/-- One round of decoding: the instruction at the offset, then what follows it. -/
theorem decodeFrom_drop {code : List UInt8} {offset : Nat} (h : offset < code.length) :
    decodeFrom code.length (code.drop offset) offset 0 = (do
      let i ← decodeAt code offset
      let is ← decodeFrom code.length (code.drop i.next) i.next 0
      pure (i :: is)) := by
  have hd : decodeAt code offset = decodeHead code.length ⟨code.drop offset, offset⟩ := rfl
  rw [List.drop_eq_getElem_cons h, decodeFrom, hd, List.drop_eq_getElem_cons h]
  cases hi : decodeHead code.length ⟨code[offset] :: code.drop (offset + 1), offset⟩ with
  | error e => rfl
  | ok i =>
    obtain ⟨ho, hl, hs⟩ := decodeHead_ok hi
    simp only [List.length_cons, List.length_drop] at ho hl
    have hpos := length_pos i.opcode
    have hskip : i.size - 1 ≤ (code.drop (offset + 1)).length := by
      rw [hs.size, List.length_drop]
      omega
    have hnext : offset + 1 + (i.size - 1) = i.next := by
      rw [hs.size, next]
      omega
    simp only [bind, Except.bind]
    rw [decodeFrom_skip _ _ _ _ hskip, List.drop_drop, hnext]

theorem decodeFrom_iff_tiles {code : List UInt8} : ∀ {is : List Instruction} {offset : Nat}, offset ≤ code.length →
    (decodeFrom code.length (code.drop offset) offset 0 = .ok is ↔ Tiles code offset is) := by
  intro is
  induction is with
  | nil =>
    intro offset h
    rcases Nat.lt_or_eq_of_le h with h | rfl
    · rw [decodeFrom_drop h]
      refine ⟨fun he => ?_, fun he => absurd he (by simp only [Tiles]; omega)⟩
      cases hi : decodeAt code offset with
      | error e => simp [hi, bind, Except.bind] at he
      | ok i =>
        simp only [hi, bind, Except.bind] at he
        split at he <;> cases he
    · simp [decodeFrom, Tiles]
  | cons j is ih =>
    intro offset h
    rcases Nat.lt_or_eq_of_le h with h | rfl
    · rw [decodeFrom_drop h, Tiles]
      cases hi : decodeAt code offset with
      | error e => simp [bind, Except.bind]
      | ok i =>
        obtain ⟨-, hn, -⟩ := decodeAt_ok hi
        simp only [bind, Except.bind, Except.ok.injEq]
        constructor
        · intro he
          split at he
          · cases he
          · rename_i is' his
            cases he
            exact ⟨rfl, (ih hn).mp his⟩
        · rintro ⟨rfl, ht⟩
          rw [(ih hn).mpr ht]
          rfl
    · rw [List.drop_length, decodeFrom, Tiles]
      refine ⟨fun he => (nomatch he), fun he => ?_⟩
      obtain ⟨ho, hn, -⟩ := decodeAt_ok he.1
      have := length_pos j.opcode
      unfold next at hn
      omega

/-- Decoding a code gives the instructions that tile it, and nothing else. -/
theorem decode_iff_tiles {code : List UInt8} {is : List Instruction} : decode code = .ok is ↔ Tiles code 0 is := by
  have h : decodeFrom code.length (code.drop 0) 0 0 = .ok is ↔ Tiles code 0 is := decodeFrom_iff_tiles (Nat.zero_le _)
  exact h

/-! ## Offsets -/

section Tiles

variable {code : List UInt8} {is : List Instruction} {offset : Nat}

theorem Tiles.decodeAt (h : Tiles code offset is) : ∀ i ∈ is, Instruction.decodeAt code i.offset = .ok i := by
  induction is generalizing offset with
  | nil => intro i hi; cases hi
  | cons j is ih =>
    intro i hi
    rcases List.mem_cons.mp hi with rfl | hi
    · rw [(decodeAt_ok h.1).1]
      exact h.1
    · exact ih h.2 i hi

theorem Tiles.sound (h : Tiles code offset is) {i : Instruction} (hi : i ∈ is) :
    i.next ≤ code.length ∧ i.Sound code.length := (decodeAt_ok (h.decodeAt i hi)).2

theorem Tiles.offset_le (h : Tiles code offset is) : ∀ i ∈ is, offset ≤ i.offset := by
  induction is generalizing offset with
  | nil => intro i hi; cases hi
  | cons j is ih =>
    intro i hi
    have hj := (decodeAt_ok h.1).1
    rcases List.mem_cons.mp hi with rfl | hi
    · omega
    · have := ih h.2 i hi
      unfold next at this
      omega

theorem offset_lt_next (i : Instruction) : i.offset < i.next := by
  have := length_pos i.opcode
  unfold next
  omega

theorem Tiles.offset_lt (h : Tiles code offset is) {i : Instruction} (hi : i ∈ is) : i.offset < code.length := by
  have := (h.sound hi).1
  have := offset_lt_next i
  omega

theorem Tiles.length_le (h : Tiles code offset is) : offset + is.length ≤ code.length := by
  induction is generalizing offset with
  | nil => exact Nat.le_of_eq h
  | cons i is ih =>
    have := ih h.2
    have := offset_lt_next i
    have := (decodeAt_ok h.1).1
    rw [List.length_cons]
    omega

theorem Tiles.eq_nil (h : Tiles code offset is) (hl : code.length ≤ offset) : is = [] := by
  cases is with
  | nil => rfl
  | cons i is =>
    have := h.offset_le i (by simp)
    have := h.offset_lt (i := i) (by simp)
    omega

/-- An instruction is known by its offset. -/
theorem Tiles.eq_of_offset (h : Tiles code offset is) {i j : Instruction} (hi : i ∈ is) (hj : j ∈ is)
    (he : i.offset = j.offset) : i = j := by
  have h₁ := h.decodeAt i hi
  have h₂ := h.decodeAt j hj
  rw [he, h₂] at h₁
  cases h₁
  rfl

/-- The offsets increase along the list. -/
theorem Tiles.pairwise (h : Tiles code offset is) : is.Pairwise fun i j => i.next ≤ j.offset := by
  induction is generalizing offset with
  | nil => exact .nil
  | cons j is ih => exact .cons (fun i hi => h.2.offset_le i hi) (ih h.2)

/-- After an instruction that does not end the code comes another. -/
theorem Tiles.exists_next (h : Tiles code offset is) {i : Instruction} (hi : i ∈ is) (hn : i.next < code.length) :
    ∃ j ∈ is, j.offset = i.next := by
  induction is generalizing offset with
  | nil => cases hi
  | cons k is ih =>
    rcases List.mem_cons.mp hi with rfl | hi
    · cases is with
      | nil =>
        have : i.next = code.length := h.2
        omega
      | cons j is =>
        exact ⟨j, by simp, (decodeAt_ok h.2.1).1⟩
    · obtain ⟨j, hj, e⟩ := ih h.2 hi
      exact ⟨j, List.mem_cons_of_mem _ hj, e⟩

theorem Tiles.head (h : Tiles code offset is) (hl : offset < code.length) : ∃ i ∈ is, i.offset = offset := by
  cases is with
  | nil =>
    have : offset = code.length := h
    omega
  | cons i is => exact ⟨i, by simp, (decodeAt_ok h.1).1⟩

end Tiles
end Instruction
end BaselineTier
