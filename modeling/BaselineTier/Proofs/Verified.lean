/-
  BaselineTier.Proofs.Verified — what the verifier has made sure of.

  The instructions of an accepted program tile its code, and its stack map is exact. So what
  the map knows about an offset can be read off the instructions: a reachable offset is the
  start of one, at the one depth that it is reached with, and control comes to it by a jump
  or from the instruction before it.
-/

import BaselineTier.Program.Basic
import BaselineTier.Proofs.Reachability

namespace BaselineTier

/-- Two instructions of a code do not overlap. -/
theorem Instruction.Tiles.disjoint {code : List UInt8} {is : List Instruction} {offset : Nat} (h : Tiles code offset is)
    {i j : Instruction} (hi : i ∈ is) (hj : j ∈ is) : i = j ∨ i.next ≤ j.offset ∨ j.next ≤ i.offset := by
  induction is generalizing offset with
  | nil => cases hi
  | cons k is ih =>
    rcases List.mem_cons.mp hi with rfl | hi'
    · rcases List.mem_cons.mp hj with rfl | hj'
      · exact .inl rfl
      · exact .inr (.inl (h.2.offset_le j hj'))
    · rcases List.mem_cons.mp hj with rfl | hj'
      · exact .inr (.inr (h.2.offset_le i hi'))
      · exact ih h.2 hi' hj'

namespace Program

structure Verified (p : Program) : Prop where
  tiles : Instruction.Tiles p.code 0 p.instructions
  wellFormed : StackMap.WellFormed ⟨p.slots, p.args, p.atoms.size⟩ p.instructions
  exact : StackMap.Exact p.instructions p.stackMap
  arguments : p.needsArguments = p.instructions.any fun i => i.opcode == .arguments

/-- An accepted program holds what the verifier has found and the instructions that its code decodes to. -/
theorem eq_of_ofCode {name : String} {code : List UInt8} {slots args : Nat} {atoms : Array String} {p : Program}
    (h : ofCode name code slots args atoms = .ok p) :
    ∃ m is, StackMap.verify ⟨slots, args, atoms.size⟩ code = .ok m ∧ Instruction.decode code = .ok is ∧
      p = { name, code, instructions := is, slots, args, atoms, stackMap := m,
            needsArguments := is.any fun i => i.opcode == .arguments } := by
  unfold ofCode at h
  cases hv : StackMap.verify ⟨slots, args, atoms.size⟩ code with
  | error e => rw [hv] at h; cases h
  | ok m =>
    rw [hv] at h
    cases hd : Instruction.decode code with
    | error e => rw [hd] at h; cases h
    | ok is =>
      rw [hd] at h
      cases h
      exact ⟨m, is, rfl, rfl, rfl⟩

theorem verified_of_ofCode {name : String} {code : List UInt8} {slots args : Nat} {atoms : Array String} {p : Program}
    (h : ofCode name code slots args atoms = .ok p) : p.Verified := by
  obtain ⟨m, is, hv, hd, rfl⟩ := eq_of_ofCode h
  exact ⟨Instruction.decode_iff_tiles.mp hd, StackMap.wellFormed_of_verify hv hd, StackMap.exact_of_verify hv hd, rfl⟩

variable {p : Program} {i : Instruction} {offset : Nat} {info : StackMap.Info}

theorem Verified.reaches (h : p.Verified) (hinfo : p.stackMap.info? offset = some info) :
    StackMap.Reaches p.instructions offset info.depth := (h.exact.depth _ _).mp ⟨info, hinfo, rfl⟩

theorem Verified.exists_info (h : p.Verified) {depth : Nat} (hr : StackMap.Reaches p.instructions offset depth) :
    ∃ info, p.stackMap.info? offset = some info := by
  obtain ⟨info, hinfo, -⟩ := (h.exact.depth _ _).mpr hr
  exact ⟨info, hinfo⟩

theorem Verified.depth_eq (h : p.Verified) (hinfo : p.stackMap.info? offset = some info) {depth : Nat}
    (hr : StackMap.Reaches p.instructions offset depth) : info.depth = depth :=
  h.wellFormed.single _ _ _ (h.reaches hinfo) hr

theorem Verified.admissible (h : p.Verified) (hi : i ∈ p.instructions) (hinfo : p.stackMap.info? i.offset = some info) :
    StackMap.Admissible ⟨p.slots, p.args, p.atoms.size⟩ p.instructions i info.depth :=
  h.wellFormed.admissible i hi _ (h.reaches hinfo)

theorem Verified.depth_le (h : p.Verified) (hinfo : p.stackMap.info? offset = some info) :
    info.depth ≤ maxStackDepth := by
  have hr := h.reaches hinfo
  generalize info.depth = depth at hr ⊢
  cases hr with
  | start => exact Nat.zero_le _
  | jump hi hr hpops ht => exact (h.wellFormed.admissible _ hi _ hr).room
  | next hi hr hpops hf => exact (h.wellFormed.admissible _ hi _ hr).room

/-- What can be reached is an instruction. -/
theorem Verified.instruction (h : p.Verified) (hinfo : p.stackMap.info? offset = some info) :
    ∃ i ∈ p.instructions, i.offset = offset := by
  have hr := h.reaches hinfo
  generalize info.depth = depth at hr
  cases hr with
  | start =>
    obtain ⟨i, hi, _⟩ := h.exact.attained
    exact h.tiles.head (Nat.zero_lt_of_lt (h.tiles.offset_lt hi))
  | jump hi hr hpops ht => exact (h.wellFormed.admissible _ hi _ hr).target _ ht
  | next hi hr hpops hf => exact (h.wellFormed.admissible _ hi _ hr).next hf

/-- A jump lands where an instruction starts that can be reached. -/
theorem Verified.jumpTarget (h : p.Verified) (ht : p.stackMap.isJumpTarget offset = true) :
    ∃ i ∈ p.instructions, i.offset = offset ∧ (p.stackMap.info? offset).isSome = true := by
  obtain ⟨j, hj, depth, hr, htarget⟩ := (h.exact.jump offset).mp ht
  obtain ⟨i, hi, ho⟩ := (h.wellFormed.admissible j hj depth hr).target offset htarget
  refine ⟨i, hi, ho, ?_⟩
  rw [StackMap.isJumpTarget] at ht
  cases hinfo : p.stackMap.info? offset with
  | none => rw [hinfo] at ht; cases ht
  | some info => rfl

/-- Control comes to an instruction by a jump, or from the instruction before it. -/
theorem Verified.fell (h : p.Verified) (hi : i ∈ p.instructions) (hinfo : p.stackMap.info? i.next = some info)
    (ht : info.jumpTarget = false) :
    ∃ before, p.stackMap.info? i.offset = some before ∧ i.opcode.fallsThrough = true ∧
      info.depth = i.after before.depth := by
  have hr := h.reaches hinfo
  have hpos := i.offset_lt_next
  have hfalse : p.stackMap.isJumpTarget i.next = false := by rw [StackMap.isJumpTarget, hinfo]; exact ht
  generalize ho : i.next = o at hr hfalse
  generalize info.depth = depth at hr ⊢
  cases hr with
  | start => omega
  | jump hj hr hpops htarget =>
    rw [(h.exact.jump o).mpr ⟨_, hj, _, hr, htarget⟩] at hfalse
    cases hfalse
  | @next j d hj hr hpops hf =>
    have hji : j = i := by
      have := j.offset_lt_next
      rcases h.tiles.disjoint hj hi with rfl | hlt | hlt
      · rfl
      · omega
      · omega
    subst hji
    obtain ⟨before, hbefore, rfl⟩ := (h.exact.depth _ _).mpr hr
    exact ⟨before, hbefore, hf, rfl⟩

end Program

end BaselineTier
