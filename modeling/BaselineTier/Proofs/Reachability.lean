/-
  BaselineTier.Proofs.Reachability — the stack map is exact.

  `Reaches` is the least set of offsets with depths that holds offset 0 with an empty stack
  and follows every instruction, by what it pops and pushes, to its jump target and to the
  instruction after it. A code is `WellFormed` when no offset is reached with two depths and
  every instruction is admissible at the depth it is reached with.

  The walk keeps an invariant (`Walk.Inv`): what the map holds is reached, every offset that
  has left the pending list is admissible and its successors are in the map, and the number of
  visits left covers the pending offsets and the ones not yet met. So a walk that ends well
  has a map closed under the edges, which is then all that is reached; and in a well-formed
  code no visit fails, whatever the order.
-/

import BaselineTier.Proofs.Tiling

namespace BaselineTier

def Instruction.after (i : Instruction) (depth : Nat) : Nat := depth - i.pops + i.pushes

def Limits.Admits (l : Limits) (i : Instruction) (depth : Nat) : Prop :=
  match i.opcode with
  | .getLocal => i.count < l.slots + depth
  | .setLocal | .incLocal | .decLocal => i.count < l.slots
  | .getArg | .setArg => i.count < l.args
  | .pushString | .getName | .setName | .getGlobal | .setGlobal | .getProp | .setProp =>
    (i.u32?.map UInt32.toNat).getD 0 < l.atoms
  | _ => True

namespace StackMap

inductive Reaches (is : List Instruction) : (offset depth : Nat) → Prop
  | start : Reaches is 0 0
  | jump {i : Instruction} {depth target : Nat} : i ∈ is → Reaches is i.offset depth → i.pops ≤ depth →
      i.target? = some target → Reaches is target (i.after depth)
  | next {i : Instruction} {depth : Nat} : i ∈ is → Reaches is i.offset depth → i.pops ≤ depth →
      i.opcode.fallsThrough = true → Reaches is i.next (i.after depth)

structure Admissible (l : Limits) (is : List Instruction) (i : Instruction) (depth : Nat) : Prop where
  operand : l.Admits i depth
  pops : i.pops ≤ depth
  ret : i.opcode = .ret → depth = 1
  stop : i.opcode = .stop → depth = 0
  room : i.after depth ≤ maxStackDepth
  target : ∀ target, i.target? = some target → ∃ j ∈ is, j.offset = target
  next : i.opcode.fallsThrough = true → ∃ j ∈ is, j.offset = i.next

/-- Every offset is reached with one depth only, and every instruction may be met with it. -/
structure WellFormed (l : Limits) (is : List Instruction) : Prop where
  single : ∀ offset d d', Reaches is offset d → Reaches is offset d' → d = d'
  admissible : ∀ i ∈ is, ∀ depth, Reaches is i.offset depth → Admissible l is i depth

end StackMap

/-! ## One instruction -/

/-- An operand that is accepted is in bounds. -/
theorem Limits.admits_of_checkOperand {l : Limits} {i : Instruction} {depth : Nat}
    (h : l.checkOperand i depth = .ok ()) : l.Admits i depth := by
  unfold checkOperand readable at h
  unfold Admits
  generalize i.opcode = op at h ⊢
  cases op <;> grind

/-- An operand that is in bounds is accepted, where what can be read is a 32-bit count. -/
theorem Limits.checkOperand_of_admits {l : Limits} {i : Instruction} {depth : Nat} (hl : l.slots + depth < 2 ^ 32)
    (h : l.Admits i depth) : l.checkOperand i depth = .ok () := by
  unfold checkOperand readable
  unfold Admits at h
  rw [if_pos hl]
  generalize i.opcode = op at h ⊢
  cases op <;> simp_all

theorem Opcode.requiredDepth_iff (op : Opcode) (depth : Nat) :
    op.requiredDepth.getD depth = depth ↔ (op = .ret → depth = 1) ∧ (op = .stop → depth = 0) := by
  cases op <;> simp [requiredDepth, eq_comm]

/-- What the verifier checks of one instruction. -/
theorem Limits.depthAfter_ok_iff {l : Limits} {i : Instruction} {depth a : Nat} :
    l.depthAfter i depth = .ok a ↔
      l.checkOperand i depth = .ok () ∧ i.pops ≤ depth ∧ (i.opcode = .ret → depth = 1) ∧
        (i.opcode = .stop → depth = 0) ∧
        i.after depth ≤ maxStackDepth ∧ a = i.after depth := by
  unfold depthAfter
  cases hc : l.checkOperand i depth with
  | error e => simp [bind, Except.bind]
  | ok u =>
    have hrd := Opcode.requiredDepth_iff i.opcode depth
    simp only [bind, Except.bind, throw, throwThe, MonadExceptOf.throw, pure, Except.pure, true_and]
    by_cases hp : depth < i.pops
    · simp only [hp, if_true]
      exact ⟨fun he => (nomatch he), fun he => absurd hp (by omega)⟩
    by_cases hq : i.opcode.requiredDepth.getD depth = depth
    · by_cases hm : maxStackDepth < depth - i.pops + i.pushes
      · simp only [hp, hq, hm, if_false, if_true, ne_eq, not_true_eq_false]
        refine ⟨fun he => (nomatch he), fun he => ?_⟩
        have := he.2.2.2.1
        unfold Instruction.after at this
        omega
      · simp only [hp, hq, hm, if_false, ne_eq, not_true_eq_false, Except.ok.injEq]
        have := hrd.mp hq
        exact ⟨fun he => ⟨by omega, this.1, this.2, by unfold Instruction.after; omega, he.symm⟩,
          fun he => he.2.2.2.2.symm⟩
    · simp only [hp, hq, if_false, ne_eq, not_false_eq_true, if_true]
      exact ⟨fun he => (nomatch he), fun he => absurd (hrd.mpr ⟨he.2.1, he.2.2.1⟩) hq⟩

namespace StackMap

/-! ## The table of instructions -/

theorem getElem?_foldl_starts {is : List Instruction} (h : is.Pairwise fun i j => i.offset ≠ j.offset) (offset : Nat) :
    ∀ a : Array (Option Instruction), (∀ i ∈ is, i.offset < a.size) →
      (is.foldl (fun a i => a.setIfInBounds i.offset (some i)) a)[offset]? =
        ((is.find? (·.offset == offset)).map some).or a[offset]? := by
  induction is with
  | nil => intro a _; simp
  | cons i is ih =>
    intro a ha
    obtain ⟨hd, hp⟩ := List.pairwise_cons.mp h
    have hi : i.offset < a.size := ha i (by simp)
    rw [List.foldl_cons, ih hp _ (fun j hj => by simpa using ha j (List.mem_cons_of_mem _ hj))]
    by_cases e : i.offset = offset
    · subst e
      have hn : is.find? (·.offset == i.offset) = none := by
        rw [List.find?_eq_none]
        intro j hj
        simpa using (hd j hj).symm
      simp [hn, hi]
    · rw [List.find?_cons_of_neg (by simpa using e), Array.getElem?_setIfInBounds_ne e]

section Code

variable {l : Limits} {code : List UInt8} {is : List Instruction}

/-- The table holds the instructions of the code, each at its offset. -/
theorem starts_join_iff (ht : Instruction.Tiles code 0 is) {offset : Nat} {i : Instruction} :
    (starts code.length is)[offset]?.join = some i ↔ i ∈ is ∧ i.offset = offset := by
  have hne : is.Pairwise fun i j => i.offset ≠ j.offset :=
    ht.pairwise.imp fun {i j} h => by have := i.offset_lt_next; omega
  have hr := getElem?_foldl_starts hne offset (Array.replicate code.length none)
    (fun j hj => by simpa using ht.offset_lt hj)
  unfold starts
  rw [hr]
  cases hf : is.find? (·.offset == offset) with
  | none =>
    have hn := List.find?_eq_none.mp hf
    simp only [Option.map_none, Option.none_or, Array.getElem?_replicate]
    constructor
    · intro h
      split at h <;> cases h
    · rintro ⟨hi, e⟩
      exact absurd (by simpa using e) (hn i hi)
  | some j =>
    have hj : j ∈ is := List.mem_of_find?_eq_some hf
    have ho : j.offset = offset := by simpa using List.find?_some hf
    simp only [Option.map_some, Option.some_or, Option.join_some, Option.some.injEq]
    constructor
    · rintro rfl
      exact ⟨hj, ho⟩
    · rintro ⟨hi, e⟩
      exact ht.eq_of_offset hj hi (ho.trans e.symm)

theorem starts_isSome_iff (ht : Instruction.Tiles code 0 is) {offset : Nat} :
    (starts code.length is)[offset]?.join.isSome = true ↔ ∃ i ∈ is, i.offset = offset := by
  rw [Option.isSome_iff_exists]
  constructor
  · rintro ⟨i, hi⟩
    exact ⟨i, (starts_join_iff ht).mp hi⟩
  · rintro ⟨i, hi, e⟩
    exact ⟨i, (starts_join_iff ht).mpr ⟨hi, e⟩⟩

theorem size_starts (length : Nat) (is : List Instruction) : (starts length is).size = length := by
  unfold starts
  generalize ha : Array.replicate length (none : Option Instruction) = a
  have hs : a.size = length := by subst ha; simp
  clear ha
  induction is generalizing a with
  | nil => exact hs
  | cons i is ih => exact ih _ (by simpa using hs)

end Code

/-! ## Reaching an offset -/

def note (m : StackMap) (offset : Nat) (info : Info) : StackMap :=
  { m with infos := m.infos.setIfInBounds offset (some info) }

theorem info?_note {m : StackMap} {offset : Nat} (h : offset < m.infos.size) (info : Info) (o : Nat) :
    (m.note offset info).info? o = if o = offset then some info else m.info? o := by
  unfold info? note
  by_cases e : o = offset
  · subst e
    simp [h]
  · simp [e, Array.getElem?_setIfInBounds_ne (Ne.symm e)]

def unmet (m : StackMap) : Nat := m.infos.countP Option.isNone

theorem unmet_note {m : StackMap} {offset : Nat} (h : offset < m.infos.size) (info : Info) :
    (m.note offset info).unmet + (if (m.info? offset).isNone then 1 else 0) = m.unmet := by
  have hg : m.info? offset = m.infos[offset] := by simp [info?, h]
  have hpos : m.infos[offset].isNone = true → 0 < m.infos.countP Option.isNone := fun hn =>
    Array.countP_pos_iff.mpr ⟨_, Array.getElem_mem h, hn⟩
  unfold unmet note
  simp only [Array.setIfInBounds, h, dif_pos, Array.countP_set, hg]
  split
  · have := hpos ‹_›
    simp only [Option.isNone_some, Bool.false_eq_true, if_false]
    omega
  · simp

structure Walk.Reached (w w' : Walk) (offset depth : Nat) (byJump : Bool) : Prop where
  size : w'.map.infos.size = w.map.infos.size
  deepest : w'.map.deepest = w.map.deepest
  depthAt : ∀ o, w'.map.depthAt o = if o = offset then some depth else w.map.depthAt o
  agrees : ∀ d, w.map.depthAt offset = some d → d = depth
  isJumpTarget : ∀ o, w'.map.isJumpTarget o = (w.map.isJumpTarget o || (byJump && o == offset))
  pending : w'.pending = if (w.map.depthAt offset).isNone then offset :: w.pending else w.pending
  budget : w'.map.unmet + w'.pending.length = w.map.unmet + w.pending.length

theorem Walk.reach_ok {w w' : Walk} {offset depth : Nat} {byJump : Bool} (hs : offset < w.map.infos.size)
    (h : w.reach offset depth byJump = .ok w') : w.Reached w' offset depth byJump := by
  have hu := fun info => unmet_note hs info
  have hi := fun info => info?_note hs info
  unfold reach at h
  cases hk : w.map.info? offset with
  | none =>
    simp only [hk, Except.ok.injEq] at h
    subst h
    have hm : ({ w.map with infos := w.map.infos.setIfInBounds offset (some ⟨depth, byJump⟩) } : StackMap) =
        w.map.note offset ⟨depth, byJump⟩ := rfl
    have hd : w.map.depthAt offset = none := by simp [StackMap.depthAt, hk]
    refine ⟨by simp, rfl, fun o => ?_, fun d hd' => by simp [hd] at hd', fun o => ?_, by simp [hd], ?_⟩
    · simp only [hm, StackMap.depthAt, hi]
      split <;> rfl
    · simp only [hm, StackMap.isJumpTarget, hi]
      by_cases e : o = offset
      · subst e; simp [hk]
      · simp [e]
    · have := hu ⟨depth, byJump⟩
      simp only [hk, Option.isNone_none, if_true] at this
      simp only [hm, List.length_cons]
      omega
  | some known =>
    simp only [hk] at h
    split at h
    · rename_i hd
      simp only [Except.ok.injEq] at h
      subst h
      have hm : ({ w.map with infos := w.map.infos.setIfInBounds offset (some ⟨depth, known.jumpTarget || byJump⟩) } :
          StackMap) =
          w.map.note offset ⟨depth, known.jumpTarget || byJump⟩ := rfl
      have hda : w.map.depthAt offset = some depth := by simp [StackMap.depthAt, hk, hd]
      refine ⟨by simp, rfl, fun o => ?_, fun d hd' => by simpa [hda, eq_comm] using hd', fun o => ?_, by simp [hda], ?_⟩
      · simp only [hm, StackMap.depthAt, hi]
        split <;> rfl
      · simp only [hm, StackMap.isJumpTarget, hi]
        by_cases e : o = offset
        · subst e; simp [hk]
        · simp [e]
      · have := hu ⟨depth, known.jumpTarget || byJump⟩
        simp only [hk, Option.isNone_some, Bool.false_eq_true, if_false] at this
        simp only [hm]
        omega
    · cases h

theorem Walk.exists_reach {w : Walk} {offset depth : Nat} (byJump : Bool)
    (h : ∀ d, w.map.depthAt offset = some d → d = depth) : ∃ w', w.reach offset depth byJump = .ok w' := by
  unfold reach
  cases hk : w.map.info? offset with
  | none => exact ⟨_, rfl⟩
  | some known =>
    have : known.depth = depth := h _ (by simp [StackMap.depthAt, hk])
    simp only [this, if_true]
    exact ⟨_, rfl⟩

/-! ## The invariant of the walk -/

structure Settled (l : Limits) (m : StackMap) (i : Instruction) (depth : Nat) : Prop where
  checked : l.depthAfter i depth = .ok (i.after depth)
  entry : depth ≤ m.deepest
  exit : i.after depth ≤ m.deepest
  target : ∀ target, i.target? = some target →
    m.depthAt target = some (i.after depth) ∧ m.isJumpTarget target = true
  next : i.opcode.fallsThrough = true → m.depthAt i.next = some (i.after depth)

/-- What holds of a walk before each visit, and of all but one offset during a visit. -/
structure Walk.Inv (l : Limits) (is : List Instruction) (length : Nat) (visiting : Option Nat) (w : Walk) : Prop where
  size : w.map.infos.size = length
  start : w.map.depthAt 0 = some 0
  met : ∀ offset depth, w.map.depthAt offset = some depth →
    Reaches is offset depth ∧ depth ≤ maxStackDepth ∧ ∃ i ∈ is, i.offset = offset
  jumped : ∀ offset, w.map.isJumpTarget offset = true →
    ∃ i ∈ is, ∃ depth, Reaches is i.offset depth ∧ i.target? = some offset
  deepest : ∃ offset depth, Reaches is offset depth ∧
    (w.map.deepest = depth ∨ ∃ i ∈ is, i.offset = offset ∧ w.map.deepest = i.after depth)
  pending : ∀ offset ∈ w.pending, (w.map.depthAt offset).isSome = true
  settled : ∀ i ∈ is, ∀ depth, w.map.depthAt i.offset = some depth → i.offset ∉ w.pending → some i.offset ≠ visiting →
    Settled l w.map i depth

section Walks

variable {l : Limits} {code : List UInt8} {is : List Instruction} {visiting : Option Nat} {w w' : Walk}

theorem Settled.mono {m m' : StackMap} {i : Instruction} {depth : Nat} (h : Settled l m i depth)
    (hd : m.deepest ≤ m'.deepest) (hm : ∀ o d, m.depthAt o = some d → m'.depthAt o = some d)
    (hj : ∀ o, m.isJumpTarget o = true → m'.isJumpTarget o = true) : Settled l m' i depth where
  checked := h.checked
  entry := Nat.le_trans h.entry hd
  exit := Nat.le_trans h.exit hd
  target t ht := ⟨hm _ _ (h.target t ht).1, hj _ (h.target t ht).2⟩
  next hf := hm _ _ (h.next hf)

theorem Walk.Reached.mono {offset depth : Nat} {byJump : Bool} (h : w.Reached w' offset depth byJump) (o d : Nat)
    (hd : w.map.depthAt o = some d) : w'.map.depthAt o = some d := by
  rw [h.depthAt]
  split
  · subst o
    rw [h.agrees d hd]
  · exact hd

/-- Reaching an offset that can be reached with the depth keeps the invariant. -/
theorem Walk.Inv.reached {length offset depth : Nat} {byJump : Bool} (hw : w.Inv l is length visiting)
    (h : w.Reached w' offset depth byJump) (hr : Reaches is offset depth) (hm : depth ≤ maxStackDepth)
    (hi : ∃ i ∈ is, i.offset = offset)
    (hj : byJump = true → ∃ i ∈ is, ∃ d, Reaches is i.offset d ∧ i.target? = some offset) :
    w'.Inv l is length visiting where
  size := h.size.trans hw.size
  start := h.mono _ _ hw.start
  met o d hd := by
    rw [h.depthAt] at hd
    split at hd
    · subst o
      cases hd
      exact ⟨hr, hm, hi⟩
    · exact hw.met o d hd
  jumped o ho := by
    rw [h.isJumpTarget] at ho
    rcases Bool.or_eq_true _ _ ▸ ho with ho | ho
    · exact hw.jumped o ho
    · simp only [Bool.and_eq_true, beq_iff_eq] at ho
      rw [ho.2]
      exact hj ho.1
  deepest := by
    rw [h.deepest]
    exact hw.deepest
  pending o ho := by
    rw [h.depthAt]
    split
    · rfl
    · rename_i hne
      rw [h.pending] at ho
      split at ho
      · rcases List.mem_cons.mp ho with e | ho
        · exact absurd e hne
        · exact hw.pending o ho
      · exact hw.pending o ho
  settled i hi' d hd hp hv := by
    have hold : w.map.depthAt i.offset = some d ∧ i.offset ∉ w.pending := by
      rw [h.depthAt] at hd
      rw [h.pending] at hp
      by_cases e : i.offset = offset
      · rw [if_pos e] at hd
        cases hd
        cases hk : w.map.depthAt offset with
        | none =>
          rw [hk, e] at hp
          exact absurd (List.mem_cons_self ..) hp
        | some d' =>
          rw [hk] at hp
          exact ⟨by rw [e, hk, h.agrees d' hk], hp⟩
      · rw [if_neg e] at hd
        refine ⟨hd, fun hmem => hp ?_⟩
        split
        · exact List.mem_cons_of_mem _ hmem
        · exact hmem
    exact (hw.settled i hi' d hold.1 hold.2 hv).mono (Nat.le_of_eq h.deepest.symm) h.mono
      (fun o ho => by rw [h.isJumpTarget, ho, Bool.true_or])

/-! ## One visit -/

def Walk.deepen (w : Walk) (depth after : Nat) : Walk :=
  { w with map := { w.map with deepest := max (max w.map.deepest depth) after } }

def Walk.Jumped (code : Array (Option Instruction)) (i : Instruction) (after : Nat) (w w' : Walk) : Prop :=
  match i.target? with
  | some target => code[target]?.join.isSome = true ∧ w.reach target after true = .ok w'
  | none => w' = w

def Walk.Fallen (code : Array (Option Instruction)) (i : Instruction) (after : Nat) (w w' : Walk) : Prop :=
  if i.opcode.fallsThrough = true then i.next < code.size ∧ w.reach i.next after false = .ok w' else w' = w

theorem Walk.visit_ok_iff {table : Array (Option Instruction)} {offset depth : Nat} {i : Instruction}
    (hi : table[offset]?.join = some i) (hd : w.map.depthAt offset = some depth) :
    Walk.visit l table w offset = .ok w' ↔
      ∃ a w₁, l.depthAfter i depth = .ok a ∧ Jumped table i a (w.deepen depth a) w₁ ∧ Fallen table i a w₁ w' := by
  unfold Walk.visit Jumped Fallen
  rw [hi, hd]
  simp only [bind, Except.bind]
  cases ha : l.depthAfter i depth with
  | error e => simp
  | ok a =>
    simp only [Except.ok.injEq, exists_and_left, exists_eq_left']
    have hfall : ∀ w₁ : Walk, (if i.opcode.fallsThrough = true then
          if i.next < table.size then w₁.reach i.next a false else .error (.error (.fallOffEnd i.offset)) else .ok w₁) =
            .ok w' ↔
        if i.opcode.fallsThrough = true then i.next < table.size ∧ w₁.reach i.next a false = .ok w' else w' = w₁ := by
      intro w₁
      by_cases hf : i.opcode.fallsThrough = true
      · by_cases hn : i.next < table.size <;> simp [hf, hn]
      · simp [hf, eq_comm]
    cases ht : i.target? with
    | none =>
      simp only [exists_eq_left]
      exact hfall _
    | some target =>
      by_cases hs : table[target]?.join.isSome = true
      · simp only [hs, if_true, true_and, Walk.deepen]
        split
        · rename_i hr
          simp only [hr, reduceCtorEq, false_and, exists_false]
        · rename_i w₁ hr
          simp only [hr, Except.ok.injEq, exists_eq_left']
          exact hfall w₁
      · simp [hs]

theorem Walk.Inv.deepen {length offset : Nat} {i : Instruction} {depth : Nat} (hw : w.Inv l is length visiting)
    (hi : i ∈ is) (ho : i.offset = offset) (hd : w.map.depthAt offset = some depth) :
    (w.deepen depth (i.after depth)).Inv l is length visiting where
  size := hw.size
  start := hw.start
  met := hw.met
  jumped := hw.jumped
  deepest := by
    have hr := (hw.met offset depth hd).1
    simp only [Walk.deepen]
    by_cases h₁ : max w.map.deepest depth ≤ i.after depth
    · exact ⟨offset, depth, hr, Or.inr ⟨i, hi, ho, by omega⟩⟩
    · by_cases h₂ : w.map.deepest ≤ depth
      · exact ⟨offset, depth, hr, Or.inl (by omega)⟩
      · have : max (max w.map.deepest depth) (i.after depth) = w.map.deepest := by omega
        rw [this]
        exact hw.deepest
  pending := hw.pending
  settled j hj d hd' hp hv := by
    refine (hw.settled j hj d hd' hp hv).mono ?_ (fun _ _ h => h) (fun _ h => h)
    simp only [Walk.deepen]
    omega

/-- During a visit the offset visited is neither pending nor settled. -/
theorem Walk.Inv.pop {length offset : Nat} {rest : List Nat} (hw : w.Inv l is length none)
    (hp : w.pending = offset :: rest) : ({ w with pending := rest } : Walk).Inv l is length (some offset) where
  size := hw.size
  start := hw.start
  met := hw.met
  jumped := hw.jumped
  deepest := hw.deepest
  pending o ho := hw.pending o (by rw [hp]; exact List.mem_cons_of_mem _ ho)
  settled i hi d hd hn hv := by
    refine hw.settled i hi d hd ?_ (by simp)
    rw [hp]
    intro hm
    rcases List.mem_cons.mp hm with e | hm
    · exact hv (by rw [e])
    · exact hn hm

/-- A visit that succeeds settles its offset, and uses up one visit. -/
theorem Walk.Inv.visit {offset : Nat} {rest : List Nat} (ht : Instruction.Tiles code 0 is)
    (hw : w.Inv l is code.length none) (hp : w.pending = offset :: rest)
    (h : Walk.visit l (starts code.length is) { w with pending := rest } offset = .ok w') :
    w'.Inv l is code.length none ∧ w'.map.unmet + w'.pending.length + 1 = w.map.unmet + w.pending.length := by
  obtain ⟨depth, hd⟩ := Option.isSome_iff_exists.mp (hw.pending offset (by rw [hp]; exact List.mem_cons_self ..))
  obtain ⟨hr, hm, i, hi, ho⟩ := hw.met offset depth hd
  have hst : (starts code.length is)[offset]?.join = some i := (starts_join_iff ht).mpr ⟨hi, ho⟩
  obtain ⟨a, w₁, ha, hj, hf⟩ := (visit_ok_iff (w := { w with pending := rest }) hst hd).mp h
  obtain ⟨-, hpops, -, -, hroom, rfl⟩ := Limits.depthAfter_ok_iff.mp ha
  have hr' : Reaches is i.offset depth := ho ▸ hr
  have hw₀ : (Walk.deepen { w with pending := rest } depth (i.after depth)).Inv l is code.length (some offset) :=
    (hw.pop hp).deepen hi ho hd
  have hlt : ∀ o, (∃ j ∈ is, j.offset = o) → o < code.length := by
    rintro o ⟨j, hj, rfl⟩
    exact ht.offset_lt hj
  -- the jump target, if there is one
  have h₁ : w₁.Inv l is code.length (some offset) ∧
      w₁.map.unmet + w₁.pending.length = w.map.unmet + rest.length ∧ w₁.map.depthAt offset = some depth ∧
      w₁.map.deepest = max (max w.map.deepest depth) (i.after depth) ∧
      ∀ t, i.target? = some t → w₁.map.depthAt t = some (i.after depth) ∧ w₁.map.isJumpTarget t = true := by
    unfold Jumped at hj
    cases htg : i.target? with
    | none =>
      rw [htg] at hj
      subst hj
      exact ⟨hw₀, rfl, hd, rfl, fun t e => nomatch e⟩
    | some t =>
      rw [htg] at hj
      have hex := (starts_isSome_iff ht).mp hj.1
      have hre := Walk.reach_ok (by rw [hw₀.size]; exact hlt t hex) hj.2
      refine ⟨hw₀.reached hre (.jump hi hr' hpops htg) hroom hex (fun _ => ⟨i, hi, depth, hr', htg⟩), hre.budget,
        hre.mono _ _ hd, hre.deepest, fun t' e => ?_⟩
      cases e
      exact ⟨by rw [hre.depthAt, if_pos rfl], by rw [hre.isJumpTarget]; simp⟩
  obtain ⟨hw₁, hb₁, hd₁, hdeep, htarget⟩ := h₁
  -- the next instruction, if control goes on
  have h₂ : w'.Inv l is code.length (some offset) ∧
      w'.map.unmet + w'.pending.length = w.map.unmet + rest.length ∧ Settled l w'.map i depth ∧
      w'.map.depthAt offset = some depth := by
    unfold Fallen at hf
    by_cases hft : i.opcode.fallsThrough = true
    · rw [if_pos hft, size_starts] at hf
      have hex := ht.exists_next hi hf.1
      have hre := Walk.reach_ok (by rw [hw₁.size]; exact hf.1) hf.2
      refine ⟨hw₁.reached hre (.next hi hr' hpops hft) hroom hex (fun e => nomatch e), hre.budget.trans hb₁,
        ⟨ha, ?_, ?_, fun t e => ⟨hre.mono _ _ (htarget t e).1, ?_⟩, fun _ => by rw [hre.depthAt, if_pos rfl]⟩,
        hre.mono _ _ hd₁⟩
      · rw [hre.deepest, hdeep]; omega
      · rw [hre.deepest, hdeep]; omega
      · rw [hre.isJumpTarget, (htarget t e).2, Bool.true_or]
    · rw [if_neg hft] at hf
      subst hf
      exact ⟨hw₁, hb₁, ⟨ha, by rw [hdeep]; omega, by rw [hdeep]; omega, htarget, fun e => absurd e hft⟩, hd₁⟩
  obtain ⟨hw₂, hb₂, hs, hd₂⟩ := h₂
  refine ⟨{ hw₂ with settled := fun j hj d hdj hpj _ => ?_ }, by rw [hp, List.length_cons]; omega⟩
  by_cases e : j.offset = offset
  · have : j = i := ht.eq_of_offset hj hi (e.trans ho.symm)
    subst this
    rw [e, hd₂] at hdj
    cases hdj
    exact hs
  · exact hw₂.settled j hj d hdj hpj (by simpa using e)

/-- In a well-formed code no visit fails. -/
theorem Walk.Inv.exists_visit {offset : Nat} {rest : List Nat} (ht : Instruction.Tiles code 0 is)
    (hl : l.slots + maxStackDepth < 2 ^ 32) (hwf : WellFormed l is) (hw : w.Inv l is code.length none)
    (hp : w.pending = offset :: rest) :
    ∃ w', Walk.visit l (starts code.length is) { w with pending := rest } offset = .ok w' := by
  obtain ⟨depth, hd⟩ := Option.isSome_iff_exists.mp (hw.pending offset (by rw [hp]; exact List.mem_cons_self ..))
  obtain ⟨hr, hm, i, hi, ho⟩ := hw.met offset depth hd
  have hst : (starts code.length is)[offset]?.join = some i := (starts_join_iff ht).mpr ⟨hi, ho⟩
  have hr' : Reaches is i.offset depth := ho ▸ hr
  have had := hwf.admissible i hi depth hr'
  have ha : l.depthAfter i depth = .ok (i.after depth) :=
    Limits.depthAfter_ok_iff.mpr ⟨Limits.checkOperand_of_admits (by omega) had.operand, had.pops, had.ret, had.stop,
      had.room, rfl⟩
  have hw₀ : (Walk.deepen { w with pending := rest } depth (i.after depth)).Inv l is code.length (some offset) :=
    (hw.pop hp).deepen hi ho hd
  obtain ⟨w₁, hj, hw₁⟩ : ∃ w₁, Jumped (starts code.length is) i (i.after depth)
      (Walk.deepen { w with pending := rest } depth (i.after depth)) w₁ ∧
      ∀ o d, w₁.map.depthAt o = some d → Reaches is o d := by
    unfold Jumped
    cases htg : i.target? with
    | none => exact ⟨_, rfl, fun o d h => (hw₀.met o d h).1⟩
    | some t =>
      have hrt : Reaches is t (i.after depth) := .jump hi hr' had.pops htg
      obtain ⟨w₁, h₁⟩ := Walk.exists_reach true fun d h => hwf.single t d _ (hw₀.met t d h).1 hrt
      have hex := had.target t htg
      refine ⟨w₁, ⟨(starts_isSome_iff ht).mpr hex, h₁⟩, fun o d h => ?_⟩
      obtain ⟨j, hj, rfl⟩ := hex
      have hre := Walk.reach_ok (by rw [hw₀.size]; exact ht.offset_lt hj) h₁
      rw [hre.depthAt] at h
      split at h
      · subst o
        cases h
        exact hrt
      · exact (hw₀.met o d h).1
  obtain ⟨w', hf⟩ : ∃ w', Fallen (starts code.length is) i (i.after depth) w₁ w' := by
    unfold Fallen
    by_cases hft : i.opcode.fallsThrough = true
    · simp only [if_pos hft, size_starts]
      have hrn : Reaches is i.next (i.after depth) := .next hi hr' had.pops hft
      obtain ⟨w', h'⟩ := Walk.exists_reach (w := w₁) false (fun d h => hwf.single i.next d _ (hw₁ _ _ h) hrn)
      obtain ⟨j, hj, e⟩ := had.next hft
      exact ⟨w', e ▸ ht.offset_lt hj, h'⟩
    · simp only [if_neg hft]
      exact ⟨w₁, rfl⟩
  exact ⟨w', (visit_ok_iff (w := { w with pending := rest }) hst hd).mpr ⟨_, w₁, ha, hj, hf⟩⟩

/-! ## A whole walk -/

/-- A walk that ends well leaves nothing pending. -/
theorem Walk.Inv.run (ht : Instruction.Tiles code 0 is) :
    ∀ {visits : Nat} {w : Walk}, w.Inv l is code.length none → w.map.unmet + w.pending.length ≤ visits →
      Walk.run l (starts code.length is) visits w = .ok w' → w'.Inv l is code.length none ∧ w'.pending = [] := by
  intro visits
  induction visits with
  | zero =>
    intro w hw hb h
    cases h
    exact ⟨hw, List.eq_nil_of_length_eq_zero (by omega)⟩
  | succ visits ih =>
    intro w hw hb h
    unfold Walk.run at h
    cases hp : w.pending with
    | nil =>
      rw [hp] at h
      cases h
      exact ⟨hw, hp⟩
    | cons offset rest =>
      simp only [hp, bind, Except.bind] at h
      split at h
      · cases h
      · rename_i w₁ hv
        obtain ⟨hw₁, hb₁⟩ := hw.visit ht hp hv
        exact ih hw₁ (by omega) h

theorem Walk.Inv.exists_run (ht : Instruction.Tiles code 0 is) (hl : l.slots + maxStackDepth < 2 ^ 32)
    (hwf : WellFormed l is) : ∀ (visits : Nat) {w : Walk}, w.Inv l is code.length none →
      ∃ w', Walk.run l (starts code.length is) visits w = .ok w' := by
  intro visits
  induction visits with
  | zero => intro w _; exact ⟨w, rfl⟩
  | succ visits ih =>
    intro w hw
    unfold Walk.run
    cases hp : w.pending with
    | nil => exact ⟨w, rfl⟩
    | cons offset rest =>
      obtain ⟨w₁, hv⟩ := hw.exists_visit ht hl hwf hp
      obtain ⟨w', h'⟩ := ih (hw.visit ht hp hv).1
      exact ⟨w', by simp only [bind, Except.bind, hv, h']⟩

theorem Walk.inv_start (ht : Instruction.Tiles code 0 is) (hne : code ≠ []) :
    (Walk.start code.length).Inv l is code.length none := by
  have hpos : 0 < code.length := List.length_pos_iff.mpr hne
  have hn : ∀ o : Nat, (Array.replicate code.length (none : Option Info))[o]?.join = none := by
    intro o
    rw [Array.getElem?_replicate]
    split <;> rfl
  have hi : ∀ o, (Walk.start code.length).map.info? o = if o = 0 then some ⟨0, false⟩ else none := by
    intro o
    have hs : 0 < (StackMap.mk (Array.replicate code.length none) 0).infos.size := by simpa using hpos
    refine (info?_note hs ⟨0, false⟩ o).trans ?_
    simp only [info?, hn]
  refine ⟨by simp [Walk.start], by simp [depthAt, hi], fun o d h => ?_, fun o h => ?_, ⟨0, 0, .start, Or.inl rfl⟩,
    fun o h => ?_, fun i _ d h hp _ => ?_⟩
  · simp only [depthAt, hi] at h
    split at h
    · cases h
      subst o
      exact ⟨.start, Nat.zero_le _, ht.head hpos⟩
    · cases h
  · simp only [isJumpTarget, hi] at h
    split at h <;> cases h
  · have : o = 0 := by simpa [Walk.start] using h
    subst this
    simp [depthAt, hi]
  · simp only [depthAt, hi] at h
    split at h
    · rename_i e
      exact absurd (by simp [Walk.start, e]) hp
    · cases h

theorem Walk.budget_start (length : Nat) (h : 0 < length) :
    (Walk.start length).map.unmet + (Walk.start length).pending.length = length := by
  have hs : 0 < (StackMap.mk (Array.replicate length none) 0).infos.size := by simpa using h
  have := unmet_note hs ⟨0, false⟩
  have hu : (StackMap.mk (Array.replicate length none) 0).unmet = length := by
    simp [unmet, Array.countP_replicate]
  rw [hu] at this
  have hz : (StackMap.mk (Array.replicate length none) 0).info? 0 = none := by
    simp [info?, h]
  rw [hz] at this
  exact this

/-- The map of a walk that ended well holds exactly what can be reached. -/
theorem Walk.Inv.depthAt_iff (hw : w.Inv l is code.length none) (hp : w.pending = []) {offset depth : Nat} :
    w.map.depthAt offset = some depth ↔ Reaches is offset depth := by
  refine ⟨fun h => (hw.met offset depth h).1, fun h => ?_⟩
  induction h with
  | start => exact hw.start
  | jump hi _ _ ht ih => exact ((hw.settled _ hi _ ih (by simp [hp]) (by simp)).target _ ht).1
  | next hi _ _ hf ih => exact (hw.settled _ hi _ ih (by simp [hp]) (by simp)).next hf

theorem Walk.Inv.wellFormed (hw : w.Inv l is code.length none) (hp : w.pending = []) : WellFormed l is where
  single offset d d' h h' := by
    have := (hw.depthAt_iff hp).mpr h
    rw [(hw.depthAt_iff hp).mpr h'] at this
    cases this
    rfl
  admissible i hi depth h := by
    have hd := (hw.depthAt_iff hp).mpr h
    have hs := hw.settled i hi depth hd (by simp [hp]) (by simp)
    obtain ⟨ha, hpo, hret, hstop, hroom, -⟩ := Limits.depthAfter_ok_iff.mp hs.checked
    exact ⟨Limits.admits_of_checkOperand ha, hpo, hret, hstop, hroom, fun t ht => (hw.met _ _ (hs.target t ht).1).2.2,
      fun hf => (hw.met _ _ (hs.next hf)).2.2⟩

end Walks

/-! ## The verifier -/

/-- The map says what can be reached and with which depth, where jumps land, and how deep the stack gets. -/
structure Exact (is : List Instruction) (m : StackMap) : Prop where
  depth : ∀ offset depth, (∃ info, m.info? offset = some info ∧ info.depth = depth) ↔ Reaches is offset depth
  jump : ∀ offset, m.isJumpTarget offset = true ↔
    ∃ i ∈ is, ∃ depth, Reaches is i.offset depth ∧ i.target? = some offset
  bound : ∀ i ∈ is, ∀ depth, Reaches is i.offset depth → depth ≤ m.deepest ∧ i.after depth ≤ m.deepest
  attained : ∃ i ∈ is, ∃ depth, Reaches is i.offset depth ∧ (m.deepest = depth ∨ m.deepest = i.after depth)

theorem depthAt_eq_some_iff {m : StackMap} {offset depth : Nat} :
    m.depthAt offset = some depth ↔ ∃ info, m.info? offset = some info ∧ info.depth = depth := by
  simp [depthAt, Option.map_eq_some_iff]

section Verify

variable {l : Limits} {code : List UInt8} {is : List Instruction} {m : StackMap}

/-- An accepted code has been walked to the end. -/
theorem verify_ok (h : verify l code = .ok m) :
    code ≠ [] ∧ ∃ is w, Instruction.decode code = .ok is ∧ Walk.Inv l is code.length none w ∧ w.pending = [] ∧
      w.map = m := by
  unfold verify at h
  split at h
  · cases h
  · rename_i hne
    have hne : code ≠ [] := by simpa using hne
    cases hd : Instruction.decode code with
    | error e => simp [hd] at h
    | ok is =>
      simp only [hd, bind, Except.bind] at h
      split at h
      · cases h
      · rename_i w hw
        cases h
        have ht := Instruction.decode_iff_tiles.mp hd
        obtain ⟨hinv, hp⟩ := (Walk.inv_start ht hne).run ht
          (Nat.le_of_eq (Walk.budget_start code.length (List.length_pos_iff.mpr hne))) hw
        exact ⟨hne, is, w, rfl, hinv, hp, rfl⟩

/-- The code of an accepted program is well formed. -/
theorem wellFormed_of_verify (h : verify l code = .ok m) (hd : Instruction.decode code = .ok is) : WellFormed l is := by
  obtain ⟨-, is', w, hd', hw, hp, -⟩ := verify_ok h
  rw [hd'] at hd
  cases hd
  exact hw.wellFormed hp

/-- The map of an accepted program is exact. -/
theorem exact_of_verify (h : verify l code = .ok m) (hd : Instruction.decode code = .ok is) : Exact is m := by
  obtain ⟨-, is', w, hd', hw, hp, rfl⟩ := verify_ok h
  rw [hd'] at hd
  cases hd
  have hs := fun i hi depth hr =>
    hw.settled i hi depth ((hw.depthAt_iff hp).mpr hr) (by simp [hp]) (by simp)
  refine ⟨fun offset depth => ?_, fun offset => ⟨hw.jumped offset, ?_⟩, fun i hi depth hr => ?_, ?_⟩
  · rw [← depthAt_eq_some_iff]
    exact hw.depthAt_iff hp
  · rintro ⟨i, hi, depth, hr, ht⟩
    exact ((hs i hi depth hr).target offset ht).2
  · exact ⟨(hs i hi depth hr).entry, (hs i hi depth hr).exit⟩
  · obtain ⟨offset, depth, hr, hdeep⟩ := hw.deepest
    rcases hdeep with hdeep | ⟨i, hi, rfl, hdeep⟩
    · obtain ⟨-, -, i, hi, rfl⟩ := hw.met offset depth ((hw.depthAt_iff hp).mpr hr)
      exact ⟨i, hi, depth, hr, Or.inl hdeep⟩
    · exact ⟨i, hi, depth, hr, Or.inr hdeep⟩

theorem exists_verify (hne : code ≠ []) (hd : Instruction.decode code = .ok is) (hwf : WellFormed l is)
    (hl : l.slots + maxStackDepth < 2 ^ 32) : ∃ m, verify l code = .ok m := by
  have ht := Instruction.decode_iff_tiles.mp hd
  obtain ⟨w, hw⟩ := (Walk.inv_start ht hne).exists_run ht hl hwf code.length
  refine ⟨w.map, ?_⟩
  have he : ¬ code.isEmpty = true := by simpa using hne
  unfold verify
  rw [if_neg he, hd]
  simp only [bind, Except.bind, hw]
  rfl

end Verify

/-- The verifier accepts exactly the well-formed codes, and what it says about an accepted one is exact. -/
theorem verify_accepts_exactly_wellFormed (l : Limits) (code : List UInt8) (hl : l.slots + maxStackDepth < 2 ^ 32) :
    ((∃ m, verify l code = .ok m) ↔ code ≠ [] ∧ ∃ is, Instruction.decode code = .ok is ∧ WellFormed l is) ∧
      ∀ m is, verify l code = .ok m → Instruction.decode code = .ok is → Exact is m := by
  refine ⟨⟨?_, ?_⟩, fun m is h hd => exact_of_verify h hd⟩
  · rintro ⟨m, h⟩
    obtain ⟨hne, is, w, hd, -⟩ := verify_ok h
    exact ⟨hne, is, hd, wellFormed_of_verify h hd⟩
  · rintro ⟨hne, is, hd, hwf⟩
    exact exists_verify hne hd hwf hl

/-- A loop that pushes a value, tests it and jumps back to its beginning. -/
theorem verify_accepts_exactly_wellFormed_loop :
    2 + maxStackDepth < 2 ^ 32 ∧
      verify ⟨2, 0, 0⟩ [0x0A, 0x42, 0xFF, 0xFF, 0xFF, 0xFF, 0x61] =
        .ok ⟨#[some ⟨0, true⟩, some ⟨1, false⟩, none, none, none, none, some ⟨0, false⟩], 1⟩ ∧
      Exact [⟨0, .pushTrue, .none, 1⟩, ⟨1, .ifNe, .jump 0, 5⟩, ⟨6, .stop, .none, 1⟩]
        ⟨#[some ⟨0, true⟩, some ⟨1, false⟩, none, none, none, none, some ⟨0, false⟩], 1⟩ :=
  ⟨by decide, rfl, (verify_accepts_exactly_wellFormed ⟨2, 0, 0⟩ [0x0A, 0x42, 0xFF, 0xFF, 0xFF, 0xFF, 0x61]
    (by decide)).2 _ _ rfl rfl⟩

end StackMap
end BaselineTier
