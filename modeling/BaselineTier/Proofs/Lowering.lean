/-
  BaselineTier.Proofs.Lowering — every instruction is lowered to code that does what it does.

  Where the verifier has met an instruction (`Lowering.Ready`), lowering it breaks no
  assumption and gives code that is as `Draft.Lowered` says; it fails only for want of room
  for a site (`lower_lowered`). An instruction that this tier does not compile is always
  refused (`lower_refused`). Of a job, lowering sees the slots, the arguments, the length, the
  fallbacks and the name that the operand stands for (`lower_congr`).
-/

import BaselineTier.Proofs.Branches
import BaselineTier.Proofs.Operators
import BaselineTier.Proofs.Shuffle

namespace BaselineTier

variable {σ : Type}

theorem Draft.Lowers.depth {job : Job (StubBody σ)} {a : Host σ → Interpreter.Action σ} {n : Nat} {ts : Types}
    {d d' : Draft (StubBody σ)} (h : Draft.Lowers job a n ts d d') : d'.stack.depth = ts.length := by
  rw [← VirtualStack.length_knowns, h.knowns]

/-- Reading a slot, adding one to it and writing it back is one step of the slot. -/
theorem Interpreter.stepLocal_eq {op : Opcode} {index : Nat} {e : Evaluation} (h : index < e.slots.size) (w : World σ) :
    andThen (andThen (andThen (getLocal index) (push (.int32 1))) (two fun a b e => do push (← arith op a b) e))
      (setLocal index) e w =
      stepLocal op index e w := by
  have hlocal : e.local? index = some e.slots[index] := by rw [Evaluation.local?, if_pos h, Array.getElem?_eq_getElem h]
  have hget : getLocal index e w = .ok (.goOn (e.push e.slots[index])) w := by rw [getLocal, hlocal]; rfl
  have hpush : andThen (getLocal index) (push (.int32 1)) e w =
      .ok (.goOn ((e.push e.slots[index]).push (.int32 1))) w := by
    rw [andThen_goOn hget]; rfl
  have htwo : andThen (andThen (getLocal index) (push (.int32 1))) (two fun a b e => do push (← arith op a b) e) e w =
      (do push (← arith op e.slots[index] (.int32 1)) e : Ask σ Effect) w := by rw [andThen_goOn hpush]; rfl
  rw [stepLocal, hlocal]
  cases hop : arith op e.slots[index] (.int32 1) w with
  | error err w' =>
    have herr : (do push (← arith op e.slots[index] (.int32 1)) e : Ask σ Effect) w = .error err w' := by
      show EStateM.bind _ _ _ = _
      rw [EStateM.bind, hop]
    have herr' : (do setLocal index (e.push (← arith op e.slots[index] (.int32 1))) : Ask σ Effect) w =
        .error err w' := by
      show EStateM.bind _ _ _ = _
      rw [EStateM.bind, hop]
    rw [andThen_error (htwo.trans herr)]
    exact herr'.symm
  | ok x w' =>
    have hok : (do push (← arith op e.slots[index] (.int32 1)) e : Ask σ Effect) w = .ok (.goOn (e.push x)) w' := by
      show EStateM.bind _ _ _ = _
      rw [EStateM.bind, hop]; rfl
    have hok' : (do setLocal index (e.push (← arith op e.slots[index] (.int32 1))) : Ask σ Effect) w =
        setLocal index (e.push x) w' := by
      show EStateM.bind _ _ _ = _
      rw [EStateM.bind, hop]
    rw [andThen_goOn (htwo.trans hok)]
    exact hok'.symm

namespace Lowering

open Draft Emit Interpreter

variable {job : Job (StubBody σ)} {i : Instruction} {d : Draft (StubBody σ)}

theorem lower_incLocal {β : Type} {job : Job β} (offset : Nat) (slot : UInt16) (size : Nat) :
    lower job ⟨offset, .incLocal, .u16 slot, size⟩ = (do
      getLocal job ⟨offset, .getLocal, .u16 slot, 0⟩
      literal job ⟨offset, .pushOne, .none, 0⟩
      arith job ⟨offset, .add, .none, 0⟩
      setLocal job ⟨offset, .setLocal, .u16 slot, 0⟩) := by
  simp [lower, routine?, Instruction.expand, Instruction.u16?]

theorem lower_decLocal {β : Type} {job : Job β} (offset : Nat) (slot : UInt16) (size : Nat) :
    lower job ⟨offset, .decLocal, .u16 slot, size⟩ = (do
      getLocal job ⟨offset, .getLocal, .u16 slot, 0⟩
      literal job ⟨offset, .pushOne, .none, 0⟩
      arith job ⟨offset, .sub, .none, 0⟩
      setLocal job ⟨offset, .setLocal, .u16 slot, 0⟩) := by
  simp [lower, routine?, Instruction.expand, Instruction.u16?]

/-- A compound instruction is lowered part by part. -/
theorem stepLocal_lowers {offset : Nat} {slot : UInt16} {op : Opcode} (hop : op.isArith = true)
    (hslot : slot.toNat < job.program.slots) (hfac : job.factory = StubBody.fallbacks) (hg : d.Good)
    (hroom : d.stack.depth ≤ maxStackDepth) :
    Yields (do getLocal job ⟨offset, .getLocal, .u16 slot, 0⟩
               literal job ⟨offset, .pushOne, .none, 0⟩
               arith job ⟨offset, op, .none, 0⟩
               setLocal job ⟨offset, .setLocal, .u16 slot, 0⟩) d (d.Lacks 1) fun _ d' =>
      Lowers job (fun _ => stepLocal op slot.toNat) 1 (d.stack.knowns ++ [none]) d d' := by
  have hmax : maxStackDepth = 1024 := rfl
  have hlen := d.stack.length_knowns
  refine (getLocal_lowers (i := ⟨offset, .getLocal, .u16 slot, 0⟩) rfl (Nat.lt_add_right _ hslot) hg (by omega)).bind
    fun _ d₁ h₁ => ?_
  have hd₁ : d₁.stack.depth = d.stack.depth + 1 := by simpa [hlen] using h₁.depth
  refine (literal_lowers (i := ⟨offset, .pushOne, .none, 0⟩) rfl h₁.good (by omega)).bind fun _ d₂ h₂ => ?_
  have hd₂ : d₂.stack.depth = d.stack.depth + 2 := by rw [h₂.depth, h₁.knowns]; simp [hlen]
  have hlack (e : CompileError) (he : d₂.Lacks 1 e) : d.Lacks 1 e := (h₁.code.trans h₂.code).lacks he
  refine ((arith_lowers (i := ⟨offset, op, .none, 0⟩) hfac hop h₂.good (by omega) hd₂).mono hlack fun _ _ h => h).bind
    fun _ d₃ h₃ => ?_
  have hk₃ : d₃.stack.knowns = d.stack.knowns ++ [none] := by
    rw [h₃.knowns, h₂.knowns, h₁.knowns, List.append_assoc, ← hlen, List.take_left]
  have hd₃ : d₃.stack.depth = d.stack.depth + 1 := by rw [← VirtualStack.length_knowns, hk₃]; simp [hlen]
  refine (setLocal_lowers (i := ⟨offset, .setLocal, .u16 slot, 0⟩) rfl hslot h₃.good (by omega) hd₃).mono
    (fun _ he => he) fun _ d₄ h₄ => ?_
  rw [← hk₃]
  refine (((h₁.trans h₂).trans h₃).trans h₄).congr fun host v e w hm => ?_
  exact stepLocal_eq (by rw [hm.slotCount]; exact hslot) w

/-- What the verifier has made sure of where an instruction is lowered. -/
structure Ready (job : Job (StubBody σ)) (i : Instruction) (d : Draft (StubBody σ)) : Prop where
  good : d.Good
  room : d.stack.depth ≤ maxStackDepth
  format : i.operand.format = i.opcode.format
  operand : (⟨job.program.slots, job.program.args, job.program.atoms.size⟩ : Limits).Admits i d.stack.depth
  pops : i.pops ≤ d.stack.depth
  ret : i.opcode = .ret → d.stack.depth = 1
  stop : i.opcode = .stop → d.stack.depth = 0
  target : ∀ target, i.target? = some target → target < job.program.length
  exit : ∃ label, d.exit = some label
  source : ∃ source, Source.ofProgram? job.program job.atoms = some source
  factory : job.factory = StubBody.fallbacks

theorem u16_of_format (h : i.operand.format = .u16) : ∃ n, i.u16? = some n := by
  unfold Instruction.u16?
  cases ho : i.operand <;> rw [ho] at h <;> first | exact ⟨_, rfl⟩ | cases h

theorem u32_of_format (h : i.operand.format = .u32) : ∃ n, i.u32? = some n := by
  unfold Instruction.u32?
  cases ho : i.operand <;> rw [ho] at h <;> first | exact ⟨_, rfl⟩ | cases h

theorem target_of_format (h : i.operand.format = .jump) : ∃ target, i.target? = some target := by
  unfold Instruction.target?
  cases ho : i.operand <;> rw [ho] at h <;> first | exact ⟨_, rfl⟩ | cases h

theorem atom_lt {l : Limits} {index : UInt32} {depth : Nat} (hop : i.opcode.hasAtom = true)
    (hindex : i.u32? = some index) (h : l.Admits i depth) : index.toNat < l.atoms := by
  rw [Limits.Admits, hindex] at h
  generalize i.opcode = op at h hop
  cases op <;> first | exact h | cases hop

/-- An instruction that goes on to the next and tests nothing. -/
theorem lower_of_lowers {x : Emit (StubBody σ) Unit} {a : Host σ → Action σ} {n : Nat} {ts : Types}
    (h : Yields x d (d.Lacks n) fun _ d' => Lowers job a n ts d d') (hx : lower job i = x)
    (hact : ∀ host, act host i = a host) (hfalls : i.opcode.fallsThrough = true) (htest : i.opcode.isTest = false)
    (hsites : i.sites d.stack.knowns = n) (htypes : i.typesAfter d.stack.knowns = ts) :
    Yields (lower job i) d (d.Lacks (i.sites d.stack.knowns)) fun _ d' => Lowered job i d d' := by
  subst hsites htypes
  rw [hx]
  exact h.mono (fun _ he => he) fun _ d' h => h.lowered hact hfalls htest

theorem lower_of_routine {r : Lowering (StubBody σ)} {a : Host σ → Action σ} {n : Nat} {ts : Types}
    (h : Yields (r job i) d (d.Lacks n) fun _ d' => Lowers job a n ts d d') (hr : routine? i.opcode = some r)
    (hact : ∀ host, act host i = a host) (hfalls : i.opcode.fallsThrough = true) (htest : i.opcode.isTest = false)
    (hsites : i.sites d.stack.knowns = n) (htypes : i.typesAfter d.stack.knowns = ts) :
    Yields (lower job i) d (d.Lacks (i.sites d.stack.knowns)) fun _ d' => Lowered job i d d' :=
  lower_of_lowers h (by simp only [lower, hr]) hact hfalls htest hsites htypes

/-- The code of every instruction that this tier compiles. -/
theorem lower_lowered (hr : Ready job i d) (href : i.opcode.isRefused = false) :
    Yields (lower job i) d (d.Lacks (i.sites d.stack.knowns)) fun _ d' => Lowered job i d d' := by
  have hlen := d.stack.length_knowns
  obtain ⟨hg, hmax, hformat, hoperand, hpops, hret, hstop, hwithin, ⟨label, hexit⟩, ⟨source, hsource⟩, hfac⟩ := hr
  have hroom : d.stack.depth + 1 < 2 ^ 30 := Nat.lt_of_le_of_lt (Nat.succ_le_succ hmax) (by decide)
  have hroom' : d.stack.depth < 2 ^ 30 := Nat.lt_of_succ_lt hroom
  have hn := (Nat.sub_add_cancel hpops).symm
  obtain ⟨offset, op, operand, size⟩ := i
  cases op
  case debugger | throwValue | lambda | arguments | enterWith | leaveWith => cases href
  -- Shuffles and literals.
  case nop | loopHead =>
    refine lower_of_routine (nop_lowers hg) rfl (fun _ => rfl) rfl rfl rfl ?_
    simp [Instruction.typesAfter, Instruction.pops, Instruction.pushes]
  case pop =>
    refine lower_of_routine (pop_lowers hg hroom' hn) rfl (fun _ => rfl) rfl rfl rfl ?_
    simp [Instruction.typesAfter, Instruction.pops, Instruction.pushes, hlen]
  case popN =>
    obtain ⟨n, hcount⟩ := u16_of_format hformat
    refine lower_of_routine (popN_lowers hcount hg hroom' hn) rfl (fun _ => rfl) rfl rfl rfl ?_
    simp [Instruction.typesAfter, Instruction.pops, Instruction.pushes, hlen]
  case dup =>
    refine lower_of_routine (dup_lowers hg hroom hn) rfl (fun _ => rfl) rfl rfl rfl ?_
    simp [Instruction.typesAfter, Instruction.pops, hlen]
  case dup2 => exact lower_of_routine (dup2_lowers hg hroom hn) rfl (fun _ => rfl) rfl rfl rfl rfl
  case swap =>
    refine lower_of_routine (swap_lowers hg hroom' hn) rfl (fun _ => rfl) rfl rfl rfl ?_
    simp [Instruction.typesAfter, Instruction.pops, Instruction.pushes, hlen]
  case pushUndefined | pushNull | pushTrue | pushFalse | pushZero | pushOne | pushHole =>
    refine lower_of_routine (literal_lowers rfl hg hroom') rfl (fun _ => rfl) rfl rfl rfl ?_
    simp [Instruction.typesAfter, Instruction.pops, Instruction.literal?]
  case pushInt8 | pushInt32 | pushDouble =>
    cases operand <;> try cases hformat
    refine lower_of_routine (literal_lowers rfl hg hroom') rfl (fun _ => rfl) rfl rfl rfl ?_
    simp [Instruction.typesAfter, Instruction.pops, Instruction.literal?]
  case pushString =>
    obtain ⟨index, hindex⟩ := u32_of_format hformat
    refine lower_of_routine (string_lowers hindex (atom_lt rfl hindex hoperand) hsource hg hroom') rfl (fun _ => rfl)
      rfl rfl rfl ?_
    simp [Instruction.typesAfter, Instruction.pops]
  -- Slots and arguments.
  case getLocal =>
    obtain ⟨index, hindex⟩ := u16_of_format hformat
    refine lower_of_routine (getLocal_lowers hindex hoperand hg hroom') rfl (fun _ => rfl) rfl rfl rfl ?_
    simp [Instruction.typesAfter, Instruction.pops, Instruction.pushes]
  case setLocal =>
    obtain ⟨index, hindex⟩ := u16_of_format hformat
    exact lower_of_routine (setLocal_lowers hindex hoperand hg hroom' hn) rfl (fun _ => rfl) rfl rfl rfl rfl
  case getArg =>
    obtain ⟨index, hindex⟩ := u16_of_format hformat
    refine lower_of_routine (getArg_lowers hindex hoperand hg hroom') rfl (fun _ => rfl) rfl rfl rfl ?_
    simp [Instruction.typesAfter, Instruction.pops, Instruction.pushes]
  case setArg =>
    obtain ⟨index, hindex⟩ := u16_of_format hformat
    exact lower_of_routine (setArg_lowers hindex hoperand hg hroom' hn) rfl (fun _ => rfl) rfl rfl rfl rfl
  case incLocal =>
    cases operand <;> try cases hformat
    refine lower_of_lowers (stepLocal_lowers rfl hoperand hfac hg hmax) (lower_incLocal ..) (fun _ => rfl)
      rfl rfl rfl ?_
    simp [Instruction.typesAfter, Instruction.pops, Instruction.pushes]
  case decLocal =>
    cases operand <;> try cases hformat
    refine lower_of_lowers (stepLocal_lowers rfl hoperand hfac hg hmax) (lower_decLocal ..) (fun _ => rfl)
      rfl rfl rfl ?_
    simp [Instruction.typesAfter, Instruction.pops, Instruction.pushes]
  -- Operators.
  case add | sub | mul | div | mod | bitAnd | bitOr | bitXor | lsh | rsh | ursh =>
    refine lower_of_routine (arith_lowers hfac rfl hg hroom' hn) rfl (fun _ => rfl) rfl rfl rfl ?_
    simp [Instruction.typesAfter, Instruction.pops, Instruction.pushes, hlen]
  case neg =>
    refine lower_of_routine (unary_lowers hfac (.inl rfl) hg hroom' hn) rfl (fun _ => rfl) rfl rfl rfl ?_
    simp [Instruction.typesAfter, Instruction.pops, Instruction.pushes, hlen]
  case bitNot =>
    refine lower_of_routine (unary_lowers hfac (.inr rfl) hg hroom' hn) rfl (fun _ => rfl) rfl rfl rfl ?_
    simp [Instruction.typesAfter, Instruction.pops, Instruction.pushes, hlen]
  case pos =>
    refine lower_of_routine (pos_lowers hfac hg hroom' hn) rfl (fun _ => rfl) rfl rfl rfl ?_
    simp [Instruction.typesAfter, Instruction.pops, Instruction.pushes, hlen]
  case eq | ne | strictEq | strictNe | lt | le | gt | ge =>
    refine lower_of_routine (compare_lowers hfac rfl hg hroom' hn) rfl (fun _ => rfl) rfl rfl rfl ?_
    simp [Instruction.typesAfter, Instruction.pops, hlen]
  case logicalNot => exact logicalNot_lowered rfl hfac hg hroom' hn
  -- Names, properties and calls.
  case getName =>
    obtain ⟨index, hindex⟩ := u32_of_format hformat
    refine lower_of_routine (getName_lowers hfac (.inl rfl) hindex (atom_lt rfl hindex hoperand) hsource hg hroom') rfl
      (fun _ => rfl) rfl rfl
      rfl ?_
    simp [Instruction.typesAfter, Instruction.pops, Instruction.pushes]
  case getGlobal =>
    obtain ⟨index, hindex⟩ := u32_of_format hformat
    refine lower_of_routine (getName_lowers hfac (.inr rfl) hindex (atom_lt rfl hindex hoperand) hsource hg hroom') rfl
      (fun _ => rfl) rfl rfl
      rfl ?_
    simp [Instruction.typesAfter, Instruction.pops, Instruction.pushes]
  case setName =>
    obtain ⟨index, hindex⟩ := u32_of_format hformat
    refine lower_of_routine (setName_lowers hfac (.inl rfl) hindex (atom_lt rfl hindex hoperand) hsource hg hroom' hn)
      rfl (fun _ => rfl) rfl
      rfl rfl ?_
    simp [Instruction.typesAfter, Instruction.pops, Instruction.pushes, hlen]
  case setGlobal =>
    obtain ⟨index, hindex⟩ := u32_of_format hformat
    refine lower_of_routine (setName_lowers hfac (.inr rfl) hindex (atom_lt rfl hindex hoperand) hsource hg hroom' hn)
      rfl (fun _ => rfl) rfl
      rfl rfl ?_
    simp [Instruction.typesAfter, Instruction.pops, Instruction.pushes, hlen]
  case getProp =>
    obtain ⟨index, hindex⟩ := u32_of_format hformat
    refine lower_of_routine (getProp_lowers hfac hindex (atom_lt rfl hindex hoperand) hsource hg hroom' hn) rfl
      (fun _ => rfl) rfl rfl rfl ?_
    simp [Instruction.typesAfter, Instruction.pops, Instruction.pushes, hlen]
  case setProp =>
    obtain ⟨index, hindex⟩ := u32_of_format hformat
    refine lower_of_routine (setProp_lowers hfac hindex (atom_lt rfl hindex hoperand) hsource hg hroom' hn) rfl
      (fun _ => rfl) rfl rfl rfl ?_
    simp [Instruction.typesAfter, Instruction.pops, Instruction.pushes, hlen]
  case getElem =>
    refine lower_of_routine (getElem_lowers hfac hg hroom' hn) rfl (fun _ => rfl) rfl rfl rfl ?_
    simp [Instruction.typesAfter, Instruction.pops, Instruction.pushes, hlen]
  case setElem =>
    refine lower_of_routine (setElem_lowers hfac hg hroom' hn) rfl (fun _ => rfl) rfl rfl rfl ?_
    simp [Instruction.typesAfter, Instruction.pops, Instruction.pushes, hlen]
  case call =>
    obtain ⟨count, hcount⟩ := u16_of_format hformat
    exact call_lowered rfl hcount hfac hg hroom' hn
  -- Jumps and returns.
  case goto =>
    obtain ⟨target, htarget⟩ := target_of_format hformat
    exact goto_lowered rfl htarget (hwithin target htarget) hg hroom'
  case ifEq =>
    obtain ⟨target, htarget⟩ := target_of_format hformat
    exact branch_lowered (.inl rfl) htarget (hwithin target htarget) hfac hg hroom' hn
  case ifNe =>
    obtain ⟨target, htarget⟩ := target_of_format hformat
    exact branch_lowered (.inr rfl) htarget (hwithin target htarget) hfac hg hroom' hn
  case andJump =>
    obtain ⟨target, htarget⟩ := target_of_format hformat
    exact shortCircuit_lowered (.inl rfl) htarget (hwithin target htarget) hfac hg hroom' hn
  case orJump =>
    obtain ⟨target, htarget⟩ := target_of_format hformat
    exact shortCircuit_lowered (.inr rfl) htarget (hwithin target htarget) hfac hg hroom' hn
  case ret => exact ret_lowered rfl hexit hg (hret rfl)
  case stop => exact stop_lowered rfl hexit hg (hstop rfl)

/-- An instruction that this tier does not compile is named with its offset. -/
theorem lower_refused (h : i.opcode.isRefused = true) (d : Draft (StubBody σ)) :
    lower job i d = .error (.error (.cantCompile (.unsupported i.opcode i.offset))) d := by
  obtain ⟨offset, op, operand, size⟩ := i
  cases op <;> first | rfl | cases h

end Lowering

/-! ## What lowering sees of a job -/

section Alike

variable {β : Type}

/-- Two jobs between which lowering the instruction can see no difference. -/
structure Job.Alike (job job' : Job β) (i : Instruction) : Prop where
  slots : job.program.slots = job'.program.slots
  args : job.program.args = job'.program.args
  length : job.program.length = job'.program.length
  factory : job.factory = job'.factory
  atom : ∀ index, i.u32? = some index → Emit.atom job index = Emit.atom job' index

namespace Lowering

theorem site_congr {job job' : Job β} (h : job.factory = job'.factory) (kind : SiteKind) :
    Emit.site job kind = Emit.site job' kind := by
  unfold Emit.site
  rw [h]

/-- A name is read from the instruction's own operand. -/
theorem named_congr {α : Type} {job job' : Job β} {i : Instruction} (h : job.Alike job' i) (k : Atom → Emit β α) :
    (do k (← Emit.atom job (← u32 i))) = (do k (← Emit.atom job' (← u32 i)) : Emit β α) := by
  unfold u32
  cases hu : i.u32? with
  | none => rfl
  | some index =>
    show (do k (← Emit.atom job index)) = (do k (← Emit.atom job' index))
    rw [h.atom index hu]

theorem target_congr {job job' : Job β} (h : job.program.length = job'.program.length) (i : Instruction) :
    target job i = target job' i := by
  unfold target Emit.label
  rw [h]

theorem routine_congr {op : Opcode} {routine : Lowering β} (hr : routine? op = some routine) {job job' : Job β}
    {i : Instruction} (h : job.Alike job' i) : routine job i = routine job' i := by
  have hsite := site_congr h.factory
  have htarget := target_congr h.length i
  cases op <;> cases hr
  case nop | loopHead | pop | popN | dup | dup2 | swap | setLocal | setArg => rfl
  case getLocal =>
    unfold getLocal Emit.pushSlot
    rw [h.slots]
  case getArg =>
    unfold getArg Emit.pushArg
    rw [h.args]
  case goto => simp only [goto, htarget]
  case pushString => exact named_congr h _
  case ret =>
    unfold ret leave
    rw [h.length]
  case stop =>
    unfold stop leave
    rw [h.length]
  case getName | getGlobal | setName | setGlobal | getProp | setProp =>
    simp only [getName, setName, getProp, setProp, hsite]
    exact named_congr h _
  case add | sub | mul | div | mod | bitAnd | bitOr | bitXor | lsh | rsh | ursh => simp only [arith, hsite]
  case eq | ne | strictEq | strictNe | lt | le | gt | ge => simp only [compare, hsite]
  case neg | bitNot => simp only [unary, hsite]
  case ifEq | ifNe => simp only [branch, hsite, htarget]
  case andJump | orJump => simp only [shortCircuit, hsite, htarget]
  case pos => simp only [pos, hsite]
  case logicalNot => simp only [logicalNot, hsite]
  case getElem => simp only [getElem, hsite]
  case setElem => simp only [setElem, hsite]
  case call => simp only [call, hsite]
  all_goals rfl

/-- The parts of a compound instruction name nothing. -/
theorem u32_of_expand {i part : Instruction} {parts : List Instruction} (h : i.expand = some parts)
    (hp : part ∈ parts) :
    part.u32? = none := by
  unfold Instruction.expand at h
  cases hop : i.opcode <;> rw [hop] at h <;> try cases h
  all_goals
    obtain ⟨slot, _, rfl⟩ := Option.map_eq_some_iff.mp h
    simp only [List.mem_cons, List.not_mem_nil, or_false] at hp
    rcases hp with rfl | rfl | rfl | rfl <;> rfl

/-- Lowering sees of a job only what `Alike` compares. -/
theorem lower_congr {job job' : Job β} {i : Instruction} (h : job.Alike job' i) : lower job i = lower job' i := by
  unfold lower
  cases hr : (routine? i.opcode : Option (Lowering β)) with
  | some routine => exact routine_congr hr h
  | none =>
    cases hx : i.expand with
    | none => rfl
    | some parts =>
      have hparts : ∀ part ∈ parts, job.Alike job' part := fun part hp =>
        ⟨h.slots, h.args, h.length, h.factory, fun index hu => by rw [u32_of_expand hx hp] at hu; cases hu⟩
      simp only
      clear hx
      induction parts with
      | nil => rfl
      | cons part parts ih =>
        simp only [List.forM]
        rw [ih fun q hq => hparts q (List.mem_cons_of_mem _ hq)]
        cases hp : (routine? part.opcode : Option (Lowering β)) with
        | none => rfl
        | some routine => simp only [routine_congr hp (hparts part (by simp))]

end Lowering
end Alike
end BaselineTier
