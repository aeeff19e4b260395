/-
  BaselineTier.Proofs.KnownNames — compiling does not end for want of a name that is known.

  The one question that a compilation asks about names is which atom a text has. Every other
  step ends, if it does, for another reason (`Emit.KnowsNames`), and so does lowering an
  instruction whose name is known (`lower_knows`). Compiling a program all of whose reachable
  instructions name what is known therefore never fails for want of a name (`compile_knows`).
-/

import BaselineTier.Proofs.Correspondence

namespace BaselineTier

variable {α β γ : Type}

/-! ## Steps that know the names -/

namespace Emit

def KnowsNames (x : Emit β α) : Prop := ∀ d text d', x d ≠ .error (.error (.unknownAtom text)) d'

theorem KnowsNames.bind {x : Emit β α} {f : α → Emit β γ} (hx : x.KnowsNames) (hf : ∀ a, (f a).KnowsNames) :
    (x >>= f).KnowsNames := by
  intro d text d' h
  cases hd : x d with
  | ok a d₁ => exact hf a d₁ text d' ((bind_eq hd).symm.trans h)
  | error fault d₁ =>
    have hb : (x >>= f) d = .error fault d₁ := by
      show EStateM.bind x f d = _
      rw [EStateM.bind, hd]
    rw [hb] at h
    cases h
    exact hx _ _ _ hd

/-- Other errors may occur. -/
theorem throw_knows {fault : Fault CompileError} (h : ∀ text, fault ≠ .error (.unknownAtom text)) :
    (throw fault : Emit β α).KnowsNames := by
  intro d text d' heq
  cases heq
  exact h text rfl

theorem breach_knows (b : Breach) : (throw (.breach b) : Emit β α).KnowsNames := throw_knows fun _ h => by cases h

theorem pure_knows (a : α) : (pure a : Emit β α).KnowsNames := fun _ _ _ h => by cases h

theorem get_knows : (get : Emit β (Draft β)).KnowsNames := fun _ _ _ h => by cases h

theorem modify_knows (f : Draft β → Draft β) : (modify f : Emit β PUnit).KnowsNames := fun _ _ _ h => by cases h

theorem guarded_knows (r : Except Breach α) : (guarded r : Emit β α).KnowsNames := by
  cases r with
  | ok a => exact pure_knows a
  | error b => exact breach_knows b

theorem assume_knows (condition : Bool) (b : Breach) : (assume condition b : Emit β Unit).KnowsNames := by
  cases condition with
  | true => exact pure_knows ()
  | false => exact breach_knows b

theorem inst_knows (i : Inst Label) : (inst i : Emit β Unit).KnowsNames :=
  get_knows.bind fun _ => (guarded_knows _).bind fun _ => modify_knows _

theorem moves_knows (ms : List Move) : (moves ms : Emit β Unit).KnowsNames :=
  get_knows.bind fun _ => (guarded_knows _).bind fun _ => modify_knows _

theorem newLabel_knows : (newLabel : Emit β Label).KnowsNames :=
  get_knows.bind fun _ => (modify_knows _).bind fun _ => pure_knows _

theorem bind_label_knows (label : Label) : (Emit.bind label : Emit β Unit).KnowsNames :=
  get_knows.bind fun _ => (guarded_knows _).bind fun _ => modify_knows _

theorem label_knows (job : Job β) (offset : Nat) : (label job offset).KnowsNames :=
  (assume_knows _ _).bind fun _ => pure_knows _

theorem exitLabel_knows : (exitLabel : Emit β Label).KnowsNames := by
  refine get_knows.bind fun d => ?_
  split
  · exact pure_knows _
  · exact breach_knows _

theorem adopt_knows (r : List Move × VirtualStack) : (adopt r : Emit β Unit).KnowsNames :=
  (moves_knows _).bind fun _ => modify_knows _

theorem depth_knows : (depth : Emit β Nat).KnowsNames := get_knows.bind fun _ => pure_knows _

theorem flushBelow_knows (keep : Nat) : (flushBelow keep : Emit β Unit).KnowsNames :=
  get_knows.bind fun _ => adopt_knows _

theorem flushAliases_knows (place : Place) : (flushAliases place : Emit β Unit).KnowsNames :=
  get_knows.bind fun _ => adopt_knows _

theorem push_knows (e : Entry) : (push e : Emit β Unit).KnowsNames := get_knows.bind fun _ => adopt_knows _

theorem pushScratch_knows : (pushScratch : Emit β Unit).KnowsNames := get_knows.bind fun _ => adopt_knows _

theorem peek_knows (n : Nat) : (peek n : Emit β Entry).KnowsNames := get_knows.bind fun _ => guarded_knows _

/-- An operation that the picture may refuse. -/
theorem adopt_guarded_knows (op : VirtualStack → Except Breach (List Move × VirtualStack)) :
    (do adopt (← guarded (op (← get).stack)) : Emit β Unit).KnowsNames :=
  get_knows.bind fun _ => (guarded_knows _).bind adopt_knows

theorem pushSlot_knows (job : Job β) (index : Nat) : (pushSlot job index).KnowsNames :=
  adopt_guarded_knows (·.pushSlot job.program.slots index)

theorem pushArg_knows (job : Job β) (index : Nat) : (pushArg job index).KnowsNames :=
  adopt_guarded_knows (·.pushArg job.program.args index)

theorem popInto_knows (reg : Reg) : (popInto reg : Emit β Unit).KnowsNames := adopt_guarded_knows (·.popInto reg)

theorem drop_knows (n : Nat) : (drop n : Emit β Unit).KnowsNames := adopt_guarded_knows (·.drop n)

theorem popRegisters_knows (uses : Nat) : (popRegisters uses : Emit β Unit).KnowsNames :=
  adopt_guarded_knows (·.popRegisters uses)

theorem storeTop_knows (dst : Address) : (storeTop dst : Emit β Unit).KnowsNames :=
  get_knows.bind fun _ => (adopt_knows _).bind fun _ => (peek_knows 1).bind fun _ => moves_knows _

theorem stageTop_knows : (stageTop : Emit β Unit).KnowsNames := (storeTop_knows _).bind fun _ => drop_knows 1

/-- A site is refused for other reasons. -/
theorem site_knows (job : Job β) (kind : SiteKind) : (site job kind).KnowsNames := by
  have hother {t t' : SiteTable β} {pc : Nat} {e : CompileError} (h : t.allocate job.factory kind pc = (.error e, t'))
      (text : String) :
      e ≠ .unknownAtom text := by
    rintro rfl
    unfold SiteTable.allocate at h
    split at h
    · cases h
    · simp only at h
      split at h
      · cases h
      · split at h
        · rename_i he
          cases h
          unfold StubStore.add at he
          split at he <;> cases he
        · cases h
  refine get_knows.bind fun d => ?_
  cases ha : d.sites.allocate job.factory kind d.pc with
  | mk index sites =>
    have hset : (set { d with sites } : Emit β PUnit).KnowsNames := fun _ _ _ h => by cases h
    refine hset.bind fun _ => ?_
    cases index with
    | error e =>
      refine throw_knows fun text h => ?_
      cases h
      exact hother ha text rfl
    | ok index =>
      exact get_knows.bind fun _ => (guarded_knows _).bind fun _ => (modify_knows _).bind fun _ =>
        get_knows.bind fun _ =>
        (guarded_knows _).bind fun _ => modify_knows _

end Emit

namespace Lowering

open Emit

variable {job : Job β} {i : Instruction}

/-- A name that is known is found. -/
theorem name_knows {k : Atom → Emit β α} (h : ∃ a, job.name i = .ok a) (hk : ∀ a, (k a).KnowsNames) :
    (do k (← Emit.atom job (← u32 i)) : Emit β α).KnowsNames := by
  obtain ⟨a, ha⟩ := h
  intro d text d' h
  cases hu : i.u32? with
  | none =>
    rw [u32, hu] at h
    cases h
  | some index =>
    rw [Job.name, hu] at ha
    have hatom : Emit.atom job index d = .ok a d := by rw [atom_eq, show job.atom index = .ok a from ha]
    rw [bind_eq (u32_ok hu), bind_eq hatom] at h
    exact hk a d text d' h

theorem target_knows (job : Job β) (i : Instruction) : (target job i).KnowsNames :=
  (guarded_knows _).bind fun _ => label_knows job _

/-- The site is called, and its result is pushed. -/
theorem answer_knows (job : Job β) (kind : SiteKind) (e : Entry) : (do site job kind; push e).KnowsNames :=
  (site_knows job kind).bind fun _ => push_knows e

/-- A value is tested unless it is known to be a Boolean. -/
theorem test_knows (job : Job β) (known : Bool) {k : Emit β Unit} (hk : k.KnowsNames) :
    (do unless known do site job .toBool
        k).KnowsNames := by
  cases known with
  | true => exact hk
  | false => exact (site_knows job .toBool).bind fun _ => hk

theorem literal_knows (job : Job β) (i : Instruction) : (literal job i).KnowsNames := by
  unfold literal
  split
  · exact push_knows _
  · exact breach_knows _

theorem getLocal_knows (job : Job β) (i : Instruction) : (getLocal job i).KnowsNames := by
  refine (guarded_knows _).bind fun index => ?_
  simp only
  split
  · exact pushSlot_knows job _
  · exact (flushBelow_knows 0).bind fun _ => (inst_knows _).bind fun _ => push_knows _

theorem setLocal_knows (job : Job β) (i : Instruction) : (setLocal job i).KnowsNames :=
  (guarded_knows _).bind fun _ => (flushAliases_knows _).bind fun _ => storeTop_knows _

theorem leave_knows (job : Job β) (i : Instruction) : (leave job i).KnowsNames := by
  unfold leave
  split
  · exact exitLabel_knows.bind fun _ => inst_knows _
  · exact pure_knows ()

/-- Lowering an instruction ends for want of a name only if that is the name of the instruction. -/
theorem lower_knows (hname : i.opcode.hasAtom = true → ∃ a, job.name i = .ok a) : (lower job i).KnowsNames := by
  obtain ⟨offset, op, operand, size⟩ := i
  cases op
  case debugger | throwValue | lambda | arguments | enterWith | leaveWith => exact throw_knows fun _ h => by cases h
  case nop | loopHead => exact pure_knows ()
  case pop => exact drop_knows 1
  case popN => exact (guarded_knows _).bind fun _ => drop_knows _
  case dup =>
    exact (peek_knows 1).bind fun _ => (popRegisters_knows 1).bind fun _ => (inst_knows _).bind fun _ =>
      (push_knows _).bind fun _ => push_knows _
  case dup2 =>
    exact (flushBelow_knows 0).bind fun _ => depth_knows.bind fun _ => (assume_knows _ _).bind fun _ =>
      (inst_knows _).bind fun _ => (inst_knows _).bind fun _ => (push_knows _).bind fun _ => push_knows _
  case swap => exact (popRegisters_knows 2).bind fun _ => (push_knows _).bind fun _ => push_knows _
  case pushUndefined | pushNull | pushTrue | pushFalse | pushZero | pushOne | pushHole | pushInt8 | pushInt32 |
    pushDouble =>
    rw [lower_eq rfl]
    exact literal_knows job _
  case pushString => exact name_knows (hname rfl) fun _ => push_knows _
  case getLocal => exact getLocal_knows job _
  case setLocal => exact setLocal_knows job _
  case getArg => exact (guarded_knows _).bind fun _ => pushArg_knows job _
  case setArg => exact (guarded_knows _).bind fun _ => (flushAliases_knows _).bind fun _ => storeTop_knows _
  case incLocal | decLocal =>
    cases operand
    case u16 slot =>
      first | rw [lower_incLocal] | rw [lower_decLocal]
      exact (getLocal_knows job _).bind fun _ => (literal_knows job _).bind fun _ =>
        ((popRegisters_knows 2).bind fun _ => answer_knows job _ _).bind fun _ => setLocal_knows job _
    all_goals exact throw_knows fun _ h => by cases h
  case add | sub | mul | div | mod | bitAnd | bitOr | bitXor | lsh | rsh | ursh | eq | ne | strictEq | strictNe | lt |
    le | gt | ge | getElem =>
    exact (popRegisters_knows 2).bind fun _ => answer_knows job _ _
  case neg | bitNot => exact (popRegisters_knows 1).bind fun _ => answer_knows job _ _
  case pos =>
    exact (popRegisters_knows 1).bind fun _ => newLabel_knows.bind fun _ => (inst_knows _).bind fun _ =>
      (site_knows job _).bind fun _ =>
      (bind_label_knows _).bind fun _ => push_knows _
  case logicalNot =>
    exact (peek_knows 1).bind fun _ => (popRegisters_knows 1).bind fun _ =>
      test_knows job _ ((inst_knows _).bind fun _ => push_knows _)
  case goto => exact (target_knows job _).bind fun _ => (flushBelow_knows 0).bind fun _ => inst_knows _
  case ifEq | ifNe =>
    exact (target_knows job _).bind fun _ => (peek_knows 1).bind fun _ => (popRegisters_knows 1).bind fun _ =>
      test_knows job _ (inst_knows _)
  case andJump | orJump =>
    exact (target_knows job _).bind fun _ => (peek_knows 1).bind fun _ => (flushBelow_knows 0).bind fun _ =>
      depth_knows.bind fun _ =>
      (inst_knows _).bind fun _ => test_knows job _ (inst_knows _)
  case ret =>
    exact (popInto_knows _).bind fun _ => depth_knows.bind fun _ => (assume_knows _ _).bind fun _ => leave_knows job _
  case stop => exact depth_knows.bind fun _ => (assume_knows _ _).bind fun _ => (inst_knows _).bind fun _ =>
    leave_knows job _
  case getName | getGlobal =>
    exact name_knows (hname rfl) fun _ => (flushBelow_knows 0).bind fun _ => answer_knows job _ _
  case setName | setGlobal =>
    exact name_knows (hname rfl) fun _ => stageTop_knows.bind fun _ => (flushBelow_knows 0).bind fun _ =>
      (site_knows job _).bind fun _ => pushScratch_knows
  case getProp => exact name_knows (hname rfl) fun _ => (popRegisters_knows 1).bind fun _ => answer_knows job _ _
  case setProp =>
    exact name_knows (hname rfl) fun _ => stageTop_knows.bind fun _ => (popRegisters_knows 1).bind fun _ =>
      (site_knows job _).bind fun _ => pushScratch_knows
  case setElem =>
    exact stageTop_knows.bind fun _ => (popRegisters_knows 2).bind fun _ => (site_knows job _).bind fun _ =>
      pushScratch_knows
  case call =>
    exact (guarded_knows _).bind fun _ => (flushBelow_knows 0).bind fun _ => (inst_knows _).bind fun _ =>
      (site_knows job _).bind fun _ =>
      (drop_knows _).bind fun _ => push_knows _

end Lowering

namespace Compilation

open Emit Lowering

variable {job : Job β}

theorem failing_knows {x : Emit β α} (hx : x.KnowsNames) : (failing x).KnowsNames := by
  intro d text d' h
  unfold failing at h
  split at h
  · rename_i e d₁ hd
    cases h
    exact hx _ _ _ hd
  · exact hx _ _ _ h

theorem advance_knows (before after : Phase) : (advance before after : Emit β Unit).KnowsNames :=
  get_knows.bind fun _ => (assume_knows _ _).bind fun _ => modify_knows _

theorem start_knows (job : Job β) : (start job).KnowsNames := by
  have hcheck : (check job).KnowsNames := by
    intro d text d' h
    have hyields := check_yields job d
    rw [Yields, h] at hyields
    rcases hyields with ⟨he, _⟩ | ⟨he, _⟩ <;> cases he
  refine (failing_knows (hcheck.bind fun _ => get_knows.bind fun d => ?_)).bind fun _ => advance_knows _ _
  split
  · rename_i e he
    refine throw_knows fun text h => ?_
    cases h
    unfold CodeBuffer.reserve at he
    split at he <;> cases he
  · exact (modify_knows _).bind fun _ => newLabel_knows.bind fun _ => modify_knows _

theorem prologue_knows (job : Job β) : (prologue job).KnowsNames :=
  (inst_knows _).bind fun _ => (moves_knows _).bind fun _ => (inst_knows _).bind fun _ => advance_knows _ _

theorem epilogue_knows : (epilogue : Emit β Unit).KnowsNames :=
  exitLabel_knows.bind fun _ => (bind_label_knows _).bind fun _ => (inst_knows _).bind fun _ =>
    (inst_knows _).bind fun _ => advance_knows _ _

theorem arrive_knows (job : Job β) (offset : Nat) (info : StackMap.Info) (fell : Bool) :
    (arrive job offset info fell).KnowsNames := by
  have hmeet : (meet job offset info fell).KnowsNames := by
    have htake : (do
        modify fun d => { d with stack := d.stack.resize info.depth, buffer := { d.buffer with height := info.depth } }
        Emit.bind (← label job offset) : Emit β Unit).KnowsNames :=
      (modify_knows _).bind fun _ => (label_knows job _).bind bind_label_knows
    unfold meet
    split
    · cases fell with
      | true =>
        exact (flushBelow_knows 0).bind fun _ => depth_knows.bind fun _ => (assume_knows _ _).bind fun _ =>
          get_knows.bind fun _ =>
          (assume_knows _ _).bind fun _ => htake
      | false => exact (flushBelow_knows 0).bind fun _ => htake
    · split
      · exact depth_knows.bind fun _ => assume_knows _ _
      · exact pure_knows ()
  have hsettle : (settle job).KnowsNames := by
    unfold settle
    split
    · exact flushBelow_knows 0
    · refine depth_knows.bind fun _ => ?_
      split
      · exact flushBelow_knows 2
      · exact pure_knows ()
  exact hmeet.bind fun _ => hsettle.bind fun _ => get_knows.bind fun _ => (guarded_knows _).bind fun _ => modify_knows _

/-- The reachable instructions of the list name only what is known. -/
theorem lowerEach_knows {is : List Instruction} (hnames : ∀ i ∈ is, job.program.stackMap.isReachable i.offset = true →
      i.opcode.hasAtom = true → ∃ a, job.name i = .ok a) (fell : Bool) : (lowerEach job is fell).KnowsNames := by
  induction is generalizing fell with
  | nil => exact pure_knows ()
  | cons i is ih =>
    have hrest := ih fun j hj => hnames j (List.mem_cons_of_mem _ hj)
    unfold lowerEach
    split
    · exact hrest false
    · rename_i info hinfo
      have hi := lower_knows (hnames i List.mem_cons_self (by rw [StackMap.isReachable, hinfo]; rfl))
      exact (arrive_knows job _ _ _).bind fun _ => hi.bind fun _ => hrest _

theorem compile_knows (hv : job.program.Verified)
    (hnames : ∀ i ∈ job.program.instructions, job.program.stackMap.isReachable i.offset = true →
      i.opcode.hasAtom = true → ∃ a, job.name i = .ok a) (pool : CodePool) (text : String) :
    (compile job Linker.pool pool).1 ≠ .error (.error (.unknownAtom text)) := by
  have hbody : (body job).KnowsNames := by
    rw [body, lowerAll_offsets hv]
    exact (failing_knows (lowerEach_knows hnames false)).bind fun _ => advance_knows _ _
  have hemission : (emission job).KnowsNames :=
    (start_knows job).bind fun _ => (prologue_knows job).bind fun _ => hbody.bind fun _ => epilogue_knows
  have hlink (buffer : CodeBuffer) : (link (Linker.pool buffer pool).1 >>= finish : Emit β (Method β)).KnowsNames := by
    refine KnowsNames.bind
      ((modify_knows _).bind fun _ => (failing_knows ?_).bind fun _ => (advance_knows _ _).bind fun _ => pure_knows _)
      fun _ => (advance_knows _ _).bind fun _ => get_knows.bind fun _ => (assume_knows _ _).bind fun _ => pure_knows _
    unfold Linker.pool
    split
    · rename_i code hcode
      split at hcode <;> cases hcode
      exact pure_knows _
    · rename_i fault hfault
      split at hfault <;> cases hfault
      exact throw_knows fun _ h => by cases h
  unfold compile
  split
  · rename_i fault d hd
    intro h
    cases h
    exact hemission _ _ _ hd
  · rename_i d hd
    simp only
    split
    · rename_i fault d' hd'
      intro h
      cases h
      exact hlink _ _ _ _ hd'
    · intro h
      cases h

end Compilation

end BaselineTier
