/-
  BaselineTier.Proofs.KnownTypes — when a value that is taken for a Boolean is one.

  The types that are known before an instruction hold of its operands if they held before the
  instruction that control came from, as long as that is the one before it in the code
  (`act_leaves`, `typed_next`). Where control jumps, the types are still those of the
  instruction before: they hold there if they claim no more than the jump brings
  (`Program.Consistent`, `typed_target`). In programs without such a clash no test meets
  anything but a Boolean; in others one does exactly where the interpretation comes to it.
-/

import BaselineTier.Proofs.Agreement

namespace BaselineTier

variable {σ α γ : Type}

/-! ## Types that hold -/

theorem Value.asBool_bool_ne_none (b : Bool) : (bool b).asBool ≠ none := by
  rw [asBool_bool]
  exact Option.some_ne_none b

namespace Types

/-- Each value that is marked as a Boolean is one; both are bottom first. -/
structure Holds (ts : Types) (vs : List Value) : Prop where
  length : ts.length = vs.length
  boolean : ∀ {k : Nat} {x : Value}, ts[k]? = some (some .boolean) → vs[k]? = some x → x.asBool ≠ none

variable {ts ts' : Types} {vs ys zs : List Value} {x : Value} {n : Nat}

theorem Holds.nil : Holds [] [] := ⟨rfl, fun hk => by cases hk⟩

theorem Holds.single {t : Option ValueType} (h : t = some .boolean → x.asBool ≠ none) : Holds [t] [x] := by
  refine ⟨rfl, fun {k y} hk hy => ?_⟩
  cases k with
  | zero =>
    cases hk
    cases hy
    exact h rfl
  | succ k => cases hk

theorem Holds.append (h : ts.Holds vs) (h' : ts'.Holds ys) : Holds (ts ++ ts') (vs ++ ys) := by
  refine ⟨by rw [List.length_append, List.length_append, h.length, h'.length], fun {k x} hk hx => ?_⟩
  rw [List.getElem?_append] at hk hx
  rw [h.length] at hk
  split at hk
  · rw [if_pos ‹_›] at hx
    exact h.boolean hk hx
  · rw [if_neg ‹_›] at hx
    exact h'.boolean hk hx

theorem Holds.replicate (hn : vs.length = n) : Holds (List.replicate n none) vs := by
  refine ⟨by rw [List.length_replicate, hn], fun {k x} hk _ => ?_⟩
  rw [List.getElem?_replicate] at hk
  split at hk <;> cases hk

/-- What is left when the top values are gone. -/
theorem Holds.below (h : ts.Holds (vs ++ ys)) (hn : ys.length = n) : Holds (ts.take (ts.length - n)) vs := by
  have hlen := h.length
  rw [List.length_append] at hlen
  refine ⟨by rw [List.length_take]; omega, fun {k x} hk hx => ?_⟩
  rw [List.getElem?_take] at hk
  split at hk
  · exact h.boolean hk (by rw [List.getElem?_append_left (List.getElem?_eq_some_iff.mp hx).1]; exact hx)
  · cases hk

theorem Holds.last (h : ts.Holds (vs ++ [x])) (hlast : ts.getLast? = some (some .boolean)) : x.asBool ≠ none := by
  have hlen := h.length
  rw [List.length_append, List.length_singleton] at hlen
  rw [List.getLast?_eq_getElem?, hlen] at hlast
  exact h.boolean hlast (by simp)

end Types

/-! ## What an instruction leaves -/

def Ask.Ensures (x : Ask σ α) (Q : α → Prop) : Prop := ∀ w a w', x w = .ok a w' → Q a

namespace Ask.Ensures

variable {x : Ask σ α} {k : α → Ask σ γ} {Q : α → Prop} {R : γ → Prop}

theorem any (x : Ask σ α) : Ensures x fun _ => True := fun _ _ _ _ => trivial

theorem pure {a : α} (h : Q a) : Ensures (Pure.pure a : Ask σ α) Q := by
  rintro w b w' ⟨⟩
  exact h

theorem throw (e : RunError) : Ensures (MonadExcept.throw e : Ask σ α) Q := by
  rintro w b w' ⟨⟩

theorem bind (h : Ensures x Q) (hk : ∀ a, Q a → Ensures (k a) R) : Ensures (x >>= k) R := by
  intro w b w' hb
  have hb : EStateM.bind x k w = .ok b w' := hb
  rw [EStateM.bind] at hb
  cases hx : x w with
  | error e w₁ => rw [hx] at hb; cases hb
  | ok a w₁ =>
    rw [hx] at hb
    exact hk a (h w a w₁ hx) w₁ b w' hb

/-- An operation whose result does not matter. -/
theorem andThen (hk : ∀ a, Ensures (k a) R) : Ensures (x >>= k) R := (any x).bind fun a _ => hk a

end Ask.Ensures

namespace Interpreter

open Ask

variable {e : Evaluation} {Q : Effect → Prop}

theorem one_ensures {f : Value → Action σ}
    (h : ∀ a rest, e.operands = a :: rest → Ensures (f a { e with operands := rest }) Q) :
    Ensures (one f e) Q := by
  unfold one
  split
  · exact h _ _ ‹_›
  · exact .throw _

theorem two_ensures {f : Value → Value → Action σ}
    (h : ∀ a b rest, e.operands = b :: a :: rest → Ensures (f a b { e with operands := rest }) Q) :
    Ensures (two f e) Q :=
  one_ensures fun b _ ho => one_ensures fun a rest ho' => h a b rest (by rw [ho]; exact congrArg _ ho')

end Interpreter

namespace Instruction

/-- What the instruction may come to where the types are known: the types after it hold, and control goes on to the next
    instruction or where it jumps. -/
def Leaves (i : Instruction) (ts : Types) (e : Evaluation) : Effect → Prop
  | .goOn e' => (i.typesAfter ts).Holds e'.operands.reverse ∧ e'.source = e.source ∧
      (i.opcode.fallsThrough = true ∧ e'.offset = e.offset ∨ i.target? = some e'.offset)
  | .invoke _ _ e' => (∀ x, (i.typesAfter ts).Holds (x :: e'.operands).reverse) ∧ e'.source = e.source ∧
      i.opcode.fallsThrough = true ∧ e'.offset = e.offset
  | .finish _ => True

/-- The instruction takes some values from the top and puts others in their place. -/
theorem Leaves.goOn {i : Instruction} {ts new : Types} {e e' : Evaluation} {x y z : List Value} (h : ts.Holds (x ++ y))
    (hy : y.length = i.pops) (hts : i.typesAfter ts = ts.take (ts.length - i.pops) ++ new) (hnew : new.Holds z)
    (hops : e'.operands.reverse = x ++ z) (hsource : e'.source = e.source)
    (hto : i.opcode.fallsThrough = true ∧ e'.offset = e.offset ∨ i.target? = some e'.offset) :
    i.Leaves ts e (.goOn e') := by
  refine ⟨?_, hsource, hto⟩
  rw [hts, hops]
  exact (h.below hy).append hnew

/-- The instruction takes some values from the top and pushes one. -/
theorem Leaves.push {i : Instruction} {ts : Types} {t : Option ValueType} {e e' : Evaluation} {rest y : List Value}
    {v : Value} (h : ts.Holds (rest.reverse ++ y)) (hy : y.length = i.pops)
    (hts : i.typesAfter ts = ts.take (ts.length - i.pops) ++ [t]) (ht : t = some .boolean → v.asBool ≠ none)
    (hops : e'.operands = v :: rest) (hsource : e'.source = e.source) (hfalls : i.opcode.fallsThrough = true)
    (hoffset : e'.offset = e.offset) : i.Leaves ts e (.goOn e') :=
  .goOn h hy hts (.single ht) (by rw [hops, List.reverse_cons]) hsource (.inl ⟨hfalls, hoffset⟩)

/-- It pushes one whose type is not known. -/
theorem Leaves.unmarked {i : Instruction} {ts : Types} {e e' : Evaluation} {rest y : List Value} {v : Value}
    (h : ts.Holds (rest.reverse ++ y)) (hy : y.length = i.pops)
    (hts : i.typesAfter ts = ts.take (ts.length - i.pops) ++ [none]) (hops : e'.operands = v :: rest)
    (hsource : e'.source = e.source) (hfalls : i.opcode.fallsThrough = true) (hoffset : e'.offset = e.offset) :
    i.Leaves ts e (.goOn e') :=
  .push h hy hts (fun ht => by cases ht) hops hsource hfalls hoffset

/-- It leaves the operands as they are. -/
theorem Leaves.same {i : Instruction} {ts : Types} {e e' : Evaluation} (h : ts.Holds e.operands.reverse)
    (hts : i.typesAfter ts = ts) (hops : e'.operands = e.operands) (hsource : e'.source = e.source)
    (hto : i.opcode.fallsThrough = true ∧ e'.offset = e.offset ∨ i.target? = some e'.offset) :
    i.Leaves ts e (.goOn e') :=
  ⟨by rwa [hts, hops], hsource, hto⟩

end Instruction

namespace Interpreter

open Ask

section Leaves

variable {i : Instruction} {ts : Types} {e : Evaluation}

/-- An instruction that takes nothing and pushes a value of a type that is known or not. -/
theorem push_leaves {t : Option ValueType} {v : Value} (h : ts.Holds e.operands.reverse) (hpops : i.pops = 0)
    (hts : i.typesAfter ts = ts.take (ts.length - i.pops) ++ [t]) (ht : t = some .boolean → v.asBool ≠ none)
    (hfalls : i.opcode.fallsThrough = true) : Ensures (push v e : Ask σ Effect) (i.Leaves ts e) :=
  .pure (.push (y := []) (by simpa using h) hpops.symm hts ht rfl rfl hfalls rfl)

theorem boolean_of_literal {v : Value} (hv : i.literal? = some v) (ht : i.literal?.map Value.type = some .boolean) :
    v.asBool ≠ none := by
  rw [hv] at ht
  exact Option.isSome_iff_ne_none.mp (Value.asBool_isSome_iff.mpr (Option.some.inj ht))

/-- A store that goes through changes a slot and keeps the operands. -/
theorem setLocal_ensures {Q : Effect → Prop} {index : Nat} (h : ∀ slots, Q (.goOn { e with slots })) :
    Ensures (setLocal index e : Ask σ Effect) Q := by
  refine one_ensures fun a rest ho => ?_
  split
  · refine .pure ?_
    have he : ({ e with operands := rest, slots := e.slots.setIfInBounds index a } : Evaluation).push a =
        { e with slots := e.slots.setIfInBounds index a } := by rw [Evaluation.push, ← ho]
    rw [he]
    exact h _
  · exact .throw _

theorem setArg_ensures {Q : Effect → Prop} {index : Nat} (h : ∀ args, Q (.goOn { e with args })) :
    Ensures (setArg index e : Ask σ Effect) Q := by
  refine one_ensures fun a rest ho => ?_
  split
  · refine .pure ?_
    have he : ({ e with operands := rest, args := e.args.setIfInBounds index a } : Evaluation).push a =
        { e with args := e.args.setIfInBounds index a } := by rw [Evaluation.push, ← ho]
    rw [he]
    exact h _
  · exact .throw _

/-- A test goes on or jumps. -/
theorem jumpIf_ensures {Q : Effect → Prop} {target : Nat} {condition : Bool} {v : Value} (ht : i.target? = some target)
    (hon : Q (.goOn e)) (hjump : Q (.goOn { e with offset := target })) :
    Ensures (jumpIf i condition v e : Ask σ Effect) Q := by
  refine .andThen fun w => ?_
  split
  · refine .pure ?_
    rw [ht]
    exact hjump
  · exact .pure hon

theorem popN_leaves (h : ts.Holds e.operands.reverse) (hop : i.opcode = .popN) :
    Ensures (if i.count ≤ e.operands.length then goOn { e with operands := e.operands.drop i.count }
      else MonadExcept.throw .stackUnderflow : Ask σ Effect) (i.Leaves ts e) := by
  split
  · have hsplit : e.operands.reverse = (e.operands.drop i.count).reverse ++ (e.operands.take i.count).reverse := by
      rw [← List.reverse_append, List.take_append_drop]
    rw [hsplit] at h
    have hpops : i.pops = i.count := by rw [Instruction.pops, hop]
    refine .pure (.goOn h ?_ ?_ .nil (List.append_nil _).symm rfl (.inl ⟨by rw [hop]; rfl, rfl⟩))
    · rw [List.length_reverse, List.length_take, hpops]
      omega
    · simp only [Instruction.typesAfter, hop, Instruction.pushes]
      rfl
  · exact .throw _

theorem call_leaves (host : Host σ) (h : ts.Holds e.operands.reverse) (hop : i.opcode = .call) :
    Ensures (call host i.count e) (i.Leaves ts e) := by
  have hpops : i.pops = i.count + 2 := by rw [Instruction.pops, hop]
  have hts : i.typesAfter ts = ts.take (ts.length - i.pops) ++ [none] := by
    simp only [Instruction.typesAfter, hop, Instruction.pushes]
    rfl
  have hfalls : i.opcode.fallsThrough = true := by rw [hop]; rfl
  have hsplit : e.operands.reverse = (e.operands.drop (i.count + 2)).reverse ++
      (e.operands.take (i.count + 2)).reverse := by
    rw [← List.reverse_append, List.take_append_drop]
  rw [hsplit] at h
  unfold call
  split
  · split
    · exact .throw _
    · have hlen : (e.operands.take (i.count + 2)).reverse.length = i.pops := by
        rw [List.length_reverse, List.length_take, hpops]
        omega
      refine .andThen fun answer => ?_
      cases answer with
      | value v => exact .pure (.unmarked h hlen hts rfl rfl hfalls rfl)
      | invoke script =>
        refine .pure ⟨fun x => ?_, rfl, hfalls, rfl⟩
        rw [hts, List.reverse_cons]
        exact (h.below hlen).append (.single fun ht => by cases ht)
  · exact .throw _

/-- If the types before an instruction hold, so do the ones after it. -/
theorem act_leaves (host : Host σ) (h : ts.Holds e.operands.reverse) (hformat : i.operand.format = i.opcode.format) :
    Ensures (act host i e) (i.Leaves ts e) := by
  obtain ⟨offset, op, operand, size⟩ := i
  cases op
  all_goals simp only [act]
  -- Instructions that move values about.
  case nop | loopHead => exact .pure (.goOn (y := []) (by simpa using h) rfl rfl .nil (by simp) rfl (.inl ⟨rfl, rfl⟩))
  case pop =>
    exact one_ensures fun a rest ho => .pure (.goOn (y := [a]) (by simpa [ho] using h) rfl rfl .nil (by simp) rfl
      (.inl ⟨rfl, rfl⟩))
  case popN => exact popN_leaves h rfl
  case dup =>
    refine one_ensures fun a rest ho => .pure ?_
    rw [ho, List.reverse_cons] at h
    have ht : ts.getLast?.join = some .boolean → a.asBool ≠ none := fun hj => h.last (Option.join_eq_some_iff.mp hj)
    exact .goOn (y := [a]) (z := [a, a]) h rfl rfl ((Types.Holds.single ht).append (.single ht))
      (by simp [Evaluation.push]) rfl
      (.inl ⟨rfl, rfl⟩)
  case dup2 =>
    refine two_ensures fun a b rest ho => .pure ⟨?_, rfl, .inl ⟨rfl, rfl⟩⟩
    have hops : ({ e with operands := b :: a :: b :: a :: rest } : Evaluation).operands.reverse =
        e.operands.reverse ++ [a, b] := by
      simp [ho]
    exact hops ▸ h.append (.replicate (n := 2) rfl)
  case swap =>
    exact two_ensures fun a b rest ho => .pure
      (.goOn (y := [a, b]) (z := [b, a]) (by simpa [ho] using h) rfl rfl (.replicate rfl)
        (by simp [Evaluation.push]) rfl
        (.inl ⟨rfl, rfl⟩))
  case pushUndefined | pushNull | pushTrue | pushFalse | pushZero | pushOne | pushInt8 | pushInt32 | pushDouble |
    pushHole =>
    split
    · exact push_leaves h rfl rfl (boolean_of_literal ‹_›) rfl
    · exact .throw _
  case pushString => exact .andThen fun a => push_leaves h rfl rfl (fun ht => by cases ht) rfl
  case getLocal =>
    unfold getLocal
    split
    · exact push_leaves h rfl rfl (fun ht => by cases ht) rfl
    · exact .throw _
  case getArg =>
    unfold getArg
    split
    · exact push_leaves h rfl rfl (fun ht => by cases ht) rfl
    · exact .throw _
  case setLocal => exact setLocal_ensures fun slots => .same h rfl rfl rfl (.inl ⟨rfl, rfl⟩)
  case setArg => exact setArg_ensures fun args => .same h rfl rfl rfl (.inl ⟨rfl, rfl⟩)
  case incLocal | decLocal =>
    unfold stepLocal
    split
    · exact .andThen fun v => setLocal_ensures fun slots =>
        .unmarked (y := []) (by simpa using h) rfl rfl rfl rfl rfl rfl
    · exact .throw _
  -- Operators.
  case add | sub | mul | div | mod | bitAnd | bitOr | bitXor | lsh | rsh | ursh =>
    exact two_ensures fun a b rest ho => .andThen fun v => .pure
      (.unmarked (y := [a, b]) (by simpa [ho] using h) rfl rfl rfl rfl rfl rfl)
  case neg | bitNot | pos =>
    exact one_ensures fun a rest ho => .andThen fun w => .pure
      (.unmarked (y := [a]) (by simpa [ho] using h) rfl rfl rfl rfl rfl rfl)
  case logicalNot =>
    exact one_ensures fun a rest ho => .andThen fun w => .pure
      (.push (y := [a]) (by simpa [ho] using h) rfl rfl (fun _ => Value.asBool_bool_ne_none _) rfl rfl rfl rfl)
  case eq | ne | strictEq | strictNe | lt | le | gt | ge =>
    exact two_ensures fun a b rest ho => .andThen fun w => .pure
      (.push (y := [a, b]) (by simpa [ho] using h) rfl rfl (fun _ => Value.asBool_bool_ne_none _) rfl rfl rfl rfl)
  -- Jumps and returns.
  case goto =>
    obtain ⟨target, ht⟩ := Lowering.target_of_format hformat
    refine .pure (.goOn (y := []) (by simpa using h) rfl rfl .nil (by simp) rfl (.inr ?_))
    rw [ht]
    rfl
  case ifEq | ifNe =>
    obtain ⟨target, ht⟩ := Lowering.target_of_format hformat
    refine one_ensures fun a rest ho => ?_
    rw [ho, List.reverse_cons] at h
    exact jumpIf_ensures ht (.goOn h rfl rfl .nil (by simp) rfl (.inl ⟨rfl, rfl⟩))
      (.goOn h rfl rfl .nil (by simp) rfl (.inr ht))
  case andJump | orJump =>
    obtain ⟨target, ht⟩ := Lowering.target_of_format hformat
    refine one_ensures fun a rest ho => ?_
    exact jumpIf_ensures ht (.same h rfl ho.symm rfl (.inl ⟨rfl, rfl⟩)) (.same h rfl ho.symm rfl (.inr ht))
  case ret => exact one_ensures fun _ _ _ => .pure trivial
  case stop => exact .pure trivial
  -- What the host is asked for.
  case getName | getGlobal =>
    exact .andThen fun _ => .andThen fun _ => push_leaves h rfl rfl (fun ht => by cases ht) rfl
  case setName | setGlobal =>
    exact .andThen fun _ => one_ensures fun a rest ho => .andThen fun _ => .pure
      (.unmarked (y := [a]) (by simpa [ho] using h) rfl rfl rfl rfl rfl rfl)
  case getProp =>
    exact one_ensures fun a rest ho => .andThen fun _ => .andThen fun _ => .pure
      (.unmarked (y := [a]) (by simpa [ho] using h) rfl rfl rfl rfl rfl rfl)
  case setProp =>
    exact two_ensures fun a b rest ho => .andThen fun _ => .andThen fun _ => .pure
      (.unmarked (y := [a, b]) (by simpa [ho] using h) rfl rfl rfl rfl rfl rfl)
  case getElem =>
    exact two_ensures fun a b rest ho => .andThen fun _ => .pure
      (.unmarked (y := [a, b]) (by simpa [ho] using h) rfl rfl rfl rfl rfl rfl)
  case setElem =>
    refine one_ensures fun c _ ho => two_ensures fun a b rest ho' => .andThen fun _ => .pure
      (.unmarked (y := [a, b, c]) ?_ rfl rfl rfl rfl rfl rfl)
    have hops : e.operands = c :: b :: a :: rest := ho.trans (congrArg _ ho')
    simpa [hops] using h
  case call => exact call_leaves host h rfl
  case debugger | throwValue | lambda | arguments | enterWith | leaveWith => exact .throw _

end Leaves
end Interpreter

/-! ## Types along the code -/

namespace Types

theorem resize_self (ts : Types) : ts.resize ts.length = ts := by
  simp [resize]

end Types

namespace StackMap

variable {m : StackMap} {code : List UInt8} {is : List Instruction} {i : Instruction} {ts ts' : Types} {offset : Nat}

theorem info_of_annotate {a : Instruction × Types} (h : a ∈ m.annotate is ts) :
    ∃ info, m.info? a.1.offset = some info := by
  induction is generalizing ts with
  | nil => cases h
  | cons i is ih =>
    cases hinfo : m.info? i.offset with
    | none =>
      simp only [annotate, hinfo] at h
      exact ih h
    | some info =>
      simp only [annotate, hinfo] at h
      rcases List.mem_cons.mp h with rfl | h
      · exact ⟨info, hinfo⟩
      · exact ih h

theorem exists_annotate {info : Info} (hi : i ∈ is) (hinfo : m.info? i.offset = some info) (ts : Types) :
    ∃ ts', (i, ts') ∈ m.annotate is ts := by
  induction is generalizing ts with
  | nil => cases hi
  | cons j is ih =>
    cases hj : m.info? j.offset with
    | none =>
      simp only [annotate, hj]
      rcases List.mem_cons.mp hi with rfl | hi
      · cases hj.symm.trans hinfo
      · exact ih hi ts
    | some info' =>
      simp only [annotate, hj]
      rcases List.mem_cons.mp hi with rfl | hi
      · exact ⟨_, List.mem_cons_self⟩
      · obtain ⟨ts', h⟩ := ih hi (j.typesAfter (if info'.jumpTarget then ts.resize info'.depth else ts))
        exact ⟨ts', List.mem_cons_of_mem _ h⟩

/-- The types after an instruction are the ones before the next, if their number is right. -/
theorem annotate_next {info : Info} (htiles : Instruction.Tiles code offset is) (h : (i, ts') ∈ m.annotate is ts)
    (hlt : i.next < code.length) (hinfo : m.info? i.next = some info)
    (hdepth : info.depth = (i.typesAfter ts').length) :
    ∃ j, (j, i.typesAfter ts') ∈ m.annotate is ts ∧ j.offset = i.next := by
  induction is generalizing offset ts with
  | nil => cases h
  | cons k is ih =>
    cases hk : m.info? k.offset with
    | none =>
      simp only [annotate, hk] at h ⊢
      exact ih htiles.2 h
    | some info' =>
      simp only [annotate, hk] at h ⊢
      rcases List.mem_cons.mp h with heq | h
      · cases heq
        cases is with
        | nil => exact absurd htiles.2 (Nat.ne_of_lt hlt)
        | cons j is =>
          have hoff : j.offset = i.next := (Instruction.decodeAt_ok htiles.2.1).1
          refine ⟨j, List.mem_cons_of_mem _ ?_, hoff⟩
          rw [← hoff] at hinfo
          simp only [annotate, hinfo, hdepth, Types.resize_self, ite_self]
          exact List.mem_cons_self
      · obtain ⟨j, hj, hoff⟩ := ih htiles.2 h
        exact ⟨j, List.mem_cons_of_mem _ hj, hoff⟩

end StackMap

namespace Program

variable {p : Program} {i : Instruction} {ts : Types} {info : StackMap.Info}

/-- As many types are known as there are operands. -/
theorem Verified.length_annotate (h : p.Verified) {is : List Instruction} {offset : Nat}
    (htiles : Instruction.Tiles p.code offset is) (hmem : ∀ i ∈ is, i ∈ p.instructions)
    (hentry : ∀ info, p.stackMap.info? offset = some info → info.jumpTarget = false → ts.length = info.depth)
    {a : Instruction × Types} (ha : a ∈ p.stackMap.annotate is ts) (hinfo : p.stackMap.info? a.1.offset = some info) :
    a.2.length = info.depth := by
  induction is generalizing offset ts with
  | nil => cases ha
  | cons i is ih =>
    have hi := hmem i List.mem_cons_self
    have hmem' : ∀ j ∈ is, j ∈ p.instructions := fun j hj => hmem j (List.mem_cons_of_mem _ hj)
    obtain rfl : i.offset = offset := (Instruction.decodeAt_ok htiles.1).1
    cases hio : p.stackMap.info? i.offset with
    | none =>
      simp only [StackMap.annotate, hio] at ha
      refine ih htiles.2 hmem' (fun info' hinfo' ht => ?_) ha
      obtain ⟨before, hbefore, _⟩ := h.fell hi hinfo' ht
      cases hio.symm.trans hbefore
    | some info₀ =>
      simp only [StackMap.annotate, hio] at ha
      generalize hts' : (if info₀.jumpTarget then ts.resize info₀.depth else ts) = ts' at ha
      have hlen : ts'.length = info₀.depth := by
        subst hts'
        split
        · exact Types.length_resize ts info₀.depth
        · exact hentry info₀ hio (Bool.eq_false_iff.mpr ‹_›)
      rcases List.mem_cons.mp ha with rfl | ha
      · cases hio.symm.trans hinfo
        exact hlen
      · refine ih htiles.2 hmem' (fun info' hinfo' ht => ?_) ha
        obtain ⟨before, hbefore, _, hdepth⟩ := h.fell hi hinfo' ht
        cases hio.symm.trans hbefore
        have hpops : i.pops ≤ ts'.length := hlen ▸ (h.admissible hi hio).pops
        rw [Instruction.length_typesAfter hpops, hlen, hdepth]

theorem Verified.length_annotated (h : p.Verified) (ha : (i, ts) ∈ p.annotated)
    (hinfo : p.stackMap.info? i.offset = some info) :
    ts.length = info.depth := by
  refine h.length_annotate h.tiles (fun _ hi => hi) (fun info₀ hinfo₀ _ => ?_) ha hinfo
  rw [h.depth_eq hinfo₀ .start]
  rfl

/-- What is jumped to is marked as a Boolean only where the jump brings one. -/
def Consistent (p : Program) : Prop :=
  ∀ a ∈ p.annotated, ∀ b ∈ p.annotated, a.1.target? = some b.1.offset →
    ∀ k < b.2.length, b.2[k]? = some (some .boolean) → (a.1.typesAfter a.2)[k]? = some (some .boolean)

instance (p : Program) : Decidable p.Consistent := inferInstanceAs (Decidable (∀ a ∈ p.annotated, ∀ b ∈ p.annotated, _))

end Program

/-! ## Along an interpretation -/

def Evaluation.Typed (e : Evaluation) : Prop :=
  ∃ i ts, (i, ts) ∈ e.source.program.annotated ∧ i.offset = e.offset ∧ ts.Holds e.operands.reverse

section Typed

variable {i : Instruction} {ts : Types} {e : Evaluation}

theorem Evaluation.typed_next (hv : e.source.program.Verified) (ha : (i, ts) ∈ e.source.program.annotated)
    (hfalls : i.opcode.fallsThrough = true) (hnext : e.offset = i.next)
    (h : (i.typesAfter ts).Holds e.operands.reverse) : e.Typed := by
  obtain ⟨info, hinfo⟩ := StackMap.info_of_annotate ha
  have hi := StackMap.mem_of_annotate ha
  have hlen := hv.length_annotated ha hinfo
  have hpops : i.pops ≤ ts.length := hlen ▸ (hv.admissible hi hinfo).pops
  obtain ⟨info', hinfo', hdepth⟩ :=
    (hv.exact.depth _ _).mpr (.next hi (hv.reaches hinfo) (hv.admissible hi hinfo).pops hfalls)
  obtain ⟨j', hj', hoff'⟩ := hv.instruction hinfo'
  have hlt : i.next < e.source.program.code.length := hoff' ▸ hv.tiles.offset_lt hj'
  obtain ⟨j, hj, hoff⟩ := StackMap.annotate_next hv.tiles ha hlt hinfo'
    (by rw [Instruction.length_typesAfter hpops, hlen, hdepth])
  exact ⟨j, _, hj, hoff.trans hnext.symm, h⟩

theorem Evaluation.typed_target (hv : e.source.program.Verified) (hcons : e.source.program.Consistent)
    (ha : (i, ts) ∈ e.source.program.annotated) (ht : i.target? = some e.offset)
    (h : (i.typesAfter ts).Holds e.operands.reverse) : e.Typed := by
  obtain ⟨info, hinfo⟩ := StackMap.info_of_annotate ha
  have hi := StackMap.mem_of_annotate ha
  have hlen := hv.length_annotated ha hinfo
  have hpops : i.pops ≤ ts.length := hlen ▸ (hv.admissible hi hinfo).pops
  obtain ⟨info', hinfo', hdepth⟩ :=
    (hv.exact.depth _ _).mpr (.jump hi (hv.reaches hinfo) (hv.admissible hi hinfo).pops ht)
  obtain ⟨j, hj, hoff⟩ := hv.instruction hinfo'
  rw [← hoff] at ht hinfo'
  obtain ⟨ts', hts'⟩ := StackMap.exists_annotate hj hinfo' []
  have hlen' := hv.length_annotated hts' hinfo'
  refine ⟨j, ts', hts', hoff, ?_, fun {k x} hk hx => ?_⟩
  · rw [hlen', hdepth, ← hlen, ← Instruction.length_typesAfter hpops, h.length]
  · exact h.boolean (hcons _ ha _ hts' ht k (List.getElem?_eq_some_iff.mp hk).1 hk) hx

/-- What an instruction comes to where the types hold. -/
theorem Evaluation.Typed.step (h : e.Typed) (hv : e.source.program.Verified) (hcons : e.source.program.Consistent)
    (host : Host σ) (hd : Instruction.decodeAt e.source.program.code e.offset = .ok i) :
    Ask.Ensures (Interpreter.act host i { e with offset := i.next }) fun effect =>
      match effect with
      | .goOn e' => e'.Typed ∧ e'.source = e.source
      | .invoke _ _ e' => ∀ x, (e'.push x).Typed ∧ e'.source = e.source
      | .finish _ => True := by
  obtain ⟨j, ts, ha, hoff, hholds⟩ := h
  have hj := StackMap.mem_of_annotate ha
  obtain rfl : j = i := by
    have hj' := hv.tiles.decodeAt j hj
    rw [hoff] at hj'
    exact Except.ok.inj (hj'.symm.trans hd)
  have hformat := (hv.tiles.sound hj).2.format
  intro w effect w' hact
  have hleaves := Interpreter.act_leaves host (e := { e with offset := j.next }) hholds hformat w effect w' hact
  cases effect with
  | goOn e' =>
    obtain ⟨hafter, hsource, hto⟩ := hleaves
    have hsource : e'.source = e.source := hsource
    rw [← hsource] at ha hv hcons
    rcases hto with ⟨hfalls, hnext⟩ | ht
    · exact ⟨Evaluation.typed_next hv ha hfalls hnext hafter, hsource⟩
    · exact ⟨Evaluation.typed_target hv hcons ha ht hafter, hsource⟩
  | invoke script args e' =>
    obtain ⟨hafter, hsource, hfalls, hnext⟩ := hleaves
    have hsource : e'.source = e.source := hsource
    rw [← hsource] at ha hv
    exact fun x => ⟨Evaluation.typed_next (e := e'.push x) hv ha hfalls hnext (hafter x), hsource⟩
  | finish v => trivial

end Typed

theorem Evaluation.typed_enter {source : Source} (hv : source.program.Verified) (args : List Value) :
    (Evaluation.enter source args).Typed := by
  obtain ⟨info, hinfo, hdepth⟩ := (hv.exact.depth 0 0).mpr .start
  obtain ⟨i, hi, hoff⟩ := hv.instruction hinfo
  rw [← hoff] at hinfo
  obtain ⟨ts, hts⟩ := StackMap.exists_annotate hi hinfo []
  have hlen := hv.length_annotated hts hinfo
  obtain rfl : ts = [] := List.eq_nil_of_length_eq_zero (hlen.trans hdepth)
  exact ⟨i, [], hts, hoff, .nil⟩

namespace Interpreter

variable {host : Host σ} {sources : Sources} {k k' : Config σ}

inductive GoesOn (sources : Sources) (k : Config σ) (w : World σ) : Effect → Config σ → Prop
  | stayed (e : Evaluation) : GoesOn sources k w (.goOn e) { k with world := w, current := e }
  | called {script : Nat} {args : List Value} {callee : Source} (e : Evaluation) : sources script = .ok callee →
      GoesOn sources k w (.invoke script args e)
        { k with world := w, depth := k.depth + 1, current := .enter callee args, callers := e :: k.callers }
  | returned (v : Value) {caller : Evaluation} {callers : List Evaluation} : k.callers = caller :: callers →
      GoesOn sources k w (.finish v) { k with world := w, depth := k.depth - 1, current := caller.push v, callers }

theorem step_running (h : step host sources k = .running k') :
    ∃ i effect w, Instruction.decodeAt k.current.source.program.code k.current.offset = .ok i ∧
      act host i { k.current with offset := i.next } k.world = .ok effect w ∧ GoesOn sources k w effect k' := by
  obtain ⟨world, depth, maxDepth, e, callers⟩ := k
  rw [step] at h
  cases hd : Instruction.decodeAt e.source.program.code e.offset with
  | error err => simp only [hd] at h; cases h
  | ok i =>
    simp only [hd] at h
    cases hact : act host i { e with offset := i.next } world with
    | error err w => simp only [hact] at h; cases h
    | ok effect w =>
      refine ⟨i, effect, w, rfl, hact, ?_⟩
      cases effect with
      | goOn e' =>
        simp only [hact] at h
        cases h
        exact .stayed e'
      | invoke script args e' =>
        simp only [hact] at h
        cases hcallee : sources script with
        | error err => rw [hcallee] at h; cases h
        | ok callee =>
          simp only [hcallee, Bind.bind, Except.bind, open?] at h
          by_cases hdeep : maxDepth < depth + 1
          · simp only [if_pos hdeep] at h; cases h
          · simp only [if_neg hdeep] at h
            cases h
            exact .called e' hcallee
      | finish v =>
        simp only [hact] at h
        cases callers with
        | nil => cases h
        | cons caller callers =>
          cases h
          exact .returned v rfl

structure Config.Typed (k : Config σ) : Prop where
  current : k.current.Typed
  callers : ∀ e ∈ k.callers, ∀ x, (e.push x).Typed
  programs : ∀ e ∈ k.current :: k.callers, e.source.program.Verified ∧ e.source.program.Consistent

theorem Config.Typed.step (h : k.Typed)
    (hs : ∀ n callee, sources n = .ok callee → callee.program.Verified ∧ callee.program.Consistent)
    (hstep : Interpreter.step host sources k = .running k') : k'.Typed := by
  obtain ⟨hv, hcons⟩ := h.programs k.current List.mem_cons_self
  have hcallers : ∀ e ∈ k.callers, e.source.program.Verified ∧ e.source.program.Consistent := fun e he =>
    h.programs e (List.mem_cons_of_mem _ he)
  obtain ⟨i, effect, w, hd, hact, hgoes⟩ := step_running hstep
  have hafter := h.current.step hv hcons host hd _ _ _ hact
  cases hgoes with
  | stayed e =>
    obtain ⟨htyped, hsource⟩ := hafter
    exact ⟨htyped, h.callers, List.forall_mem_cons.mpr ⟨by rw [hsource]; exact ⟨hv, hcons⟩, hcallers⟩⟩
  | @called script args callee e hcallee =>
    have hsource := (hafter .undefined).2
    refine ⟨Evaluation.typed_enter (hs _ _ hcallee).1 args, List.forall_mem_cons.mpr ⟨fun x => (hafter x).1, h.callers⟩,
      List.forall_mem_cons.mpr ⟨hs _ _ hcallee, List.forall_mem_cons.mpr ⟨?_, hcallers⟩⟩⟩
    rw [hsource]
    exact ⟨hv, hcons⟩
  | @returned v caller callers hk =>
    have htyped := h.callers
    rw [hk] at htyped hcallers
    exact ⟨htyped caller List.mem_cons_self v, fun e he => htyped e (List.mem_cons_of_mem _ he),
      List.forall_mem_cons.mpr (List.forall_mem_cons.mp hcallers)⟩

theorem Config.Typed.leads (h : k.Typed)
    (hs : ∀ n callee, sources n = .ok callee → callee.program.Verified ∧ callee.program.Consistent)
    (hk : Leads host sources k k') : k'.Typed := by
  induction hk with
  | refl k => exact h
  | step hstep _ ih => exact ih (h.step hs hstep)

/-- Where the types hold, nothing is taken for a Boolean that is none. -/
theorem Config.Typed.not_misjudged (h : k.Typed) : ¬k.Misjudged := by
  rintro ⟨i, ts, ha, hoff, hpre, x, hx, hbool⟩
  obtain ⟨hv, _⟩ := h.programs k.current List.mem_cons_self
  obtain ⟨j, ts', ha', hoff', hholds⟩ := h.current
  cases StackMap.annotate_unique hv.tiles ha ha' (hoff.trans hoff'.symm)
  obtain ⟨rest, ho⟩ : ∃ rest, k.current.operands = x :: rest := List.head?_eq_some_iff.mp hx
  rw [ho, List.reverse_cons] at hholds
  rw [Instruction.presumes, Bool.and_eq_true] at hpre
  exact hholds.last (eq_of_beq hpre.2) hbool

end Interpreter

/-! ## Runs of the machine -/

theorem Called.verified {found : Option (Script (StubBody σ))} {source : Source} (h : Called found (.ok source)) :
    source.program.Verified := by
  cases h with
  | compiled hc => exact hc.verified

namespace Machine

variable {host : Host σ} {scripts : Scripts σ} {sources : Interpreter.Sources} {s : Script (StubBody σ)}
  {source : Source}

/-- A run that trips ends with the error that says so. -/
theorem Trips.execute {m : Machine} {args : List Value} {world : World σ} (h : m.Trips host scripts s args world) :
    ∃ fuel x m' w, m.execute host scripts fuel s args world = some (.error (.type (.notBoolean x)), m', w) := by
  obtain ⟨c, last, hstart, hlast, htrips⟩ := h
  obtain ⟨x, m', w, hend⟩ := htrips.step host scripts
  obtain ⟨fuel, hrun⟩ := Config.run_iff.mpr ⟨last, hlast, hend⟩
  exact ⟨fuel, x, m', w, by rw [Machine.execute, hstart]; exact hrun⟩

theorem not_trips_of_consistent (hs : Corresponds scripts sources) (hc : s.Compiled source)
    (hp : source.program.Consistent) (hps : ∀ n callee, sources n = .ok callee → callee.program.Consistent)
    (m : Machine) (args : List Value) (world : World σ) :
    ¬m.Trips host scripts s args world := by
  rw [trips_iff hs hc]
  rintro ⟨k, k', hk, hleads, hmis⟩
  have htyped : k.Typed := by
    rw [Interpreter.start, Interpreter.open?] at hk
    split at hk
    · cases hk
    · cases hk
      exact ⟨Evaluation.typed_enter hc.verified args, fun e he => absurd he List.not_mem_nil,
        List.forall_mem_singleton.mpr ⟨hc.verified, hp⟩⟩
  have hsources : ∀ n callee, sources n = .ok callee → callee.program.Verified ∧ callee.program.Consistent :=
    fun n callee hn =>
    ⟨Called.verified (hn ▸ hs n), hps n callee hn⟩
  exact (htyped.leads hsources hleads).not_misjudged hmis

end Machine

/-! ## Two programs -/

namespace LookupCall

/-- Nothing is on the operand stack where this program jumps to. -/
theorem consistent : program.Consistent := by
  have hannotated : program.annotated = [
      (⟨0, .getArg, .u16 0, 3⟩, []), (⟨3, .ifEq, .jump 19, 5⟩, [none]), (⟨8, .getName, .u32 0, 5⟩, []),
      (⟨13, .pushUndefined, .none, 1⟩, [none]), (⟨14, .pushFalse, .none, 1⟩, [none, some .undefined]),
      (⟨15, .call, .u16 1, 3⟩, [none, some .undefined, some .boolean]), (⟨18, .ret, .none, 1⟩, [none]),
      (⟨19, .pushOne, .none, 1⟩, []), (⟨20, .ret, .none, 1⟩, [some .int32])] := rfl
  rw [Program.Consistent, hannotated]
  decide

theorem sources_consistent (n : Nat) (callee : Source) (h : sources n = .ok callee) : callee.program.Consistent := by
  rw [sources] at h
  split at h
  · cases h
    exact consistent
  · cases h

end LookupCall

namespace StaleMark

/-- A function that negates its argument if that counts as false, and `true` otherwise. Control comes to the negation
    from a test of the argument, but what stands before it in the code is `true`. -/
def code : List UInt8 := [0x1A, 0, 0, 0x43, 7, 0, 0, 0, 0x02, 0x0A, 0x33, 0x60]

def program : Program := (Program.ofCode "f" code 0 1 #[]).toOption.getD default

def script : Script (StubBody Unit) := .compiling Unit program .empty

theorem compiled : script.Compiled ⟨program, #[]⟩ := by
  have hp : Program.ofCode "f" code 0 1 #[] = .ok program := rfl
  refine Script.compiled_of_isSome hp (by decide) ?_ (by cbv)
  rw [Source.ofProgram?, show program.atoms = #[] from rfl]
  simp

theorem not_consistent : ¬program.Consistent := by
  have hannotated : program.annotated = [
      (⟨0, .getArg, .u16 0, 3⟩, []), (⟨3, .andJump, .jump 10, 5⟩, [none]), (⟨8, .pop, .none, 1⟩, [none]),
      (⟨9, .pushTrue, .none, 1⟩, []), (⟨10, .logicalNot, .none, 1⟩, [some .boolean]),
        (⟨11, .ret, .none, 1⟩, [some .boolean])] := rfl
  rw [Program.Consistent, hannotated]
  decide

end StaleMark

/-! ## Known Booleans -/

namespace Machine

/-- A test of a value that is taken for a Boolean meets something else exactly where the interpretation comes to one
    whose operand is misjudged, and the run then ends with an error. If no program on the way has a jump that brings
    less than is known at its target, there is no such test. -/
theorem known_boolean_fails_exactly_if_misjudged {scripts : Scripts σ} {sources : Interpreter.Sources}
    {s : Script (StubBody σ)} {source : Source} (hs : Corresponds scripts sources) (hc : s.Compiled source)
    (host : Host σ) (m : Machine) (args : List Value) (world : World σ) :
    (m.Trips host scripts s args world ↔ ∃ k k', Interpreter.start source args m.depth m.maxDepth world = .ok k ∧
        Interpreter.Leads host sources k k' ∧ k'.Misjudged) ∧
      (m.Trips host scripts s args world →
        ∃ fuel x m' w, m.execute host scripts fuel s args world = some (.error (.type (.notBoolean x)), m', w)) ∧
      (source.program.Consistent → (∀ n callee, sources n = .ok callee → callee.program.Consistent) →
        ¬m.Trips host scripts s args world) :=
  ⟨trips_iff hs hc m args world, fun h => h.execute, fun hp hps => not_trips_of_consistent hs hc hp hps m args world⟩

theorem known_boolean_fails_exactly_if_misjudged_lookupCall :
    Corresponds (LookupCall.scripts Unit) LookupCall.sources ∧
      (LookupCall.script Unit).Compiled ⟨LookupCall.program, #[⟨0⟩]⟩ ∧
      LookupCall.program.Consistent ∧
      ¬Trips { maxDepth := 2 } LookupCall.host (LookupCall.scripts Unit) (LookupCall.script Unit) [.bool true]
        ⟨.internAll .empty ["f"], ()⟩ :=
  ⟨LookupCall.corresponds Unit, LookupCall.compiled Unit, LookupCall.consistent,
    (known_boolean_fails_exactly_if_misjudged (LookupCall.corresponds Unit) (LookupCall.compiled Unit) LookupCall.host
      { maxDepth := 2 } [.bool true] ⟨.internAll .empty ["f"], ()⟩).2.2 LookupCall.consistent
        LookupCall.sources_consistent⟩

/-- The negation of zero is done by a test that takes it for a Boolean. -/
theorem stale_mark_fails : StaleMark.script.Compiled ⟨StaleMark.program, #[]⟩ ∧ ¬StaleMark.program.Consistent ∧
    (execute { maxDepth := 1 } LookupCall.host (fun _ => none) 20 StaleMark.script [.int32 0] ⟨.empty, ()⟩).map
      Prod.fst =
      some (.error (.type (.notBoolean (.int32 0)))) ∧
    (Interpreter.interpret LookupCall.host (fun _ => .error .notCallable) 20 ⟨StaleMark.program, #[]⟩ [.int32 0] 0 1
      ⟨.empty, ()⟩).map Prod.fst = some (.ok (.bool true)) :=
  ⟨StaleMark.compiled, StaleMark.not_consistent, by cbv, by cbv⟩

end Machine
end BaselineTier
