/-
  BaselineTier.Proofs.Annotation — the types that are known of the operand stack, and the sites that follow from them.

  Compiling goes through the reachable instructions in the order of the code and carries the
  types of the operand stack along: from each instruction to the next in the code, whether
  control goes there or not, and over a place where control meets, where only the length is
  adjusted. Said apart from the compiler, this is `annotate`. A value that is known to be a
  Boolean is tested as it is (`Instruction.presumes`), so the types decide how many sites an
  instruction takes (`Instruction.sites`).
-/

import BaselineTier.Program.Basic
import BaselineTier.Instruction.Literal
import BaselineTier.Proofs.Reachability
import BaselineTier.Semantics.Conversion

namespace BaselineTier

/-! ## Types of values -/

namespace Value

theorem top_string (a : Atom) : (string a).top = 0xFFFB := by
  have hlt := a.index.toNat_lt
  simp only [top, string, tagged, UInt64.toNat_div, UInt64.toNat_add, UInt64.toNat_mul, UInt32.toNat_toUInt64]
  simp only [UInt64.reduceToNat]
  omega

theorem type_string (a : Atom) : (string a).type = .string := by
  rw [type, top_string]
  rfl

theorem asBool_bool (b : Bool) : (bool b).asBool = some b := by cases b <;> decide

theorem asBool_isSome_iff {v : Value} : v.asBool.isSome = true ↔ v.type = .boolean := by
  simp only [asBool, isBool, type]
  by_cases h : v.top = 0xFFFA
  · simp [h]
  · simp only [h, beq_iff_eq, if_false, Option.isSome_none, Bool.false_eq_true, false_iff]
    repeat' split
    all_goals simp

theorem truthy_of_asBool {v : Value} {b : Bool} (t : AtomTable) (h : v.asBool = some b) : v.truthy t = b := by
  have htype : v.type = .boolean := asBool_isSome_iff.mp (by rw [h]; rfl)
  rw [truthy, htype]
  simp only [h]
  cases b <;> rfl

end Value

/-! ## Types of the operand stack -/

abbrev Types := List (Option ValueType)

def Opcode.isTest : Opcode → Bool
  | ifEq | ifNe | andJump | orJump | logicalNot => true
  | _ => false

def Opcode.isRefused : Opcode → Bool
  | debugger | throwValue | lambda | arguments | enterWith | leaveWith => true
  | _ => false

namespace Types

def resize (ts : Types) (depth : Nat) : Types := ts.take depth ++ List.replicate (depth - ts.length) none

theorem length_resize (ts : Types) (depth : Nat) : (ts.resize depth).length = depth := by
  simp only [resize, List.length_append, List.length_take, List.length_replicate]
  omega

end Types

namespace Instruction

def typesAfter (i : Instruction) (ts : Types) : Types :=
  let below := ts.take (ts.length - i.pops)
  match i.opcode with
  | .setLocal | .setArg | .andJump | .orJump => ts
  | .dup => below ++ [ts.getLast?.join, ts.getLast?.join]
  | .dup2 => ts ++ [none, none]
  | .pushUndefined | .pushNull | .pushTrue | .pushFalse | .pushZero | .pushOne | .pushInt8 | .pushInt32
  | .pushDouble | .pushHole => below ++ [i.literal?.map Value.type]
  | .pushString => below ++ [some .string]
  | .eq | .ne | .strictEq | .strictNe | .lt | .le | .gt | .ge | .logicalNot => below ++ [some .boolean]
  | _ => below ++ List.replicate i.pushes none

theorem length_typesAfter {i : Instruction} {ts : Types} (h : i.pops ≤ ts.length) :
    (i.typesAfter ts).length = i.after ts.length := by
  simp only [typesAfter, after, pops, pushes] at *
  generalize i.opcode = op at h ⊢
  cases op <;> simp at h ⊢ <;> omega

def presumes (i : Instruction) (ts : Types) : Bool := i.opcode.isTest && ts.getLast? == some (some .boolean)

def sites (i : Instruction) (ts : Types) : Nat :=
  match i.opcode with
  | .add | .sub | .mul | .div | .mod | .bitAnd | .bitOr | .bitXor | .lsh | .rsh | .ursh | .incLocal | .decLocal => 1
  | .neg | .bitNot | .pos => 1
  | .eq | .ne | .strictEq | .strictNe | .lt | .le | .gt | .ge => 1
  | .getName | .setName | .getGlobal | .setGlobal | .getProp | .setProp | .getElem | .setElem | .call => 1
  | .ifEq | .ifNe | .andJump | .orJump | .logicalNot => if i.presumes ts then 0 else 1
  | _ => 0

theorem sites_le_one (i : Instruction) (ts : Types) : i.sites ts ≤ 1 := by
  unfold sites
  split <;> (try split) <;> omega

theorem sites_of_isTest {i : Instruction} (h : i.opcode.isTest = true) (ts : Types) :
    i.sites ts = if i.presumes ts then 0 else 1 := by
  unfold sites
  generalize i.opcode = op at h ⊢
  cases op <;> first | rfl | cases h

theorem presumes_of_isTest {i : Instruction} (h : i.opcode.isTest = true) {ts : Types} {known : Option ValueType}
    (hlast : ts.getLast? = some known) : i.presumes ts = (known == some .boolean) := by
  rw [presumes, h, hlast, Bool.true_and, Option.some_beq_some]

end Instruction

namespace StackMap

/-- The reachable instructions in the order of the code, each with the types known before it. -/
def annotate (m : StackMap) : List Instruction → Types → List (Instruction × Types)
  | [], _ => []
  | i :: rest, ts =>
    match m.info? i.offset with
    | none => annotate m rest ts
    | some info =>
      let ts := if info.jumpTarget then ts.resize info.depth else ts
      (i, ts) :: annotate m rest (i.typesAfter ts)

theorem mem_of_annotate {m : StackMap} {is : List Instruction} {ts : Types} {a : Instruction × Types}
    (h : a ∈ m.annotate is ts) :
    a.1 ∈ is := by
  induction is generalizing ts with
  | nil => cases h
  | cons i is ih =>
    simp only [annotate] at h
    split at h
    · exact List.mem_cons_of_mem _ (ih h)
    · rcases List.mem_cons.mp h with rfl | h
      · exact List.mem_cons_self
      · exact List.mem_cons_of_mem _ (ih h)

/-- The types before an instruction are found once. -/
theorem annotate_unique {m : StackMap} {code : List UInt8} {offset : Nat} {is : List Instruction} {ts : Types}
    {a b : Instruction × Types} (h : Instruction.Tiles code offset is) (ha : a ∈ m.annotate is ts)
    (hb : b ∈ m.annotate is ts) (ho : a.1.offset = b.1.offset) : a = b := by
  induction is generalizing offset ts with
  | nil => cases ha
  | cons i is ih =>
    have hlater : ∀ {c : Instruction × Types} {ts : Types}, c ∈ m.annotate is ts → i.offset < c.1.offset := fun hc =>
      Nat.lt_of_lt_of_le i.offset_lt_next (h.2.offset_le _ (mem_of_annotate hc))
    cases hinfo : m.info? i.offset with
    | none =>
      simp only [annotate, hinfo] at ha hb
      exact ih h.2 ha hb
    | some info =>
      simp only [annotate, hinfo] at ha hb
      rcases List.mem_cons.mp ha with rfl | ha'
      · rcases List.mem_cons.mp hb with rfl | hb'
        · rfl
        · exact absurd ho (Nat.ne_of_lt (hlater hb'))
      · rcases List.mem_cons.mp hb with rfl | hb'
        · exact absurd ho.symm (Nat.ne_of_lt (hlater ha'))
        · exact ih h.2 ha' hb'

def sites (m : StackMap) (is : List Instruction) (ts : Types) : Nat :=
  ((m.annotate is ts).map fun a => a.1.sites a.2).sum

theorem sites_skip {m : StackMap} {i : Instruction} (h : m.info? i.offset = none) (rest : List Instruction)
    (ts : Types) :
    m.sites (i :: rest) ts = m.sites rest ts := by
  simp only [sites, annotate, h]

theorem sites_code {m : StackMap} {i : Instruction} {info : Info} (h : m.info? i.offset = some info)
    (rest : List Instruction) {ts ts' : Types} (hts : (if info.jumpTarget then ts.resize info.depth else ts) = ts') :
    m.sites (i :: rest) ts = i.sites ts' + m.sites rest (i.typesAfter ts') := by
  subst hts
  simp only [sites, annotate, h, List.map_cons, List.sum_cons]

theorem sites_le_length (m : StackMap) (is : List Instruction) (ts : Types) : m.sites is ts ≤ is.length := by
  induction is generalizing ts with
  | nil => exact Nat.le_refl _
  | cons i is ih =>
    cases hinfo : m.info? i.offset with
    | none =>
      rw [sites_skip hinfo]
      exact Nat.le_succ_of_le (ih ts)
    | some info =>
      rw [sites_code hinfo is rfl, List.length_cons, Nat.add_comm]
      exact Nat.add_le_add (ih _) (i.sites_le_one _)

/-- The first instruction that can be reached and that this tier does not compile. -/
structure Refused (m : StackMap) (is : List Instruction) (i : Instruction) : Prop where
  mem : i ∈ is
  reachable : m.isReachable i.offset = true
  refused : i.opcode.isRefused = true
  first : ∀ j ∈ is, m.isReachable j.offset = true → j.offset < i.offset → j.opcode.isRefused = false

theorem Refused.cons {m : StackMap} {i j : Instruction} {rest : List Instruction} (h : m.Refused rest j)
    (hi : m.isReachable i.offset = true → i.opcode.isRefused = false) : m.Refused (i :: rest) j := by
  refine ⟨List.mem_cons_of_mem _ h.mem, h.reachable, h.refused, fun k hk hr hlt => ?_⟩
  rcases List.mem_cons.mp hk with rfl | hk
  · exact hi hr
  · exact h.first k hk hr hlt

end StackMap

namespace Program

def annotated (p : Program) : List (Instruction × Types) := p.stackMap.annotate p.instructions []

def sites (p : Program) : Nat := p.stackMap.sites p.instructions []

end Program
end BaselineTier
