/-
  BaselineTier.Proofs.Recording — what a host is asked for.

  A host can be made to keep a record of the operations it is asked for, in order
  (`Host.recording`). The record is part of the host's own state and has no influence on
  anything else: an interpretation with it is the interpretation without it
  (`interpret_records`). So two runs that leave the same recorded world have asked for the same
  operations.
-/

import BaselineTier.Interpreter
import Mathlib

namespace BaselineTier

variable {σ α γ : Type}

/-! ## Recorded operations -/

inductive Query where
  | getName (name : Atom)
  | setName (name : Atom) (value : Value)
  | getGlobal (name : Atom)
  | setGlobal (name : Atom) (value : Value)
  | getProperty (object key : Value)
  | setProperty (object key value : Value)
  | call (callee this : Value) (args : List Value)
deriving DecidableEq, Repr

namespace World

def recorded (w : World σ) (log : List Query) : World (σ × List Query) := ⟨w.atoms, w.host, log⟩

def plain (w : World (σ × List Query)) : World σ := ⟨w.atoms, w.host.1⟩

end World

namespace Host

def noted (q : Query) (x : Ask σ α) : Ask (σ × List Query) α := fun w =>
  match x w.plain with
  | .ok a w' => .ok a (w'.recorded (w.host.2 ++ [q]))
  | .error e w' => .error e (w'.recorded (w.host.2 ++ [q]))

def recording (host : Host σ) : Host (σ × List Query) where
  getName name := noted (.getName name) (host.getName name)
  setName name v := noted (.setName name v) (host.setName name v)
  getGlobal name := noted (.getGlobal name) (host.getGlobal name)
  setGlobal name v := noted (.setGlobal name v) (host.setGlobal name v)
  getProperty object key := noted (.getProperty object key) (host.getProperty object key)
  setProperty object key v := noted (.setProperty object key v) (host.setProperty object key v)
  call callee this args := noted (.call callee this args) (host.call callee this args)

end Host

/-- But for the record, one operation does what the other does. -/
def Ask.Records (x' : Ask (σ × List Query) α) (x : Ask σ α) : Prop :=
  ∀ w, match x' w with
    | .ok a w' => x w.plain = .ok a w'.plain
    | .error e w' => x w.plain = .error e w'.plain

namespace Ask.Records

theorem pure (a : α) : Records (Pure.pure a : Ask (σ × List Query) α) (Pure.pure a) := fun _ => rfl

theorem throw (e : RunError) : Records (MonadExcept.throw e : Ask (σ × List Query) α) (MonadExcept.throw e) :=
  fun _ => rfl

theorem noted (q : Query) (x : Ask σ α) : Records (Host.noted q x) x := by
  intro w
  simp only [Host.noted]
  cases x w.plain <;> rfl

theorem bind {x' : Ask (σ × List Query) α} {x : Ask σ α} {k' : α → Ask (σ × List Query) γ} {k : α → Ask σ γ}
    (h : Records x' x) (hk : ∀ a, Records (k' a) (k a)) : Records (x' >>= k') (x >>= k) := by
  intro w
  have hw := h w
  show match EStateM.bind x' k' w with
    | .ok a w' => EStateM.bind x k w.plain = .ok a w'.plain
    | .error e w' => EStateM.bind x k w.plain = .error e w'.plain
  simp only [EStateM.bind]
  cases hx : x' w with
  | ok a w' =>
    rw [hx] at hw
    simp only [show x w.plain = _ from hw]
    exact hk a w'
  | error e w' =>
    rw [hx] at hw
    simp only [show x w.plain = _ from hw]

end Ask.Records

namespace Interpreter

open Ask

theorem one_records {f' : Value → Action (σ × List Query)} {f : Value → Action σ} (h : ∀ v e, Records (f' v e) (f v e))
    (e : Evaluation) :
    Records (one f' e) (one f e) := by
  unfold one
  split
  · exact h _ _
  · exact .throw _

theorem two_records {f' : Value → Value → Action (σ × List Query)} {f : Value → Value → Action σ}
    (h : ∀ a b e, Records (f' a b e) (f a b e)) (e : Evaluation) : Records (two f' e) (two f e) :=
  one_records (fun b => one_records fun a => h a b) e

theorem arith_eq (op : Opcode) (x y : Value) (w : World σ) : arith op x y w =
    match Value.arith w.atoms op x y with
    | (.ok v, atoms) => .ok v { w with atoms }
    | (.error err, atoms) => .error err { w with atoms } := by
  unfold arith
  simp only [Bind.bind, EStateM.bind, get, getThe, MonadStateOf.get, EStateM.get]
  rcases Value.arith w.atoms op x y with ⟨result, atoms⟩
  cases result <;> rfl

theorem arith_records (op : Opcode) (x y : Value) :
    Records (arith op x y : Ask (σ × List Query) Value) (arith op x y) := by
  intro w
  have hatoms : w.plain.atoms = w.atoms := rfl
  rw [arith_eq, arith_eq, hatoms]
  rcases Value.arith w.atoms op x y with ⟨result, atoms⟩
  cases result <;> rfl

theorem name_records (i : Instruction) (e : Evaluation) :
    Records (name i e : Ask (σ × List Query) Atom) (name i e) := by
  unfold name
  split
  · exact .pure _
  · exact .throw _

theorem setLocal_records (index : Nat) (e : Evaluation) :
    Records (setLocal index e : Ask (σ × List Query) Effect) (setLocal index e) := by
  refine one_records (fun v e => ?_) e
  split
  · exact .pure _
  · exact .throw _

theorem setArg_records (index : Nat) (e : Evaluation) :
    Records (setArg index e : Ask (σ × List Query) Effect) (setArg index e) := by
  refine one_records (fun v e => ?_) e
  split
  · exact .pure _
  · exact .throw _

theorem jumpIf_records (i : Instruction) (condition : Bool) (v : Value) (e : Evaluation) :
    Records (jumpIf i condition v e : Ask (σ × List Query) Effect) (jumpIf i condition v e) := by
  intro w
  have hatoms : w.plain.atoms = w.atoms := rfl
  simp only [jumpIf, Bind.bind, EStateM.bind, get, getThe, MonadStateOf.get, EStateM.get, hatoms]
  by_cases h : v.truthy w.atoms = condition
  · simp only [if_pos h]
    rfl
  · simp only [if_neg h]
    rfl

theorem keeping_records {f' : Value → Ask (σ × List Query) Unit} {f : Value → Ask σ Unit}
    (h : ∀ v, Records (f' v) (f v)) (e : Evaluation) : Records (keeping f' e) (keeping f e) :=
  one_records (fun v _ => (h v).bind fun _ => .pure _) e

theorem call_records (host : Host σ) (argc : Nat) (e : Evaluation) :
    Records (call host.recording argc e) (call host argc e) := by
  unfold call
  split
  · split
    · exact .throw _
    · refine (Records.noted _ _).bind fun answer => ?_
      cases answer <;> exact .pure _
  · exact .throw _

theorem act_records (host : Host σ) (i : Instruction) (e : Evaluation) :
    Records (act host.recording i e) (act host i e) := by
  obtain ⟨offset, op, operand, size⟩ := i
  cases op
  all_goals simp only [act]
  case nop | loopHead => exact .pure _
  case pop => exact one_records (fun _ _ => .pure _) e
  case popN =>
    split
    · exact .pure _
    · exact .throw _
  case dup => exact one_records (fun _ _ => .pure _) e
  case dup2 | swap => exact two_records (fun _ _ _ => .pure _) e
  case pushUndefined | pushNull | pushTrue | pushFalse | pushZero | pushOne | pushInt8 | pushInt32 | pushDouble |
    pushHole =>
    split
    · exact .pure _
    · exact .throw _
  case pushString => exact (name_records _ e).bind fun _ => .pure _
  case getLocal =>
    unfold getLocal
    split
    · exact .pure _
    · exact .throw _
  case setLocal => exact setLocal_records _ e
  case getArg =>
    unfold getArg
    split
    · exact .pure _
    · exact .throw _
  case setArg => exact setArg_records _ e
  case incLocal | decLocal =>
    unfold stepLocal
    split
    · exact (arith_records _ _ _).bind fun _ => setLocal_records _ _
    · exact .throw _
  case add | sub | mul | div | mod | bitAnd | bitOr | bitXor | lsh | rsh | ursh =>
    exact two_records (fun _ _ _ => (arith_records _ _ _).bind fun _ => .pure _) e
  case neg | bitNot | pos | logicalNot => exact one_records (fun _ _ w => rfl) e
  case eq | ne | strictEq | strictNe | lt | le | gt | ge => exact two_records (fun _ _ _ w => rfl) e
  case goto => exact .pure _
  case ifEq | ifNe => exact one_records (jumpIf_records _ _) e
  case andJump | orJump => exact one_records (fun v e => jumpIf_records _ _ v _) e
  case getName | getGlobal => exact (name_records _ e).bind fun _ => (Records.noted _ _).bind fun _ => .pure _
  case setName | setGlobal => exact (name_records _ e).bind fun _ => keeping_records (fun _ => .noted _ _) e
  case getProp =>
    exact one_records (fun _ e => (name_records _ e).bind fun _ => (Records.noted _ _).bind fun _ => .pure _) e
  case setProp =>
    exact two_records (fun _ _ e => (name_records _ e).bind fun _ => (Records.noted _ _).bind fun _ => .pure _) e
  case getElem => exact two_records (fun _ _ _ => (Records.noted _ _).bind fun _ => .pure _) e
  case setElem => exact one_records (fun _ => two_records fun _ _ _ => (Records.noted _ _).bind fun _ => .pure _) e
  case call => exact call_records host _ e
  case ret => exact one_records (fun _ _ => .pure _) e
  case stop => exact .pure _
  case debugger | throwValue | lambda | arguments | enterWith | leaveWith => exact .throw _

def Config.plain (k : Config (σ × List Query)) : Config σ := ⟨k.world.plain, k.depth, k.maxDepth, k.current, k.callers⟩

def Progress.plain : Progress (σ × List Query) → Progress σ
  | .running k => .running k.plain
  | .ended r w => .ended r w.plain

theorem step_records (host : Host σ) (sources : Sources) (k : Config (σ × List Query)) :
    step host sources k.plain = (step host.recording sources k).plain := by
  obtain ⟨world, depth, maxDepth, e, callers⟩ := k
  simp only [step, Config.plain]
  cases Instruction.decodeAt e.source.program.code e.offset with
  | error err => rfl
  | ok i =>
    have hact := act_records host i { e with offset := i.next } world
    simp only
    cases hr : act host.recording i { e with offset := i.next } world with
    | error err w =>
      rw [hr] at hact
      rw [show act host i _ world.plain = _ from hact]
      rfl
    | ok effect w =>
      rw [hr] at hact
      rw [show act host i _ world.plain = _ from hact]
      cases effect with
      | goOn e => rfl
      | invoke script args e =>
        simp only
        cases sources script >>= fun s => open? s args (depth + 1) maxDepth <;> rfl
      | finish v => cases callers <;> rfl

theorem run_records (host : Host σ) (sources : Sources) (fuel : Nat) (k : Config (σ × List Query)) :
    run host sources fuel k.plain = (run host.recording sources fuel k).map fun (r, w) => (r, w.plain) := by
  induction fuel generalizing k with
  | zero => rfl
  | succ fuel ih =>
    rw [run, run, step_records]
    cases step host.recording sources k with
    | running k' => exact ih k'
    | ended r w => rfl

/-- With the record, the interpretation is what it is without. -/
theorem interpret_records (host : Host σ) (sources : Sources) (fuel : Nat) (s : Source) (args : List Value)
    (depth maxDepth : Nat) (w : World (σ × List Query)) : interpret host sources fuel s args depth maxDepth w.plain =
      (interpret host.recording sources fuel s args depth maxDepth w).map fun (r, w) => (r, w.plain) := by
  unfold interpret start
  cases open? s args (depth + 1) maxDepth with
  | error err => rfl
  | ok e => exact run_records host sources fuel ⟨w, depth + 1, maxDepth, e, []⟩

end Interpreter
end BaselineTier
