/-
  BaselineTier.Interpreter — running bytecode without compiling it.

  The meaning of the bytecode: each instruction acts on an operand stack, local slots and
  arguments, and asks the same host for the same things as compiled code does. Truth is
  decided by conversion wherever an instruction tests a value. An activation that is
  nested too deeply fails before its first instruction.
-/

import BaselineTier.Host
import BaselineTier.Instruction.Literal
import BaselineTier.Program.Basic
import BaselineTier.Semantics.Operators

namespace BaselineTier

structure Source where
  program : Program
  names : Array Atom
deriving DecidableEq, Repr

/-- The source of a program whose names are all interned. -/
def Source.ofProgram? (p : Program) (atoms : AtomTable) : Option Source :=
  (p.atoms.mapM atoms.lookup).map fun names => { program := p, names }

structure Evaluation where
  source : Source
  /-- The offset of the next instruction. -/
  offset : Nat := 0
  /-- The operand stack, top first. -/
  operands : List Value := []
  slots : Array Value
  args : Array Value
deriving DecidableEq, Repr

namespace Evaluation

/-- The evaluation of a program that is called with arguments; missing ones are undefined. -/
def enter (s : Source) (args : List Value) : Evaluation :=
  let padding := List.replicate (s.program.args - args.length) Value.undefined
  { source := s, slots := Array.replicate s.program.slots .undefined, args := (args ++ padding).toArray }

def push (e : Evaluation) (v : Value) : Evaluation := { e with operands := v :: e.operands }

/-- The value of a slot; an index past the slots counts operands from the bottom. -/
def local? (e : Evaluation) (index : Nat) : Option Value :=
  if index < e.slots.size then e.slots[index]? else e.operands.reverse[index - e.slots.size]?

end Evaluation

inductive Effect where
  | goOn (e : Evaluation)
  /-- The script of that number is to be run; its result is pushed. -/
  | invoke (script : Nat) (args : List Value) (e : Evaluation)
  | finish (v : Value)
deriving DecidableEq, Repr

namespace Interpreter

variable {σ : Type}

abbrev Action (σ : Type) := Evaluation → Ask σ Effect

def goOn : Action σ := fun e => pure (.goOn e)

def push (v : Value) : Action σ := fun e => goOn (e.push v)

def one (act : Value → Action σ) : Action σ := fun e =>
  match e.operands with
  | a :: rest => act a { e with operands := rest }
  | [] => throw .stackUnderflow

/-- Takes the top two values, the deeper one first. -/
def two (act : Value → Value → Action σ) : Action σ := one fun b => one fun a => act a b

def three (act : Value → Value → Value → Action σ) : Action σ := one fun c => two fun a b => act a b c

/-- Takes the top value and puts it back after the action. -/
def keeping (act : Value → Ask σ Unit) : Action σ := one fun a e => do
  act a
  push a e

def jump (i : Instruction) : Action σ := fun e => goOn { e with offset := i.target?.getD e.offset }

def jumpIf (i : Instruction) (condition : Bool) (v : Value) : Action σ := fun e => do
  if v.truthy (← get).atoms = condition then jump i e else goOn e

def name (i : Instruction) (e : Evaluation) : Ask σ Atom :=
  match i.u32?.bind fun index => e.source.names[index.toNat]? with
  | some atom => pure atom
  | none => throw (.pcOutOfRange i.offset)

def arith (op : Opcode) (a b : Value) : Ask σ Value := do
  let (result, atoms) := Value.arith (← get).atoms op a b
  modify fun w => { w with atoms }
  match result with
  | .ok v => pure v
  | .error e => throw e

def getLocal (index : Nat) : Action σ := fun e =>
  match e.local? index with
  | some v => push v e
  | none => throw (.badAddress (.slot index))

def setLocal (index : Nat) : Action σ := one fun v e =>
  if index < e.slots.size then push v { e with slots := e.slots.setIfInBounds index v }
  else throw (.badAddress (.slot index))

def getArg (index : Nat) : Action σ := fun e =>
  match e.args[index]? with
  | some v => push v e
  | none => throw (.badAddress (.arg index))

def setArg (index : Nat) : Action σ := one fun v e =>
  if index < e.args.size then push v { e with args := e.args.setIfInBounds index v }
  else throw (.badAddress (.arg index))

/-- Steps a slot up or down by one and pushes what it then holds. -/
def stepLocal (op : Opcode) (index : Nat) : Action σ := fun e =>
  match e.local? index with
  | some v => do setLocal index (e.push (← arith op v (.int32 1)))
  | none => throw (.badAddress (.slot index))

/-- Callee, receiver and arguments are on the stack, the last argument on top. -/
def call (host : Host σ) (argc : Nat) : Action σ := fun e =>
  match (e.operands.take (argc + 2)).reverse with
  | callee :: this :: args => do
    if e.operands.length < argc + 2 then throw .stackUnderflow
    let e := { e with operands := e.operands.drop (argc + 2) }
    match ← host.call callee this args with
    | .value v => push v e
    | .invoke script => pure (.invoke script args e)
  | _ => throw .stackUnderflow

def act (host : Host σ) (i : Instruction) : Action σ :=
  match i.opcode with
  | .nop | .loopHead => goOn
  | .pop => one fun _ => goOn
  | .popN => fun e =>
    if i.count ≤ e.operands.length then goOn { e with operands := e.operands.drop i.count } else throw .stackUnderflow
  | .dup => one fun a e => push a (e.push a)
  | .dup2 => two fun a b e => push b (((e.push a).push b).push a)
  | .swap => two fun a b e => push a (e.push b)
  | .pushUndefined | .pushNull | .pushTrue | .pushFalse | .pushZero | .pushOne | .pushInt8 | .pushInt32
  | .pushDouble | .pushHole => fun e =>
    match i.literal? with
    | some v => push v e
    | none => throw (.pcOutOfRange i.offset)
  | .pushString => fun e => do push (.string (← name i e)) e
  | .getLocal => getLocal i.count
  | .setLocal => setLocal i.count
  | .getArg => getArg i.count
  | .setArg => setArg i.count
  | .incLocal => stepLocal .add i.count
  | .decLocal => stepLocal .sub i.count
  | .add | .sub | .mul | .div | .mod | .bitAnd | .bitOr | .bitXor | .lsh | .rsh | .ursh =>
    two fun a b e => do push (← arith i.opcode a b) e
  | .neg | .bitNot => one fun a e => do push (Value.unary (← get).atoms i.opcode a) e
  | .pos => one fun a e => do
    let number := Value.number (a.toNumber (← get).atoms)
    push (if a.isNumber then a else number) e
  | .logicalNot => one fun a e => do push (.bool !(a.truthy (← get).atoms)) e
  | .eq | .ne | .strictEq | .strictNe | .lt | .le | .gt | .ge =>
    two fun a b e => do push (.bool (Value.compare (← get).atoms i.opcode a b)) e
  | .goto => jump i
  | .ifEq => one (jumpIf i false)
  | .ifNe => one (jumpIf i true)
  | .andJump => one fun a e => jumpIf i false a (e.push a)
  | .orJump => one fun a e => jumpIf i true a (e.push a)
  | .getName => fun e => do push (← host.getName (← name i e)) e
  | .getGlobal => fun e => do push (← host.getGlobal (← name i e)) e
  | .setName => fun e => do keeping (host.setName (← name i e)) e
  | .setGlobal => fun e => do keeping (host.setGlobal (← name i e)) e
  | .getProp => one fun object e => do push (← host.getProperty object (.string (← name i e))) e
  | .setProp => two fun object v e => do
    host.setProperty object (.string (← name i e)) v
    push v e
  | .getElem => two fun object key e => do push (← host.getProperty object key) e
  | .setElem => three fun object key v e => do
    host.setProperty object key v
    push v e
  | .call => call host i.count
  | .ret => one fun v _ => pure (.finish v)
  | .stop => fun _ => pure (.finish .undefined)
  | .debugger | .throwValue | .lambda | .arguments | .enterWith | .leaveWith => fun _ => throw (.pcOutOfRange i.offset)

/-! ## Runs -/

abbrev Sources := Nat → Except RunError Source

structure Config (σ : Type) where
  world : World σ
  depth : Nat
  maxDepth : Nat
  current : Evaluation
  callers : List Evaluation := []

inductive Progress (σ : Type) where
  | running (c : Config σ)
  | ended (result : Except RunError Value) (world : World σ)

/-- Opens an evaluation, unless it is nested too deeply. -/
def open? (s : Source) (args : List Value) (depth maxDepth : Nat) : Except RunError Evaluation :=
  if maxDepth < depth then .error (.stackOverflow depth) else .ok (.enter s args)

def step (host : Host σ) (sources : Sources) (c : Config σ) : Progress σ :=
  let e := c.current
  match Instruction.decodeAt e.source.program.code e.offset with
  | .error _ => .ended (.error (.pcOutOfRange e.offset)) c.world
  | .ok i =>
    match act host i { e with offset := i.next } c.world with
    | .error err world => .ended (.error err) world
    | .ok (.goOn e) world => .running { c with world, current := e }
    | .ok (.invoke script args e) world =>
      match sources script >>= fun s => open? s args (c.depth + 1) c.maxDepth with
      | .error err => .ended (.error err) world
      | .ok callee => .running { c with world, depth := c.depth + 1, current := callee, callers := e :: c.callers }
    | .ok (.finish v) world =>
      match c.callers with
      | [] => .ended (.ok v) world
      | caller :: callers => .running { c with world, depth := c.depth - 1, current := caller.push v, callers }

/-- Interprets for at most `fuel` steps; `none` if that is not enough. -/
def run (host : Host σ) (sources : Sources) : Nat → Config σ → Option (Except RunError Value × World σ)
  | 0, _ => none
  | fuel + 1, c =>
    match step host sources c with
    | .running c => run host sources fuel c
    | .ended result world => some (result, world)

def start (s : Source) (args : List Value) (depth maxDepth : Nat) (world : World σ) : Except RunError (Config σ) :=
  (open? s args (depth + 1) maxDepth).map fun current => { world, depth := depth + 1, maxDepth, current }

def interpret (host : Host σ) (sources : Sources) (fuel : Nat) (s : Source) (args : List Value) (depth maxDepth : Nat)
    (world : World σ) : Option (Except RunError Value × World σ) :=
  match start s args depth maxDepth world with
  | .error e => some (.error e, world)
  | .ok c => run host sources fuel c

end Interpreter
end BaselineTier
