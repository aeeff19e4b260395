/-
  BaselineTier.VirtualStack.Basic — the operand stack as the compiler sees it.

  For every entry the picture records where the value lives: a constant, a register, the
  slot or argument it was read from, or the operand stack of the running code. Code is
  emitted only when a value has to move, so every operation answers the moves to emit
  together with the picture that holds after them.

  Two rules keep the picture in step with the running code:
  - the entries that are written out are the lowest ones, each at its own place, so the
    height of the running operand stack is their number;
  - a register belongs to at most one entry. To claim a register is to write out its
    owner, and everything below the owner, first.

  Depths and places are counted without bound. They are kept in 32 bits, which a picture of
  2^32 entries or more would outgrow; heights of code are checked with 32 bits
  (`Move.height`).
-/

import BaselineTier.Breach

namespace BaselineTier

/-- The entries of the operand stack, from the bottom up. -/
structure VirtualStack where
  entries : List Entry := []
deriving DecidableEq, Repr, Inhabited

namespace VirtualStack

def empty : VirtualStack := {}

def depth (s : VirtualStack) : Nat := s.entries.length

/-- How many entries, from the bottom, are written out. -/
def spilledCount (s : VirtualStack) : Nat := (s.entries.takeWhile (·.place.isSpilled)).length

/-- The `n`-th entry from the top; the top is the first. -/
def peek (s : VirtualStack) (n : Nat) : Except Breach Entry :=
  if 1 ≤ n then
    match s.entries.reverse[n - 1]? with
    | some e => .ok e
    | none => .error (.peek n s.depth)
  else .error (.peek n s.depth)

def addressOf (s : VirtualStack) (n : Nat) : Except Breach Address := do
  let e ← s.peek n
  match e.place.address? with
  | some address => pure address
  | none => throw (.noAddress e.place)

/-! ## Writing entries out -/

/-- The entry at place `index` as it is once it is written out. -/
def spillAt (index : Nat) (e : Entry) : Entry := if e.place.isSpilled then e else { e with place := .spilled index }

def flush (s : VirtualStack) (count : Nat) : List Move × VirtualStack :=
  ((s.entries.take count).flatMap (·.place.spill),
   ⟨(s.entries.take count).mapIdx spillAt ++ s.entries.drop count⟩)

def flushBelow (s : VirtualStack) (keep : Nat) : List Move × VirtualStack := s.flush (s.depth - keep)

/-- How many of the lowest entries reach up to the last one below the top that lives at `place`. -/
def aliasReach (s : VirtualStack) (place : Place) : Nat :=
  (s.entries.dropLast.reverse.dropWhile (·.place != place)).length

/-- Writes out the entries below the top that still live at `place`, and what is below them. -/
def flushAliases (s : VirtualStack) (place : Place) : List Move × VirtualStack := s.flush (s.aliasReach place)

/-! ## Pushing -/

def claims (reg : Reg) (e : Entry) : Bool := e.place.register? == some reg

def evict (s : VirtualStack) (reg : Reg) : List Move × VirtualStack :=
  match s.entries.findIdx? (claims reg) with
  | some index => s.flush (index + 1)
  | none => ([], s)

/-- Adds an entry on top without a look at the others. -/
def add (s : VirtualStack) (e : Entry) : VirtualStack := ⟨s.entries ++ [e]⟩

def push (s : VirtualStack) (e : Entry) : List Move × VirtualStack :=
  match e.place.register? with
  | some reg => ((s.evict reg).1, (s.evict reg).2.add e)
  | none => ([], s.add e)

def pushSlot (s : VirtualStack) (slots index : Nat) : Except Breach (List Move × VirtualStack) :=
  if index < slots then .ok (s.push ⟨.slot index, none⟩) else .error (.noSlot index)

def pushArg (s : VirtualStack) (args index : Nat) : Except Breach (List Move × VirtualStack) :=
  if index < args then .ok (s.push ⟨.arg index, none⟩) else .error (.noArg index)

def pushScratch (s : VirtualStack) : List Move × VirtualStack :=
  let (moves, s) := s.flushBelow 0
  (moves ++ [.pushFrom .scratch], s.add ⟨.spilled s.depth, none⟩)

/-! ## Popping -/

def popInto (s : VirtualStack) (dst : Reg) : Except Breach (List Move × VirtualStack) :=
  match s.entries.getLast? with
  | some e => .ok (e.place.load dst, ⟨s.entries.dropLast⟩)
  | none => .error .popEmpty

def drop (s : VirtualStack) (n : Nat) : Except Breach (List Move × VirtualStack) :=
  if n ≤ s.depth then
    let kept := s.entries.take (s.depth - n)
    let gone := s.entries.drop (s.depth - n)
    .ok (Move.dropping (gone.countP (·.place.isSpilled)), ⟨kept⟩)
  else .error (.popMany n s.depth)

def popOne (s : VirtualStack) : Except Breach (List Move × VirtualStack) := do
  if s.depth < 1 then throw (.popRegisters 1 s.depth)
  let (flushing, s) := s.flushBelow 1
  let (taking, s) ← s.popInto .r0
  pure (flushing ++ taking, s)

/-- Gets the second value out of `r1`, which the top value is about to take: into `r2`, or onto the stack if the top
    value is there. -/
def clearSecond (s : VirtualStack) : List Move × VirtualStack :=
  match s.entries.reverse with
  | top :: second :: below =>
    if claims .r1 second then
      if claims .r2 top then s.flush (s.depth - 1)
      else ([.copy .r1 .r2], ⟨(top :: { second with place := .register .r2 } :: below).reverse⟩)
    else ([], s)
  | _ => ([], s)

def popTwo (s : VirtualStack) : Except Breach (List Move × VirtualStack) := do
  if s.depth < 2 then throw (.popRegisters 2 s.depth)
  let (flushing, s) := s.flushBelow 2
  let (clearing, s) := s.clearSecond
  let (top, s) ← s.popInto .r1
  let (second, s) ← s.popInto .r0
  pure (flushing ++ clearing ++ top ++ second, s)

def popRegisters (s : VirtualStack) : Nat → Except Breach (List Move × VirtualStack)
  | 1 => s.popOne
  | 2 => s.popTwo
  | uses => .error (.popRegisters uses s.depth)

/-! ## Registers, merges, rules -/

def unclaimed? (s : VirtualStack) : Option Reg := Reg.all.find? fun reg => !s.entries.any (claims reg)

/-- A register that no entry claims; if all are claimed, all entries but the top are written out first. -/
def freeRegister (s : VirtualStack) : Reg × List Move × VirtualStack :=
  match s.unclaimed? with
  | some reg => (reg, [], s)
  | none =>
    let (moves, s) := s.flushBelow 1
    (s.unclaimed?.getD .r0, moves, s)

/-- The picture where control meets with `depth` values on the stack: entries are dropped, or written-out ones added. -/
def resize (s : VirtualStack) (depth : Nat) : VirtualStack :=
  ⟨s.entries.take depth ++ (List.range' s.depth (depth - s.depth)).map fun index => ⟨.spilled index, none⟩⟩

/-- The rule that entry `index` breaks, if any, when the lowest `spilled` entries are written out. -/
def breachAt (s : VirtualStack) (spilled index : Nat) (e : Entry) : Option Breach :=
  match e.place with
  | .spilled place =>
    if spilled ≤ index then some (.spilledAbove index)
    else if place ≠ index then some (.spilledElsewhere index place)
    else none
  | .register reg =>
    let times := s.entries.countP (claims reg)
    if times ≠ 1 then some (.claimed reg times) else none
  | _ => none

def breach? (s : VirtualStack) : Option Breach := (s.entries.mapIdx (s.breachAt s.spilledCount)).findSome? id

def check (s : VirtualStack) : Except Breach Unit :=
  match s.breach? with
  | some breach => .error breach
  | none => .ok ()

end VirtualStack
end BaselineTier
