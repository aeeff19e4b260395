/-
  BaselineTier.CompileError — why a script was not compiled.
-/

import BaselineTier.Cache.Kind
import BaselineTier.Code.Linked
import BaselineTier.Instruction.Decoding
import BaselineTier.Text.Quoted

namespace BaselineTier

inductive Bailout where
  | unsupported (opcode : Opcode) (offset : Nat)
  | argumentsObject
  | tooLarge (length limit : Nat)
deriving DecidableEq, Repr

def Bailout.message : Bailout → String
  | unsupported opcode offset => s!"unsupported opcode {opcode.name} at offset {offset}"
  | argumentsObject => "script needs an arguments object"
  | tooLarge length limit => s!"script length {length} exceeds limit {limit}"

inductive CompileError where
  | cantCompile (reason : Bailout)
  | tableFull (limit : Nat)
  | stubsExhausted (limit : Nat)
  | noFallback (kind : SiteKind)
  | labels (count : Nat)
  | unknownSite (index : Nat)
  | unknownAtom (text : String)
  | link (cause : LinkError)
  | bytecode (cause : DecodeError)
deriving DecidableEq, Repr

inductive Status where
  | compiled
  /-- The script uses something that this tier does not handle. -/
  | cantCompile
  /-- Something ran out, or the code could not be placed. -/
  | error
deriving DecidableEq, Repr

def Status.name : Status → String
  | compiled => "Compiled"
  | cantCompile => "CantCompile"
  | error => "Error"

namespace CompileError

def message : CompileError → String
  | cantCompile reason => "Can't compile: " ++ reason.message
  | tableFull limit => s!"IC entry table full ({limit} entries)"
  | stubsExhausted limit => s!"Stub space exhausted ({limit} stubs)"
  | noFallback kind => "No fallback stub for " ++ kind.text
  | labels count => s!"Failed to reserve {count} labels"
  | unknownSite index => s!"No IC entry with index {index}"
  | unknownAtom text => "Atom " ++ Text.quoted text ++ " is not interned"
  | link cause => "Link error: " ++ cause.message
  | bytecode cause => "Bytecode error: " ++ cause.message

def status : CompileError → Status
  | cantCompile _ => .cantCompile
  | _ => .error

end CompileError

/-- Room for more labels: a label takes eight bytes, and no array of them exceeds the 63-bit address range. -/
def CodeBuffer.reserve (b : CodeBuffer) (count : Nat) : Except CompileError Unit :=
  if 8 * (b.labels.size + count) < 2 ^ 63 then .ok () else .error (.labels count)

end BaselineTier
