/-
  BaselineTier.Opcode — the operations of the stack bytecode.

  One byte names an operation. Its operand format is fixed, so the length of an
  instruction follows from its first byte. The tables here are the whole vocabulary:
  bytes, mnemonics, operand formats and the classes of operations that the verifier and
  the compiler tell apart. `ofByte?` reads back exactly the bytes that `byte` gives.
-/

namespace BaselineTier

inductive Opcode where
  | nop | loopHead | pop | popN | dup | dup2 | swap
  | pushUndefined | pushNull | pushTrue | pushFalse | pushZero | pushOne | pushInt8 | pushInt32 | pushDouble |
    pushString | pushHole
  | getLocal | setLocal | getArg | setArg | incLocal | decLocal
  | add | sub | mul | div | mod | bitAnd | bitOr | bitXor | lsh | rsh | ursh
  | neg | pos | bitNot | logicalNot
  | eq | ne | strictEq | strictNe | lt | le | gt | ge
  | goto | ifEq | ifNe | andJump | orJump
  | getName | setName | getGlobal | setGlobal | getProp | setProp | getElem | setElem | call
  | ret | stop
  | debugger | throwValue | lambda | arguments | enterWith | leaveWith
deriving DecidableEq, Repr, Inhabited

inductive OperandFormat where
  | none | i8 | u16 | i32 | u32 | f64 | jump
deriving DecidableEq, Repr, Inhabited

namespace OperandFormat

def size : OperandFormat → Nat
  | none => 0
  | i8 => 1
  | u16 => 2
  | i32 | u32 | jump => 4
  | f64 => 8

def name : OperandFormat → String
  | none => "None"
  | i8 => "I8"
  | u16 => "U16"
  | i32 => "I32"
  | u32 => "U32"
  | f64 => "F64"
  | jump => "Jump"

end OperandFormat

namespace Opcode

def all : List Opcode := [
  nop, loopHead, pop, popN, dup, dup2, swap, pushUndefined, pushNull, pushTrue, pushFalse, pushZero,
  pushOne, pushInt8, pushInt32, pushDouble, pushString, pushHole, getLocal, setLocal, getArg, setArg,
  incLocal, decLocal, add, sub, mul, div, mod, bitAnd, bitOr, bitXor, lsh, rsh, ursh, neg, pos, bitNot,
  logicalNot, eq, ne, strictEq, strictNe, lt, le, gt, ge, goto, ifEq, ifNe, andJump, orJump, getName,
  setName, getGlobal, setGlobal, getProp, setProp, getElem, setElem, call, ret, stop, debugger, throwValue,
  lambda, arguments, enterWith, leaveWith]

def byte : Opcode → UInt8
  | nop => 0x00
  | loopHead => 0x01
  | pop => 0x02
  | popN => 0x03
  | dup => 0x04
  | dup2 => 0x05
  | swap => 0x06
  | pushUndefined => 0x08
  | pushNull => 0x09
  | pushTrue => 0x0A
  | pushFalse => 0x0B
  | pushZero => 0x0C
  | pushOne => 0x0D
  | pushInt8 => 0x0E
  | pushInt32 => 0x0F
  | pushDouble => 0x10
  | pushString => 0x11
  | pushHole => 0x12
  | getLocal => 0x18
  | setLocal => 0x19
  | getArg => 0x1A
  | setArg => 0x1B
  | incLocal => 0x1C
  | decLocal => 0x1D
  | add => 0x20
  | sub => 0x21
  | mul => 0x22
  | div => 0x23
  | mod => 0x24
  | bitAnd => 0x25
  | bitOr => 0x26
  | bitXor => 0x27
  | lsh => 0x28
  | rsh => 0x29
  | ursh => 0x2A
  | neg => 0x30
  | pos => 0x31
  | bitNot => 0x32
  | logicalNot => 0x33
  | eq => 0x38
  | ne => 0x39
  | strictEq => 0x3A
  | strictNe => 0x3B
  | lt => 0x3C
  | le => 0x3D
  | gt => 0x3E
  | ge => 0x3F
  | goto => 0x40
  | ifEq => 0x41
  | ifNe => 0x42
  | andJump => 0x43
  | orJump => 0x44
  | getName => 0x50
  | setName => 0x51
  | getGlobal => 0x52
  | setGlobal => 0x53
  | getProp => 0x54
  | setProp => 0x55
  | getElem => 0x56
  | setElem => 0x57
  | call => 0x58
  | ret => 0x60
  | stop => 0x61
  | debugger => 0x70
  | throwValue => 0x71
  | lambda => 0x72
  | arguments => 0x73
  | enterWith => 0x74
  | leaveWith => 0x75

def ofByte? (b : UInt8) : Option Opcode := all.find? fun op => op.byte == b

def name : Opcode → String
  | nop => "NOP"
  | loopHead => "LOOPHEAD"
  | pop => "POP"
  | popN => "POPN"
  | dup => "DUP"
  | dup2 => "DUP2"
  | swap => "SWAP"
  | pushUndefined => "UNDEFINED"
  | pushNull => "NULL"
  | pushTrue => "TRUE"
  | pushFalse => "FALSE"
  | pushZero => "ZERO"
  | pushOne => "ONE"
  | pushInt8 => "INT8"
  | pushInt32 => "INT32"
  | pushDouble => "DOUBLE"
  | pushString => "STRING"
  | pushHole => "HOLE"
  | getLocal => "GETLOCAL"
  | setLocal => "SETLOCAL"
  | getArg => "GETARG"
  | setArg => "SETARG"
  | incLocal => "INCLOCAL"
  | decLocal => "DECLOCAL"
  | add => "ADD"
  | sub => "SUB"
  | mul => "MUL"
  | div => "DIV"
  | mod => "MOD"
  | bitAnd => "BITAND"
  | bitOr => "BITOR"
  | bitXor => "BITXOR"
  | lsh => "LSH"
  | rsh => "RSH"
  | ursh => "URSH"
  | neg => "NEG"
  | pos => "POS"
  | bitNot => "BITNOT"
  | logicalNot => "NOT"
  | eq => "EQ"
  | ne => "NE"
  | strictEq => "STRICTEQ"
  | strictNe => "STRICTNE"
  | lt => "LT"
  | le => "LE"
  | gt => "GT"
  | ge => "GE"
  | goto => "GOTO"
  | ifEq => "IFEQ"
  | ifNe => "IFNE"
  | andJump => "AND"
  | orJump => "OR"
  | getName => "GETNAME"
  | setName => "SETNAME"
  | getGlobal => "GETGLOBAL"
  | setGlobal => "SETGLOBAL"
  | getProp => "GETPROP"
  | setProp => "SETPROP"
  | getElem => "GETELEM"
  | setElem => "SETELEM"
  | call => "CALL"
  | ret => "RETURN"
  | stop => "STOP"
  | debugger => "DEBUGGER"
  | throwValue => "THROW"
  | lambda => "LAMBDA"
  | arguments => "ARGUMENTS"
  | enterWith => "ENTERWITH"
  | leaveWith => "LEAVEWITH"

instance : ToString Opcode := ⟨name⟩

def ofName? (s : String) : Option Opcode := all.find? fun op => op.name == s

def format : Opcode → OperandFormat
  | pushInt8 => .i8
  | popN | getLocal | setLocal | getArg | setArg | incLocal | decLocal | call => .u16
  | pushInt32 => .i32
  | pushString | getName | setName | getGlobal | setGlobal | getProp | setProp | lambda => .u32
  | pushDouble => .f64
  | goto | ifEq | ifNe | andJump | orJump => .jump
  | _ => .none

def length (op : Opcode) : Nat := 1 + op.format.size

def isJump (op : Opcode) : Bool := op.format == .jump

def isConditional : Opcode → Bool
  | ifEq | ifNe | andJump | orJump => true
  | _ => false

def fallsThrough : Opcode → Bool
  | goto | ret | stop | throwValue => false
  | _ => true

def isReturn : Opcode → Bool
  | ret | stop => true
  | _ => false

def isLocalAccess : Opcode → Bool
  | getLocal | setLocal | incLocal | decLocal => true
  | _ => false

def isArgAccess : Opcode → Bool
  | getArg | setArg => true
  | _ => false

def hasAtom : Opcode → Bool
  | pushString | getName | setName | getGlobal | setGlobal | getProp | setProp => true
  | _ => false

def isArith : Opcode → Bool
  | add | sub | mul | div | mod | bitAnd | bitOr | bitXor | lsh | rsh | ursh => true
  | _ => false

def isCompare : Opcode → Bool
  | eq | ne | strictEq | strictNe | lt | le | gt | ge => true
  | _ => false

end Opcode
end BaselineTier
