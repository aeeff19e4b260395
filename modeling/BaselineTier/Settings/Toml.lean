/-
  BaselineTier.Settings.Toml — settings read from a TOML document.

  Settings are whole numbers and one Boolean under top-level keys, so the documents that
  can be settings are the ones whose lines are blank, a comment, or a key with an integer
  or a Boolean; anything else that TOML allows (tables, dotted keys, strings, floats, dates,
  arrays) has no place in settings and is refused together with what TOML forbids. A key
  is given once at most, and a key that is no setting is refused.
-/

import BaselineTier.Settings.Basic

namespace BaselineTier
namespace Toml

inductive Scalar where
  | int (n : Int)
  | bool (b : Bool)
deriving DecidableEq, Repr

/-! ## Characters -/

def isSpace (c : Char) : Bool := c == ' ' || c == '\t'

/-- What a comment or a quoted key may hold: no ASCII control character but the tab. -/
def isTextChar (c : Char) : Bool := c == '\t' || (0x20 ≤ c.toNat && c.toNat != 0x7F)

def isBareChar (c : Char) : Bool := c.isAlphanum || c == '_' || c == '-'

def digit? (base : Nat) (c : Char) : Option Nat :=
  let n := if c.isDigit then c.toNat - 48
    else if 'a' ≤ c ∧ c ≤ 'f' then c.toNat - 87
    else if 'A' ≤ c ∧ c ≤ 'F' then c.toNat - 55
    else 16
  if n < base then some n else none

/-! ## Values -/

/-- Digits, with single underscores between them. -/
def digits (base : Nat) : List Char → (afterDigit : Bool) → Nat → Option Nat
  | [], afterDigit, n => if afterDigit then some n else none
  | c :: rest, afterDigit, n =>
    if c == '_' then (if afterDigit then digits base rest false n else none)
    else match digit? base c with
      | some d => digits base rest true (n * base + d)
      | none => none

/-- A decimal number without a needless zero in front. -/
def decimal (cs : List Char) : Option Nat :=
  match cs with
  | '0' :: _ :: _ => none
  | _ => digits 10 cs false 0

def integer (cs : List Char) : Option Int :=
  let n : Option Int := match cs with
    | '0' :: 'x' :: rest => (digits 16 rest false 0).map Int.ofNat
    | '0' :: 'o' :: rest => (digits 8 rest false 0).map Int.ofNat
    | '0' :: 'b' :: rest => (digits 2 rest false 0).map Int.ofNat
    | '-' :: rest => (decimal rest).map fun n => -(n : Int)
    | '+' :: rest => (decimal rest).map Int.ofNat
    | _ => (decimal cs).map Int.ofNat
  n.filter fun n => -(2 ^ 63) ≤ n ∧ n < 2 ^ 63

def scalar (cs : List Char) : Option Scalar :=
  if cs == ['t', 'r', 'u', 'e'] then some (.bool true)
  else if cs == ['f', 'a', 'l', 's', 'e'] then some (.bool false)
  else (integer cs).map .int

/-! ## Keys -/

def codePoint (cs : List Char) : Option Char :=
  (cs.mapM (digit? 16)).bind fun ds =>
    let n := ds.foldl (fun n d => 16 * n + d) 0
    if n.isValidChar then some (Char.ofNat n) else none

def basicKey : List Char → List Char → Option (List Char × List Char)
  | '"' :: rest, key => some (key.reverse, rest)
  | '\\' :: 'b' :: rest, key => basicKey rest ('\x08' :: key)
  | '\\' :: 't' :: rest, key => basicKey rest ('\t' :: key)
  | '\\' :: 'n' :: rest, key => basicKey rest ('\n' :: key)
  | '\\' :: 'f' :: rest, key => basicKey rest ('\x0c' :: key)
  | '\\' :: 'r' :: rest, key => basicKey rest ('\r' :: key)
  | '\\' :: '"' :: rest, key => basicKey rest ('"' :: key)
  | '\\' :: '\\' :: rest, key => basicKey rest ('\\' :: key)
  | '\\' :: 'u' :: a :: b :: c :: d :: rest, key =>
    (codePoint [a, b, c, d]).bind fun ch => basicKey rest (ch :: key)
  | '\\' :: 'U' :: a :: b :: c :: d :: e :: f :: g :: h :: rest, key =>
    (codePoint [a, b, c, d, e, f, g, h]).bind fun ch => basicKey rest (ch :: key)
  | '\\' :: _, _ => none
  | c :: rest, key => if isTextChar c then basicKey rest (c :: key) else none
  | [], _ => none

def key : List Char → Option (List Char × List Char)
  | '"' :: rest => basicKey rest []
  | '\'' :: rest =>
    let text := rest.takeWhile (· != '\'')
    if text.all isTextChar then
      match rest.dropWhile (· != '\'') with
      | _ :: after => some (text, after)
      | [] => none
    else none
  | cs =>
    let text := cs.takeWhile isBareChar
    if text.isEmpty then none else some (text, cs.dropWhile isBareChar)

/-! ## Lines -/

/-- What a line may end in: spaces, then a comment if any. -/
def isEnding (cs : List Char) : Bool :=
  match cs.dropWhile isSpace with
  | [] => true
  | c :: rest => c == '#' && rest.all isTextChar

/-- The assignment of a line that has one; `none` for a line that is none of these. -/
def line (cs : List Char) : Option (Option (String × Scalar)) :=
  if isEnding cs then some none else
    (key (cs.dropWhile isSpace)).bind fun (name, rest) =>
      match rest.dropWhile isSpace with
      | '=' :: rest =>
        let rest := rest.dropWhile isSpace
        let token (c : Char) : Bool := c.isAlphanum || c == '_' || c == '+' || c == '-'
        if isEnding (rest.dropWhile token) then
          (scalar (rest.takeWhile token)).map fun v => some (String.ofList name, v)
        else none
      | _ => none

/-- The lines of a text: each ends in a line feed, with or without a carriage return before it. -/
def lines (cs : List Char) : List (List Char) :=
  let unreturned (l : List Char) : List Char := if l.getLast? == some '\r' then l.dropLast else l
  let rec go : List Char → List Char → List (List Char)
    | [], current => [current.reverse]
    | c :: rest, current => if c == '\n' then unreturned current.reverse :: go rest [] else go rest (c :: current)
  go cs []

def assignments (text : String) : Option (List (String × Scalar)) :=
  let cs := match text.toList with
    | c :: rest => if c.toNat == 0xFEFF then rest else c :: rest
    | [] => []
  ((lines cs).mapM line).map fun found => found.filterMap id

end Toml

namespace Settings

/-- One assignment. A size is not negative; the nesting limit has thirty-two bits. -/
def assign (s : Settings) : String × Toml.Scalar → Option Settings
  | ("max_script_length", .int n) => if 0 ≤ n then some { s with maxScriptLength := n.toNat } else none
  | ("max_ic_entries", .int n) => if 0 ≤ n then some { s with maxSites := n.toNat } else none
  | ("stub_space_limit", .int n) => if 0 ≤ n then some { s with maxStubs := n.toNat } else none
  | ("code_pool_limit", .int n) => if 0 ≤ n then some { s with codePool := n.toNat } else none
  | ("max_native_depth", .int n) => if 0 ≤ n ∧ n < 2 ^ 32 then some { s with maxDepth := n.toNat } else none
  | ("debug_mode", .bool b) => some { s with debugMode := b }
  | _ => none

/-- The settings of a document: the defaults with its assignments, if they are valid. -/
def ofToml (text : String) : Except SettingsError Settings :=
  let settings := (Toml.assignments text).bind fun found =>
    if (found.map (·.1)).Nodup then found.foldlM assign {} else none
  match settings with
  | none => .error .malformed
  | some s => s.check.map fun _ => s

end Settings
end BaselineTier
