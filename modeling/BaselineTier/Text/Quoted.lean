/-
  BaselineTier.Text.Quoted — a text between quotation marks, on one line and readable.

  A quotation mark, a backslash and the common controls have short escapes; a character
  without a visible form of its own, or one that would join the character before it, is
  written by its code point in hexadecimal; all others stand for themselves.
-/

import BaselineTier.Text.Combining
import BaselineTier.Text.Unprintable

namespace BaselineTier.Text

/-- Whether `n` lies in one of the increasing inclusive ranges between `low` and `high`. -/
def inRanges (ranges : Array (Nat × Nat)) (n : Nat) : Nat → Nat → Nat → Bool
  | 0, _, _ => false
  | fuel + 1, low, high =>
    if high ≤ low then false else
      let mid := (low + high) / 2
      match ranges[mid]? with
      | none => false
      | some (first, last) =>
        if n < first then inRanges ranges n fuel low mid
        else if last < n then inRanges ranges n fuel (mid + 1) high
        else true

def isHidden (c : Char) : Bool :=
  let within (ranges : Array (Nat × Nat)) : Bool := inRanges ranges c.toNat (ranges.size + 1) 0 ranges.size
  within unprintableRanges || within combiningRanges

/-- A number in lower-case hexadecimal, without leading zeros. -/
def hex (n : Nat) : String := String.ofList (Nat.toDigits 16 n)

def quotedChar (c : Char) : String :=
  if c == '"' then "\\\""
  else if c == '\\' then "\\\\"
  else if c == '\n' then "\\n"
  else if c == '\r' then "\\r"
  else if c == '\t' then "\\t"
  else if c == '\x00' then "\\0"
  else if isHidden c then "\\u\x7b" ++ hex c.toNat ++ "\x7d"
  else c.toString

def quoted (s : String) : String := "\"" ++ String.join (s.toList.map quotedChar) ++ "\""

end BaselineTier.Text
