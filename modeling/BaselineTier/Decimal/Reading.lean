/-
  BaselineTier.Decimal.Reading — a double read from text.

  The grammar is an optional sign, then a name (`inf`, `infinity` or `nan` in any case) or
  digits with at most one point and at least one digit, then an optional exponent. The
  number read is the double nearest to the decimal written, to the even one at a tie. An
  exponent counts up to the digit with which it reaches 2^16, and the digits after that one
  change nothing; only a text with about as many digits before it can tell.
-/

import BaselineTier.Double.Arithmetic

namespace BaselineTier.Decimal

def appendDigit (n : Nat) (c : Char) : Nat := 10 * n + (c.toNat - 48)

/-- The number that a list of decimal digits writes, the list halved `depth` times first, so
    that a long one costs few operations on large numbers. -/
def halvedValue : (depth : Nat) → List Char → Nat
  | 0, cs => cs.foldl appendDigit 0
  | depth + 1, cs =>
    let half := cs.length / 2
    halvedValue depth (cs.take half) * 10 ^ (cs.drop half).length + halvedValue depth (cs.drop half)

def digitsValue (cs : List Char) : Nat := halvedValue (Nat.log2 (cs.length / 64 + 1)) cs

theorem foldl_appendDigit (cs : List Char) (n : Nat) :
    cs.foldl appendDigit n = n * 10 ^ cs.length + cs.foldl appendDigit 0 := by
  induction cs generalizing n with
  | nil => simp
  | cons c cs ih =>
    rw [List.foldl_cons, List.foldl_cons, ih (appendDigit n c), ih (appendDigit 0 c)]
    simp only [appendDigit, List.length_cons, Nat.pow_succ]
    grind

theorem halvedValue_eq_foldl (depth : Nat) (cs : List Char) :
    halvedValue depth cs = cs.foldl appendDigit 0 := by
  induction depth generalizing cs with
  | zero => rfl
  | succ depth ih =>
    simp only [halvedValue, ih]
    rw [← foldl_appendDigit, ← List.foldl_append, List.take_append_drop]

/-- Halving changes nothing: the digits are read from left to right. -/
theorem digitsValue_eq_foldl (cs : List Char) : digitsValue cs = cs.foldl appendDigit 0 :=
  halvedValue_eq_foldl _ cs

/-- The double nearest to the number written by `digits`, times `10 ^ exponent`. A positive decimal
    lies between the two powers of ten around its leading digit, which settles those far outside
    the doubles' range. -/
def round (negative : Bool) (digits : List Char) (exponent : Int) : Double :=
  let significant := digits.dropWhile (· == '0')
  let top := (significant.length : Int) + exponent
  if significant.isEmpty || top < -330 then Double.ofMagnitude negative 0
  else if 310 < top then Double.ofMagnitude negative Double.infinityMagnitude
  else if 0 ≤ exponent then Double.ofRatio negative (digitsValue significant * 10 ^ exponent.toNat) 1
  else Double.ofRatio negative (digitsValue significant) (10 ^ (-exponent).toNat)

def sign : List Char → Bool × List Char
  | '-' :: rest => (true, rest)
  | '+' :: rest => (false, rest)
  | rest => (false, rest)

/-- The size of an exponent, which takes no more digits once it has reached 2^16. -/
def exponentValue (cs : List Char) : Nat :=
  cs.foldl (fun n c => if n < 2 ^ 16 then appendDigit n c else n) 0

/-- The exponent part, which must reach the end of the text; an empty one is 0. -/
def exponentPart : List Char → Option Int
  | [] => some 0
  | c :: rest =>
    if c == 'e' || c == 'E' then
      let (negative, digits) := sign rest
      if !digits.isEmpty && digits.all Char.isDigit then
        some (if negative then -(exponentValue digits : Int) else exponentValue digits)
      else none
    else none

def unsigned (negative : Bool) (cs : List Char) : Option Double :=
  let whole := cs.takeWhile Char.isDigit
  let afterWhole := cs.dropWhile Char.isDigit
  let (fraction, rest) := match afterWhole with
    | '.' :: tail => (tail.takeWhile Char.isDigit, tail.dropWhile Char.isDigit)
    | _ => ([], afterWhole)
  if whole.isEmpty && fraction.isEmpty then none else
    (exponentPart rest).map fun exponent =>
      round negative (whole ++ fraction) (exponent - fraction.length)

/-- The double that a text writes, if it is of the grammar. -/
def read? (cs : List Char) : Option Double :=
  let (negative, rest) := sign cs
  let name := String.ofList (rest.map Char.toLower)
  if name == "inf" || name == "infinity" then some (Double.ofMagnitude negative Double.infinityMagnitude)
  else if name == "nan" then some Double.nan
  else unsigned negative rest

end BaselineTier.Decimal
