/-
  BaselineTier.Decimal.Text — decimals and doubles as text.

  A decimal is written positionally or with an exponent; which of the two, what a whole
  number ends in and how infinity is spelled are the fields of a `Style`. Two styles are
  used: `plain`, which never writes an exponent, and `inspect`, which keeps one fractional
  digit on whole numbers and turns to an exponent below 10^-4 and from 10^16 on.
-/

import BaselineTier.Decimal.Shortest

namespace BaselineTier.Decimal

def zeros (n : Nat) : String := String.ofList (List.replicate n '0')

/-- The decimal without an exponent, with at least `places` fractional digits. -/
def Scaled.positional (s : Scaled) (places : Nat) : String :=
  let digits := toString s.digits
  if 0 ≤ s.exponent then
    digits ++ zeros s.exponent.toNat ++ (if places = 0 then "" else "." ++ zeros places)
  else
    let fraction := (-s.exponent).toNat
    let padded := zeros (fraction + 1 - digits.length) ++ digits
    let whole := padded.length - fraction
    String.ofList (padded.toList.take whole) ++ "." ++ String.ofList (padded.toList.drop whole) ++
      zeros (places - fraction)

def Scaled.exponential (s : Scaled) : String :=
  let digits := toString s.digits
  let fraction := String.ofList (digits.toList.drop 1)
  String.ofList (digits.toList.take 1) ++ (if fraction = "" then "" else "." ++ fraction) ++
    "e" ++ toString (s.exponent + (digits.length - 1 : Nat))

def Scaled.leading (s : Scaled) : Int := s.exponent + ((toString s.digits).length - 1 : Nat)

structure Style where
  /-- Fractional digits that a positional number keeps at least. -/
  places : Nat
  /-- Whether very small and very large numbers are written with an exponent. -/
  exponents : Bool

/-- The fewest digits, never an exponent. -/
def Style.plain : Style := ⟨0, false⟩

/-- For inspecting: whole numbers end in `.0`, and an exponent is used below 10^-4 and from 10^16. -/
def Style.inspect : Style := ⟨1, true⟩

def Style.finite (style : Style) (d : Double) : String :=
  if d.isZero then (⟨0, 0⟩ : Scaled).positional style.places else
    let s := shortest d
    if style.exponents && (s.leading < -4 || 16 ≤ s.leading) then s.exponential else s.positional style.places

end BaselineTier.Decimal

namespace BaselineTier

def Double.text (style : Decimal.Style) (d : Double) : String :=
  if d.isNaN then "NaN" else
    (if d.negative then "-" else "") ++ (if d.isInfinite then "inf" else style.finite d)

end BaselineTier
