/-
  BaselineTier.Cache.Fallback — which fallback handles which kind of site.

  A fallback does the operation of a site in full generality. There is one for every kind,
  except that a site for an operator exists only for the operators of its sort.
-/

import BaselineTier.Cache.Kind

namespace BaselineTier

inductive Fallback where
  | toBool | toNumber | arith | unary | compare
  | getName | setName | getGlobal | setGlobal | getProp | setProp | getElem | setElem
  | call
deriving DecidableEq, Repr, Inhabited

def Fallback.ofKind? : SiteKind → Option Fallback
  | .toBool => some toBool
  | .toNumber => some toNumber
  | .arith op => if op.isArith then some arith else none
  | .unary op => if op = .neg ∨ op = .bitNot then some unary else none
  | .compare op => if op.isCompare then some compare else none
  | .getName _ => some getName
  | .setName _ => some setName
  | .getGlobal _ => some getGlobal
  | .setGlobal _ => some setGlobal
  | .getProp _ => some getProp
  | .setProp _ => some setProp
  | .getElem => some getElem
  | .setElem => some setElem
  | .call _ => some call

end BaselineTier
