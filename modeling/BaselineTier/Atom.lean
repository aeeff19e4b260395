/-
  BaselineTier.Atom — interned texts.

  An atom is a 32-bit number that stands for a text. The table gives every text the number
  of texts that came before it, so its atoms are 0, 1, 2, … in the order of first use, and
  a text keeps its atom for as long as the table grows. Texts are read by their place, and
  looked up in an index that is kept beside them.
-/

namespace BaselineTier

structure Atom where
  index : UInt32
deriving DecidableEq, Repr, Inhabited

namespace Atom

def text (a : Atom) : String := "atom#" ++ toString a.index.toNat

instance : ToString Atom := ⟨text⟩

end Atom

structure AtomTable where
  /-- The interned texts, each at the place its atom names. -/
  texts : Array String := #[]
  /-- The atom of every interned text. -/
  byText : List (String × Atom) := []
deriving DecidableEq, Repr, Inhabited

namespace AtomTable

def empty : AtomTable := {}

def size (t : AtomTable) : Nat := t.texts.size

def lookup (t : AtomTable) (s : String) : Option Atom := t.byText.lookup s

def text? (t : AtomTable) (a : Atom) : Option String := t.texts[a.index.toNat]?

def intern (t : AtomTable) (s : String) : Atom × AtomTable :=
  match t.lookup s with
  | some a => (a, t)
  | none =>
    let a : Atom := ⟨UInt32.ofNat t.texts.size⟩
    (a, { texts := t.texts.push s, byText := (s, a) :: t.byText })

def internAll (t : AtomTable) (ss : List String) : AtomTable := ss.foldl (fun t s => (t.intern s).2) t

def inspect (t : AtomTable) : String := "AtomTable \x7b len: " ++ toString t.size ++ " \x7d"

end AtomTable
end BaselineTier
