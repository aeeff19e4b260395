/-
  BaselineTier.Cache.Table — inline-cache sites and their stub chains.

  Every site has a chain of stubs. A stub either handles the operation or passes it on to
  the next. The last stub of a chain is the site's fallback, which comes with the site;
  specialised stubs are put in front of it later. Stubs live in one store per method, of a
  bounded size, and name each other by their place in it. Of the places of stubs and sites
  32 bits are kept. What a stub does is a body of type `β`.
-/

import BaselineTier.CompileError

namespace BaselineTier

inductive StubRole where
  | fallback
  | specialized
deriving DecidableEq, Repr, Inhabited

def StubRole.name : StubRole → String
  | fallback => "Fallback"
  | specialized => "Specialized"

/-- A stub: its body and the stub that it passes on to. -/
structure Stub (β : Type) where
  role : StubRole
  body : β
  next : Option Nat
deriving DecidableEq, Repr

def Stub.inspect {β : Type} (s : Stub β) : String :=
  let next := match s.next with
    | some id => s!"Some(StubId({id}))"
    | none => "None"
  "Stub \x7b kind: " ++ s.role.name ++ ", next: " ++ next ++ ", .. \x7d"

structure StubStore (β : Type) where
  stubs : Array (Stub β) := #[]
  limit : Nat
deriving DecidableEq, Repr

namespace StubStore

variable {β : Type}

def size (s : StubStore β) : Nat := s.stubs.size

/-- Adds a stub; its number is that of the stubs before it, in 32 bits. -/
def add (s : StubStore β) (stub : Stub β) : Except CompileError (Nat × StubStore β) :=
  if s.size < s.limit then .ok (s.size % 2 ^ 32, { s with stubs := s.stubs.push stub })
  else .error (.stubsExhausted s.limit)

def get? (s : StubStore β) (id : Nat) : Option (Stub β) := s.stubs[id]?

/-- The stubs from `head` on, each with its place, at most `fuel` of them. -/
def chainFrom (s : StubStore β) : Nat → Option Nat → List (Nat × Stub β)
  | fuel + 1, some id =>
    match s.get? id with
    | some stub => (id, stub) :: s.chainFrom fuel stub.next
    | none => []
  | _, _ => []

/-- The chain that starts with the stub `head`. No chain is longer than the store. -/
def chain (s : StubStore β) (head : Nat) : List (Nat × Stub β) := s.chainFrom s.size (some head)

end StubStore

structure Site where
  /-- The offset of the bytecode instruction that it belongs to. -/
  pc : UInt32
  kind : SiteKind
  /-- The code offset after the call through it. -/
  returnOffset : Nat := 0
  /-- The first stub of its chain. -/
  head : Nat
deriving DecidableEq, Repr, Inhabited

/-- Where fallback bodies come from: the body for a kind, given how many were asked for before, if there is one. -/
abbrev Factory (β : Type) := Nat → SiteKind → Option β

structure SiteTable (β : Type) where
  sites : Array Site := #[]
  maxSites : Nat
  store : StubStore β
  /-- How many fallback bodies were asked for. -/
  requests : Nat := 0
deriving DecidableEq, Repr

namespace SiteTable

variable {β : Type}

def empty (maxSites maxStubs : Nat) : SiteTable β := { maxSites, store := { limit := maxStubs } }

def size (t : SiteTable β) : Nat := t.sites.size

/-- A new site with its fallback stub; the site's index, and the table after the attempt. -/
def allocate (t : SiteTable β) (factory : Factory β) (kind : SiteKind) (pc : Nat) :
    Except CompileError Nat × SiteTable β :=
  if t.maxSites ≤ t.size then (.error (.tableFull t.maxSites), t)
  else
    let asked := { t with requests := t.requests + 1 }
    match factory t.requests kind with
    | none => (.error (.noFallback kind), asked)
    | some body =>
      match t.store.add ⟨.fallback, body, none⟩ with
      | .error e => (.error e, asked)
      | .ok (head, store) =>
        (.ok (t.size % 2 ^ 32), { asked with store, sites := t.sites.push { pc := UInt32.ofNat pc, kind, head } })

def setReturn (t : SiteTable β) (index offset : Nat) : Except Breach (SiteTable β) :=
  if index < t.size then .ok { t with sites := t.sites.modify index fun site => { site with returnOffset := offset } }
  else .error .outOfRange

end SiteTable
end BaselineTier
