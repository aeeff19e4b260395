/-
  BaselineTier.Method — compiled methods.

  A method is linked code with its sites and their stubs. When it is made, every patch
  slot of the code is pointed at its site. Specialised stubs are put in front of a site's
  chain one at a time.
-/

import BaselineTier.Cache.Table

namespace BaselineTier

structure Method (β : Type) where
  code : LinkedCode
  sites : Array Site
  store : StubStore β
deriving DecidableEq, Repr

namespace Method

variable {β : Type}

def make (code : LinkedCode) (table : SiteTable β) : Method β := ⟨code.patched, table.sites, table.store⟩

def site? (m : Method β) (index : Nat) : Option Site := m.sites[index]?

def sitesAt (m : Method β) (pc : Nat) : List Site := m.sites.toList.filter (·.pc.toNat == pc)

/-- The chain of a site, first stub first; a site that does not exist has none. -/
def chain (m : Method β) (index : Nat) : List (Nat × Stub β) :=
  match m.site? index with
  | some site => m.store.chain site.head
  | none => []

/-- Puts a specialised stub in front of a site's chain; its place in the store. -/
def prepend (m : Method β) (index : Nat) (body : β) : Except CompileError (Nat × Method β) :=
  match m.site? index with
  | none => .error (.unknownSite index)
  | some site => do
    let (id, store) ← m.store.add ⟨.specialized, body, some site.head⟩
    pure (id, { m with store, sites := m.sites.modify index fun site => { site with head := id } })

/-- Every stub of every chain, with the index of its site and its own place. -/
def trace (m : Method β) : List (Nat × Nat × Stub β) :=
  (List.range m.sites.size).flatMap fun index => (m.chain index).map fun (id, stub) => (index, id, stub)

def inspect (m : Method β) : String :=
  "CompiledMethod \x7b code: " ++ m.code.inspect ++ ", ic_entries: " ++ toString m.sites.size ++ ", stubs: " ++
    toString m.store.size ++ " \x7d"

end Method
end BaselineTier
