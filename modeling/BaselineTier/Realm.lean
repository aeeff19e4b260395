/-
  BaselineTier.Realm — a small host with one global scope and a flat table of objects.

  Every name is a global. An object is a plain one with properties, a native function or
  a script. Properties are kept in the order of their keys' bits; whole doubles and small
  integers that are equal name the same property.
-/

import BaselineTier.Host

namespace BaselineTier

abbrev Native := Value → List Value → Except RunError Value

namespace Native

def first : Native := fun _ args => .ok (args.head?.getD .undefined)

def last : Native := fun _ args => .ok (args.getLast?.getD .undefined)

def this : Native := fun this _ => .ok this

def count : Native := fun _ args => .ok (.int32 (Int32.ofNat args.length))

def fail (text : String) : Native := fun _ _ => .error (.host text)

end Native

/-- Properties in the order of their keys' bits, each key once. -/
abbrev Properties := List (Value × Value)

namespace Properties

def get? (ps : Properties) (key : Value) : Option Value := (ps.find? (·.1 == key)).map (·.2)

def insert (key value : Value) : Properties → Properties
  | [] => [(key, value)]
  | p :: rest =>
    if key.bits < p.1.bits then (key, value) :: p :: rest
    else if p.1 = key then (key, value) :: rest
    else p :: insert key value rest

end Properties

inductive RealmObject where
  | plain (properties : Properties)
  | native (body : Native)
  | script (index : Nat)

/-- The global scope and the objects, each at the place its handle names. -/
structure Realm where
  globals : List (Atom × Value) := []
  objects : Array RealmObject := #[]

namespace Realm

/-! ## Globals -/

def global? (r : Realm) (name : Atom) : Option Value := r.globals.lookup name

def setGlobal (r : Realm) (name : Atom) (value : Value) : Realm :=
  { r with globals := (name, value) :: r.globals.filter (·.1 != name) }

/-! ## Objects -/

def add (r : Realm) (object : RealmObject) : Value × Realm :=
  (.object (UInt32.ofNat r.objects.size), { r with objects := r.objects.push object })

def object? (r : Realm) (v : Value) : Option RealmObject := v.asObject.bind fun handle => r.objects[handle.toNat]?

/-- The key under which a property is kept. -/
def canonicalKey (key : Value) : Value :=
  match key.asDouble with
  | some d => .number d
  | none => key

def getProperty (r : Realm) (object key : Value) : Except RunError Value :=
  if object.isNullish then .error (.type (.noProperties object))
  else
    match r.object? object with
    | some (.plain properties) => .ok ((properties.get? (canonicalKey key)).getD .undefined)
    | _ => .ok .undefined

/-- Values that are no plain objects drop what is written to them. -/
def setProperty (r : Realm) (object key value : Value) : Except RunError Realm :=
  if object.isNullish then .error (.type (.cannotSet object))
  else
    match object.asObject with
    | none => .ok r
    | some handle =>
      match r.objects[handle.toNat]? with
      | some (.plain properties) =>
        .ok { r with
          objects := r.objects.setIfInBounds handle.toNat (.plain (properties.insert (canonicalKey key) value)) }
      | some _ => .ok r
      | none => .error (.host s!"dangling object handle {handle}")

def call (r : Realm) (callee this : Value) (args : List Value) : Except RunError CallAnswer :=
  match r.object? callee with
  | some (.native body) => (body this args).map .value
  | some (.script index) => .ok (.invoke index)
  | _ => .error .notCallable

/-! ## The realm as a host -/

/-- The value of a name; a name without one is reported by its text. -/
def lookup (name : Atom) : Ask Realm Value := do
  let w ← get
  match w.host.global? name with
  | some v => pure v
  | none => throw (.reference ((w.atoms.text? name).getD name.text))

def assign (name : Atom) (value : Value) : Ask Realm Unit :=
  modify fun w => { w with host := w.host.setGlobal name value }

def asking {α : Type} (x : Except RunError α) : Ask Realm α :=
  match x with
  | .ok a => pure a
  | .error e => throw e

def host : Host Realm where
  getName := lookup
  setName := assign
  getGlobal := lookup
  setGlobal := assign
  getProperty object key := do asking ((← get).host.getProperty object key)
  setProperty object key value := do
    let r ← asking ((← get).host.setProperty object key value)
    modify fun w => { w with host := r }
  call callee this args := do asking ((← get).host.call callee this args)

def define (w : World Realm) (name : String) (value : Value) : World Realm :=
  let (atom, atoms) := w.atoms.intern name
  { atoms, host := w.host.setGlobal atom value }

def named? (w : World Realm) (name : String) : Option Value := (w.atoms.lookup name).bind w.host.global?

end Realm
end BaselineTier
