/-
  BaselineTier.Proofs.Agreement — compiled code does what its bytecode says.

  Started on a compiled script, the machine follows the interpretation of its program from the
  first step on. Where the interpretation comes to a test of a value that is wrongly taken for
  a Boolean, the machine trips (`trips_iff`); otherwise it ends if the interpretation does, and
  with the same result and world (`execute_iff`). A host that keeps a record of what it is
  asked for is part of the world, so the operations asked for are the same as well.
-/

import BaselineTier.Proofs.Recording
import BaselineTier.Proofs.Simulation

namespace BaselineTier

variable {σ : Type}

/-! ## Ends -/

namespace Config

variable {host : Host σ} {scripts : Scripts σ} {c c' last : Config σ} {r : Except RunError Value} {m : Machine}
  {w : World σ}

/-- What the machine comes to on its way to the end, it comes to before the end. -/
theorem Leads.to_end (h : Leads host scripts c c') (hlast : Leads host scripts c last)
    (hend : last.step host scripts = .ended r m w) : Leads host scripts c' last := by
  obtain ⟨n, h⟩ := h
  obtain ⟨k, hlast⟩ := hlast
  rcases h.total hlast with ⟨j, _, hj⟩ | ⟨j, c₁, hstep, _⟩
  · exact ⟨j, hj⟩
  · rw [hend] at hstep
    cases hstep

/-- A run gives what it gives from any configuration on that it comes to. -/
theorem Leads.run_iff (h : Leads host scripts c c') :
    (∃ fuel m, c.run host scripts fuel = some (r, m, w)) ↔ ∃ fuel m, c'.run host scripts fuel = some (r, m, w) := by
  constructor
  · rintro ⟨fuel, m, hrun⟩
    obtain ⟨last, hlast, hend⟩ := Config.run_iff.mp ⟨fuel, hrun⟩
    obtain ⟨fuel', hrun'⟩ := Config.run_iff.mpr ⟨last, h.to_end hlast hend, hend⟩
    exact ⟨fuel', m, hrun'⟩
  · rintro ⟨fuel, m, hrun⟩
    obtain ⟨last, hlast, hend⟩ := Config.run_iff.mp ⟨fuel, hrun⟩
    obtain ⟨fuel', hrun'⟩ := Config.run_iff.mpr ⟨last, h.trans hlast, hend⟩
    exact ⟨fuel', m, hrun'⟩

theorem Halts.run_iff (h : Halts host scripts c r w) {r' : Except RunError Value} {w' : World σ} :
    (∃ fuel m', c.run host scripts fuel = some (r', m', w')) ↔ r' = r ∧ w' = w := by
  obtain ⟨last, hlast, _, m, hend⟩ := h
  constructor
  · rintro ⟨fuel, m', hrun⟩
    obtain ⟨last', hlast', hend'⟩ := Config.run_iff.mp ⟨fuel, hrun⟩
    obtain rfl := hlast.ends_unique hend hlast' hend'
    rw [hend] at hend'
    cases hend'
    exact ⟨rfl, rfl⟩
  · rintro ⟨rfl, rfl⟩
    obtain ⟨fuel, hrun⟩ := Config.run_iff.mpr ⟨last, hlast, hend⟩
    exact ⟨fuel, m, hrun⟩

theorem Halts.not_trips (h : Halts host scripts c r w) (hlast : Leads host scripts c last) : ¬last.Trips := by
  intro htrips
  obtain ⟨last', hlast', hnot, m, hend⟩ := h
  obtain ⟨x, m', w', hend'⟩ := htrips.step host scripts
  obtain rfl := hlast'.ends_unique hend hlast hend'
  exact hnot htrips

end Config

/-! ## From the first step on -/

/-- The run of a script with arguments comes to a test of something else than a Boolean. -/
def Machine.Trips (m : Machine) (host : Host σ) (scripts : Scripts σ) (s : Script (StubBody σ)) (args : List Value)
    (world : World σ) :
    Prop := ∃ c last, m.start s args world = .ok c ∧ Config.Leads host scripts c last ∧ last.Trips

section Start

variable {host : Host σ} {scripts : Scripts σ} {sources : Interpreter.Sources} {s : Script (StubBody σ)}
  {source : Source}

/-- A compiled script starts to run as its program to be interpreted. -/
theorem Script.Compiled.start (h : s.Compiled source) (host : Host σ) (scripts : Scripts σ) (m : Machine)
    (args : List Value) (world : World σ) : ∃ c, m.start s args world = .ok c ∧
      ((∃ err, Interpreter.start source args m.depth m.maxDepth world = .error err ∧
        Config.Halts host scripts c (.error err) world) ∨
        ∃ c' k, Interpreter.start source args m.depth m.maxDepth world = .ok k ∧ Config.Leads host scripts c c' ∧
          Follows host scripts c' k) := by
  obtain ⟨job, f, method, v, henter, hb, hsource, hargs, hslots, hops⟩ := h.enter args m.stack.size
  refine ⟨_, by rw [Machine.start, henter]; rfl, ?_⟩
  have hopens : Opens host scripts {
      machine := { m with depth := m.depth + 1 }
      world
      current := { method, pc := 0, argc := 0, frame := v.frame m.stack.size }
      base := m.stack.size } [] _ :=
    hb.opens hsource hargs hslots hops (by simp [Config.place, View.stack, hslots, hops]) .nil
  rw [Interpreter.start]
  cases hopen : Interpreter.open? source args (m.depth + 1) m.maxDepth with
  | error err =>
    rw [hopen] at hopens
    exact .inl ⟨err, rfl, hopens⟩
  | ok e =>
    rw [hopen] at hopens
    obtain ⟨c', hc', hfollows⟩ := hopens
    exact .inr ⟨c', _, rfl, hc', hfollows⟩

/-- The machine trips exactly if the interpretation comes to an instruction whose operand is misjudged. -/
theorem Machine.trips_iff (hs : Corresponds scripts sources) (hc : s.Compiled source) (m : Machine) (args : List Value)
    (world : World σ) : m.Trips host scripts s args world ↔
      ∃ k k', Interpreter.start source args m.depth m.maxDepth world = .ok k ∧ Interpreter.Leads host sources k k' ∧
        k'.Misjudged := by
  obtain ⟨c, hstart, ⟨err, hk, hhalts⟩ | ⟨c', k, hk, hc', hfollows⟩⟩ := hc.start host scripts m args world
  · constructor
    · rintro ⟨c₁, last, hc₁, hlast, htrips⟩
      cases hstart.symm.trans hc₁
      exact absurd htrips (hhalts.not_trips hlast)
    · rintro ⟨k, _, hk', _⟩
      cases hk.symm.trans hk'
  · constructor
    · rintro ⟨c₁, last, hc₁, hlast, htrips⟩
      cases hstart.symm.trans hc₁
      obtain ⟨x, m', w', hend⟩ := htrips.step host scripts
      obtain ⟨n, hlast'⟩ := hc'.to_end hlast hend
      obtain ⟨_, k', hk', _, _, hiff⟩ := hfollows.stops hs hlast' hend
      exact ⟨k, k', hk, hk'.leads, hiff.mp htrips⟩
    · rintro ⟨k₁, k', hk₁, hk', hmis⟩
      cases hk.symm.trans hk₁
      obtain ⟨last, hlast, htrips⟩ := hfollows.trips hs hk' hmis
      exact ⟨c, last, hstart, hc'.trans hlast, htrips⟩

/-- If it does not trip, the machine gives what the interpretation gives. -/
theorem Machine.execute_iff (hs : Corresponds scripts sources) (hc : s.Compiled source) {m : Machine}
    {args : List Value} {world : World σ} (hnot : ¬m.Trips host scripts s args world) (r : Except RunError Value)
    (w : World σ) :
    (∃ fuel m', m.execute host scripts fuel s args world = some (r, m', w)) ↔
      ∃ fuel, Interpreter.interpret host sources fuel source args m.depth m.maxDepth world = some (r, w) := by
  obtain ⟨c, hstart, ⟨err, hk, hhalts⟩ | ⟨c', k, hk, hc', hfollows⟩⟩ := hc.start host scripts m args world
  · simp only [Machine.execute, hstart, Interpreter.interpret, hk]
    rw [hhalts.run_iff]
    constructor
    · rintro ⟨rfl, rfl⟩
      exact ⟨0, rfl⟩
    · rintro ⟨_, h⟩
      cases h
      exact ⟨rfl, rfl⟩
  · simp only [Machine.execute, hstart, Interpreter.interpret, hk]
    rw [Interpreter.run_iff]
    constructor
    · rintro ⟨fuel, m', hrun⟩
      obtain ⟨last, hlast, hend⟩ := Config.run_iff.mp ⟨fuel, hrun⟩
      obtain ⟨n, hlast'⟩ := hc'.to_end hlast hend
      obtain ⟨_, k', hk', _, hconcludes, hiff⟩ := hfollows.stops hs hlast' hend
      cases hconcludes with
      | misjudged hmis _ => exact absurd ⟨c, last, hstart, hlast, hiff.mpr hmis⟩ hnot
      | ended _ hend' => exact ⟨k', hk'.leads, hend'⟩
    · rintro ⟨k', hk', hend⟩
      rcases hfollows.ends hs hk' hend with ⟨last, hlast, htrips⟩ | hhalts
      · exact absurd ⟨c, last, hstart, hc'.trans hlast, htrips⟩ hnot
      · exact (hc'.halts hhalts).run_iff.mpr ⟨rfl, rfl⟩

end Start

/-! ## A script that calls another -/

namespace Script

def compiling (σ : Type) (p : Program) (atoms : AtomTable) : Script (StubBody σ) :=
  ⟨p, (Compilation.compile ⟨p, {}, atoms, StubBody.fallbacks⟩ Linker.pool ⟨100, 0⟩).1.toOption⟩

theorem ok_of_toOption {α ε : Type} {r : Except ε α} {a : α} (h : r.toOption = some a) : r = .ok a := by
  cases r with
  | error _ => cases h
  | ok _ => cases h; rfl

theorem compile_of_compiling {p : Program} {atoms : AtomTable} {m : Method (StubBody σ)}
    (h : (compiling σ p atoms).baseline = some m) :
    (Compilation.compile ⟨p, {}, atoms, StubBody.fallbacks⟩ Linker.pool ⟨100, 0⟩).1 = .ok m := by
  rw [compiling] at h
  exact ok_of_toOption h

theorem compiled_of_isSome {name : String} {code : List UInt8} {slots args : Nat} {texts : Array String} {p : Program}
    {atoms : AtomTable} {source : Source} (hp : Program.ofCode name code slots args texts = .ok p)
    (hlen : p.length < 2 ^ 32) (hsource : Source.ofProgram? p atoms = some source)
    (hok : (compiling σ p atoms).baseline.isSome = true) :
    (compiling σ p atoms).Compiled source := by
  obtain ⟨m, hm⟩ := Option.isSome_iff_exists.mp hok
  exact ⟨⟨name, code, slots, args, texts, hp⟩, hlen, {}, atoms, ⟨100, 0⟩, m, hm, hsource, compile_of_compiling hm⟩

end Script

namespace LookupCall

/-- A function that calls the one it finds under a name with `false`, and gives one if it is itself called so. -/
def code : List UInt8 := [0x1A, 0, 0, 0x41, 0x10, 0, 0, 0, 0x50, 0, 0, 0, 0, 0x08, 0x0B, 0x58, 1, 0, 0x60, 0x0D, 0x60]

def program : Program := (Program.ofCode "f" code 0 1 #["f"]).toOption.getD default

def script (σ : Type) : Script (StubBody σ) := .compiling σ program (.internAll .empty ["f"])

def host : Host Unit where
  getName _ := pure .undefined
  setName _ _ := pure ()
  getGlobal _ := pure .undefined
  setGlobal _ _ := pure ()
  getProperty _ _ := pure .undefined
  setProperty _ _ _ := pure ()
  call _ _ _ := pure (.invoke 0)

def scripts (σ : Type) : Scripts σ := fun n => if n = 0 then some (script σ) else none

def sources : Interpreter.Sources := fun n => if n = 0 then .ok ⟨program, #[⟨0⟩]⟩ else .error .notCallable

theorem compiled (σ : Type) : (script σ).Compiled ⟨program, #[⟨0⟩]⟩ := by
  have hp : Program.ofCode "f" code 0 1 #["f"] = .ok program := rfl
  refine Script.compiled_of_isSome hp (by decide) ?_ (by cbv)
  rw [Source.ofProgram?, show program.atoms = #["f"] from rfl]
  cbv

theorem corresponds (σ : Type) : Corresponds (scripts σ) sources := by
  intro n
  by_cases hn : n = 0
  · rw [scripts, sources, if_pos hn, if_pos hn]
    exact .compiled (compiled σ)
  · rw [scripts, sources, if_neg hn, if_neg hn]
    exact .missing

end LookupCall

/-! ## Agreement -/

/-- Unless the machine trips, it gives the same results and worlds as the interpretation. -/
def Machine.Agrees (m : Machine) (host : Host σ) (scripts : Scripts σ) (sources : Interpreter.Sources)
    (s : Script (StubBody σ)) (source : Source) (args : List Value) (world : World σ) : Prop :=
  m.Trips host scripts s args world ∨ ∀ (r : Except RunError Value) (w : World σ),
    (∃ fuel m', m.execute host scripts fuel s args world = some (r, m', w)) ↔
      ∃ fuel, Interpreter.interpret host sources fuel source args m.depth m.maxDepth world = some (r, w)

theorem Machine.agrees {scripts : Scripts σ} {sources : Interpreter.Sources} {s : Script (StubBody σ)} {source : Source}
    (hs : Corresponds scripts sources) (hc : s.Compiled source) (host : Host σ) (m : Machine) (args : List Value)
    (world : World σ) :
    m.Agrees host scripts sources s source args world := by
  by_cases htrips : m.Trips host scripts s args world
  · exact .inl htrips
  · exact .inr fun r w => execute_iff hs hc htrips r w

/-- Compiled code agrees with the interpretation of its bytecode, also in what the host is asked for: the agreement
    holds with a record of that, and the interpretation with the record is the one without. -/
theorem Machine.execute_agrees_with_interpret {scripts : Scripts σ} {sources : Interpreter.Sources}
    {s : Script (StubBody σ)} {source : Source} (hs : Corresponds scripts sources) (hc : s.Compiled source)
    (host : Host σ) (m : Machine) (args : List Value) (world : World σ) :
    m.Agrees host scripts sources s source args world ∧
      (∀ {scripts' : Scripts (σ × List Query)} {s' : Script (StubBody (σ × List Query))}, Corresponds scripts' sources →
        s'.Compiled source → m.Agrees host.recording scripts' sources s' source args (world.recorded [])) ∧
      ∀ fuel, Interpreter.interpret host sources fuel source args m.depth m.maxDepth world =
        (Interpreter.interpret host.recording sources fuel source args m.depth m.maxDepth (world.recorded [])).map
          fun (r, w) =>
          (r, w.plain) :=
  ⟨agrees hs hc host m args world, fun hs' hc' => agrees hs' hc' host.recording m args _,
    fun fuel => Interpreter.interpret_records host sources fuel source args m.depth m.maxDepth (world.recorded [])⟩

/-- A run with a nested call, which ends with one. -/
theorem Machine.execute_agrees_with_interpret_lookupCall :
    Corresponds (LookupCall.scripts Unit) LookupCall.sources ∧
      (LookupCall.script Unit).Compiled ⟨LookupCall.program, #[⟨0⟩]⟩ ∧
      (execute { maxDepth := 2 } LookupCall.host.recording (LookupCall.scripts _) 40 (LookupCall.script _) [.bool true]
        (World.recorded ⟨.internAll .empty ["f"], ()⟩ [])).map (fun (r, _, w) => (r, w.host.2)) =
          some (.ok (.int32 1), [.getName ⟨0⟩, .call .undefined .undefined [.bool false]]) ∧
      Agrees { maxDepth := 2 } LookupCall.host (LookupCall.scripts Unit) LookupCall.sources (LookupCall.script Unit)
        ⟨LookupCall.program, #[⟨0⟩]⟩ [.bool true] ⟨.internAll .empty ["f"], ()⟩ ∧
      Agrees { maxDepth := 2 } LookupCall.host.recording (LookupCall.scripts _) LookupCall.sources (LookupCall.script _)
        ⟨LookupCall.program, #[⟨0⟩]⟩ [.bool true] (World.recorded ⟨.internAll .empty ["f"], ()⟩ []) := by
  have h := execute_agrees_with_interpret (LookupCall.corresponds Unit) (LookupCall.compiled Unit) LookupCall.host
    { maxDepth := 2 }
    [.bool true] ⟨.internAll .empty ["f"], ()⟩
  exact ⟨LookupCall.corresponds Unit, LookupCall.compiled Unit, by cbv, h.1,
    h.2.1 (LookupCall.corresponds _) (LookupCall.compiled _)⟩

end BaselineTier
