/-
  BaselineTier.Proofs.DebugMode — what the debug mode changes.

  In debug mode more is written out between instructions, so the code is another one. The mode
  has no part in what stands in the way of compiling a program and in which sites it has
  (`verdict_inMode`). What code does when it runs is told by the source that it was compiled
  from alone (`Machine.execute_comes`), and a program and the atoms of its texts are all that
  there is to a source. So scripts with the same source cannot be told apart by running them,
  whatever mode they and the scripts they call were compiled in (`Machine.alike_of_twins`).
-/

import BaselineTier.Proofs.Census

namespace BaselineTier

variable {σ β : Type}

/-! ## Compiling -/

namespace Job

def inMode (job : Job β) (debug : Bool) : Job β := { job with settings := { job.settings with debugMode := debug } }

theorem census_inMode (job : Job β) (debug : Bool) (entries : List (Instruction × Types)) (n : Nat) :
    (job.inMode debug).census entries n = job.census entries n := by
  induction entries generalizing n with
  | nil => rfl
  | cons entry rest ih =>
    obtain ⟨i, ts⟩ := entry
    have hkind : (job.inMode debug).kind? i ts = job.kind? i ts := rfl
    have hroom : (job.inMode debug).settings.refusal? n = job.settings.refusal? n := rfl
    simp only [census, hkind, hroom, ih]

theorem verdict_inMode (job : Job β) (debug : Bool) : (job.inMode debug).verdict = job.verdict := by
  unfold verdict
  rw [census_inMode]
  rfl

end Job

/-! ## Running -/

namespace Interpreter

/-- What the machine makes of the interpretation of a source with arguments: it may come to a value that is
    misjudged. -/
def Comes (host : Host σ) (sources : Sources) (source : Source) (args : List Value) (depth maxDepth : Nat)
    (world : World σ) (r : Except RunError Value) (w : World σ) : Prop :=
  match start source args depth maxDepth world with
  | .error err => r = .error err ∧ w = world
  | .ok k => ∃ k', Clears host sources k k' ∧ k'.Concludes host sources r w

end Interpreter

namespace Machine

/-- A run of compiled code depends on nothing but the sources. -/
theorem execute_comes {host : Host σ} {scripts : Scripts σ} {sources : Interpreter.Sources} {s : Script (StubBody σ)}
    {source : Source} (hs : Corresponds scripts sources) (hc : s.Compiled source) (m : Machine) (args : List Value)
    (world : World σ) (r : Except RunError Value) (w : World σ) :
    (∃ fuel m', m.execute host scripts fuel s args world = some (r, m', w)) ↔
      Interpreter.Comes host sources source args m.depth m.maxDepth world r w := by
  unfold Interpreter.Comes
  obtain ⟨c, hstart, ⟨err, hk, hhalts⟩ | ⟨c', k, hk, hc', hfollows⟩⟩ := hc.start host scripts m args world
  · simp only [execute, hstart, hk]
    exact hhalts.run_iff
  · simp only [execute, hstart, hk]
    rw [hc'.run_iff]
    exact hfollows.run_iff hs

def Alike (m : Machine) (host : Host σ) (scripts₁ scripts₂ : Scripts σ) (s₁ s₂ : Script (StubBody σ))
    (args : List Value) (world : World σ) : Prop :=
  ∀ (r : Except RunError Value) (w : World σ),
    (∃ fuel m', m.execute host scripts₁ fuel s₁ args world = some (r, m', w)) ↔
    ∃ fuel m', m.execute host scripts₂ fuel s₂ args world = some (r, m', w)

end Machine

/-! ## Scripts of one program -/

def Script.MadeFor (s : Script (StubBody σ)) (atoms : AtomTable) : Prop := ∃ settings pool m, s.baseline = some m ∧
  (Compilation.compile ⟨s.program, settings, atoms, StubBody.fallbacks⟩ Linker.pool pool).1 = .ok m

/-- Two scripts of one accepted program, short enough for the 32 bits that sites keep of an offset; neither has code, or
    each holds what it was compiled to with the same atom table. -/
structure Script.Twins (s₁ s₂ : Script (StubBody σ)) : Prop where
  accepted : ∃ name code slots args texts, Program.ofCode name code slots args texts = .ok s₁.program
  short : s₁.program.length < 2 ^ 32
  program : s₂.program = s₁.program
  code : s₁.baseline = none ∧ s₂.baseline = none ∨ ∃ atoms, s₁.MadeFor atoms ∧ s₂.MadeFor atoms

def Scripts.Twins (scripts₁ scripts₂ : Scripts σ) : Prop :=
  ∀ n, scripts₁ n = none ∧ scripts₂ n = none ∨ ∃ s₁ s₂, scripts₁ n = some s₁ ∧ scripts₂ n = some s₂ ∧ s₁.Twins s₂

/-- Twins that hold code have one source. -/
theorem Script.Twins.compiled {s₁ s₂ : Script (StubBody σ)} {atoms : AtomTable} (h : s₁.Twins s₂)
    (h₁ : s₁.MadeFor atoms) (h₂ : s₂.MadeFor atoms) : ∃ source, s₁.Compiled source ∧ s₂.Compiled source := by
  obtain ⟨source, hsource⟩ := Source.exists_interned s₁.program atoms
  obtain ⟨settings₁, pool₁, m₁, hm₁, hcompile₁⟩ := h₁
  obtain ⟨settings₂, pool₂, m₂, hm₂, hcompile₂⟩ := h₂
  refine ⟨source, compiled_of_made h.accepted h.short hm₁ hcompile₁ hsource, compiled_of_made ?_ ?_ hm₂ hcompile₂ ?_⟩
  · rw [h.program]
    exact h.accepted
  · rw [h.program]
    exact h.short
  · rw [h.program]
    exact hsource

/-- A call finds the same under a number on either side. -/
theorem Scripts.Twins.called {scripts₁ scripts₂ : Scripts σ} (h : scripts₁.Twins scripts₂) (n : Nat) :
    ∃ found, Called (scripts₁ n) found ∧ Called (scripts₂ n) found := by
  rcases h n with ⟨h₁, h₂⟩ | ⟨s₁, s₂, h₁, h₂, htwins⟩
  · rw [h₁, h₂]
    exact ⟨_, .missing, .missing⟩
  · rw [h₁, h₂]
    rcases htwins.code with ⟨hnone₁, hnone₂⟩ | ⟨atoms, hmade₁, hmade₂⟩
    · have hplain := Called.plain hnone₂
      rw [htwins.program] at hplain
      exact ⟨_, .plain hnone₁, hplain⟩
    · obtain ⟨source, hc₁, hc₂⟩ := htwins.compiled hmade₁ hmade₂
      exact ⟨_, .compiled hc₁, .compiled hc₂⟩

theorem Scripts.Twins.corresponds {scripts₁ scripts₂ : Scripts σ} (h : scripts₁.Twins scripts₂) :
    ∃ sources, Corresponds scripts₁ sources ∧ Corresponds scripts₂ sources :=
  ⟨fun n => (h.called n).choose, fun n => (h.called n).choose_spec.1, fun n => (h.called n).choose_spec.2⟩

/-- Twins cannot be told apart by running them. -/
theorem Machine.alike_of_twins {scripts₁ scripts₂ : Scripts σ} {s₁ s₂ : Script (StubBody σ)}
    (hs : scripts₁.Twins scripts₂) (h : s₁.Twins s₂) (host : Host σ) (m : Machine) (args : List Value)
    (world : World σ) :
    m.Alike host scripts₁ scripts₂ s₁ s₂ args world := by
  intro r w
  -- Neither side is compared with the other: both do what the source says that they share.
  rcases h.code with ⟨hnone₁, hnone₂⟩ | ⟨atoms, hmade₁, hmade₂⟩
  · simp only [execute, start, Activation.enter, hnone₁, hnone₂, h.program]
    exact Iff.rfl
  · obtain ⟨sources, hs₁, hs₂⟩ := hs.corresponds
    obtain ⟨source, hc₁, hc₂⟩ := h.compiled hmade₁ hmade₂
    rw [execute_comes hs₁ hc₁, execute_comes hs₂ hc₂]

namespace Compilation

theorem twins_of_compile {name : String} {code : List UInt8} {slots args : Nat} {texts : Array String} {p : Program}
    (hp : Program.ofCode name code slots args texts = .ok p) (hlen : p.length < 2 ^ 32) {settings₁ settings₂ : Settings}
    {atoms : AtomTable} {pool₁ pool₂ : CodePool} {m₁ m₂ : Method (StubBody σ)}
    (h₁ : (compile ⟨p, settings₁, atoms, StubBody.fallbacks⟩ Linker.pool pool₁).1 = .ok m₁)
    (h₂ : (compile ⟨p, settings₂, atoms, StubBody.fallbacks⟩ Linker.pool pool₂).1 = .ok m₂) :
    Script.Twins ⟨p, some m₁⟩ ⟨p, some m₂⟩ :=
  ⟨⟨name, code, slots, args, texts, hp⟩, hlen, rfl,
    .inr ⟨atoms, ⟨settings₁, pool₁, m₁, rfl, h₁⟩, ⟨settings₂, pool₂, m₂, rfl, h₂⟩⟩⟩

end Compilation

namespace LookupCall

def job (τ : Type) : Job (StubBody τ) := ⟨program, {}, .internAll .empty ["f"], StubBody.fallbacks⟩

/-- The code is longer in debug mode. -/
theorem compiles (τ : Type) (debug : Bool) :
    ∃ m, (Compilation.compile ((job τ).inMode debug) Linker.pool ⟨100, 0⟩).1 = .ok m ∧
    m.code.size = if debug then 20 else 16 := by
  have hsize : ((Compilation.compile ((job τ).inMode debug) Linker.pool ⟨100, 0⟩).1.toOption.map fun m => m.code.size) =
      some (if debug then 20 else 16) := by
    cases debug <;> cbv
  obtain ⟨m, hm, hsize⟩ := Option.map_eq_some_iff.mp hsize
  exact ⟨m, Script.ok_of_toOption hm, hsize⟩

theorem accommodates (τ : Type) (debug : Bool) : Compilation.Accommodates ⟨100, 0⟩ ((job τ).inMode debug) := by
  have hp : Program.ofCode "f" code 0 1 #["f"] = .ok program := rfl
  have hlen : program.length < 2 ^ 32 := by decide
  obtain ⟨m, hm, _⟩ := compiles τ debug
  exact Compilation.accommodates_of_compile (Program.verified_of_ofCode hp) hlen rfl hm

end LookupCall

namespace Compilation

/-! ## Indifference -/

/-- With and without debug mode, if there is room for the code, compiling an accepted program fails with the same error,
    or gives methods with the same sites that the machine runs alike, also with a record of what the host is asked
    for. Sites keep 32 bits of an offset, and the program is short enough for them. -/
theorem debug_mode_is_unobservable {name : String} {code : List UInt8} {slots args : Nat} {texts : Array String}
    {p : Program} (hp : Program.ofCode name code slots args texts = .ok p) (hlen : p.length < 2 ^ 32)
    (settings : Settings) (atoms : AtomTable) {pool₁ pool₂ : CodePool}
    (hroom₁ : Accommodates pool₁ (Job.inMode (⟨p, settings, atoms, StubBody.fallbacks⟩ : Job (StubBody σ)) true))
    (hroom₂ : Accommodates pool₂ (Job.inMode (⟨p, settings, atoms, StubBody.fallbacks⟩ : Job (StubBody σ)) false)) :
    let job (τ : Type) : Job (StubBody τ) := ⟨p, settings, atoms, StubBody.fallbacks⟩
    ((∃ e, (compile ((job σ).inMode true) Linker.pool pool₁).1 = .error (.error e) ∧
        (compile ((job σ).inMode false) Linker.pool pool₂).1 = .error (.error e)) ∨
      ∃ m₁ m₂, (compile ((job σ).inMode true) Linker.pool pool₁).1 = .ok m₁ ∧
        (compile ((job σ).inMode false) Linker.pool pool₂).1 = .ok m₂ ∧
        m₁.log = m₂.log ∧
        ∀ (host : Host σ) (scripts₁ scripts₂ : Scripts σ) (machine : Machine) (passed : List Value) (world : World σ),
          scripts₁.Twins scripts₂ → machine.Alike host scripts₁ scripts₂ ⟨p, some m₁⟩ ⟨p, some m₂⟩ passed world) ∧
      ∀ (pool₁ pool₂ : CodePool) (m₁ m₂ : Method (StubBody (σ × List Query))),
        (compile ((job _).inMode true) Linker.pool pool₁).1 = .ok m₁ →
        (compile ((job _).inMode false) Linker.pool pool₂).1 = .ok m₂ →
        ∀ (host : Host σ) (scripts₁ scripts₂ : Scripts (σ × List Query)) (machine : Machine) (passed : List Value)
          (world : World σ), scripts₁.Twins scripts₂ →
            machine.Alike host.recording scripts₁ scripts₂ ⟨p, some m₁⟩ ⟨p, some m₂⟩ passed (world.recorded []) := by
  intro job
  have hv := Program.verified_of_ofCode hp
  refine ⟨?_, fun _ _ m₁ m₂ h₁ h₂ host scripts₁ scripts₂ machine passed world hs => ?_⟩
  · cases hverdict : (job σ).verdict with
    | error e =>
      refine .inl ⟨e, compile_of_error hv hlen rfl ?_ pool₁, compile_of_error hv hlen rfl ?_ pool₂⟩
      · rw [Job.verdict_inMode, hverdict]
      · rw [Job.verdict_inMode, hverdict]
    | ok log =>
      obtain ⟨m₁, hm₁, hlog₁⟩ := compile_of_ok hv hlen rfl (((job σ).verdict_inMode true).trans hverdict) hroom₁
      obtain ⟨m₂, hm₂, hlog₂⟩ := compile_of_ok hv hlen rfl (((job σ).verdict_inMode false).trans hverdict) hroom₂
      refine .inr ⟨m₁, m₂, hm₁, hm₂, hlog₁.trans hlog₂.symm, fun host scripts₁ scripts₂ machine passed world hs => ?_⟩
      exact Machine.alike_of_twins hs (twins_of_compile hp hlen hm₁ hm₂) host machine passed world
  · exact Machine.alike_of_twins hs (twins_of_compile hp hlen h₁ h₂) host.recording machine passed _

/-- Each method calls itself under any number. -/
theorem debug_mode_is_unobservable_lookupCall :
    (∃ m₁ m₂ : Method (StubBody Unit), (compile ((LookupCall.job Unit).inMode true) Linker.pool ⟨100, 0⟩).1 = .ok m₁ ∧
      (compile ((LookupCall.job Unit).inMode false) Linker.pool ⟨100, 0⟩).1 = .ok m₂ ∧ m₁.code.size = 20 ∧
        m₂.code.size = 16 ∧
      m₁.log = m₂.log ∧ Machine.Alike { maxDepth := 2 } LookupCall.host (fun _ => some ⟨LookupCall.program, some m₁⟩)
        (fun _ => some ⟨LookupCall.program, some m₂⟩) ⟨LookupCall.program, some m₁⟩
          ⟨LookupCall.program, some m₂⟩ [.bool true]
        ⟨.internAll .empty ["f"], ()⟩) ∧
    ∃ m₁ m₂ : Method (StubBody (Unit × List Query)),
      (compile ((LookupCall.job _).inMode true) Linker.pool ⟨100, 0⟩).1 = .ok m₁ ∧
      (compile ((LookupCall.job _).inMode false) Linker.pool ⟨100, 0⟩).1 = .ok m₂ ∧
      Machine.Alike { maxDepth := 2 } LookupCall.host.recording (fun _ => some ⟨LookupCall.program, some m₁⟩)
        (fun _ => some ⟨LookupCall.program, some m₂⟩) ⟨LookupCall.program, some m₁⟩
          ⟨LookupCall.program, some m₂⟩ [.bool true]
        (World.recorded ⟨.internAll .empty ["f"], ()⟩ []) := by
  have hp : Program.ofCode "f" LookupCall.code 0 1 #["f"] = .ok LookupCall.program := rfl
  have hlen : LookupCall.program.length < 2 ^ 32 := by decide
  obtain ⟨hplain, hrecorded⟩ := debug_mode_is_unobservable hp hlen {} (.internAll .empty ["f"])
    (LookupCall.accommodates Unit true)
    (LookupCall.accommodates Unit false)
  constructor
  · obtain ⟨m₁, hm₁, hsize₁⟩ := LookupCall.compiles Unit true
    obtain ⟨m₂, hm₂, hsize₂⟩ := LookupCall.compiles Unit false
    rcases hplain with ⟨e, herror, _⟩ | ⟨m, m', hm, hm', hlog, halike⟩
    · cases hm₁.symm.trans herror
    · cases hm₁.symm.trans hm
      cases hm₂.symm.trans hm'
      refine ⟨m₁, m₂, hm, hm', hsize₁, hsize₂, hlog, halike _ _ _ _ _ _ fun n => .inr ⟨_, _, rfl, rfl, ?_⟩⟩
      exact twins_of_compile hp hlen hm hm'
  · obtain ⟨m₁, hm₁, _⟩ := LookupCall.compiles (Unit × List Query) true
    obtain ⟨m₂, hm₂, _⟩ := LookupCall.compiles (Unit × List Query) false
    refine ⟨m₁, m₂, hm₁, hm₂, hrecorded _ _ m₁ m₂ hm₁ hm₂ _ _ _ _ _ _ fun n => .inr ⟨_, _, rfl, rfl, ?_⟩⟩
    exact twins_of_compile hp hlen hm₁ hm₂

end Compilation
end BaselineTier
