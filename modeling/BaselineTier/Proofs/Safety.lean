/-
  BaselineTier.Proofs.Safety — compiled code meets no error of the machine itself.

  Some errors show a flaw of the code or the machine and not of what is computed
  (`RunError.isInternal`). An instruction that the verifier has let pass takes no more operands
  than there are and names only what exists, so it fails with such an error only if the host
  does (`act_safe`). Where the machine follows an interpretation it ends as the interpretation
  does, so the same holds of its runs (`Follows.run_safe`). That a site for an arithmetic
  operator is never met with another operator is kept by every step (`Config.All.step`).
-/

import BaselineTier.Proofs.Heights

namespace BaselineTier

variable {σ α γ : Type}

/-! ## Errors -/

/-- The error is one that no code of the compiler's own may lead to. -/
def RunError.isInternal : RunError → Bool
  | .stackUnderflow | .badAddress _ | .pcOutOfRange _ | .unpatchedSite _ | .chainExhausted _ |
    .type (.notArithmetic _) => true
  | _ => false

/-- An internal error that the operation fails with is the host's own. -/
def Ask.Safe (host : Host σ) (x : Ask σ α) : Prop := ∀ w e w', x w = .error e w' → e.isInternal = true → host.Raises e

namespace Ask.Safe

variable {host : Host σ} {x : Ask σ α} {k : α → Ask σ γ}

theorem pure (a : α) : Safe host (Pure.pure a : Ask σ α) := by
  intro w e w' h
  cases h

theorem get : Safe host (MonadState.get : Ask σ (World σ)) := by
  intro w e w' h
  cases h

theorem update (f : World σ → World σ) : Safe host (modify f : Ask σ PUnit) := by
  intro w e w' h
  cases h

theorem bind (h : Safe host x) (hk : ∀ a, Safe host (k a)) : Safe host (x >>= k) := by
  intro w e w' hb
  rcases error_of_bind hb with hx | ⟨a, w₁, _, hrest⟩
  · exact h w e w' hx
  · exact hk a w₁ e w' hrest

end Ask.Safe

namespace Value

theorem numberArith?_ok {op : Opcode} (hop : op.isArith = true) (x y : Double) : ∃ v, numberArith? op x y = some v := by
  cases op <;> first | exact ⟨_, rfl⟩ | cases hop

/-- An arithmetic operator has a result, whatever it is applied to. -/
theorem arith_ok {op : Opcode} (hop : op.isArith = true) (t : AtomTable) (a b : Value) :
    ∃ v, (arith t op a b).1 = .ok v := by
  unfold arith
  split
  · exact ⟨_, rfl⟩
  · unfold numericArith
    split
    · exact ⟨_, rfl⟩
    · obtain ⟨v, hv⟩ := numberArith?_ok hop (a.toNumber t) (b.toNumber t)
      rw [hv]
      exact ⟨v, rfl⟩

end Value

/-! ## One instruction -/

structure Instruction.Fits (i : Instruction) (e : Evaluation) : Prop where
  format : i.operand.format = i.opcode.format
  taken : i.opcode.isRefused = false
  pops : i.pops ≤ e.operands.length
  operand : (⟨e.slots.size, e.args.size, e.source.names.size⟩ : Limits).Admits i e.operands.length

namespace Interpreter

open Ask

variable {host : Host σ} {i : Instruction} {e : Evaluation}

theorem goOn_safe (e : Evaluation) : Safe host (goOn e) := .pure _

theorem push_safe (v : Value) (e : Evaluation) : Safe host (push v e) := .pure _

theorem one_safe {f : Value → Action σ} (hlen : 1 ≤ e.operands.length)
    (h : ∀ a rest, e.operands = a :: rest → Safe host (f a { e with operands := rest })) : Safe host (one f e) := by
  unfold one
  split
  · exact h _ _ ‹_›
  · rename_i hnil
    rw [hnil] at hlen
    cases hlen

theorem two_safe {f : Value → Value → Action σ} (hlen : 2 ≤ e.operands.length)
    (h : ∀ a b rest, e.operands = b :: a :: rest → Safe host (f a b { e with operands := rest })) :
    Safe host (two f e) := by
  refine one_safe (Nat.le_of_succ_le hlen) fun b rest ho => one_safe ?_ fun a rest' ho' => h a b rest' ?_
  · rw [ho] at hlen
    exact Nat.le_of_succ_le_succ hlen
  · have ho' : rest = a :: rest' := ho'
    rw [ho, ho']

theorem three_safe {f : Value → Value → Value → Action σ} (hlen : 3 ≤ e.operands.length)
    (h : ∀ a b c rest, Safe host (f a b c { e with operands := rest })) : Safe host (three f e) := by
  refine one_safe (Nat.le_trans (by decide) hlen) fun c rest ho => two_safe ?_ fun a b rest' _ => h a b c rest'
  rw [ho] at hlen
  exact Nat.le_of_succ_le_succ hlen

theorem keeping_safe {f : Value → Ask σ Unit} (hlen : 1 ≤ e.operands.length) (h : ∀ a, Safe host (f a)) :
    Safe host (keeping f e) :=
  one_safe hlen fun a _ _ => (h a).bind fun _ => push_safe _ _

theorem jumpIf_safe (condition : Bool) (v : Value) (e : Evaluation) : Safe host (jumpIf i condition v e) := by
  refine .bind .get fun w => ?_
  split
  · exact goOn_safe _
  · exact goOn_safe _

theorem arith_safe {op : Opcode} (hop : op.isArith = true) (a b : Value) : Safe host (arith op a b) := by
  refine .bind .get fun w => ?_
  obtain ⟨v, hv⟩ := Value.arith_ok hop w.atoms a b
  generalize Value.arith w.atoms op a b = r at hv
  obtain ⟨result, atoms⟩ := r
  subst hv
  exact .bind (.update _) fun _ => .pure v

/-- A name that the verifier has let pass is there; only the source of the evaluation matters. -/
theorem name_safe (h : i.Fits e) (hop : i.opcode.hasAtom = true) {e' : Evaluation} (hs : e'.source = e.source) :
    Safe host (name i e') := by
  have hformat : i.opcode.format = .u32 := by
    generalize i.opcode = op at hop
    cases op <;> first | rfl | cases hop
  obtain ⟨index, hindex⟩ := Lowering.u32_of_format (h.format.trans hformat)
  have hlt : index.toNat < e.source.names.size := Lowering.atom_lt hop hindex h.operand
  unfold name
  rw [hindex, Option.bind_some, hs, Array.getElem?_eq_getElem hlt]
  exact .pure _

theorem local?_isSome {index : Nat} (h : index < e.slots.size + e.operands.length) : ∃ v, e.local? index = some v := by
  unfold Evaluation.local?
  split
  · exact ⟨_, Array.getElem?_eq_getElem ‹_›⟩
  · have hlt : index - e.slots.size < e.operands.reverse.length := by rw [List.length_reverse]; omega
    exact ⟨_, List.getElem?_eq_getElem hlt⟩

theorem setLocal_safe {index : Nat} (hlen : 1 ≤ e.operands.length) (h : index < e.slots.size) :
    Safe host (setLocal index e) := by
  refine one_safe hlen fun a rest _ => ?_
  rw [if_pos h]
  exact push_safe _ _

theorem stepLocal_safe {op : Opcode} (hop : op.isArith = true) {index : Nat} (h : index < e.slots.size) :
    Safe host (stepLocal op index e) := by
  obtain ⟨v, hv⟩ := local?_isSome (e := e) (Nat.lt_add_right _ h)
  unfold stepLocal
  rw [hv]
  exact (arith_safe hop _ _).bind fun w => setLocal_safe (Nat.succ_le_succ (Nat.zero_le _)) h

theorem call_safe {argc : Nat} (h : argc + 2 ≤ e.operands.length) : Safe host (call host argc e) := by
  unfold call
  have hlen : (e.operands.take (argc + 2)).reverse.length = argc + 2 := by
    rw [List.length_reverse, List.length_take, Nat.min_eq_left h]
  split
  · rw [if_neg (Nat.not_lt.mpr h)]
    refine .bind (fun w e w' he _ => .call he) fun answer => ?_
    cases answer with
    | value v => exact push_safe _ _
    | invoke script => exact .pure _
  -- The stack holds callee and receiver as well, so the values taken are never fewer than two.
  · rename_i hshort
    match hlist : (e.operands.take (argc + 2)).reverse with
    | [] | [_] =>
      rw [hlist] at hlen
      simp at hlen
    | callee :: this :: args => exact absurd hlist (hshort callee this args)

/-- An instruction that the verifier has let pass fails with an internal error only if the host does. -/
theorem act_safe (h : i.Fits e) : Safe host (act host i e) := by
  have hname (hop : i.opcode.hasAtom = true) {e' : Evaluation} (hs : e'.source = e.source) : Safe host (name i e') :=
    name_safe h hop hs
  obtain ⟨hformat, htaken, hpops, hoperand⟩ := h
  obtain ⟨offset, op, operand, size⟩ := i
  cases op
  all_goals simp only [act]
  case debugger | throwValue | lambda | arguments | enterWith | leaveWith => cases htaken
  -- Instructions that move values about.
  case nop | loopHead => exact goOn_safe e
  case pop => exact one_safe hpops fun _ _ _ => goOn_safe _
  case popN =>
    rw [if_pos (by exact hpops)]
    exact goOn_safe _
  case dup => exact one_safe hpops fun _ _ _ => push_safe _ _
  case dup2 | swap => exact two_safe hpops fun _ _ _ _ => push_safe _ _
  case pushUndefined | pushNull | pushTrue | pushFalse | pushZero | pushOne | pushHole => exact push_safe _ e
  case pushInt8 | pushInt32 | pushDouble => cases operand <;> first | exact push_safe _ e | cases hformat
  case pushString => exact (hname rfl rfl).bind fun _ => push_safe _ e
  case getLocal =>
    obtain ⟨v, hv⟩ := local?_isSome hoperand
    unfold getLocal
    rw [hv]
    exact push_safe v e
  case setLocal => exact setLocal_safe hpops hoperand
  case getArg =>
    unfold getArg
    rw [Array.getElem?_eq_getElem hoperand]
    exact push_safe _ e
  case setArg =>
    refine one_safe hpops fun a rest _ => ?_
    rw [if_pos (by exact hoperand)]
    exact push_safe _ _
  case incLocal | decLocal => exact stepLocal_safe rfl hoperand
  -- Operators.
  case add | sub | mul | div | mod | bitAnd | bitOr | bitXor | lsh | rsh | ursh =>
    exact two_safe hpops fun a b _ _ => (arith_safe rfl a b).bind fun _ => push_safe _ _
  case neg | bitNot | pos | logicalNot => exact one_safe hpops fun _ _ _ => .bind .get fun _ => push_safe _ _
  case eq | ne | strictEq | strictNe | lt | le | gt | ge =>
    exact two_safe hpops fun _ _ _ _ => .bind .get fun _ => push_safe _ _
  -- Jumps and returns.
  case goto => exact goOn_safe _
  case ifEq | ifNe | andJump | orJump => exact one_safe hpops fun a _ _ => jumpIf_safe _ a _
  case ret => exact one_safe hpops fun _ _ _ => .pure _
  case stop => exact .pure _
  -- What the host is asked for.
  case getName => exact (hname rfl rfl).bind fun _ => .bind (fun _ _ _ he _ => .getName he) fun _ => push_safe _ e
  case getGlobal => exact (hname rfl rfl).bind fun _ => .bind (fun _ _ _ he _ => .getGlobal he) fun _ => push_safe _ e
  case setName => exact (hname rfl rfl).bind fun _ => keeping_safe hpops fun _ _ _ _ he _ => .setName he
  case setGlobal => exact (hname rfl rfl).bind fun _ => keeping_safe hpops fun _ _ _ _ he _ => .setGlobal he
  case getProp =>
    exact one_safe hpops fun _ _ _ => (hname rfl rfl).bind fun _ => .bind (fun _ _ _ he _ => .getProperty he) fun _ =>
      push_safe _ _
  case setProp =>
    exact two_safe hpops fun _ _ _ _ => (hname rfl rfl).bind fun _ => .bind (fun _ _ _ he _ => .setProperty he) fun _ =>
      push_safe _ _
  case getElem => exact two_safe hpops fun _ _ _ _ => .bind (fun _ _ _ he _ => .getProperty he) fun _ => push_safe _ _
  case setElem => exact three_safe hpops fun _ _ _ _ => .bind (fun _ _ _ he _ => .setProperty he) fun _ => push_safe _ _
  case call => exact call_safe hpops

end Interpreter

/-! ## Whole runs -/

theorem Limits.Admits.mono {l l' : Limits} {i : Instruction} {depth : Nat} (h : l.Admits i depth)
    (hslots : l.slots = l'.slots) (hargs : l.args ≤ l'.args) (hatoms : l.atoms ≤ l'.atoms) : l'.Admits i depth := by
  unfold Admits at h ⊢
  rw [← hslots]
  generalize i.opcode = op at h ⊢
  cases op <;> first | exact h | exact Nat.lt_of_lt_of_le h hargs | exact Nat.lt_of_lt_of_le h hatoms

theorem Source.atoms_le {p : Program} {atoms : AtomTable} {s : Source} (h : ofProgram? p atoms = some s) :
    p.atoms.size ≤ s.names.size := by
  by_cases hz : p.atoms.size = 0
  · rw [hz]
    exact Nat.zero_le _
  · have hlt : p.atoms.size - 1 < p.atoms.size := by omega
    obtain ⟨_, _, hget⟩ := names_of h (Array.getElem?_eq_getElem hlt)
    have := (Array.getElem?_eq_some_iff.mp hget).1
    omega

/-- The next instruction of an evaluation that the machine stands at is one that the verifier has let pass. -/
theorem Standing.fits {job : Job (StubBody σ)} {f : Draft (StubBody σ)} {pc : Nat} {v : View} {e : Evaluation}
    (h : Standing job f pc v e) (hj : job.Sound) :
    ∃ i, Instruction.decodeAt e.source.program.code e.offset = .ok i ∧ i.Fits { e with offset := i.next } := by
  rw [h.program]
  obtain ⟨hspot, hoff, hpc, hmir⟩ := h
  rename_i i info d₀ d₁ d₂
  have hdecode := hj.verified.tiles.decodeAt i hspot.mem
  have hformat := (hj.verified.tiles.sound hspot.mem).2.format
  have hadmissible := hj.verified.admissible hspot.mem hspot.reached
  have hdepth : e.operands.length = info.depth := hmir.length.trans hspot.arrives.depth
  refine ⟨i, hoff ▸ hdecode, hformat, hspot.taken, hdepth ▸ hadmissible.pops, ?_⟩
  show Limits.Admits ⟨e.slots.size, e.args.size, e.source.names.size⟩ i e.operands.length
  rw [hdepth]
  exact hadmissible.operand.mono hmir.slotCount.symm hmir.argCount (Source.atoms_le hmir.source)

/-- What a call finds is a source, or no internal error. -/
theorem Called.isInternal {found : Option (Script (StubBody σ))} {err : RunError} (h : Called found (.error err)) :
    err.isInternal = false := by
  cases h <;> rfl

section Runs

variable {host : Host σ} {scripts : Scripts σ} {sources : Interpreter.Sources} {c : Config σ} {k : Interpreter.Config σ}

/-- A step of an interpretation that the machine follows fails with an internal error only if the host does. -/
theorem Follows.step_safe (h : Follows host scripts c k) (hs : Corresponds scripts sources) {e : RunError} {w : World σ}
    (hend : Interpreter.step host sources k = .ended (.error e) w) (hint : e.isInternal = true) : host.Raises e := by
  obtain ⟨hb, hst, _, _, _, _⟩ := h
  obtain ⟨i, hdecode, hfits⟩ := hst.fits hb.sound
  unfold Interpreter.step at hend
  simp only [hdecode] at hend
  split at hend
  · cases hend
    exact Interpreter.act_safe hfits _ _ _ ‹_› hint
  · cases hend
  -- A call: of nothing, of a script without code, or of one more than may be nested.
  · rename_i script args e' w' _
    have hcalled := hs script
    cases hsource : sources script with
    | error err =>
      rw [hsource] at hcalled hend
      cases hend
      rw [hcalled.isInternal] at hint
      cases hint
    | ok source =>
      rw [hsource] at hend
      by_cases hdeep : k.maxDepth < k.depth + 1
      · simp only [bind, Except.bind, Interpreter.open?, if_pos hdeep] at hend
        cases hend
        cases hint
      · simp only [bind, Except.bind, Interpreter.open?, if_neg hdeep] at hend
        cases hend
  · split at hend <;> cases hend

/-- A machine that follows an interpretation ends with an internal error only if the host fails with it. -/
theorem Follows.run_safe (h : Follows host scripts c k) (hs : Corresponds scripts sources) {fuel : Nat} {e : RunError}
    {m : Machine} {w : World σ} (hrun : c.run host scripts fuel = some (.error e, m, w)) (hint : e.isInternal = true) :
    host.Raises e := by
  obtain ⟨k', hk', hconcludes⟩ := (h.run_iff hs).mp ⟨fuel, m, hrun⟩
  cases hconcludes with
  | misjudged _ _ => cases hint
  | ended _ hstep =>
    obtain ⟨c', _, hfollows⟩ := h.clears hs hk'
    exact hfollows.step_safe hs hstep hint

/-- An activation that cannot be opened fails with no internal error. -/
theorem Interpreter.start_safe {source : Source} {args : List Value} {depth maxDepth : Nat} {world : World σ}
    {e : RunError} (h : Interpreter.start source args depth maxDepth world = .error e) : e.isInternal = false := by
  unfold Interpreter.start Interpreter.open? at h
  split at h
  · cases h
    rfl
  · cases h

theorem Machine.execute_safe (hscripts : scripts.Baseline) {s : Script (StubBody σ)} (hs : s.Baseline)
    {machine m : Machine} {args : List Value} {world w : World σ} {fuel : Nat} {e : RunError}
    (h : machine.execute host scripts fuel s args world = some (.error e, m, w)) (hint : e.isInternal = true) :
    host.Raises e := by
  obtain ⟨sources, hsources⟩ := hscripts.corresponds
  cases hm : s.baseline with
  | none =>
    simp only [execute, start, Activation.enter, hm] at h
    cases h
    cases hint
  | some method =>
    obtain ⟨source, hcompiled⟩ := hs.compiled hm
    obtain ⟨c, hstart, ⟨err, hk, hhalts⟩ | ⟨c', k, _, hc', hfollows⟩⟩ := hcompiled.start host scripts machine args world
    · simp only [execute, hstart] at h
      obtain ⟨he, _⟩ := hhalts.run_iff.mp ⟨fuel, m, h⟩
      cases he
      rw [Interpreter.start_safe hk] at hint
      cases hint
    · simp only [execute, hstart] at h
      obtain ⟨fuel', m', hrun⟩ := hc'.run_iff.mp ⟨fuel, m, h⟩
      exact hfollows.run_safe hsources hrun hint

end Runs

/-! ## Sites -/

namespace Job

variable {β : Type} {job : Job β}

theorem isArith_of_kind? {i : Instruction} {ts : Types} {op : Opcode} (h : job.kind? i ts = .ok (some (.arith op))) :
    op.isArith = true := by
  have hmap {f : Atom → Option SiteKind} (hf : ∀ a, f a ≠ some (.arith op))
      (h : (job.name i).map f = .ok (some (.arith op))) : False := by
    obtain ⟨a, _, ha⟩ := exists_name h
    exact hf a ha
  unfold kind? at h
  generalize hop : i.opcode = o at h
  cases o
  case ifEq | ifNe | andJump | orJump | logicalNot =>
    have h : Except.ok (if i.presumes ts then none else some SiteKind.toBool) = .ok (some (.arith op)) := h
    split at h <;> cases h
  case getName | setName | getGlobal | setGlobal | getProp | setProp | pushString =>
    exact (hmap (fun _ hf => by cases hf) h).elim
  case add | sub | mul | div | mod | bitAnd | bitOr | bitXor | lsh | rsh | ursh | incLocal | decLocal => cases h; rfl
  all_goals cases h

/-- Each site of the census belongs to an instruction. -/
theorem kind?_of_census {entries : List (Instruction × Types)} {n : Nat} {log : List (UInt32 × SiteKind)}
    (h : job.census entries n = .ok log) {pc : UInt32} {kind : SiteKind} (hmem : (pc, kind) ∈ log) :
    ∃ i ts, (i, ts) ∈ entries ∧ pc = UInt32.ofNat i.offset ∧ job.kind? i ts = .ok (some kind) := by
  induction entries generalizing n log with
  | nil =>
    cases h
    cases hmem
  | cons entry rest ih =>
    obtain ⟨i, ts⟩ := entry
    have hlater {n : Nat} {log : List (UInt32 × SiteKind)} (h : job.census rest n = .ok log) (hmem : (pc, kind) ∈ log) :
        ∃ j ts', (j, ts') ∈ (i, ts) :: rest ∧ pc = UInt32.ofNat j.offset ∧ job.kind? j ts' = .ok (some kind) := by
      obtain ⟨j, ts', hj, hrest⟩ := ih h hmem
      exact ⟨j, ts', List.mem_cons_of_mem _ hj, hrest⟩
    unfold census at h
    split at h
    · cases h
    · split at h
      · cases h
      · exact hlater h hmem
      · rename_i kind' hkind
        split at h
        · cases h
        · cases hrest : job.census rest (n + 1) with
          | error e => rw [hrest] at h; cases h
          | ok log' =>
            rw [hrest] at h
            cases h
            rcases List.mem_cons.mp hmem with heq | hmem
            · cases heq
              exact ⟨i, ts, by simp, rfl, hkind⟩
            · exact hlater hrest hmem

theorem kind?_of_verdict {log : List (UInt32 × SiteKind)} (h : job.verdict = .ok log) {pc : UInt32} {kind : SiteKind}
    (hmem : (pc, kind) ∈ log) :
    ∃ i ts, (i, ts) ∈ job.program.annotated ∧ pc = UInt32.ofNat i.offset ∧ job.kind? i ts = .ok (some kind) := by
  unfold verdict at h
  split at h
  · cases h
  · split at h
    · cases h
    · exact kind?_of_census h hmem

end Job

/-- Sites for arithmetic are for operators that are. -/
def Method.Arithmetic (m : Method (StubBody σ)) : Prop :=
  ∀ index site op, m.site? index = some site → site.kind = .arith op → op.isArith = true

theorem Script.Baseline.arithmetic {s : Script (StubBody σ)} {m : Method (StubBody σ)} (h : s.Baseline)
    (hm : s.baseline = some m) :
    m.Arithmetic := by
  obtain ⟨_, _, f, _, hinstalled, _, _, hverdict⟩ := h.charted hm
  intro index site op hsite hkind
  have hmem : (site.pc, SiteKind.arith op) ∈ m.log := by
    rw [← hkind]
    exact List.mem_map.mpr ⟨site, Array.mem_toList_iff.mpr (Array.mem_of_getElem? hsite), rfl⟩
  rw [hinstalled.log] at hmem
  obtain ⟨i, ts, _, _, hi⟩ := Job.kind?_of_verdict hverdict hmem
  exact Job.isArith_of_kind? hi

namespace Config

def Calls (c : Config σ) (kind : SiteKind) : Prop :=
  ∃ patch index site, c.current.method.code.insts[c.current.pc]? = some (.callSite patch) ∧
    c.current.method.code.slot? patch = some index ∧ c.current.method.site? index = some site ∧ site.kind = kind

end Config

namespace StoreSum

def code : List UInt8 := [0x1A, 0, 0, 0x0D, 0x20, 0x51, 0, 0, 0, 0, 0x60]

def program : Program := (Program.ofCode "f" code 0 1 #["x"]).toOption.getD default

def script : Script (StubBody Unit) := .compiling Unit program (.internAll .empty ["x"])

def host : Host Unit := { LookupCall.host with setName := fun _ _ => throw .stackUnderflow }

theorem baseline : script.Baseline := by
  have hp : Program.ofCode "f" code 0 1 #["x"] = .ok program := rfl
  exact Script.baseline_compiling hp (by decide) _

theorem no_scripts_baseline : Scripts.Baseline (fun _ => none : Scripts Unit) := by
  intro n s hs
  cases hs

end StoreSum

/-! ## Safety -/

namespace Machine

/-- A run of compiled code ends with an internal error only if the host fails with it, and every arithmetic site that it
    comes to has a result. -/
theorem internal_errors_are_the_hosts {scripts : Scripts σ} (hscripts : scripts.Baseline) {s : Script (StubBody σ)}
    (hs : s.Baseline) (host : Host σ) (machine : Machine) (args : List Value) (world : World σ) :
    (∀ fuel e m w, machine.execute host scripts fuel s args world = some (.error e, m, w) → e.isInternal = true →
      host.Raises e) ∧
      ∀ c₀ c op, machine.start s args world = .ok c₀ → Config.Leads host scripts c₀ c → c.Calls (.arith op) →
        ∀ t a b, ∃ v, (Value.arith t op a b).1 = .ok v := by
  refine ⟨fun fuel e m w h => execute_safe hscripts hs h, fun c₀ c op hstart hleads hcalls t a b => ?_⟩
  have hall₀ : c₀.All Method.Arithmetic := by
    obtain ⟨a, ha, rfl⟩ := enter_of_start hstart
    exact ⟨hs.arithmetic (Config.method_of_enter ha), fun a ha => by cases ha⟩
  obtain ⟨_, hall⟩ := hleads.keeps (hscripts.spares host) (start_spares hs hstart host)
    (fun _ _ h hsteps => h.step (fun n s m hn hm => (hscripts n s hn).arithmetic hm) hsteps.nests) hall₀
  obtain ⟨_, index, site, _, _, hsite, hkind⟩ := hcalls
  exact Value.arith_ok (hall.1 index site op hsite hkind) t a b

theorem internal_errors_are_the_hosts_storeSum : StoreSum.script.Baseline ∧ ∃ c₀ c m w,
    start { maxDepth := 1 } StoreSum.script [.int32 1] ⟨.internAll .empty ["x"], ()⟩ = .ok c₀ ∧
      Config.Leads StoreSum.host (fun _ => none) c₀ c ∧
      c.Calls (.arith .add) ∧ (∀ t a b, ∃ v, (Value.arith t .add a b).1 = .ok v) ∧
      execute { maxDepth := 1 } StoreSum.host (fun _ => none) 30 StoreSum.script [.int32 1]
        ⟨.internAll .empty ["x"], ()⟩ =
        some (.error .stackUnderflow, m, w) ∧ StoreSum.host.Raises .stackUnderflow := by
  have hrun : ((start { maxDepth := 1 } StoreSum.script [.int32 1] ⟨.internAll .empty ["x"], ()⟩).toOption.bind
      (Config.after? StoreSum.host (fun _ => none) 4)).map (fun c => (c.current.method.code.insts[c.current.pc]?,
        c.current.method.code.slot? 0, (c.current.method.site? 0).map Site.kind)) =
      some (some (.callSite 0), some 0, some (.arith .add)) := by cbv
  have hend : (execute { maxDepth := 1 } StoreSum.host (fun _ => none) 30 StoreSum.script [.int32 1]
      ⟨.internAll .empty ["x"], ()⟩).map Prod.fst =
      some (.error .stackUnderflow) := by cbv
  obtain ⟨c, hc, hfacts⟩ := Option.map_eq_some_iff.mp hrun
  obtain ⟨c₀, hc₀, hafter⟩ := Option.bind_eq_some_iff.mp hc
  simp only [Prod.mk.injEq] at hfacts
  obtain ⟨hinst, hslot, hsite⟩ := hfacts
  obtain ⟨site, hsite, hkind⟩ := Option.map_eq_some_iff.mp hsite
  obtain ⟨⟨r, m, w⟩, hend, rfl⟩ := Option.map_eq_some_iff.mp hend
  have hstart := Script.ok_of_toOption hc₀
  have hleads := Config.leads_of_after? hafter
  have hcalls : c.Calls (.arith .add) := ⟨0, 0, site, hinst, hslot, hsite, hkind⟩
  have h := internal_errors_are_the_hosts StoreSum.no_scripts_baseline StoreSum.baseline StoreSum.host
    { maxDepth := 1 } [.int32 1]
    ⟨.internAll .empty ["x"], ()⟩
  exact ⟨StoreSum.baseline, c₀, c, m, w, hstart, hleads, hcalls, h.2 c₀ c .add hstart hleads hcalls, hend,
    h.1 30 _ m w hend rfl⟩

end Machine
end BaselineTier
