/-
  BaselineTier.Proofs.Running — the machine on the code of a draft.

  A draft whose code is installed as a method (`Draft.Installed`) says what the method holds
  at each offset. An activation is placed over what lies below it on the stack
  (`Config.place`), and runs one instruction at a time (`Config.After`): moves that its view
  can carry out, in as many steps (`After.moves`), branches to where their labels are bound,
  and a call through a site as the fallback of the site's kind answers it (`step_site`).
-/

import BaselineTier.Machine.Step
import BaselineTier.Proofs.Emission

namespace BaselineTier

variable {σ : Type}

/-! ## Steps in a row -/

namespace Config

def After (host : Host σ) (scripts : Scripts σ) : Nat → Config σ → Config σ → Prop
  | 0, c, c' => c = c'
  | n + 1, c, c' => ∃ c₁, c.step host scripts = .running c₁ ∧ After host scripts n c₁ c'

variable {host : Host σ} {scripts : Scripts σ}

theorem After.trans {n k : Nat} {c c' c'' : Config σ} (h : After host scripts n c c')
    (h' : After host scripts k c' c'') :
    After host scripts (n + k) c c'' := by
  induction n generalizing c with
  | zero => cases h; rw [Nat.zero_add]; exact h'
  | succ n ih =>
    obtain ⟨c₁, hstep, h⟩ := h
    rw [Nat.succ_add]
    exact ⟨c₁, hstep, ih h⟩

theorem After.one {c c' : Config σ} (h : c.step host scripts = .running c') : After host scripts 1 c c' := ⟨c', h, rfl⟩

/-- A run goes on from where its first steps lead. -/
theorem After.run {n : Nat} {c c' : Config σ} (h : After host scripts n c c') (fuel : Nat) :
    c.run host scripts (n + fuel) = c'.run host scripts fuel := by
  induction n generalizing c with
  | zero => cases h; rw [Nat.zero_add]
  | succ n ih =>
    obtain ⟨c₁, hstep, h⟩ := h
    rw [Nat.succ_add, Config.run, hstep]
    exact ih h

/-- The running activation at an offset, with its view laid over what lies below. -/
def place (c : Config σ) (lower : ValueStack) (pc argc : Nat) (v : View) (w : World σ) : Config σ :=
  { c with
    machine := { c.machine with stack := v.stack lower }
    world := w
    current := { c.current with pc, argc, frame := v.frame lower.size } }

end Config

/-! ## Installed code -/

namespace Draft

/-- The method holds what was emitted, with the labels turned into offsets, and the sites with their stubs. Sites and
    stubs are numbered with 32 bits; the last number marks an empty slot. -/
structure Installed (f : Draft (StubBody σ)) (m : Method (StubBody σ)) : Prop where
  insts : ∀ {k : Nat} {i : Inst Label}, f.buffer.insts[k]? = some i →
    ∃ i', m.code.insts[k]? = some i' ∧ i.resolve f.buffer.find = .ok i'
  slots : m.code.slots = f.buffer.patches.map PatchSite.site
  sites : m.sites = f.sites.sites
  store : m.store = f.sites.store
  few : m.sites.size < 2 ^ 32
  fewStubs : m.store.stubs.size ≤ 2 ^ 32

variable {d d' f : Draft (StubBody σ)} {m : Method (StubBody σ)}

/-- An instruction without a target is installed as it is. -/
theorem Installed.inst (h : f.Installed m) (hg : d.Grows f) {k : Nat} {i : Inst Label} {i' : Inst Nat}
    (hk : d.buffer.insts[k]? = some i) (hi : ∀ find : Label → Except LinkError Nat, i.resolve find = .ok i') :
    m.code.insts[k]? = some i' := by
  obtain ⟨i'', hk', hr⟩ := h.insts (hg.insts hk)
  rw [hi] at hr
  cases hr
  exact hk'

/-- A branch is installed with the offset that its label is bound to. -/
theorem Installed.branch (h : f.Installed m) (hg : d.Grows f) {k : Nat} {i : Inst Label} {label : Label}
    {i' : Nat → Inst Nat} (hk : d.buffer.insts[k]? = some i)
    (hi : ∀ find : Label → Except LinkError Nat, i.resolve find = (find label).map i') :
    ∃ offset, f.buffer.labelOffset? label = some offset ∧ m.code.insts[k]? = some (i' offset) := by
  obtain ⟨i'', hk', hr⟩ := h.insts (hg.insts hk)
  rw [hi, CodeBuffer.find] at hr
  cases hl : f.buffer.labelOffset? label with
  | none => rw [hl] at hr; cases hr
  | some offset =>
    rw [hl] at hr
    cases hr
    exact ⟨offset, rfl, hk'⟩

end Draft

namespace Config

variable {host : Host σ} {scripts : Scripts σ} {c : Config σ} {lower : ValueStack} {pc argc : Nat} {v : View}
  {w : World σ}

theorem step_eq {i : Inst Nat} (h : c.current.method.code.insts[pc]? = some i) :
    (c.place lower pc argc v w).step host scripts = exec host scripts i (c.place lower (pc + 1) argc v w) := by
  have hinst : (c.place lower pc argc v w).current.method.code.insts[(c.place lower pc argc v w).current.pc]? =
      some i := h
  rw [step, hinst]
  rfl

theorem step_move {mv : Move} {v' : View} (h : c.current.method.code.insts[pc]? = some (.move mv))
    (hv : v.perform mv = some v') :
    (c.place lower pc argc v w).step host scripts = .running (c.place lower (pc + 1) argc v' w) := by
  rw [step_eq h]
  simp only [exec, place, View.perform_frame lower hv]

/-- Moves are carried out one after the other. -/
theorem After.moves {ms : List Move} {v' : View}
    (hcode : ∀ {k mv}, ms[k]? = some mv → c.current.method.code.insts[pc + k]? = some (.move mv))
    (hv : v.performAll ms = some v') :
    After host scripts ms.length (c.place lower pc argc v w) (c.place lower (pc + ms.length) argc v' w) := by
  induction ms generalizing pc v with
  | nil => cases hv; rfl
  | cons mv ms ih =>
    obtain ⟨v₁, hv₁, hv⟩ := Option.bind_eq_some_iff.mp hv
    refine ⟨_, step_move (hcode (k := 0) rfl) hv₁, ?_⟩
    have hrest : After host scripts ms.length (c.place lower (pc + 1) argc v₁ w)
        (c.place lower (pc + 1 + ms.length) argc v' w) := by
      refine ih (fun {k mv} hk => ?_) hv
      rw [Nat.add_assoc, Nat.add_comm 1 k]
      exact hcode (k := k + 1) hk
    rwa [List.length_cons, Nat.add_comm ms.length 1, ← Nat.add_assoc]

theorem step_jump {target : Nat} (h : c.current.method.code.insts[pc]? = some (.jump target)) :
    (c.place lower pc argc v w).step host scripts = .running (c.place lower target argc v w) := step_eq h

theorem step_setArgc {count : Nat} (h : c.current.method.code.insts[pc]? = some (.setArgc count)) :
    (c.place lower pc argc v w).step host scripts = .running (c.place lower (pc + 1) count v w) := step_eq h

theorem step_branch {reg : Reg} {condition b : Bool} {target : Nat}
    (h : c.current.method.code.insts[pc]? = some (.branch reg condition target))
    (hb : (v.registers.get reg).asBool = some b) :
    (c.place lower pc argc v w).step host scripts =
      .running (c.place lower (if b = condition then target else pc + 1) argc v w) := by
  rw [step_eq h]
  simp only [exec, place, Frame.boolean, View.frame, hb]

theorem step_branchNumber {reg : Reg} {target : Nat}
    (h : c.current.method.code.insts[pc]? = some (.branchNumber reg target)) :
    (c.place lower pc argc v w).step host scripts =
      .running (c.place lower (if (v.registers.get reg).isNumber then target else pc + 1) argc v w) := step_eq h

theorem step_negate {reg : Reg} {b : Bool} (h : c.current.method.code.insts[pc]? = some (.negate reg))
    (hb : (v.registers.get reg).asBool = some b) :
    (c.place lower pc argc v w).step host scripts =
      .running (c.place lower (pc + 1) argc (v.setReg reg (.bool !b)) w) := by
  rw [step_eq h]
  simp only [exec, place, Frame.boolean, View.frame, hb]
  rfl

def answered (scripts : Scripts σ) (c : Config σ) (lower : ValueStack) (pc argc : Nat) (v : View) (index : Nat)
    (r : EStateM.Result RunError (SiteState σ) Verdict) : Progress σ :=
  let after (s : SiteState σ) : Config σ :=
    { c.place lower pc argc { v with registers := s.registers, scratch := s.scratch } s.world with
      machine := s.machine }
  match r with
  | .error e s => (after s).fail e
  | .ok .done s => .running (after s)
  | .ok .next s => (after s).fail (.chainExhausted index)
  | .ok (.invoke script args) s => (after s).invoke scripts script args

end Config

namespace StubStore

/-- A stub that passes nothing on is a chain of its own. -/
theorem chain_of_last {β : Type} {s : StubStore β} {head : Nat} {stub : Stub β} (h : s.stubs[head]? = some stub)
    (hnext : stub.next = none) : s.chain head = [(head, stub)] := by
  obtain ⟨hlt, _⟩ := Array.getElem?_eq_some_iff.mp h
  rw [chain, size]
  cases hsize : s.stubs.size with
  | zero => omega
  | succ fuel => simp [chainFrom, get?, h, hnext]

end StubStore

namespace Config

variable {host : Host σ} {scripts : Scripts σ} {c : Config σ} {lower : ValueStack} {argc : Nat} {v : View} {w : World σ}

/-- The first stub of a chain tries, and the rest if it passes. -/
theorem tryStubs_cons {call : SiteCall} {index : Nat} (p : Nat × Stub (StubBody σ))
    (rest : List (Nat × Stub (StubBody σ))) (s : SiteState σ) :
    tryStubs host call index (p :: rest) s =
      match p.2.body.run host call s with
      | .error e s' => .error e s'
      | .ok .next s' => tryStubs host call index rest s'
      | .ok verdict s' => .ok verdict s' := by
  rw [tryStubs]
  show EStateM.bind _ _ s = _
  simp only [EStateM.bind]
  cases p.2.body.run host call s with
  | error e s' => rfl
  | ok verdict s' => cases verdict <;> rfl

/-- A chain of one stub ends as the stub does, and is exhausted if the stub passes. -/
theorem tryStubs_one (call : SiteCall) (index head : Nat) (stub : Stub (StubBody σ)) (s : SiteState σ) :
    tryStubs host call index [(head, stub)] s =
      match stub.body.run host call s with
      | .error e s' => .error e s'
      | .ok .next s' => .error (.chainExhausted index) s'
      | .ok verdict s' => .ok verdict s' := tryStubs_cons (head, stub) [] s

end Config

namespace Config

variable {host : Host σ} {scripts : Scripts σ} {c : Config σ} {lower : ValueStack} {argc : Nat} {v : View} {w : World σ}

/-- A call through a new site is answered by its fallback. -/
theorem step_site {d d' f : Draft (StubBody σ)} {kind : SiteKind} {fb : Fallback} (hs : d.Sited kind (.fallback fb) d')
    (hg : d'.Grows f) (hm : f.Installed c.current.method) :
    ∃ site : Site, site.kind = kind ∧ (c.place lower d.buffer.offset argc v w).step host scripts =
      answered scripts c lower (d.buffer.offset + 1) argc v d.sites.sites.size
        (fb.run host ⟨site, argc⟩ ⟨v.registers, v.scratch, { c.machine with stack := v.stack lower }, w⟩) := by
  have hinst : c.current.method.code.insts[d.buffer.offset]? = some (.callSite d.buffer.patches.size) := by
    refine hm.inst hg (i := .callSite d.buffer.patches.size) ?_ fun _ => rfl
    rw [hs.insts, CodeBuffer.offset]
    simp
  obtain ⟨site, hsite, hkind, hhead⟩ : ∃ site, f.sites.sites[d.sites.sites.size]? = some site ∧ site.kind = kind ∧
      site.head = d.sites.store.stubs.size % 2 ^ 32 := by
    obtain ⟨new, hnew, hkind, hhead⟩ : ∃ new, d'.sites.sites[d.sites.sites.size]? = some new ∧ new.kind = kind ∧
        new.head = d.sites.store.stubs.size % 2 ^ 32 := by
      rw [hs.sites, Array.getElem?_modify, Array.getElem?_push_size]
      split
      · exact ⟨_, rfl, rfl, rfl⟩
      · exact ⟨_, rfl, rfl, rfl⟩
    obtain ⟨site, hsite, hkind', hhead'⟩ := hg.sites hnew
    exact ⟨site, hsite, hkind'.trans hkind, hhead'.trans hhead⟩
  have hstub : f.sites.store.stubs[d.sites.store.stubs.size]? = some ⟨.fallback, .fallback fb, none⟩ :=
    hg.stubs (by rw [hs.stubs]; simp)
  -- the new site and its stub are numbered truly, since there are few of them in the end
  have hlt : d.sites.sites.size < 2 ^ 32 - 1 := by
    have := hm.few
    rw [hm.sites] at this
    have := (Array.getElem?_eq_some_iff.mp hsite).1
    omega
  have hltStub : d.sites.store.stubs.size < 2 ^ 32 := by
    have := hm.fewStubs
    rw [hm.store] at this
    have := (Array.getElem?_eq_some_iff.mp hstub).1
    omega
  have hpatch : f.buffer.patches[d.buffer.patches.size]? = some ⟨d.buffer.offset, d.sites.sites.size⟩ := by
    refine hg.patches ?_
    rw [hs.patches, Array.getElem?_push_size, Nat.mod_eq_of_lt (by omega)]
  have hslot : c.current.method.code.slot? d.buffer.patches.size = some d.sites.sites.size := by
    have hne : d.sites.sites.size ≠ unpatched := by simp only [unpatched]; omega
    rw [LinkedCode.slot?, hm.slots, Array.getElem?_map, hpatch]
    simp [Option.filter, hne]
  have hsite' : c.current.method.site? d.sites.sites.size = some site := by
    rw [Method.site?, hm.sites, hsite]
  have hchain : c.current.method.store.chain site.head =
      [(d.sites.store.stubs.size, ⟨.fallback, .fallback fb, none⟩)] := by
    rw [hm.store, hhead, Nat.mod_eq_of_lt hltStub]
    exact StubStore.chain_of_last hstub rfl
  refine ⟨site, hkind, ?_⟩
  rw [step_eq hinst]
  simp only [exec, place, callSite, hslot, hsite', Option.bind_some, Option.map_some, hchain, tryStubs_one,
    StubBody.run,
    View.frame]
  cases fb.run host _ _ with
  | error e s => rfl
  | ok verdict s => cases verdict <;> rfl

end Config
end BaselineTier
