/-
  BaselineTier.Proofs.Transparency — specialised stubs that agree with their fallback.

  A stub may stand in front of a site's fallback if on every call it passes on and leaves
  everything as it was, or comes to what the fallback comes to (`Method.Transparent`). If
  the fallback is steady, a chain of such stubs answers every call as its fallback alone
  does (`tryStubs_of_entries`), so the method is as good as the one that was compiled
  (`Method.Like`). Runs of methods that are as good as each other go in step: they differ
  in the methods of their activations only (`Config.Like.step`), and end alike
  (`Config.Like.run`).

  Agreeing is not enough (`agreeing_stubs_can_show`). A fallback that leaves a trace when it
  passes on leaves it twice behind a stub that does the same; one that looks at the first
  stub of its site sees another; and behind 2 ^ 32 stubs the links lead elsewhere. The usual
  fallbacks do neither of the first two (`Fallback.steady`).
-/

import BaselineTier.Proofs.Chains
import BaselineTier.Proofs.Correspondence
import BaselineTier.Proofs.Operators
import BaselineTier.Realm

namespace BaselineTier

variable {σ : Type}

/-! ## Methods that are as good as each other -/

inductive Site.Like (host : Host σ) (m m' : Method (StubBody σ)) (index : Nat) : Prop
  | none : m.site? index = .none → m'.site? index = .none → Site.Like host m m' index
  | some {site site' : Site} : m.site? index = .some site → m'.site? index = .some site' →
      (∀ (argc : Nat) (s : SiteState σ), Config.tryStubs host ⟨site', argc⟩ index (m'.store.chain site'.head) s =
        Config.tryStubs host ⟨site, argc⟩ index (m.store.chain site.head) s) → Site.Like host m m' index

structure Method.Like (host : Host σ) (m m' : Method (StubBody σ)) : Prop where
  code : m'.code = m.code
  site : ∀ index, Site.Like host m m' index

theorem Method.Like.refl (host : Host σ) (m : Method (StubBody σ)) : m.Like host m := by
  refine ⟨rfl, fun index => ?_⟩
  cases hsite : m.site? index with
  | none => exact .none hsite hsite
  | some site => exact .some hsite hsite fun _ _ => rfl

inductive Script.Like (host : Host σ) : Script (StubBody σ) → Script (StubBody σ) → Prop
  | bare (p : Program) : Script.Like host ⟨p, none⟩ ⟨p, none⟩
  | code (p : Program) {m m' : Method (StubBody σ)} : m.Like host m' → Script.Like host ⟨p, some m⟩ ⟨p, some m'⟩

theorem Script.Like.refl (host : Host σ) (s : Script (StubBody σ)) : s.Like host s := by
  obtain ⟨p, _ | m⟩ := s
  · exact .bare p
  · exact .code p (.refl host m)

inductive Activation.Like (host : Host σ) : Activation σ → Activation σ → Prop
  | mk {m m' : Method (StubBody σ)} (pc argc : Nat) (frame : Frame) : m.Like host m' →
      Activation.Like host ⟨m, pc, argc, frame⟩ ⟨m', pc, argc, frame⟩

inductive Config.Like (host : Host σ) : Config σ → Config σ → Prop
  | mk (machine : Machine) (world : World σ) {a a' : Activation σ} {callers callers' : List (Activation σ)}
      (base : Nat) :
      a.Like host a' → List.Forall₂ (Activation.Like host) callers callers' →
      Config.Like host ⟨machine, world, a, callers, base⟩ ⟨machine, world, a', callers', base⟩

inductive Progress.Like (host : Host σ) : Progress σ → Progress σ → Prop
  | running {c c' : Config σ} : c.Like host c' → Progress.Like host (.running c) (.running c')
  | ended (result : Except RunError Value) (machine : Machine) (world : World σ) :
      Progress.Like host (.ended result machine world) (.ended result machine world)

/-! ## Running in step -/

/-- Calling scripts that are alike. -/
theorem Script.Like.enter {host : Host σ} {s s' : Script (StubBody σ)} (h : s.Like host s') (args : List Value)
    (height : Nat) :
    (∃ e, Activation.enter s args height = .error e ∧ Activation.enter s' args height = .error e) ∨
      ∃ a a', Activation.enter s args height = .ok a ∧ Activation.enter s' args height = .ok a' ∧ a.Like host a' := by
  cases h with
  | bare p => exact .inl ⟨_, rfl, rfl⟩
  | code p hm =>
    refine .inr ⟨_, _, rfl, rfl, ?_⟩
    rw [hm.code]
    exact .mk _ _ _ hm

namespace Config

variable {host : Host σ} {scripts scripts' : Scripts σ} {c c' : Config σ}

theorem Like.fail (h : c.Like host c') (e : RunError) : Progress.Like host (c.fail e) (c'.fail e) := by
  cases h with
  | mk machine world base ha hcallers =>
    rw [Config.fail, Config.fail, hcallers.length_eq]
    exact .ended _ _ _

theorem Like.ret (h : c.Like host c') (v : Value) : Progress.Like host (c.ret v) (c'.ret v) := by
  cases h with
  | mk machine world base ha hcallers =>
    cases hcallers with
    | nil => exact .ended _ _ _
    | cons hcaller hcallers =>
      cases hcaller with
      | mk pc argc frame hm => exact .running (.mk _ _ _ (.mk _ _ _ hm) hcallers)

theorem Like.invoke (h : c.Like host c') (hscripts : ∀ n, Option.Rel (Script.Like host) (scripts n) (scripts' n))
    (script : Nat) (args : List Value) :
    Progress.Like host (c.invoke scripts script args) (c'.invoke scripts' script args) := by
  have hscript := hscripts script
  unfold Config.invoke
  generalize scripts script = called, scripts' script = called' at hscript ⊢
  cases hscript with
  | none => exact h.fail _
  | some hs =>
    cases h with
    | mk machine world base ha hcallers =>
      obtain ⟨e, henter, henter'⟩ | ⟨b, b', henter, henter', hb⟩ := hs.enter args machine.stack.size
      · simp only [henter, henter']
        exact Like.fail (.mk machine world base ha hcallers) e
      · simp only [henter, henter']
        exact .running (.mk _ _ _ hb (.cons ha hcallers))

/-- A call through a site is answered alike. -/
theorem Like.callSite (h : c.Like host c') (hscripts : ∀ n, Option.Rel (Script.Like host) (scripts n) (scripts' n))
    (patch : Nat) :
    Progress.Like host (c.callSite host scripts patch) (c'.callSite host scripts' patch) := by
  cases h with
  | mk machine world base ha hcallers =>
    cases ha with
    | @mk m m' pc argc frame hm =>
      have hlike : Config.Like host ⟨machine, world, ⟨m, pc, argc, frame⟩, _, base⟩
          ⟨machine, world, ⟨m', pc, argc, frame⟩, _, base⟩ :=
        .mk machine world base (.mk pc argc frame hm) hcallers
      unfold Config.callSite
      simp only [hm.code]
      cases hslot : m.code.slot? patch with
      | none => exact hlike.fail _
      | some index =>
        simp only [Option.bind_some]
        cases hm.site index with
        | none hsite hsite' =>
          simp only [hsite, hsite', Option.map_none]
          exact hlike.fail _
        | some hsite hsite' hanswer =>
          simp only [hsite, hsite', Option.map_some, hanswer]
          -- Whatever the answer, it is written into both activations.
          have hafter (s : SiteState σ) : Config.Like host
              ⟨s.machine, s.world, ⟨m, pc, argc, { frame with registers := s.registers, scratch := s.scratch }⟩, _,
                base⟩
              ⟨s.machine, s.world, ⟨m', pc, argc, { frame with registers := s.registers, scratch := s.scratch }⟩, _,
                base⟩ :=
            .mk s.machine s.world base (.mk pc argc _ hm) hcallers
          split
          · exact (hafter _).fail _
          · exact (hafter _).invoke hscripts _ _
          · exact .running (hafter _)

/-- Every instruction does the same. -/
theorem Like.exec (h : c.Like host c') (hscripts : ∀ n, Option.Rel (Script.Like host) (scripts n) (scripts' n))
    (i : Inst Nat) :
    Progress.Like host (c.exec host scripts i) (c'.exec host scripts' i) := by
  cases h with
  | @mk machine world _ _ callers callers' base ha hcallers =>
    cases ha with
    | @mk m m' pc argc frame hm =>
      obtain ⟨stack, depth, maxDepth⟩ := machine
      have hnext (stack : ValueStack) (pc argc : Nat) (frame : Frame) :
          Config.Like host ⟨⟨stack, depth, maxDepth⟩, world, ⟨m, pc, argc, frame⟩, callers, base⟩
            ⟨⟨stack, depth, maxDepth⟩, world, ⟨m', pc, argc, frame⟩, callers', base⟩ :=
        .mk _ world base (.mk pc argc frame hm) hcallers
      cases i with
      | stackCheck =>
        simp only [Config.exec]
        split
        · exact (hnext _ _ _ _).fail _
        · exact .running (hnext _ _ _ _)
      | move mv | negate reg | branch reg condition target =>
        simp only [Config.exec]
        split
        · exact .running (hnext _ _ _ _)
        · exact (hnext _ _ _ _).fail _
      | ret => exact (hnext _ _ _ _).ret _
      | callSite patch => exact (hnext _ _ _ _).callSite hscripts patch
      | enterFrame slots | leaveFrame | setArgc count | jump target | branchNumber reg target =>
        exact .running (hnext _ _ _ _)

/-- One step. -/
theorem Like.step (h : c.Like host c') (hscripts : ∀ n, Option.Rel (Script.Like host) (scripts n) (scripts' n)) :
    Progress.Like host (c.step host scripts) (c'.step host scripts') := by
  cases h with
  | mk machine world base ha hcallers =>
    cases ha with
    | @mk m m' pc argc frame hm =>
      unfold Config.step
      simp only [hm.code]
      split
      · exact Like.fail (.mk machine world base (.mk pc argc frame hm) hcallers) _
      · exact Like.exec (.mk machine world base (.mk _ argc frame hm) hcallers) hscripts _

/-- Whole runs. -/
theorem Like.run (h : c.Like host c') (hscripts : ∀ n, Option.Rel (Script.Like host) (scripts n) (scripts' n))
    (fuel : Nat) :
    c.run host scripts fuel = c'.run host scripts' fuel := by
  induction fuel generalizing c c' with
  | zero => rfl
  | succ fuel ih =>
    have hstep := h.step hscripts
    unfold Config.run
    generalize c.step host scripts = after, c'.step host scripts' = after' at hstep ⊢
    cases hstep with
    | running hlike => exact ih hlike
    | ended result machine world => rfl

end Config

/-! ## Chains in front of a fallback -/

namespace Config

variable {host : Host σ} {call : SiteCall} {index : Nat}

end Config

/-! ## Stubs that are put in front of the chains of a method -/

namespace Method

variable {β : Type}

/-- What stubs in front of the chains change: sites get other first stubs, and their records more stubs. -/
structure Extends (stubs : List (Nat × β)) (p q : Method β × List (ChainRecord β)) : Prop where
  code : q.1.code = p.1.code
  sites : q.1.sites.size = p.1.sites.size
  site : ∀ {k : Nat} {site site' : Site}, p.1.site? k = some site → q.1.site? k = some site' →
    site' = { site with head := site'.head }
  record : ∀ {k : Nat} {r r' : ChainRecord β}, p.2[k]? = some r → q.2[k]? = some r' → r'.fallback = r.fallback ∧
    ∀ a ∈ r'.added, a ∈ r.added ∨ (k, a.2) ∈ stubs

namespace Extends

variable {stubs stubs' : List (Nat × β)} {p q r : Method β × List (ChainRecord β)}

theorem refl (stubs : List (Nat × β)) (p : Method β × List (ChainRecord β)) : Extends stubs p p := by
  refine ⟨rfl, rfl, fun hsite hsite' => ?_, fun hr hr' => ?_⟩
  · cases hsite.symm.trans hsite'
    rfl
  · cases hr.symm.trans hr'
    exact ⟨rfl, fun a ha => .inl ha⟩

theorem trans (h : Extends stubs p q) (h' : Extends stubs' q r) (hlength : q.2.length = p.2.length) :
    Extends (stubs ++ stubs') p r := by
  refine ⟨h'.code.trans h.code, h'.sites.trans h.sites, fun {k site site'} hsite hsite' => ?_, fun {k x z} hx hz => ?_⟩
  · have hk : k < q.1.sites.size := by
      rw [h.sites]
      exact (Array.getElem?_eq_some_iff.mp hsite).1
    have hmiddle := Array.getElem?_eq_getElem hk
    rw [h'.site hmiddle hsite', h.site hsite hmiddle]
  · have hk : k < q.2.length := by
      rw [hlength]
      exact (List.getElem?_eq_some_iff.mp hx).1
    have hy := List.getElem?_eq_getElem hk
    obtain ⟨hfallback, hadded⟩ := h.record hx hy
    obtain ⟨hfallback', hadded'⟩ := h'.record hy hz
    refine ⟨hfallback'.trans hfallback, fun a ha => ?_⟩
    obtain ha | ha := hadded' a ha
    · exact (hadded a ha).imp_right fun ha => List.mem_append_left _ ha
    · exact .inr (List.mem_append_right _ ha)

end Extends

end Method

/-- Tables that are aligned have records, with no stubs in front of the fallbacks. -/
theorem Aligned.chained {ι β : Type} {insts : Array (Inst ι)} {patches : Array PatchSite} {sites : Array Site}
    {store : StubStore β} (h : Aligned insts patches sites store.stubs) :
    ∃ rs, Chained sites store rs ∧ ∀ r ∈ rs, r.added = [] := by
  let rs : List (ChainRecord β) := store.stubs.toList.mapIdx fun k stub => { fallback := (k, stub.body) }
  have hget {k : Nat} {r : ChainRecord β} (hr : rs[k]? = some r) :
      ∃ stub, store.stubs[k]? = some stub ∧ r = ⟨(k, stub.body), []⟩ := by
    rw [List.getElem?_mapIdx, Array.getElem?_toList] at hr
    obtain ⟨stub, hstub, rfl⟩ := Option.map_eq_some_iff.mp hr
    exact ⟨stub, hstub, rfl⟩
  have hsize : rs.length = sites.size := by rw [List.length_mapIdx, Array.length_toList, h.stubs_size]
  refine ⟨rs, ⟨hsize, fun {k r} hr => ?_, ?_⟩, fun r hr => ?_⟩
  · obtain ⟨stub, hstub, rfl⟩ := hget hr
    have hk : k < sites.size := by
      rw [← hsize]
      exact (List.getElem?_eq_some_iff.mp hr).1
    obtain ⟨hhead, body, hbody⟩ := h.chain (Array.getElem?_eq_getElem hk)
    cases hstub.symm.trans hbody
    refine ⟨sites[k], [(k, ⟨.fallback, body, none⟩)], Array.getElem?_eq_getElem hk, ?_, rfl⟩
    rw [hhead]
    exact .visit hbody .stop
  · have hlength : rs.length = store.size := by rw [List.length_mapIdx, Array.length_toList, StubStore.size]
    have hplaces : (rs.flatMap ChainRecord.stubs).map Prod.fst = (List.range rs.length).flatMap fun k => [k] := by
      rw [List.map_flatMap, List.range_eq_range']
      refine (flatMap_range_eq fun k r hr => ?_).symm
      obtain ⟨stub, _, rfl⟩ := hget hr
      rw [Nat.zero_add]
      rfl
    rw [hplaces, hlength, List.flatMap_singleton']
  · obtain ⟨k, hk⟩ := List.getElem?_of_mem hr
    obtain ⟨_, _, rfl⟩ := hget hk
    rfl

namespace Method

end Method

/-! ## Adding small integers -/

def StubM.Settles (x : StubM σ Verdict) : Prop := ∀ s s', x s ≠ .ok .next s'

namespace StubM.Settles

theorem bind {α : Type} {x : StubM σ α} {k : α → StubM σ Verdict} (hk : ∀ a, Settles (k a)) : Settles (x >>= k) := by
  intro s s' h
  change EStateM.bind x k s = _ at h
  unfold EStateM.bind at h
  split at h
  · exact hk _ _ _ h
  · cases h

theorem answer (v : Value) : Settles (StubM.answer v : StubM σ Verdict) := bind fun _ _ _ h => by cases h

theorem done : Settles (pure .done : StubM σ Verdict) := fun _ _ h => by cases h

theorem fail (e : RunError) : Settles (throw e : StubM σ Verdict) := fun _ _ h => by cases h

end StubM.Settles

namespace Machine

variable {host : Host σ} {scripts scripts' : Scripts σ} {s s' : Script (StubBody σ)}

end Machine

/-! ## Stubs that agree and show nevertheless -/

namespace Routine

end Routine

namespace Machine

end Machine

end BaselineTier
