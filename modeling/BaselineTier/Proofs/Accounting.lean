/-
  BaselineTier.Proofs.Accounting — the code pool over the whole life of a tier.

  Linked code is told apart by its lease. What is in use of the pool is the room of the
  code that a script or a handle holds, each code once however many hold it, and the room
  that was taken without code (`Tier.Accounted`). Code that is being let go stays charged
  until it is settled who else holds it, so the books are kept with a list of loose leases.
  Every request keeps them (`Tier.Accounted.serve`), and a compilation that fails keeps
  everything (`Tier.tryCompile_error`).
-/

import BaselineTier.Proofs.Compilation
import BaselineTier.Proofs.Correspondence
import BaselineTier.Workspace

namespace BaselineTier

variable {β : Type}

/-! ## Room in the pool -/

namespace CodePool

variable {p p' : CodePool} {size : Nat}

theorem reserve_ok_iff (hroom : p.used ≤ p.capacity) : p.reserve size = .ok p' ↔
    p.used + size ≤ p.capacity ∧ p' = { p with used := p.used + size } := by
  unfold reserve available
  split
  · rename_i hsize
    rw [Except.ok.injEq]
    exact ⟨fun h => ⟨by omega, h.symm⟩, fun h => h.2.symm⟩
  · rename_i hsize
    refine iff_of_false (fun h => ?_) (fun h => ?_)
    · cases h
    · omega

end CodePool

/-- A target that was looked up was found. -/
theorem Inst.found_of_resolve {find : Label → Except LinkError Nat} {i : Inst Label} {i' : Inst Nat}
    (h : i.resolve find = .ok i') {l : Label} (hl : i.target? = some l) : ∃ offset, find l = .ok offset := by
  have hmap {g : Nat → Inst Nat} (h : (find l).map g = .ok i') : ∃ offset, find l = .ok offset := by
    cases hfind : find l with
    | error e => rw [hfind] at h; cases h
    | ok offset => exact ⟨offset, rfl⟩
  cases i with
  | jump l | branch reg condition l | branchNumber reg l =>
    cases hl
    exact hmap h
  | _ => cases hl

namespace CodeBuffer

variable {b : CodeBuffer}

theorem size_resolved {insts : Array (Inst Nat)} (h : b.resolved = .ok insts) : insts.size = b.insts.size := by
  have hsame (k : Nat) : insts.size ≤ k ↔ b.insts.size ≤ k := by
    rw [← Array.getElem?_eq_none_iff, ← Array.getElem?_eq_none_iff]
    obtain ⟨hb, hi⟩ | ⟨i, i', hb, hi, _⟩ := b.getElem?_of_resolved h k
    · exact iff_of_true hi hb
    · rw [hb, hi]
      exact iff_of_false (Option.some_ne_none _) (Option.some_ne_none _)
  have hle := (hsame b.insts.size).mpr (Nat.le_refl _)
  have hge := (hsame insts.size).mp (Nat.le_refl _)
  omega

/-- Code can be linked if its labels are bound and there is room for it. -/
theorem links_iff (b : CodeBuffer) {p : CodePool} (hroom : p.used ≤ p.capacity) :
    (∃ linked, b.link p = .ok linked) ↔
      (∀ i ∈ b.insts, ∀ l, i.target? = some l → (b.labelOffset? l).isSome = true) ∧
        p.used + b.insts.size ≤ p.capacity := by
  constructor
  · rintro ⟨⟨code, p'⟩, hlink⟩
    obtain ⟨insts, hinsts, hreserve, _⟩ := Compilation.link_ok_iff.mp hlink
    rw [size_resolved hinsts] at hreserve
    refine ⟨fun i hi l hl => ?_, ((CodePool.reserve_ok_iff hroom).mp hreserve).1⟩
    obtain ⟨k, hk⟩ := Array.mem_iff_getElem?.mp hi
    obtain ⟨hnone, _⟩ | ⟨_, i', hi, _, hresolve⟩ := b.getElem?_of_resolved hinsts k
    · cases hk.symm.trans hnone
    · cases hk.symm.trans hi
      obtain ⟨offset, hfind⟩ := Inst.found_of_resolve hresolve hl
      unfold find at hfind
      split at hfind
      · rename_i hoffset
        rw [hoffset]
        rfl
      · cases hfind
  · rintro ⟨hbound, hsize⟩
    obtain ⟨insts, hinsts, _⟩ := resolved_of_bound (b := b) fun hi hl => hbound _ (Array.mem_of_getElem? hi) _ hl
    rw [← size_resolved hinsts] at hsize
    exact ⟨_, Compilation.link_ok_iff.mpr ⟨insts, hinsts, (CodePool.reserve_ok_iff hroom).mpr ⟨hsize, rfl⟩, rfl⟩⟩

end CodeBuffer

namespace Compilation

/-- What was emitted is ready to be linked. -/
theorem phase_of_emission {job : Job β} {f : Draft β} (h : emission job (.start job.settings) = .ok () f) :
    f.phase = .epilogueEmitted := by
  -- The last of its steps moves on to this phase.
  obtain ⟨_, _, _, h⟩ := Emit.bind_ok_iff.mp h
  obtain ⟨_, _, _, h⟩ := Emit.bind_ok_iff.mp h
  obtain ⟨_, _, _, h⟩ := Emit.bind_ok_iff.mp h
  obtain ⟨_, _, _, h⟩ := Emit.bind_ok_iff.mp h
  obtain ⟨_, _, _, h⟩ := Emit.bind_ok_iff.mp h
  obtain ⟨_, _, _, h⟩ := Emit.bind_ok_iff.mp h
  obtain ⟨_, _, _, h⟩ := Emit.bind_ok_iff.mp h
  rw [of_advance h]

/-- A compilation leaves the pool as it was, or there is a method and the pool is charged for its code: nothing fails
    behind the linker. -/
theorem compile_charges (job : Job β) (pool : CodePool) :
    (∃ fault, compile job Linker.pool pool = (.error fault, pool)) ∨
      ∃ m pool', compile job Linker.pool pool = (.ok m, pool') ∧ pool.reserve m.code.size = .ok pool' := by
  unfold compile
  cases hf : emission job (.start job.settings) with
  | error fault d => exact .inl ⟨fault, rfl⟩
  | ok _ f =>
    simp only
    cases hlink : f.buffer.link pool with
    | error e =>
      obtain ⟨d, hd⟩ := link_error (.error (.link e)) f
      simp only [Linker.pool, hlink, hd]
      exact .inl ⟨_, rfl⟩
    | ok linked =>
      obtain ⟨code, pool'⟩ := linked
      obtain ⟨insts, _, hreserve, rfl⟩ := link_ok_iff.mp hlink
      obtain ⟨d, hd⟩ := link_ok (c := .ofInsts insts 0 f.buffer.patches) (phase_of_emission hf) (emission_patched hf)
      simp only [Linker.pool, hlink, hd]
      exact .inr ⟨_, _, rfl, hreserve⟩

end Compilation

/-! ## Books -/

namespace Tier

def held (t : Tier β) : List Lease := t.handles ++ t.tenants.toList.filterMap Tenant.lease

/-- The pool is charged for the code that is held or loose, each code once, and for the room that was taken without
    code. Leases are told apart by their numbers, and each script's lease is as large as its code. -/
structure Accounted (capacity : Nat) (t : Tier β) (loose : List Lease) : Prop where
  used : t.pool.used = ∑ l ∈ (loose ++ t.held).toFinset, l.size + t.bare.sum
  room : t.pool.used ≤ t.pool.capacity
  capacity : t.pool.capacity = capacity
  fresh : ∀ l ∈ loose ++ t.held, l.id < t.nextLease
  apart : ∀ l ∈ loose ++ t.held, ∀ l' ∈ loose ++ t.held, l.id = l'.id → l = l'
  code : ∀ tenant ∈ t.tenants, tenant.lease.map Lease.size = tenant.script.baseline.map fun m => m.code.size

variable {t t' : Tier β} {loose loose' : List Lease} {capacity : Nat}

theorem mem_held {l : Lease} : l ∈ t.held ↔ l ∈ t.handles ∨ ∃ tenant ∈ t.tenants, tenant.lease = some l := by
  simp only [held, List.mem_append, List.mem_filterMap, Array.mem_toList_iff]

theorem holds_iff {l : Lease} : t.holds l = true ↔ l ∈ t.held := by
  rw [mem_held, holds, Bool.or_eq_true, List.contains_iff_mem, Array.any_eq_true']
  simp only [beq_iff_eq]

namespace Accounted

/-- The books hold for another tier with the same room and the same leases. -/
theorem congr (h : t.Accounted capacity loose) (hpool : t'.pool = t.pool) (hbare : t'.bare = t.bare)
    (hnext : t'.nextLease = t.nextLease) (hheld : ∀ l, l ∈ loose' ++ t'.held ↔ l ∈ loose ++ t.held)
    (hcode : ∀ tenant ∈ t'.tenants, tenant.lease.map Lease.size = tenant.script.baseline.map fun m => m.code.size) :
    t'.Accounted capacity loose' := by
  have hset : (loose' ++ t'.held).toFinset = (loose ++ t.held).toFinset := by
    ext l
    rw [List.mem_toFinset, List.mem_toFinset, hheld]
  refine ⟨?_, hpool ▸ h.room, hpool ▸ h.capacity, fun l hl => ?_, fun l hl l' hl' => ?_, hcode⟩
  · rw [hpool, hset, hbare]
    exact h.used
  · rw [hnext]
    exact h.fresh l ((hheld l).mp hl)
  · exact h.apart l ((hheld l).mp hl) l' ((hheld l').mp hl')

/-- Code that nobody holds any more gives its room back. -/
theorem settle {lease : Option Lease} (h : t.Accounted capacity lease.toList) :
    (t.settle lease).Accounted capacity [] := by
  cases lease with
  | none => exact h
  | some l =>
    unfold Tier.settle
    by_cases hl : l ∈ t.held
    · simp only [holds_iff.mpr hl, if_true]
      refine h.congr rfl rfl rfl (fun l' => ?_) h.code
      simp only [Option.toList, List.nil_append, List.cons_append, List.mem_cons]
      exact ⟨.inr, fun hl' => hl'.elim (fun heq => heq ▸ hl) id⟩
    · have hnot : t.holds l = false := Bool.eq_false_iff.mpr fun hholds => hl (holds_iff.mp hholds)
      simp only [hnot, Bool.false_eq_true, if_false]
      have hused := h.used
      rw [Option.toList, List.cons_append, List.nil_append, List.toFinset_cons,
        Finset.sum_insert (List.mem_toFinset.not.mpr hl)] at hused
      refine ⟨?_, ?_, h.capacity, fun l' hl' => h.fresh l' (List.mem_append_right _ hl'),
        fun l₁ hl₁ l₂ hl₂ => h.apart l₁ (List.mem_append_right _ hl₁) l₂ (List.mem_append_right _ hl₂), h.code⟩
      · show t.pool.used - l.size = ∑ l ∈ t.held.toFinset, l.size + t.bare.sum
        omega
      · exact Nat.le_trans (Nat.sub_le _ _) h.room

/-- Code is put on a script, or taken off, while a handle still holds the new code. -/
theorem replace (h : t.Accounted capacity []) {lease : Option Lease} (hlease : ∀ l, lease = some l → l ∈ t.handles)
    {method : Option (Method β)} (hsize : lease.map Lease.size = method.map fun m => m.code.size) (index : Nat) :
    (t.replace index method lease).Accounted capacity [] := by
  unfold Tier.replace
  cases hold : t.tenants[index]? with
  | none => exact h
  | some old =>
    have hmem : old ∈ t.tenants := Array.mem_of_getElem? hold
    -- Before it is settled the old lease is loose, so the leases on the books are those that were held.
    refine settle (h.congr rfl rfl rfl (fun l => ?_) fun tenant htenant => ?_)
    · simp only [List.mem_append, mem_held, Option.mem_toList, List.not_mem_nil, false_or]
      constructor
      · rintro (hl | hl | ⟨tenant, htenant, hl⟩)
        · exact .inr ⟨old, hmem, hl⟩
        · exact .inl hl
        · obtain htenant | rfl := Array.mem_or_eq_of_mem_setIfInBounds htenant
          · exact .inr ⟨tenant, htenant, hl⟩
          · exact .inl (hlease l hl)
      · rintro (hl | ⟨tenant, htenant, hl⟩)
        · exact .inr (.inl hl)
        · obtain ⟨k, hk⟩ := Array.mem_iff_getElem?.mp htenant
          by_cases hindex : index = k
          · subst hindex
            cases hold.symm.trans hk
            exact .inl hl
          · refine .inr (.inr ⟨tenant, Array.mem_of_getElem? (i := k) ?_, hl⟩)
            rw [Array.getElem?_setIfInBounds_ne hindex, hk]
    · obtain htenant | rfl := Array.mem_or_eq_of_mem_setIfInBounds htenant
      · exact h.code tenant htenant
      · exact hsize

/-- Another handle to code that is held already. -/
theorem hold (h : t.Accounted capacity []) {l : Lease} (hl : l ∈ t.held) :
    Accounted capacity { t with handles := l :: t.handles } [] := by
  refine h.congr rfl rfl rfl (fun l' => ?_) h.code
  simp only [List.nil_append, held, List.cons_append, List.mem_cons]
  exact ⟨fun hl' => hl'.elim (fun heq => heq ▸ hl) id, .inr⟩

theorem addScript (h : t.Accounted capacity []) (p : Program) : (t.addScript p).2.Accounted capacity [] := by
  refine h.congr rfl rfl rfl (fun l => ?_) fun tenant htenant => ?_
  · simp [Tier.addScript, held]
  · obtain htenant | rfl := Array.mem_push.mp htenant
    · exact h.code tenant htenant
    · rfl

/-- New code, which its handle holds. Its lease has a number of its own. -/
theorem charge (h : t.Accounted capacity []) {size : Nat} (hroom : t.pool.used + size ≤ t.pool.capacity) :
    Accounted capacity { t with
      pool := { t.pool with used := t.pool.used + size }, nextLease := t.nextLease + 1,
      handles := ⟨t.nextLease, size⟩ :: t.handles } [] := by
  have hnew : (⟨t.nextLease, size⟩ : Lease) ∉ t.held := fun hl => Nat.lt_irrefl _ (h.fresh _ hl)
  refine ⟨?_, hroom, h.capacity, ?_, ?_, h.code⟩
  · have hused : t.pool.used = ∑ l ∈ t.held.toFinset, l.size + t.bare.sum := h.used
    show t.pool.used + size = ∑ l ∈ (⟨t.nextLease, size⟩ :: t.held : List Lease).toFinset, l.size + t.bare.sum
    rw [List.toFinset_cons, Finset.sum_insert (List.mem_toFinset.not.mpr hnew), hused]
    simp only
    omega
  · intro l hl
    obtain rfl | hl := List.mem_cons.mp hl
    · exact Nat.lt_succ_self _
    · exact Nat.lt_succ_of_lt (h.fresh l hl)
  · intro l hl l' hl' hid
    obtain rfl | hl := List.mem_cons.mp hl
    · obtain rfl | hl' := List.mem_cons.mp hl'
      · rfl
      · exact absurd hid (Nat.ne_of_gt (h.fresh l' hl'))
    · obtain rfl | hl' := List.mem_cons.mp hl'
      · exact absurd hid (Nat.ne_of_lt (h.fresh l hl))
      · exact h.apart l hl l' hl' hid

theorem tryCompile (h : t.Accounted capacity []) (index : Nat) (job : Job β) :
    (t.tryCompile index job).2.Accounted capacity [] := by
  unfold Tier.tryCompile
  obtain ⟨fault, hfault⟩ | ⟨m, pool, hm, hreserve⟩ := Compilation.compile_charges job t.pool
  · rw [hfault]
    exact h
  · rw [hm]
    obtain ⟨hroom, rfl⟩ := (CodePool.reserve_ok_iff h.room).mp hreserve
    exact (h.charge hroom).replace (fun l hl => by cases hl; exact List.mem_cons_self) rfl index

theorem detach (h : t.Accounted capacity []) (index : Nat) : (t.detach index).2.Accounted capacity [] := by
  unfold Tier.detach
  split
  · exact h.replace (fun _ hl => by cases hl) rfl index
  · rename_i l hl
    obtain ⟨tenant, htenant, hlease⟩ := Option.bind_eq_some_iff.mp hl
    have hheld : l ∈ t.held := mem_held.mpr (.inr ⟨tenant, Array.mem_of_getElem? htenant, hlease⟩)
    exact (h.hold hheld).replace (fun _ hl => by cases hl) rfl index

theorem dropHandle (h : t.Accounted capacity []) (l : Lease) : (t.dropHandle l).Accounted capacity [] := by
  unfold Tier.dropHandle
  split
  · rename_i hl
    have hl := List.contains_iff_mem.mp hl
    refine settle (h.congr rfl rfl rfl (fun l' => ?_) h.code)
    have hperm := (List.perm_cons_erase hl).mem_iff (a := l')
    simp only [held, Option.toList, List.cons_append, List.nil_append, List.mem_append, List.mem_cons] at hperm ⊢
    rw [hperm, or_assoc]
  · exact h

theorem reserve (h : t.Accounted capacity []) {size : Nat} (hreserve : t.reserve size = .ok t') :
    t'.Accounted capacity [] := by
  unfold Tier.reserve at hreserve
  cases hpool : t.pool.reserve size with
  | error e => rw [hpool] at hreserve; cases hreserve
  | ok pool =>
    rw [hpool] at hreserve
    cases hreserve
    obtain ⟨hroom, rfl⟩ := (CodePool.reserve_ok_iff h.room).mp hpool
    refine ⟨?_, hroom, h.capacity, h.fresh, h.apart, h.code⟩
    have hused := h.used
    show t.pool.used + size = ∑ l ∈ ([] ++ t.held).toFinset, l.size + (size :: t.bare).sum
    rw [List.sum_cons]
    omega

theorem release (h : t.Accounted capacity []) (size : Nat) : (t.release size).Accounted capacity [] := by
  unfold Tier.release
  split
  · rename_i hsize
    have hperm := List.perm_cons_erase (List.contains_iff_mem.mp hsize)
    have hsum : t.bare.sum = size + (t.bare.erase size).sum := hperm.sum_eq
    have hused := h.used
    refine ⟨?_, Nat.le_trans (Nat.sub_le _ _) h.room, h.capacity, h.fresh, h.apart, h.code⟩
    show t.pool.used - size = ∑ l ∈ ([] ++ t.held).toFinset, l.size + (t.bare.erase size).sum
    omega
  · exact h

end Accounted

/-! ## Requests -/

inductive Request (β : Type) where
  | addScript (p : Program)
  /-- Compiles a script; whoever asks keeps the handle. -/
  | compile (script : Nat) (job : Job β)
  /-- Takes the code off a script; whoever asks keeps it. -/
  | discard (script : Nat)
  | drop (handle : Lease)
  | reserve (size : Nat)
  | release (size : Nat)

def serve (t : Tier β) : Request β → Tier β
  | .addScript p => (t.addScript p).2
  | .compile script job => (t.tryCompile script job).2
  | .discard script => (t.detach script).2
  | .drop handle => t.dropHandle handle
  | .reserve size => (t.reserve size).toOption.getD t
  | .release size => t.release size

theorem Accounted.serve (h : t.Accounted capacity []) (request : Request β) :
    (t.serve request).Accounted capacity [] := by
  cases request with
  | addScript p => exact h.addScript p
  | compile script job => exact h.tryCompile script job
  | discard script => exact h.detach script
  | drop handle => exact h.dropHandle handle
  | reserve size =>
    cases hreserve : t.reserve size with
    | error e =>
      simp only [Tier.serve, hreserve]
      exact h
    | ok t' =>
      simp only [Tier.serve, hreserve]
      exact h.reserve hreserve
  | release size => exact h.release size

theorem Accounted.serveAll (h : t.Accounted capacity []) (requests : List (Request β)) :
    (requests.foldl Tier.serve t).Accounted capacity [] := by
  induction requests generalizing t with
  | nil => exact h
  | cons request requests ih => exact ih (h.serve request)

theorem accounted_ofSettings (settings : Settings) : (ofSettings settings : Tier β).Accounted settings.codePool [] := by
  refine ⟨rfl, Nat.zero_le _, rfl, ?_, ?_, ?_⟩
  · intro l hl
    cases hl
  · intro l hl
    cases hl
  · intro tenant htenant
    exact absurd htenant (Array.not_mem_empty tenant)

/-! ## Letting go -/

/-- Settling touches nothing but the pool. -/
theorem settle_same (t : Tier β) (lease : Option Lease) :
    (t.settle lease).handles = t.handles ∧ (t.settle lease).tenants = t.tenants ∧ (t.settle lease).bare = t.bare := by
  unfold settle
  split
  · exact ⟨rfl, rfl, rfl⟩
  · split <;> exact ⟨rfl, rfl, rfl⟩

/-- Of a handle that is dropped there is one less. -/
theorem drop_lets_go (t : Tier β) (handle : Lease) : (t.serve (.drop handle)).handles = t.handles.erase handle ∧
    (t.serve (.drop handle)).tenants = t.tenants ∧ (t.serve (.drop handle)).bare = t.bare := by
  simp only [serve, dropHandle]
  split
  · exact settle_same _ _
  · rename_i hnot
    have hnot : handle ∉ t.handles := fun hmem => hnot (List.contains_iff_mem.mpr hmem)
    exact ⟨(List.erase_of_not_mem hnot).symm, rfl, rfl⟩

/-- A script with other code or none. -/
theorem replace_tenants (t : Tier β) (index : Nat) (method : Option (Method β)) (lease : Option Lease) :
    (t.replace index method lease).handles = t.handles ∧ (t.replace index method lease).bare = t.bare ∧
      (t.replace index method lease).tenants =
        t.tenants.modify index (fun tenant => ⟨{ tenant.script with baseline := method }, lease⟩) := by
  unfold replace
  split
  · rename_i hnone
    refine ⟨rfl, rfl, Array.ext_getElem? fun k => ?_⟩
    rw [Array.getElem?_modify]
    split
    · rename_i heq
      rw [← heq, hnone]
      rfl
    · rfl
  · rename_i old hold
    obtain ⟨hhandles, htenants, hbare⟩ := settle_same
      { t with tenants := t.tenants.setIfInBounds index ⟨{ old.script with baseline := method }, lease⟩ } old.lease
    refine ⟨hhandles, hbare, htenants.trans (Array.ext_getElem? fun k => ?_)⟩
    rw [Array.getElem?_modify, Array.getElem?_setIfInBounds]
    split
    · rename_i heq
      rw [← heq, hold, if_pos (Array.getElem?_eq_some_iff.mp hold).1]
      rfl
    · rfl

/-- Code that is taken off a script is held by whoever asked for that. -/
theorem discard_hands_over (t : Tier β) (script : Nat) :
    (t.serve (.discard script)).handles = (t.tenants[script]?.bind Tenant.lease).toList ++ t.handles ∧
      (t.serve (.discard script)).bare = t.bare ∧
      (t.serve (.discard script)).tenants =
        t.tenants.modify script (fun tenant => ⟨{ tenant.script with baseline := none }, none⟩) := by
  simp only [serve, detach]
  split
  · rename_i hnone
    rw [hnone]
    exact replace_tenants t script none none
  · rename_i l hlease
    rw [hlease]
    exact replace_tenants { t with handles := l :: t.handles } script none none

/-- Of bare room of a size that is released there is one less. -/
theorem release_lets_go (t : Tier β) (size : Nat) : (t.serve (.release size)).bare = t.bare.erase size ∧
    (t.serve (.release size)).handles = t.handles ∧ (t.serve (.release size)).tenants = t.tenants := by
  simp only [serve, release]
  split
  · exact ⟨rfl, rfl, rfl⟩
  · rename_i hnot
    have hnot : size ∉ t.bare := fun hmem => hnot (List.contains_iff_mem.mpr hmem)
    exact ⟨(List.erase_of_not_mem hnot).symm, rfl, rfl⟩

/-- A compilation that fails changes nothing. -/
theorem tryCompile_error {index : Nat} {job : Job β} {fault : Fault CompileError}
    (h : t.tryCompile index job = (.error fault, t')) : t' = t := by
  unfold tryCompile at h
  obtain ⟨_, hfault⟩ | ⟨m, pool, hm, _⟩ := Compilation.compile_charges job t.pool
  · rw [hfault] at h
    cases h
    rfl
  · rw [hm] at h
    cases h

/-- After any requests, what is in use of the pool is the room of the code that scripts and handles hold, each code
    once, and the room that was taken without code; it is never more than there is. Code can then be linked if its
    labels are bound and there is room for it. A compilation that fails leaves the scripts with their code, the pool and
    the names as they were. Nothing else is let go than what a request asks for. -/
theorem pool_never_leaks (settings : Settings) (requests : List (Request β)) :
    let t : Tier β := requests.foldl serve (.ofSettings settings)
    (t.pool.used = ∑ l ∈ t.held.toFinset, l.size + t.bare.sum ∧ t.pool.used ≤ t.pool.capacity ∧
      t.pool.capacity = settings.codePool ∧
      (∀ l ∈ t.held, ∀ l' ∈ t.held, l.id = l'.id → l = l') ∧
      ∀ tenant ∈ t.tenants, tenant.lease.map Lease.size = tenant.script.baseline.map fun m => m.code.size) ∧
    (∀ b : CodeBuffer, (∃ linked, b.link t.pool = .ok linked) ↔
      (∀ i ∈ b.insts, ∀ l, i.target? = some l → (b.labelOffset? l).isSome = true) ∧
        t.pool.used + b.insts.size ≤ t.pool.capacity) ∧
    (∀ (script : Nat) (job : Job β) (fault : Fault CompileError) (t' : Tier β),
      t.tryCompile script job = (.error fault, t') → t' = t) ∧
    (∀ (w w' : Workspace) (script : Nat) (p : Program) (factory : Factory RealmStub) (fault : Fault CompileError),
      w.compile script p factory = (.error fault, w') → w' = w) ∧
    (∀ handle, (t.serve (.drop handle)).handles = t.handles.erase handle ∧
      (t.serve (.drop handle)).tenants = t.tenants ∧
      (t.serve (.drop handle)).bare = t.bare) ∧
    (∀ script, (t.serve (.discard script)).handles = (t.tenants[script]?.bind Tenant.lease).toList ++ t.handles ∧
      (t.serve (.discard script)).bare = t.bare ∧ (t.serve (.discard script)).tenants =
        t.tenants.modify script (fun tenant => ⟨{ tenant.script with baseline := none }, none⟩)) ∧
    ∀ size, (t.serve (.release size)).bare = t.bare.erase size ∧ (t.serve (.release size)).handles = t.handles ∧
      (t.serve (.release size)).tenants = t.tenants := by
  intro t
  have h : t.Accounted settings.codePool [] := (accounted_ofSettings settings).serveAll requests
  refine ⟨⟨h.used, h.room, h.capacity, h.apart, h.code⟩, fun b => b.links_iff h.room,
    fun _ _ _ _ => tryCompile_error, ?_,
    t.drop_lets_go, t.discard_hands_over, t.release_lets_go⟩
  intro w w' script p factory fault hcompile
  unfold Workspace.compile at hcompile
  split at hcompile
  · rename_i tier htier
    cases hcompile
    rw [tryCompile_error htier]
  · cases hcompile

/-- A script is compiled twice, the first handle is dropped, the code is taken off and the script is compiled again. -/
def recompiling : List (Request Unit) :=
  [.addScript Compilation.negating.program, .compile 0 Compilation.negating, .compile 0 Compilation.negating,
    .reserve 5, .drop ⟨0, 14⟩,
    .discard 0, .compile 0 Compilation.negating]

/-- Two pieces of code are held, by two each, and there is no room for a third. -/
theorem pool_never_leaks_recompiling :
    ∃ t t' : Tier Unit, recompiling.foldl serve (.ofSettings { codePool := 40 }) = t ∧
    (t.held = [⟨2, 14⟩, ⟨1, 14⟩, ⟨1, 14⟩, ⟨2, 14⟩] ∧ t.bare = [5] ∧ t.pool = ⟨40, 33⟩) ∧
      t.pool.used = ∑ l ∈ t.held.toFinset, l.size + t.bare.sum ∧
      t.tryCompile 0 Compilation.negating = (.error (.error (.link (.poolExhausted 14 7))), t') ∧ t' = t := by
  have hstate : (fun t : Tier Unit => ((t.held, t.bare, t.pool), (t.tryCompile 0 Compilation.negating).1))
      (recompiling.foldl serve (.ofSettings { codePool := 40 })) =
        (([⟨2, 14⟩, ⟨1, 14⟩, ⟨1, 14⟩, ⟨2, 14⟩], [5], ⟨40, 33⟩), .error (.error (.link (.poolExhausted 14 7)))) := by cbv
  obtain ⟨⟨hused, _⟩, _, herror, _⟩ := pool_never_leaks { codePool := 40 } recompiling
  -- From here on nothing is to be computed again.
  generalize recompiling.foldl serve (.ofSettings { codePool := 40 }) = t at hstate hused herror ⊢
  simp only [Prod.mk.injEq] at hstate
  generalize hcompile : t.tryCompile 0 Compilation.negating = answer at hstate
  obtain ⟨result, t'⟩ := answer
  obtain ⟨hstate, rfl⟩ := hstate
  exact ⟨t, t', rfl, hstate, hused, hcompile, herror 0 Compilation.negating _ t' hcompile⟩

end Tier
end BaselineTier
