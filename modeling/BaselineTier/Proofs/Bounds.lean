/-
  BaselineTier.Proofs.Bounds — the verifier stays in range.

  `Walk.Visited` follows the walk of a code visit by visit. An offset becomes pending only when
  it gets its depth, so none is visited or pending twice (`Walk.Once`), and the walk ends after
  at most as many visits as there are instructions. Before each visit the invariant of the walk
  says where it stands: at an instruction of the code that has been reached with a depth of at
  most `maxStackDepth`. All that the visit looks up and computes is then in range (`InRange`).

  One sum is not covered by that. What a read of a local can reach is the slots and the operand
  stack together, counted with 32 bits; a count that does not fit is the one assumption that a
  visit can break (`Walk.visit_breach`). A code can bring the depth to any number up to
  `maxStackDepth` before it reads a local (`deepRead`), so the count fits for all codes exactly
  if it does at the greatest depth (`countsFit_iff`).

  Main statement: `verifier_stays_in_range`. With the greatest slot count a valid read breaks the
  assumption (`greatest_slot_count_overflows`).
-/

import BaselineTier.Proofs.Reachability
import BaselineTier.Proofs.Encoding

namespace BaselineTier

/-! ## One instruction -/

namespace Instruction

theorem count_lt (i : Instruction) : i.count < 2 ^ 16 := by
  unfold count
  cases i.u16? with
  | none => decide
  | some n => exact n.toNat_lt

theorem pops_lt (i : Instruction) : i.pops < 2 ^ 32 := by
  have := i.count_lt
  unfold pops
  split <;> omega

theorem pushes_le (i : Instruction) : i.pushes ≤ 4 := by
  unfold pushes
  split <;> decide

/-- After an instruction that does not end the code comes the one of the next index. -/
theorem Tiles.getElem?_next {code : List UInt8} {is : List Instruction} {offset idx : Nat} {i : Instruction}
    (h : Tiles code offset is) (hi : is[idx]? = some i) (hn : i.next < code.length) :
    ∃ j, is[idx + 1]? = some j ∧ j.offset = i.next := by
  induction is generalizing offset idx with
  | nil => cases hi
  | cons k is ih =>
    cases idx with
    | succ idx => exact ih h.2 hi
    | zero =>
      obtain rfl : k = i := Option.some.inj hi
      cases is with
      | nil => exact absurd h.2 (Nat.ne_of_lt hn)
      | cons j is => exact ⟨j, rfl, (decodeAt_ok h.2.1).1⟩

end Instruction

namespace Limits

variable {l : Limits} {i : Instruction} {depth : Nat} {b : Breach}

theorem checkOperand_ne_stackOverflow (l : Limits) (i : Instruction) (depth offset a : Nat) :
    l.checkOperand i depth ≠ .error (.error (.stackOverflow offset a)) := by
  intro h
  unfold checkOperand at h
  simp only at h
  repeat' split at h
  all_goals cases h

/-- The one assumption that the check of an operand can break is that 32 bits count what can be read. -/
theorem checkOperand_breach : l.checkOperand i depth = .error (.breach b) ↔
    b = .overflow ∧ i.opcode = .getLocal ∧ 2 ^ 32 ≤ l.slots + depth := by
  have hbelow {index limit : Nat} {e : VerifyError} :
      (if index < limit then (.ok () : Except (Fault VerifyError) Unit) else .error (.error e)) ≠
        .error (.breach b) := by
    split <;> exact nofun
  unfold checkOperand readable
  by_cases hop : i.opcode = .getLocal
  · rw [hop]
    by_cases hfits : l.slots + depth < 2 ^ 32
    · simp only [if_pos hfits]
      exact iff_of_false hbelow fun h => by omega
    · simp only [if_neg hfits]
      constructor
      · intro h
        cases h
        exact ⟨rfl, trivial, Nat.le_of_not_lt hfits⟩
      · rintro ⟨rfl, -⟩
        rfl
  · refine iff_of_false ?_ fun h => hop h.2.1
    simp only
    split
    · exact absurd ‹_› hop
    all_goals first | exact hbelow | exact nofun

/-- Behind the check of the operand, nothing can be broken. -/
theorem depthAfter_breach : l.depthAfter i depth = .error (.breach b) ↔
    b = .overflow ∧ i.opcode = .getLocal ∧ 2 ^ 32 ≤ l.slots + depth := by
  rw [← checkOperand_breach]
  unfold depthAfter
  cases l.checkOperand i depth with
  | error fault => simp only [bind, Except.bind, Except.error.injEq]
  | ok u =>
    refine iff_of_false (fun h => ?_) nofun
    simp only [bind, Except.bind, throw, throwThe, MonadExceptOf.throw, pure, Except.pure] at h
    repeat' split at h
    all_goals cases h

/-- Where the depth after an instruction is computed, whether it is accepted or reported as too great, it is the true
    one. -/
theorem depthAfter_computed {a : Nat}
    (h : l.depthAfter i depth = .ok a ∨ l.depthAfter i depth = .error (.error (.stackOverflow i.offset a))) :
    i.pops ≤ depth ∧ a = i.after depth := by
  obtain h | h := h
  · obtain ⟨_, hpops, _, _, _, ha⟩ := depthAfter_ok_iff.mp h
    exact ⟨hpops, ha⟩
  · unfold depthAfter at h
    cases hc : l.checkOperand i depth with
    | error e =>
      rw [hc] at h
      cases h
      exact absurd hc (checkOperand_ne_stackOverflow l i depth _ _)
    | ok u =>
      rw [hc] at h
      simp only [bind, Except.bind, throw, throwThe, MonadExceptOf.throw, pure, Except.pure] at h
      repeat' split at h
      all_goals cases h
      rename_i hpops _ _
      exact ⟨Nat.le_of_not_lt hpops, rfl⟩

end Limits

namespace StackMap

variable {l : Limits} {code : List UInt8} {is : List Instruction} {visited rest : List Nat} {w w' : Walk}

/-! ## Never twice -/

/-- No offset is visited or pending twice, and each of them has got its depth. -/
structure Walk.Once (visited : List Nat) (w : Walk) : Prop where
  nodup : (visited ++ w.pending).Nodup
  met : ∀ offset ∈ visited ++ w.pending, (w.map.depthAt offset).isSome = true

/-- A visit is to an offset that was pending. -/
theorem Walk.Once.pop {offset : Nat} (h : w.Once visited) (hp : w.pending = offset :: rest) :
    ({ w with pending := rest } : Walk).Once (offset :: visited) := by
  have hperm : (visited ++ w.pending).Perm (offset :: visited ++ rest) := by
    rw [hp]
    exact List.perm_middle
  exact ⟨hperm.nodup_iff.mp h.nodup, fun o ho => h.met o (hperm.mem_iff.mpr ho)⟩

/-- What becomes pending has just got its depth. -/
theorem Walk.Once.reached {offset depth : Nat} {byJump : Bool} (h : w.Once visited)
    (hr : w.Reached w' offset depth byJump) :
    w'.Once visited := by
  have hmet : ∀ o ∈ visited ++ w.pending, (w'.map.depthAt o).isSome = true := by
    intro o ho
    obtain ⟨d, hd⟩ := Option.isSome_iff_exists.mp (h.met o ho)
    rw [hr.mono o d hd]
    rfl
  cases hk : w.map.depthAt offset with
  | some d =>
    have hpending : w'.pending = w.pending := by rw [hr.pending, hk]; rfl
    exact ⟨hpending ▸ h.nodup, hpending ▸ hmet⟩
  | none =>
    have hpending : w'.pending = offset :: w.pending := by rw [hr.pending, hk]; rfl
    have hfresh : offset ∉ visited ++ w.pending := fun ho => by simpa [hk] using h.met offset ho
    have hperm : (visited ++ w'.pending).Perm (offset :: (visited ++ w.pending)) := by
      rw [hpending]
      exact List.perm_middle
    refine ⟨hperm.nodup_iff.mpr (List.nodup_cons.mpr ⟨hfresh, h.nodup⟩), fun o ho => ?_⟩
    obtain rfl | ho := List.mem_cons.mp (hperm.mem_iff.mp ho)
    · rw [hr.depthAt, if_pos rfl]
      rfl
    · exact hmet o ho

theorem Walk.Once.visit {offset : Nat} (ht : Instruction.Tiles code 0 is) (hw : w.Inv l is code.length none)
    (hp : w.pending = offset :: rest) (h : w.Once visited)
    (hv : Walk.visit l (starts code.length is) { w with pending := rest } offset = .ok w') :
    w'.Once (offset :: visited) := by
  obtain ⟨depth, hd⟩ := Option.isSome_iff_exists.mp (hw.pending offset (by rw [hp]; exact List.mem_cons_self ..))
  obtain ⟨_, _, i, hi, ho⟩ := hw.met offset depth hd
  obtain ⟨a, w₁, _, hj, hf⟩ := (visit_ok_iff (w := { w with pending := rest })
    ((starts_join_iff ht).mpr ⟨hi, ho⟩) hd).mp hv
  have h₀ : (Walk.deepen { w with pending := rest } depth a).Once (offset :: visited) :=
    ⟨(h.pop hp).nodup, (h.pop hp).met⟩
  obtain ⟨h₁, hsize⟩ : w₁.Once (offset :: visited) ∧ w₁.map.infos.size = code.length := by
    unfold Jumped at hj
    split at hj
    · obtain ⟨j, hj', rfl⟩ := (starts_isSome_iff ht).mp hj.1
      have hr := Walk.reach_ok (by exact hw.size ▸ ht.offset_lt hj') hj.2
      exact ⟨h₀.reached hr, hr.size.trans hw.size⟩
    · subst hj
      exact ⟨h₀, hw.size⟩
  unfold Fallen at hf
  split at hf
  · rw [size_starts] at hf
    exact h₁.reached (Walk.reach_ok (by rw [hsize]; exact hf.1) hf.2)
  · subst hf
    exact h₁

/-! ## Visit by visit -/

inductive Walk.Visited (l : Limits) (code : List UInt8) (is : List Instruction) : List Nat → Walk → Prop
  | start : Visited l code is [] (Walk.start code.length)
  | visit {visited rest : List Nat} {offset : Nat} {w w' : Walk} :
      Visited l code is visited w → w.pending = offset :: rest →
      Walk.visit l (starts code.length is) { w with pending := rest } offset = .ok w' →
      Visited l code is (offset :: visited) w'

/-- The walk is over with this answer: nothing is pending, or the next visit fails. -/
def Walk.Ends (l : Limits) (code : List UInt8) (is : List Instruction) (w : Walk)
    (r : Except (Fault VerifyError) StackMap) : Prop :=
  match w.pending with
  | [] => r = .ok w.map
  | offset :: rest =>
    ∃ e, Walk.visit l (starts code.length is) { w with pending := rest } offset = .error e ∧ r = .error e

def Walk.Visiting (w : Walk) (i : Instruction) (depth : Nat) : Prop :=
  w.pending.head? = some i.offset ∧ w.map.depthAt i.offset = some depth

/-- All that a visit to the instruction of that index looks up is there, and what it computes fits 32 bits. -/
structure InRange (l : Limits) (code : List UInt8) (is : List Instruction) (w : Walk) (idx : Nat) (i : Instruction)
    (depth : Nat) : Prop where
  index : is[idx]? = some i
  /-- The table and the map have what the visit needs to know about its own offset. -/
  found : (starts code.length is)[i.offset]? = some (some i)
  met : ∃ info, w.map.infos[i.offset]? = some (some info) ∧ info.depth = depth
  room : depth ≤ maxStackDepth
  counts : i.pops < 2 ^ 32 ∧ i.pushes < 2 ^ 32
  /-- The depth that is accepted or reported afterwards is the true one. -/
  after : ∀ a, l.depthAfter i depth = .ok a ∨ l.depthAfter i depth = .error (.error (.stackOverflow i.offset a)) →
    i.pops ≤ depth ∧ a + i.pops = depth + i.pushes ∧ a < 2 ^ 32
  /-- A jump goes to a place in the table and in the map. -/
  target : ∀ target, i.target? = some target → target < (starts code.length is).size ∧ target < w.map.infos.size
  landing : ∀ target j, i.target? = some target → (starts code.length is)[target]? = some (some j) →
    j.offset = target ∧ ∃ t : Nat, is[t]? = some j
  /-- The instruction that control goes on to is the one of the next index. -/
  next : i.opcode.fallsThrough = true → i.next < code.length →
    ∃ j, is[idx + 1]? = some j ∧ (starts code.length is)[i.next]? = some (some j) ∧ i.next < w.map.infos.size

theorem starts_getElem?_iff (ht : Instruction.Tiles code 0 is) {offset : Nat} {i : Instruction} :
    (starts code.length is)[offset]? = some (some i) ↔ i ∈ is ∧ i.offset = offset := by
  rw [← starts_join_iff ht, Option.join_eq_some_iff]

/-- A visit breaks an assumption exactly if it computes a count of what can be read that does not fit. -/
theorem Walk.visit_breach {table : Array (Option Instruction)} {offset depth : Nat} {i : Instruction} {b : Breach}
    (hi : table[offset]?.join = some i) (hd : w.map.depthAt offset = some depth) :
    Walk.visit l table w offset = .error (.breach b) ↔
      b = .overflow ∧ i.opcode = .getLocal ∧ 2 ^ 32 ≤ l.slots + depth := by
  have hreach {w : Walk} {offset depth : Nat} {byJump : Bool} : w.reach offset depth byJump ≠ .error (.breach b) := by
    unfold Walk.reach
    split
    · exact nofun
    · split <;> exact nofun
  rw [← Limits.depthAfter_breach]
  unfold Walk.visit
  rw [hi, hd]
  simp only [bind, Except.bind]
  cases l.depthAfter i depth with
  | error fault => simp only [Except.error.injEq]
  | ok a =>
    refine iff_of_false (fun h => ?_) nofun
    simp only at h
    repeat' split at h
    all_goals first | exact hreach h | (cases h; exact hreach ‹_›) | cases h

section Decoded

variable (ht : Instruction.Tiles code 0 is) (hne : code ≠ [])

include ht hne

/-- Every visit keeps the invariant and uses up one of as many visits as the code has bytes. -/
theorem Walk.Visited.inv (h : Walk.Visited l code is visited w) :
    w.Inv l is code.length none ∧ w.map.unmet + w.pending.length + visited.length = code.length := by
  induction h with
  | start => exact ⟨Walk.inv_start ht hne, Walk.budget_start code.length (List.length_pos_iff.mpr hne)⟩
  | visit _ hp hv ih =>
    obtain ⟨hw, hbudget⟩ := ih
    obtain ⟨hw', hbudget'⟩ := hw.visit ht hp hv
    exact ⟨hw', by rw [List.length_cons]; omega⟩

theorem Walk.Visited.once (h : Walk.Visited l code is visited w) : w.Once visited := by
  induction h with
  | start =>
    refine ⟨List.nodup_singleton 0, fun o ho => ?_⟩
    obtain rfl := List.mem_singleton.mp ho
    rw [(Walk.inv_start (l := l) ht hne).start]
    rfl
  | visit h hp hv ih => exact ih.visit ht (h.inv ht hne).1 hp hv

/-- There are no more visits than instructions. -/
theorem Walk.Visited.length_le (h : Walk.Visited l code is visited w) :
    visited.length + w.pending.length ≤ is.length := by
  have hsub : visited ++ w.pending ⊆ is.map Instruction.offset := by
    intro o ho
    obtain ⟨d, hd⟩ := Option.isSome_iff_exists.mp ((h.once ht hne).met o ho)
    obtain ⟨_, _, i, hi, rfl⟩ := (h.inv ht hne).1.met o d hd
    exact List.mem_map_of_mem hi
  have hle := ((h.once ht hne).nodup.subperm hsub).length_le
  rwa [List.length_append, List.length_map] at hle

/-- The visits that are left are enough for the walk to get to its end. -/
theorem Walk.Visited.run {visits : Nat} (h : Walk.Visited l code is visited w)
    (hvisits : visits + visited.length = code.length) :
    ∃ visited' w', Walk.Visited l code is visited' w' ∧
      w'.Ends l code is ((Walk.run l (starts code.length is) visits w).map Walk.map) := by
  induction visits generalizing visited w with
  | zero =>
    have hp : w.pending = [] := List.eq_nil_of_length_eq_zero (by have := (h.inv ht hne).2; omega)
    exact ⟨visited, w, h, by rw [Ends, hp]; rfl⟩
  | succ visits ih =>
    rw [Walk.run]
    cases hp : w.pending with
    | nil => exact ⟨visited, w, h, by rw [Ends, hp]; rfl⟩
    | cons offset rest =>
      cases hv : Walk.visit l (starts code.length is) { w with pending := rest } offset with
      | error e => exact ⟨visited, w, h, by rw [Ends, hp]; exact ⟨e, hv, by simp only [hv]; rfl⟩⟩
      | ok w₁ =>
        obtain ⟨visited', w', h', hends⟩ := ih (h.visit hp hv) (by rw [List.length_cons]; omega)
        exact ⟨visited', w', h', by simp only [hv]; exact hends⟩

/-- The walk from the start passes through every walk that is followed. -/
theorem Walk.Visited.run_eq (h : Walk.Visited l code is visited w) :
    Walk.run l (starts code.length is) (code.length - visited.length) w =
      Walk.run l (starts code.length is) code.length (Walk.start code.length) := by
  induction h with
  | start => rfl
  | @visit visited rest offset w w' h hp hv ih =>
    -- What is visited and pending are different offsets of the code, so there is a visit left for this one.
    have hbudget := (h.inv ht hne).2
    rw [hp, List.length_cons] at hbudget
    have hone : code.length - visited.length = code.length - (offset :: visited).length + 1 := by
      rw [List.length_cons]
      omega
    rw [← ih, hone, Walk.run, hp]
    simp only [hv]
    rfl

/-- What the walk ends with is the answer. -/
theorem Walk.Visited.run_of_ends {r : Except (Fault VerifyError) StackMap} (h : Walk.Visited l code is visited w)
    (hends : w.Ends l code is r) :
    (Walk.run l (starts code.length is) code.length (Walk.start code.length)).map Walk.map = r := by
  rw [← h.run_eq ht hne]
  unfold Ends at hends
  cases hp : w.pending with
  | nil =>
    rw [hp] at hends
    rw [hends]
    cases code.length - visited.length with
    | zero => rfl
    | succ visits =>
      rw [Walk.run, hp]
      rfl
  | cons offset rest =>
    rw [hp] at hends
    obtain ⟨e, hv, rfl⟩ := hends
    have hbudget := (h.inv ht hne).2
    rw [hp, List.length_cons] at hbudget
    obtain ⟨visits, hvisits⟩ : ∃ visits, code.length - visited.length = visits + 1 :=
      ⟨code.length - visited.length - 1, by omega⟩
    rw [hvisits, Walk.run, hp]
    simp only [hv]
    rfl

theorem Walk.Visited.exists_visiting (h : Walk.Visited l code is visited w) {offset : Nat}
    (ho : w.pending.head? = some offset) : ∃ i ∈ is, ∃ depth, i.offset = offset ∧ w.Visiting i depth := by
  have hw := (h.inv ht hne).1
  obtain ⟨depth, hd⟩ := Option.isSome_iff_exists.mp (hw.pending offset (List.mem_of_head? ho))
  obtain ⟨_, _, i, hi, rfl⟩ := hw.met offset depth hd
  exact ⟨i, hi, depth, rfl, ho, hd⟩

theorem Walk.Visited.inRange (h : Walk.Visited l code is visited w) {i : Instruction} {depth : Nat} (hi : i ∈ is)
    (hv : w.Visiting i depth) : ∃ idx, InRange l code is w idx i depth := by
  have hw := (h.inv ht hne).1
  have hsound := (ht.sound hi).2
  obtain ⟨_, hroom, _⟩ := hw.met _ _ hv.2
  obtain ⟨idx, hidx⟩ := List.mem_iff_getElem?.mp hi
  have hpushes := i.pushes_le
  refine ⟨idx, hidx, (starts_getElem?_iff ht).mpr ⟨hi, rfl⟩, ?_, hroom, ⟨i.pops_lt, by omega⟩, fun a ha => ?_,
    fun target e => ?_, fun target j _ hj => ?_, fun _ hn => ?_⟩
  · obtain ⟨info, hinfo, hdepth⟩ := depthAt_eq_some_iff.mp hv.2
    exact ⟨info, Option.join_eq_some_iff.mp hinfo, hdepth⟩
  · obtain ⟨hpops, rfl⟩ := Limits.depthAfter_computed ha
    unfold Instruction.after
    unfold maxStackDepth at hroom
    omega
  · rw [size_starts, hw.size]
    exact ⟨hsound.target target e, hsound.target target e⟩
  · obtain ⟨hj, ho⟩ := (starts_getElem?_iff ht).mp hj
    exact ⟨ho, List.mem_iff_getElem?.mp hj⟩
  · obtain ⟨j, hj, ho⟩ := ht.getElem?_next hidx hn
    exact ⟨j, hj, (starts_getElem?_iff ht).mpr ⟨List.mem_of_getElem? hj, ho⟩, by rw [hw.size]; exact hn⟩

end Decoded

/-! ## The count of what a read can reach -/

/-- Wherever the walk of a code comes to a read of a local, the count of what can be read fits 32 bits. -/
def CountsFit (l : Limits) : Prop :=
  ∀ code is visited w i depth, code ≠ [] → Instruction.decode code = .ok is →
    Walk.Visited l code is visited w → i ∈ is →
    w.Visiting i depth → i.opcode = .getLocal → l.slots + depth < 2 ^ 32

def deepRead (k : Nat) : List UInt8 := List.replicate k 0x0D ++ [0x18, 0, 0]

def pushAt (offset : Nat) : Instruction := ⟨offset, .pushOne, .none, 1⟩

def readAt (offset : Nat) : Instruction := ⟨offset, .getLocal, .u16 0, 3⟩

def deepReadParts (k : Nat) : List Instruction := (List.range' 0 k).map pushAt ++ [readAt k]

theorem tiles_deepRead_from {k n m : Nat} (h : n + m = k) :
    Instruction.Tiles (deepRead k) n ((List.range' n m).map pushAt ++ [readAt k]) := by
  induction m generalizing n with
  | zero =>
    obtain rfl : n = k := h
    have hdrop : (deepRead n).drop n = [0x18, 0, 0] := by simp [deepRead]
    have hencodable : (readAt n).Encodable (deepRead n).length :=
      ⟨rfl, rfl, Operand.lands_of_format (o := .u16 0) (by decide) _ _⟩
    refine ⟨Instruction.decodeAt_iff_encode.mpr ⟨rfl, hencodable, ?_⟩, ?_⟩
    · rw [hdrop]
      exact List.prefix_rfl
    · show n + 3 = (deepRead n).length
      simp [deepRead]
  | succ m ih =>
    have hdrop : (deepRead k).drop n = 0x0D :: (List.replicate m 0x0D ++ [0x18, 0, 0]) := by
      obtain rfl : k = n + (m + 1) := h.symm
      simp [deepRead, List.drop_append, List.replicate_succ]
    have hencodable : (pushAt n).Encodable (deepRead k).length :=
      ⟨rfl, rfl, Operand.lands_of_format (o := .none) (by decide) _ _⟩
    refine ⟨Instruction.decodeAt_iff_encode.mpr ⟨rfl, hencodable, ?_⟩, ?_⟩
    · rw [hdrop]
      exact ⟨_, rfl⟩
    · have hnext : (pushAt n).next = n + 1 := rfl
      rw [hnext]
      exact ih (by omega)

theorem tiles_deepRead (k : Nat) : Instruction.Tiles (deepRead k) 0 (deepReadParts k) :=
  tiles_deepRead_from (Nat.zero_add k)

theorem depthAt_start {length : Nat} (h : 0 < length) (o : Nat) :
    (Walk.start length).map.depthAt o = if o = 0 then some 0 else none := by
  have hsize : 0 < (StackMap.mk (Array.replicate length none) 0).infos.size := by simpa using h
  have hnone : (StackMap.mk (Array.replicate length none) 0).info? o = none := by
    rw [info?, Array.getElem?_replicate]
    split <;> rfl
  rw [depthAt, show (Walk.start length).map.info? o = _ from info?_note hsize ⟨0, false⟩ o, hnone]
  split <;> rfl

/-- A visit to an instruction that only goes on to a new one makes that pending. -/
theorem Walk.exists_visit_next (ht : Instruction.Tiles code 0 is) {i : Instruction} {depth a : Nat} (hi : i ∈ is)
    (hsize : w.map.infos.size = code.length) (hd : w.map.depthAt i.offset = some depth)
    (ha : l.depthAfter i depth = .ok a) (htarget : i.target? = none) (hfalls : i.opcode.fallsThrough = true)
    (hn : i.next < code.length) (hfresh : w.map.depthAt i.next = none) :
    ∃ w', Walk.visit l (starts code.length is) w i.offset = .ok w' ∧ w'.pending = i.next :: w.pending ∧
      ∀ o, w'.map.depthAt o = if o = i.next then some a else w.map.depthAt o := by
  have hfresh' : (w.deepen depth a).map.depthAt i.next = none := hfresh
  have hagree : ∀ d, (w.deepen depth a).map.depthAt i.next = some d → d = a :=
    fun d hd' => by rw [hfresh'] at hd'; cases hd'
  obtain ⟨w', hw'⟩ := Walk.exists_reach false hagree
  have hr := Walk.reach_ok (by exact hsize ▸ hn) hw'
  refine ⟨w', (Walk.visit_ok_iff ((starts_join_iff ht).mpr ⟨hi, rfl⟩) hd).mpr ⟨a, w.deepen depth a, ha, ?_, ?_⟩, ?_,
    hr.depthAt⟩
  · rw [Jumped, htarget]
  · rw [Fallen, if_pos hfalls, size_starts]
    exact ⟨hn, hw'⟩
  · rw [hr.pending, hfresh']
    rfl

/-- The walk gets to the read with as many values on the stack as were pushed. -/
theorem visited_deepRead (l : Limits) {k : Nat} (hk : k ≤ maxStackDepth) {n : Nat} (hn : n ≤ k) :
    ∃ visited w, Walk.Visited l (deepRead k) (deepReadParts k) visited w ∧ w.pending = [n] ∧ w.map.depthAt n = some n ∧
      ∀ o, n < o → w.map.depthAt o = none := by
  have hlength : (deepRead k).length = k + 3 := by simp [deepRead]
  have hne : deepRead k ≠ [] := List.ne_nil_of_length_pos (by omega)
  -- After `n` pushes only the next offset is pending, and nothing behind it has been reached.
  induction n with
  | zero =>
    refine ⟨[], _, .start, rfl, ?_, fun o ho => ?_⟩
    · rw [depthAt_start (by omega)]
      rfl
    · rw [depthAt_start (by omega), if_neg (by omega)]
  | succ n ih =>
    obtain ⟨visited, w, h, hpending, hdepth, hfresh⟩ := ih (by omega)
    have hi : pushAt n ∈ deepReadParts k :=
      List.mem_append_left _ (List.mem_map_of_mem (List.mem_range'_1.mpr (by omega)))
    have hafter : l.depthAfter (pushAt n) n = .ok (n + 1) :=
      Limits.depthAfter_ok_iff.mpr ⟨rfl, Nat.zero_le _, (by intro h; cases h), (by intro h; cases h),
        Nat.le_trans hn hk, rfl⟩
    have hnext : (pushAt n).next = n + 1 := rfl
    obtain ⟨w', hvisit, hpending', hdepth'⟩ := Walk.exists_visit_next (w := { w with pending := [] })
      (tiles_deepRead k) hi
      (h.inv (tiles_deepRead k) hne).1.size hdepth hafter rfl rfl (by omega) (hfresh (n + 1) (Nat.lt_succ_self n))
    rw [hnext] at hpending' hdepth'
    refine ⟨n :: visited, w', h.visit hpending hvisit, hpending', ?_, fun o ho => ?_⟩
    · rw [hdepth', if_pos rfl]
    · rw [hdepth', if_neg (by omega)]
      exact hfresh o (by omega)

theorem countsFit_iff (l : Limits) : CountsFit l ↔ l.slots + maxStackDepth < 2 ^ 32 := by
  constructor
  · intro h
    -- A program may push until the stack is as deep as it may be, and read then.
    obtain ⟨visited, w, hw, hpending, hdepth, _⟩ :=
      visited_deepRead l (Nat.le_refl maxStackDepth) (Nat.le_refl maxStackDepth)
    exact h _ _ visited w (readAt maxStackDepth) maxStackDepth (by simp [deepRead])
      (Instruction.decode_iff_tiles.mpr (tiles_deepRead _)) hw
      (List.mem_append_right _ (List.mem_singleton_self _)) ⟨by rw [hpending]; rfl, hdepth⟩ rfl
  · intro h code is visited w i depth hne hd hw hi hv _
    obtain ⟨_, hroom, _⟩ := (hw.inv (Instruction.decode_iff_tiles.mp hd) hne).1.met _ _ hv.2
    omega

/-! ## The verifier -/

theorem verify_eq (hne : code ≠ []) (hd : Instruction.decode code = .ok is) :
    verify l code = (Walk.run l (starts code.length is) code.length (Walk.start code.length)).map Walk.map := by
  rw [verify, if_neg (by simpa using hne), hd]
  dsimp only
  cases Walk.run l (starts code.length is) code.length (Walk.start code.length) <;> rfl

/-- The verifier breaks an assumption exactly if the walk comes to a read of a local whose count does not fit. -/
theorem verify_breach (hne : code ≠ []) (hd : Instruction.decode code = .ok is) {b : Breach} :
    verify l code = .error (.breach b) ↔ b = .overflow ∧
      ∃ visited w i depth, Walk.Visited l code is visited w ∧ i ∈ is ∧
      w.Visiting i depth ∧ i.opcode = .getLocal ∧ 2 ^ 32 ≤ l.slots + depth := by
  have ht := Instruction.decode_iff_tiles.mp hd
  rw [verify_eq hne hd]
  constructor
  · intro h
    obtain ⟨visited, w, hw, hends⟩ := Walk.Visited.start.run (l := l) ht hne rfl
    unfold Walk.Ends at hends
    cases hp : w.pending with
    | nil =>
      rw [hp] at hends
      cases hends.symm.trans h
    | cons offset rest =>
      rw [hp] at hends
      obtain ⟨e, hv, hr⟩ := hends
      have hfirst : w.pending.head? = some offset := by rw [hp]; rfl
      obtain ⟨i, hi, depth, rfl, hvisiting⟩ := hw.exists_visiting ht hne hfirst
      cases hr.symm.trans h
      obtain ⟨rfl, hop, hgreat⟩ := (Walk.visit_breach (w := { w with pending := rest })
        ((starts_join_iff ht).mpr ⟨hi, rfl⟩) hvisiting.2).mp hv
      exact ⟨rfl, visited, w, i, depth, hw, hi, hvisiting, hop, hgreat⟩
  · rintro ⟨rfl, visited, w, i, depth, hw, hi, hvisiting, hop, hgreat⟩
    refine hw.run_of_ends ht hne ?_
    obtain ⟨rest, hp⟩ := List.head?_eq_some_iff.mp hvisiting.1
    rw [Walk.Ends, hp]
    refine ⟨_, (Walk.visit_breach (w := { w with pending := rest }) ((starts_join_iff ht).mpr ⟨hi, rfl⟩)
      hvisiting.2).mpr
      ⟨rfl, hop, hgreat⟩, rfl⟩

/-- No code makes the verifier break an assumption exactly if the counts fit for all codes. -/
theorem verify_safe_iff (l : Limits) : (∀ code b, verify l code ≠ .error (.breach b)) ↔ CountsFit l := by
  constructor
  · intro h code is visited w i depth hne hd hw hi hv hop
    refine Nat.lt_of_not_le fun hgreat => ?_
    exact h code .overflow ((verify_breach hne hd).mpr ⟨rfl, visited, w, i, depth, hw, hi, hv, hop, hgreat⟩)
  · intro h code b hb
    by_cases hne : code = []
    · subst hne
      cases hb
    cases hd : Instruction.decode code with
    | error e =>
      rw [verify, if_neg (by simpa using hne), hd] at hb
      cases hb
    | ok is =>
      obtain ⟨_, visited, w, i, depth, hw, hi, hv, hop, hgreat⟩ := (verify_breach hne hd).mp hb
      exact absurd (h code is visited w i depth hne hd hw hi hv hop) (Nat.not_lt_of_le hgreat)

/-- A code that is empty or cannot be decoded is refused as such, and any other is walked. Its instructions lie inside
    it. The walk visits each of them at most once and comes to an end, which gives the answer of the verifier. Before
    each visit it stands at an instruction, and all that the visit looks up and computes is in range, with one
    exception: where the count of what a read of a local can reach does not fit 32 bits, an assumption is broken, and
    nowhere else. The count fits for all codes exactly if it does at the greatest depth. -/
theorem verifier_stays_in_range (l : Limits) :
    (∀ code : List UInt8,
      (code = [] ∧ verify l code = .error (.error .emptyProgram)) ∨
      (∃ e, Instruction.decode code = .error e ∧ verify l code = .error (.error (.decode e))) ∨
      ∃ is, Instruction.decode code = .ok is ∧
        (∀ i ∈ is, i.offset < code.length ∧ i.next ≤ code.length) ∧
        (∀ visited w, Walk.Visited l code is visited w →
          (visited ++ w.pending).Nodup ∧ visited.length + w.pending.length ≤ is.length ∧
          ∀ offset, w.pending.head? = some offset →
            ∃ idx i depth, i.offset = offset ∧ w.Visiting i depth ∧ InRange l code is w idx i depth) ∧
        (∃ visited w, Walk.Visited l code is visited w ∧ w.Ends l code is (verify l code)) ∧
        ∀ b, verify l code = .error (.breach b) ↔ b = .overflow ∧ ∃ visited w i depth,
          Walk.Visited l code is visited w ∧ i ∈ is ∧ w.Visiting i depth ∧ i.opcode = .getLocal ∧
            2 ^ 32 ≤ l.slots + depth) ∧
    (CountsFit l ↔ l.slots + maxStackDepth < 2 ^ 32) ∧
    ((∀ code b, verify l code ≠ .error (.breach b)) ↔ l.slots + maxStackDepth < 2 ^ 32) := by
  refine ⟨?_, countsFit_iff l, (verify_safe_iff l).trans (countsFit_iff l)⟩
  intro code
  by_cases hne : code = []
  · left
    rw [hne]
    exact ⟨rfl, rfl⟩
  right
  cases hd : Instruction.decode code with
  | error e =>
    left
    refine ⟨e, rfl, ?_⟩
    rw [verify, if_neg (by simpa using hne), hd]
  | ok is =>
    right
    have ht := Instruction.decode_iff_tiles.mp hd
    refine ⟨is, rfl, fun i hi => ⟨ht.offset_lt hi, (ht.sound hi).1⟩, ?_, ?_, fun b => verify_breach hne hd⟩
    · intro visited w h
      refine ⟨(h.once ht hne).nodup, h.length_le ht hne, ?_⟩
      intro offset ho
      obtain ⟨i, hi, depth, hoffset, hv⟩ := h.exists_visiting ht hne ho
      obtain ⟨idx, hrange⟩ := h.inRange ht hne hi hv
      exact ⟨idx, i, depth, hoffset, hv, hrange⟩
    · rw [verify_eq hne hd]
      exact Walk.Visited.start.run ht hne rfl

/-- A loop that pushes a value, tests it and jumps back to its beginning: its first visit is in range, and with two
    slots all counts fit. -/
theorem verifier_stays_in_range_loop :
    Instruction.decode [0x0A, 0x42, 0xFF, 0xFF, 0xFF, 0xFF, 0x61] =
        .ok [⟨0, .pushTrue, .none, 1⟩, ⟨1, .ifNe, .jump 0, 5⟩, ⟨6, .stop, .none, 1⟩] ∧
      (∃ idx i depth, i.offset = 0 ∧ InRange ⟨2, 0, 0⟩ [0x0A, 0x42, 0xFF, 0xFF, 0xFF, 0xFF, 0x61]
        [⟨0, .pushTrue, .none, 1⟩, ⟨1, .ifNe, .jump 0, 5⟩, ⟨6, .stop, .none, 1⟩] (Walk.start 7) idx i depth) ∧
      CountsFit ⟨2, 0, 0⟩ := by
  have hdecode : Instruction.decode [0x0A, 0x42, 0xFF, 0xFF, 0xFF, 0xFF, 0x61] =
      .ok [⟨0, .pushTrue, .none, 1⟩, ⟨1, .ifNe, .jump 0, 5⟩, ⟨6, .stop, .none, 1⟩] := rfl
  obtain ⟨hcode, hcounts, _⟩ := verifier_stays_in_range ⟨2, 0, 0⟩
  refine ⟨hdecode, ?_, hcounts.mpr (by decide)⟩
  obtain ⟨hnil, _⟩ | ⟨e, he, _⟩ | ⟨is, hd, _, hwalk, _⟩ := hcode [0x0A, 0x42, 0xFF, 0xFF, 0xFF, 0xFF, 0x61]
  · cases hnil
  · cases hdecode.symm.trans he
  · cases hdecode.symm.trans hd
    obtain ⟨_, _, hvisit⟩ := hwalk [] _ .start
    obtain ⟨idx, i, depth, hoffset, _, hrange⟩ := hvisit 0 rfl
    exact ⟨idx, i, depth, hoffset, hrange⟩

/-- With the greatest slot count, what can be read with one value on the stack is too much for the count, and a read of
    the first slot breaks the assumption. With one slot less it is accepted. -/
theorem greatest_slot_count_overflows :
    (∃ w, Walk.Visited ⟨2 ^ 32 - 1, 0, 0⟩ [0x0D, 0x18, 0, 0, 0x02, 0x60]
        [pushAt 0, readAt 1, ⟨4, .pop, .none, 1⟩, ⟨5, .ret, .none, 1⟩] [0] w ∧ w.Visiting (readAt 1) 1 ∧
        ¬ (Limits.mk (2 ^ 32 - 1) 0 0).slots + 1 < 2 ^ 32) ∧
      Limits.Admits ⟨2 ^ 32 - 1, 0, 0⟩ (readAt 1) 1 ∧
      verify ⟨2 ^ 32 - 1, 0, 0⟩ [0x0D, 0x18, 0, 0, 0x02, 0x60] = .error (.breach .overflow) ∧
      ∃ m, verify ⟨2 ^ 32 - 2, 0, 0⟩ [0x0D, 0x18, 0, 0, 0x02, 0x60] = .ok m := by
  refine ⟨⟨_, .visit .start rfl rfl, ⟨rfl, rfl⟩, by decide⟩, ?_, rfl, _, rfl⟩
  show 0 < 2 ^ 32 - 1 + 1
  decide

end StackMap
end BaselineTier
