/-
  BaselineTier.Proofs.VirtualStack — what a picture of the operand stack stands for.

  Against a view, every entry of a picture has a value (`Place.value?`). A valid picture
  stands for a list of values if these are the values of its entries and the operand stack is
  as high as the entries that are written out (`Stands`). Proved for every operation: its
  moves can be carried out, and the picture after it stands for the values that it should,
  with slots, arguments and scratch cell as they were. Types that are known only travel
  along (`knowns`).
-/

import BaselineTier.Proofs.View
import BaselineTier.VirtualStack.Basic

namespace BaselineTier

def Place.value? (v : View) : Place → Option Value
  | .constant x => some x
  | .register reg => some (v.registers.get reg)
  | .slot index => v.slots[index]?
  | .arg index => v.args[index]?
  | .spilled index => v.operands[index]?

namespace VirtualStack

/-! ## Pictures that keep the rules -/

/-- The rules of a picture: what is written out is lowest and each at its own place, and a register has one owner. -/
structure Valid (s : VirtualStack) : Prop where
  place : ∀ {k : Nat} {e : Entry}, s.entries[k]? = some e → e.place.isSpilled = true → e.place = .spilled k
  lowest : ∀ {k : Nat} {e : Entry}, s.entries[k]? = some e → e.place.isSpilled = true → k < s.spilledCount
  owner : ∀ {j k : Nat} {e e' : Entry} {reg : Reg}, s.entries[j]? = some e → s.entries[k]? = some e' →
    claims reg e = true → claims reg e' = true → j = k

theorem spilledCount_eq_findIdx (s : VirtualStack) :
    s.spilledCount = s.entries.findIdx fun e => !e.place.isSpilled := by
  rw [spilledCount, List.takeWhile_eq_take_findIdx_not, List.length_take]
  exact Nat.min_eq_left List.findIdx_le_length

theorem spilledCount_le (s : VirtualStack) : s.spilledCount ≤ s.depth := by
  rw [spilledCount_eq_findIdx]
  exact List.findIdx_le_length

theorem isSpilled_of_lt {s : VirtualStack} {k : Nat} {e : Entry} (h : k < s.spilledCount)
    (he : s.entries[k]? = some e) :
    e.place.isSpilled = true := by
  rw [spilledCount_eq_findIdx] at h
  obtain ⟨hk, rfl⟩ := List.getElem?_eq_some_iff.mp he
  simpa using List.not_of_lt_findIdx h

theorem isSpilled_spilledCount {s : VirtualStack} {e : Entry} (he : s.entries[s.spilledCount]? = some e) :
    e.place.isSpilled = false := by
  obtain ⟨hk, rfl⟩ := List.getElem?_eq_some_iff.mp he
  have h := List.findIdx_getElem (w := by rw [← spilledCount_eq_findIdx]; exact hk)
  simpa [← spilledCount_eq_findIdx] using h

theorem spilledCount_eq {s : VirtualStack} {n : Nat} (hn : n ≤ s.depth)
    (hlow : ∀ {k e}, k < n → s.entries[k]? = some e → e.place.isSpilled = true)
    (hhigh : ∀ {e}, s.entries[n]? = some e → e.place.isSpilled = false) : s.spilledCount = n := by
  rcases Nat.lt_trichotomy s.spilledCount n with h | h | h
  · obtain ⟨e, he⟩ : ∃ e, s.entries[s.spilledCount]? = some e := by
      exact ⟨_, List.getElem?_eq_getElem (Nat.lt_of_lt_of_le h hn)⟩
    have := isSpilled_spilledCount he
    rw [hlow h he] at this
    cases this
  · exact h
  · obtain ⟨e, he⟩ : ∃ e, s.entries[n]? = some e := by
      exact ⟨_, List.getElem?_eq_getElem (Nat.lt_of_lt_of_le h s.spilledCount_le)⟩
    have := isSpilled_of_lt h he
    rw [hhigh he] at this
    cases this

theorem claims_eq_true_iff {reg : Reg} {e : Entry} : claims reg e = true ↔ e.place = .register reg := by
  cases h : e.place <;> simp [claims, Place.register?, h]

/-- Of two owners of a register one is counted on each side of a cut. -/
theorem countP_claims_eq_one_iff {es : List Entry} {k : Nat} {e : Entry} {reg : Reg} (he : es[k]? = some e)
    (hc : claims reg e = true) :
    es.countP (claims reg) = 1 ↔ ∀ {j e'}, es[j]? = some e' → claims reg e' = true → j = k := by
  obtain ⟨hk, rfl⟩ := List.getElem?_eq_some_iff.mp he
  have hsplit : es = es.take k ++ es[k] :: es.drop (k + 1) := by simp
  have hcount : es.countP (claims reg) = (es.take k).countP (claims reg) +
      ((es.drop (k + 1)).countP (claims reg) + 1) := by
    conv => lhs; rw [hsplit]
    rw [List.countP_append, List.countP_cons_of_pos hc]
  constructor
  · intro h j e' hj hc'
    have hlow : (es.take k).countP (claims reg) = 0 := by omega
    have hhigh : (es.drop (k + 1)).countP (claims reg) = 0 := by omega
    rw [List.countP_eq_zero] at hlow hhigh
    rcases Nat.lt_trichotomy j k with hlt | heq | hgt
    · exact absurd hc' (hlow e' (List.mem_of_getElem? (by rw [List.getElem?_take_of_lt hlt]; exact hj)))
    · exact heq
    · refine absurd hc' (hhigh e' (List.mem_of_getElem? (i := j - (k + 1)) ?_))
      rw [List.getElem?_drop, show k + 1 + (j - (k + 1)) = j by omega]
      exact hj
  · intro h
    have hlow : (es.take k).countP (claims reg) = 0 := by
      rw [List.countP_eq_zero]
      intro e' hm hc'
      obtain ⟨j, hj, rfl⟩ := List.mem_iff_getElem.mp hm
      rw [List.length_take] at hj
      have := h (j := j) (by rw [List.getElem_take, List.getElem?_eq_getElem]) hc'
      omega
    have hhigh : (es.drop (k + 1)).countP (claims reg) = 0 := by
      rw [List.countP_eq_zero]
      intro e' hm hc'
      obtain ⟨j, hj, rfl⟩ := List.mem_iff_getElem.mp hm
      have := h (j := k + 1 + j) (by rw [List.getElem_drop, List.getElem?_eq_getElem]) hc'
      omega
    omega

theorem breachAt_eq_none_iff {s : VirtualStack} {k : Nat} {e : Entry} :
    s.breachAt s.spilledCount k e = none ↔
      (e.place.isSpilled = true → e.place = .spilled k ∧ k < s.spilledCount) ∧
      (∀ reg, claims reg e = true → s.entries.countP (claims reg) = 1) := by
  cases hp : e.place with
  | spilled place =>
    by_cases hk : s.spilledCount ≤ k
    · simp [breachAt, hp, hk, Place.isSpilled, Nat.not_lt.mpr hk]
    · by_cases hpl : place = k <;>
        simp [breachAt, hp, hk, hpl, Place.isSpilled, claims, Place.register?, Nat.lt_of_not_le hk]
  | register reg => simp [breachAt, hp, Place.isSpilled, claims_eq_true_iff]
  | constant x => simp [breachAt, hp, Place.isSpilled, claims, Place.register?]
  | slot index => simp [breachAt, hp, Place.isSpilled, claims, Place.register?]
  | arg index => simp [breachAt, hp, Place.isSpilled, claims, Place.register?]

/-- The check finds exactly the pictures that keep the rules. -/
theorem check_ok_iff {s : VirtualStack} : s.check = .ok () ↔ s.Valid := by
  have hcheck : s.check = .ok () ↔ ∀ {k e}, s.entries[k]? = some e → s.breachAt s.spilledCount k e = none := by
    have hnone : s.check = .ok () ↔ s.breach? = none := by
      rw [check]
      cases s.breach? <;> simp
    rw [hnone, breach?, List.findSome?_eq_none_iff]
    constructor
    · intro h k e he
      refine h _ (List.mem_of_getElem? (i := k) ?_)
      rw [List.getElem?_mapIdx, he]
      rfl
    · intro h x hx
      obtain ⟨k, hk, rfl⟩ := List.mem_mapIdx.mp hx
      exact h (List.getElem?_eq_getElem hk)
  rw [hcheck]
  constructor
  · intro h
    refine ⟨fun he hs => ?_, fun he hs => ?_, fun he he' hc hc' => ?_⟩
    · exact ((breachAt_eq_none_iff.mp (h he)).1 hs).1
    · exact ((breachAt_eq_none_iff.mp (h he)).1 hs).2
    · exact ((countP_claims_eq_one_iff he' hc').mp ((breachAt_eq_none_iff.mp (h he')).2 _ hc')) he hc
  · intro h k e he
    refine breachAt_eq_none_iff.mpr ⟨fun hs => ⟨h.place he hs, h.lowest he hs⟩, fun reg hc => ?_⟩
    exact (countP_claims_eq_one_iff he hc).mpr fun he' hc' => h.owner he' he hc' hc

/-! ## What a picture stands for -/

/-- Against a view, the picture stands for a list of values, bottom first. -/
structure Stands (s : VirtualStack) (v : View) (vs : List Value) : Prop where
  valid : s.Valid
  height : v.operands.length = s.spilledCount
  values : s.entries.map (·.place.value? v) = vs.map some

def knowns (s : VirtualStack) : List (Option ValueType) := s.entries.map Entry.known

theorem length_knowns (s : VirtualStack) : s.knowns.length = s.depth := List.length_map ..

variable {s : VirtualStack} {v : View} {vs : List Value}

theorem Stands.length (h : s.Stands v vs) : vs.length = s.depth := by
  simpa [depth] using (congrArg List.length h.values).symm

theorem Stands.value {k : Nat} {e : Entry} (h : s.Stands v vs) (he : s.entries[k]? = some e) :
    e.place.value? v = vs[k]? := by
  have hk := congrArg (·[k]?) h.values
  simp only [List.getElem?_map, he, Option.map_some] at hk
  cases hx : vs[k]? with
  | none => rw [hx] at hk; cases hk
  | some x => rw [hx] at hk; exact Option.some.inj hk

theorem stands_of (hv : s.Valid) (hh : v.operands.length = s.spilledCount) (hl : vs.length = s.depth)
    (hvals : ∀ {k : Nat} {e : Entry}, s.entries[k]? = some e → e.place.value? v = vs[k]?) : s.Stands v vs := by
  refine ⟨hv, hh, List.ext_getElem? fun k => ?_⟩
  rw [depth] at hl
  rw [List.getElem?_map, List.getElem?_map]
  by_cases hk : k < s.entries.length
  · have he := List.getElem?_eq_getElem hk
    have hx := List.getElem?_eq_getElem (hl ▸ hk)
    rw [he, hx, Option.map_some, Option.map_some, hvals he, hx]
  · rw [List.getElem?_eq_none (Nat.le_of_not_lt hk), List.getElem?_eq_none (by omega)]
    rfl

/-- The operand stack holds the values that are written out. -/
theorem Stands.operands (h : s.Stands v vs) : v.operands = vs.take s.spilledCount := by
  refine List.ext_getElem? fun k => ?_
  rw [List.getElem?_take]
  split
  · rename_i hk
    obtain ⟨e, he⟩ : ∃ e, s.entries[k]? = some e :=
      ⟨_, List.getElem?_eq_getElem (Nat.lt_of_lt_of_le hk s.spilledCount_le)⟩
    have hval := h.value he
    rwa [h.valid.place he (isSpilled_of_lt hk he)] at hval
  · rename_i hk
    exact List.getElem?_eq_none (by rw [h.height]; omega)

end VirtualStack

/-! ## Writing entries out -/

namespace Place

theorem value?_push {v : View} {p : Place} {y : Value} (x : Value) (h : p.value? v = some y) :
    p.value? (v.push x) = some y := by
  cases p with
  | spilled index =>
    have hi : index < v.operands.length := (List.getElem?_eq_some_iff.mp h).1
    simp only [value?, View.push]
    rw [List.getElem?_append_left hi]
    exact h
  | _ => exact h

theorem read?_slot {v : View} {index : Nat} (h : index < v.slots.size) : v.read? (.slot index) = v.slots[index]? := by
  simp only [View.read?]
  exact Array.getElem?_append_left h

theorem performAll_spill {v : View} {p : Place} {x : Value} (hp : p.isSpilled = false) (h : p.value? v = some x) :
    v.performAll p.spill = some (v.push x) := by
  cases p with
  | constant y => cases h; rfl
  | register reg => cases h; rfl
  | slot index =>
    have hr : v.read? (.slot index) = some x := by
      rw [read?_slot (Array.getElem?_eq_some_iff.mp h).1]; exact h
    simp [spill, View.performAll, View.perform, hr]
  | arg index =>
    have hr : v.read? (.arg index) = some x := h
    simp [spill, View.performAll, View.perform, hr]
  | spilled index => cases hp

end Place

namespace VirtualStack

variable {s : VirtualStack} {v : View} {vs : List Value}

theorem isSpilled_spillAt (c : Nat) (e : Entry) : (spillAt c e).place.isSpilled = true := by
  unfold spillAt
  split
  · assumption
  · rfl

/-- The lowest entry that is not written out is written out. -/
theorem Stands.spillAt {c : Nat} {e : Entry} (h : s.Stands v vs) (he : s.entries[c]? = some e)
    (hc : c ≤ s.spilledCount) :
    ∃ v', v.performAll e.place.spill = some v' ∧ v' = { v with operands := v'.operands } ∧
      Stands ⟨s.entries.set c (spillAt c e)⟩ v' vs ∧
      spilledCount ⟨s.entries.set c (VirtualStack.spillAt c e)⟩ = max s.spilledCount (c + 1) := by
  have hlt : c < s.entries.length := (List.getElem?_eq_some_iff.mp he).1
  by_cases hs : e.place.isSpilled = true
  · -- it is written out already
    have hset : s.entries.set c (VirtualStack.spillAt c e) = s.entries := by
      rw [VirtualStack.spillAt, if_pos hs]
      obtain ⟨_, rfl⟩ := List.getElem?_eq_some_iff.mp he
      exact List.set_getElem_self hlt
    have hlow := h.valid.lowest he hs
    rw [hset]
    refine ⟨v, ?_, rfl, h, ?_⟩
    · rw [h.valid.place he hs]; rfl
    · show s.spilledCount = _
      omega
  · rw [Bool.not_eq_true] at hs
    have hcount : s.spilledCount = c := by
      rcases Nat.lt_or_ge c s.spilledCount with hlt' | hge
      · rw [isSpilled_of_lt hlt' he] at hs; cases hs
      · omega
    obtain ⟨x, hx⟩ : ∃ x, vs[c]? = some x := by
      exact ⟨_, List.getElem?_eq_getElem (by rw [h.length]; exact hlt)⟩
    have hval : e.place.value? v = some x := (h.value he).trans hx
    have hentry : VirtualStack.spillAt c e = { e with place := .spilled c } := by
      rw [VirtualStack.spillAt, if_neg (by simp [hs])]
    have hget {k : Nat} {e' : Entry} (hk : (s.entries.set c (VirtualStack.spillAt c e))[k]? = some e') :
        (k = c ∧ e' = { e with place := .spilled c }) ∨ (k ≠ c ∧ s.entries[k]? = some e') := by
      rw [hentry, List.getElem?_set] at hk
      split at hk
      · rename_i hkc
        simp only [Option.some.injEq] at hk
        exact .inl ⟨hkc.symm, hk.symm⟩
      · rename_i hkc
        exact .inr ⟨Ne.symm hkc, hk⟩
    have hnew : spilledCount ⟨s.entries.set c (VirtualStack.spillAt c e)⟩ = c + 1 := by
      refine spilledCount_eq (by simp only [depth, List.length_set]; omega) (fun hk hk' => ?_) (fun hk' => ?_)
      · rcases hget hk' with ⟨rfl, rfl⟩ | ⟨hne, he'⟩
        · rfl
        · exact isSpilled_of_lt (by omega) he'
      · rcases hget hk' with ⟨hk, _⟩ | ⟨_, he'⟩
        · omega
        · cases hs' : Place.isSpilled _ with
          | false => rfl
          | true => have := h.valid.lowest he' hs'; omega
    refine ⟨v.push x, Place.performAll_spill hs hval, rfl,
      stands_of ⟨fun hk hs' => ?_, fun hk hs' => ?_, ?_⟩ ?_ ?_ ?_, by omega⟩
    · rcases hget hk with ⟨rfl, rfl⟩ | ⟨_, he'⟩
      · rfl
      · exact h.valid.place he' hs'
    · rw [hnew]
      rcases hget hk with ⟨rfl, _⟩ | ⟨_, he'⟩
      · omega
      · have := h.valid.lowest he' hs'; omega
    · intro j k e₁ e₂ reg hj hk h₁ h₂
      rcases hget hj with ⟨rfl, rfl⟩ | ⟨_, hj⟩
      · cases h₁
      · rcases hget hk with ⟨rfl, rfl⟩ | ⟨_, hk⟩
        · cases h₂
        · exact h.valid.owner hj hk h₁ h₂
    · rw [hnew, View.push, List.length_append, h.height, hcount]; rfl
    · rw [h.length]; simp [depth]
    · intro k e' hk
      rcases hget hk with ⟨rfl, rfl⟩ | ⟨hne, he'⟩
      · simp only [Place.value?, View.push]
        rw [List.getElem?_append_right (by rw [h.height]; omega), h.height, hcount, Nat.sub_self, hx]; rfl
      · rw [← h.value he']
        obtain ⟨y, hy⟩ : ∃ y, vs[k]? = some y :=
          ⟨_, List.getElem?_eq_getElem (by rw [h.length]; exact (List.getElem?_eq_some_iff.mp he').1)⟩
        rw [h.value he', hy]
        exact Place.value?_push x ((h.value he').trans hy)

theorem flush_zero (s : VirtualStack) : s.flush 0 = ([], s) := by simp [flush]

theorem flush_succ {c : Nat} {e : Entry} (he : s.entries[c]? = some e) :
    s.flush (c + 1) = ((s.flush c).1 ++ e.place.spill, ⟨(s.flush c).2.entries.set c (VirtualStack.spillAt c e)⟩) := by
  obtain ⟨hc, rfl⟩ := List.getElem?_eq_some_iff.mp he
  have htake : s.entries.take (c + 1) = s.entries.take c ++ [s.entries[c]] := List.take_succ_eq_append_getElem hc
  have hdrop : s.entries.drop c = s.entries[c] :: s.entries.drop (c + 1) := List.drop_eq_getElem_cons hc
  have hlen : ((s.entries.take c).mapIdx VirtualStack.spillAt).length = c := by simp; omega
  simp only [flush, htake, hdrop, List.flatMap_append, List.flatMap_singleton, List.mapIdx_append, List.length_take]
  rw [List.set_append_right _ _ (by omega), hlen, Nat.sub_self, List.set_cons_zero]
  simp [Nat.min_eq_left (Nat.le_of_lt hc)]

theorem flush_of_depth_le {c : Nat} (h : s.depth ≤ c) : s.flush c = s.flush s.depth := by
  simp only [flush, depth]
  rw [List.take_of_length_le h, List.take_length, List.drop_of_length_le h, List.drop_length]

theorem getElem?_flush (s : VirtualStack) (c k : Nat) :
    (s.flush c).2.entries[k]? = s.entries[k]?.map fun e => if k < c then VirtualStack.spillAt k e else e := by
  simp only [flush, List.getElem?_append, List.length_mapIdx, List.length_take, List.getElem?_mapIdx,
    List.getElem?_take,
    List.getElem?_drop]
  by_cases hk : k < c
  · by_cases hl : k < s.entries.length
    · simp [hk, hl, Nat.lt_min.mpr ⟨hk, hl⟩]
    · rw [if_neg (by omega), List.getElem?_eq_none (by omega), List.getElem?_eq_none (by omega)]
      rfl
  · by_cases hl : k < s.entries.length
    · rw [if_neg (by omega), show c + (k - min c s.entries.length) = k by omega]
      simp [hk]
    · rw [if_neg (by omega), List.getElem?_eq_none (by omega), List.getElem?_eq_none (by omega)]
      rfl

theorem depth_flush (s : VirtualStack) (c : Nat) : (s.flush c).2.depth = s.depth := by
  simp only [flush, depth, List.length_append, List.length_mapIdx, List.length_take, List.length_drop]
  omega

theorem knowns_flush (s : VirtualStack) (c : Nat) : (s.flush c).2.knowns = s.knowns := by
  refine List.ext_getElem? fun k => ?_
  simp only [knowns, List.getElem?_map, getElem?_flush, Option.map_map]
  congr 1
  funext e
  simp only [Function.comp]
  split
  · unfold VirtualStack.spillAt; split <;> rfl
  · rfl

/-- Writing out the lowest entries leaves all values where the picture says. -/
theorem Stands.flush (h : s.Stands v vs) (c : Nat) :
    ∃ v', v.performAll (s.flush c).1 = some v' ∧ v' = { v with operands := v'.operands } ∧
      (s.flush c).2.Stands v' vs ∧ (s.flush c).2.spilledCount = max s.spilledCount (min c s.depth) := by
  induction c with
  | zero =>
    rw [flush_zero]
    exact ⟨v, rfl, rfl, h, by show s.spilledCount = _; omega⟩
  | succ c ih =>
    obtain ⟨v₁, hrun, hsame, hst, hcount⟩ := ih
    cases he : s.entries[c]? with
    | none =>
      have hle : s.depth ≤ c := List.getElem?_eq_none_iff.mp he
      rw [flush_of_depth_le (Nat.le_succ_of_le hle), ← flush_of_depth_le hle]
      exact ⟨v₁, hrun, hsame, hst, by omega⟩
    | some e =>
      have hlt : c < s.depth := (List.getElem?_eq_some_iff.mp he).1
      have he' : (s.flush c).2.entries[c]? = some e := by
        rw [getElem?_flush, he, Option.map_some, if_neg (Nat.lt_irrefl c)]
      obtain ⟨v₂, hrun', hsame', hst', hcount'⟩ := hst.spillAt he' (by omega)
      rw [flush_succ he]
      refine ⟨v₂, (View.performAll_append hrun).trans hrun', ?_, hst', hcount'.trans (by omega)⟩
      rw [hsame', hsame]

/-- Once everything is written out, no entry is left to a register. -/
theorem isSpilled_of_all {k : Nat} {e : Entry} (h : s.spilledCount = s.depth) (he : s.entries[k]? = some e) :
    e.place.isSpilled = true :=
  isSpilled_of_lt (by rw [h]; exact (List.getElem?_eq_some_iff.mp he).1) he

theorem claims_of_isSpilled {reg : Reg} {e : Entry} (h : e.place.isSpilled = true) : claims reg e = false := by
  cases hc : claims reg e with
  | false => rfl
  | true => rw [claims_eq_true_iff.mp hc] at h; cases h

/-! ## Pushing -/

theorem getElem?_add {k : Nat} {e e' : Entry} (h : (s.add e).entries[k]? = some e') :
    s.entries[k]? = some e' ∨ (k = s.depth ∧ e' = e) := by
  simp only [add, List.getElem?_append] at h
  split at h
  · exact .inl h
  · rename_i hk
    have hk' : k - s.entries.length = 0 := by
      have := (List.getElem?_eq_some_iff.mp h).1
      simp only [List.length_singleton] at this
      omega
    rw [hk', List.getElem?_cons_zero, Option.some.injEq] at h
    exact .inr ⟨by simp only [depth]; omega, h.symm⟩

theorem depth_add (s : VirtualStack) (e : Entry) : (s.add e).depth = s.depth + 1 := by simp [add, depth]

theorem knowns_add (s : VirtualStack) (e : Entry) : (s.add e).knowns = s.knowns ++ [e.known] := by simp [add, knowns]

theorem spilledCount_add {e : Entry} (h : e.place.isSpilled = false) : (s.add e).spilledCount = s.spilledCount := by
  simp only [spilledCount, add, List.takeWhile_append]
  split
  · rename_i hall
    simp [h, hall]
  · rfl

def Unclaimed (s : VirtualStack) (reg : Reg) : Prop := ∀ e ∈ s.entries, claims reg e = false

/-- An entry that is not written out goes on top of the others; a register it lives in must be free. -/
theorem Stands.add {e : Entry} {x : Value} (h : s.Stands v vs) (hs : e.place.isSpilled = false)
    (hx : e.place.value? v = some x)
    (hfree : ∀ {reg}, claims reg e = true → s.Unclaimed reg) :
    (s.add e).Stands v (vs ++ [x]) := by
  have hcount := spilledCount_add (s := s) hs
  refine stands_of ⟨fun hk hs' => ?_, fun hk hs' => ?_, ?_⟩ (by rw [hcount, h.height])
    (by simp [h.length, depth_add]) ?_
  · rcases getElem?_add hk with he' | ⟨_, rfl⟩
    · exact h.valid.place he' hs'
    · rw [hs] at hs'; cases hs'
  · rcases getElem?_add hk with he' | ⟨_, rfl⟩
    · rw [hcount]; exact h.valid.lowest he' hs'
    · rw [hs] at hs'; cases hs'
  · intro j k e₁ e₂ reg hj hk h₁ h₂
    rcases getElem?_add hj with hj' | ⟨rfl, rfl⟩ <;> rcases getElem?_add hk with hk' | ⟨rfl, rfl⟩
    · exact h.valid.owner hj' hk' h₁ h₂
    · rw [hfree h₂ _ (List.mem_of_getElem? hj')] at h₁; cases h₁
    · rw [hfree h₁ _ (List.mem_of_getElem? hk')] at h₂; cases h₂
    · rfl
  · intro k e' hk
    rcases getElem?_add hk with he' | ⟨rfl, rfl⟩
    · rw [List.getElem?_append_left (by rw [h.length]; exact (List.getElem?_eq_some_iff.mp he').1)]
      exact h.value he'
    · rw [hx, List.getElem?_append_right (Nat.le_of_eq h.length), h.length, Nat.sub_self]
      rfl

/-- Evicting the owner of a register leaves the register to nobody. -/
theorem Stands.evict (h : s.Stands v vs) (reg : Reg) :
    ∃ v', v.performAll (s.evict reg).1 = some v' ∧ v' = { v with operands := v'.operands } ∧
      (s.evict reg).2.Stands v' vs ∧ (s.evict reg).2.depth = s.depth ∧ (s.evict reg).2.knowns = s.knowns ∧
      (s.evict reg).2.Unclaimed reg := by
  unfold VirtualStack.evict
  cases hi : s.entries.findIdx? (claims reg) with
  | none =>
    exact ⟨v, rfl, rfl, h, rfl, rfl, fun e he => List.findIdx?_eq_none_iff.mp hi e he⟩
  | some index =>
    obtain ⟨hlt, hown, _⟩ := List.findIdx?_eq_some_iff_getElem.mp hi
    obtain ⟨v', hrun, hsame, hst, _⟩ := h.flush (index + 1)
    refine ⟨v', hrun, hsame, hst, depth_flush s _, knowns_flush s _, fun e he => ?_⟩
    obtain ⟨k, he⟩ := List.mem_iff_getElem?.mp he
    rw [getElem?_flush, Option.map_eq_some_iff] at he
    obtain ⟨e₀, he₀, rfl⟩ := he
    split
    · exact claims_of_isSpilled (isSpilled_spillAt k e₀)
    · cases hc : claims reg e₀ with
      | false => rfl
      | true =>
        have := h.valid.owner he₀ (List.getElem?_eq_getElem hlt) hc hown
        omega

/-- A pushed entry has its value on top; a register that it claims is given up by its owner first. -/
theorem Stands.push {e : Entry} {x : Value} (h : s.Stands v vs) (hs : e.place.isSpilled = false)
    (hx : e.place.value? v = some x) :
    ∃ v', v.performAll (s.push e).1 = some v' ∧ v' = { v with operands := v'.operands } ∧
      (s.push e).2.Stands v' (vs ++ [x]) ∧ (s.push e).2.depth = s.depth + 1 ∧
      (s.push e).2.knowns = s.knowns ++ [e.known] := by
  unfold VirtualStack.push
  cases hp : e.place with
  | register reg =>
    obtain ⟨v', hrun, hsame, hst, hdepth, hknown, hfree⟩ := h.evict reg
    refine ⟨v', hrun, hsame, hst.add hs ?_ ?_, (depth_add _ e).trans (by rw [hdepth]),
      (knowns_add _ e).trans (by rw [hknown])⟩
    · rw [hp] at hx ⊢
      rw [hsame]
      exact hx
    · intro reg' hc
      rw [claims_eq_true_iff, hp] at hc
      cases hc
      exact hfree
  | spilled index => rw [hp] at hs; cases hs
  | _ =>
    refine ⟨v, rfl, rfl, h.add hs (by rw [hp] at hx ⊢; exact hx) ?_, depth_add s e, knowns_add s e⟩
    intro reg' hc
    rw [claims_eq_true_iff, hp] at hc
    cases hc

/-! ## Pictures with everything written out -/

def Settled (s : VirtualStack) : Prop := ∀ (k : Nat) (e : Entry), s.entries[k]? = some e → e.place = .spilled k

theorem Settled.spilledCount (h : s.Settled) : s.spilledCount = s.depth := by
  refine spilledCount_eq (Nat.le_refl _) (fun _ he => by rw [h _ _ he]; rfl) (fun he => ?_)
  rw [depth, List.getElem?_eq_none (Nat.le_refl _)] at he
  cases he

theorem Valid.settled (h : s.Valid) (hall : s.spilledCount = s.depth) : s.Settled :=
  fun _ _ he => h.place he (isSpilled_of_all hall he)

theorem Settled.unclaimed (h : s.Settled) (reg : Reg) : s.Unclaimed reg := by
  intro e he
  obtain ⟨k, he⟩ := List.mem_iff_getElem?.mp he
  exact claims_of_isSpilled (by rw [h _ _ he]; rfl)

theorem Settled.valid (h : s.Settled) : s.Valid := by
  refine ⟨fun he _ => h _ _ he, fun he _ => ?_, fun he _ hc _ => ?_⟩
  · rw [h.spilledCount]
    exact (List.getElem?_eq_some_iff.mp he).1
  · rw [h.unclaimed _ _ (List.mem_of_getElem? he)] at hc
    cases hc

/-- What is written out already is not written out again. -/
theorem Settled.flush_moves (h : s.Settled) (c : Nat) : (s.flush c).1 = [] := by
  refine List.flatMap_eq_nil_iff.mpr fun e he => ?_
  obtain ⟨k, hk⟩ := List.mem_iff_getElem?.mp (List.mem_of_mem_take he)
  rw [h k e hk]
  rfl

/-- A settled picture stands for what is on the operand stack. -/
theorem Settled.stands (h : s.Settled) (hl : v.operands.length = s.depth) : s.Stands v v.operands :=
  stands_of h.valid (by rw [h.spilledCount, hl]) hl fun he => by rw [h _ _ he]; rfl

theorem Stands.operands_of_settled (h : s.Stands v vs) (hset : s.Settled) : v.operands = vs := by
  rw [h.operands, hset.spilledCount, ← h.length, List.take_length]

theorem Settled.add (h : s.Settled) (known : Option ValueType) : (s.add ⟨.spilled s.depth, known⟩).Settled := by
  intro k e he
  rcases getElem?_add he with he | ⟨rfl, rfl⟩
  · exact h _ _ he
  · rfl

theorem Stands.flushAll (h : s.Stands v vs) :
    ∃ v', v.performAll (s.flushBelow 0).1 = some v' ∧ v' = { v with operands := vs } ∧ (s.flushBelow 0).2.Stands v' vs ∧
      (s.flushBelow 0).2.Settled ∧ (s.flushBelow 0).2.depth = s.depth ∧ (s.flushBelow 0).2.knowns = s.knowns := by
  obtain ⟨v', hrun, hsame, hst, hcount⟩ := h.flush s.depth
  have hset : (s.flush s.depth).2.Settled := by
    refine hst.valid.settled ?_
    rw [hcount, depth_flush]
    have := s.spilledCount_le
    omega
  refine ⟨v', hrun, ?_, hst, hset, depth_flush s _, knowns_flush s _⟩
  rw [hsame, hst.operands_of_settled hset]

theorem Stands.pushScratch (h : s.Stands v vs) :
    ∃ v', v.performAll s.pushScratch.1 = some v' ∧ v' = { v with operands := vs ++ [v.scratch] } ∧
      s.pushScratch.2.Stands v' (vs ++ [v.scratch]) ∧ s.pushScratch.2.depth = s.depth + 1 ∧
      s.pushScratch.2.knowns = s.knowns ++ [none] := by
  obtain ⟨v', hrun, hsame, hst, hset, hdepth, hknown⟩ := h.flushAll
  have hpush : v'.performAll [.pushFrom .scratch] = some (v'.push v'.scratch) := rfl
  have hps : s.pushScratch = ((s.flushBelow 0).1 ++ [.pushFrom .scratch],
      (s.flushBelow 0).2.add ⟨.spilled (s.flushBelow 0).2.depth, none⟩) := rfl
  rw [hps]
  refine ⟨v'.push v'.scratch, (View.performAll_append hrun).trans hpush, by rw [hsame]; rfl, ?_,
    (depth_add _ _).trans (by rw [hdepth]), (knowns_add _ _).trans (by rw [hknown])⟩
  have hops : (v'.push v'.scratch).operands = vs ++ [v.scratch] := by rw [hsame]; rfl
  rw [← hops]
  exact (hset.add none).stands (by rw [depth_add, hops, List.length_append, h.length, hdepth]; rfl)

theorem settled_resize (h : s.Settled) (depth : Nat) : (s.resize depth).Settled ∧ (s.resize depth).depth = depth := by
  constructor
  · intro k e he
    simp only [resize, List.getElem?_append, List.length_take, List.getElem?_take, List.getElem?_map] at he
    split at he
    · rename_i hk
      rw [if_pos (by omega)] at he
      exact h _ _ he
    · rename_i hk
      obtain ⟨j, hj, rfl⟩ := Option.map_eq_some_iff.mp he
      obtain ⟨hlt, rfl⟩ := List.getElem?_eq_some_iff.mp hj
      have hlen : k - min depth s.entries.length < depth - s.depth := by rwa [List.length_range'] at hlt
      rw [List.getElem_range']
      simp only [VirtualStack.depth] at hlen ⊢
      congr 1
      omega
  · simp only [resize, VirtualStack.depth, List.length_append, List.length_take, List.length_map, List.length_range']
    omega

/-! ## Popping -/

/-- Loading brings the value into the register; what was on top of the stack is gone from there. -/
theorem performAll_load {p : Place} {x : Value} (dst : Reg) (hx : p.value? v = some x)
    (htop : p.isSpilled = true → v.operands.getLast? = some x) :
    v.performAll (p.load dst) =
      some ({ v with operands := if p.isSpilled then v.operands.dropLast else v.operands }.setReg dst x) := by
  cases p with
  | constant y => cases hx; rfl
  | register src =>
    cases hx
    by_cases hsrc : src = dst
    · subst hsrc
      simp [Place.load, View.performAll, View.setReg, Registers.set_get, Place.isSpilled]
    · simp [Place.load, View.performAll, View.perform, hsrc, Place.isSpilled]
  | slot index =>
    have hr : v.read? (.slot index) = some x := by
      rw [Place.read?_slot (Array.getElem?_eq_some_iff.mp hx).1]; exact hx
    simp [Place.load, View.performAll, View.perform, hr, Place.isSpilled]
  | arg index =>
    have hr : v.read? (.arg index) = some x := hx
    simp [Place.load, View.performAll, View.perform, hr, Place.isSpilled]
  | spilled index => simp [Place.load, View.performAll, View.perform, htop rfl, Place.isSpilled]

/-- The picture with its top entries gone. -/
theorem Valid.take (h : s.Valid) (n : Nat) :
    Valid ⟨s.entries.take n⟩ ∧ spilledCount ⟨s.entries.take n⟩ = min n s.spilledCount := by
  have hcount : spilledCount ⟨s.entries.take n⟩ = min n s.spilledCount := by
    have hle := s.spilledCount_le
    refine spilledCount_eq (by simp only [depth, List.length_take] at hle ⊢; omega) (fun hk he => ?_) (fun he => ?_)
    · rw [List.getElem?_take_of_lt (by omega)] at he
      exact isSpilled_of_lt (by omega) he
    · rw [List.getElem?_take] at he
      split at he
      · rename_i hlt
        rw [Nat.min_eq_right (by omega)] at he
        exact isSpilled_spilledCount he
      · cases he
  have hget {k : Nat} {e : Entry} (he : (s.entries.take n)[k]? = some e) : k < n ∧ s.entries[k]? = some e := by
    rw [List.getElem?_take] at he
    split at he
    · exact ⟨by assumption, he⟩
    · cases he
  refine ⟨⟨fun he hs => h.place (hget he).2 hs, fun he hs => ?_, fun hj hk => h.owner (hget hj).2 (hget hk).2⟩, hcount⟩
  rw [hcount]
  exact Nat.lt_min.mpr ⟨(hget he).1, h.lowest (hget he).2 hs⟩

theorem knowns_take (s : VirtualStack) (n : Nat) : knowns ⟨s.entries.take n⟩ = s.knowns.take n := by
  simp [knowns, List.map_take]

/-- The top values go: those that were written out leave the operand stack with them. -/
theorem Stands.take (h : s.Stands v vs) (n : Nat) :
    Stands ⟨s.entries.take n⟩ { v with operands := v.operands.take n } (vs.take n) := by
  obtain ⟨hvalid, hcount⟩ := h.valid.take n
  refine stands_of hvalid (by rw [hcount, List.length_take, h.height]) ?_ ?_
  · simp only [depth, List.length_take, h.length]
  · intro k e he
    rw [List.getElem?_take] at he
    split at he
    · rename_i hk
      rw [List.getElem?_take_of_lt hk, ← h.value he]
      cases hp : e.place with
      | spilled index =>
        have hplace := h.valid.place he (by rw [hp]; rfl)
        rw [hp] at hplace
        cases hplace
        exact List.getElem?_take_of_lt hk
      | _ => rfl
    · cases he

theorem value?_setReg_of_not_claims {reg : Reg} {e : Entry} (x : Value) (h : claims reg e = false) :
    e.place.value? (v.setReg reg x) = e.place.value? v := by
  cases hp : e.place with
  | register src =>
    have hne : src ≠ reg := by
      rintro rfl
      rw [claims_eq_true_iff.mpr hp] at h
      cases h
    simp only [Place.value?, View.setReg]
    rw [Registers.get_set_ne _ x hne]
  | _ => rfl

/-- A register that no entry claims may change. -/
theorem Stands.setReg {reg : Reg} (h : s.Stands v vs) (hfree : s.Unclaimed reg) (x : Value) :
    s.Stands (v.setReg reg x) vs := by
  refine stands_of h.valid h.height h.length fun {k e} he => ?_
  rw [← h.value he]
  exact value?_setReg_of_not_claims x (hfree e (List.mem_of_getElem? he))

/-- The entry on top. -/
theorem Stands.top {x : Value} (h : s.Stands v (vs ++ [x])) :
    ∃ e, s.entries[vs.length]? = some e ∧ s.entries.getLast? = some e ∧ s.entries.dropLast = s.entries.take vs.length ∧
      e.place.value? v = some x := by
  have hdepth : s.entries.length = vs.length + 1 := by simpa [depth] using h.length.symm
  obtain ⟨e, he⟩ : ∃ e, s.entries[vs.length]? = some e := ⟨_, List.getElem?_eq_getElem (by omega)⟩
  refine ⟨e, he, ?_, ?_, ?_⟩
  · rw [List.getLast?_eq_getElem?, hdepth]
    exact he
  · rw [List.dropLast_eq_take, hdepth]
    rfl
  · rw [h.value he, List.getElem?_append_right (Nat.le_refl _), Nat.sub_self]
    rfl

/-- What is left of the operand stack once the top value is loaded. -/
theorem Stands.operands_below {x : Value} {e : Entry} (h : s.Stands v (vs ++ [x]))
    (he : s.entries[vs.length]? = some e) :
    (e.place.isSpilled = true → v.operands.getLast? = some x) ∧
      (if e.place.isSpilled then v.operands.dropLast else v.operands) = v.operands.take vs.length := by
  have hdepth : vs.length + 1 = s.depth := by simpa using h.length
  cases hs : e.place.isSpilled with
  | true =>
    have hall : s.spilledCount = s.depth := by
      have := h.valid.lowest he hs
      have := s.spilledCount_le
      omega
    have hops : v.operands = vs ++ [x] := h.operands_of_settled (h.valid.settled hall)
    simp [hops]
  | false =>
    have hle : v.operands.length ≤ vs.length := by
      rw [h.height]
      rcases Nat.lt_or_ge vs.length s.spilledCount with hlt | hge
      · rw [isSpilled_of_lt hlt he] at hs; cases hs
      · exact hge
    simp [List.take_of_length_le hle]

/-- The top value is taken into a register that nothing below it claims. -/
theorem Stands.popInto {x : Value} (h : s.Stands v (vs ++ [x])) (dst : Reg)
    (hfree : Unclaimed ⟨s.entries.take vs.length⟩ dst) :
    ∃ moves v', s.popInto dst = .ok (moves, ⟨s.entries.take vs.length⟩) ∧ v.performAll moves = some v' ∧
      v' = { v with operands := v.operands.take vs.length }.setReg dst x ∧ Stands ⟨s.entries.take vs.length⟩ v' vs := by
  obtain ⟨e, he, hlast, hdrop, hx⟩ := h.top
  obtain ⟨htop, hops⟩ := h.operands_below he
  have hst := (h.take vs.length).setReg hfree x
  rw [List.take_left] at hst
  refine ⟨_, _, ?_, performAll_load dst hx htop, by rw [hops], by rw [hops]; exact hst⟩
  simp only [VirtualStack.popInto, hlast, hdrop]

theorem Valid.countP_drop (h : s.Valid) (n : Nat) :
    (s.entries.drop n).countP (·.place.isSpilled) = s.spilledCount - n := by
  have hsplit : s.entries.drop n = (s.entries.drop n).take (s.spilledCount - n) ++
      s.entries.drop (max n s.spilledCount) := by
    conv => lhs; rw [← List.take_append_drop (s.spilledCount - n) (s.entries.drop n)]
    rw [List.drop_drop, show n + (s.spilledCount - n) = max n s.spilledCount by omega]
  have hlow : ((s.entries.drop n).take (s.spilledCount - n)).countP (·.place.isSpilled) = s.spilledCount - n := by
    rw [List.countP_eq_length.mpr, List.length_take, List.length_drop]
    · have := s.spilledCount_le
      simp only [depth] at this
      omega
    · intro e he
      obtain ⟨k, he⟩ := List.mem_iff_getElem?.mp he
      rw [List.getElem?_take] at he
      split at he
      · rw [List.getElem?_drop] at he
        exact isSpilled_of_lt (by omega) he
      · cases he
  have hhigh : (s.entries.drop (max n s.spilledCount)).countP (·.place.isSpilled) = 0 := by
    rw [List.countP_eq_zero]
    intro e he hs
    obtain ⟨k, he⟩ := List.mem_iff_getElem?.mp he
    rw [List.getElem?_drop] at he
    have := h.lowest he hs
    omega
  rw [hsplit, List.countP_append, hlow, hhigh]
  rfl

/-- The top values are dropped. -/
theorem Stands.drop {ys : List Value} (h : s.Stands v (vs ++ ys)) :
    ∃ moves v', s.drop ys.length = .ok (moves, ⟨s.entries.take vs.length⟩) ∧ v.performAll moves = some v' ∧
      v' = { v with operands := v.operands.take vs.length } ∧ Stands ⟨s.entries.take vs.length⟩ v' vs := by
  have hdepth : s.depth = vs.length + ys.length := by simpa using h.length.symm
  have hst := h.take vs.length
  rw [List.take_left] at hst
  have hcount : (s.entries.drop vs.length).countP (·.place.isSpilled) = v.operands.length - vs.length := by
    rw [h.valid.countP_drop, h.height]
  have hrun : v.performAll (Move.dropping (v.operands.length - vs.length)) =
      some { v with operands := v.operands.take vs.length } := by
    unfold Move.dropping
    split
    · rename_i hz
      rw [List.take_of_length_le (by omega)]
      rfl
    · rename_i hz
      have hle : v.operands.length - vs.length ≤ v.operands.length := Nat.sub_le _ _
      simp only [View.performAll, View.perform, if_pos hle, Option.bind_some]
      rw [show v.operands.length - (v.operands.length - vs.length) = vs.length by omega]
  refine ⟨_, _, ?_, hrun, rfl, hst⟩
  simp only [VirtualStack.drop]
  rw [if_pos (by omega), hdepth, Nat.add_sub_cancel, hcount]

theorem Stands.drop_of_le {n : Nat} (h : s.Stands v vs) (hn : n ≤ s.depth) :
    ∃ r v', s.drop n = .ok r ∧ v.performAll r.1 = some v' ∧ v' = { v with operands := v'.operands } ∧
      r.2.Stands v' (vs.take (s.depth - n)) := by
  have hsplit : s.Stands v (vs.take (s.depth - n) ++ vs.drop (s.depth - n)) := by rwa [List.take_append_drop]
  have hlen : (vs.drop (s.depth - n)).length = n := by rw [List.length_drop, h.length]; omega
  obtain ⟨moves, v', hdrop, hrun, hsame, hst⟩ := hsplit.drop
  rw [hlen] at hdrop
  exact ⟨_, v', hdrop, hrun, by rw [hsame], hst⟩

/-! ## Popping into registers -/

/-- What lies below the entries that are not written out is settled. -/
theorem Valid.settled_take {n : Nat} (h : s.Valid) (hn : n ≤ s.spilledCount) : Settled ⟨s.entries.take n⟩ := by
  obtain ⟨hvalid, hcount⟩ := h.take n
  refine hvalid.settled ?_
  have hle := s.spilledCount_le
  simp only [hcount, depth, List.length_take] at hle ⊢
  omega

theorem Stands.popOne {x : Value} (h : s.Stands v (vs ++ [x])) :
    ∃ moves s' v', s.popOne = .ok (moves, s') ∧ v.performAll moves = some v' ∧
      v' = { v with operands := vs }.setReg .r0 x ∧ s'.Stands v' vs ∧ s'.Settled ∧
        s'.knowns = s.knowns.take vs.length := by
  have hdepth : s.depth = vs.length + 1 := by simpa using h.length.symm
  obtain ⟨v₁, hrun₁, hsame, hst, hcount⟩ := h.flush (s.depth - 1)
  have hset := hst.valid.settled_take (n := vs.length) (by omega)
  obtain ⟨moves, v₂, hpop, hrun₂, rfl, hst₂⟩ := hst.popInto .r0 (hset.unclaimed .r0)
  refine ⟨_, _, _, ?_, (View.performAll_append hrun₁).trans hrun₂, ?_, hst₂, hset, ?_⟩
  · simp only [VirtualStack.popOne, flushBelow, hpop, if_neg (show ¬ s.depth < 1 by omega)]
    rfl
  · have hops : v₁.operands.take vs.length = vs := hst₂.operands_of_settled hset
    rw [hops, hsame]
  · rw [knowns_take, knowns_flush]

/-- The two entries on top. -/
theorem Stands.top_two {a b : Value} (h : s.Stands v (vs ++ [a, b])) :
    ∃ second top, s.entries = s.entries.take vs.length ++ [second, top] ∧ s.entries[vs.length]? = some second ∧
      s.entries[vs.length + 1]? = some top ∧ second.place.value? v = some a ∧ top.place.value? v = some b := by
  have hdepth : s.entries.length = vs.length + 2 := by simpa [depth] using h.length.symm
  have hsecond := List.getElem?_eq_getElem (show vs.length < s.entries.length by omega)
  have htop := List.getElem?_eq_getElem (show vs.length + 1 < s.entries.length by omega)
  refine ⟨_, _, ?_, hsecond, htop, ?_, ?_⟩
  · conv => lhs; rw [← List.take_append_drop vs.length s.entries]
    rw [List.drop_eq_getElem_cons (by omega), List.drop_eq_getElem_cons (by omega), List.drop_of_length_le (by omega)]
  · rw [h.value hsecond, List.getElem?_append_right (Nat.le_refl _), Nat.sub_self]
    rfl
  · rw [h.value htop, List.getElem?_append_right (by omega), Nat.add_sub_cancel_left]
    rfl

/-- The entries below the top are free of a register that the second does not claim, the rest being settled. -/
theorem unclaimed_below_top {n : Nat} {second : Entry} {reg : Reg} (hv : s.Valid) (hlow : n ≤ s.spilledCount)
    (he : s.entries[n]? = some second) (hc : claims reg second = false) : Unclaimed ⟨s.entries.take (n + 1)⟩ reg := by
  intro e hm
  obtain ⟨hlt, rfl⟩ := List.getElem?_eq_some_iff.mp he
  have hm' : e ∈ s.entries.take n ++ [s.entries[n]] := by rwa [← List.take_succ_eq_append_getElem hlt]
  rcases List.mem_append.mp hm' with hm | hm
  · exact (hv.settled_take hlow).unclaimed reg e hm
  · rw [List.mem_singleton.mp hm]
    exact hc

/-- The second entry's value moves to `r2`, which nobody claims. -/
theorem Stands.moveSecond {a b : Value} {top : Entry} (second : Entry) (h : s.Stands v (vs ++ [a, b]))
    (hcount : s.spilledCount = vs.length) (he₂ : s.entries[vs.length + 1]? = some top) (hc₂ : claims .r2 top = false) :
    Stands ⟨s.entries.take vs.length ++ [{ second with place := .register .r2 }, top]⟩ (v.setReg .r2 a)
      (vs ++ [a, b]) := by
  have hset := h.valid.settled_take (n := vs.length) (by omega)
  have htop : top.place.isSpilled = false := by
    cases hs : top.place.isSpilled with
    | false => rfl
    | true => have := h.valid.lowest he₂ hs; omega
  have hb : top.place.value? v = some b := by
    rw [h.value he₂, List.getElem?_append_right (by omega), Nat.add_sub_cancel_left]; rfl
  have hlow : Stands ⟨s.entries.take vs.length⟩ (v.setReg .r2 a) vs := by
    have hst := h.take vs.length
    have hops : v.operands.take vs.length = v.operands := List.take_of_length_le (by rw [h.height]; omega)
    rw [List.take_left, hops] at hst
    exact hst.setReg (hset.unclaimed .r2) a
  have hsecond := hlow.add (e := { second with place := .register .r2 }) (x := a) rfl
    (by simp [Place.value?, View.setReg])
    (fun _ => hset.unclaimed _)
  have hall := hsecond.add htop ((value?_setReg_of_not_claims a hc₂).trans hb) (fun {reg} hc => ?_)
  · simpa [VirtualStack.add] using hall
  · -- the top entry's register is neither `r2` nor one of the settled entries'
    intro e hm
    rcases List.mem_append.mp hm with hm | hm
    · exact hset.unclaimed reg e hm
    · rw [List.mem_singleton.mp hm]
      cases hreg : claims reg { second with place := .register .r2 } with
      | false => rfl
      | true =>
        rw [claims_eq_true_iff] at hreg
        cases hreg
        rw [hc] at hc₂
        cases hc₂

/-- The second value is out of the way of the top one, which is about to take `r1`. -/
theorem Stands.clearSecond {a b : Value} (h : s.Stands v (vs ++ [a, b])) (hlow : vs.length ≤ s.spilledCount) :
    ∃ v', v.performAll s.clearSecond.1 = some v' ∧
      v' = { v with operands := v'.operands, registers := v'.registers } ∧ s.clearSecond.2.Stands v' (vs ++ [a, b]) ∧
      vs.length ≤ s.clearSecond.2.spilledCount ∧ Unclaimed ⟨s.clearSecond.2.entries.take (vs.length + 1)⟩ .r1 ∧
      s.clearSecond.2.knowns = s.knowns := by
  obtain ⟨second, top, hentries, he₁, he₂, ha, hb⟩ := h.top_two
  have hdepth : s.depth = vs.length + 2 := by simpa using h.length.symm
  have hrev : s.entries.reverse = top :: second :: (s.entries.take vs.length).reverse := by
    conv => lhs; rw [hentries]
    simp
  simp only [VirtualStack.clearSecond, hrev]
  by_cases hc₁ : claims .r1 second = true
  · have hcount : s.spilledCount = vs.length := by
      rcases Nat.lt_or_ge vs.length s.spilledCount with hlt | hge
      · rw [claims_of_isSpilled (isSpilled_of_lt hlt he₁)] at hc₁; cases hc₁
      · omega
    by_cases hc₂ : claims .r2 top = true
    · -- both of the registers are in use: the second entry is written out
      simp only [hc₁, hc₂, if_true]
      obtain ⟨v', hrun, hsame, hst, hcount'⟩ := h.flush (s.depth - 1)
      refine ⟨v', hrun, by rw [hsame], hst, by omega, ?_, knowns_flush s _⟩
      exact (hst.valid.settled_take (by omega)).unclaimed .r1
    · rw [Bool.not_eq_true] at hc₂
      simp only [hc₁, hc₂, if_true, Bool.false_eq_true, if_false]
      have hget : v.registers.get .r1 = a := by
        rw [claims_eq_true_iff.mp hc₁] at ha
        exact Option.some.inj ha
      have hst := h.moveSecond second hcount he₂ hc₂
      have hnew : (top :: { second with place := .register .r2 } :: (s.entries.take vs.length).reverse).reverse
          = s.entries.take vs.length ++ [{ second with place := .register .r2 }, top] := by simp
      rw [hnew]
      refine ⟨v.setReg .r2 a, by simp [View.performAll, View.perform, hget], rfl, hst, ?_, ?_, ?_⟩
      · rw [← hst.height, View.setReg, h.height]
        exact hlow
      · have hlen : (s.entries.take vs.length).length = vs.length := by
          rw [List.length_take]
          simp only [depth] at hdepth
          omega
        have he : (s.entries.take vs.length ++ [{ second with place := .register .r2 }, top])[vs.length]?
            = some { second with place := .register .r2 } := by
          rw [List.getElem?_append_right (by omega), hlen, Nat.sub_self]
          rfl
        exact unclaimed_below_top hst.valid (by rw [← hst.height, View.setReg, h.height]; exact hlow) he rfl
      · conv => rhs; rw [knowns, hentries]
        simp [knowns]
  · rw [Bool.not_eq_true] at hc₁
    simp only [hc₁, Bool.false_eq_true, if_false]
    exact ⟨v, rfl, rfl, h, hlow, unclaimed_below_top h.valid hlow he₁ hc₁, trivial⟩

theorem Stands.popTwo {a b : Value} (h : s.Stands v (vs ++ [a, b])) :
    ∃ moves s' v', s.popTwo = .ok (moves, s') ∧ v.performAll moves = some v' ∧
      v' = { v with operands := vs, registers := v'.registers } ∧ v'.registers.r0 = a ∧ v'.registers.r1 = b ∧
      s'.Stands v' vs ∧ s'.Settled ∧ s'.knowns = s.knowns.take vs.length := by
  have hdepth : s.depth = vs.length + 2 := by simpa using h.length.symm
  obtain ⟨v₁, hrun₁, hsame₁, hst₁, hcount₁⟩ := h.flush (s.depth - 2)
  obtain ⟨v₂, hrun₂, hsame₂, hst₂, hlow₂, hfree, hknown⟩ := hst₁.clearSecond (by omega)
  rw [show vs ++ [a, b] = vs ++ [a] ++ [b] by simp] at hst₂
  have hlen : (vs ++ [a]).length = vs.length + 1 := by simp
  obtain ⟨top, v₃, hpop₃, hrun₃, hsame₃, hst₃⟩ := hst₂.popInto .r1 (by rw [hlen]; exact hfree)
  -- with the top gone, only the second entry may be out of place
  have hset : Settled ⟨((s.flush (s.depth - 2)).2.clearSecond.2.entries.take (vs ++ [a]).length).take vs.length⟩ := by
    rw [List.take_take, hlen, Nat.min_eq_left (Nat.le_succ _)]
    exact hst₂.valid.settled_take hlow₂
  obtain ⟨second, v₄, hpop₄, hrun₄, hsame₄, hst₄⟩ := hst₃.popInto .r0 (hset.unclaimed .r0)
  refine ⟨(s.flush (s.depth - 2)).1 ++ (s.flush (s.depth - 2)).2.clearSecond.1 ++ top ++ second, _, v₄,
    ?_, ?_, ?_, ?_, ?_, hst₄, hset, ?_⟩
  · simp only [VirtualStack.popTwo, flushBelow, if_neg (show ¬ s.depth < 2 by omega), hpop₃, bind, Except.bind, hpop₄]
    rfl
  · rw [List.append_assoc, List.append_assoc, View.performAll_append hrun₁, View.performAll_append hrun₂,
      View.performAll_append hrun₃, hrun₄]
  · rw [← hst₄.operands_of_settled hset, hsame₄, hsame₃, hsame₂, hsame₁]
    rfl
  · rw [hsame₄]; rfl
  · rw [hsame₄, hsame₃]; rfl
  · rw [knowns_take, knowns_take, hknown, knowns_flush, List.take_take, hlen, Nat.min_eq_left (Nat.le_succ _)]

/-! ## Storing the top value -/

def Clear (s : VirtualStack) (n : Nat) (dst : Address) : Prop :=
  ∀ (k : Nat) (e : Entry), k < n → s.entries[k]? = some e → e.place.address? ≠ some dst

theorem Clear.flush {n : Nat} {dst : Address} (h : s.Clear n dst) (hdst : ∀ index, dst ≠ .stack index) (c : Nat) :
    (s.flush c).2.Clear n dst := by
  intro k e hk he
  rw [getElem?_flush, Option.map_eq_some_iff] at he
  obtain ⟨e₀, he₀, rfl⟩ := he
  split
  · unfold VirtualStack.spillAt
    split
    · exact h k e₀ hk he₀
    · intro hplace
      exact hdst k (Option.some.inj hplace).symm
  · exact h k e₀ hk he₀

/-- Past the reach of an alias nothing below the top is one. -/
theorem ne_of_aliasReach_le {place : Place} {k : Nat} {e : Entry} (hk : s.aliasReach place ≤ k) (hk' : k < s.depth - 1)
    (he : s.entries[k]? = some e) : e.place ≠ place := by
  have hlen : s.entries.dropLast.length = s.depth - 1 := List.length_dropLast
  -- counted from the top, the entry stands before the first one that is an alias
  have hrev : s.entries.dropLast.reverse[s.depth - 1 - 1 - k]? = some e := by
    rw [List.getElem?_reverse (by omega), hlen, show s.depth - 1 - 1 - (s.depth - 1 - 1 - k) = k by omega,
      List.getElem?_dropLast, if_pos (by simp only [depth] at hk'; exact hk'), he]
  have htw : (s.entries.dropLast.reverse.takeWhile (·.place != place)).length + s.aliasReach place = s.depth - 1 := by
    rw [aliasReach, ← List.length_append, List.takeWhile_append_dropWhile, List.length_reverse, hlen]
  have hidx : s.depth - 1 - 1 - k < s.entries.dropLast.reverse.findIdx fun e => !(e.place != place) := by
    rw [List.takeWhile_eq_take_findIdx_not, List.length_take] at htw
    omega
  obtain ⟨hlt, rfl⟩ := List.getElem?_eq_some_iff.mp hrev
  simpa using List.not_of_lt_findIdx hidx

/-- Writing out the aliases of a slot or an argument clears what is below the top of it. -/
theorem Stands.flushAliases {x : Value} {place : Place} {dst : Address} (h : s.Stands v (vs ++ [x]))
    (hplace : place.address? = some dst) (hdst : ∀ index, dst ≠ .stack index) :
    ∃ v', v.performAll (s.flushAliases place).1 = some v' ∧ v' = { v with operands := v'.operands } ∧
      (s.flushAliases place).2.Stands v' (vs ++ [x]) ∧ (s.flushAliases place).2.Clear vs.length dst ∧
      (s.flushAliases place).2.knowns = s.knowns := by
  have hdepth : s.depth = vs.length + 1 := by simpa using h.length.symm
  obtain ⟨v', hrun, hsame, hst, _⟩ := h.flush (s.aliasReach place)
  refine ⟨v', hrun, hsame, hst, ?_, knowns_flush s _⟩
  intro k e hk he haddr
  simp only [VirtualStack.flushAliases, getElem?_flush, Option.map_eq_some_iff] at he
  obtain ⟨e₀, he₀, rfl⟩ := he
  split at haddr
  · have hspilled := isSpilled_spillAt k e₀
    cases hp : (VirtualStack.spillAt k e₀).place <;> rw [hp] at hspilled haddr <;> cases hspilled
    exact hdst _ (Option.some.inj haddr).symm
  · have hne : e₀.place ≠ place := ne_of_aliasReach_le (by omega) (by omega) he₀
    refine hne ?_
    cases hp : e₀.place <;> rw [hp] at haddr <;> cases haddr <;> cases place <;> cases hplace <;> rfl

theorem unclaimed_of_unclaimed? {reg : Reg} (h : s.unclaimed? = some reg) : s.Unclaimed reg := by
  have hnone := List.find?_some h
  simpa [Unclaimed] using hnone

/-- With all but the top written out, some register is free. -/
theorem exists_unclaimed? (hlow : s.depth ≤ s.spilledCount + 1) : ∃ reg, s.unclaimed? = some reg := by
  cases hu : s.unclaimed? with
  | some reg => exact ⟨reg, rfl⟩
  | none =>
    -- only the top entry can be an owner, and it cannot own two registers
    have howner (reg : Reg) : ∃ e, s.entries[s.spilledCount]? = some e ∧ e.place = .register reg := by
      have hany := List.find?_eq_none.mp hu reg (by cases reg <;> simp [Reg.all])
      simp only [Bool.not_eq_true, Bool.not_eq_false', List.any_eq_true] at hany
      obtain ⟨e, hm, hc⟩ := hany
      obtain ⟨k, he⟩ := List.mem_iff_getElem?.mp hm
      have hk : k < s.depth := (List.getElem?_eq_some_iff.mp he).1
      rcases Nat.lt_or_ge k s.spilledCount with hlt | hge
      · rw [claims_of_isSpilled (isSpilled_of_lt hlt he)] at hc; cases hc
      · rw [show k = s.spilledCount by omega] at he
        exact ⟨e, he, claims_eq_true_iff.mp hc⟩
    obtain ⟨e, he, h₀⟩ := howner .r0
    obtain ⟨e', he', h₁⟩ := howner .r1
    rw [he] at he'
    cases he'
    rw [h₀] at h₁
    cases h₁

theorem Stands.freeRegister (h : s.Stands v vs) :
    ∃ v', v.performAll s.freeRegister.2.1 = some v' ∧ v' = { v with operands := v'.operands } ∧
      s.freeRegister.2.2.Stands v' vs ∧ s.freeRegister.2.2.Unclaimed s.freeRegister.1 ∧
      s.freeRegister.2.2.knowns = s.knowns ∧
      ∀ {n dst}, (∀ index, dst ≠ .stack index) → s.Clear n dst → s.freeRegister.2.2.Clear n dst := by
  unfold VirtualStack.freeRegister
  cases hu : s.unclaimed? with
  | some reg => exact ⟨v, rfl, rfl, h, unclaimed_of_unclaimed? hu, rfl, fun _ hc => hc⟩
  | none =>
    obtain ⟨v', hrun, hsame, hst, hcount⟩ := h.flush (s.depth - 1)
    obtain ⟨reg, hreg⟩ := exists_unclaimed? (s := (s.flush (s.depth - 1)).2) (by rw [depth_flush]; omega)
    refine ⟨v', hrun, hsame, hst, ?_, knowns_flush s _, fun hdst hc => hc.flush hdst _⟩
    simp only [flushBelow, hreg, Option.getD_some]
    exact unclaimed_of_unclaimed? hreg

/-- The top value reaches its destination, by way of a free register if it comes from memory. -/
theorem Stands.store {x : Value} {e : Entry} {via : Reg} (h : s.Stands v (vs ++ [x]))
    (he : s.entries[vs.length]? = some e) (hfree : s.Unclaimed via) (dst : Address) :
    ∃ rs, v.performAll (e.place.store dst via) = { v with registers := rs }.write? x dst ∧
      s.Stands { v with registers := rs } (vs ++ [x]) := by
  have hx : e.place.value? v = some x := by
    rw [h.value he, List.getElem?_append_right (Nat.le_refl _), Nat.sub_self]; rfl
  have hvia : ∀ {src}, v.read? src = some x →
      v.performAll [.load src via, .store via dst] = (v.setReg via x).write? x dst := by
    intro src hr
    simp only [View.performAll, View.perform, hr, Option.map_some, Option.bind_some, View.setReg,
      Registers.get_set_self]
    cases View.write? _ _ _ <;> rfl
  have hset := h.setReg hfree x
  cases hp : e.place with
  | constant y =>
    rw [hp] at hx
    cases hx
    exact ⟨v.registers, by simp [Place.store, View.performAll, View.perform], h⟩
  | register reg =>
    rw [hp] at hx
    cases hx
    exact ⟨v.registers, by simp [Place.store, View.performAll, View.perform], h⟩
  | slot index =>
    rw [hp] at hx
    exact ⟨_, hvia (by rw [Place.read?_slot (Array.getElem?_eq_some_iff.mp hx).1]; exact hx), hset⟩
  | arg index =>
    rw [hp] at hx
    exact ⟨_, hvia hx, hset⟩
  | spilled index =>
    rw [hp] at hx
    exact ⟨_, hvia hx, hset⟩

/-- Writing the top value to a place where no other entry lives changes no value. -/
theorem Stands.write {x : Value} {v' : View} {dst : Address} (h : s.Stands v (vs ++ [x]))
    (hw : v.write? x dst = some v') (hclear : s.Clear vs.length dst) : s.Stands v' (vs ++ [x]) := by
  have hother {k : Nat} {e : Entry} (he : s.entries[k]? = some e) (haddr : e.place.address? = some dst) :
      (vs ++ [x])[k]? = some x := by
    have hk : k < vs.length + 1 := by
      have := (List.getElem?_eq_some_iff.mp he).1
      have hl := h.length
      simp only [depth, List.length_append, List.length_singleton] at hl
      omega
    rcases Nat.lt_or_ge k vs.length with hlt | hge
    · exact absurd haddr (hclear k e hlt he)
    · rw [show k = vs.length by omega, List.getElem?_append_right (Nat.le_refl _), Nat.sub_self]; rfl
  have hops : v'.operands = v.operands := View.length_write hw
  refine stands_of h.valid (by rw [hops, h.height]) h.length fun {k e} he => ?_
  cases dst with
  | stack index => cases hw
  | scratch =>
    cases hw
    rw [← h.value he]
    cases e.place <;> rfl
  | slot index =>
    simp only [View.write?] at hw
    split at hw
    · rename_i hi
      cases hw
      by_cases haddr : e.place = .slot index
      · rw [hother he (by rw [haddr]; rfl), haddr]
        simp [Place.value?, hi]
      · rw [← h.value he]
        cases hp : e.place with
        | slot j =>
          have hne : index ≠ j := by rintro rfl; exact haddr hp
          simp [Place.value?, hne]
        | _ => rfl
    · cases hw
  | arg index =>
    simp only [View.write?] at hw
    split at hw
    · rename_i hi
      cases hw
      by_cases haddr : e.place = .arg index
      · rw [hother he (by rw [haddr]; rfl), haddr]
        simp [Place.value?, hi]
      · rw [← h.value he]
        cases hp : e.place with
        | arg j =>
          have hne : index ≠ j := by rintro rfl; exact haddr hp
          simp [Place.value?, hne]
        | _ => rfl
    · cases hw

/-- The top value is stored where no other entry lives: a register is freed for it, and all values are as they were. -/
theorem Stands.storeTop {x : Value} {w : View} {dst : Address} (h : s.Stands v (vs ++ [x]))
    (hdst : ∀ index, dst ≠ .stack index) (hclear : s.Clear vs.length dst) (hw : v.write? x dst = some w) :
    ∃ e v', s.freeRegister.2.2.entries[vs.length]? = some e ∧
      v.performAll (s.freeRegister.2.1 ++ e.place.store dst s.freeRegister.1) = some v' ∧
      s.freeRegister.2.2.Stands v' (vs ++ [x]) ∧
      v' = { w with registers := v'.registers, operands := v'.operands } := by
  obtain ⟨v₁, hrun, hsame, hst, hfree, _, hclear'⟩ := h.freeRegister
  obtain ⟨e, he, _⟩ := hst.top
  obtain ⟨rs, hrun', hst'⟩ := hst.store he hfree dst
  have hw' : { v₁ with registers := rs }.write? x dst = some { w with registers := rs, operands := v₁.operands } := by
    have hview : ({ v₁ with registers := rs } : View) = { v with registers := rs, operands := v₁.operands } := by
      rw [hsame]
    rw [hview, View.write?_with, hw]
    rfl
  exact ⟨e, _, he, (View.performAll_append hrun).trans (hrun'.trans hw'), hst'.write hw' (hclear' hdst hclear), rfl⟩

/-! ## Every valid picture stands for something -/

theorem exists_index_bound (es : List Entry) :
    ∃ n, ∀ e ∈ es, ∀ index, e.place = .slot index ∨ e.place = .arg index → index < n := by
  induction es with
  | nil => exact ⟨0, fun e he => by cases he⟩
  | cons e es ih =>
    obtain ⟨n, hn⟩ := ih
    have hhead : ∃ m, ∀ index, e.place = .slot index ∨ e.place = .arg index → index < m := by
      cases hp : e.place with
      | slot index => exact ⟨index + 1, fun j hj => by rcases hj with hj | hj <;> cases hj; omega⟩
      | arg index => exact ⟨index + 1, fun j hj => by rcases hj with hj | hj <;> cases hj; omega⟩
      | _ => exact ⟨0, fun j hj => by rcases hj with hj | hj <;> cases hj⟩
    obtain ⟨m, hm⟩ := hhead
    refine ⟨max m n, fun e' he' index hi => ?_⟩
    rcases List.mem_cons.mp he' with rfl | he'
    · have := hm index hi; omega
    · have := hn e' he' index hi; omega

theorem Valid.exists_stands (h : s.Valid) (m : Nat) : ∃ v vs, s.Stands v vs ∧ m < v.slots.size ∧ m < v.args.size := by
  obtain ⟨n, hn⟩ := exists_index_bound s.entries
  let v : View := { args := Array.replicate (n + m + 1) .undefined, slots := Array.replicate (n + m + 1) .undefined,
                    operands := List.replicate s.spilledCount .undefined }
  refine ⟨v, s.entries.map fun e => (e.place.value? v).getD .undefined, ⟨h, by simp [v], ?_⟩,
    by simp only [v, Array.size_replicate]; omega, by simp only [v, Array.size_replicate]; omega⟩
  rw [List.map_map]
  refine List.map_congr_left fun e he => ?_
  obtain ⟨k, hk⟩ := List.mem_iff_getElem?.mp he
  cases hp : e.place with
  | constant x => simp [Place.value?, hp]
  | register reg => simp [Place.value?, hp]
  | slot index =>
    have : index < n + m + 1 := Nat.lt_of_lt_of_le (hn e he index (.inl hp)) (by omega)
    simp [Place.value?, v, hp, this]
  | arg index =>
    have : index < n + m + 1 := Nat.lt_of_lt_of_le (hn e he index (.inr hp)) (by omega)
    simp [Place.value?, v, hp, this]
  | spilled index =>
    have hspilled : e.place.isSpilled = true := by rw [hp]; rfl
    have hplace := h.place hk hspilled
    rw [hp] at hplace
    cases hplace
    have := h.lowest hk hspilled
    simp [Place.value?, v, hp, this]

/-- What a new entry stands for can be at hand. -/
theorem Valid.exists_stands_value {e : Entry} (h : s.Valid) (hs : e.place.isSpilled = false) :
    ∃ v vs x, s.Stands v vs ∧ e.place.value? v = some x := by
  obtain ⟨n, hn⟩ := exists_index_bound [e]
  obtain ⟨v, vs, hst, hslots, hargs⟩ := h.exists_stands n
  refine ⟨v, vs, ?_⟩
  cases hp : e.place with
  | slot index => exact ⟨_, hst, Array.getElem?_eq_getElem (Nat.lt_trans (hn e (by simp) index (.inl hp)) hslots)⟩
  | arg index => exact ⟨_, hst, Array.getElem?_eq_getElem (Nat.lt_trans (hn e (by simp) index (.inr hp)) hargs)⟩
  | spilled index => rw [hp] at hs; cases hs
  | constant y => exact ⟨y, hst, rfl⟩
  | register reg => exact ⟨_, hst, rfl⟩

/-! ## How high an operation makes the stack -/

variable {r : List Move × VirtualStack}

theorem pushes_spill (p : Place) : p.spill.countP Move.isPush = if p.isSpilled then 0 else 1 := by
  cases p <;> rfl

theorem pushes_load (dst : Reg) (p : Place) : (p.load dst).countP Move.isPush = 0 := by
  cases p with
  | register src =>
    simp only [Place.load]
    split <;> rfl
  | _ => rfl

theorem pushes_store (dst : Address) (via : Reg) (p : Place) : (p.store dst via).countP Move.isPush = 0 := by
  cases p <;> rfl

theorem Valid.pushes_flush (h : s.Valid) (c : Nat) :
    s.spilledCount + (s.flush c).1.countP Move.isPush = max s.spilledCount (min c s.depth) := by
  induction c with
  | zero => simp [flush_zero]
  | succ c ih =>
    by_cases hc : c < s.depth
    · have he : s.entries[c]? = some (s.entries.get ⟨c, hc⟩) := List.getElem?_eq_getElem hc
      rw [flush_succ he, List.countP_append, pushes_spill]
      by_cases hs : (s.entries.get ⟨c, hc⟩).place.isSpilled = true
      · have := h.lowest he hs
        rw [if_pos hs]
        omega
      · have : ¬c < s.spilledCount := fun hlt => hs (isSpilled_of_lt hlt he)
        rw [if_neg hs]
        omega
    · rw [flush_of_depth_le (Nat.le_succ_of_le (Nat.le_of_not_lt hc)), ← flush_of_depth_le (Nat.le_of_not_lt hc), ih]
      omega

theorem Valid.flush (h : s.Valid) (c : Nat) :
    (s.flush c).2.Valid ∧ (s.flush c).2.spilledCount = s.spilledCount + (s.flush c).1.countP Move.isPush := by
  obtain ⟨v, vs, hst, _⟩ := h.exists_stands 0
  obtain ⟨_, _, _, hst', hcount⟩ := hst.flush c
  exact ⟨hst'.valid, by rw [hcount, h.pushes_flush]⟩

theorem Valid.pushes_push (h : s.Valid) (e : Entry) : s.spilledCount + (s.push e).1.countP Move.isPush ≤ s.depth := by
  have hle := s.spilledCount_le
  unfold push
  split
  · unfold evict
    split
    · rename_i index _
      have := h.pushes_flush (index + 1)
      simp only
      omega
    · exact hle
  · exact hle

theorem Valid.pushes_pushScratch (h : s.Valid) : s.spilledCount + s.pushScratch.1.countP Move.isPush ≤ s.depth + 1 := by
  have hle := s.spilledCount_le
  have := h.pushes_flush (s.depth - 0)
  simp only [pushScratch, flushBelow, List.countP_append, List.countP_singleton, Move.isPush, if_true]
  omega

theorem Valid.pushes_freeRegister (h : s.Valid) :
    s.spilledCount + s.freeRegister.2.1.countP Move.isPush ≤ max s.spilledCount (s.depth - 1) := by
  unfold freeRegister
  split
  · exact Nat.le_max_left _ _
  · have := h.pushes_flush (s.depth - 1)
    simp only [flushBelow]
    omega

theorem pushes_popInto {dst : Reg} (h : s.popInto dst = .ok r) : r.1.countP Move.isPush = 0 := by
  unfold popInto at h
  split at h
  · cases h
    exact pushes_load dst _
  · cases h

theorem pushes_drop {n : Nat} (h : s.drop n = .ok r) : r.1.countP Move.isPush = 0 := by
  unfold drop at h
  split at h
  · cases h
    simp only [Move.dropping]
    split <;> rfl
  · cases h

theorem Valid.pushes_popOne (h : s.Valid) (hr : s.popOne = .ok r) :
    s.spilledCount + r.1.countP Move.isPush ≤ max s.spilledCount (s.depth - 1) := by
  simp only [popOne, flushBelow] at hr
  split at hr
  · cases hr
  · cases hp : (s.flush (s.depth - 1)).2.popInto .r0 with
    | error b => rw [hp] at hr; cases hr
    | ok top =>
      rw [hp] at hr
      cases hr
      have := h.pushes_flush (s.depth - 1)
      rw [List.countP_append, pushes_popInto hp]
      omega

theorem Valid.pushes_clearSecond (h : s.Valid) :
    s.spilledCount + s.clearSecond.1.countP Move.isPush ≤ max s.spilledCount (s.depth - 1) := by
  have := h.pushes_flush (s.depth - 1)
  unfold clearSecond
  split
  · split
    · split
      · omega
      · exact Nat.le_max_left _ _
    · exact Nat.le_max_left _ _
  · exact Nat.le_max_left _ _

theorem Valid.pushes_popTwo (h : s.Valid) (hr : s.popTwo = .ok r) :
    s.spilledCount + r.1.countP Move.isPush ≤ max s.spilledCount (s.depth - 1) := by
  simp only [popTwo, flushBelow] at hr
  split at hr
  · cases hr
  · cases hp : (s.flush (s.depth - 2)).2.clearSecond.2.popInto .r1 with
    | error b => rw [hp] at hr; cases hr
    | ok top =>
      rw [hp] at hr
      simp only [bind, Except.bind] at hr
      cases hp' : top.2.popInto .r0 with
      | error b => rw [hp'] at hr; cases hr
      | ok second =>
        rw [hp'] at hr
        cases hr
        obtain ⟨hvalid, hcount⟩ := h.flush (s.depth - 2)
        have hfirst := h.pushes_flush (s.depth - 2)
        have hsecond := hvalid.pushes_clearSecond
        rw [depth_flush, hcount] at hsecond
        simp only [List.countP_append, pushes_popInto hp, pushes_popInto hp']
        omega

/-- Storing a value does not move the operand stack. -/
theorem height_store {dst : Address} {via : Reg} {p : Place} {m : Move} (hm : m ∈ p.store dst via) (height : Nat) :
    m.height height = some height := by
  cases p <;> simp only [Place.store, List.mem_cons, List.not_mem_nil, or_false] at hm
  case constant | register => subst hm; rfl
  all_goals rcases hm with rfl | rfl <;> rfl

end VirtualStack
end BaselineTier
