/-
  BaselineTier.Proofs.Elementwise — what is made of an array element by element.

  A function that may fail is applied to every element. That succeeds exactly if it does on
  each, and the results are then in the places of what they were made from
  (`Array.mapM_eq_pure_iff`, `Array.exists_mapM`). Nothing more is asked of failing than
  that two steps in a row succeed only if both do (`Splits`).
-/

namespace BaselineTier

variable {m : Type → Type} [Monad m] {α γ : Type} {f : α → m γ}

/-- What succeeds has one result, and two steps in a row succeed only if both do. -/
structure Splits (m : Type → Type) [Monad m] : Prop where
  inj : ∀ {α : Type} {a b : α}, (pure a : m α) = pure b → a = b
  bind : ∀ {α γ : Type} {x : m α} {k : α → m γ} {c : γ}, x >>= k = pure c → ∃ a, x = pure a ∧ k a = pure c

theorem splits_option : Splits Option where
  inj := Option.some.inj
  bind := Option.bind_eq_some_iff.mp

theorem splits_except (ε : Type) : Splits (Except ε) where
  inj := Except.ok.inj
  bind {α γ x k c} h := by
    cases x with
    | error e => cases h
    | ok a => exact ⟨a, rfl, h⟩

theorem List.mapM_eq_pure_iff [LawfulMonad m] (hm : Splits m) {xs : List α} {ys : List γ} :
    xs.mapM f = pure ys ↔ xs.map f = ys.map pure := by
  induction xs generalizing ys with
  | nil =>
    rw [List.mapM_nil, List.map_nil, eq_comm, List.nil_eq, List.map_eq_nil_iff]
    exact ⟨hm.inj, fun h => h ▸ rfl⟩
  | cons x xs ih =>
    rw [List.mapM_cons, List.map_cons]
    constructor
    · intro h
      obtain ⟨y, hy, h⟩ := hm.bind h
      obtain ⟨ys', hys, h⟩ := hm.bind h
      rw [← hm.inj h, List.map_cons, hy, ih.mp hys]
    · intro h
      obtain ⟨y, ys', rfl, hy, hys⟩ := List.map_eq_cons_iff.mp h.symm
      rw [← hy, ih.mpr hys.symm, pure_bind, pure_bind]

namespace Array

variable {xs : Array α}

theorem mapM_eq_pure_iff [LawfulMonad m] (hm : Splits m) {ys : Array γ} :
    xs.mapM f = pure ys ↔ xs.map f = ys.map pure := by
  rw [Array.mapM_eq_mapM_toList, ← Array.toList_inj, Array.toList_map, Array.toList_map, ← List.mapM_eq_pure_iff hm]
  constructor
  · intro h
    rw [map_eq_pure_bind] at h
    obtain ⟨list, hlist, h⟩ := hm.bind h
    rw [hlist, ← hm.inj h]
  · intro h
    rw [h, map_pure]

theorem exists_mapM [LawfulMonad m] (hm : Splits m) (h : ∀ x ∈ xs, ∃ y, f x = pure y) : ∃ ys, xs.mapM f = pure ys := by
  have hlist (list : List α) (h : ∀ x ∈ list, ∃ y, f x = pure y) : ∃ ys : List γ, list.map f = ys.map pure := by
    induction list with
    | nil => exact ⟨[], rfl⟩
    | cons x list ih =>
      obtain ⟨y, hy⟩ := h x List.mem_cons_self
      obtain ⟨ys, hys⟩ := ih fun x hx => h x (List.mem_cons_of_mem _ hx)
      exact ⟨y :: ys, by rw [List.map_cons, List.map_cons, hy, hys]⟩
  obtain ⟨ys, hys⟩ := hlist xs.toList fun x hx => h x (Array.mem_toList_iff.mp hx)
  refine ⟨ys.toArray, (mapM_eq_pure_iff hm).mpr ?_⟩
  rw [← Array.toList_inj, Array.toList_map, hys, Array.toList_map]

/-- A result comes from the element in the same place, and every element has one. -/
theorem getElem?_of_mapM [LawfulMonad m] (hm : Splits m) {ys : Array γ} (h : xs.mapM f = pure ys) (k : Nat) :
    xs[k]?.map f = ys[k]?.map pure := by
  rw [← Array.getElem?_map, ← Array.getElem?_map, (mapM_eq_pure_iff hm).mp h]

end Array
end BaselineTier
