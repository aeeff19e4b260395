/-
  BaselineTier.Proofs.Comparison — comparing the other way round.

  Order is decided by one three-way comparison, of texts or of numbers (`cmp?`), and each of
  the four order operators holds of some of its outcomes (`ordered_eq`). With the operands
  exchanged the outcome is turned round (`cmp?_swap`), and NaN has none. Both equalities are
  symmetric case by case, and values that are strictly equal have types that loose equality
  compares strictly (`looseEquals_of_strictEquals`).

  Main statement: the comparison operators agree with one another when their operands are
  exchanged and when one is stronger than another (`comparisons_are_coherent`).
-/

import BaselineTier.Semantics.Operators
import Mathlib

namespace BaselineTier

/-! ## Outcomes -/

def Opcode.holdsOf : Opcode → Ordering → Bool
  | .lt => Ordering.isLT
  | .le => Ordering.isLE
  | .gt => Ordering.isGT
  | _ => Ordering.isGE

theorem Opcode.holdsOf_compare {α : Type} [LinearOrder α] (op : Opcode) (x y : α) :
    op.holdsOf (compare x y) =
      match op with
      | .lt => decide (x < y)
      | .le => decide (x ≤ y)
      | .gt => decide (y < x)
      | _ => decide (y ≤ x) := by
  obtain h | rfl | h := lt_trichotomy x y
  · rw [compare_lt_iff_lt.mpr h]
    simp only [h, h.le, h.not_ge, h.not_gt, decide_true, decide_false]
    cases op <;> rfl
  · rw [compare_eq_iff_eq.mpr rfl]
    simp only [lt_irrefl, le_refl, decide_true, decide_false]
    cases op <;> rfl
  · rw [compare_gt_iff_gt.mpr h]
    simp only [h, h.le, h.not_ge, h.not_gt, decide_true, decide_false]
    cases op <;> rfl

namespace Double

theorem eq_swap (x y : Double) : x.eq y = y.eq x := by
  rw [eq, eq, Bool.and_comm !x.isNaN, Bool.beq_comm]

def cmp? (x y : Double) : Option Ordering := if x.isNaN || y.isNaN then none else some (compare x.rank y.rank)

theorem cmp?_swap (x y : Double) : y.cmp? x = (x.cmp? y).map Ordering.swap := by
  unfold cmp?
  rw [Bool.or_comm]
  split
  · rfl
  · rw [Option.map_some, Std.OrientedOrd.eq_swap (a := y.rank)]

theorem any_cmp? (op : Opcode) (x y : Double) :
    (x.cmp? y).any op.holdsOf =
      match op with
      | .lt => x.lt y
      | .le => x.le y
      | .gt => y.lt x
      | _ => y.le x := by
  unfold cmp? lt le
  cases x.isNaN <;> cases y.isNaN
  case false.false => exact (Opcode.holdsOf_compare op x.rank y.rank).trans (by cases op <;> rfl)
  all_goals cases op <;> rfl

end Double

namespace Value

variable {t : AtomTable} {a b : Value}

/-! ## Order -/

/-- How two values compare: as texts if both are strings, else as numbers. -/
def cmp? (t : AtomTable) (a b : Value) : Option Ordering :=
  if a.isString ∧ b.isString then some (Ord.compare (a.spelled t) (b.spelled t)) else (a.toNumber t).cmp? (b.toNumber t)

theorem cmp?_swap (t : AtomTable) (a b : Value) : cmp? t b a = (cmp? t a b).map Ordering.swap := by
  unfold cmp?
  by_cases h : a.isString ∧ b.isString
  · rw [if_pos h, if_pos h.symm, Option.map_some, Std.OrientedOrd.eq_swap (a := b.spelled t)]
  · rw [if_neg h, if_neg (mt And.symm h)]
    exact Double.cmp?_swap _ _

/-- Each order operator holds of some outcomes of the comparison, and does not hold where there is no outcome. -/
theorem ordered_eq (t : AtomTable) (op : Opcode) (a b : Value) : ordered t op a b = (cmp? t a b).any op.holdsOf := by
  unfold ordered cmp?
  by_cases h : a.isString ∧ b.isString
  · rw [if_pos h, if_pos h, Option.any_some]
    have htexts := Opcode.holdsOf_compare op (a.spelled t) (b.spelled t)
    simp only [← not_lt, decide_not] at htexts
    exact htexts.symm
  · rw [if_neg h, if_neg h]
    exact (Double.any_cmp? op _ _).symm

/-! ## Equality -/

theorem strictEquals_comm (a b : Value) : strictEquals a b = strictEquals b a := by
  unfold strictEquals
  cases a.asNumber <;> cases b.asNumber
  case some.some x y => exact Double.eq_swap x y
  case none.none => exact Bool.beq_comm
  all_goals rfl

theorem looseEquals_comm (t : AtomTable) (a b : Value) : looseEquals t a b = looseEquals t b a :=
  -- Every test looks at both types and at the operands in either order.
  if_congr (or_congr eq_comm and_comm) (strictEquals_comm a b)
    (if_congr or_comm (Bool.and_comm ..) (if_congr or_comm rfl (Double.eq_swap ..)))

theorem isSome_asNumber (v : Value) : v.asNumber.isSome = v.type.isNumber := by
  unfold asNumber asInt32 asDouble isInt32 isDouble type
  by_cases hdouble : v.top < 0xFFF8
  · have hint : (v.top == 0xFFF9) = false := beq_eq_false_iff_ne.mpr (by omega)
    rw [hint, if_pos hdouble, decide_eq_true hdouble]
    rfl
  · rw [if_neg hdouble, decide_eq_false hdouble]
    by_cases hint : v.top = 0xFFF9
    · rw [hint]
      rfl
    · rw [beq_eq_false_iff_ne.mpr hint, if_neg hint]
      show false = _
      repeat' split
      all_goals rfl

/-- Strictly equal values are both numbers or of the same type, and those are compared strictly. -/
theorem looseEquals_of_strictEquals (h : strictEquals a b = true) : looseEquals t a b = true := by
  have htypes : a.type = b.type ∨ (a.type.isNumber ∧ b.type.isNumber) := by
    rw [← isSome_asNumber, ← isSome_asNumber]
    unfold strictEquals at h
    split at h
    · rename_i ha hb
      exact .inr ⟨by rw [ha]; rfl, by rw [hb]; rfl⟩
    · exact .inl (by rw [eq_of_beq h])
    · cases h
  rw [looseEquals, if_pos htypes]
  exact h

/-! ## All operators -/

theorem compare_equality (t : AtomTable) (a b : Value) {op : Opcode} (h : op ∈ [Opcode.eq, .ne, .strictEq, .strictNe]) :
    compare t op a b = compare t op b a := by
  simp only [List.mem_cons, List.not_mem_nil, or_false] at h
  obtain rfl | rfl | rfl | rfl := h
  · exact looseEquals_comm t a b
  · exact congrArg not (looseEquals_comm t a b)
  · exact strictEquals_comm a b
  · exact congrArg not (strictEquals_comm a b)

theorem compare_order (t : AtomTable) (a b : Value) {op : Opcode} (h : op ∈ [Opcode.lt, .le, .gt, .ge]) :
    compare t op a b = (cmp? t a b).any op.holdsOf := by
  rw [← ordered_eq]
  simp only [List.mem_cons, List.not_mem_nil, or_false] at h
  obtain rfl | rfl | rfl | rfl := h <;> rfl

/-- With the operands exchanged, an order operator becomes the one that holds of the outcomes turned round. -/
theorem compare_mirror (t : AtomTable) (a b : Value) {op op' : Opcode} (h : op ∈ [Opcode.lt, .le, .gt, .ge])
    (h' : op' ∈ [Opcode.lt, .le, .gt, .ge]) (hswap : ∀ o : Ordering, op.holdsOf o = op'.holdsOf o.swap) :
    compare t op a b = compare t op' b a := by
  rw [compare_order t a b h, compare_order t b a h', cmp?_swap t a b]
  cases cmp? t a b with
  | none => rfl
  | some o => exact hswap o

theorem compare_less (h : compare t .lt a b = true) : compare t .le a b = true ∧ compare t .gt a b = false := by
  rw [compare_order t a b (by decide)] at h ⊢
  rw [compare_order t a b (by decide)]
  cases hcmp : cmp? t a b with
  | none => rw [hcmp] at h; cases h
  | some o =>
    rw [hcmp] at h
    cases o with
    | lt => exact ⟨rfl, rfl⟩
    | eq => cases h
    | gt => cases h

/-- The equalities do not mind which operand comes first, and the orders mirror each other. What is strictly equal is
    equal, and what is less is less or equal and not greater. All four orders are read off one three-way comparison. -/
theorem comparisons_are_coherent (t : AtomTable) (a b : Value) :
    (∀ op ∈ [Opcode.eq, .ne, .strictEq, .strictNe], compare t op a b = compare t op b a) ∧
      compare t .lt a b = compare t .gt b a ∧ compare t .le a b = compare t .ge b a ∧
      (compare t .strictEq a b = true → compare t .eq a b = true) ∧
      (compare t .lt a b = true → compare t .le a b = true ∧ compare t .gt a b = false) ∧
      ∀ op ∈ [Opcode.lt, .le, .gt, .ge], compare t op a b = (cmp? t a b).any op.holdsOf := by
  refine ⟨fun op => compare_equality t a b, ?_, ?_, looseEquals_of_strictEquals, compare_less,
    fun op => compare_order t a b⟩
  · exact compare_mirror t a b (by decide) (by decide) fun o => by cases o <;> rfl
  · exact compare_mirror t a b (by decide) (by decide) fun o => by cases o <;> rfl

/-- False is less than the small integer 1, which is greater than false; null and undefined are equal, but not
    strictly. -/
theorem comparisons_are_coherent_mixed :
    compare .empty .lt (.bool false) (.int32 1) = true ∧ compare .empty .le (.bool false) (.int32 1) = true ∧
      compare .empty .gt (.bool false) (.int32 1) = false ∧ compare .empty .gt (.int32 1) (.bool false) = true ∧
      compare .empty .eq .null .undefined = compare .empty .eq .undefined .null ∧
      compare .empty .eq .null .undefined = true ∧ compare .empty .strictEq .null .undefined = false := by
  obtain ⟨_, hmirror, _, _, hless, _⟩ := comparisons_are_coherent .empty (.bool false) (.int32 1)
  have hlt : compare .empty .lt (.bool false) (.int32 1) = true := by decide
  exact ⟨hlt, (hless hlt).1, (hless hlt).2, hmirror.symm.trans hlt,
    (comparisons_are_coherent .empty .null .undefined).1 .eq (by decide), by decide, by decide⟩

end Value
end BaselineTier
