/-
  BaselineTier.Proofs.Shuffle — the code of literals, slots and stack shuffles.

  None of these routines fails or takes a site; their code is a list of moves. Each lemma
  says what action the code of a routine does and which types it leaves.
-/

import BaselineTier.Proofs.Elementwise
import BaselineTier.Proofs.Emulation

namespace BaselineTier

variable {σ : Type}

namespace Interpreter

theorem one_eq {act : Value → Action σ} {e : Evaluation} {a : Value} {rest : List Value} (h : e.operands = a :: rest) :
    one act e = act a { e with operands := rest } := by
  rw [one, h]

theorem two_eq {act : Value → Value → Action σ} {e : Evaluation} {a b : Value} {rest : List Value}
    (h : e.operands = b :: a :: rest) : two act e = act a b { e with operands := rest } := by
  rw [two, one_eq h]
  exact one_eq rfl

end Interpreter

/-! ## Names -/

/-- The atom that an index of the program names. -/
theorem Source.names_of {p : Program} {atoms : AtomTable} {s : Source} (h : ofProgram? p atoms = some s) {k : Nat}
    {text : String} (hk : p.atomText? k = some text) :
    ∃ atom, atoms.lookup text = some atom ∧ s.names[k]? = some atom := by
  obtain ⟨names, hnames, rfl⟩ := Option.map_eq_some_iff.mp h
  have hplace := Array.getElem?_of_mapM splits_option hnames k
  rw [show p.atoms[k]? = some text from hk, Option.map_some] at hplace
  obtain ⟨atom, hatom, hlookup⟩ := Option.map_eq_some_iff.mp hplace.symm
  exact ⟨atom, hlookup.symm, hatom⟩

namespace Draft

variable {job : Job (StubBody σ)} {d d' : Draft (StubBody σ)} {a b : Host σ → Interpreter.Action σ} {n : Nat}
  {ts : Types}

/-- Another action may be meant if it is the same on what the picture stands for. -/
theorem Lowers.congr (h : Lowers job a n ts d d') (hab : ∀ host v e w, Mirrors job d v e → a host e w = b host e w) :
    Lowers job b n ts d d' := by
  refine ⟨h.code, h.good, h.knowns, fun {f c v e host scripts lower argc w} hb => ?_⟩
  rw [← hab host v e w hb.mirrors]
  exact h.does hb

end Draft

namespace Lowering

open Draft Emit Interpreter

variable {job : Job (StubBody σ)} {i : Instruction} {d : Draft (StubBody σ)} {E : CompileError → Prop}

theorem nop_lowers (hg : d.Good) :
    Yields (nop job i) d E fun _ d' => Lowers job (fun _ => goOn) 0 d.stack.knowns d d' :=
  .of_ok rfl ⟨.refl d _, hg, rfl, fun {_ _ v e _ _ _ argc _} hb => ⟨argc, v, .refl _, e, rfl, rfl, hb.mirrors⟩⟩

/-- Values are dropped from the top. -/
theorem drop_lowers {n k : Nat} (hg : d.Good) (hroom : d.stack.depth < 2 ^ 30) (hn : d.stack.depth = n + k) :
    Yields (Emit.drop k) d E fun _ d' =>
      Lowers job (fun _ e => goOn { e with operands := e.operands.drop k }) 0 (d.stack.knowns.take n) d d' := by
  obtain ⟨d', ms, hd', hadds, hgood, _, hknowns, hrun⟩ := drop_ok hg hroom hn
  refine .of_ok hd' (.of_moves hadds hgood hknowns fun host v e w hmir => ?_)
  have hsplit : e.operands.reverse = (e.operands.drop k).reverse ++ (e.operands.take k).reverse := by
    rw [← List.reverse_append, List.take_append_drop]
  have hst := hmir.stands
  rw [hsplit] at hst
  obtain ⟨v', hperf, hst', hsame⟩ := hrun hst (by rw [List.length_reverse, List.length_take, hmir.length]; omega)
  exact ⟨_, v', rfl, hperf, rfl, hmir.same hst' (by rw [hsame]) (by rw [hsame]) rfl⟩

theorem pop_lowers {n : Nat} (hg : d.Good) (hroom : d.stack.depth < 2 ^ 30) (hn : d.stack.depth = n + 1) :
    Yields (pop job i) d E fun _ d' => Lowers job (fun _ => one fun _ => goOn) 0 (d.stack.knowns.take n) d d' := by
  refine (drop_lowers hg hroom hn).mono (fun _ he => he) fun _ d' h => h.congr fun host v e w hmir => ?_
  obtain ⟨a, rest, ho, _⟩ := hmir.top hn
  rw [one_eq ho, ho]
  rfl

theorem popN_lowers {n : Nat} {count : UInt16} (hcount : i.u16? = some count) (hg : d.Good)
    (hroom : d.stack.depth < 2 ^ 30) (hn : d.stack.depth = n + i.count) :
    Yields (popN job i) d E fun _ d' => Lowers job (fun _ e =>
      if i.count ≤ e.operands.length then goOn { e with operands := e.operands.drop i.count }
      else throw .stackUnderflow)
      0 (d.stack.knowns.take n) d d' := by
  have hc := count_of_u16 hcount
  rw [popN]
  refine .bind_ok (u16_ok hcount) ?_
  rw [hc] at hn ⊢
  refine (drop_lowers hg hroom hn).mono (fun _ he => he) fun _ d' h => h.congr fun host v e w hmir => ?_
  rw [if_pos (by rw [hmir.length]; omega)]

/-! ## Shuffles -/

theorem dup_lowers {n : Nat} (hg : d.Good) (hroom : d.stack.depth + 1 < 2 ^ 30) (hn : d.stack.depth = n + 1) :
    Yields (dup job i) d E fun _ d' => Lowers job (fun _ => one fun a e => push a (e.push a)) 0
      (d.stack.knowns.take n ++ [d.stack.knowns.getLast?.join, d.stack.knowns.getLast?.join]) d d' := by
  obtain ⟨top, hpeek, _, hlast⟩ := peek_ok hn
  obtain ⟨d₁, ms₁, hd₁, hadds₁, hgood₁, hset₁, hdepth₁, hknowns₁, hrun₁⟩ := popOne_ok hg (by omega) hn
  obtain ⟨d₂, hd₂, hadds₂, hstack₂, hgood₂⟩ := move_good hgood₁ (m := .copy .r0 .r1) fun _ => rfl
  obtain ⟨d₃, ms₃, hd₃, hadds₃, hgood₃, hdepth₃, hknowns₃, hrun₃⟩ :=
    pushReg_ok hgood₂ (by rw [hstack₂]; omega) .r1 top.known
  obtain ⟨d₄, ms₄, hd₄, hadds₄, hgood₄, _, hknowns₄, hrun₄⟩ :=
    pushReg_ok hgood₃ (by rw [hdepth₃, hstack₂]; omega) .r0 top.known
  refine .bind_ok hpeek (.bind_ok hd₁ (.bind_ok hd₂ (.bind_ok hd₃ (.of_ok hd₄ ?_))))
  have hadds := hadds₁.moves (hadds₂.moves (hadds₃.moves hadds₄))
  refine .of_moves hadds hgood₄ (by rw [hknowns₄, hknowns₃, hstack₂, hknowns₁, hlast]; simp) fun host v e w hmir => ?_
  obtain ⟨a, rest, ho, hst⟩ := hmir.top hn
  obtain ⟨v₁, hperf₁, hst₁, hsame₁⟩ := hrun₁ hst
  have hst₂ : d₂.stack.Stands (v₁.setReg .r1 a) rest.reverse := by
    rw [hstack₂]
    exact hst₁.setReg (hset₁.unclaimed .r1) a
  obtain ⟨v₃, hperf₃, hst₃, hsame₃⟩ := hrun₃ hst₂
  obtain ⟨v₄, hperf₄, hst₄, hsame₄⟩ := hrun₄ hst₃
  have hr₀ : v₁.registers.get .r0 = a := by rw [hsame₁]; rfl
  have hr₃ : v₃.registers.get .r0 = a := by rw [hsame₃, hsame₁]; rfl
  refine ⟨{ e with operands := a :: a :: rest }, v₄, by rw [one_eq ho]; rfl, ?_, rfl,
    hmir.same ?_ (by rw [hsame₄, hsame₃, hsame₁]; rfl) (by rw [hsame₄, hsame₃, hsame₁]; rfl) rfl⟩
  · have hcopy : v₁.perform (.copy .r0 .r1) = some (v₁.setReg .r1 a) := by rw [View.perform, hr₀]
    rw [View.performAll_append hperf₁, List.singleton_append, View.performAll, hcopy, Option.bind_some,
      View.performAll_append hperf₃, hperf₄]
  · rw [hr₃] at hst₄
    simpa [View.setReg] using hst₄

theorem swap_lowers {n : Nat} (hg : d.Good) (hroom : d.stack.depth < 2 ^ 30) (hn : d.stack.depth = n + 2) :
    Yields (swap job i) d E fun _ d' => Lowers job (fun _ => two fun a b e => push a (e.push b)) 0
      (d.stack.knowns.take n ++ [none, none]) d d' := by
  obtain ⟨d₁, ms₁, hd₁, hadds₁, hgood₁, _, hdepth₁, hknowns₁, hrun₁⟩ := popTwo_ok hg hroom hn
  obtain ⟨d₂, ms₂, hd₂, hadds₂, hgood₂, hdepth₂, hknowns₂, hrun₂⟩ := pushReg_ok hgood₁ (by omega) .r1 none
  obtain ⟨d₃, ms₃, hd₃, hadds₃, hgood₃, _, hknowns₃, hrun₃⟩ := pushReg_ok hgood₂ (by omega) .r0 none
  refine .bind_ok hd₁ (.bind_ok hd₂ (.of_ok hd₃ ?_))
  refine .of_moves (hadds₁.moves (hadds₂.moves hadds₃)) hgood₃ (by rw [hknowns₃, hknowns₂, hknowns₁]; simp)
    fun host v e w hmir => ?_
  obtain ⟨b, a, rest, ho, hst⟩ := hmir.top_two hn
  obtain ⟨v₁, hperf₁, hst₁, hsame₁, ha, hb⟩ := hrun₁ hst
  obtain ⟨v₂, hperf₂, hst₂, hsame₂⟩ := hrun₂ hst₁
  obtain ⟨v₃, hperf₃, hst₃, hsame₃⟩ := hrun₃ hst₂
  have hr₁ : v₁.registers.get .r1 = b := hb
  have hr₀ : v₂.registers.get .r0 = a := by rw [hsame₂]; exact ha
  refine ⟨{ e with operands := a :: b :: rest }, v₃, by rw [two_eq ho]; rfl, ?_, rfl,
    hmir.same ?_ (by rw [hsame₃, hsame₂, hsame₁]) (by rw [hsame₃, hsame₂, hsame₁]) rfl⟩
  · rw [View.performAll_append hperf₁, View.performAll_append hperf₂, hperf₃]
  · rw [hr₁, hr₀] at hst₃
    simpa using hst₃

/-- The top two values, which are written out, are read again. -/
theorem dup2_lowers {n : Nat} (hg : d.Good) (hroom : d.stack.depth + 1 < 2 ^ 30) (hn : d.stack.depth = n + 2) :
    Yields (dup2 job i) d E fun _ d' => Lowers job (fun _ => two fun a b e => push b (((e.push a).push b).push a)) 0
      (d.stack.knowns ++ [none, none]) d d' := by
  obtain ⟨d₁, ms₁, hd₁, hadds₁, hgood₁, hset₁, hdepth₁, hknowns₁, hrun₁⟩ := flushAll_ok hg (by omega)
  have hlow : d₁.stack.depth - 2 = n := by omega
  have hhigh : d₁.stack.depth - 1 = n + 1 := by omega
  have htwo : 2 ≤ d₁.stack.depth := by omega
  obtain ⟨d₂, hd₂, hadds₂, hstack₂, hgood₂⟩ := move_good hgood₁ (m := .load (.stack n) .r0) fun _ => rfl
  obtain ⟨d₃, hd₃, hadds₃, hstack₃, hgood₃⟩ := move_good hgood₂ (m := .load (.stack (n + 1)) .r1) fun _ => rfl
  obtain ⟨d₄, ms₄, hd₄, hadds₄, hgood₄, hdepth₄, hknowns₄, hrun₄⟩ :=
    pushReg_ok hgood₃ (by rw [hstack₃, hstack₂]; omega) .r0 none
  obtain ⟨d₅, ms₅, hd₅, hadds₅, hgood₅, _, hknowns₅, hrun₅⟩ :=
    pushReg_ok hgood₄ (by rw [hdepth₄, hstack₃, hstack₂]; omega) .r1 none
  rw [← hlow] at hd₂
  rw [← hhigh] at hd₃
  refine .bind_ok hd₁ (.bind_ok (depth_eq d₁) (.bind_ok (assume_ok (decide_eq_true htwo) _ d₁) ?_))
  refine .bind_ok hd₂ (.bind_ok hd₃ (.bind_ok hd₄ (.of_ok hd₅ ?_)))
  have hadds := hadds₁.moves (hadds₂.moves (hadds₃.moves (hadds₄.moves hadds₅)))
  refine .of_moves hadds hgood₅ (by rw [hknowns₅, hknowns₄, hstack₃, hstack₂, hknowns₁]; simp) fun host v e w hmir => ?_
  obtain ⟨b, a, rest, ho, hst⟩ := hmir.top_two hn
  have hrest : rest.reverse.length = n := by
    have := hst.length
    simp only [List.length_append, List.length_cons, List.length_nil] at this
    omega
  obtain ⟨hperf₁, hst₁⟩ := hrun₁ hst
  have hst₃ : d₃.stack.Stands (({ v with operands := rest.reverse ++ [a, b] }.setReg .r0 a).setReg .r1 b)
      (rest.reverse ++ [a, b]) := by
    rw [hstack₃, hstack₂]
    exact (hst₁.setReg (hset₁.unclaimed .r0) a).setReg (hset₁.unclaimed .r1) b
  obtain ⟨v₄, hperf₄, hst₄, hsame₄⟩ := hrun₄ hst₃
  obtain ⟨v₅, hperf₅, hst₅, hsame₅⟩ := hrun₅ hst₄
  have hr₁ : v₄.registers.get .r1 = b := by rw [hsame₄]; rfl
  refine ⟨{ e with operands := b :: a :: b :: a :: rest }, v₅, by rw [two_eq ho]; rfl, ?_, rfl,
    hmir.same ?_ (by rw [hsame₅, hsame₄]; rfl) (by rw [hsame₅, hsame₄]; rfl) rfl⟩
  · have hread₀ : { v with operands := rest.reverse ++ [a, b] }.perform (.load (.stack n) .r0) =
        some ({ v with operands := rest.reverse ++ [a, b] }.setReg .r0 a) := by
      simp [View.perform, View.read?, ← hrest]
    have hread₁ : ({ v with operands := rest.reverse ++ [a, b] }.setReg .r0 a).perform (.load (.stack (n + 1)) .r1) =
        some (({ v with operands := rest.reverse ++ [a, b] }.setReg .r0 a).setReg .r1 b) := by
      simp [View.perform, View.read?, ← hrest, View.setReg]
    rw [View.performAll_append hperf₁, List.singleton_append, View.performAll, hread₀, Option.bind_some,
      List.singleton_append, View.performAll, hread₁, Option.bind_some, View.performAll_append hperf₄, hperf₅]
  · rw [hr₁] at hst₅
    simpa [View.setReg, Registers.set, Registers.get] using hst₅

/-! ## Values from elsewhere -/

/-- A value is pushed without a move. -/
theorem push_lowers {p : Place} {known : Option ValueType} {a : Host σ → Action σ} (hg : d.Good)
    (hroom : d.stack.depth < 2 ^ 30) (hp : p.isSpilled = false)
    (ha : ∀ host v e w, Mirrors job d v e → ∃ x, p.value? v = some x ∧ a host e w = .ok (.goOn (e.push x)) w) :
    Yields (Emit.push ⟨p, known⟩) d E fun _ d' => Lowers job a 0 (d.stack.knowns ++ [known]) d d' := by
  obtain ⟨d', ms, hd', hadds, hgood, _, hknowns, hrun⟩ := push_ok hg hroom (e := ⟨p, known⟩) hp
  refine .of_ok hd' (.of_moves hadds hgood hknowns fun host v e w hmir => ?_)
  obtain ⟨x, hx, hact⟩ := ha host v e w hmir
  obtain ⟨v', hperf, hst, hsame⟩ := hrun hmir.stands hx
  exact ⟨e.push x, v', hact, hperf, rfl, hmir.same (by simpa [Evaluation.push] using hst) (by rw [hsame])
    (by rw [hsame]) rfl⟩

theorem literal_lowers {value : Value} (hvalue : i.literal? = some value) (hg : d.Good)
    (hroom : d.stack.depth < 2 ^ 30) :
    Yields (literal job i) d E fun _ d' => Lowers job (fun _ e => match i.literal? with
      | some v => push v e
      | none => throw (.pcOutOfRange i.offset)) 0 (d.stack.knowns ++ [some value.type]) d d' := by
  simp only [literal, hvalue]
  exact push_lowers hg hroom rfl fun host v e w _ => ⟨value, rfl, rfl⟩

/-- The atom that the operand names is the one that the interpreter finds. -/
theorem atom_name {source : Source} {index : UInt32} (hindex : i.u32? = some index)
    (hlt : index.toNat < job.program.atoms.size) (hsource : Source.ofProgram? job.program job.atoms = some source) :
    ∃ atom, (∀ d : Draft (StubBody σ), Emit.atom job index d = .ok atom d) ∧
      ∀ {d v e}, Mirrors job d v e → (name i e : Ask σ Atom) = pure atom := by
  have htext : job.program.atomText? index.toNat = some job.program.atoms[index.toNat] := Array.getElem?_eq_getElem hlt
  obtain ⟨atom, hatom, hnames⟩ := Source.names_of hsource htext
  refine ⟨atom, fun d => atom_ok htext hatom, fun {d v e} hmir => ?_⟩
  have hs : e.source = source := Option.some.inj (hmir.source.symm.trans hsource)
  rw [name, hindex, Option.bind_some, hs, hnames]

theorem string_lowers {source : Source} {index : UInt32} (hindex : i.u32? = some index)
    (hlt : index.toNat < job.program.atoms.size) (hsource : Source.ofProgram? job.program job.atoms = some source)
    (hg : d.Good) (hroom : d.stack.depth < 2 ^ 30) :
    Yields (string job i) d E fun _ d' =>
      Lowers job (fun _ e => do push (.string (← name i e)) e) 0 (d.stack.knowns ++ [some .string]) d d' := by
  obtain ⟨atom, hatom, hname⟩ := atom_name hindex hlt hsource
  refine .bind_ok (u32_ok hindex) (.bind_ok (hatom d) ?_)
  rw [Entry.constant, Value.type_string]
  refine push_lowers hg hroom rfl fun host v e w hmir => ⟨.string atom, rfl, ?_⟩
  rw [hname hmir]
  rfl

theorem getArg_lowers {index : UInt16} (hindex : i.u16? = some index) (hlt : i.count < job.program.args) (hg : d.Good)
    (hroom : d.stack.depth < 2 ^ 30) :
    Yields (getArg job i) d E fun _ d' => Lowers job (fun _ => Interpreter.getArg i.count) 0
      (d.stack.knowns ++ [none]) d d' := by
  have hc := count_of_u16 hindex
  refine .bind_ok (u16_ok hindex) ?_
  rw [← hc, pushArg_eq hlt]
  refine push_lowers hg hroom rfl fun host v e w hmir => ?_
  have hsize : i.count < e.args.size := Nat.lt_of_lt_of_le hlt hmir.argCount
  have hget : e.args[i.count]? = some e.args[i.count] := Array.getElem?_eq_getElem hsize
  refine ⟨_, (congrArg (·[i.count]?) hmir.args).trans hget, ?_⟩
  rw [Interpreter.getArg, hget]
  rfl

/-- An index past the slots reads a value that is written out. -/
theorem getLocal_lowers {index : UInt16} (hindex : i.u16? = some index)
    (hlt : i.count < job.program.slots + d.stack.depth) (hg : d.Good) (hroom : d.stack.depth < 2 ^ 30) :
    Yields (getLocal job i) d E fun _ d' => Lowers job (fun _ => Interpreter.getLocal i.count) 0
      (d.stack.knowns ++ [none]) d d' := by
  have hc := count_of_u16 hindex
  refine .bind_ok (u16_ok hindex) ?_
  simp only [← hc]
  split
  · rename_i hslot
    rw [pushSlot_eq hslot]
    refine push_lowers hg hroom rfl fun host v e w hmir => ?_
    have hsize : i.count < e.slots.size := by rw [hmir.slotCount]; exact hslot
    have hget : e.slots[i.count]? = some e.slots[i.count] := Array.getElem?_eq_getElem hsize
    refine ⟨_, (congrArg (·[i.count]?) hmir.slots).trans hget, ?_⟩
    rw [Interpreter.getLocal, Evaluation.local?, if_pos hsize, hget]
    rfl
  · rename_i hslot
    obtain ⟨d₁, ms₁, hd₁, hadds₁, hgood₁, hset₁, hdepth₁, hknowns₁, hrun₁⟩ := flushAll_ok hg hroom
    obtain ⟨d₂, hd₂, hadds₂, hstack₂, hgood₂⟩ := move_good hgood₁ (m := .load (.slot i.count) .r0) fun _ => rfl
    obtain ⟨d₃, ms₃, hd₃, hadds₃, hgood₃, _, hknowns₃, hrun₃⟩ := pushReg_ok hgood₂ (by rw [hstack₂]; omega) .r0 none
    refine .bind_ok hd₁ (.bind_ok hd₂ (.of_ok hd₃ ?_))
    refine .of_moves (hadds₁.moves (hadds₂.moves hadds₃)) hgood₃ (by rw [hknowns₃, hstack₂, hknowns₁])
      fun host v e w hmir => ?_
    have hsize : ¬i.count < e.slots.size := by rw [hmir.slotCount]; exact hslot
    have hlen : i.count - e.slots.size < e.operands.reverse.length := by
      rw [List.length_reverse, hmir.length, hmir.slotCount]
      omega
    obtain ⟨x, hx⟩ : ∃ x, e.operands.reverse[i.count - e.slots.size]? = some x := ⟨_, List.getElem?_eq_getElem hlen⟩
    obtain ⟨hperf₁, hst₁⟩ := hrun₁ hmir.stands
    have hst₂ : d₂.stack.Stands ({ v with operands := e.operands.reverse }.setReg .r0 x) e.operands.reverse := by
      rw [hstack₂]
      exact hst₁.setReg (hset₁.unclaimed .r0) x
    obtain ⟨v₃, hperf₃, hst₃, hsame₃⟩ := hrun₃ hst₂
    refine ⟨e.push x, v₃, ?_, ?_, rfl, hmir.same (by simpa [Evaluation.push] using hst₃) (by rw [hsame₃]; rfl)
      (by rw [hsame₃]; rfl) rfl⟩
    · rw [Interpreter.getLocal, Evaluation.local?, if_neg hsize, hx]
      rfl
    · have hread : { v with operands := e.operands.reverse }.perform (.load (.slot i.count) .r0) =
          some ({ v with operands := e.operands.reverse }.setReg .r0 x) := by
        rw [View.perform, View.read?, Array.getElem?_append_right (by rw [hmir.slots]; omega), hmir.slots]
        rw [List.getElem?_toArray, hx]
        rfl
      rw [View.performAll_append hperf₁, List.singleton_append, View.performAll, hread, Option.bind_some, hperf₃]

/-! ## Stores -/

/-- The top value is written to a place in memory, after the entries that live there are written out. -/
theorem store_lowers {n : Nat} {place : Place} {dst : Address} {a : Host σ → Action σ}
    (hplace : place.address? = some dst) (hdst : ∀ index, dst ≠ .stack index) (hg : d.Good)
    (hroom : d.stack.depth < 2 ^ 30) (hn : d.stack.depth = n + 1)
    (ha : ∀ host v e w x rest, Mirrors job d v e → e.operands = x :: rest → ∃ v₁ e', v.write? x dst = some v₁ ∧
      a host e w = .ok (.goOn e') w ∧ e' = { e with slots := v₁.slots, args := v₁.args } ∧
      e'.slots.size = e.slots.size ∧ e'.args.size = e.args.size) :
    Yields (do flushAliases place; storeTop dst) d E fun _ d' => Lowers job a 0 d.stack.knowns d d' := by
  obtain ⟨d₁, ms₁, hd₁, hadds₁, hgood₁, hdepth₁, hknowns₁, hclear, hrun₁⟩ := flushAliases_ok hg hroom hn hplace hdst
  obtain ⟨d₂, ms₂, hd₂, hadds₂, hgood₂, _, hknowns₂, hrun₂⟩ :=
    storeTop_ok hgood₁ (by omega) (by rw [hdepth₁, hn]) hdst hclear
  refine .bind_ok hd₁ (.of_ok hd₂ ?_)
  refine .of_moves (hadds₁.moves hadds₂) hgood₂ (by rw [hknowns₂, hknowns₁]) fun host v e w hmir => ?_
  obtain ⟨x, rest, ho, hst⟩ := hmir.top hn
  obtain ⟨v₁, e', hw, hact, he', hslots, hargs⟩ := ha host v e w x rest hmir ho
  obtain ⟨v₂, hperf₁, hst₁, hsame₁⟩ := hrun₁ hst
  have hw' : v₂.write? x dst = some { v₁ with operands := v₂.operands, registers := v.registers } := by
    have hview : v₂ = { v with operands := v₂.operands, registers := v.registers } := hsame₁
    rw [hview, View.write?_with, hw]
    rfl
  obtain ⟨v₃, hperf₂, hst₂, hsame₂⟩ := hrun₂ hst₁ hw'
  refine ⟨e', v₃, hact, (View.performAll_append hperf₁).trans hperf₂, by rw [he'], ?_⟩
  refine ⟨?_, by rw [hsame₂, he'], by rw [hsame₂, he'], by rw [he']; exact hmir.source,
    by rw [hslots]; exact hmir.slotCount, by rw [hargs]; exact hmir.argCount⟩
  rw [he']
  simpa [ho] using hst₂

theorem setLocal_lowers {n : Nat} {index : UInt16} (hindex : i.u16? = some index) (hlt : i.count < job.program.slots)
    (hg : d.Good) (hroom : d.stack.depth < 2 ^ 30) (hn : d.stack.depth = n + 1) :
    Yields (setLocal job i) d E fun _ d' => Lowers job (fun _ => Interpreter.setLocal i.count) 0
      d.stack.knowns d d' := by
  have hc := count_of_u16 hindex
  refine .bind_ok (u16_ok hindex) ?_
  rw [← hc]
  refine store_lowers rfl (fun _ h => by cases h) hg hroom hn fun host v e w x rest hmir ho => ?_
  have hsize : i.count < e.slots.size := by rw [hmir.slotCount]; exact hlt
  refine ⟨{ v with slots := v.slots.setIfInBounds i.count x }, { e with slots := e.slots.setIfInBounds i.count x },
    if_pos (by rw [hmir.slots]; exact hsize), ?_, by rw [hmir.slots, hmir.args], by simp, rfl⟩
  rw [Interpreter.setLocal, one_eq ho, if_pos hsize]
  simp only [Interpreter.push, Evaluation.push, ← ho]
  rfl

theorem setArg_lowers {n : Nat} {index : UInt16} (hindex : i.u16? = some index) (hlt : i.count < job.program.args)
    (hg : d.Good) (hroom : d.stack.depth < 2 ^ 30) (hn : d.stack.depth = n + 1) :
    Yields (setArg job i) d E fun _ d' => Lowers job (fun _ => Interpreter.setArg i.count) 0 d.stack.knowns d d' := by
  have hc := count_of_u16 hindex
  refine .bind_ok (u16_ok hindex) ?_
  rw [← hc]
  refine store_lowers rfl (fun _ h => by cases h) hg hroom hn fun host v e w x rest hmir ho => ?_
  have hsize : i.count < e.args.size := Nat.lt_of_lt_of_le hlt hmir.argCount
  refine ⟨{ v with args := v.args.setIfInBounds i.count x }, { e with args := e.args.setIfInBounds i.count x },
    if_pos (by rw [hmir.args]; exact hsize), ?_, by rw [hmir.slots, hmir.args], rfl, by simp⟩
  rw [Interpreter.setArg, one_eq ho, if_pos hsize]
  simp only [Interpreter.push, Evaluation.push, ← ho]
  rfl

end Lowering
end BaselineTier
