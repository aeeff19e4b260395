/-
  BaselineTier.Proofs.Assembly — what is put together step by step reads back as its steps.

  A forward jump that waits for its target is written with distance 0, so at every moment the
  bytes of a builder spell instructions of which the waiting ones jump to themselves
  (`Builder.Holds`). A step that writes adds one instruction behind them (`Builder.step_adds`).
  Pointing a jump at its target gives that instruction another target and leaves every other
  byte alone (`Laid.retarget`), so jumps may wait for as long as they like and be pointed in any
  order. Once all are, decoding gives the instructions that the steps ask for
  (`assembly_reads_back`).
-/

import BaselineTier.Lowering.Shuffle
import BaselineTier.Proofs.Emission
import BaselineTier.Proofs.Encoding
import BaselineTier.Proofs.Numbering

namespace BaselineTier

/-! ## Instructions laid one behind the other -/

namespace Instruction

/-- The instructions lie one behind the other from an offset on, each of its size and with an operand of its format. -/
def Laid : Nat → List Instruction → Prop
  | _, [] => True
  | offset, i :: is => i.offset = offset ∧ i.size = i.encode.length ∧ i.operand.format = i.opcode.format ∧
      Laid (offset + i.encode.length) is

variable {offset : Nat} {is is' : List Instruction} {i : Instruction}

theorem length_encode_pos (i : Instruction) : 0 < i.encode.length := Nat.succ_pos _

theorem encodeAll_append (is is' : List Instruction) : encodeAll (is ++ is') = encodeAll is ++ encodeAll is' :=
  List.flatMap_append

theorem encodeAll_cons (i : Instruction) (is : List Instruction) : encodeAll (i :: is) = i.encode ++ encodeAll is := rfl

theorem laid_append : Laid offset (is ++ is') ↔ Laid offset is ∧ Laid (offset + (encodeAll is).length) is' := by
  induction is generalizing offset with
  | nil => exact (iff_of_eq (true_and _)).symm
  | cons i is ih =>
    rw [List.cons_append, Laid, Laid, ih, encodeAll_cons, List.length_append, Nat.add_assoc]
    simp only [and_assoc]

theorem Laid.offset_le (h : Laid offset is) : ∀ i ∈ is, offset ≤ i.offset := by
  induction is generalizing offset with
  | nil => exact fun i hi => absurd hi List.not_mem_nil
  | cons j is ih =>
    rintro i (_ | ⟨_, hi⟩)
    · exact Nat.le_of_eq h.1.symm
    · exact Nat.le_trans (Nat.le_add_right _ _) (ih h.2.2.2 i hi)

/-- An instruction among others: those before it end where it begins. -/
theorem Laid.offset_eq (h : Laid offset (is ++ i :: is')) : i.offset = offset + (encodeAll is).length :=
  (laid_append.mp h).2.1

theorem Laid.offset_lt (h : Laid offset is) (hi : i ∈ is) : i.offset < offset + (encodeAll is).length := by
  obtain ⟨before, behind, rfl⟩ := List.append_of_mem hi
  have := i.length_encode_pos
  rw [h.offset_eq, encodeAll_append, encodeAll_cons, List.length_append, List.length_append]
  omega

theorem Laid.format (h : Laid offset is) (hi : i ∈ is) : i.operand.format = i.opcode.format := by
  obtain ⟨before, behind, rfl⟩ := List.append_of_mem hi
  exact (laid_append.mp h).2.2.2.1

theorem length_le_encodeAll (is : List Instruction) : is.length ≤ (encodeAll is).length := by
  induction is with
  | nil => exact Nat.le_refl 0
  | cons i is ih =>
    have := i.length_encode_pos
    rw [encodeAll_cons, List.length_cons, List.length_append]
    omega

theorem Laid.pairwise (h : Laid offset is) : is.Pairwise fun i j => i.offset < j.offset := by
  induction is generalizing offset with
  | nil => exact .nil
  | cons i is ih =>
    refine .cons (fun j hj => ?_) (ih h.2.2.2)
    have := h.2.2.2.offset_le j hj
    have := i.length_encode_pos
    rw [h.1]
    omega

/-- What is laid so, and spells the code from the offset on, is what the code is decoded to, if every jump stays
    inside. -/
theorem Laid.tiles {code : List UInt8} (h : Laid offset is) (hle : offset ≤ code.length)
    (hbytes : code.drop offset = encodeAll is) (hlands : ∀ i ∈ is, i.operand.Lands code.length i.offset) :
    Tiles code offset is := by
  induction is generalizing offset with
  | nil => exact Nat.le_antisymm hle (List.drop_eq_nil_iff.mp hbytes)
  | cons i is ih =>
    obtain ⟨rfl, hsize, hformat, hrest⟩ := h
    have henc : i.Encodable code.length := ⟨hsize, hformat, hlands i List.mem_cons_self⟩
    have hlength := congrArg List.length hbytes
    rw [List.length_drop, encodeAll_cons, List.length_append] at hlength
    have hbehind : code.drop (i.offset + i.encode.length) = encodeAll is := by
      rw [← List.drop_drop, hbytes, encodeAll_cons, List.drop_left]
    refine ⟨decodeAt_iff_encode.mpr ⟨rfl, henc, encodeAll is, hbytes.symm⟩, ?_⟩
    rw [henc.next]
    exact ih hrest (by omega) hbehind fun j hj => hlands j (List.mem_cons_of_mem _ hj)

/-! ## Pointing a jump elsewhere -/

def retarget (site target : Nat) (i : Instruction) : Instruction :=
  if i.offset = site then { i with operand := .jump target } else i

theorem offset_retarget (site target : Nat) (i : Instruction) : (i.retarget site target).offset = i.offset := by
  unfold retarget
  split <;> rfl

theorem map_retarget {site : Nat} (target : Nat) (h : ∀ i ∈ is, i.offset ≠ site) :
    is.map (retarget site target) = is := by
  refine (List.map_congr_left fun i hi => ?_).trans (List.map_id is)
  exact if_neg (h i hi)

/-- The four bytes behind a byte are replaced by others. -/
theorem splice (before behind distance' : List UInt8) {distance : List UInt8} (b : UInt8) (h : distance.length = 4) :
    (before ++ b :: (distance ++ behind)).take (before.length + 1) ++ distance' ++
      (before ++ b :: (distance ++ behind)).drop (before.length + 5) = before ++ b :: (distance' ++ behind) := by
  have htake : (before ++ b :: (distance ++ behind)).take (before.length + 1) = before ++ [b] := by
    rw [List.take_length_add_append, List.take_succ_cons, List.take_zero]
  have hdrop : (before ++ b :: (distance ++ behind)).drop (before.length + 5) = behind := by
    rw [List.drop_length_add_append, List.drop_succ_cons, ← h, List.drop_left]
  rw [htake, hdrop]
  simp

/-- A jump that is pointed elsewhere is the only instruction that changes, and only the bytes of its distance do. -/
theorem Laid.retarget {site old : Nat} (h : Laid 0 is) (hi : i ∈ is) (hsite : i.offset = site)
    (hold : i.operand = .jump old) (target : Nat) :
    Laid 0 (is.map (Instruction.retarget site target)) ∧ site + 5 ≤ (encodeAll is).length ∧
      encodeAll (is.map (Instruction.retarget site target)) =
        (encodeAll is).take (site + 1) ++ littleEndian 4 (displacement site target).toUInt32.toNat ++
          (encodeAll is).drop (site + 5) := by
  obtain ⟨before, behind, rfl⟩ := List.append_of_mem hi
  have hpairs := List.pairwise_append.mp h.pairwise
  have hstart := h.offset_eq
  obtain ⟨hbefore, hoffset, hsize, hformat, hbehind⟩ := laid_append.mp h
  obtain ⟨offset, opcode, operand, size⟩ := i
  simp only at hsite hold
  subst hsite hold
  -- Offsets grow, so no other instruction lies at the site.
  have hmap : (before ++ ⟨offset, opcode, .jump old, size⟩ :: behind).map (Instruction.retarget offset target) =
      before ++ ⟨offset, opcode, .jump target, size⟩ :: behind := by
    have hleft := map_retarget target fun j hj => Nat.ne_of_lt (hpairs.2.2 j hj _ List.mem_cons_self)
    have hright := map_retarget target fun j hj => Nat.ne_of_gt ((List.pairwise_cons.mp hpairs.2.1).1 j hj)
    rw [List.map_append, List.map_cons, hleft, hright, Instruction.retarget, if_pos rfl]
  -- A jump takes five bytes wherever it goes, so what lies behind stays where it is.
  have hlength (t : Nat) : (encode ⟨offset, opcode, .jump t, size⟩).length = 5 := by
    rw [encode, List.length_cons, Operand.length_encode]
    rfl
  rw [hlength] at hsize hbehind
  have hstart : offset = (encodeAll before).length := hstart.trans (Nat.zero_add _)
  rw [hmap]
  refine ⟨laid_append.mpr ⟨hbefore, hoffset, by rw [hlength]; exact hsize, hformat, by rw [hlength]; exact hbehind⟩, ?_,
    ?_⟩
  · rw [encodeAll_append, encodeAll_cons, List.length_append, List.length_append, hlength, hstart]
    omega
  · have hsplice := splice (encodeAll before) (encodeAll behind)
      (littleEndian 4 (displacement offset target).toUInt32.toNat) opcode.byte
      (length_littleEndian 4 (displacement offset old).toUInt32.toNat)
    rw [← hstart] at hsplice
    rw [encodeAll_append, encodeAll_append]
    exact hsplice.symm

end Instruction

/-! ## Steps of a builder -/

namespace Builder

inductive Step where
  | op (opcode : Opcode)
  | u16 (opcode : Opcode) (n : UInt16)
  | u32 (opcode : Opcode) (n : UInt32)
  | name (opcode : Opcode) (text : String)
  | int (n : Int32)
  | double (d : Double)
  | string (text : String)
  | jump (opcode : Opcode)
  | bind (site : JumpSite)
  | jumpTo (opcode : Opcode) (target : Nat)
deriving DecidableEq

def Step.Fits : Step → Prop
  | .op opcode => opcode.format = .none
  | .u16 opcode _ => opcode.format = .u16
  | .u32 opcode _ | .name opcode _ => opcode.format = .u32
  | .jump opcode | .jumpTo opcode _ => opcode.format = .jump
  | .int _ | .double _ | .string _ | .bind _ => True

/-- Every step writes an instruction, except that pointing a jump at its target writes none. -/
def Step.writes : Step → Bool
  | .bind _ => false
  | _ => true

def step (b : Builder) : Step → Builder
  | .op opcode => b.op opcode
  | .u16 opcode n => b.opU16 opcode n
  | .u32 opcode n => b.opU32 opcode n
  | .name opcode text => b.opAtom opcode text
  | .int n => b.int n
  | .double d => b.double d
  | .string text => b.string text
  | .jump opcode => (b.jump opcode).2
  | .bind site => b.bind site
  | .jumpTo opcode target => b.jumpTo opcode target

def run (steps : List Step) : Builder := steps.foldl step {}

def bytes (b : Builder) : List UInt8 := b.writer.bytes.toList

def trailFrom (b : Builder) : List Step → List (Nat × Step)
  | [] => []
  | s :: rest => (b.offset, s) :: trailFrom (b.step s) rest

def trail (steps : List Step) : List (Nat × Step) := trailFrom {} steps

/-- What an instruction must be to be the one that a step asks for. Which index stands for a name, and where the forward
    jump at an offset goes, is told apart. -/
def Step.Denotes (Names : String → UInt32 → Prop) (Aims : Nat → Nat → Prop) (i : Instruction) : Step → Prop
  | .op opcode => i.opcode = opcode ∧ i.operand = .none
  | .u16 opcode n => i.opcode = opcode ∧ i.operand = .u16 n
  | .u32 opcode n => i.opcode = opcode ∧ i.operand = .u32 n
  | .name opcode text => i.opcode = opcode ∧ ∃ n, i.operand = .u32 n ∧ Names text n
  | .int n => i.opcode ∈ [.pushZero, .pushOne, .pushInt8, .pushInt32] ∧
      ∀ (β : Type) (job : Job β), Lowering.literal job i = Emit.push (.constant (.int32 n))
  | .double d => i.opcode = .pushDouble ∧ i.operand = .f64 d
  | .string text => i.opcode = .pushString ∧ ∃ n, i.operand = .u32 n ∧ Names text n
  | .jump opcode => i.opcode = opcode ∧ ∃ target, i.operand = .jump target ∧ Aims i.offset target
  | .jumpTo opcode target => i.opcode = opcode ∧ i.operand = .jump target
  | .bind _ => False

theorem Step.Denotes.mono {Names Names' : String → UInt32 → Prop} {Aims Aims' : Nat → Nat → Prop} {i : Instruction}
    {s : Step} (h : s.Denotes Names Aims i) (hnames : ∀ text n, Names text n → Names' text n)
    (haims : ∀ target, Aims i.offset target → Aims' i.offset target) : s.Denotes Names' Aims' i := by
  cases s with
  | name | string =>
    obtain ⟨hop, n, hn, hname⟩ := h
    exact ⟨hop, n, hn, hnames _ _ hname⟩
  | jump =>
    obtain ⟨hop, target, ht, haim⟩ := h
    exact ⟨hop, target, ht, haims _ haim⟩
  | _ => exact h

/-! ## Steps that write -/

theorem offset_eq (b : Builder) : b.offset = b.bytes.length := by simp [offset, Writer.offset, bytes]

def Lists (atoms : Array String) (text : String) (n : UInt32) : Prop :=
  ∃ index, n = UInt32.ofNat index ∧ atoms[index]? = some text

/-- A step adds an instruction to what is written: the one that it asks for, with a forward jump going to itself. -/
structure Adds (b : Builder) (s : Step) (i : Instruction) (b' : Builder) : Prop where
  offset : i.offset = b.offset
  size : i.size = i.encode.length
  format : i.operand.format = i.opcode.format
  bytes : b'.bytes = b.bytes ++ i.encode
  denotes : s.Denotes (Lists b'.atoms) Eq i
  atoms : b'.atoms = b.atoms ∨ ∃ text, b'.atoms = b.atoms.push text
  indexed : b'.Indexed

def next (b : Builder) (opcode : Opcode) (operand : Operand) : Instruction :=
  ⟨b.offset, opcode, operand, (operand.encode b.offset).length + 1⟩

variable {b : Builder} {s : Step} {opcode : Opcode}

/-- An opcode byte and the bytes of an operand of its format. -/
theorem adds_next (h : b.Indexed) (opcode : Opcode) (operand : Operand) {writer : Writer}
    (hformat : operand.format = opcode.format)
    (hwriter : writer = (b.writer.op opcode).append (operand.encode b.offset))
    (hdenotes : s.Denotes (Lists b.atoms) Eq (b.next opcode operand)) :
    b.Adds s (b.next opcode operand) { b with writer } := by
  refine ⟨rfl, rfl, hformat, ?_, hdenotes, .inl rfl, h⟩
  rw [hwriter]
  simp [bytes, Writer.append, Writer.op, Writer.u8, next, Instruction.encode]

/-- A name has an index once it was asked for. -/
theorem lists_atom (h : b.Indexed) (text : String) : Lists (b.atom text).2.atoms text (b.atom text).1 ∧
    ((b.atom text).2.atoms = b.atoms ∨ (b.atom text).2.atoms = b.atoms.push text) := by
  unfold atom
  split
  · rename_i index hindex
    obtain ⟨place, hplace, rfl⟩ := h.lookup_iff.mp hindex
    exact ⟨⟨place, rfl, hplace⟩, .inl rfl⟩
  · exact ⟨⟨b.atoms.size, rfl, Array.getElem?_push_size⟩, .inr rfl⟩

theorem writer_atom (b : Builder) (text : String) : (b.atom text).2.writer = b.writer := by
  unfold atom
  split <;> rfl

theorem opAtom_adds (h : b.Indexed) (hformat : opcode.format = .u32) (text : String)
    (hdenotes : ∀ Names i, i.opcode = opcode → (∃ n, i.operand = .u32 n ∧ Names text n) → s.Denotes Names Eq i) :
    ∃ i, b.Adds s i (b.opAtom opcode text) := by
  obtain ⟨hlists, hatoms⟩ := lists_atom h text
  have hwriter := writer_atom b text
  have hadds : Adds (b.atom text).2 s _ ((b.atom text).2.opU32 opcode (b.atom text).1) :=
    adds_next (indexed_atom h text) _ (.u32 (b.atom text).1) hformat.symm rfl (hdenotes _ _ rfl ⟨_, rfl, hlists⟩)
  have hoffset : (b.atom text).2.offset = b.offset := by rw [offset, hwriter]; rfl
  have hbytes : (b.atom text).2.bytes = b.bytes := by rw [bytes, hwriter]; rfl
  exact ⟨_, hadds.offset.trans hoffset, hadds.size, hadds.format, hadds.bytes.trans (by rw [hbytes]), hadds.denotes,
    hatoms.imp_right fun hpush => ⟨text, hpush⟩, hadds.indexed⟩

/-- A small number survives being narrowed to eight bits and widened again. -/
theorem toInt32_toInt8 {n : Int32} (h : -128 ≤ n ∧ n ≤ 127) : n.toInt8.toInt32 = n := by
  have hlow := Int32.le_iff_toInt_le.mp h.1
  have hhigh := Int32.le_iff_toInt_le.mp h.2
  have hbound : (127 : Int32).toInt = 127 := rfl
  apply Int32.toInt_inj.mp
  rw [Int8.toInt_toInt32, Int32.toInt_toInt8, Int.bmod_eq_of_le hlow (by omega)]

theorem toUInt8_toUInt32 (n : Int32) : n.toUInt32.toUInt8 = n.toInt8.toUInt8 := by
  apply UInt8.toBitVec_inj.mp
  simp [BitVec.signExtend_eq_setWidth_of_le]

/-- The literal that is chosen for a number is lowered to the number. -/
theorem int_adds (h : b.Indexed) (n : Int32) : ∃ i, b.Adds (.int n) i (b.int n) := by
  unfold int Writer.int
  split
  · rename_i hn
    subst hn
    exact ⟨_, adds_next h .pushZero .none rfl (by simp [Writer.append, Operand.encode])
      ⟨by simp [next], fun _ _ => rfl⟩⟩
  split
  · rename_i hn
    subst hn
    exact ⟨_, adds_next h .pushOne .none rfl (by simp [Writer.append, Operand.encode]) ⟨by simp [next], fun _ _ => rfl⟩⟩
  split
  · rename_i hn
    refine ⟨_, adds_next h .pushInt8 (.i8 n.toInt8) rfl ?_ ⟨by simp [next], fun _ _ => ?_⟩⟩
    · simp [Writer.append, Writer.u8, Operand.encode, toUInt8_toUInt32]
    · simp only [Lowering.literal, Instruction.literal?, next, toInt32_toInt8 hn]
  · exact ⟨_, adds_next h _ (.i32 n) rfl rfl ⟨by simp [next], fun _ _ => rfl⟩⟩

theorem step_adds (h : b.Indexed) (hfit : s.Fits) (hwrites : s.writes = true) : ∃ i, b.Adds s i (b.step s) := by
  have hself (site : Nat) : displacement site site = 0 := by rw [displacement, Int.sub_self]; rfl
  cases s with
  | op opcode => exact ⟨_, adds_next h _ .none hfit.symm (by simp [Writer.append, Operand.encode]) ⟨rfl, rfl⟩⟩
  | u16 opcode n => exact ⟨_, adds_next h _ (.u16 n) hfit.symm rfl ⟨rfl, rfl⟩⟩
  | u32 opcode n => exact ⟨_, adds_next h _ (.u32 n) hfit.symm rfl ⟨rfl, rfl⟩⟩
  | name opcode text => exact opAtom_adds h hfit text fun _ _ hop htext => ⟨hop, htext⟩
  | int n => exact int_adds h n
  | double d => exact ⟨_, adds_next h _ (.f64 d) rfl rfl ⟨rfl, rfl⟩⟩
  | string text => exact opAtom_adds h rfl text fun _ _ hop htext => ⟨hop, htext⟩
  | jump opcode =>
    refine ⟨_, adds_next h _ (.jump b.offset) hfit.symm ?_ ⟨rfl, b.offset, rfl, rfl⟩⟩
    simp only [Operand.encode, hself]
    rfl
  | bind site => cases hwrites
  | jumpTo opcode target => exact ⟨_, adds_next h _ (.jump target) hfit.symm rfl ⟨rfl, rfl⟩⟩

/-! ## Whole sequences of steps -/

theorem trailFrom_append (b : Builder) (steps steps' : List Step) :
    b.trailFrom (steps ++ steps') = b.trailFrom steps ++ (steps.foldl step b).trailFrom steps' := by
  induction steps generalizing b with
  | nil => rfl
  | cons s steps ih => rw [List.cons_append, trailFrom, ih]; rfl

theorem trail_snoc (steps : List Step) (s : Step) : trail (steps ++ [s]) = trail steps ++ [((run steps).offset, s)] :=
  trailFrom_append {} steps [s]

theorem run_snoc (steps : List Step) (s : Step) : run (steps ++ [s]) = (run steps).step s := List.foldl_append

def Made (steps : List Step) : Prop :=
  ∀ {k offset : Nat} {site : JumpSite}, (trail steps)[k]? = some (offset, .bind site) →
  ∃ opcode, (site.offset, .jump opcode) ∈ (trail steps).take k

/-- Every forward jump is pointed at its target exactly once, after it was written. -/
structure Bound (steps : List Step) : Prop where
  once : ∀ {offset : Nat} {opcode : Opcode}, (offset, .jump opcode) ∈ trail steps → steps.count (.bind ⟨offset⟩) = 1
  made : Made steps

structure Inside (steps : List Step) : Prop where
  bind : ∀ {offset : Nat} {site : JumpSite}, (offset, .bind site) ∈ trail steps → offset < (run steps).offset
  jumpTo : ∀ {opcode : Opcode} {target : Nat}, .jumpTo opcode target ∈ steps → target < (run steps).offset

/-- Where the forward jump at an offset goes: to where it was pointed, and until then to itself. -/
def Aims (steps : List Step) (site target : Nat) : Prop :=
  (target, .bind ⟨site⟩) ∈ trail steps ∨ target = site ∧ ∀ offset, (offset, .bind ⟨site⟩) ∉ trail steps

/-- The instructions are those that the steps ask for, one for each that writes, and what was written spells them. -/
structure Holds (steps : List Step) (is : List Instruction) : Prop where
  laid : Instruction.Laid 0 is
  bytes : (run steps).bytes = Instruction.encodeAll is
  asked : List.Forall₂ (fun p i => i.offset = p.1 ∧ p.2.Denotes (Lists (run steps).atoms) (Aims steps) i)
    ((trail steps).filter (·.2.writes)) is
  atoms : (run steps).atoms.size ≤ is.length
  indexed : (run steps).Indexed

variable {steps : List Step} {is : List Instruction}

theorem Holds.offset (h : Holds steps is) :
    (run steps).offset = (Instruction.encodeAll is).length := by rw [offset_eq, h.bytes]

theorem Holds.offsets (h : Holds steps is) :
    ((trail steps).filter (·.2.writes)).map Prod.fst = is.map Instruction.offset := by
  refine List.forall₂_eq_eq_eq ▸ ?_
  rw [List.forall₂_map_left_iff, List.forall₂_map_right_iff]
  exact h.asked.imp fun _ _ hp => hp.1.symm

/-- The step that wrote at an offset is the only one. -/
theorem Holds.unique (h : Holds steps is) {offset : Nat} {s s' : Step} (hs : (offset, s) ∈ trail steps)
    (hw : s.writes = true) (hs' : (offset, s') ∈ trail steps) (hw' : s'.writes = true) : s = s' := by
  have hnodup : (((trail steps).filter (·.2.writes)).map Prod.fst).Nodup := by
    rw [h.offsets]
    exact (List.pairwise_map.mpr h.laid.pairwise).imp Nat.ne_of_lt
  have := List.inj_on_of_nodup_map hnodup (List.mem_filter.mpr ⟨hs, hw⟩) (List.mem_filter.mpr ⟨hs', hw'⟩) rfl
  exact congrArg Prod.snd this

theorem Holds.offset_lt (h : Holds steps is) {offset : Nat} {s : Step} (hs : (offset, s) ∈ trail steps)
    (hw : s.writes = true) :
    offset < (run steps).offset := by
  have hmem : offset ∈ is.map Instruction.offset := by
    rw [← h.offsets]
    exact List.mem_map.mpr ⟨_, List.mem_filter.mpr ⟨hs, hw⟩, rfl⟩
  obtain ⟨i, hi, rfl⟩ := List.mem_map.mp hmem
  have := h.laid.offset_lt hi
  rw [h.offset]
  omega

theorem Lists.push {atoms : Array String} {text : String} {n : UInt32} (h : Lists atoms text n) (new : String) :
    Lists (atoms.push new) text n := by
  obtain ⟨index, hn, htext⟩ := h
  exact ⟨index, hn, Draft.getElem?_push_of_some new htext⟩

theorem Made.init (h : Made (steps ++ [s])) : Made steps := by
  intro k offset site hk
  obtain ⟨hlt, _⟩ := List.getElem?_eq_some_iff.mp hk
  rw [Made, trail_snoc] at h
  obtain ⟨opcode, hopcode⟩ := h (k := k) (by rw [List.getElem?_append_left hlt, hk])
  rw [List.take_append_of_le_length (Nat.le_of_lt hlt)] at hopcode
  exact ⟨opcode, hopcode⟩

theorem Made.last {site : JumpSite} (h : Made (steps ++ [.bind site])) :
    ∃ opcode, (site.offset, .jump opcode) ∈ trail steps := by
  rw [Made, trail_snoc] at h
  obtain ⟨opcode, hopcode⟩ := h (k := (trail steps).length) List.getElem?_concat_length
  rw [List.take_left] at hopcode
  exact ⟨opcode, hopcode⟩

/-- A jump goes on to aim where it does until it is pointed elsewhere. -/
theorem Aims.snoc {site target : Nat} (h : Aims steps site target) (hs : s ≠ .bind ⟨site⟩) :
    Aims (steps ++ [s]) site target := by
  rw [Aims, trail_snoc]
  rcases h with hmem | ⟨hself, hnone⟩
  · exact .inl (List.mem_append_left _ hmem)
  · refine .inr ⟨hself, fun offset hmem => ?_⟩
    rcases List.mem_append.mp hmem with hmem | hmem
    · exact hnone offset hmem
    · cases List.mem_singleton.mp hmem
      exact hs rfl

theorem Step.ne_bind_of_writes (hw : s.writes = true) (site : JumpSite) : s ≠ .bind site := by
  rintro rfl
  cases hw

/-- A forward jump that is written now has not been pointed at anything. -/
theorem Holds.aims_self (h : Holds steps is) (hmade : Made steps) (hw : s.writes = true) :
    Aims (steps ++ [s]) (run steps).offset (run steps).offset := by
  refine Aims.snoc (.inr ⟨rfl, fun offset hmem => ?_⟩) (Step.ne_bind_of_writes hw _)
  -- A site that was pointed somewhere had been made, so it lies below the end.
  obtain ⟨k, hk⟩ := List.mem_iff_getElem?.mp hmem
  obtain ⟨opcode, hjump⟩ := hmade hk
  exact Nat.lt_irrefl _ (h.offset_lt (List.mem_of_mem_take hjump) rfl)

/-- The step after others writes an instruction. -/
theorem Holds.snoc (h : Holds steps is) (hfit : s.Fits) (hw : s.writes = true) (hmade : Made steps) :
    ∃ is', Holds (steps ++ [s]) is' := by
  obtain ⟨i, hi⟩ := step_adds h.indexed hfit hw
  have hoffset : i.offset = 0 + (Instruction.encodeAll is).length := by rw [hi.offset, h.offset, Nat.zero_add]
  have hnames (text : String) (n : UInt32) (hn : Lists (run steps).atoms text n) :
      Lists ((run steps).step s).atoms text n := by
    rcases hi.atoms with hatoms | ⟨new, hatoms⟩
    · rw [hatoms]
      exact hn
    · rw [hatoms]
      exact hn.push new
  refine ⟨is ++ [i], Instruction.laid_append.mpr ⟨h.laid, hoffset, hi.size, hi.format, trivial⟩, ?_, ?_, ?_,
    by rw [run_snoc]; exact hi.indexed⟩
  · rw [run_snoc, hi.bytes, h.bytes, Instruction.encodeAll_append]
    simp [Instruction.encodeAll]
  · rw [run_snoc, trail_snoc, List.filter_append, List.filter_cons_of_pos (p := fun p : Nat × Step => p.2.writes) hw]
    have hasked := h.asked.imp fun p j hj =>
      And.intro hj.1 (hj.2.mono hnames fun _ haim => haim.snoc (Step.ne_bind_of_writes hw _))
    refine List.rel_append hasked (.cons ⟨hi.offset, ?_⟩ .nil)
    refine hi.denotes.mono (fun _ _ hn => hn) fun target htarget => ?_
    rw [← htarget, hi.offset]
    exact h.aims_self hmade hw
  · have := h.atoms
    rw [run_snoc, List.length_append]
    rcases hi.atoms with hatoms | ⟨new, hatoms⟩ <;> rw [hatoms] <;> simp <;> omega

theorem exists_of_forall₂ {α γ : Type} {R : α → γ → Prop} {l : List α} {u : List γ} (h : List.Forall₂ R l u) {a : α}
    (ha : a ∈ l) :
    ∃ c ∈ u, R a c := by
  induction h with
  | nil => cases ha
  | cons hr _ ih =>
    rcases List.mem_cons.mp ha with rfl | ha
    · exact ⟨_, List.mem_cons_self, hr⟩
    · obtain ⟨c, hc, hac⟩ := ih ha
      exact ⟨c, List.mem_cons_of_mem _ hc, hac⟩

theorem bytes_bind (b : Builder) {site : JumpSite} (hroom : site.offset + 5 ≤ b.bytes.length) :
    (b.bind site).bytes = b.bytes.take (site.offset + 1) ++
      littleEndian 4 (displacement site.offset b.offset).toUInt32.toNat ++
      b.bytes.drop (site.offset + 5) := by
  have hroom : site.offset + 1 + 4 ≤ b.writer.bytes.size := by simpa [bytes] using hroom
  simp only [bind, Writer.patchHere, Writer.patch, Writer.patchInt32, if_pos hroom, Option.getD_some, bytes]
  simp [offset]

/-- Pointing a waiting jump here. -/
theorem Holds.bind (h : Holds steps is) {site : JumpSite} (hmade : Made (steps ++ [.bind site])) :
    ∃ is', Holds (steps ++ [.bind site]) is' := by
  obtain ⟨opcode, hjump⟩ := hmade.last
  obtain ⟨i, hi, hoffset, _, old, hold, _⟩ := exists_of_forall₂ h.asked (List.mem_filter.mpr ⟨hjump, rfl⟩)
  obtain ⟨hlaid, hroom, hbytes⟩ := h.laid.retarget hi hoffset hold (run steps).offset
  rw [← h.bytes] at hroom
  have hatoms : ((run steps).step (.bind site)).atoms = (run steps).atoms := rfl
  have htrail : (trail (steps ++ [.bind site])).filter (·.2.writes) = (trail steps).filter (·.2.writes) := by
    rw [trail_snoc, List.filter_append, List.filter_cons_of_neg (by exact Bool.false_ne_true), List.filter_nil,
      List.append_nil]
  refine ⟨_, hlaid, ?_, ?_, ?_, by rw [run_snoc]; exact h.indexed⟩
  · rw [run_snoc, hbytes, ← h.bytes]
    exact bytes_bind (run steps) hroom
  · rw [run_snoc, hatoms, htrail, List.forall₂_map_right_iff]
    have hmem := (List.forall₂_and_left (p := (· ∈ (trail steps).filter (·.2.writes))) _ _).mpr
      ⟨fun _ hp => hp, h.asked⟩
    refine hmem.imp ?_
    rintro ⟨o, s⟩ j ⟨hp, hj, hdenotes⟩
    obtain ⟨hp, hw⟩ := List.mem_filter.mp hp
    refine ⟨(j.offset_retarget _ _).trans hj, ?_⟩
    obtain rfl : j.offset = o := hj
    -- The step that wrote at the site is the jump that made it; every other instruction is what it was.
    by_cases hsite : j.offset = site.offset
    · obtain rfl : s = .jump opcode := h.unique hp hw (by rw [hsite]; exact hjump) rfl
      rw [Instruction.retarget, if_pos hsite]
      refine ⟨hdenotes.1, _, rfl, .inl ?_⟩
      rw [trail_snoc]
      exact List.mem_append_right _ (by rw [hsite]; exact List.mem_singleton_self _)
    · rw [Instruction.retarget, if_neg hsite]
      exact hdenotes.mono (fun _ _ hn => hn) fun _ haim => haim.snoc fun heq => hsite (by cases heq; rfl)
  · rw [run_snoc, hatoms, List.length_map]
    exact h.atoms

/-- Whatever steps are taken, what is written spells the instructions that they ask for. -/
theorem exists_holds (hfit : ∀ s ∈ steps, s.Fits) (hmade : Made steps) : ∃ is, Holds steps is := by
  -- From the end: a step is judged by what the steps before it have written.
  induction steps using List.reverseRecOn with
  | nil => exact ⟨[], trivial, rfl, .nil, Nat.le_refl 0, .empty _⟩
  | append_singleton steps s ih =>
    obtain ⟨is, h⟩ := ih (fun s' hs' => hfit s' (List.mem_append_left _ hs')) hmade.init
    have hs := hfit s (List.mem_append_right _ (List.mem_singleton_self s))
    cases hw : s.writes with
    | true => exact h.snoc hs hw hmade.init
    | false =>
      cases s with
      | bind site => exact h.bind hmade
      | _ => cases hw

/-! ## Reading back -/

theorem map_snd_trail (steps : List Step) : (trail steps).map Prod.snd = steps := by
  have hfrom (b : Builder) : (b.trailFrom steps).map Prod.snd = steps := by
    induction steps generalizing b with
    | nil => rfl
    | cons s steps ih => rw [trailFrom, List.map_cons, ih]
  exact hfrom {}

/-- The bytes are decoded to instructions, one for each step that writes, in order. Each lies where the builder was, and
    is what the step asks for: a name's index finds the name, and a forward jump goes to where the builder was when the
    jump was pointed. -/
def ReadsBack (steps : List Step) (is : List Instruction) : Prop :=
  List.Forall₂ (fun p i => i.offset = p.1 ∧
      p.2.Denotes (fun text n => (run steps).atoms[n.toNat]? = some text)
        (fun site target => (target, .bind ⟨site⟩) ∈ trail steps) i)
    ((trail steps).filter (·.2.writes)) is

/-- Once every jump has been pointed at its target, none goes to itself by default. -/
theorem Aims.bound {site target : Nat} {opcode : Opcode} (h : Aims steps site target) (hbound : Bound steps)
    (hjump : (site, .jump opcode) ∈ trail steps) : (target, .bind ⟨site⟩) ∈ trail steps := by
  rcases h with hmem | ⟨_, hnone⟩
  · exact hmem
  · have hmem : .bind ⟨site⟩ ∈ steps := List.count_pos_iff.mp (by rw [hbound.once hjump]; exact Nat.one_pos)
    rw [← map_snd_trail steps] at hmem
    obtain ⟨⟨offset, s⟩, hp, rfl⟩ := List.mem_map.mp hmem
    exact absurd hp (hnone offset)

/-- In a short code an index is not cut. -/
theorem Lists.getElem? {atoms : Array String} {text : String} {n : UInt32} (h : Lists atoms text n)
    (hsmall : atoms.size < 2 ^ 32) :
    atoms[n.toNat]? = some text := by
  obtain ⟨index, rfl, htext⟩ := h
  have hlt := (Array.getElem?_eq_some_iff.mp htext).1
  rw [UInt32.toNat_ofNat_of_lt' (Nat.lt_trans hlt hsmall), htext]

theorem Holds.readsBack (h : Holds steps is) (hbound : Bound steps) (hsmall : (run steps).atoms.size < 2 ^ 32) :
    ReadsBack steps is := by
  have hmem := (List.forall₂_and_left (p := (· ∈ (trail steps).filter (·.2.writes))) _ _).mpr ⟨fun _ hp => hp, h.asked⟩
  refine hmem.imp ?_
  rintro ⟨o, s⟩ i ⟨hp, hi, hdenotes⟩
  obtain ⟨hp, _⟩ := List.mem_filter.mp hp
  obtain rfl : i.offset = o := hi
  refine ⟨rfl, ?_⟩
  cases s with
  | jump opcode =>
    obtain ⟨hop, target, htarget, haim⟩ := hdenotes
    exact ⟨hop, target, htarget, haim.bound hbound hp⟩
  | name opcode text | string text =>
    obtain ⟨hop, n, hn, hlists⟩ := hdenotes
    exact ⟨hop, n, hn, hlists.getElem? hsmall⟩
  | _ => exact hdenotes

/-- Every jump can be decoded. -/
theorem ReadsBack.lands (h : ReadsBack steps is) (hlaid : Instruction.Laid 0 is) (hinside : Inside steps)
    {i : Instruction} (hi : i ∈ is) (hshort : (run steps).offset < 2 ^ 31) (hend : i.offset < (run steps).offset) :
    i.operand.Lands (run steps).offset i.offset := by
  intro target htarget
  have hlt : target < (run steps).offset := by
    obtain ⟨⟨o, s⟩, hp, hoffset, hdenotes⟩ := exists_of_forall₂ h.flip hi
    obtain ⟨hp, _⟩ := List.mem_filter.mp hp
    cases s with
    | jump opcode =>
      obtain ⟨_, target', htarget', hbind⟩ := hdenotes
      cases htarget.symm.trans htarget'
      exact hinside.bind hbind
    | jumpTo opcode target' =>
      cases htarget.symm.trans hdenotes.2
      exact hinside.jumpTo (by rw [← map_snd_trail steps]; exact List.mem_map_of_mem (f := Prod.snd) hp)
    | op opcode | u16 opcode n | u32 opcode n | double d => cases htarget.symm.trans hdenotes.2
    | name opcode text | string text =>
      obtain ⟨_, n, hn, _⟩ := hdenotes
      cases htarget.symm.trans hn
    | int n =>
      have hformat := hlaid.format hi
      rw [htarget] at hformat
      have hop := hdenotes.1
      simp only [List.mem_cons, List.not_mem_nil, or_false] at hop
      rcases hop with hop | hop | hop | hop <;> rw [hop] at hformat <;> cases hformat
    | bind site => exact hdenotes.elim
  exact ⟨hlt, displacement_of_short (Nat.le_of_lt hshort) hend hlt⟩

/-- Steps that fit their opcodes, with every forward jump pointed at its target once and no jump out of a code below
    2 ^ 31 bytes, are written so that decoding gives back what they ask for. -/
theorem assembly_reads_back (hfit : ∀ s ∈ steps, s.Fits) (hshort : (run steps).offset < 2 ^ 31) (hbound : Bound steps)
    (hinside : Inside steps) : ∃ is, Instruction.decode (run steps).bytes = .ok is ∧ ReadsBack steps is := by
  obtain ⟨is, h⟩ := exists_holds hfit hbound.made
  have hlength : (run steps).bytes.length = (run steps).offset := (offset_eq _).symm
  have hcount : is.length ≤ (run steps).offset := by
    rw [h.offset]
    exact Instruction.length_le_encodeAll is
  -- Every name was asked for by an instruction, so there are no more names than bytes.
  have hsmall : (run steps).atoms.size < 2 ^ 32 := by
    have := h.atoms
    omega
  have hreads := h.readsBack hbound hsmall
  refine ⟨is, Instruction.decode_iff_tiles.mpr (h.laid.tiles (Nat.zero_le _) (by rw [List.drop_zero, h.bytes])
    fun i hi => ?_), hreads⟩
  have hlt : i.offset < (run steps).offset := by
    rw [h.offset, ← Nat.zero_add (List.length _)]
    exact h.laid.offset_lt hi
  rw [hlength]
  exact hreads.lands h.laid hinside hi hshort hlt

/-- A loop. Two forward jumps wait at the same time, and are pointed in the order in which they were written. -/
def loopSteps : List Step :=
  [.int 300, .jump .ifEq, .jump .goto, .bind ⟨5⟩, .name .getName "x", .jumpTo .goto 0, .bind ⟨10⟩, .op .stop]

theorem trail_loopSteps : trail loopSteps = [(0, .int 300), (5, .jump .ifEq), (10, .jump .goto), (15, .bind ⟨5⟩),
    (15, .name .getName "x"), (20, .jumpTo .goto 0), (25, .bind ⟨10⟩), (25, .op .stop)] := by cbv

theorem bound_loopSteps : Bound loopSteps := by
  refine ⟨fun {offset opcode} h => ?_, fun {k offset site} h => ?_⟩
  · rw [trail_loopSteps] at h
    simp only [List.mem_cons, Prod.mk.injEq, List.not_mem_nil, reduceCtorEq, and_false, or_false, false_or] at h
    rcases h with ⟨rfl, _⟩ | ⟨rfl, _⟩ <;> rfl
  · rw [trail_loopSteps] at h ⊢
    have hlt := (List.getElem?_eq_some_iff.mp h).1
    simp only [List.length_cons, List.length_nil] at hlt
    interval_cases k <;> cases h
    · exact ⟨.ifEq, by decide⟩
    · exact ⟨.goto, by decide⟩

theorem assembly_reads_back_loopSteps :
    (∀ s ∈ loopSteps, s.Fits) ∧ (run loopSteps).offset = 26 ∧ Bound loopSteps ∧ Inside loopSteps ∧
    ∃ is, Instruction.decode (run loopSteps).bytes = .ok is ∧ ReadsBack loopSteps is ∧
      is.map Instruction.target? = [none, some 15, some 25, none, some 0, none] := by
  have hfit : ∀ s ∈ loopSteps, s.Fits := by simp [loopSteps, Step.Fits, Opcode.format]
  have hoffset : (run loopSteps).offset = 26 := by cbv
  have hinside : Inside loopSteps := by
    refine ⟨fun {offset site} h => ?_, fun {opcode target} h => ?_⟩
    · rw [trail_loopSteps] at h
      simp only [List.mem_cons, Prod.mk.injEq, List.not_mem_nil, reduceCtorEq, and_false, or_false, false_or] at h
      rcases h with ⟨rfl, _⟩ | ⟨rfl, _⟩ <;> rw [hoffset] <;> decide
    · simp only [loopSteps, List.mem_cons, List.not_mem_nil, reduceCtorEq, or_false, false_or, Step.jumpTo.injEq] at h
      rw [hoffset, h.2]
      decide
  obtain ⟨is, hdecode, hreads⟩ := assembly_reads_back hfit (by rw [hoffset]; decide) bound_loopSteps hinside
  refine ⟨hfit, hoffset, bound_loopSteps, hinside, is, hdecode, hreads, ?_⟩
  have htargets : (Instruction.decode (run loopSteps).bytes).map (·.map Instruction.target?) =
      .ok [none, some 15, some 25, none, some 0, none] := by cbv
  rw [hdecode] at htargets
  exact Except.ok.inj htargets

end Builder
end BaselineTier
