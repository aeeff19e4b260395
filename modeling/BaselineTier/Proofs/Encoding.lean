/-
  BaselineTier.Proofs.Encoding — decoding undoes encoding.

  A read inverts a way of writing if it gives a value exactly where the bytes ahead begin with
  what is written for the value (`Cursor.Inverts`). Every read of a cursor does, from single
  bytes up to whole instructions, so the instruction at an offset is the one whose bytes are
  there (`decodeAt_iff_encode`). A byte string is decoded to the instructions that spell it
  (`Spells`): they lie one behind the other from its beginning to its end, and their bytes put
  together are the string.
-/

import BaselineTier.Proofs.Verified

namespace BaselineTier

/-! ## Numbers as bytes -/

theorem length_littleEndian (count n : Nat) : (littleEndian count n).length = count := by
  induction count generalizing n with
  | zero => rfl
  | succ count ih => rw [littleEndian, List.length_cons, ih]

theorem ofLittleEndian_lt (bytes : List UInt8) : ofLittleEndian bytes < 256 ^ bytes.length := by
  induction bytes with
  | nil => decide
  | cons b bytes ih =>
    have := b.toNat_lt
    rw [ofLittleEndian, List.length_cons, Nat.pow_succ]
    omega

theorem ofLittleEndian_littleEndian {count n : Nat} (h : n < 256 ^ count) :
    ofLittleEndian (littleEndian count n) = n := by
  induction count generalizing n with
  | zero =>
    rw [Nat.pow_zero] at h
    rw [littleEndian, ofLittleEndian]
    omega
  | succ count ih =>
    rw [Nat.pow_succ] at h
    have hsmall : n / 256 < 256 ^ count := Nat.div_lt_of_lt_mul (by omega)
    rw [littleEndian, ofLittleEndian, ih hsmall, UInt8.toNat_ofNat']
    exact Nat.mod_add_div n 256

theorem littleEndian_ofLittleEndian (bytes : List UInt8) :
    littleEndian bytes.length (ofLittleEndian bytes) = bytes := by
  induction bytes with
  | nil => rfl
  | cons b bytes ih =>
    have hb := b.toNat_lt
    have hhead : UInt8.ofNat (b.toNat + 256 * ofLittleEndian bytes) = b := by
      apply UInt8.toNat_inj.mp
      rw [UInt8.toNat_ofNat']
      omega
    have htail : (b.toNat + 256 * ofLittleEndian bytes) / 256 = ofLittleEndian bytes := by omega
    rw [List.length_cons, ofLittleEndian, littleEndian, hhead, htail, ih]

/-! ## Opcodes as bytes -/

namespace Opcode

theorem ofByte?_byte (op : Opcode) : ofByte? op.byte = some op := by cases op <;> rfl

theorem ofByte?_eq_some_iff {b : UInt8} {op : Opcode} : ofByte? b = some op ↔ op.byte = b := by
  constructor
  · intro h
    have hfound := List.find?_some (p := fun op : Opcode => op.byte == b) h
    exact beq_iff_eq.mp hfound
  · rintro rfl
    exact ofByte?_byte op

end Opcode

/-! ## Reads -/

namespace Cursor

variable {α γ : Type}

/-- The read gives those of the values that have the property, each exactly where the bytes ahead begin with what is
    written for it, and goes on behind them. -/
def Inverts (r : Read α) (write : α → List UInt8) (P : α → Prop) : Prop :=
  ∀ c a c', r c = .ok a c' ↔ P a ∧ c.rest = write a ++ c'.rest ∧ c'.position = c.position + (write a).length

theorem take_inverts (count : Nat) : Inverts (take count) id (·.length = count) := by
  intro c bytes c'
  simp only [take, id]
  constructor
  · intro h
    split at h
    · rename_i hlen
      cases h
      exact ⟨hlen, (List.take_append_drop count c.rest).symm, by rw [hlen]⟩
    · cases h
  · rintro ⟨rfl, hrest, hpos⟩
    simp only [hrest, List.take_left, List.drop_left, if_true, ← hpos]

/-- A value that is made of another one is read by reading the other one. -/
theorem Inverts.map {r : Read α} {write : α → List UInt8} {write' : γ → List UInt8} {P : α → Prop} {Q : γ → Prop}
    (h : Inverts r write P) {f : α → γ} (hf : ∀ a, P a → Q (f a) ∧ write' (f a) = write a)
    (hg : ∀ b, Q b → ∃ a, P a ∧ f a = b) :
    Inverts (f <$> r) write' Q := by
  intro c b c'
  simp only [Functor.map, EStateM.map]
  constructor
  · intro hr
    split at hr
    · rename_i a c₁ ha
      cases hr
      obtain ⟨hP, hbytes⟩ := (h c a c').mp ha
      obtain ⟨hQ, hwrite⟩ := hf a hP
      rw [hwrite]
      exact ⟨hQ, hbytes⟩
    · cases hr
  · rintro ⟨hQ, hbytes⟩
    obtain ⟨a, hP, rfl⟩ := hg b hQ
    rw [(hf a hP).2] at hbytes
    rw [(h c a c').mpr ⟨hP, hbytes⟩]

theorem number_inverts (count : Nat) : Inverts (number count) (littleEndian count) (· < 256 ^ count) := by
  refine (take_inverts count).map (fun bytes hlen => ?_) fun n hn => ?_
  · subst hlen
    exact ⟨ofLittleEndian_lt bytes, littleEndian_ofLittleEndian bytes⟩
  · exact ⟨littleEndian count n, length_littleEndian count n, ofLittleEndian_littleEndian hn⟩

theorem u8_inverts : Inverts u8 (fun b => [b]) fun _ => True :=
  (number_inverts 1).map (fun _ _ => ⟨trivial, rfl⟩) fun b _ => ⟨b.toNat, b.toNat_lt, UInt8.ofNat_toNat⟩

theorem i8_inverts : Inverts i8 (fun n => [n.toUInt8]) fun _ => True :=
  u8_inverts.map (fun b _ => ⟨trivial, by rw [b.toUInt8_toInt8]⟩) fun n _ => ⟨n.toUInt8, trivial, n.toInt8_toUInt8⟩

theorem u16_inverts : Inverts u16 (fun n => littleEndian 2 n.toNat) fun _ => True :=
  (number_inverts 2).map (fun n hn => ⟨trivial, by rw [UInt16.toNat_ofNat', Nat.mod_eq_of_lt (b := 2 ^ 16) hn]⟩)
    fun n _ => ⟨n.toNat, n.toNat_lt, UInt16.ofNat_toNat⟩

theorem u32_inverts : Inverts u32 (fun n => littleEndian 4 n.toNat) fun _ => True :=
  (number_inverts 4).map (fun n hn => ⟨trivial, by rw [UInt32.toNat_ofNat', Nat.mod_eq_of_lt (b := 2 ^ 32) hn]⟩)
    fun n _ => ⟨n.toNat, n.toNat_lt, UInt32.ofNat_toNat⟩

theorem i32_inverts : Inverts i32 (fun n => littleEndian 4 n.toUInt32.toNat) fun _ => True :=
  u32_inverts.map (fun n _ => ⟨trivial, by rw [n.toUInt32_toInt32]⟩) fun n _ =>
    ⟨n.toUInt32, trivial, n.toInt32_toUInt32⟩

theorem f64_inverts : Inverts f64 (fun d => littleEndian 8 d.bits.toNat) fun _ => True :=
  (number_inverts 8).map (fun n hn => ⟨trivial, by rw [UInt64.toNat_ofNat', Nat.mod_eq_of_lt (b := 2 ^ 64) hn]⟩)
    fun d _ => ⟨d.bits.toNat, d.bits.toNat_lt, by rw [UInt64.ofNat_toNat]⟩

theorem opcode_inverts : Inverts opcode (fun op => [op.byte]) fun _ => True := by
  intro c op c'
  simp only [opcode, bind, EStateM.bind, get, getThe, MonadStateOf.get, EStateM.get]
  constructor
  · intro h
    split at h
    · rename_i byte c₁ hbyte
      obtain ⟨_, hrest⟩ := (u8_inverts c byte c₁).mp hbyte
      cases ho : Opcode.ofByte? byte with
      | none => rw [ho] at h; cases h
      | some op' =>
        rw [ho] at h
        cases h
        rw [← Opcode.ofByte?_eq_some_iff.mp ho] at hrest
        exact ⟨trivial, hrest⟩
    · cases h
  · rintro ⟨_, hrest⟩
    rw [(u8_inverts c op.byte c').mpr ⟨trivial, hrest⟩]
    simp only [Opcode.ofByte?_byte]
    rfl

end Cursor

/-! ## Operands -/

/-- A jump from the offset stays in a code of that length, and its distance is a number of thirty-two bits. -/
def Operand.Lands (length offset : Nat) (o : Operand) : Prop :=
  ∀ target, o = .jump target → target < length ∧ (displacement offset target).toInt = (target : Int) - offset

theorem Operand.lands_of_format {o : Operand} (h : o.format ≠ .jump) (length offset : Nat) : o.Lands length offset := by
  rintro target rfl
  exact absurd rfl h

theorem displacement_of_reach {offset : Nat} {d : Int32} (h : 0 ≤ (offset : Int) + d.toInt) :
    displacement offset ((offset : Int) + d.toInt).toNat = d := by
  have hdistance : (offset : Int) + d.toInt - offset = d.toInt := by omega
  rw [displacement, Int.toNat_of_nonneg h, hdistance, Int32.ofInt_toInt]

namespace Cursor

theorem jump_inverts (length offset : Nat) :
    Inverts (operand length offset .jump) (Operand.encode offset) fun o =>
      o.format = .jump ∧ o.Lands length offset := by
  intro c o c'
  simp only [operand, bind, EStateM.bind]
  constructor
  · intro h
    split at h
    · rename_i d c₁ hd
      split at h
      · rename_i hrange
        cases h
        have hback := displacement_of_reach hrange.1
        refine ⟨⟨rfl, fun target ht => ?_⟩, ?_⟩
        · cases ht
          rw [hback]
          omega
        · simp only [Operand.encode, hback]
          exact ((i32_inverts c d c').mp hd).2
      · cases h
    · cases h
  · rintro ⟨⟨hformat, hlands⟩, hbytes⟩
    cases o with
    | jump target =>
      obtain ⟨hlt, hreach⟩ := hlands target rfl
      rw [(i32_inverts c (displacement offset target) c').mpr ⟨trivial, hbytes⟩]
      simp only [hreach]
      rw [if_pos (by omega), show ((offset : Int) + (target - offset)).toNat = target by omega]
      rfl
    | _ => cases hformat

/-- An operand is read where its bytes are. -/
theorem operand_inverts (length offset : Nat) (f : OperandFormat) :
    Inverts (operand length offset f) (Operand.encode offset) fun o => o.format = f ∧ o.Lands length offset := by
  have hlands (o : Operand) (h : o.format ≠ .jump) := o.lands_of_format h length offset
  cases f with
  | none =>
    intro c o c'
    constructor
    · intro h
      cases h
      exact ⟨⟨rfl, hlands _ nofun⟩, rfl, rfl⟩
    · rintro ⟨⟨hformat, _⟩, hrest, hpos⟩
      cases o <;> cases hformat
      obtain ⟨rest, position⟩ := c
      cases hrest
      cases hpos
      rfl
  | i8 =>
    exact i8_inverts.map (fun n _ => ⟨⟨rfl, hlands _ nofun⟩, rfl⟩) fun o h => by
      cases o <;> cases h.1; exact ⟨_, trivial, rfl⟩
  | u16 =>
    exact u16_inverts.map (fun n _ => ⟨⟨rfl, hlands _ nofun⟩, rfl⟩) fun o h => by
      cases o <;> cases h.1; exact ⟨_, trivial, rfl⟩
  | i32 =>
    exact i32_inverts.map (fun n _ => ⟨⟨rfl, hlands _ nofun⟩, rfl⟩) fun o h => by
      cases o <;> cases h.1; exact ⟨_, trivial, rfl⟩
  | u32 =>
    exact u32_inverts.map (fun n _ => ⟨⟨rfl, hlands _ nofun⟩, rfl⟩) fun o h => by
      cases o <;> cases h.1; exact ⟨_, trivial, rfl⟩
  | f64 =>
    exact f64_inverts.map (fun n _ => ⟨⟨rfl, hlands _ nofun⟩, rfl⟩) fun o h => by
      cases o <;> cases h.1; exact ⟨_, trivial, rfl⟩
  | jump => exact jump_inverts length offset

end Cursor

/-! ## Instructions -/

theorem Operand.length_encode (offset : Nat) (o : Operand) : (o.encode offset).length = o.format.size := by
  cases o <;> simp [encode, format, OperandFormat.size, length_littleEndian]

namespace Instruction

/-- The instruction can be written in a code of that length: its size is that of its bytes, its operand is of the format
    of its opcode, and a jump can get to its target. -/
structure Encodable (length : Nat) (i : Instruction) : Prop where
  size : i.size = i.encode.length
  format : i.operand.format = i.opcode.format
  lands : i.operand.Lands length i.offset

theorem length_encode {i : Instruction} (h : i.operand.format = i.opcode.format) :
    i.encode.length = i.opcode.length := by
  rw [encode, List.length_cons, Operand.length_encode, h, Opcode.length, Nat.add_comm]

theorem Encodable.next {length : Nat} {i : Instruction} (h : i.Encodable length) :
    i.next = i.offset + i.encode.length := by
  rw [Instruction.next, length_encode h.format]

/-- The instruction at a cursor is the one whose bytes lie ahead. -/
theorem read_iff_encode {length : Nat} {c c' : Cursor} {i : Instruction} : Cursor.instruction length c = .ok i c' ↔
    i.offset = c.position ∧ i.Encodable length ∧ c.rest = i.encode ++ c'.rest ∧
      c'.position = c.position + i.encode.length := by
  simp only [Cursor.instruction, bind, EStateM.bind, get, getThe, MonadStateOf.get, EStateM.get]
  constructor
  · intro h
    split at h
    · rename_i op c₁ hop
      obtain ⟨_, hrest, hpos⟩ := (Cursor.opcode_inverts c op c₁).mp hop
      split at h
      · rename_i o c₂ ho
        obtain ⟨⟨hformat, hlands⟩, hrest', hpos'⟩ := (Cursor.operand_inverts _ _ _ c₁ o c₂).mp ho
        cases h
        have hnext : c'.position = c.position + (encode ⟨c.position, op, o, c'.position - c.position⟩).length := by
          rw [hpos', hpos]
          simp only [encode, List.length_cons, List.length_nil]
          omega
        refine ⟨rfl, ⟨?_, hformat, hlands⟩, ?_, hnext⟩
        · exact Nat.sub_eq_of_eq_add' hnext
        · rw [hrest, hrest']
          rfl
      · cases h
    · cases h
  · rintro ⟨hoffset, henc, hrest, hpos⟩
    obtain ⟨offset, op, o, size⟩ := i
    obtain rfl : offset = c.position := hoffset
    have hop : Cursor.opcode c = .ok op ⟨o.encode c.position ++ c'.rest, c.position + 1⟩ :=
      (Cursor.opcode_inverts _ _ _).mpr ⟨trivial, hrest, rfl⟩
    have ho : Cursor.operand length c.position op.format ⟨o.encode c.position ++ c'.rest, c.position + 1⟩ =
        .ok o c' := by
      refine (Cursor.operand_inverts _ _ _ _ _ _).mpr ⟨⟨henc.format, henc.lands⟩, rfl, ?_⟩
      rw [hpos]
      simp only [encode, List.length_cons]
      omega
    have hsize : c'.position - c.position = size := by rw [hpos, Nat.add_sub_cancel_left]; exact henc.size.symm
    rw [hop]
    simp only [ho]
    rw [← hsize]
    rfl

/-- The instruction at an offset is the one whose bytes are there. -/
theorem decodeAt_iff_encode {code : List UInt8} {offset : Nat} {i : Instruction} :
    decodeAt code offset = .ok i ↔ i.offset = offset ∧ i.Encodable code.length ∧ i.encode <+: code.drop offset := by
  have hhead : decodeAt code offset = .ok i ↔ ∃ c',
      Cursor.instruction code.length (Cursor.start code offset) = .ok i c' := by
    unfold decodeAt decodeHead
    split
    · rename_i j c' hj
      rw [hj]
      exact ⟨fun h => ⟨c', by cases h; rfl⟩, fun ⟨_, h⟩ => by cases h; rfl⟩
    · rename_i e c' he
      rw [he]
      exact ⟨nofun, nofun⟩
  rw [hhead]
  constructor
  · rintro ⟨c', h⟩
    obtain ⟨hoffset, henc, hrest, _⟩ := read_iff_encode.mp h
    exact ⟨hoffset, henc, c'.rest, hrest.symm⟩
  · rintro ⟨hoffset, henc, rest, hrest⟩
    exact ⟨⟨rest, offset + i.encode.length⟩, read_iff_encode.mpr ⟨hoffset, henc, hrest.symm, rfl⟩⟩

/-! ## Whole codes -/

def encodeAll (is : List Instruction) : List UInt8 := is.flatMap encode

/-- The instructions spell the code: each begins where the sizes of those before it end, the last one ends where the
    code does, each can be written in a code of that length, and their bytes are the code. -/
structure Spells (is : List Instruction) (code : List UInt8) : Prop where
  offsets : ∀ k i, is[k]? = some i → i.offset = ((is.take k).map Instruction.size).sum
  ends : (is.map Instruction.size).sum = code.length
  encodable : ∀ i ∈ is, i.Encodable code.length
  bytes : encodeAll is = code

theorem sum_sizes {length : Nat} {is : List Instruction} (h : ∀ i ∈ is, i.Encodable length) :
    (is.map Instruction.size).sum = (encodeAll is).length := by
  rw [encodeAll, List.length_flatMap]
  exact congrArg List.sum (List.map_congr_left fun i hi => (h i hi).size)

/-- Instructions that follow one another from an offset on spell the rest of the code. -/
theorem tiles_iff_encode {code : List UInt8} {is : List Instruction} {offset : Nat} (hle : offset ≤ code.length) :
    Tiles code offset is ↔ (∀ k i, is[k]? = some i → i.offset = offset + ((is.take k).map Instruction.size).sum) ∧
      (∀ i ∈ is, i.Encodable code.length) ∧ encodeAll is = code.drop offset := by
  induction is generalizing offset with
  | nil =>
    constructor
    · rintro rfl
      refine ⟨fun _ _ hk => ?_, fun _ hi => ?_, List.drop_length.symm⟩
      · cases hk
      · cases hi
    · rintro ⟨_, _, hbytes⟩
      have := List.drop_eq_nil_iff.mp hbytes.symm
      exact Nat.le_antisymm hle this
  | cons i is ih =>
    rw [Tiles, decodeAt_iff_encode]
    constructor
    · rintro ⟨⟨rfl, henc, rest, hrest⟩, htiles⟩
      have hnext := henc.next
      have hbytes : i.offset + i.encode.length ≤ code.length := by
        have := congrArg List.length hrest
        simp only [List.length_append, List.length_drop] at this
        omega
      obtain ⟨hoffsets, hall, hflat⟩ := (ih (hnext ▸ hbytes)).mp htiles
      refine ⟨fun k j hk => ?_, ?_, ?_⟩
      · cases k with
        | zero =>
          cases hk
          rfl
        | succ k =>
          rw [hoffsets k j hk, hnext, List.take_succ_cons, List.map_cons, List.sum_cons, henc.size, Nat.add_assoc]
      · rintro j (_ | ⟨_, hj⟩)
        · exact henc
        · exact hall j hj
      · rw [hnext, ← List.drop_drop, ← hrest, List.drop_left] at hflat
        rw [← hrest, ← hflat]
        rfl
    · rintro ⟨hoffsets, hall, hflat⟩
      have henc := hall i List.mem_cons_self
      have hoffset : i.offset = offset := hoffsets 0 i rfl
      subst hoffset
      have hsplit : i.encode ++ encodeAll is = code.drop i.offset := hflat
      have hnext := henc.next
      have hbytes : i.next ≤ code.length := by
        have := congrArg List.length hsplit
        simp only [List.length_append, List.length_drop] at this
        omega
      refine ⟨⟨rfl, henc, _, hsplit⟩, (ih hbytes).mpr
        ⟨fun k j hk => ?_, fun j hj => hall j (List.mem_cons_of_mem _ hj), ?_⟩⟩
      · rw [hoffsets (k + 1) j hk, hnext, List.take_succ_cons, List.map_cons, List.sum_cons, henc.size, Nat.add_assoc]
      · rw [hnext, ← List.drop_drop, ← hsplit, List.drop_left]

theorem decode_iff_spells {code : List UInt8} {is : List Instruction} : decode code = .ok is ↔ Spells is code := by
  rw [decode_iff_tiles, tiles_iff_encode (Nat.zero_le _)]
  constructor
  · rintro ⟨hoffsets, hall, hbytes⟩
    exact ⟨fun k i hk => (hoffsets k i hk).trans (Nat.zero_add _), by rw [sum_sizes hall, hbytes, List.drop_zero],
      hall, hbytes⟩
  · rintro ⟨hoffsets, _, hall, hbytes⟩
    exact ⟨fun k i hk => (hoffsets k i hk).trans (Nat.zero_add _).symm, hall, hbytes⟩

/-! ## Offsets -/

theorem offsetsFrom_skip (bytes : List UInt8) (offset skip : Nat) (h : skip ≤ bytes.length) :
    offsetsFrom bytes offset skip = offsetsFrom (bytes.drop skip) (offset + skip) 0 := by
  induction bytes generalizing offset skip with
  | nil =>
    rw [List.length_nil, Nat.le_zero] at h
    subst h
    rfl
  | cons b rest ih =>
    cases skip with
    | zero => rfl
    | succ skip =>
      rw [offsetsFrom, ih (offset + 1) skip (Nat.le_of_succ_le_succ h), List.drop_succ_cons, Nat.add_assoc,
        Nat.add_comm 1 skip]

/-- Stepping by the lengths of the opcodes meets the instructions that lie one after the other. -/
theorem Tiles.offsetsFrom {code : List UInt8} {is : List Instruction} {offset : Nat} (h : Tiles code offset is) :
    Instruction.offsetsFrom (code.drop offset) offset 0 = is.map Instruction.offset := by
  induction is generalizing offset with
  | nil =>
    rw [show offset = code.length from h, List.drop_length]
    rfl
  | cons i is ih =>
    obtain ⟨rfl, henc, rest, hrest⟩ := decodeAt_iff_encode.mp h.1
    have hlength : i.encode.length = i.opcode.length := length_encode henc.format
    have hcons : i.opcode.byte :: (i.operand.encode i.offset ++ rest) = code.drop i.offset := hrest
    have hskip : i.opcode.length - 1 = (i.operand.encode i.offset).length := by
      rw [← hlength, encode, List.length_cons, Nat.add_sub_cancel]
    have hdrop : code.drop i.next = rest := by
      rw [henc.next, ← List.drop_drop, ← hrest, List.drop_left]
    have hnext : i.offset + 1 + (i.operand.encode i.offset).length = i.next := by
      rw [henc.next, encode, List.length_cons]
      omega
    rw [← hcons, Instruction.offsetsFrom, Opcode.ofByte?_byte]
    simp only [Option.map_some, Option.getD_some, hskip]
    rw [offsetsFrom_skip _ _ _ (by simp), List.drop_left, hnext, ← hdrop, ih h.2, List.map_cons]

end Instruction

/-- The second walk over the code of a program, by the lengths of opcodes alone, meets the instructions that it is
    decoded to. -/
theorem Program.offsets_of_ofCode {name : String} {code : List UInt8} {slots args : Nat} {atoms : Array String}
    {p : Program} (h : ofCode name code slots args atoms = .ok p) :
    ∃ is, Instruction.decode p.code = .ok is ∧ p.offsets = is.map Instruction.offset := by
  have hv := verified_of_ofCode h
  exact ⟨p.instructions, Instruction.decode_iff_tiles.mpr hv.tiles, hv.tiles.offsetsFrom⟩

/-- In a code of at most 2 ^ 31 bytes every distance is a number of thirty-two bits. -/
theorem displacement_of_short {length offset target : Nat} (hlen : length ≤ 2 ^ 31) (ho : offset < length)
    (ht : target < length) :
    (displacement offset target).toInt = (target : Int) - offset :=
  Int32.toInt_ofInt_of_le (by omega) (by omega)

namespace Instruction

/-- Decoding accepts exactly what instructions spell, so it undoes encoding and encoding undoes it. That a jump can be
    written is no condition in a code of at most 2 ^ 31 bytes. The offsets of a program are those of its decoded
    instructions. -/
theorem decoding_inverts_encoding :
    (∀ code is, decode code = .ok is ↔ Spells is code) ∧
      (∀ is, Spells is (encodeAll is) → decode (encodeAll is) = .ok is) ∧
      (∀ code is, decode code = .ok is → encodeAll is = code) ∧
      (∀ length offset target, length ≤ 2 ^ 31 → offset < length → target < length →
        (Operand.jump target).Lands length offset) ∧
      ∀ name code slots args atoms p, Program.ofCode name code slots args atoms = .ok p →
        ∃ is, decode p.code = .ok is ∧ p.offsets = is.map Instruction.offset := by
  refine ⟨fun _ _ => decode_iff_spells, fun _ h => decode_iff_spells.mpr h,
    fun _ _ h => (decode_iff_spells.mp h).bytes, ?_,
    fun _ _ _ _ _ _ h => Program.offsets_of_ofCode h⟩
  intro length offset target hlen ho ht target' h
  cases h
  exact ⟨ht, displacement_of_short hlen ho ht⟩

def loopBytes : List UInt8 := [0x01, 0x0A, 0x42, 0xFE, 0xFF, 0xFF, 0xFF, 0x10, 0, 0, 0, 0, 0, 0, 0xF8, 0x3F, 0x60]

theorem decoding_inverts_encoding_loopBytes :
    ∃ is p, decode loopBytes = .ok is ∧ Spells is loopBytes ∧ encodeAll is = loopBytes ∧ Operand.Lands 17 2 (.jump 0) ∧
      Program.ofCode "f" loopBytes 0 0 #[] = .ok p ∧
        (∃ is, decode p.code = .ok is ∧ p.offsets = is.map Instruction.offset) ∧
      p.offsets = [0, 1, 2, 7, 16] := by
  obtain ⟨hspells, _, hbytes, hlands, hoffsets⟩ := decoding_inverts_encoding
  have hp : ∃ p, Program.ofCode "f" loopBytes 0 0 #[] = .ok p ∧ p.offsets = [0, 1, 2, 7, 16] := ⟨_, rfl, rfl⟩
  have hd : ∃ is, decode loopBytes = .ok is := ⟨_, rfl⟩
  obtain ⟨p, hp, hlist⟩ := hp
  obtain ⟨is, hd⟩ := hd
  exact ⟨is, p, hd, (hspells _ _).mp hd, hbytes _ _ hd, hlands 17 2 0 (by decide) (by decide) (by decide), hp,
    hoffsets _ _ _ _ _ _ hp, hlist⟩

end Instruction
end BaselineTier
