/-
  BaselineTier.Proofs.Unreachable — code that is never reached leaves no trace.

  Decoding an instruction looks at its own bytes only (`decodeAt_congr`). So where two
  accepted programs of one length have the same bytes wherever the first reaches an
  instruction (`Program.Matches`), they reach the same instructions with the same depths,
  however the bytes between are cut up: the walk follows nothing else. An exact map is
  settled by what is reached (`Exact.unique`), and lowering passes over the rest, as control
  never falls into it (`lowerEach_filter`).
-/

import BaselineTier.Proofs.Body

namespace BaselineTier

/-! ## Decoding -/

namespace Cursor

variable {α γ : Type}

def Peruses (r : Read α) (count : Nat) : Prop :=
  ∀ c c₁ a c', r c = .ok a c' → c₁.position = c.position → c₁.rest.take count = c.rest.take count →
    r c₁ = .ok a ⟨c₁.rest.drop count, c₁.position + count⟩

theorem take_peruses (count : Nat) : Peruses (take count) count := by
  intro c c₁ bytes c' h _ hrest
  simp only [take] at h ⊢
  split at h
  · rename_i hlen
    cases h
    rw [if_pos (by rw [hrest]; exact hlen), hrest]
  · cases h

theorem map_peruses {r : Read α} {count : Nat} (f : α → γ) (h : Peruses r count) : Peruses (f <$> r) count := by
  intro c c₁ b c' hr hpos hrest
  simp only [Functor.map, EStateM.map] at hr ⊢
  split at hr
  · rename_i a c₂ ha
    cases hr
    rw [h c c₁ a _ ha hpos hrest]
  · cases hr

theorem number_peruses (count : Nat) : Peruses (number count) count := map_peruses _ (take_peruses count)

theorem u8_peruses : Peruses u8 1 := map_peruses _ (number_peruses 1)

theorem i32_peruses : Peruses i32 4 := map_peruses _ (map_peruses _ (number_peruses 4))

theorem opcode_peruses : Peruses opcode 1 := by
  intro c c₁ op c' h hpos hrest
  simp only [opcode, bind, EStateM.bind, get, getThe, MonadStateOf.get, EStateM.get] at h ⊢
  split at h
  · rename_i byte c₂ hb
    rw [u8_peruses c c₁ byte c₂ hb hpos hrest]
    cases ho : Opcode.ofByte? byte with
    | none => rw [ho] at h; cases h
    | some op' =>
      rw [ho] at h
      cases h
      simp only [ho]
      rfl
  · cases h

theorem operand_peruses (length offset : Nat) (f : OperandFormat) : Peruses (operand length offset f) f.size := by
  cases f with
  | none =>
    intro c c₁ a c' h _ _
    cases h
    rfl
  | i8 => exact map_peruses _ (map_peruses _ u8_peruses)
  | u16 => exact map_peruses _ (map_peruses _ (number_peruses 2))
  | i32 => exact map_peruses _ i32_peruses
  | u32 => exact map_peruses _ (map_peruses _ (number_peruses 4))
  | f64 => exact map_peruses _ (map_peruses _ (number_peruses 8))
  | jump =>
    intro c c₁ a c' h hpos hrest
    simp only [operand, bind, EStateM.bind] at h ⊢
    split at h
    · rename_i distance c₂ hd
      rw [i32_peruses c c₁ distance c₂ hd hpos hrest]
      split at h
      · rename_i hin
        cases h
        simp only [if_pos hin]
        rfl
      · cases h
    · cases h

end Cursor

namespace Instruction

/-- The instruction at a cursor depends on no byte after it. -/
theorem decodeHead_congr {length : Nat} {c c₁ : Cursor} {i : Instruction} (h : decodeHead length c = .ok i)
    (hpos : c₁.position = c.position) (hrest : c₁.rest.take i.opcode.length = c.rest.take i.opcode.length) :
    decodeHead length c₁ = .ok i := by
  unfold decodeHead at h ⊢
  split at h
  · rename_i j c' hj
    cases h
    simp only [Cursor.instruction, bind, EStateM.bind, get, getThe, MonadStateOf.get, EStateM.get] at hj ⊢
    split at hj
    · rename_i op c₂ hop
      split at hj
      · rename_i o c₃ ho
        cases hj
        simp only [Opcode.length] at hrest
        have h₁ : c₁.rest.take 1 = c.rest.take 1 := by
          have := congrArg (List.take 1) hrest
          rwa [List.take_take, List.take_take, Nat.min_eq_left (by omega)] at this
        obtain ⟨-, rfl⟩ := Cursor.opcode_advances _ _ _ hop
        have h₂ : (c₁.rest.drop 1).take op.format.size = (c.rest.drop 1).take op.format.size := by
          have := congrArg (List.drop 1) hrest
          rwa [List.drop_take, List.drop_take, Nat.add_sub_cancel_left] at this
        obtain ⟨-, rfl⟩ := Cursor.operand_advances _ _ _ _ _ _ ho
        rw [Cursor.opcode_peruses c c₁ op _ hop hpos h₁]
        simp only [hpos]
        rw [Cursor.operand_peruses _ _ _ _ ⟨c₁.rest.drop 1, c.position + 1⟩ o _ ho rfl h₂]
        rfl
      · cases hj
    · cases hj
  · cases h

/-- The instruction at an offset depends on its own bytes only. -/
theorem decodeAt_congr {code code' : List UInt8} {offset : Nat} {i : Instruction} (h : decodeAt code offset = .ok i)
    (hlen : code'.length = code.length) (hbytes : ∀ k < i.next, offset ≤ k → code'[k]? = code[k]?) :
    decodeAt code' offset = .ok i := by
  have ho := (decodeAt_ok h).1
  unfold decodeAt at h ⊢
  rw [hlen]
  refine decodeHead_congr h rfl (List.ext_getElem? fun k => ?_)
  simp only [Cursor.start, List.getElem?_take, List.getElem?_drop]
  split
  · exact hbytes (offset + k) (by unfold next; omega) (by omega)
  · rfl

end Instruction

/-! ## The map -/

namespace StackMap

variable {l : Limits} {code : List UInt8} {is is' : List Instruction} {m m' : StackMap}

theorem size_of_verify (h : verify l code = .ok m) : m.infos.size = code.length := by
  obtain ⟨-, is, w, -, hw, -, rfl⟩ := verify_ok h
  exact hw.size

/-- What an exact map says about an offset is said by every exact map of the same reachable instructions. -/
theorem Exact.info_le (h : Exact is m) (h' : Exact is' m')
    (hreach : ∀ offset depth, Reaches is offset depth → Reaches is' offset depth)
    (hjump : ∀ offset, m.isJumpTarget offset = m'.isJumpTarget offset) {offset : Nat} {info : Info}
    (hinfo : m.info? offset = some info) : m'.info? offset = some info := by
  obtain ⟨info', hinfo', hdepth⟩ := (h'.depth offset info.depth).mpr
    (hreach _ _ ((h.depth offset info.depth).mp ⟨info, hinfo, rfl⟩))
  have htarget := hjump offset
  rw [isJumpTarget, isJumpTarget, hinfo, hinfo'] at htarget
  rw [hinfo', Option.some.injEq]
  cases info
  cases info'
  exact congr (congrArg Info.mk hdepth) htarget.symm

theorem Exact.deepest_le (h : Exact is m) (h' : Exact is' m')
    (hreach : ∀ offset depth, Reaches is offset depth → Reaches is' offset depth)
    (hmem : ∀ i depth, Reaches is i.offset depth → i ∈ is → i ∈ is') : m.deepest ≤ m'.deepest := by
  obtain ⟨i, hi, depth, hr, hd⟩ := h.attained
  have := h'.bound i (hmem i depth hr hi) depth (hreach _ _ hr)
  omega

/-- Two lists of instructions of which the same ones can be reached, with the same depths, have the same exact map. -/
theorem Exact.unique (h : Exact is m) (h' : Exact is' m') (hsize : m.infos.size = m'.infos.size)
    (hreach : ∀ offset depth, Reaches is offset depth ↔ Reaches is' offset depth)
    (hmem : ∀ i depth, Reaches is i.offset depth → (i ∈ is ↔ i ∈ is')) : m = m' := by
  have hjump (offset : Nat) : m.isJumpTarget offset = m'.isJumpTarget offset := by
    rw [Bool.eq_iff_iff, h.jump, h'.jump]
    constructor
    · rintro ⟨i, hi, depth, hr, ht⟩
      exact ⟨i, (hmem i depth hr).mp hi, depth, (hreach _ _).mp hr, ht⟩
    · rintro ⟨i, hi, depth, hr, ht⟩
      have hr := (hreach _ _).mpr hr
      exact ⟨i, (hmem i depth hr).mpr hi, depth, hr, ht⟩
  have hinfo (offset : Nat) : m.info? offset = m'.info? offset := by
    refine Option.ext fun info => ⟨fun hi => ?_, fun hi => ?_⟩
    · exact h.info_le h' (fun o d => (hreach o d).mp) hjump hi
    · exact h'.info_le h (fun o d => (hreach o d).mpr) (fun o => (hjump o).symm) hi
  have hdeep : m.deepest = m'.deepest := by
    refine Nat.le_antisymm ?_ ?_
    · exact h.deepest_le h' (fun o d => (hreach o d).mp) fun i depth hr => (hmem i depth hr).mp
    · exact h'.deepest_le h (fun o d => (hreach o d).mpr) fun i depth hr => (hmem i depth ((hreach _ _).mpr hr)).mpr
  have hinfos : m.infos = m'.infos := by
    refine Array.ext hsize fun k hk hk' => ?_
    have := hinfo k
    rwa [info?, info?, Array.getElem?_eq_getElem hk, Array.getElem?_eq_getElem hk'] at this
  cases m
  cases m'
  exact congr (congrArg StackMap.mk hinfos) hdeep

end StackMap

/-! ## What is reached -/

namespace Program

/-- Programs whose codes are of one length and have the same bytes wherever the first reaches an instruction. -/
structure Matches (p p' : Program) : Prop where
  verified : p.Verified
  other : p'.Verified
  length : p'.length = p.length
  bytes : ∀ i ∈ p.instructions, p.stackMap.isReachable i.offset = true → ∀ k < i.next, i.offset ≤ k →
    p'.code[k]? = p.code[k]?

namespace Matches

variable {p p' : Program}

/-- A reachable instruction of the first is what the second decodes there. -/
theorem decodeAt (h : p.Matches p') {i : Instruction} (hi : i ∈ p.instructions) {depth : Nat}
    (hr : StackMap.Reaches p.instructions i.offset depth) : Instruction.decodeAt p'.code i.offset = .ok i := by
  obtain ⟨info, hinfo⟩ := h.verified.exists_info hr
  refine Instruction.decodeAt_congr (h.verified.tiles.decodeAt i hi) h.length (h.bytes i hi ?_)
  rw [StackMap.isReachable, hinfo]
  rfl

theorem mem_of_reaches (h : p.Matches p') {i : Instruction} {depth : Nat}
    (hr : StackMap.Reaches p.instructions i.offset depth) (hr' : StackMap.Reaches p'.instructions i.offset depth) :
    i ∈ p.instructions ↔ i ∈ p'.instructions := by
  obtain ⟨info, hinfo⟩ := h.verified.exists_info hr
  obtain ⟨info', hinfo'⟩ := h.other.exists_info hr'
  obtain ⟨j, hj, hjo⟩ := h.verified.instruction hinfo
  obtain ⟨j', hj', hjo'⟩ := h.other.instruction hinfo'
  have hjj' : j = j' := by
    have hd := h.decodeAt hj (hjo ▸ hr)
    have hd' := h.other.tiles.decodeAt j' hj'
    rw [hjo, ← hjo', hd'] at hd
    cases hd
    rfl
  subst hjj'
  constructor
  · intro hi
    rw [h.verified.tiles.eq_of_offset hi hj hjo.symm]
    exact hj'
  · intro hi
    rw [h.other.tiles.eq_of_offset hi hj' hjo.symm]
    exact hj

/-- The same offsets can be reached, with the same depths. -/
theorem reaches (h : p.Matches p') (offset depth : Nat) :
    StackMap.Reaches p.instructions offset depth ↔ StackMap.Reaches p'.instructions offset depth := by
  constructor
  · intro hr
    induction hr with
    | start => exact .start
    | jump hi hr hpops ht ih => exact .jump ((h.mem_of_reaches hr ih).mp hi) ih hpops ht
    | next hi hr hpops hf ih => exact .next ((h.mem_of_reaches hr ih).mp hi) ih hpops hf
  · intro hr
    induction hr with
    | start => exact .start
    | jump hi hr hpops ht ih => exact .jump ((h.mem_of_reaches ih hr).mpr hi) ih hpops ht
    | next hi hr hpops hf ih => exact .next ((h.mem_of_reaches ih hr).mpr hi) ih hpops hf

theorem mem_iff (h : p.Matches p') (i : Instruction) (depth : Nat)
    (hr : StackMap.Reaches p.instructions i.offset depth) :
    i ∈ p.instructions ↔ i ∈ p'.instructions := h.mem_of_reaches hr ((h.reaches _ _).mp hr)

end Matches

/-- An accepted program is made of what it was made from. -/
theorem ofCode_ok {name : String} {code : List UInt8} {slots args : Nat} {atoms : Array String} {p : Program}
    (h : ofCode name code slots args atoms = .ok p) :
    StackMap.verify ⟨slots, args, atoms.size⟩ code = .ok p.stackMap ∧ p.code = code ∧ p.slots = slots ∧ p.args = args ∧
      p.atoms = atoms := by
  obtain ⟨m, is, hv, _, rfl⟩ := eq_of_ofCode h
  exact ⟨hv, rfl, rfl, rfl, rfl⟩

theorem Verified.needsArguments_eq_false {p : Program} (h : p.Verified)
    (hargs : ∀ i ∈ p.instructions, i.opcode ≠ .arguments) :
    p.needsArguments = false := by
  rw [h.arguments, List.any_eq_false]
  intro i hi
  simpa using hargs i hi

def reachable (p : Program) : List Instruction := p.instructions.filter fun i => p.stackMap.isReachable i.offset

variable {p p' : Program}

theorem Verified.pairwise_reachable (h : p.Verified) : p.reachable.Pairwise fun i j => i.next ≤ j.offset :=
  h.tiles.pairwise.filter _

theorem Verified.nodup_reachable (h : p.Verified) : p.reachable.Nodup := by
  refine h.pairwise_reachable.imp fun {i j} hlt he => ?_
  have := i.offset_lt_next
  rw [he] at this hlt
  omega

theorem Verified.mem_reachable_iff (h : p.Verified) (i : Instruction) :
    i ∈ p.reachable ↔ i ∈ p.instructions ∧ ∃ depth, StackMap.Reaches p.instructions i.offset depth := by
  rw [reachable, List.mem_filter, StackMap.isReachable]
  refine and_congr_right fun _ => ⟨fun hr => ?_, fun hreaches => ?_⟩
  · obtain ⟨info, hinfo⟩ := Option.isSome_iff_exists.mp hr
    exact ⟨info.depth, h.reaches hinfo⟩
  · obtain ⟨depth, hr⟩ := hreaches
    obtain ⟨info, hinfo⟩ := h.exists_info hr
    rw [hinfo]
    rfl

theorem Matches.reachable_eq (h : p.Matches p') : p.reachable = p'.reachable := by
  refine List.Perm.eq_of_pairwise ?_ h.verified.pairwise_reachable h.other.pairwise_reachable ?_
  · intro i j _ _ hij hji
    have := i.offset_lt_next
    have := j.offset_lt_next
    omega
  · rw [List.perm_ext_iff_of_nodup h.verified.nodup_reachable h.other.nodup_reachable]
    intro i
    rw [h.verified.mem_reachable_iff, h.other.mem_reachable_iff]
    constructor
    · rintro ⟨hi, depth, hr⟩
      exact ⟨(h.mem_iff i depth hr).mp hi, depth, (h.reaches _ _).mp hr⟩
    · rintro ⟨hi, depth, hr⟩
      have hr := (h.reaches _ _).mpr hr
      exact ⟨(h.mem_iff i depth hr).mpr hi, depth, hr⟩

end Program

/-! ## The code -/

namespace Compilation

variable {β : Type}

/-- Instructions that cannot be reached are passed over: control never falls into one. -/
theorem lowerEach_filter {job : Job β} (h : job.program.Verified) {is : List Instruction} {offset : Nat} {fell : Bool}
    (htiles : Instruction.Tiles job.program.code offset is) (hmem : ∀ i ∈ is, i ∈ job.program.instructions)
    (hfell : fell = true → job.program.stackMap.isReachable offset = true) :
    lowerEach job is fell = lowerEach job (is.filter fun i => job.program.stackMap.isReachable i.offset) fell := by
  induction is generalizing offset fell with
  | nil => rfl
  | cons i rest ih =>
    obtain ⟨hdecode, htiles'⟩ := htiles
    have hoff := (Instruction.decodeAt_ok hdecode).1
    subst hoff
    have hrest : ∀ j ∈ rest, j ∈ job.program.instructions := fun j hj => hmem j (List.mem_cons_of_mem _ hj)
    cases hinfo : job.program.stackMap.info? i.offset with
    | none =>
      have hun : job.program.stackMap.isReachable i.offset = false := by rw [StackMap.isReachable, hinfo]; rfl
      have hnot : fell = false := by
        cases fell with
        | false => rfl
        | true => rw [hfell rfl] at hun; cases hun
      subst hnot
      rw [List.filter_cons_of_neg (by simp [hun])]
      simp only [lowerEach, hinfo]
      exact ih htiles' hrest fun hfell => absurd hfell Bool.false_ne_true
    | some info =>
      have hre : job.program.stackMap.isReachable i.offset = true := by rw [StackMap.isReachable, hinfo]; rfl
      rw [List.filter_cons_of_pos (by simpa using hre)]
      simp only [lowerEach, hinfo]
      rw [ih htiles' hrest fun hfalls => ?_]
      have hi := hmem i (by simp)
      obtain ⟨info', hinfo'⟩ := h.exists_info (.next hi (h.reaches hinfo) (h.admissible hi hinfo).pops hfalls)
      rw [StackMap.isReachable, hinfo']
      rfl

theorem lowerEach_congr {job job' : Job β} (hmap : job.program.stackMap = job'.program.stackMap)
    (hset : job.settings = job'.settings) {is : List Instruction} (h : ∀ i ∈ is, job.Alike job' i) (fell : Bool) :
    lowerEach job is fell = lowerEach job' is fell := by
  induction is generalizing fell with
  | nil => rfl
  | cons i rest ih =>
    have hrest := ih fun j hj => h j (List.mem_cons_of_mem _ hj)
    have hi := h i (by simp)
    unfold lowerEach
    simp only [hmap, hrest, arrive, meet, merge, Emit.label, hi.length, settle, hset, Lowering.lower_congr hi]

/-- The body is the code of what can be reached. -/
theorem body_reachable {job : Job β} (h : job.program.Verified) :
    lowerAll job job.program.offsets false = lowerEach job job.program.reachable false := by
  rw [lowerAll_offsets h]
  exact lowerEach_filter h h.tiles (fun _ hi => hi) nofun

/-- Emission sees of a job the reachable instructions, the map, the length, and what lowering sees. -/
theorem emission_congr {job job' : Job β} (h : job.program.Verified) (h' : job'.program.Verified)
    (hargs : job.program.needsArguments = job'.program.needsArguments)
    (hmap : job.program.stackMap = job'.program.stackMap) (hset : job.settings = job'.settings)
    (hreach : job.program.reachable = job'.program.reachable) (halike : ∀ i, job.Alike job' i) :
    emission job = emission job' := by
  have hbody : lowerAll job job.program.offsets false = lowerAll job' job'.program.offsets false := by
    rw [body_reachable h, body_reachable h', hreach]
    exact lowerEach_congr hmap hset (fun i _ => halike i) false
  have hlen : job.program.length = job'.program.length := (halike default).length
  have hslots : job.program.slots = job'.program.slots := (halike default).slots
  simp only [emission, start, check, makeLabels, prologue, body, hbody, hargs, hset, hlen, hslots]

/-- Code that is never reached leaves no trace: two programs that differ only there have the same stack map, and with
    the same names, settings, fallbacks and linker they compile to the same code, the same sites and the same stubs, or
    fail alike. -/
theorem unreachable_code_leaves_no_trace {name name' : String} {code code' : List UInt8} {slots args : Nat}
    {atoms : Array String} {p p' : Program} (hp : Program.ofCode name code slots args atoms = .ok p)
    (hp' : Program.ofCode name' code' slots args atoms = .ok p') (hlen : code'.length = code.length)
    (hargs : ∀ i ∈ p.instructions, i.opcode ≠ .arguments) (hargs' : ∀ i ∈ p'.instructions, i.opcode ≠ .arguments)
    (hbytes : ∀ i ∈ p.instructions, p.stackMap.isReachable i.offset = true → ∀ k < i.next, i.offset ≤ k →
      code'[k]? = code[k]?) :
    p.stackMap = p'.stackMap ∧
      ∀ (settings : Settings) (table : AtomTable) (factory : Factory β) {π : Type} (linker : Linker π) (pool : π),
      compile ⟨p, settings, table, factory⟩ linker pool = compile ⟨p', settings, table, factory⟩ linker pool := by
  have hv := Program.verified_of_ofCode hp
  have hv' := Program.verified_of_ofCode hp'
  obtain ⟨hm, rfl, rfl, rfl, hatoms⟩ := Program.ofCode_ok hp
  obtain ⟨hm', rfl, hs, hn, hatoms'⟩ := Program.ofCode_ok hp'
  have hmatch : p.Matches p' := ⟨hv, hv', hlen, hbytes⟩
  have hmap : p.stackMap = p'.stackMap := by
    refine hv.exact.unique hv'.exact ?_ hmatch.reaches hmatch.mem_iff
    rw [StackMap.size_of_verify hm, StackMap.size_of_verify hm', hlen]
  refine ⟨hmap, fun settings table factory π linker pool => ?_⟩
  have hnone : p.needsArguments = p'.needsArguments := by
    rw [hv.needsArguments_eq_false hargs, hv'.needsArguments_eq_false hargs']
  have hemit : emission ⟨p, settings, table, factory⟩ = emission ⟨p', settings, table, factory⟩ := by
    refine emission_congr hv hv' hnone hmap rfl hmatch.reachable_eq fun i =>
      ⟨hs.symm, hn.symm, hlen.symm, rfl, fun index _ => ?_⟩
    simp only [Emit.atom, Program.atomText?, hatoms, hatoms']
  simp only [compile, hemit]

def jumpOver (skipped : List UInt8) : List UInt8 := [0x40, 10, 0, 0, 0] ++ skipped ++ [0x0A, 0x60]

/-- What is jumped over may be three instructions, of which one names an argument that does not exist, or five. -/
theorem unreachable_code_leaves_no_trace_jumpOver :
    ∃ p p' : Program, Program.ofCode "f" (jumpOver [0x1A, 9, 0, 0x02, 0x02]) 0 0 #[] = .ok p ∧
      Program.ofCode "g" (jumpOver [0x20, 0x20, 0x20, 0x20, 0x20]) 0 0 #[] = .ok p' ∧ p.instructions.length = 6 ∧
      p'.instructions.length = 8 ∧ p.stackMap = p'.stackMap ∧
      compile ⟨p, {}, .empty, (StubBody.fallbacks : Factory (StubBody Unit))⟩ Linker.pool ⟨100, 0⟩ =
        compile ⟨p', {}, .empty, StubBody.fallbacks⟩ Linker.pool ⟨100, 0⟩ := by
  have h := @unreachable_code_leaves_no_trace (StubBody Unit) "f" "g" (jumpOver [0x1A, 9, 0, 0x02, 0x02])
    (jumpOver [0x20, 0x20, 0x20, 0x20, 0x20]) 0 0 #[] _ _ rfl rfl rfl (by decide) (by decide) (by decide)
  exact ⟨_, _, rfl, rfl, rfl, rfl, h.1, h.2 _ _ _ _ _⟩

end Compilation
end BaselineTier
