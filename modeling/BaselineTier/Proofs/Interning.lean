/-
  BaselineTier.Proofs.Interning — names on their way from the builder to the sites.

  A builder numbers the texts that it is given; building interns them into a table that may
  grow further; compiling asks the table for the atom of the text that an operand numbers.
  Whatever is asked of a builder (`Builder.Written`), the operands that were written as names
  or as numbers of names stay as they were (`Builder.Holding`), also while forward jumps
  beside them are pointed at their targets.

  Main statement: building refuses a reachable operand that numbers no name; compiling a
  program that was built never fails for want of a name; and each site and string constant of
  it carries an atom of the text that its instruction was written with (`names_survive`).
-/

import BaselineTier.Proofs.Assembly
import BaselineTier.Proofs.Bounds
import BaselineTier.Proofs.KnownNames

namespace BaselineTier

variable {α β : Type}

/-! ## What the code carries -/

def Opcode.namedKind? : Opcode → Option (Atom → SiteKind)
  | getName => some .getName
  | setName => some .setName
  | getGlobal => some .getGlobal
  | setGlobal => some .setGlobal
  | getProp => some .getProp
  | setProp => some .setProp
  | _ => none

theorem Opcode.format_of_hasAtom {opcode : Opcode} (h : opcode.hasAtom = true) : opcode.format = .u32 := by
  cases opcode <;> first | rfl | cases h

namespace Job

variable {job : Job β} {i : Instruction} {a : Atom}

/-- Whatever becomes of the instruction at an offset carries an atom: the string constant that it pushes, and its site,
    which has the offset to itself if offsets fit the 32 bits that sites keep of them. -/
structure Carries (job : Job β) (offset : Nat) (opcode : Opcode) (a : Atom) : Prop where
  constant : opcode = .pushString →
    ∃ i ∈ job.program.instructions, i.offset = offset ∧ Lowering.lower job i = Emit.push (.constant (.string a))
  site : ∀ pool m kind, (Compilation.compile job Linker.pool pool).1 = .ok m → opcode.namedKind? = some kind →
    ∃ site ∈ m.sites.toList, site.pc = UInt32.ofNat offset ∧ site.kind = kind a ∧
      (job.program.length < 2 ^ 32 → m.sitesAt offset = [site])

/-- An instruction that can be reached names one of the texts of the program; if they are interned, it has an atom. -/
theorem exists_atom (job : Job β) (hv : job.program.Verified)
    (hknown : ∀ text ∈ job.program.atoms.toList, (job.atoms.lookup text).isSome = true) (hi : i ∈ job.program.reachable)
    (hop : i.opcode.hasAtom = true) :
    ∃ n text a, i.u32? = some n ∧ job.program.atoms[n.toNat]? = some text ∧ job.atoms.lookup text = some a ∧
      job.name i = .ok a := by
  obtain ⟨hi, hreach⟩ := List.mem_filter.mp hi
  obtain ⟨info, hinfo⟩ := Option.isSome_iff_exists.mp hreach
  obtain ⟨n, hn⟩ := Lowering.u32_of_format ((hv.tiles.sound hi).2.format.trans (Opcode.format_of_hasAtom hop))
  have htext := Array.getElem?_eq_getElem (Lowering.atom_lt hop hn (hv.admissible hi hinfo).operand)
  obtain ⟨a, ha⟩ := Option.isSome_iff_exists.mp (hknown _
    (List.mem_of_getElem? (by rw [Array.getElem?_toList]; exact htext)))
  refine ⟨n, _, a, hn, htext, ha, ?_⟩
  simp only [Job.name, Job.atom, Program.atomText?, hn, Option.getD_some, htext, ha]

theorem kind?_of_name {kind : Atom → SiteKind} (hkind : i.opcode.namedKind? = some kind) (ha : job.name i = .ok a)
    (ts : Types) :
    job.kind? i ts = .ok (some (kind a)) := by
  unfold kind?
  generalize i.opcode = op at hkind ⊢
  cases op <;> cases hkind <;> rw [ha] <;> rfl

end Job

theorem Lowering.lower_pushString {job : Job β} {i : Instruction} {n : UInt32} {a : Atom} (hop : i.opcode = .pushString)
    (hn : i.u32? = some n) (ha : job.name i = .ok a) : lower job i = Emit.push (.constant (.string a)) := by
  rw [Job.name, hn] at ha
  funext d
  have hatom : Emit.atom job n d = .ok a d := by rw [atom_eq, show job.atom n = .ok a from ha]
  rw [lower_eq (r := string) (by rw [hop]; rfl), string, Emit.bind_eq (u32_ok hn), Emit.bind_eq hatom]

/-- Where no two are alike, what is like a member is the member. -/
theorem List.filter_eq_singleton {l : List α} {f : α → Nat} (h : (l.map f).Pairwise (· < ·)) {x : α} (hx : x ∈ l) :
    l.filter (f · == f x) = [x] := by
  obtain ⟨before, behind, rfl⟩ := List.append_of_mem hx
  rw [List.map_append, List.map_cons, List.pairwise_append] at h
  obtain ⟨_, hbehind, hbefore⟩ := h
  have hnone : before.filter (f · == f x) = [] := List.filter_eq_nil_iff.mpr fun y hy heq =>
    Nat.ne_of_lt (hbefore _ (List.mem_map_of_mem hy) _ List.mem_cons_self) (beq_iff_eq.mp heq)
  have hnone' : behind.filter (f · == f x) = [] := List.filter_eq_nil_iff.mpr fun y hy heq =>
    Nat.ne_of_gt ((List.pairwise_cons.mp hbehind).1 _ (List.mem_map_of_mem hy)) (beq_iff_eq.mp heq)
  rw [List.filter_append, List.filter_cons, if_pos (beq_self_eq_true _), hnone, hnone', List.nil_append]

namespace Compilation

variable {job : Job β} {pool : CodePool} {m : Method β} {i : Instruction} {kind : SiteKind}

/-- A reachable instruction that asks for a site, whatever is known of the stack, has one. -/
theorem exists_site (hv : job.program.Verified) (h : (compile job Linker.pool pool).1 = .ok m)
    (hi : i ∈ job.program.reachable) (hkind : ∀ ts, job.kind? i ts = .ok (some kind)) :
    ∃ site ∈ m.sites.toList, site.pc = UInt32.ofNat i.offset ∧ site.kind = kind ∧
      (job.program.length < 2 ^ 32 → m.sitesAt i.offset = [site]) := by
  obtain ⟨f, code, hf, _, rfl⟩ := compile_made h
  obtain ⟨_, _, _, _, hmap, _, _⟩ := emission_gains hv hf
  have hlog := (emission_aligned hv hf).1
  have hentry : (i.offset, kind) ∈ (stations job).filterMap (siteOf? job) := by
    rw [← hmap] at hi
    obtain ⟨s, hs, rfl⟩ := List.mem_map.mp hi
    exact List.mem_filterMap.mpr ⟨s, hs, by rw [siteOf?, hkind]; rfl⟩
  have hmem : (UInt32.ofNat i.offset, kind) ∈ f.sites.log := by
    rw [hlog]
    exact List.mem_map.mpr ⟨_, hentry, rfl⟩
  obtain ⟨site, hsite, hpair⟩ := List.mem_map.mp hmem
  obtain ⟨hpc, hk⟩ := Prod.mk.inj hpair
  refine ⟨site, hsite, hpc, hk, fun hlen => ?_⟩
  have hback {e : Nat × SiteKind} (he : e ∈ (stations job).filterMap (siteOf? job)) : (UInt32.ofNat e.1).toNat = e.1 :=
    UInt32.toNat_ofNat_of_lt' (Nat.lt_trans (entry_lt hv hmap he) hlen)
  have hpcs : (f.sites.sites.toList.map (·.pc.toNat)).Pairwise (· < ·) := by
    have heq : f.sites.sites.toList.map (·.pc.toNat) = ((stations job).filterMap (siteOf? job)).map Prod.fst := by
      calc f.sites.sites.toList.map (·.pc.toNat)
        _ = f.sites.log.map (·.1.toNat) := by rw [SiteTable.log, List.map_map]; rfl
        _ = ((stations job).filterMap (siteOf? job)).map fun e =>
          (UInt32.ofNat e.1).toNat := by rw [hlog, List.map_map]; rfl
        _ = ((stations job).filterMap (siteOf? job)).map Prod.fst := List.map_congr_left fun e he => hback he
    rw [heq]
    exact List.pairwise_map.mpr (pairwise_entries hv hmap)
  have hoffset : site.pc.toNat = i.offset := by rw [hpc]; exact hback hentry
  rw [← hoffset]
  exact List.filter_eq_singleton hpcs hsite

end Compilation

/-- An instruction that names an atom, where it can be reached. -/
theorem Job.carries_of_name {job : Job β} {i : Instruction} {n : UInt32} {a : Atom} (hv : job.program.Verified)
    (hi : i ∈ job.program.reachable) (hn : i.u32? = some n) (ha : job.name i = .ok a) :
    job.Carries i.offset i.opcode a :=
  ⟨fun hop => ⟨i, (List.mem_filter.mp hi).1, rfl, Lowering.lower_pushString hop hn ha⟩,
    fun _ _ _ hm hkind => Compilation.exists_site hv hm hi (kind?_of_name hkind ha)⟩

theorem Program.verify_of_breach {name : String} {code : List UInt8} {slots args : Nat} {atoms : Array String}
    {b : Breach} (h : ofCode name code slots args atoms = .error (.breach b)) :
    StackMap.verify ⟨slots, args, atoms.size⟩ code = .error (.breach b) := by
  unfold ofCode at h
  cases hm : StackMap.verify ⟨slots, args, atoms.size⟩ code with
  | error fault =>
    rw [hm] at h
    cases h
    rfl
  | ok m =>
    rw [hm] at h
    cases hd : Instruction.decode code <;> simp only [hd] at h <;> cases h

/-! ## What a builder is asked for -/

namespace Builder

def Step.referring? : Step → Option Opcode
  | .u32 opcode _ | .name opcode _ => some opcode
  | .string _ => some .pushString
  | _ => none

/-- The text is the one that a step gives, or whose number it gives. -/
def Step.Names (atoms : Array String) (text : String) : Step → Prop
  | .u32 _ n => atoms[n.toNat]? = some text
  | .name _ given | .string given => text = given
  | _ => False

/-- A builder that was put together step by step, with the steps and the offsets at which they were taken. In between,
    names may be numbered ahead of their use. Only a site that a forward jump has made is pointed at a target. -/
inductive Written : Builder → List (Nat × Step) → Prop
  | start : Written {} []
  | atom {b : Builder} {taken : List (Nat × Step)} (text : String) : Written b taken → Written (b.atom text).2 taken
  | step {b : Builder} {taken : List (Nat × Step)} (s : Step) : Written b taken →
      (∀ site, s = .bind site → ∃ opcode, (site.offset, .jump opcode) ∈ taken) →
      Written (b.step s) (taken ++ [(b.offset, s)])

theorem written_run {steps : List Step} (hmade : Made steps) : Written (run steps) (trail steps) := by
  induction steps using List.reverseRecOn with
  | nil => exact .start
  | append_singleton steps s ih =>
    rw [run_snoc, trail_snoc]
    refine .step s (ih hmade.init) fun site hs => ?_
    subst hs
    exact hmade.last

def reference (offset : Nat) (opcode : Opcode) (n : UInt32) : Instruction := ⟨offset, opcode, .u32 n, 5⟩

/-- The names are numbered, and the operands are where they were written. The bytes that may still change, those of
    forward jumps, lie apart from them. -/
structure Holding (b : Builder) (taken : List (Nat × Step)) : Prop where
  indexed : b.Indexed
  kept : ∀ {offset s opcode}, (offset, s) ∈ taken → s.referring? = some opcode →
    ∃ n, s.Denotes (Lists b.atoms) Eq (reference offset opcode n) ∧
      (reference offset opcode n).encode <+: b.bytes.drop offset
  room : ∀ {site jump}, (site, .jump jump) ∈ taken → site + 5 ≤ b.bytes.length
  apart : ∀ {site jump offset s opcode}, (site, .jump jump) ∈ taken → (offset, s) ∈ taken → s.referring? = some opcode →
    site + 5 ≤ offset ∨ offset + 5 ≤ site

variable {b b' : Builder} {taken : List (Nat × Step)} {offset : Nat} {s : Step} {opcode : Opcode} {n : UInt32}

theorem Holding.end_le (h : b.Holding taken) (hs : (offset, s) ∈ taken) (hop : s.referring? = some opcode) :
    offset + 5 ≤ b.bytes.length := by
  obtain ⟨n, _, hbytes⟩ := h.kept hs hop
  have hfive : (reference offset opcode n).encode.length = 5 := rfl
  have hle := hbytes.length_le
  rw [List.length_drop] at hle
  omega

theorem mem_of_snoc {o : Nat} {t : Step} (h : (o, t) ∈ taken ++ [(offset, s)]) (hne : t ≠ s) : (o, t) ∈ taken := by
  rcases List.mem_append.mp h with h | h
  · exact h
  · cases List.mem_singleton.mp h
    exact absurd rfl hne

/-- A step that writes neither an operand of thirty-two bits nor a forward jump. -/
theorem Holding.skip (h : b.Holding taken) (hop : s.referring? = none) (hjump : ∀ opcode, s ≠ .jump opcode) :
    b.Holding (taken ++ [(offset, s)]) := by
  have href {o : Nat} {t : Step} {op : Opcode} (hmem : (o, t) ∈ taken ++ [(offset, s)]) (ht : t.referring? = some op) :
      (o, t) ∈ taken :=
    mem_of_snoc hmem fun heq => by rw [heq, hop] at ht; cases ht
  have hsite {o : Nat} {op : Opcode} (hmem : (o, .jump op) ∈ taken ++ [(offset, s)]) : (o, .jump op) ∈ taken :=
    mem_of_snoc hmem fun heq => hjump op heq.symm
  exact ⟨h.indexed, fun hs ht => h.kept (href hs ht) ht, fun hs => h.room (hsite hs),
    fun hs hs' ht => h.apart (hsite hs) (href hs' ht) ht⟩

/-- More is written behind. -/
theorem Holding.append {more : List UInt8} (h : b.Holding taken) (hbytes : b'.bytes = b.bytes ++ more)
    (hatoms : b'.atoms = b.atoms) (hindex : b'.index = b.index) : b'.Holding taken := by
  refine ⟨by rw [Indexed, hatoms, hindex]; exact h.indexed, fun hs hop => ?_, fun hs => ?_, h.apart⟩
  · obtain ⟨n, hdenotes, hpre⟩ := h.kept hs hop
    have hend := h.end_le hs hop
    refine ⟨n, by rw [hatoms]; exact hdenotes, ?_⟩
    rw [hbytes, List.drop_append_of_le_length (by omega)]
    exact hpre.trans (List.prefix_append _ _)
  · have := h.room hs
    rw [hbytes, List.length_append]
    omega

/-- A name that gets a number takes none away. -/
theorem Holding.atom (h : b.Holding taken) (text : String) : (b.atom text).2.Holding taken := by
  have hindexed := indexed_atom h.indexed text
  have hbytes : (b.atom text).2.bytes = b.bytes := by rw [bytes, writer_atom]; rfl
  have hlists (given : String) (n : UInt32) (hn : Lists b.atoms given n) : Lists (b.atom text).2.atoms given n := by
    rcases (lists_atom h.indexed text).2 with hatoms | hatoms <;> rw [hatoms]
    · exact hn
    · exact hn.push text
  refine ⟨hindexed, fun hs hop => ?_, fun hs => by rw [hbytes]; exact h.room hs, h.apart⟩
  obtain ⟨n, hdenotes, hpre⟩ := h.kept hs hop
  exact ⟨n, hdenotes.mono hlists fun _ haim => haim, by rw [hbytes]; exact hpre⟩

theorem Holding.opU32 (h : b.Holding taken) (hop : s.referring? = some opcode)
    (hdenotes : s.Denotes (Lists b.atoms) Eq (reference b.offset opcode n)) :
    (b.opU32 opcode n).Holding (taken ++ [(b.offset, s)]) := by
  have hbytes : (b.opU32 opcode n).bytes = b.bytes ++ (reference b.offset opcode n).encode := by
    simp [bytes, Builder.opU32, Writer.opU32, Writer.op, Writer.u8, Writer.u32, Writer.append, reference,
      Instruction.encode,
      Operand.encode]
  have hold := h.append hbytes rfl rfl
  have hsite {o : Nat} {jump : Opcode} (hmem : (o, .jump jump) ∈ taken ++ [(b.offset, s)]) : (o, .jump jump) ∈ taken :=
    mem_of_snoc hmem fun heq => by rw [← heq] at hop; cases hop
  refine ⟨hold.indexed, fun {o t op} hs ht => ?_, fun hs => hold.room (hsite hs),
    fun {site jump o t op} hs hs' ht => ?_⟩
  · rcases List.mem_append.mp hs with hs | hs
    · exact hold.kept hs ht
    · cases List.mem_singleton.mp hs
      cases hop.symm.trans ht
      exact ⟨n, hdenotes, by rw [hbytes, offset_eq, List.drop_left]⟩
  · rcases List.mem_append.mp hs' with hs' | hs'
    · exact h.apart (hsite hs) hs' ht
    · cases List.mem_singleton.mp hs'
      exact .inl (by rw [offset_eq]; exact h.room (hsite hs))

theorem Holding.opAtom (h : b.Holding taken) {text : String} (hop : s.referring? = some opcode)
    (hdenotes : ∀ Names n, Names text n → s.Denotes Names Eq (reference b.offset opcode n)) :
    (b.opAtom opcode text).Holding (taken ++ [(b.offset, s)]) := by
  have hlists := (lists_atom h.indexed text).1
  have hoffset : (b.atom text).2.offset = b.offset := by rw [offset, writer_atom]; rfl
  have hnew := (h.atom text).opU32 (n := (b.atom text).1) hop (by rw [hoffset]; exact hdenotes _ _ hlists)
  rwa [hoffset] at hnew

/-- A forward jump lies behind everything that was written. -/
theorem Holding.jump (h : b.Holding taken) (opcode : Opcode) :
    (b.jump opcode).2.Holding (taken ++ [(b.offset, .jump opcode)]) := by
  have hbytes : (b.jump opcode).2.bytes = b.bytes ++ (opcode.byte :: littleEndian 4 (0 : Int32).toUInt32.toNat) := by
    simp [bytes, Builder.jump, Writer.jump, Writer.op, Writer.u8, Writer.i32, Writer.append]
  have hold := h.append hbytes rfl rfl
  have href {o : Nat} {t : Step} {op : Opcode} (hmem : (o, t) ∈ taken ++ [(b.offset, .jump opcode)])
      (ht : t.referring? = some op) :
      (o, t) ∈ taken := mem_of_snoc hmem fun heq => by rw [heq] at ht; cases ht
  refine ⟨hold.indexed, fun hs ht => hold.kept (href hs ht) ht, fun {site jump} hs => ?_,
    fun {site jump o t op} hs hs' ht => ?_⟩
  · rcases List.mem_append.mp hs with hs | hs
    · exact hold.room hs
    · cases List.mem_singleton.mp hs
      rw [offset_eq, hbytes, List.length_append, List.length_cons, length_littleEndian]
  · rcases List.mem_append.mp hs with hs | hs
    · exact h.apart hs (href hs' ht) ht
    · cases List.mem_singleton.mp hs
      exact .inr (by rw [offset_eq]; exact h.end_le (href hs' ht) ht)

/-- Pointing a jump at its target changes the four bytes behind its opcode. -/
theorem getElem?_bind {site : JumpSite} (hroom : site.offset + 5 ≤ b.bytes.length) {k : Nat}
    (hk : k ≤ site.offset ∨ site.offset + 5 ≤ k) :
    (b.bind site).bytes[k]? = b.bytes[k]? := by
  have hlen : (b.bytes.take (site.offset + 1)).length = site.offset + 1 := by rw [List.length_take]; omega
  rw [bytes_bind b hroom]
  rcases hk with hk | hk
  · rw [List.append_assoc, List.getElem?_append_left (by omega), List.getElem?_take_of_lt (by omega)]
  · rw [List.getElem?_append_right (by simp only [List.length_append, hlen, length_littleEndian]; omega),
      List.getElem?_drop]
    simp only [List.length_append, hlen, length_littleEndian]
    congr 1
    omega

theorem Holding.bind {site : JumpSite} (h : b.Holding taken) (hs : (site.offset, .jump opcode) ∈ taken) :
    (b.bind site).Holding taken := by
  have hroom := h.room hs
  have hlen : (b.bind site).bytes.length = b.bytes.length := by
    rw [bytes_bind b hroom]
    simp only [List.length_append, List.length_take, List.length_drop, length_littleEndian]
    omega
  refine ⟨h.indexed, fun {o t op} ht hop => ?_, fun hs => by rw [hlen]; exact h.room hs, h.apart⟩
  obtain ⟨n, hdenotes, hpre⟩ := h.kept ht hop
  refine ⟨n, hdenotes, List.prefix_iff_getElem?.mpr fun k hk => ?_⟩
  -- The bytes that change are none of the reference's.
  have hfive : (reference o op n).encode.length = 5 := rfl
  have hside := h.apart hs ht hop
  have hsame := List.prefix_iff_getElem?.mp hpre k hk
  rw [List.getElem?_drop] at hsame ⊢
  rw [getElem?_bind hroom (by omega), hsame]

theorem Holding.step (h : b.Holding taken) (s : Step)
    (hmade : ∀ site, s = .bind site → ∃ opcode, (site.offset, .jump opcode) ∈ taken) :
    (b.step s).Holding (taken ++ [(b.offset, s)]) := by
  have hplain {b' : Builder} (more : List UInt8) (hbytes : b'.bytes = b.bytes ++ more) (hatoms : b'.atoms = b.atoms)
      (hindex : b'.index = b.index) (hop : s.referring? = none) (hjump : ∀ opcode, s ≠ .jump opcode) :
      b'.Holding (taken ++ [(b.offset, s)]) :=
    (h.append hbytes hatoms hindex).skip hop hjump
  cases s with
  | op opcode =>
    refine hplain [opcode.byte] ?_ rfl rfl rfl fun _ heq => by cases heq
    simp [bytes, Builder.step, Builder.op, Writer.op, Writer.u8]
  | u16 opcode n =>
    refine hplain (opcode.byte :: littleEndian 2 n.toNat) ?_ rfl rfl rfl fun _ heq => by cases heq
    simp [bytes, Builder.step, Builder.opU16, Writer.opU16, Writer.op, Writer.u8, Writer.u16, Writer.append]
  | u32 opcode n => exact h.opU32 rfl ⟨rfl, rfl⟩
  | name opcode text => exact h.opAtom rfl fun _ n hn => ⟨rfl, n, rfl, hn⟩
  | int n =>
    obtain ⟨i, hadds⟩ := int_adds h.indexed n
    exact hplain _ hadds.bytes rfl rfl rfl fun _ heq => by cases heq
  | double d =>
    refine hplain (Opcode.pushDouble.byte :: littleEndian 8 d.bits.toNat) ?_ rfl rfl rfl fun _ heq => by cases heq
    simp [bytes, Builder.step, Builder.double, Writer.double, Writer.op, Writer.u8, Writer.f64, Writer.append]
  | string text => exact h.opAtom rfl fun _ n hn => ⟨rfl, n, rfl, hn⟩
  | jump opcode => exact h.jump opcode
  | bind site =>
    obtain ⟨opcode, hs⟩ := hmade site rfl
    exact (h.bind hs).skip rfl fun _ heq => by cases heq
  | jumpTo opcode target =>
    refine hplain (opcode.byte :: littleEndian 4 (displacement b.offset target).toUInt32.toNat) ?_ rfl rfl rfl
      fun _ heq => by cases heq
    simp [bytes, Builder.step, Builder.jumpTo, Writer.jumpTo, Writer.op, Writer.u8, Writer.i32, Writer.append,
      Builder.offset]

/-- Whatever is asked of a builder, the operands stay as they were written. -/
theorem Written.holding (h : b.Written taken) : b.Holding taken := by
  induction h with
  | start =>
    exact ⟨.empty _, fun hs => absurd hs List.not_mem_nil, fun hs => absurd hs List.not_mem_nil,
      fun hs => absurd hs List.not_mem_nil⟩
  | atom text _ ih => exact ih.atom text
  | step s _ hmade ih => exact ih.step s hmade

/-! ## Programs that were built -/

section Built

variable {name : String} {slots args : Nat} {table : AtomTable} {p : Program}

/-- A reference to a name, where it can be reached, is the instruction that was written and numbers one of the names. -/
theorem Holding.instruction (h : b.Holding taken) (hp : (b.build name slots args table).1 = .ok p)
    (hs : (offset, s) ∈ taken) (hop : s.referring? = some opcode) (hatom : opcode.hasAtom = true)
    (hreach : p.stackMap.isReachable offset = true) :
    ∃ n, s.Denotes (Lists b.atoms) Eq (reference offset opcode n) ∧ reference offset opcode n ∈ p.reachable ∧
      n.toNat < b.atoms.size := by
  have hv := Program.verified_of_ofCode hp
  obtain ⟨_, hcode, _, _, hatoms⟩ := Program.ofCode_ok hp
  obtain ⟨info, hinfo⟩ := Option.isSome_iff_exists.mp hreach
  obtain ⟨n, hdenotes, hpre⟩ := h.kept hs hop
  have hdecode : Instruction.decodeAt p.code offset = .ok (reference offset opcode n) := by
    rw [hcode]
    refine Instruction.decodeAt_iff_encode.mpr ⟨rfl, ⟨rfl, (Opcode.format_of_hasAtom hatom).symm, ?_⟩, hpre⟩
    exact Operand.lands_of_format (fun hj => by cases hj) _ _
  -- What is reached is an instruction, and an instruction is what its bytes say.
  obtain ⟨i, hi, hoffset⟩ := hv.instruction hinfo
  obtain rfl : i = reference offset opcode n := by
    have hread := hv.tiles.decodeAt i hi
    rw [hoffset, hdecode] at hread
    exact (Except.ok.inj hread).symm
  have hlt := Lowering.atom_lt hatom rfl (hv.admissible hi hinfo).operand
  exact ⟨n, hdenotes, List.mem_filter.mpr ⟨hi, hreach⟩, by rw [← hatoms]; exact hlt⟩

/-- Building refuses what can be reached and numbers no name. -/
theorem Holding.refused (h : b.Holding taken) (name : String) (slots args : Nat) (table : AtomTable)
    (hs : (offset, .u32 opcode n) ∈ taken) (hatom : opcode.hasAtom = true) (hn : b.atoms.size ≤ n.toNat)
    {is : List Instruction} {depth : Nat} (hdecode : Instruction.decode b.bytes = .ok is)
    (hr : StackMap.Reaches is offset depth) :
    ∃ fault, (b.build name slots args table).1 = .error fault := by
  cases hp : (b.build name slots args table).1 with
  | error fault => exact ⟨fault, rfl⟩
  | ok p =>
    have hv := Program.verified_of_ofCode hp
    have his : p.instructions = is := by
      have htiles := Instruction.decode_iff_tiles.mpr hv.tiles
      rw [(Program.ofCode_ok hp).2.1] at htiles
      exact Except.ok.inj (htiles.symm.trans hdecode)
    obtain ⟨info, hinfo⟩ := hv.exists_info (by rw [his]; exact hr)
    obtain ⟨m, hdenotes, _, hlt⟩ := h.instruction hp hs rfl hatom (by rw [StackMap.isReachable, hinfo]; rfl)
    cases hdenotes.2
    omega

/-- As long as 32 bits count the slots and the operand stack together, what is not built is refused. -/
theorem error_of_build (hslots : slots + maxStackDepth < 2 ^ 32) {fault : Fault VerifyError}
    (h : (b.build name slots args table).1 = .error fault) : ∃ e, fault = .error e := by
  cases fault with
  | error e => exact ⟨e, rfl⟩
  | breach breach =>
    have hsafe := (StackMap.verify_safe_iff ⟨slots, args, b.atoms.size⟩).mpr ((StackMap.countsFit_iff _).mpr hslots)
    exact absurd (Program.verify_of_breach h) (hsafe _ breach)

/-- The names of a program that was built are known to the table, however it grows. -/
theorem known_internAll (hp : (b.build name slots args table).1 = .ok p) (further : List String) :
    ∀ text ∈ p.atoms.toList, (((b.build name slots args table).2.internAll further).lookup text).isSome = true := by
  intro text htext
  rw [(Program.ofCode_ok hp).2.2.2.2] at htext
  obtain ⟨a, ha⟩ := Option.isSome_iff_exists.mp (AtomTable.lookup_internAll_of_mem htext table)
  rw [build, AtomTable.lookup_internAll ha]
  rfl

end Built

/-- The text that a number stands for is the one that was asked for. -/
theorem Step.names_of_denotes {atoms : Array String} {text : String} (hsize : atoms.size ≤ 2 ^ 32)
    (hop : s.referring? = some opcode) (hdenotes : s.Denotes (Lists atoms) Eq (reference offset opcode n))
    (htext : atoms[n.toNat]? = some text) : s.Names atoms text := by
  have hlists {given : String} (h : Lists atoms given n) : text = given := by
    obtain ⟨index, rfl, hgiven⟩ := h
    have hlt := (Array.getElem?_eq_some_iff.mp hgiven).1
    rw [UInt32.toNat_ofNat_of_lt' (Nat.lt_of_lt_of_le hlt hsize), hgiven] at htext
    exact (Option.some.inj htext).symm
  cases s with
  | u32 _ m =>
    cases hdenotes.2
    exact htext
  | name _ given | string given =>
    obtain ⟨_, _, hn, hnames⟩ := hdenotes
    cases hn
    exact hlists hnames
  | _ => cases hop

/-- Names on their way from the builder to the code, with a table that has any history. Building refuses an operand that
    can be reached and numbers no name. What was built is compiled, with the table that it was built into or one that
    this has grown to, without a name ever being unknown; and an instruction that can be reached carries an atom of the
    text that it was written with. Atoms are numbers of thirty-two bits, so this is as long as the table has no more
    texts. -/
theorem names_survive (hb : b.Written taken) (name : String) (slots args : Nat) (known : List String) :
    (∀ offset opcode n, (offset, .u32 opcode n) ∈ taken → opcode.hasAtom = true → b.atoms.size ≤ n.toNat →
      ∀ is depth, Instruction.decode b.bytes = .ok is → StackMap.Reaches is offset depth →
        ∃ fault, (b.build name slots args (.interned known)).1 = .error fault ∧
          (slots + maxStackDepth < 2 ^ 32 → ∃ e, fault = .error e)) ∧
    ∀ p, (b.build name slots args (.interned known)).1 = .ok p →
      ∀ further atoms, atoms = (b.build name slots args (.interned known)).2.internAll further →
      (∀ (β : Type) settings (factory : Factory β) pool text,
        (Compilation.compile ⟨p, settings, atoms, factory⟩ Linker.pool pool).1 ≠ .error (.error (.unknownAtom text))) ∧
      (atoms.size ≤ 2 ^ 32 → ∀ offset s opcode, (offset, s) ∈ taken → s.referring? = some opcode →
        opcode.hasAtom = true →
        p.stackMap.isReachable offset = true → ∃ text a, s.Names b.atoms text ∧ atoms.text? a = some text ∧
          ∀ (β : Type) settings (factory : Factory β),
            (⟨p, settings, atoms, factory⟩ : Job β).Carries offset opcode a) := by
  have h := hb.holding
  refine ⟨fun offset opcode n hs hatom hn is depth hdecode hr => ?_, ?_⟩
  · obtain ⟨fault, hfault⟩ := h.refused name slots args (.interned known) hs hatom hn hdecode hr
    exact ⟨fault, hfault, fun hslots => error_of_build hslots hfault⟩
  rintro p hp further atoms rfl
  have hv := Program.verified_of_ofCode hp
  have hatoms : p.atoms = b.atoms := (Program.ofCode_ok hp).2.2.2.2
  have hknown := known_internAll hp further
  have hindexed : ((b.build name slots args (.interned known)).2.internAll further).Indexed :=
    ((AtomTable.indexed_interned known).internAll b.atoms.toList).internAll further
  refine ⟨fun β settings factory pool text => ?_, fun hsize offset s opcode hs hop hatom hreach => ?_⟩
  · refine Compilation.compile_knows hv (fun i hi hreach hatom => ?_) pool text
    obtain ⟨_, _, a, _, _, _, ha⟩ :=
      Job.exists_atom ⟨p, settings, _, factory⟩ hv hknown (List.mem_filter.mpr ⟨hi, hreach⟩) hatom
    exact ⟨a, ha⟩
  · obtain ⟨n, hdenotes, hi, _⟩ := h.instruction hp hs hop hatom hreach
    have hfew : b.atoms.size ≤ 2 ^ 32 := by
      have := hindexed.length_le_size h.indexed.nodup fun text ht => hknown text (by rw [hatoms]; exact ht)
      rw [Array.length_toList] at this
      exact Nat.le_trans this hsize
    have hname {β : Type} (settings : Settings) (factory : Factory β) :=
      Job.exists_atom ⟨p, settings, _, factory⟩ hv hknown hi hatom
    obtain ⟨_, text, a, hn, htext, ha, _⟩ := hname (β := Unit) {} fun _ _ => none
    cases hn
    have htext' : b.atoms[n.toNat]? = some text := by rw [← hatoms]; exact htext
    refine ⟨text, a, Step.names_of_denotes hfew hop hdenotes htext', hindexed.text?_of_lookup hsize ha,
      fun β settings factory => ?_⟩
    -- The atom is a matter of the program and the table alone.
    obtain ⟨_, text', a', hn, htext', ha', hname⟩ := hname settings factory
    cases hn
    cases htext.symm.trans htext'
    cases ha.symm.trans ha'
    exact Job.carries_of_name (i := reference offset opcode n) hv hi rfl hname

/-- A name is looked up where a string is false, and then by its number; what follows the end numbers no name. -/
def namingSteps : List Step :=
  [.string "x", .jump .ifNe, .name .getName "y", .op .pop, .bind ⟨5⟩, .u32 .getGlobal 1, .op .pop, .op .stop,
    .u32 .getProp 9]

theorem trail_namingSteps :
    trail namingSteps = [(0, .string "x"), (5, .jump .ifNe), (10, .name .getName "y"), (15, .op .pop),
    (16, .bind ⟨5⟩), (16, .u32 .getGlobal 1), (21, .op .pop), (22, .op .stop), (23, .u32 .getProp 9)] := by cbv

theorem made_namingSteps : Made namingSteps := by
  intro k offset site h
  rw [trail_namingSteps] at h ⊢
  have hlt := (List.getElem?_eq_some_iff.mp h).1
  simp only [List.length_cons, List.length_nil] at hlt
  interval_cases k <;> cases h
  exact ⟨.ifNe, by decide⟩

def naming : Job Unit :=
  { program := (Program.ofCode "f" [0x11, 0, 0, 0, 0, 0x42, 11, 0, 0, 0, 0x50, 1, 0, 0, 0, 0x02, 0x52, 1, 0, 0, 0,
      0x02, 0x61, 0x54, 9, 0, 0, 0] 0 0 #["x", "y"]).toOption.getD default
    settings := {}
    atoms := .internAll .empty ["print", "x", "y", "z"]
    factory := fun _ _ => some () }

theorem atoms_namingSteps : (run namingSteps).atoms = #["x", "y"] := by cbv

theorem build_namingSteps : ((run namingSteps).build "f" 0 0 (.interned ["print"])).1 = .ok naming.program := by
  have hbytes : (run namingSteps).writer.bytes.toList =
      [0x11, 0, 0, 0, 0, 0x42, 11, 0, 0, 0, 0x50, 1, 0, 0, 0, 0x02, 0x52, 1, 0, 0, 0,
      0x02, 0x61, 0x54, 9, 0, 0, 0] := by cbv
  rw [build, hbytes, atoms_namingSteps]
  rfl

theorem internAll_namingSteps :
    naming.atoms = ((run namingSteps).build "f" 0 0 (.interned ["print"])).2.internAll ["z"] := by
  rw [build, atoms_namingSteps]
  rfl

theorem names_survive_naming :
    (∃ m : Method Unit, (Compilation.compile naming Linker.pool ⟨100, 0⟩).1 = .ok m ∧
      (∃ site a, m.sitesAt 10 = [site] ∧ site.kind = .getName a ∧ naming.atoms.text? a = some "y") ∧
      (∃ site a, m.sitesAt 16 = [site] ∧ site.kind = .getGlobal a ∧ naming.atoms.text? a = some "y") ∧
      ∃ i ∈ naming.program.instructions, ∃ a, i.offset = 0 ∧
        Lowering.lower naming i = Emit.push (.constant (.string a)) ∧
        naming.atoms.text? a = some "x") ∧
    ∃ e, ((step {} (.u32 .getGlobal 7)).build "f" 0 0 (.interned [])).1 = .error (.error e) := by
  have hm : ((Compilation.compile naming Linker.pool ⟨100, 0⟩).1.toOption).isSome = true := by cbv
  obtain ⟨m, hm⟩ := Option.isSome_iff_exists.mp hm
  have hm := Script.ok_of_toOption hm
  have hlen : naming.program.length < 2 ^ 32 := by decide
  have hall := (names_survive (written_run made_namingSteps) "f" 0 0 ["print"]).2 _ build_namingSteps ["z"] _
    internAll_namingSteps
  have hnames := hall.2 (by decide)
  rw [trail_namingSteps, atoms_namingSteps] at hnames
  refine ⟨⟨m, hm, ?_, ?_, ?_⟩, ?_⟩
  · obtain ⟨text, a, rfl, ha, hcarries⟩ := hnames 10 (.name .getName "y") .getName (by decide) rfl rfl rfl
    obtain ⟨site, _, _, hkind, hsite⟩ := (hcarries Unit naming.settings naming.factory).site _ m _ hm rfl
    exact ⟨site, a, hsite hlen, hkind, ha⟩
  · obtain ⟨text, a, htext, ha, hcarries⟩ := hnames 16 (.u32 .getGlobal 1) .getGlobal (by decide) rfl rfl rfl
    obtain rfl : "y" = text := Option.some.inj htext
    obtain ⟨site, _, _, hkind, hsite⟩ := (hcarries Unit naming.settings naming.factory).site _ m _ hm rfl
    exact ⟨site, a, hsite hlen, hkind, ha⟩
  · obtain ⟨text, a, rfl, ha, hcarries⟩ := hnames 0 (.string "x") .pushString (by decide) rfl rfl rfl
    obtain ⟨i, hi, hoffset, hlower⟩ := (hcarries Unit naming.settings naming.factory).constant rfl
    exact ⟨i, hi, a, hoffset, hlower, ha⟩
  · have hb : Written (step {} (.u32 .getGlobal 7)) [(0, .u32 .getGlobal 7)] := .step _ .start fun _ h => by cases h
    obtain ⟨fault, hfault, hrefused⟩ :=
      (names_survive hb "f" 0 0 []).1 0 .getGlobal 7 (by decide) rfl (by decide) [reference 0 .getGlobal 7] 0
        (by cbv) .start
    obtain ⟨e, rfl⟩ := hrefused (by decide)
    exact ⟨e, hfault⟩

end Builder
end BaselineTier
