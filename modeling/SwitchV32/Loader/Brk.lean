import SwitchV32.Loader.Segments

/-!
# The first break

`ld_elf` of the user build takes the break from `__BSS_END__`, and from a program
header where there is no such symbol. The header is looked up by the size of the
table in bytes, less one.
-/

namespace SwitchV32

open Effect

-- ---------------------------------------------------------------------------
-- Up to the break
-- ---------------------------------------------------------------------------

/-- `ld_elf` up to where it has the tables of the file. -/
def ldElfTables (f : MappedFile) : LdM ElfFile := do
  ldElfValidate f
  let programs ← Ehdr.phoff f
  let sections ← Ehdr.shoff f
  let progSize : U32 := (← Ehdr.phentsize f).setWidth 32 * (← Ehdr.phnum f).setWidth 32
  let sectSize : U32 := (← Ehdr.shentsize f).setWidth 32 * (← Ehdr.shnum f).setWidth 32
  let elf ← ldElfSectionNames f
    { progSize := progSize.signExtend 64, sectSize := sectSize.signExtend 64
      programs := programs.toNat, sections := sections.toNat
      symbSize := 0, symbols := 0, symbolsNames := 0, sectionsNames := 0 }
  ldElfSymbols f elf

def ldElfImage (f : MappedFile) (init : VCoreInit) : LdM (ElfFile × VCoreInit) := do
  let elf ← ldElfTables f
  ldElfSeg f elf
  let entry ← Ehdr.entry f
  let gp ← ldElfGp f elf init.gp
  return (elf, { init with pc := entry, gp := gp })

/-- Where the code takes the last program header to be. -/
def ElfFile.lastPhdr (elf : ElfFile) : Nat :=
  (BitVec.ofNat 64 elf.programs + BitVec.ofNat 64 Phdr.bytes * (elf.progSize - 1)).toNat

def MappedFile.phentsize (f : MappedFile) : Nat := (f.field 16 42).toNat

/-- The end of what a program header describes, as the code adds it up. -/
def MappedFile.phdrEnd (f : MappedFile) (i : Nat) : U32 :=
  f.phdr i Phdr.vaddr + f.phdr i Phdr.memsz

structure MappedFile.HasTable (f : MappedFile) : Prop where
  header : 52 ≤ f.size
  table : f.phoff + Phdr.bytes * f.phnum ≤ f.size

/-- The search for `__BSS_END__` ends, in whatever state it is begun, and finds nothing. -/
def MappedFile.LacksBssEnd (f : MappedFile) (mem : Mem) : Prop :=
  ∀ elf s₁, Runs (ldElfTables f) (.start mem) elf s₁ →
    ∀ s, ∃ s', Runs (ldElfGetsym f elf (ascii "__BSS_END__")) s none s'

/-- The user build gets a break. The last that it has read is an entry of the table, which the break
is the end of, and no segment ends above it. -/
def BrkAbove (f : MappedFile) (mem : Mem) (init : VCoreInit) : Prop :=
  ∃ init' s', Runs (ldElf .user (some f) init) (.start mem) init' s' ∧
    (∃ i < f.phnum, s'.reads.head? = some (f.phoff + Phdr.bytes * i, Phdr.bytes) ∧
      init'.elfBrk = f.phdrEnd i) ∧
    ∀ g ∈ f.segs, g.vaddr + g.memsz ≤ init'.elfBrk.toNat

section
variable {f : MappedFile} {elf elf' : ElfFile} {init init' : VCoreInit} {s s' : LdState}
variable {off i : Nat}

theorem ldElf_supervisor (hsize : f.size ≠ 0) (init : VCoreInit) :
    ldElf .supervisor (some f) init = ldElfImage f init >>= fun r => pure r.2 := by
  simp only [ldElf, ldReadAndMapFile, ldElfImage, ldElfTables, if_neg hsize, bind_assoc, pure_bind]

theorem ldElf_user (hsize : f.size ≠ 0) (init : VCoreInit) :
    ldElf .user (some f) init = ldElfImage f init >>= fun r =>
      ldElfBrk f r.1 >>= fun brk => pure { r.2 with elfBrk := brk } := by
  simp only [ldElf, ldReadAndMapFile, ldElfImage, ldElfTables, if_neg hsize, bind_assoc, pure_bind]

-- ---------------------------------------------------------------------------
-- What the tables are
-- ---------------------------------------------------------------------------

theorem ldInt_of_runs {w : Nat} {v : BitVec w} (hle : off + w / 8 ≤ f.size)
    (h : Runs (ldInt f w off) s v s') : v = f.field w off := by
  cases h.symm.trans (ldInt_runs hle)
  rfl

/-- The two members that the break is looked up with. -/
def SameTable (elf elf' : ElfFile) : Prop :=
  elf'.programs = elf.programs ∧ elf'.progSize = elf.progSize

theorem ldElfSectionNames_of_runs (h : Runs (ldElfSectionNames f elf) s elf' s') :
    SameTable elf elf' := by
  obtain ⟨idx, s₁, -, h⟩ := Runs.of_bind h
  obtain ⟨shstrtab, s₂, -, h⟩ := Runs.of_bind h
  cases h
  exact ⟨rfl, rfl⟩

theorem ldElfSymbols_of_runs (h : Runs (ldElfSymbols f elf) s elf' s') : SameTable elf elf' := by
  obtain ⟨symtab, s₁, -, h⟩ := Runs.of_bind h
  cases symtab with
  | none => cases h
  | some symtab =>
    obtain ⟨shSize, s₂, -, h⟩ := Runs.of_bind h
    obtain ⟨shEntsize, s₃, -, h⟩ := Runs.of_bind h
    split at h
    · cases h
    · obtain ⟨symbols, s₄, -, h⟩ := Runs.of_bind h
      obtain ⟨strtab, s₅, -, h⟩ := Runs.of_bind h
      cases strtab with
      | none => cases h
      | some strtab =>
        obtain ⟨symbolsNames, s₆, -, h⟩ := Runs.of_bind h
        cases h
        exact ⟨rfl, rfl⟩

/-- `elf.prog_size` is the product of two `int`s, as a `size_t`. -/
theorem ldElfTables_of_runs (hheader : 52 ≤ f.size) (h : Runs (ldElfTables f) s elf s') :
    elf.programs = f.phoff ∧
      elf.progSize = (((f.field 16 42).setWidth 32 * (f.field 16 44).setWidth 32 : U32)).signExtend
        64 := by
  obtain ⟨⟨⟩, s₁, -, h⟩ := Runs.of_bind h
  obtain ⟨programs, s₂, hprograms, h⟩ := Runs.of_bind h
  obtain ⟨sections, s₃, -, h⟩ := Runs.of_bind h
  obtain ⟨phentsize, s₄, hphentsize, h⟩ := Runs.of_bind h
  obtain ⟨phnum, s₅, hphnum, h⟩ := Runs.of_bind h
  obtain ⟨shentsize, s₆, -, h⟩ := Runs.of_bind h
  obtain ⟨shnum, s₇, -, h⟩ := Runs.of_bind h
  obtain ⟨elf₁, s₈, hnames, h⟩ := Runs.of_bind h
  obtain ⟨hprog₁, hsize₁⟩ := ldElfSectionNames_of_runs hnames
  obtain ⟨hprog, hsize⟩ := ldElfSymbols_of_runs h
  rw [hprog, hsize, hprog₁, hsize₁, ldInt_of_runs (by omega) hprograms,
    ldInt_of_runs (by omega) hphentsize, ldInt_of_runs (by omega) hphnum]
  exact ⟨rfl, rfl⟩

-- ---------------------------------------------------------------------------
-- The entry
-- ---------------------------------------------------------------------------

theorem toNat_mul_lt (n m : U16) : n.toNat * m.toNat < 2 ^ 32 := by
  have hmax (v : U16) : v.toNat ≤ 2 ^ 16 - 1 := Nat.le_sub_one_of_lt v.isLt
  exact Nat.lt_of_le_of_lt (Nat.mul_le_mul (hmax n) (hmax m)) (by decide)

theorem toNat_progSize {n m : U16} :
    ((n.setWidth 32 * m.setWidth 32 : U32).signExtend 64).toNat =
      if n.toNat * m.toNat < 2 ^ 31 then n.toNat * m.toNat
      else n.toNat * m.toNat + (2 ^ 64 - 2 ^ 32) := by
  have hprod := toNat_mul_lt n m
  have hwide (v : U16) : (v.setWidth 32 : U32).toNat = v.toNat := by
    have hlt := v.isLt
    rw [BitVec.toNat_setWidth]
    omega
  have hmul : (n.setWidth 32 * m.setWidth 32 : U32).toNat = n.toNat * m.toNat := by
    rw [BitVec.toNat_mul, hwide, hwide, Nat.mod_eq_of_lt hprod]
  rw [BitVec.toNat_signExtend, BitVec.toNat_setWidth, hmul, BitVec.msb_eq_decide, hmul]
  simp only [decide_eq_true_eq]
  split <;> split <;> omega

/-- The last entry, if entries were one byte long, and no entry otherwise. -/
theorem lastPhdr_eq_iff (hprog : elf.programs = f.phoff)
    (hsize : elf.progSize =
      (((f.field 16 42).setWidth 32 * (f.field 16 44).setWidth 32 : U32)).signExtend 64)
    (hi : i < f.phnum) :
    elf.lastPhdr = f.phoff + Phdr.bytes * i ↔ f.phentsize = 1 ∧ i + 1 = f.phnum := by
  have hphoff : f.phoff < 2 ^ 32 := (f.field 32 28).isLt
  have hphnum : f.phnum < 2 ^ 16 := (f.field 16 44).isLt
  have hprod : f.phentsize * f.phnum < 2 ^ 32 := toNat_mul_lt _ _
  have hbytes : Phdr.bytes = 32 := rfl
  have hone : (1 : BitVec 64).toNat = 1 := rfl
  have hlast : elf.lastPhdr = f.phoff + Phdr.bytes * i ↔ f.phentsize * f.phnum = i + 1 := by
    have hprogSize : elf.progSize.toNat = if f.phentsize * f.phnum < 2 ^ 31 then
        f.phentsize * f.phnum else f.phentsize * f.phnum + (2 ^ 64 - 2 ^ 32) := by
      rw [hsize]
      exact toNat_progSize
    generalize f.phentsize * f.phnum = size at hprod hprogSize
    rw [ElfFile.lastPhdr, hprog, BitVec.toNat_add, BitVec.toNat_mul, BitVec.toNat_sub,
      BitVec.toNat_ofNat, BitVec.toNat_ofNat, hone, hprogSize, hbytes]
    split <;> omega
  rw [hlast]
  constructor
  · intro heq
    have hle : f.phentsize ≤ 1 := by
      by_contra hbig
      have htwo := Nat.mul_le_mul_right f.phnum (show 2 ≤ f.phentsize by omega)
      omega
    obtain hzero | hone : f.phentsize = 0 ∨ f.phentsize = 1 := by omega
    · rw [hzero] at heq
      omega
    · rw [hone] at heq
      omega
  · rintro ⟨hone, hi⟩
    rw [hone]
    omega

-- ---------------------------------------------------------------------------
-- The break
-- ---------------------------------------------------------------------------

theorem ldElfBrk_of_runs {brk : U32} {s₁ : LdState}
    (hlacks : Runs (ldElfGetsym f elf (ascii "__BSS_END__")) s none s₁)
    (h : Runs (ldElfBrk f elf) s brk s') : s'.reads.head? = some (elf.lastPhdr, Phdr.bytes) := by
  obtain ⟨sym, s₂, hsym, h⟩ := Runs.of_bind h
  cases hlacks.symm.trans hsym
  obtain ⟨lastSegment, s₃, hread, h⟩ := Runs.of_bind h
  cases ldRead_of_runs hread
  cases h
  rfl

theorem ldElfBrk_runs {s₁ : LdState}
    (hlacks : Runs (ldElfGetsym f elf (ascii "__BSS_END__")) s none s₁)
    (hlast : elf.lastPhdr = f.phoff + Phdr.bytes * i)
    (hphdr : f.phoff + Phdr.bytes * i + Phdr.bytes ≤ f.size) :
    Runs (ldElfBrk f elf) s (f.phdrEnd i) (s₁.read (f.phoff + Phdr.bytes * i) Phdr.bytes) := by
  have hmember {member : Nat} (hm : member + 4 ≤ Phdr.bytes) :
      intAt 32 ((List.range Phdr.bytes).map fun j => f.byte (elf.lastPhdr + j)) member =
        f.phdr i member := by
    refine congrArg (BitVec.ofNat 32) (bytesLE_congr fun j hj => ?_)
    have hlt : member + j < Phdr.bytes := by omega
    simp [hlt, hlast, Nat.add_assoc]
  have hread : Runs (ldRead f elf.lastPhdr Phdr.bytes) s₁
      ((List.range Phdr.bytes).map fun j => f.byte (elf.lastPhdr + j))
      (s₁.read elf.lastPhdr Phdr.bytes) := ldRead_runs fun j hj => by omega
  refine hlacks.bind (Runs.bind hread ?_)
  rw [hmember (by decide), hmember (by decide), hlast]
  rfl

theorem ldElfImage_of_runs {init₁ : VCoreInit} {s₁ : LdState} (hsize : f.size ≠ 0)
    (h : Runs (ldElf .supervisor (some f) init) s init₁ s₁) :
    ∃ elf s₂, Runs (ldElfTables f) s elf s₂ ∧ Runs (ldElfImage f init) s (elf, init₁) s₁ := by
  rw [ldElf_supervisor hsize] at h
  obtain ⟨r, s₂, himage, h⟩ := Runs.of_bind h
  cases h
  have hrun := himage
  obtain ⟨elf, s₃, htables, hrun⟩ := Runs.of_bind hrun
  obtain ⟨⟨⟩, s₄, -, hrun⟩ := Runs.of_bind hrun
  obtain ⟨entry, s₅, -, hrun⟩ := Runs.of_bind hrun
  obtain ⟨gp, s₆, -, hrun⟩ := Runs.of_bind hrun
  cases hrun
  exact ⟨elf, s₃, htables, himage⟩

/-- Where the segments of a file are loaded and it has no `__BSS_END__`, the break is above them
exactly if the entries of the table are of one byte by the header, and the last one ends the
highest. -/
theorem brk_above_iff {mem : Mem} {init₁ : VCoreInit} {s₁ : LdState} (hfile : f.HasTable)
    (hload : Runs (ldElf .supervisor (some f) init) (.start mem) init₁ s₁)
    (hlacks : f.LacksBssEnd mem) :
    BrkAbove f mem init ↔ f.phentsize = 1 ∧ 0 < f.phnum ∧
      ∀ g ∈ f.segs, g.vaddr + g.memsz ≤ (f.phdrEnd (f.phnum - 1)).toNat := by
  have hheader := hfile.header
  have hne : f.size ≠ 0 := by omega
  obtain ⟨elf, s₂, htables, himage⟩ := ldElfImage_of_runs hne hload
  obtain ⟨hprog, hsize⟩ := ldElfTables_of_runs hheader htables
  obtain ⟨s₃, hnone⟩ := hlacks elf s₂ htables s₁
  rw [BrkAbove, ldElf_user hne]
  constructor
  · rintro ⟨init', s', hrun, ⟨i, hi, hread, hbrk⟩, habove⟩
    obtain ⟨r, s₄, himage', hrun⟩ := Runs.of_bind hrun
    cases himage.symm.trans himage'
    obtain ⟨brk, s₅, hrun, hend⟩ := Runs.of_bind hrun
    cases hend
    have hlast : elf.lastPhdr = f.phoff + Phdr.bytes * i := by
      have hsame := (ldElfBrk_of_runs hnone hrun).symm.trans hread
      exact congrArg Prod.fst (Option.some.inj hsame)
    obtain ⟨hone, hlast⟩ := (lastPhdr_eq_iff hprog hsize hi).mp hlast
    refine ⟨hone, by omega, fun g hg => ?_⟩
    rw [← hlast, Nat.add_sub_cancel, ← hbrk]
    exact habove g hg
  · rintro ⟨hone, hpos, habove⟩
    have hi : f.phnum - 1 < f.phnum := by omega
    have hlast := (lastPhdr_eq_iff hprog hsize hi).mpr ⟨hone, by omega⟩
    have hphdr : f.phoff + Phdr.bytes * (f.phnum - 1) + Phdr.bytes ≤ f.size := by
      have htable := hfile.table
      simp only [Phdr.bytes] at htable ⊢
      omega
    have hbrk := ldElfBrk_runs hnone hlast hphdr
    refine ⟨_, _, himage.bind (hbrk.bind (out_pure _ _)), ⟨_, hi, rfl, rfl⟩, habove⟩

end

theorem sizedFile_size_lt : 228 < 2 ^ 63 := by decide

/-- The file of one segment with so many bytes by the header for an entry of the table, and with
zeros behind it up to the end of the page. -/
def sizedFile (phentsize : U8) : MappedFile where
  size := 228
  size_lt := sizedFile_size_lt
  behind k := if k < 4096 then some 0 else none
  byte k := if k = 42 then phentsize else (bssFile 8).byte k

def noInit : VCoreInit := ⟨0, 0, 0, 0, 0, 0⟩

theorem sizedFile_hasTable (phentsize : U8) : (sizedFile phentsize).HasTable where
  header := by simp [sizedFile]
  table := by
    have hphoff : (sizedFile phentsize).phoff = 52 := rfl
    have hphnum : (sizedFile phentsize).phnum = 1 := rfl
    rw [hphoff, hphnum]
    simp [sizedFile, Phdr.bytes]

theorem runs_of_toOption {α : Type} {x : LdM α} {s : LdState} {a : α}
    (h : (out x s).1.toOption = some a) : Runs x s a (out x s).2 :=
  Prod.ext (toOption_eq_some.mp h) rfl

theorem runs_of_isSome {α : Type} {x : LdM α} {s : LdState}
    (h : (out x s).1.toOption.isSome = true) : ∃ a s', Runs x s a s' := by
  obtain ⟨a, ha⟩ := Option.isSome_iff_exists.mp h
  exact ⟨a, _, runs_of_toOption ha⟩

theorem lacksBssEnd_of_symbSize {f : MappedFile} {mem : Mem}
    (h : (out (ldElfTables f) (.start mem)).1.toOption.map ElfFile.symbSize = some 0) :
    f.LacksBssEnd mem := by
  intro elf s₁ htables s
  rw [htables] at h
  have hzero : elf.symbSize = 0 := Option.some.inj h
  refine ⟨s, ?_⟩
  rw [ldElfGetsym, hzero]
  rfl

theorem brk_above_iff_one : BrkAbove (sizedFile 1) megabyte noInit := by
  obtain ⟨init₁, s₁, hload⟩ := runs_of_isSome (x := ldElf .supervisor (some (sizedFile 1)) noInit)
    (s := .start megabyte) (by decide +kernel)
  have hsegs : (sizedFile 1).segs = [⟨84, 0x1000, 4, 8⟩] := by decide
  refine (brk_above_iff (sizedFile_hasTable 1) hload
    (lacksBssEnd_of_symbSize (by decide +kernel))).mpr ⟨by decide, by decide, ?_⟩
  rw [hsegs]
  decide

/-- With entries of 32 bytes, the 32nd entry of a table of one is all zeros, and the break with
it. -/
theorem brk_above_fails :
    (sizedFile 32).HasTable ∧ (sizedFile 32).LacksBssEnd megabyte ∧
    (sizedFile 32).segs = [⟨84, 0x1000, 4, 8⟩] ∧
    (∃ init' s', Runs (ldElf .user (some (sizedFile 32)) noInit) (.start megabyte) init' s' ∧
      init'.elfBrk = 0) ∧
    ¬ BrkAbove (sizedFile 32) megabyte noInit := by
  have hsegs : (sizedFile 32).segs = [⟨84, 0x1000, 4, 8⟩] := by decide
  have hbrk : (out (ldElf .user (some (sizedFile 32)) noInit)
      (.start megabyte)).1.toOption.map VCoreInit.elfBrk = some 0 := by decide +kernel
  obtain ⟨init', hinit, hzero⟩ := Option.map_eq_some_iff.mp hbrk
  have hrun := runs_of_toOption hinit
  refine ⟨sizedFile_hasTable 32, lacksBssEnd_of_symbSize (by decide +kernel), hsegs,
    ⟨_, _, hrun, hzero⟩, ?_⟩
  rintro ⟨init'', s'', hrun', -, habove⟩
  cases hrun.symm.trans hrun'
  rw [hsegs, hzero] at habove
  exact absurd (habove _ (.head _)) (by decide)

end SwitchV32
