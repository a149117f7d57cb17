import SwitchV32.Loader.Brk

/-!
# Loading a linked file

A file as a linker makes it: its tables lie in it and its names end in it. On
such a file `ld_elf` comes to its end, the core is to start where the file says,
with the values of the file's symbols, and guest memory holds the image.
-/

namespace SwitchV32

open Effect

-- ---------------------------------------------------------------------------
-- Programs that only look
-- ---------------------------------------------------------------------------

/-- From any state the program comes to its end with the answer and leaves guest memory alone. -/
def Answers {α : Type} (x : LdM α) (a : α) : Prop := ∀ s, ∃ s', Runs x s a s' ∧ s'.mem = s.mem

namespace Answers

variable {α β γ : Type} {a : α} {b : β}

theorem pure (a : α) : Answers (pure a) a := fun s => ⟨s, out_pure a s, rfl⟩

theorem bind {x : LdM α} {f : α → LdM β} (hx : Answers x a) (hf : Answers (f a) b) :
    Answers (x >>= f) b := by
  intro s
  obtain ⟨s₁, hrun, hmem⟩ := hx s
  obtain ⟨s₂, hrun', hmem'⟩ := hf s₁
  exact ⟨s₂, hrun.bind hrun', hmem'.trans hmem⟩

theorem findM {p : γ → LdM Bool} {q : γ → Bool} {l : List γ} (h : ∀ c ∈ l, Answers (p c) (q c)) :
    Answers (l.findM? p) (l.find? q) := by
  induction l with
  | nil => exact pure none
  | cons c l ih =>
    have hc := h c (.head _)
    have hl := ih fun c' hc' => h c' (.tail _ hc')
    cases hq : q c with
    | true =>
      rw [hq] at hc
      simp only [List.findM?, List.find?_cons, hq]
      exact hc.bind (pure _)
    | false =>
      rw [hq] at hc
      simp only [List.findM?, List.find?_cons, hq]
      exact hc.bind hl

end Answers

section
variable {f : MappedFile} {off n i : Nat}

theorem ldInt_answers (w : Nat) (h : off + w / 8 ≤ f.size) :
    Answers (ldInt f w off) (f.field w off) :=
  fun _ => ⟨_, ldInt_runs h, rfl⟩

theorem validate_answers {cond : Bool} (h : cond = true) : Answers (validate cond) () := by
  rw [h]
  exact .pure ()

-- ---------------------------------------------------------------------------
-- Names
-- ---------------------------------------------------------------------------

def MappedFile.StringAt (f : MappedFile) (off : Nat) (name : List U8) : Prop :=
  ∀ k < name.length + 1, f.byte (off + k) = (name ++ [0]).getD k 0

instance (f : MappedFile) (off : Nat) (name : List U8) : Decidable (f.StringAt off name) :=
  inferInstanceAs (Decidable (∀ k < name.length + 1, _))

def MappedFile.Terminated (f : MappedFile) (off : Nat) : Prop :=
  ∃ k, off + k < f.size ∧ f.byte (off + k) = 0

theorem field_8 (f : MappedFile) (off : Nat) : f.field 8 off = f.byte off := by
  simp [MappedFile.field, bytesLE]

theorem stringAt_nil : f.StringAt off [] ↔ f.byte off = 0 := by
  simp [MappedFile.StringAt]

theorem stringAt_cons {c : U8} {name : List U8} :
    f.StringAt off (c :: name) ↔ f.byte off = c ∧ f.StringAt (off + 1) name := by
  constructor
  · intro h
    refine ⟨h 0 (Nat.succ_pos _), fun k hk => ?_⟩
    have hbyte := h (k + 1) (Nat.succ_lt_succ hk)
    rwa [Nat.add_comm k 1, ← Nat.add_assoc, Nat.add_comm 1 k] at hbyte
  · rintro ⟨hfirst, hrest⟩ k hk
    cases k with
    | zero => exact hfirst
    | succ k =>
      have hbyte := hrest k (Nat.lt_of_succ_lt_succ hk)
      rwa [Nat.add_assoc, Nat.add_comm 1 k] at hbyte

theorem ldStrcmp_answers {name : List U8} (hname : 0 ∉ name) (h : f.Terminated off) :
    Answers (ldStrcmp f name off) (decide (f.StringAt off name)) := by
  have hoff : off + 8 / 8 ≤ f.size := by
    obtain ⟨k, hk, -⟩ := h
    omega
  have hread := ldInt_answers 8 hoff
  rw [field_8] at hread
  induction name generalizing off with
  | nil =>
    refine hread.bind ?_
    rw [decide_eq_decide.mpr stringAt_nil]
    exact .pure _
  | cons c name ih =>
    rw [List.mem_cons, not_or] at hname
    refine hread.bind ?_
    by_cases hc : f.byte off = c
    · have hrest : f.Terminated (off + 1) := by
        obtain ⟨k, hk, hzero⟩ := h
        cases k with
        | zero => exact absurd (hzero.symm.trans hc) hname.1
        | succ k => exact ⟨k, by omega, by rwa [Nat.add_assoc, Nat.add_comm 1 k]⟩
      have hoff' : off + 1 + 8 / 8 ≤ f.size := by
        obtain ⟨k, hk, -⟩ := hrest
        omega
      have hread' := ldInt_answers 8 hoff'
      rw [field_8] at hread'
      rw [decide_eq_decide.mpr (stringAt_cons.trans (and_iff_right hc)), if_pos (by simp [hc])]
      exact ih hname.2 hrest hoff' hread'
    · have hnot : ¬ f.StringAt off (c :: name) := fun h => hc (stringAt_cons.mp h).1
      rw [decide_eq_false hnot, if_neg (by simp [hc])]
      exact .pure false

-- ---------------------------------------------------------------------------
-- Sections and symbols
-- ---------------------------------------------------------------------------

def MappedFile.shoff (f : MappedFile) : Nat := (f.field 32 32).toNat
def MappedFile.shnum (f : MappedFile) : Nat := (f.field 16 48).toNat

def MappedFile.sect (f : MappedFile) (i member : Nat) : U32 :=
  f.field 32 (f.shoff + Shdr.bytes * i + member)

/-- The index of the section of names, which may be too large for the header. -/
def MappedFile.shstrndx (f : MappedFile) : Nat :=
  if shnLoreserve.toNat ≤ (f.field 16 50).toNat then (f.sect 0 Shdr.link).toNat
  else (f.field 16 50).toNat

def MappedFile.sectName (f : MappedFile) (i : Nat) : Nat :=
  (f.sect f.shstrndx Shdr.offset).toNat + (f.sect i Shdr.name).toNat

def MappedFile.section? (f : MappedFile) (name : List U8) : Option Nat :=
  (List.range f.shnum).find? fun i => decide (f.StringAt (f.sectName i) name)

def MappedFile.sym (f : MappedFile) (symtab i member : Nat) : U32 :=
  f.field 32 ((f.sect symtab Shdr.offset).toNat + Sym.bytes * i + member)

def MappedFile.symNum (f : MappedFile) (symtab : Nat) : Nat :=
  (f.sect symtab Shdr.size / f.sect symtab Shdr.entsize).toNat

def MappedFile.symName (f : MappedFile) (symtab strtab i : Nat) : Nat :=
  (f.sect strtab Shdr.offset).toNat + (f.sym symtab i Sym.name).toNat

def MappedFile.symbol? (f : MappedFile) (symtab strtab : Nat) (name : List U8) : Option U32 :=
  ((List.range (f.symNum symtab)).find? fun i =>
    decide (f.StringAt (f.symName symtab strtab i) name)).map fun i => f.sym symtab i Sym.value

structure MappedFile.Executable (f : MappedFile) : Prop where
  /-- the magic number, ELFCLASS32, ELFDATA2LSB, EV_CURRENT, ELFOSABI_SYSV and version 0 -/
  ident : (List.range 9).map f.byte = [0x7F, 0x45, 0x4C, 0x46, 1, 1, 1, 0, 0]
  type : f.field 16 16 = 2
  machine : f.field 16 18 = 243
  entry : f.field 32 24 ≠ 0
  phoff : f.field 32 28 ≠ 0
  shoff : f.field 32 32 ≠ 0
  shstrndx : f.field 16 50 ≠ 0

/-- The sections and the symbols are in the file, and so are the ends of their names. -/
structure MappedFile.Linked (f : MappedFile) (symtab strtab : Nat) : Prop where
  header : 52 ≤ f.size
  sections : f.shoff + Shdr.bytes * f.shnum ≤ f.size
  shstrndx : f.shstrndx < f.shnum
  sectNames : ∀ i < f.shnum, f.Terminated (f.sectName i)
  symtab_eq : f.section? (ascii ".symtab") = some symtab
  strtab_eq : f.section? (ascii ".strtab") = some strtab
  entsize : f.sect symtab Shdr.entsize ≠ 0
  symbols : (f.sect symtab Shdr.offset).toNat + Sym.bytes * f.symNum symtab ≤ f.size
  symNames : ∀ i < f.symNum symtab, f.Terminated (f.symName symtab strtab i)

-- ---------------------------------------------------------------------------
-- What the functions of the loader find
-- ---------------------------------------------------------------------------

theorem ldElfValidate_answers (hx : f.Executable) (hheader : 52 ≤ f.size) :
    Answers (ldElfValidate f) () := by
  have hident (i : Nat) (hi : i < 9) (v : U8)
      (hv : [0x7F, 0x45, 0x4C, 0x46, 1, 1, 1, 0, 0][i]? = some v) :
      Answers (Ehdr.ident f i) v := by
    have hbyte : ((List.range 9).map f.byte)[i]? = some v := by rw [hx.ident, hv]
    simp only [List.getElem?_map, List.getElem?_range hi, Option.map_some, Option.some.injEq]
      at hbyte
    rw [← hbyte, ← field_8]
    exact ldInt_answers 8 (by omega)
  have hfield (w k : Nat) (hk : k + w / 8 ≤ 52) : Answers (ldInt f w k) (f.field w k) :=
    ldInt_answers w (by omega)
  unfold ldElfValidate
  refine (hident 0 (by decide) _ rfl).bind ((validate_answers (by decide)).bind ?_)
  refine (hident 1 (by decide) _ rfl).bind ((validate_answers (by decide)).bind ?_)
  refine (hident 2 (by decide) _ rfl).bind ((validate_answers (by decide)).bind ?_)
  refine (hident 3 (by decide) _ rfl).bind ((validate_answers (by decide)).bind ?_)
  refine (hident 4 (by decide) _ rfl).bind ((validate_answers (by decide)).bind ?_)
  refine (hident 4 (by decide) _ rfl).bind ((validate_answers (by decide)).bind ?_)
  refine (hident 6 (by decide) _ rfl).bind ((validate_answers (by decide)).bind ?_)
  refine (hident 7 (by decide) _ rfl).bind ((validate_answers (by decide)).bind ?_)
  refine (hident 8 (by decide) _ rfl).bind ((validate_answers (by decide)).bind ?_)
  refine (hfield 16 16 (by decide)).bind ((validate_answers (by simp [hx.type])).bind ?_)
  refine (hfield 16 18 (by decide)).bind ((validate_answers (by simp [hx.machine])).bind ?_)
  refine (hfield 32 24 (by decide)).bind ((validate_answers (bne_iff_ne.mpr hx.entry)).bind ?_)
  refine (hfield 32 28 (by decide)).bind ((validate_answers (bne_iff_ne.mpr hx.phoff)).bind ?_)
  refine (hfield 32 32 (by decide)).bind ((validate_answers (bne_iff_ne.mpr hx.shoff)).bind ?_)
  exact (hfield 16 50 (by decide)).bind (validate_answers (bne_iff_ne.mpr hx.shstrndx))

namespace MappedFile.Linked

variable {symtab strtab : Nat} {elf : ElfFile} {name : List U8}

theorem sect (h : f.Linked symtab strtab) (hi : i < f.shnum) (member : Nat)
    (hmember : member + 4 ≤ Shdr.bytes) :
    Answers (ldInt f 32 (f.shoff + Shdr.bytes * i + member)) (f.sect i member) := by
  have hsections := h.sections
  simp only [Shdr.bytes] at hsections hmember
  exact ldInt_answers 32 (by simp only [Shdr.bytes]; omega)

theorem sym (h : f.Linked symtab strtab) (hi : i < f.symNum symtab) (member : Nat)
    (hmember : member + 4 ≤ Sym.bytes) :
    Answers (ldInt f 32 ((f.sect symtab Shdr.offset).toNat + Sym.bytes * i + member))
      (f.sym symtab i member) := by
  have hsymbols := h.symbols
  simp only [Sym.bytes] at hsymbols hmember
  exact ldInt_answers 32 (by simp only [Sym.bytes]; omega)

theorem section_lt {j : Nat} (hj : f.section? name = some j) : j < f.shnum :=
  List.mem_range.mp (List.mem_of_find?_eq_some hj)

theorem getsect (h : f.Linked symtab strtab) (hsections : elf.sections = f.shoff)
    (hnames : elf.sectionsNames = (f.sect f.shstrndx Shdr.offset).toNat)
    (name : List U8) (hname : 0 ∉ name) :
    Answers (ldElfGetsect f elf name)
      ((f.section? name).map fun i => f.shoff + Shdr.bytes * i) := by
  have hshnum : Answers (Ehdr.shnum f) (f.field 16 48) :=
    ldInt_answers 16 (by have := h.header; omega)
  unfold ldElfGetsect
  simp only [hsections, hnames]
  refine hshnum.bind (Answers.bind (.findM fun i hi => ?_) (.pure _))
  have hi' : i < f.shnum := List.mem_range.mp hi
  exact (h.sect hi' Shdr.name (by decide)).bind (ldStrcmp_answers hname (h.sectNames i hi'))

theorem getsym (h : f.Linked symtab strtab) (elf : ElfFile)
    (hsize : elf.symbSize = f.symNum symtab)
    (hsymbols : elf.symbols = (f.sect symtab Shdr.offset).toNat)
    (hnames : elf.symbolsNames = (f.sect strtab Shdr.offset).toNat) (hname : 0 ∉ name) :
    Answers (ldElfGetsym f elf name) (((List.range (f.symNum symtab)).find? fun i =>
      decide (f.StringAt (f.symName symtab strtab i) name)).map fun i =>
        (f.sect symtab Shdr.offset).toNat + Sym.bytes * i) := by
  unfold ldElfGetsym
  simp only [hsize, hsymbols, hnames]
  refine Answers.bind (.findM fun i hi => ?_) (.pure _)
  have hi' := List.mem_range.mp hi
  exact (h.sym hi' Sym.name (by decide)).bind (ldStrcmp_answers hname (h.symNames i hi'))

theorem shstrndx_answers (h : f.Linked symtab strtab) (hsections : elf.sections = f.shoff) :
    Answers (ldElfShstrndx f elf) (BitVec.ofNat 32 f.shstrndx) := by
  have hpos : 0 < f.shnum := Nat.zero_lt_of_lt h.shstrndx
  have hlink := h.sect hpos Shdr.link (by decide)
  have hidx : Answers (Ehdr.shstrndx f) (f.field 16 50) :=
    ldInt_answers 16 (by have := h.header; omega)
  have hwidth : ((f.field 16 50).setWidth 32 : U32).toNat = (f.field 16 50).toNat :=
    BitVec.toNat_setWidth_of_le (by decide)
  refine hidx.bind ?_
  simp only [hsections, MappedFile.shstrndx, BitVec.le_def, hwidth]
  split
  · simp only [Nat.mul_zero, Nat.add_zero] at hlink
    rw [BitVec.ofNat_toNat, BitVec.setWidth_eq]
    exact hlink
  · rw [BitVec.ofNat_toNat]
    exact .pure _

theorem sectionNames (h : f.Linked symtab strtab) (hsections : elf.sections = f.shoff) :
    Answers (ldElfSectionNames f elf)
      { elf with sectionsNames := (f.sect f.shstrndx Shdr.offset).toNat } := by
  have hidx : (BitVec.ofNat 32 f.shstrndx).toNat = f.shstrndx := by
    have hshnum := (f.field 16 48).isLt
    have hlt : f.shstrndx < (f.field 16 48).toNat := h.shstrndx
    rw [BitVec.toNat_ofNat, Nat.mod_eq_of_lt (by omega)]
  have hread : Answers (ldRead f (f.shoff + Shdr.bytes * f.shstrndx) Shdr.bytes)
      ((List.range Shdr.bytes).map fun j => f.byte (f.shoff + Shdr.bytes * f.shstrndx + j)) := by
    have hsize := h.sections
    have hlt := h.shstrndx
    simp only [Shdr.bytes] at hsize ⊢
    exact fun s => ⟨_, ldRead_runs fun j hj => by omega, rfl⟩
  refine (h.shstrndx_answers hsections).bind ?_
  rw [hidx, hsections]
  refine hread.bind ?_
  have hoffset : intAt 32 ((List.range Shdr.bytes).map fun j =>
      f.byte (f.shoff + Shdr.bytes * f.shstrndx + j)) Shdr.offset =
        f.sect f.shstrndx Shdr.offset := by
    refine congrArg (BitVec.ofNat 32) (bytesLE_congr fun j hj => ?_)
    have hlt : Shdr.offset + j < Shdr.bytes := by simp only [Shdr.offset, Shdr.bytes]; omega
    simp [hlt, Nat.add_assoc]
  rw [hoffset]
  exact .pure _

theorem symbols_answers (h : f.Linked symtab strtab) (hsections : elf.sections = f.shoff)
    (hnames : elf.sectionsNames = (f.sect f.shstrndx Shdr.offset).toNat) :
    Answers (ldElfSymbols f elf)
      { elf with
        symbSize := f.symNum symtab, symbols := (f.sect symtab Shdr.offset).toNat
        symbolsNames := (f.sect strtab Shdr.offset).toNat } := by
  have hsymtab := h.getsect hsections hnames (ascii ".symtab") (by decide)
  have hstrtab := h.getsect hsections hnames (ascii ".strtab") (by decide)
  rw [h.symtab_eq] at hsymtab
  rw [h.strtab_eq] at hstrtab
  have hlt := section_lt h.symtab_eq
  refine hsymtab.bind ?_
  refine (h.sect hlt Shdr.size (by decide)).bind ?_
  refine (h.sect hlt Shdr.entsize (by decide)).bind ?_
  rw [if_neg h.entsize]
  refine (h.sect hlt Shdr.offset (by decide)).bind ?_
  refine hstrtab.bind ?_
  exact (h.sect (section_lt h.strtab_eq) Shdr.offset (by decide)).bind (.pure _)

end MappedFile.Linked

def MappedFile.elf (f : MappedFile) (symtab strtab : Nat) : ElfFile where
  progSize := (((f.field 16 42).setWidth 32 * (f.field 16 44).setWidth 32 : U32)).signExtend 64
  sectSize := (((f.field 16 46).setWidth 32 * (f.field 16 48).setWidth 32 : U32)).signExtend 64
  symbSize := f.symNum symtab
  programs := f.phoff
  sections := f.shoff
  symbols := (f.sect symtab Shdr.offset).toNat
  symbolsNames := (f.sect strtab Shdr.offset).toNat
  sectionsNames := (f.sect f.shstrndx Shdr.offset).toNat

namespace MappedFile.Linked

variable {symtab strtab : Nat} {name : List U8}

theorem tables (h : f.Linked symtab strtab) (hx : f.Executable) :
    Answers (ldElfTables f) (f.elf symtab strtab) := by
  have hheader := h.header
  have hfield (w k : Nat) (hk : k + w / 8 ≤ 52) : Answers (ldInt f w k) (f.field w k) :=
    ldInt_answers w (by omega)
  refine (ldElfValidate_answers hx hheader).bind ?_
  refine (hfield 32 28 (by decide)).bind ((hfield 32 32 (by decide)).bind ?_)
  refine (hfield 16 42 (by decide)).bind ((hfield 16 44 (by decide)).bind ?_)
  refine (hfield 16 46 (by decide)).bind ((hfield 16 48 (by decide)).bind ?_)
  exact (h.sectionNames rfl).bind (h.symbols_answers rfl rfl)

theorem symbol (h : f.Linked symtab strtab) (hname : 0 ∉ name) (other : LdM U32) (v : U32)
    (hother : f.symbol? symtab strtab name = none → Answers other v) :
    Answers (do
      match ← ldElfGetsym f (f.elf symtab strtab) name with
      | none => other
      | some sym => ldInt f 32 (sym + Sym.value)) ((f.symbol? symtab strtab name).getD v) := by
  have hsym := h.getsym (f.elf symtab strtab) rfl rfl rfl hname
  refine hsym.bind ?_
  simp only [MappedFile.symbol?] at hother ⊢
  cases hfind : (List.range (f.symNum symtab)).find? fun i =>
      decide (f.StringAt (f.symName symtab strtab i) name) with
  | none =>
    rw [hfind] at hother
    exact hother rfl
  | some i =>
    have hi := List.mem_range.mp (List.mem_of_find?_eq_some hfind)
    exact h.sym hi Sym.value (by decide)

theorem gp (h : f.Linked symtab strtab) (gp : U32) :
    Answers (ldElfGp f (f.elf symtab strtab) gp)
      ((f.symbol? symtab strtab (ascii "__global_pointer$")).getD gp) :=
  h.symbol (by decide) _ gp fun _ => .pure gp

theorem brk (h : f.Linked symtab strtab)
    (hbss : f.symbol? symtab strtab (ascii "__BSS_END__") ≠ none) (v : U32) :
    Answers (ldElfBrk f (f.elf symtab strtab))
      ((f.symbol? symtab strtab (ascii "__BSS_END__")).getD v) :=
  h.symbol (by decide) _ v fun hnone => absurd hnone hbss

end MappedFile.Linked

end

-- ---------------------------------------------------------------------------
-- The image
-- ---------------------------------------------------------------------------

/-- The bytes of the file where its segments say, zeros behind them, and nothing else changed. -/
structure Image (f : MappedFile) (mem mem' : Mem) : Prop where
  size : mem'.size = mem.size
  file : ∀ g ∈ f.segs, ∀ k < g.filesz, mem'.byte (g.vaddr + k) = f.byte (g.offset + k)
  zero : ∀ g ∈ f.segs, ∀ k, g.filesz ≤ k → k < g.memsz → mem'.byte (g.vaddr + k) = 0
  others : ∀ a, (∀ g ∈ f.segs, ¬ g.Has a) → mem'.byte a = mem.byte a

section
variable {f : MappedFile} {symtab strtab : Nat} {s : LdState} {build : Build}

/-- What has been read before makes no difference to the load. -/
theorem ldElfSeg_image (elf : ElfFile) (s : LdState) (hf : f.WellFormed s.mem.size)
    (helf : elf.programs = f.phoff) (hfits : ∀ g ∈ f.segs, g.Fits f s.mem.size) :
    ∃ s', Runs (ldElfSeg f elf) s () s' ∧ Image f s.mem s'.mem := by
  have hall : ∀ g ∈ f.segs, g.filesz ≤ g.memsz ∧ g.Fits f s.mem.size :=
    fun g hg => ⟨hf.filesz g hg, hfits g hg⟩
  have hruns (s₁ : LdState) (hmem : s₁.mem = s.mem) : ∃ s', Runs (ldElfSeg f elf) s₁ () s' ∧
      s'.mem.size = s.mem.size ∧
      s'.mem.byte = Overlay.last (f.segs.map (Seg.image f)) s.mem.byte := by
    obtain ⟨s', hrun, hsize, hbyte, -⟩ := segs_runs (s := s₁.read 44 2) helf
      (fun _ => hf.phdr_le) (by rw [LdState.read, hmem]; exact hall)
    refine ⟨s', (out_ldElfSeg hf s₁).trans hrun, hsize.trans ?_, hbyte.trans ?_⟩ <;>
      rw [LdState.read, hmem]
    rfl
  obtain ⟨s', hrun, hsize, hbyte⟩ := hruns s rfl
  obtain ⟨s₁, hrun₁, -, hbyte₁⟩ := hruns (.start s.mem) rfl
  have hloaded := loaded_of_fits hf helf hfits
  rw [hrun₁] at hloaded
  have hsame : s'.mem.byte = s₁.mem.byte := hbyte.trans hbyte₁.symm
  refine ⟨s', hrun, hsize, ?_, ?_, ?_⟩ <;> rw [hsame]
  · exact hloaded.file
  · exact hloaded.zero
  · exact hloaded.others

def MappedFile.coreInit (f : MappedFile) (symtab strtab : Nat) (build : Build) (init : VCoreInit) :
    VCoreInit :=
  { init with
    pc := f.field 32 24
    gp := (f.symbol? symtab strtab (ascii "__global_pointer$")).getD init.gp
    elfBrk := match build with
      | .supervisor => init.elfBrk
      | .user => (f.symbol? symtab strtab (ascii "__BSS_END__")).getD init.elfBrk }

/-- What `ld_elf` does in both builds. -/
theorem ldElfImage_linked (hx : f.Executable) (hl : f.Linked symtab strtab)
    (hf : f.WellFormed s.mem.size) (hfits : ∀ g ∈ f.segs, g.Fits f s.mem.size)
    (init : VCoreInit) :
    ∃ s', Runs (ldElfImage f init) s (f.elf symtab strtab, { init with
        pc := f.field 32 24
        gp := (f.symbol? symtab strtab (ascii "__global_pointer$")).getD init.gp }) s' ∧
      Image f s.mem s'.mem := by
  have hentry : Answers (Ehdr.entry f) (f.field 32 24) :=
    ldInt_answers 32 (by have := hl.header; omega)
  obtain ⟨s₁, htables, hmem₁⟩ := hl.tables hx s
  obtain ⟨s₂, hseg, himage⟩ := ldElfSeg_image (f.elf symtab strtab) s₁ (by rwa [hmem₁])
    rfl (by rwa [hmem₁])
  obtain ⟨s₃, hentry, hmem₃⟩ := hentry s₂
  obtain ⟨s₄, hgp, hmem₄⟩ := hl.gp init.gp s₃
  rw [hmem₁] at himage
  refine ⟨s₄, htables.bind (Runs.bind hseg (hentry.bind (hgp.bind (out_pure _ s₄)))), ?_⟩
  rwa [hmem₄, hmem₃]

/-- A linked file whose segments fit is loaded, in both builds: `ld_elf` comes to its end with the
entry point, the global pointer and the break that the file names, and the image in memory. -/
theorem ldElf_linked (hx : f.Executable) (hl : f.Linked symtab strtab)
    (hf : f.WellFormed s.mem.size) (hfits : ∀ g ∈ f.segs, g.Fits f s.mem.size)
    (hbss : build = .user → f.symbol? symtab strtab (ascii "__BSS_END__") ≠ none)
    (init : VCoreInit) :
    ∃ s', Runs (ldElf build (some f) init) s (f.coreInit symtab strtab build init) s' ∧
      Image f s.mem s'.mem := by
  have hsize : f.size ≠ 0 := by have := hl.header; omega
  obtain ⟨s₁, hrun, himage⟩ := ldElfImage_linked hx hl hf hfits init
  cases build with
  | supervisor =>
    refine ⟨s₁, ?_, himage⟩
    rw [ldElf_supervisor hsize]
    exact hrun.bind (out_pure _ s₁)
  | user =>
    obtain ⟨s₂, hbrk, hmem₂⟩ := hl.brk (hbss rfl) init.elfBrk s₁
    refine ⟨s₂, ?_, by rwa [hmem₂]⟩
    rw [ldElf_user hsize]
    exact hrun.bind (hbrk.bind (out_pure _ s₂))

end

/-- A file of one segment with four bytes of code and four zeros, and with the two symbols. -/
def linkedFile : MappedFile where
  size := 304
  size_lt := by decide
  behind k := if k < 4096 then some 0 else none
  byte k :=
    (([0x464C457F, 0x00010101, 0, 0, 0x00F30002, 1, 0x1000, 52, 184, 0, 0x00200034, 0x00280001,
        0x00020003,
        -- the program header, and the code
        1, 84, 0x1000, 0x1000, 4, 8, 7, 4, 0x0000006F,
        -- the names of the sections, then those of the symbols
        0x79732E00, 0x6261746D, 0x74732E00, 0x62617472,
        0x675F5F00, 0x61626F6C, 0x6F705F6C, 0x65746E69, 0x5F002472, 0x5353425F, 0x444E455F, 0x5F5F,
        -- the symbols
        0, 0, 0, 0, 17, 0x1800, 0, 0, 35, 0x1008, 0, 0,
        -- the section headers
        0, 0, 0, 0, 0, 0, 0, 0, 0, 0,
        1, 2, 0, 0, 136, 48, 2, 0, 4, 16,
        9, 3, 0, 0, 88, 48, 0, 0, 1, 0] : List U32).getD (k / 4) 0 >>> (8 * (k % 4))).setWidth 8

theorem linkedFile_executable : linkedFile.Executable := by
  constructor <;> decide +kernel

theorem linkedFile_linked : linkedFile.Linked 1 2 := by
  -- the last byte of the names
  have hend (off : Nat) (h : off ≤ 135) : linkedFile.Terminated off := by
    refine ⟨135 - off, ?_, ?_⟩
    · rw [Nat.add_sub_cancel' h]
      decide
    · rw [Nat.add_sub_cancel' h]
      decide
  have hsect : ∀ i < linkedFile.shnum, linkedFile.sectName i ≤ 135 := by decide +kernel
  have hsym : ∀ i < linkedFile.symNum 1, linkedFile.symName 1 2 i ≤ 135 := by decide +kernel
  exact {
    header := by decide
    sections := by decide +kernel
    shstrndx := by decide +kernel
    sectNames := fun i hi => hend _ (hsect i hi)
    symtab_eq := by decide +kernel
    strtab_eq := by decide +kernel
    entsize := by decide +kernel
    symbols := by decide +kernel
    symNames := fun i hi => hend _ (hsym i hi) }

theorem linkedFile_segs : linkedFile.segs = [⟨84, 0x1000, 4, 8⟩] := by decide +kernel

theorem linkedFile_wellFormed : linkedFile.WellFormed megabyte.size := by
  have hsegs := linkedFile_segs
  exact {
    header := by decide
    table := by decide +kernel
    filesz := by simp [hsegs]
    inFile := by
      rw [hsegs]
      simp [linkedFile]
    inMemory := by simp [hsegs, megabyte]
    disjoint := by simp [hsegs] }

/-- The two symbols are found, and the end of the segment is zero. -/
theorem ldElf_linked_user :
    ∃ s', Runs (ldElf .user (some linkedFile) noInit) (.start megabyte)
        { noInit with pc := 0x1000, gp := 0x1800, elfBrk := 0x1008 } s' ∧
      s'.mem.byte 0x1004 = 0 := by
  have hfits : ∀ g ∈ linkedFile.segs, g.Fits linkedFile megabyte.size := by
    rw [linkedFile_segs]
    simp [Seg.Fits, megabyte, linkedFile]
    omega
  have hpc : linkedFile.field 32 24 = 0x1000 := by decide +kernel
  have hgp : linkedFile.symbol? 1 2 (ascii "__global_pointer$") = some 0x1800 := by decide +kernel
  have hbss : linkedFile.symbol? 1 2 (ascii "__BSS_END__") = some 0x1008 := by decide +kernel
  have hload : ∃ s', Runs (ldElf .user (some linkedFile) noInit) (.start megabyte)
      (linkedFile.coreInit 1 2 .user noInit) s' ∧ Image linkedFile megabyte s'.mem :=
    ldElf_linked linkedFile_executable linkedFile_linked linkedFile_wellFormed hfits
      (by simp [hbss]) noInit
  obtain ⟨s', hrun, himage⟩ := hload
  simp only [MappedFile.coreInit, hpc, hgp, hbss, Option.getD_some] at hrun
  refine ⟨s', hrun, ?_⟩
  exact himage.zero ⟨84, 0x1000, 4, 8⟩ (by simp [linkedFile_segs]) 4 (by decide) (by decide)

end SwitchV32
