import SwitchV32.Effect
import SwitchV32.Overlay
import SwitchV32.User
import SwitchV32.Stub.Text

/-!
# Loading a program

`loader.c`: what `ld_bin` and `ld_elf` read of the mapped file and write to
guest memory. The fields of the ELF structures are read where the code reads
them, through pointers that the file itself gives.
-/

namespace SwitchV32

-- ---------------------------------------------------------------------------
-- The file and the accesses
-- ---------------------------------------------------------------------------

inductive LdStop
  /-- `SV32_CRASH` -/
  | crash
  /-- an access to what is not mapped, or a write behind guest memory -/
  | fault
  /-- a division by zero -/
  | fpe
  deriving DecidableEq, Repr

/-- A file of `st_size` bytes that `mmap` has mapped. -/
structure MappedFile where
  size : Nat
  size_lt : size < 2 ^ 63
  byte : Nat → U8
  /-- What else the host has mapped, by the distance from the file's first byte. -/
  behind : Nat → Option U8

/-- `elf->data[off]`; addresses wrap around. -/
def MappedFile.host (f : MappedFile) (off : Nat) : Option U8 :=
  let off := off % 2 ^ 64
  if off < f.size then some (f.byte off) else f.behind off

/-- The accesses are kept as first place and length: those to the file by their offset, those to
guest memory by their address. -/
structure LdState where
  mem : Mem
  reads : List (Nat × Nat)
  writes : List (Nat × Nat)

abbrev LdM := Effect LdState LdStop

def LdState.start (mem : Mem) : LdState := ⟨mem, [], []⟩

def LdState.read (s : LdState) (off n : Nat) : LdState := { s with reads := (off, n) :: s.reads }

def LdState.write (s : LdState) (addr n : Nat) : LdState :=
  { s with writes := (addr, n) :: s.writes }

def LdState.put (s : LdState) (addr : Nat) (values : List U8) : LdState :=
  { s with mem := { s.mem with byte := (Overlay.mk addr values).put s.mem.byte } }

def ldRead (f : MappedFile) (off n : Nat) : LdM (List U8) := do
  modify fun s => s.read off n
  match (List.range n).mapM fun j => f.host (off + j) with
  | none => throw .fault
  | some bytes => return bytes

def intAt (w : Nat) (bytes : List U8) (k : Nat) : BitVec w :=
  BitVec.ofNat w (bytesLE (fun i => bytes.getD i 0) k (w / 8))

def ldInt (f : MappedFile) (w off : Nat) : LdM (BitVec w) := do
  let bytes ← ldRead f off (w / 8)
  return intAt w bytes 0

def ldPut (addr : Nat) (values : List U8) : LdM Unit := do
  let s ← get
  if addr + values.length ≤ s.mem.size then set (s.put addr values) else throw .fault

/-- `memcpy` from the file. Where it ends early, it may have written any of the bytes. -/
def memWbPtrS (f : MappedFile) (addr : U32) (off n : Nat) : LdM Unit := do
  modify fun s => s.write addr.toNat n
  let bytes ← ldRead f off n
  ldPut addr.toNat bytes

def memWbS (addr : U32) (input : U8) (n : Nat) : LdM Unit := do
  modify fun s => s.write addr.toNat n
  ldPut addr.toNat (List.replicate n input)

/-- `VALID_ADDR(addr, io_sz)`, added in the width of a host address. -/
def validAddr (m : Mem) (addr ioSz : U32) : Bool := addr.toNat + ioSz.toNat < m.size

-- ---------------------------------------------------------------------------
-- ELF structures
-- ---------------------------------------------------------------------------

namespace Ehdr

variable (f : MappedFile)

def ident (i : Nat) : LdM U8 := ldInt f 8 i
def type : LdM U16 := ldInt f 16 16
def machine : LdM U16 := ldInt f 16 18
def entry : LdM U32 := ldInt f 32 24
def phoff : LdM U32 := ldInt f 32 28
def shoff : LdM U32 := ldInt f 32 32
def phentsize : LdM U16 := ldInt f 16 42
def phnum : LdM U16 := ldInt f 16 44
def shentsize : LdM U16 := ldInt f 16 46
def shnum : LdM U16 := ldInt f 16 48
def shstrndx : LdM U16 := ldInt f 16 50

end Ehdr

/-- `sizeof(Elf32_Phdr)`, and the offsets of its members. -/
def Phdr.bytes : Nat := 32
def Phdr.type : Nat := 0
def Phdr.offset : Nat := 4
def Phdr.vaddr : Nat := 8
def Phdr.filesz : Nat := 16
def Phdr.memsz : Nat := 20

/-- `sizeof(Elf32_Shdr)`, and the offsets of its members. -/
def Shdr.bytes : Nat := 40
def Shdr.name : Nat := 0
def Shdr.offset : Nat := 16
def Shdr.size : Nat := 20
def Shdr.link : Nat := 24
def Shdr.entsize : Nat := 36

/-- `sizeof(Elf32_Sym)`, and the offsets of its members. -/
def Sym.bytes : Nat := 16
def Sym.name : Nat := 0
def Sym.value : Nat := 4

def ptLoad : U32 := 1
def shnLoreserve : U32 := 0xff00

/-- `Elf_File`, its pointers as offsets from `data`. -/
structure ElfFile where
  progSize : BitVec 64
  sectSize : BitVec 64
  symbSize : Nat
  programs : Nat
  sections : Nat
  symbols : Nat
  symbolsNames : Nat
  sectionsNames : Nat

def validate (cond : Bool) : LdM Unit := if cond then pure () else throw .crash

/-- The class is also what is compared with the data encoding. -/
def ldElfValidate (f : MappedFile) : LdM Unit := do
  validate ((← Ehdr.ident f 0) == 0x7F)
  validate ((← Ehdr.ident f 1) == 0x45)
  validate ((← Ehdr.ident f 2) == 0x4C)
  validate ((← Ehdr.ident f 3) == 0x46)
  -- ELFCLASS32, then ELFDATA2LSB
  validate ((← Ehdr.ident f 4) == 1)
  validate ((← Ehdr.ident f 4) == 1)
  -- EV_CURRENT, ELFOSABI_SYSV
  validate ((← Ehdr.ident f 6) == 1)
  validate ((← Ehdr.ident f 7) == 0)
  validate ((← Ehdr.ident f 8) == 0)
  -- ET_EXEC, EM_RISCV
  validate ((← Ehdr.type f) == 2)
  validate ((← Ehdr.machine f) == 243)
  validate ((← Ehdr.entry f) != 0)
  validate ((← Ehdr.phoff f) != 0)
  validate ((← Ehdr.shoff f) != 0)
  validate ((← Ehdr.shstrndx f) != 0)

/-- `strcmp(name, ...) == 0` for a string of the file. -/
def ldStrcmp (f : MappedFile) : List U8 → Nat → LdM Bool
  | [], off => do
    let b ← ldInt f 8 off
    return b == 0
  | c :: name, off => do
    let b ← ldInt f 8 off
    if b == c then ldStrcmp f name (off + 1) else return false

/-- The first section of the name, as the offset of its header. -/
def ldElfGetsect (f : MappedFile) (elf : ElfFile) (sectName : List U8) : LdM (Option Nat) := do
  let shnum ← Ehdr.shnum f
  let found ← (List.range shnum.toNat).findM? fun i => do
    let shName ← ldInt f 32 (elf.sections + Shdr.bytes * i + Shdr.name)
    ldStrcmp f sectName (elf.sectionsNames + shName.toNat)
  return found.map fun i => elf.sections + Shdr.bytes * i

def ldElfGetsym (f : MappedFile) (elf : ElfFile) (symName : List U8) : LdM (Option Nat) := do
  let found ← (List.range elf.symbSize).findM? fun i => do
    let stName ← ldInt f 32 (elf.symbols + Sym.bytes * i + Sym.name)
    ldStrcmp f symName (elf.symbolsNames + stName.toNat)
  return found.map fun i => elf.symbols + Sym.bytes * i

def ldElfShstrndx (f : MappedFile) (elf : ElfFile) : LdM U32 := do
  let idx : U32 := (← Ehdr.shstrndx f).setWidth 32
  if shnLoreserve ≤ idx then ldInt f 32 (elf.sections + Shdr.link) else return idx

def ldElfSectionNames (f : MappedFile) (elf : ElfFile) : LdM ElfFile := do
  let idx ← ldElfShstrndx f elf
  let shstrtab ← ldRead f (elf.sections + Shdr.bytes * idx.toNat) Shdr.bytes
  return { elf with sectionsNames := (intAt 32 shstrtab Shdr.offset).toNat }

def ldElfSymbols (f : MappedFile) (elf : ElfFile) : LdM ElfFile := do
  let some sect ← ldElfGetsect f elf (ascii ".symtab") | throw .crash
  let shSize ← ldInt f 32 (sect + Shdr.size)
  let shEntsize ← ldInt f 32 (sect + Shdr.entsize)
  if shEntsize = 0 then throw .fpe
  else
    let symbols ← ldInt f 32 (sect + Shdr.offset)
    let some sect ← ldElfGetsect f elf (ascii ".strtab") | throw .crash
    let symbolsNames ← ldInt f 32 (sect + Shdr.offset)
    return { elf with
      symbSize := (shSize / shEntsize).toNat, symbols := symbols.toNat
      symbolsNames := symbolsNames.toNat }

-- ---------------------------------------------------------------------------
-- Loading
-- ---------------------------------------------------------------------------

def ldElfLoad (f : MappedFile) (fsz memsz foff addr : U32) : LdM Unit := do
  let s ← get
  if !validAddr s.mem addr memsz then throw .crash
  else
    memWbPtrS f addr foff.toNat memsz.toNat
    -- for bss section
    if fsz < memsz then memWbS (addr + fsz) 0 (memsz - fsz).toNat
    else return

/-- One turn of the loop: the program header at `programs + i`. -/
def ldElfSegAt (f : MappedFile) (elf : ElfFile) (i : Nat) : LdM Unit := do
  let phdr := elf.programs + Phdr.bytes * i
  let type ← ldInt f 32 (phdr + Phdr.type)
  if type != ptLoad then return
  else
    let fsz ← ldInt f 32 (phdr + Phdr.filesz)
    let memsz ← ldInt f 32 (phdr + Phdr.memsz)
    let foff ← ldInt f 32 (phdr + Phdr.offset)
    let addr ← ldInt f 32 (phdr + Phdr.vaddr)
    ldElfLoad f fsz memsz foff addr

def ldElfSeg (f : MappedFile) (elf : ElfFile) : LdM Unit := do
  let phnum ← Ehdr.phnum f
  (List.range phnum.toNat).forM (ldElfSegAt f elf)

/-- `none` is a file that cannot be opened. -/
def ldReadAndMapFile (file : Option MappedFile) : LdM MappedFile := do
  let some f := file | throw .crash
  if f.size = 0 then throw .crash
  else return f

def ldBin (file : Option MappedFile) (init : VCoreInit) : LdM VCoreInit := do
  let f ← ldReadAndMapFile file
  memWbPtrS f 0 0 f.size
  return { init with pc := 0 }

/-- `gp` stays where `__global_pointer$` is missing. -/
def ldElfGp (f : MappedFile) (elf : ElfFile) (gp : U32) : LdM U32 := do
  match ← ldElfGetsym f elf (ascii "__global_pointer$") with
  | none => return gp
  | some sym => ldInt f 32 (sym + Sym.value)

/-- The break where `__BSS_END__` is missing; the header is looked up by a size in bytes. -/
def ldElfBrk (f : MappedFile) (elf : ElfFile) : LdM U32 := do
  match ← ldElfGetsym f elf (ascii "__BSS_END__") with
  | none =>
    let last := BitVec.ofNat 64 elf.programs + BitVec.ofNat 64 Phdr.bytes * (elf.progSize - 1)
    let lastSegment ← ldRead f last.toNat Phdr.bytes
    return intAt 32 lastSegment Phdr.vaddr + intAt 32 lastSegment Phdr.memsz
  | some sym => ldInt f 32 (sym + Sym.value)

def ldElf (build : Build) (file : Option MappedFile) (init : VCoreInit) : LdM VCoreInit := do
  let f ← ldReadAndMapFile file
  ldElfValidate f
  let programs ← Ehdr.phoff f
  let sections ← Ehdr.shoff f
  let progSize : U32 := (← Ehdr.phentsize f).setWidth 32 * (← Ehdr.phnum f).setWidth 32
  let sectSize : U32 := (← Ehdr.shentsize f).setWidth 32 * (← Ehdr.shnum f).setWidth 32
  let elf ← ldElfSectionNames f
    { progSize := progSize.signExtend 64, sectSize := sectSize.signExtend 64
      programs := programs.toNat, sections := sections.toNat
      symbSize := 0, symbols := 0, symbolsNames := 0, sectionsNames := 0 }
  let elf ← ldElfSymbols f elf
  ldElfSeg f elf
  let entry ← Ehdr.entry f
  let gp ← ldElfGp f elf init.gp
  let init := { init with pc := entry, gp := gp }
  match build with
  | .supervisor => return init
  | .user =>
    let brk ← ldElfBrk f elf
    return { init with elfBrk := brk }

-- ---------------------------------------------------------------------------
-- Accesses inside
-- ---------------------------------------------------------------------------

open Effect

variable {f : MappedFile} {s : LdState} {off n addr : Nat}

theorem mapM_eq_map {α β : Type} {g : β → Option α} {h : β → α} {l : List β}
    (hg : ∀ b ∈ l, g b = some (h b)) : l.mapM g = some (l.map h) := by
  induction l with
  | nil => rfl
  | cons b l ih =>
    rw [List.mapM_cons, hg b (by simp), ih fun b' hb' => hg b' (by simp [hb'])]
    rfl

theorem MappedFile.host_eq (h : off < f.size) : f.host off = some (f.byte off) := by
  have hlt := f.size_lt
  have hmod : off % 2 ^ 64 = off := Nat.mod_eq_of_lt (by omega)
  simp only [MappedFile.host, hmod, if_pos h]

theorem ldRead_runs (h : ∀ j < n, off + j < f.size) :
    Runs (ldRead f off n) s ((List.range n).map fun j => f.byte (off + j)) (s.read off n) := by
  refine Runs.bind (out_modify _ s) ?_
  have hbytes : (List.range n).mapM (fun j => f.host (off + j)) =
      some ((List.range n).map fun j => f.byte (off + j)) := by
    exact mapM_eq_map fun j hj => MappedFile.host_eq (h j (List.mem_range.mp hj))
  rw [hbytes]
  rfl

theorem ldPut_runs {values : List U8} (h : addr + values.length ≤ s.mem.size) :
    Runs (ldPut addr values) s () (s.put addr values) := by
  refine Runs.bind (out_get s) ?_
  rw [if_pos h]
  rfl

end SwitchV32
