import SwitchV32.Harts.System
import SwitchV32.Loader.Linked
import SwitchV32.Options
import SwitchV32.User.Args
import SwitchV32.User.Streams

/-!
# From the command line to the first instruction

`main` of `main.c` up to `threads_mgr_init`: the options, guest memory, in the
user build the arguments and the streams of the program, and the program itself.
-/

namespace SwitchV32

open Effect
open User (Launched emuStd streamFile elfFdsBaseline)

-- ---------------------------------------------------------------------------
-- `main`
-- ---------------------------------------------------------------------------

structure BootHost (File : Type) where
  fds : Fds File
  /-- What is opened under a path for stream `k`, or made there. -/
  openStream : Nat → List U8 → Option File
  /-- The file of the program, opened and mapped. -/
  elf : List U8 → Option MappedFile
  /-- There is no file under the empty path. -/
  elf_nil : elf [] = none
  /-- The host has that much memory. -/
  mmap : Nat → Bool

/-- A string up to its NUL. -/
def cstr (str : List U8) : List U8 := str.takeWhile (· != 0)

def memInit (ctx : ArgsContext) (h : ctx.memorySize.toNat ≤ 2 ^ 32) : Mem where
  size := ctx.memorySize.toNat
  size_le := h
  byte _ := 0

section
variable {File : Type}

def BootHost.streams (host : BootHost File) (ctx : ArgsContext) : Nat → Option (Option File)
  | 0 => ctx.elfStdin.map (host.openStream 0)
  | 1 => ctx.elfStdout.map (host.openStream 1)
  | k => ctx.elfStderr.map (host.openStream k)

/-- The calls of `emu_args` and `emu_std`. -/
def bootUser (host : BootHost File) (ctx : ArgsContext) : LdM (Fds File) := do
  let some args := ctx.elfArgs | throw .fault
  emuArgs ctx.stackBase args
  match emuStd host.fds (host.streams ctx 0) (host.streams ctx 1) (host.streams ctx 2) with
  | .error _ => throw .crash
  | .ok fds => return fds

/-- `core0` is what the members of `core0_init` hold that nothing is assigned to. -/
def bootLoad (build : Build) (host : BootHost File) (ctx : ArgsContext) (core0 : VCoreInit) :
    LdM (Fds File × VCoreInit) := do
  let init := { core0 with sp := ctx.stackBase }
  let fds ← match build with
    | .supervisor => pure host.fds
    | .user => bootUser host ctx
  let file := host.elf (cstr ctx.elfName)
  let init ← if ctx.binary then ldBin file init else ldElf build file init
  return (fds, init)

structure Booted (File : Type) where
  ctx : ArgsContext
  fds : Fds File
  vmem : Mem
  core0Init : VCoreInit

/-- Up to `threads_mgr_init`, unless the process has ended before. -/
def boot (build : Build) (host : BootHost File) (opts : List Opt) (core0 : VCoreInit) :
    Option (Booted File) :=
  match h : ctxInit build opts with
  | .error _ => none
  | .ok ctx =>
    if host.mmap ctx.memorySize.toNat then
      match out (bootLoad build host ctx core0)
          (.start (memInit ctx (ctxInit_valid h).memorySize.2)) with
      | (.error _, _) => none
      | (.ok (fds, init), s) => some ⟨ctx, fds, s.mem, init⟩
    else none

def Booted.harts (b : Booted File) : Harts where
  ctx := { cores := b.ctx.cores.toNat, debug := b.ctx.debug }
  vmem := b.vmem
  cthreads i :=
    if i = 0 then ⟨.halted, .halt, .start, vcoreInit (some b.core0Init)⟩
    else ⟨.halted, .halt, .stop, vcoreInit (some
      { pc := 0, sp := 0, id := BitVec.ofNat 32 i, opaqueArg := 0, gp := 0, elfBrk := 0 })⟩
  phase _ := .idle

theorem Booted.harts_init (b : Booted File) (i : Nat) :
    Harts.threadsMgrInit b.core0Init i = .ok (b.harts.cthreads i) := by
  by_cases hi : i = 0
  · simp only [Harts.threadsMgrInit, Booted.harts, if_pos hi]
    rfl
  · simp only [Harts.threadsMgrInit, Booted.harts, if_neg hi]
    rfl

theorem Booted.start (b : Booted File) : b.harts.Start :=
  Harts.start_of_init (fun _ => rfl) b.harts_init

end

-- ---------------------------------------------------------------------------
-- The page of the arguments
-- ---------------------------------------------------------------------------

section
variable {m m' : Mem} {s s' : LdState} {base : U32} {ws : List (Overlay U8)} {a : Nat}
variable {ps : List Piece} {args : List U8} {toks : List (List U8)} {ptr : Nat → U32}

theorem memRw_congr (hsize : m'.size = m.size) {addr : U32}
    (hbyte : ∀ a, addr.toNat ≤ a → m'.byte a = m.byte a) : memRw m' addr = memRw m addr := by
  have hload : bytesLE m'.byte addr.toNat 4 = bytesLE m.byte addr.toNat 4 :=
    bytesLE_congr fun j _ => hbyte _ (Nat.le_add_right _ _)
  have hinside : m'.Inside addr 4 ↔ m.Inside addr 4 := by rw [Mem.Inside, hsize, Mem.Inside]
  simp only [memRw, Mem.load, hinside, hload]

theorem LaidOut.congr (h : LaidOut m base toks ptr) (hsize : m'.size = m.size)
    (hbyte : ∀ a, base.toNat ≤ a → m'.byte a = m.byte a)
    (hptr : ∀ i < toks.length, base.toNat ≤ (ptr i).toNat)
    (hoff : ∀ off ≤ 4 + 4 * toks.length,
      (base + BitVec.ofNat 32 off).toNat = base.toNat + off) : LaidOut m' base toks ptr := by
  have hword (off : Nat) (hle : off ≤ 4 + 4 * toks.length) :
      memRw m' (base + BitVec.ofNat 32 off) = memRw m (base + BitVec.ofNat 32 off) := by
    refine memRw_congr hsize fun a ha => hbyte a ?_
    rw [hoff off hle] at ha
    omega
  constructor
  case argc =>
    rw [memRw_congr hsize hbyte]
    exact h.argc
  case argv =>
    intro i hi
    rw [hword _ (by omega)]
    exact h.argv i hi
  case null =>
    rw [hword _ (Nat.le_refl _)]
    exact h.null
  case strings =>
    intro i hi
    obtain ⟨hin, hstring⟩ := h.strings i hi
    refine ⟨hsize ▸ hin, fun k hk => ?_⟩
    rw [hbyte _ (Nat.le_trans (hptr i hi) (Nat.le_add_right _ _))]
    exact hstring k hk
  case apart => exact h.apart
  case clear => exact h.clear

end

-- ---------------------------------------------------------------------------
-- The first instruction of a program
-- ---------------------------------------------------------------------------

/-- A linked file that fits below the page of the arguments. -/
structure Runnable (f : MappedFile) (symtab strtab size : Nat) : Prop where
  executable : f.Executable
  linked : f.Linked symtab strtab
  wellFormed : f.WellFormed size
  inFile : ∀ g ∈ f.segs, ∀ k < g.memsz, g.offset + k < f.size
  below : ∀ g ∈ f.segs, g.vaddr + g.memsz ≤ size - 4096
  brk : f.symbol? symtab strtab (ascii "__BSS_END__") ≠ none

section
variable {File : Type} {host : BootHost File} {opts : List Opt} {args : List U8} {f : MappedFile}
variable {symtab strtab : Nat} {core0 : VCoreInit}

theorem cstr_padName {name : List U8} (h : (0 : U8) ∉ name) : cstr (padName name) = name := by
  have hall : ∀ c ∈ name, (c != 0) = true := fun c hc => by
    simpa using fun heq : c = 0 => h (heq ▸ hc)
  rw [cstr, padName, List.takeWhile_append_of_pos hall]
  simp

theorem texts_of_file (honce : opts.filterMap Opt.file? = [args]) :
    ∃ behind, opts.filterMap Opt.text? = [args ++ 0 :: behind] := by
  have hnone (rest : List Opt) (h : rest.filterMap Opt.file? = []) :
      rest.filterMap Opt.text? = [] := by
    rw [List.filterMap_eq_nil_iff] at h ⊢
    intro opt hopt
    have hfile := h opt hopt
    cases opt <;> first | rfl | cases hfile
  induction opts with
  | nil => cases honce
  | cons opt opts ih =>
    cases opt with
    | f optarg behind =>
      obtain ⟨rfl, hrest⟩ := List.cons.inj honce
      refine ⟨behind, ?_⟩
      rw [List.filterMap_cons, hnone opts hrest]
      rfl
    | _ => exact ih honce

theorem settings_file (build : Build) (honce : opts.filterMap Opt.file? = [args])
    (hnul : (0 : U8) ∉ args) : (settings build opts).elfArgs = some args ∧
      cstr (settings build opts).elfName = firstWord args := by
  constructor
  · have hlast : lastOf Opt.file? opts = (opts.filterMap Opt.file?).getLast? :=
      List.getLast?_filterMap.symm
    rw [honce] at hlast
    exact hlast
  · obtain ⟨behind, htexts⟩ := texts_of_file honce
    have hname : nameOf opts = firstWord args := by
      rw [nameOf, htexts]
      exact ((appendName_eq_iff [] _).mpr List.nil_prefix).trans (word_append args behind hnul)
    have hword : (0 : U8) ∉ firstWord args := fun hmem =>
      hnul ((List.takeWhile_prefix _).subset hmem)
    exact (congrArg (fun name => cstr (padName name)) hname).trans (cstr_padName hword)

theorem AllOk.memorySize_eq {build : Build} (h : AllOk build opts) :
    (settings build opts).memorySize.toNat = megabytesOf opts * 1048576 := by
  obtain ⟨-, hle⟩ := h.megabytes
  simp only [settings, BitVec.toNat_ofNat]
  omega

/-- What `ctx_init` computes for the stack is where `emu_args` takes it to be. -/
theorem AllOk.stackBase_eq {build : Build} (h : AllOk build opts) :
    (settings build opts).stackBase =
      stackBase (memInit (settings build opts) h.valid.memorySize.2) :=
  congrArg (fun n => BitVec.ofNat 32 (n - 4096)) h.memorySize_eq.symm

/-- What the loads leave in a memory of zeros. -/
structure InPlace (f : MappedFile) (args : List U8) (m : Mem) : Prop where
  /-- the file's bytes, and zeros behind them -/
  segments : ∀ g ∈ f.segs, ∀ k < g.memsz,
    m.byte (g.vaddr + k) = if k < g.filesz then f.byte (g.offset + k) else 0
  /-- and everywhere else below the stack -/
  zero : ∀ a < (stackBase m).toNat, (∀ g ∈ f.segs, ¬ g.Has a) → m.byte a = 0
  arguments : ∃ ptr, LaidOut m (stackBase m) (tokens args) ptr

theorem stackBase_congr {m m' : Mem} (h : m'.size = m.size) : stackBase m' = stackBase m := by
  rw [stackBase, h, stackBase]

theorem Image.memory {m m' : Mem} (h : Image f m m') {g : Seg} (hg : g ∈ f.segs) {k : Nat}
    (hk : k < g.memsz) :
    m'.byte (g.vaddr + k) = if k < g.filesz then f.byte (g.offset + k) else 0 := by
  split
  case isTrue hfile => exact h.file g hg k hfile
  case isFalse hfile => exact h.zero g hg k (Nat.le_of_not_lt hfile) hk

theorem boot_of_runs {build : Build} {fds : Fds File} {init : VCoreInit} {s : LdState}
    (hopts : AllOk build opts) (hnone : lastOf Opt.file? opts ≠ none)
    (hmmap : host.mmap (settings build opts).memorySize.toNat = true)
    (hrun : Runs (bootLoad build host (settings build opts) core0)
      (.start (memInit (settings build opts) hopts.valid.memorySize.2)) (fds, init) s) :
    boot build host opts core0 = some ⟨settings build opts, fds, s.mem, init⟩ := by
  unfold boot
  split
  case h_1 e herror =>
    rw [(ctxInit_ok_iff build opts _).mpr ⟨hopts, hnone, rfl⟩] at herror
    cases herror
  case h_2 ctx hok =>
    obtain ⟨-, -, rfl⟩ := (ctxInit_ok_iff build opts ctx).mp hok
    rw [if_pos hmmap, hrun]

structure Entered (f : MappedFile) (symtab strtab : Nat) (host : BootHost File) (args : List U8)
    (core0 : VCoreInit) (b : Booted File) : Prop where
  pc : (b.harts.cthreads 0).core.regs Reg.pc = f.field 32 24
  sp : (b.harts.cthreads 0).core.regs Reg.sp = stackBase b.vmem
  gp : (b.harts.cthreads 0).core.regs Reg.gp =
    (f.symbol? symtab strtab (ascii "__global_pointer$")).getD core0.gp
  brk : f.symbol? symtab strtab (ascii "__BSS_END__") = some (b.harts.cthreads 0).core.elfBrk
  inPlace : InPlace f args b.vmem
  /-- the first argument is the path that was opened -/
  argv0 : ∃ path, (tokens args).head? = some path ∧ host.elf path = some f
  streams : ∀ k < 3, ∃ file, streamFile host.fds k (host.streams b.ctx k) = some file ∧
    b.fds.file (elfFdsBaseline + k) = some file
  /-- The runs of the core start there. -/
  start : b.harts.Start

end

def runHost : BootHost Nat where
  fds := User.launchedFds
  openStream _ path := if path = ascii "out" then some 7 else none
  elf path := if path = ascii "prog" then some linkedFile else none
  elf_nil := by decide
  mmap _ := true

theorem linkedFile_runnable : Runnable linkedFile 1 2 1048576 where
  executable := linkedFile_executable
  linked := linkedFile_linked
  wellFormed := linkedFile_wellFormed
  inFile := by
    rw [linkedFile_segs]
    simp [linkedFile]
    omega
  below := by simp [linkedFile_segs]
  brk := by
    have hbss : linkedFile.symbol? 1 2 (ascii "__BSS_END__") = some 0x1008 := by decide +kernel
    simp [hbss]

section
variable {File : Type} {host : BootHost File} {opts : List Opt} {args : List U8} {f : MappedFile}
variable {symtab strtab : Nat}

structure Kernel (f : MappedFile) (symtab strtab : Nat) (opts : List Opt) (core0 : VCoreInit)
    (b : Booted File) : Prop where
  cores : b.harts.ctx.cores = ((lastOf Opt.cores? opts).getD 1).toNat
  size : b.vmem.size = megabytesOf opts * 1048576
  pc : (b.harts.cthreads 0).core.regs Reg.pc = f.field 32 24
  sp : (b.harts.cthreads 0).core.regs Reg.sp = stackBase b.vmem
  gp : (b.harts.cthreads 0).core.regs Reg.gp =
    (f.symbol? symtab strtab (ascii "__global_pointer$")).getD core0.gp
  stopped : ∀ i, (b.harts.cthreads i).oldSignal = if i = 0 then .start else .stop
  segments : ∀ g ∈ f.segs, ∀ k < g.memsz,
    b.vmem.byte (g.vaddr + k) = if k < g.filesz then f.byte (g.offset + k) else 0
  zero : ∀ a, (∀ g ∈ f.segs, ¬ g.Has a) → b.vmem.byte a = 0
  /-- The runs of the harts start there. -/
  start : b.harts.Start

/-- Whatever the other options are, a linked kernel that is not given as a binary is started. -/
theorem boot_supervisor (hopts : AllOk .supervisor opts)
    (honce : opts.filterMap Opt.file? = [args]) (hnul : (0 : U8) ∉ args)
    (hbinary : lastOf Opt.binary? opts = none)
    (hmmap : host.mmap (megabytesOf opts * 1048576) = true)
    (hfile : host.elf (firstWord args) = some f) (hx : f.Executable) (hl : f.Linked symtab strtab)
    (hf : f.WellFormed (megabytesOf opts * 1048576))
    (hfits : ∀ g ∈ f.segs, g.Fits f (megabytesOf opts * 1048576)) (core0 : VCoreInit) :
    ∃ b, boot .supervisor host opts core0 = some b ∧ b.ctx = settings .supervisor opts ∧
      Kernel f symtab strtab opts core0 b := by
  obtain ⟨hargs, hname⟩ := settings_file .supervisor honce hnul
  have hnone : lastOf Opt.file? opts ≠ none := fun hnone => by
    cases hnone.symm.trans hargs
  have hsize := hopts.memorySize_eq
  rw [← hsize] at hmmap hf hfits
  have hne : f.size ≠ 0 := by have := hl.header; omega
  obtain ⟨s', hrun, himage⟩ := ldElfImage_linked
    (s := .start (memInit (settings .supervisor opts) hopts.valid.memorySize.2)) hx hl hf hfits
    { core0 with sp := (settings .supervisor opts).stackBase }
  have hbin : (settings .supervisor opts).binary = false := by
    simp only [settings, hbinary, Option.isSome_none]
  have hload : Runs (bootLoad .supervisor host (settings .supervisor opts) core0)
      (.start (memInit (settings .supervisor opts) hopts.valid.memorySize.2))
      (host.fds, f.coreInit symtab strtab .supervisor
        { core0 with sp := (settings .supervisor opts).stackBase }) s' := by
    refine Runs.bind (out_pure host.fds _) ?_
    rw [hname, hfile, hbin]
    refine Runs.bind ?_ (out_pure _ s')
    rw [ldElf_supervisor hne]
    exact hrun.bind (out_pure _ s')
  refine ⟨_, boot_of_runs hopts hnone hmmap hload, rfl, ?_⟩
  exact {
    cores := rfl
    size := himage.size.trans hsize
    pc := rfl
    sp := hopts.stackBase_eq.trans (stackBase_congr himage.size).symm
    gp := rfl
    stopped := fun i => by by_cases hi : i = 0 <;> simp [Booted.harts, hi]
    segments := fun g hg k hk => himage.memory hg hk
    zero := fun a ha => himage.others a ha
    start := Booted.start _ }

end

def kernelOptions : List Opt := [.m (ascii "1"), .c (ascii "2"), .f (ascii "prog") []]

theorem kernelOptions_ok : AllOk .supervisor kernelOptions := by
  have hmb : 1 ≤ (atoi (ascii "1")).toInt ∧ (atoi (ascii "1")).toInt ≤ 4096 := by decide
  have hcores : 1 ≤ atoi (ascii "2") ∧ atoi (ascii "2") ≤ maxNprocs := by decide
  exact ((allOk_nil.snoc (.m (ascii "1")) hmb).snoc (.c (ascii "2")) fun _ => hcores).snoc
    (.f (ascii "prog") []) ⟨by decide, by decide⟩

theorem boot_supervisor_kernel : ∃ b, boot .supervisor runHost kernelOptions noInit = some b ∧
    b.ctx = settings .supervisor kernelOptions ∧ Kernel linkedFile 1 2 kernelOptions noInit b := by
  have hfits : ∀ g ∈ linkedFile.segs, g.Fits linkedFile 1048576 := fun g hg =>
    ⟨by have := linkedFile_runnable.below g hg; omega, linkedFile_runnable.inFile g hg⟩
  exact boot_supervisor kernelOptions_ok rfl (by decide) rfl rfl rfl linkedFile_executable
    linkedFile_linked linkedFile_wellFormed hfits noInit

end SwitchV32
