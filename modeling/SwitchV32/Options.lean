import SwitchV32.Loader
import SwitchV32.Supervisor.Vm
import SwitchV32.User.Tokens

/-!
# The options

`ctx_init` of `args.c`, on what `getopt` answers, and `ctx` as `main.c` starts
it. Of a setting that is given more than once the last one counts, but the name
of the file goes on where the option before has left it.
-/

namespace SwitchV32

open Supervisor (pageSize)

-- ---------------------------------------------------------------------------
-- `ctx_init`
-- ---------------------------------------------------------------------------

/-- What `getopt` answers to `"u:i:o:e:f:c:m:b:dh"`, with `optarg` up to its NUL. What lies `behind`
the NUL of a file, up to the end of the mapped memory, is read on when the index is there. -/
inductive Opt
  | u (optarg : List U8)
  | i (optarg : List U8)
  | o (optarg : List U8)
  | e (optarg : List U8)
  | f (optarg behind : List U8)
  | c (optarg : List U8)
  | m (optarg : List U8)
  | b (optarg : List U8)
  | d
  | h
  /-- `'?'` -/
  | unknown
  deriving DecidableEq, Repr

def exitSuccess : Nat := 0

def maxUpscale : U32 := 8
def maxMemSizeMb : BitVec 64 := 4096
def maxNprocs : U32 := 4
def pathMax : Nat := 4096
def defMemSize : BitVec 64 := 1073741824

def decVal (c : U8) : Option Nat := if 0x30 ≤ c ∧ c ≤ 0x39 then some (c.toNat - 0x30) else none

/-- The number that the digits in front go on to from `n`. -/
def decNat (n : Nat) : List U8 → Nat
  | [] => n
  | c :: cs =>
    match decVal c with
    | some d => decNat (10 * n + d) cs
    | none => n

/-- `atoi`, a `strtol` cut to 32 bits -/
def atoi (str : List U8) : U32 :=
  let (neg, str) := skipSign (str.dropWhile isSpace)
  let n : Int := decNat 0 str
  BitVec.ofInt 32 (if neg then max (-n) longMin else min n longMax)

/-- `Args_Context`; strings are up to their NUL, but `elfName` is the whole array. -/
structure ArgsContext where
  elfName : List U8
  elfStdin : Option (List U8)
  elfStdout : Option (List U8)
  elfStderr : Option (List U8)
  elfArgs : Option (List U8)
  sdlUpscale : U32
  cores : U32
  debug : Bool
  binary : Bool
  memorySize : BitVec 64
  stackBase : U32
  /-- Only in the user build. -/
  brkLimit : U32
  deriving DecidableEq, Repr

def ArgsContext.start : ArgsContext where
  elfName := List.replicate pathMax 0
  elfStdin := none
  elfStdout := none
  elfStderr := none
  elfArgs := none
  sdlUpscale := 1
  cores := 1
  debug := false
  binary := false
  memorySize := defMemSize
  stackBase := (defMemSize - pageSize.setWidth 64).setWidth 32
  brkLimit := (defMemSize >>> 4).setWidth 32

/-- What is left of the loop over the name: `str` is the memory from `ctx.elf_args[i]` on. -/
def copyName (name : List U8) (i : Nat) : List U8 → Except Stop (List U8 × Nat)
  | [] => throw .fault
  | c :: str =>
    if c ≠ 0 ∧ c ≠ space ∧ i < pathMax then copyName (name.set i c) (i + 1) str
    else return (name, i)

/-- One turn of the loop over the options. The index `i` is never set back. -/
def ctxOpt (build : Build) : ArgsContext × Nat → Opt → Except Stop (ArgsContext × Nat)
  | (ctx, i), .u optarg =>
    let upscale := atoi optarg
    if upscale = 0 ∨ maxUpscale < upscale then return (ctx, i)
    else return ({ ctx with sdlUpscale := upscale }, i)
  | (ctx, i), .i optarg => return ({ ctx with elfStdin := some optarg }, i)
  | (ctx, i), .o optarg => return ({ ctx with elfStdout := some optarg }, i)
  | (ctx, i), .e optarg => return ({ ctx with elfStderr := some optarg }, i)
  | (ctx, i), .f optarg behind => do
    let (name, i) ← copyName ctx.elfName i ((optarg ++ 0 :: behind).drop i)
    if i = pathMax then throw (.exit exitFailure)
    else return ({ ctx with elfArgs := some optarg, elfName := name.set i 0 }, i)
  | (ctx, i), .c optarg =>
    match build with
    | .user => return (ctx, i)
    | .supervisor =>
      let cores := atoi optarg
      if cores = 0 ∨ maxNprocs < cores then throw (.exit exitFailure)
      else return ({ ctx with cores := cores }, i)
  | (ctx, i), .m optarg =>
    let memTmp : BitVec 64 := (atoi optarg).signExtend 64
    if memTmp = 0 ∨ maxMemSizeMb < memTmp then throw (.exit exitFailure)
    else
      let memorySize := memTmp * 1024 * 1024
      let ctx := { ctx with
        memorySize := memorySize
        stackBase := (memorySize - pageSize.setWidth 64).setWidth 32 }
      match build with
      | .supervisor => return (ctx, i)
      | .user => return ({ ctx with brkLimit := (memorySize >>> 4).setWidth 32 }, i)
  | (ctx, i), .b _ =>
    match build with
    | .user => return (ctx, i)
    | .supervisor => return ({ ctx with binary := true }, i)
  | (ctx, i), .d => return ({ ctx with debug := true }, i)
  | _, .h => throw (.exit exitSuccess)
  | _, .unknown => throw (.exit exitFailure)

def ctxInit (build : Build) (opts : List Opt) : Except Stop ArgsContext := do
  let (ctx, _) ← opts.foldlM (ctxOpt build) (.start, 0)
  if ctx.elfArgs = none then throw (.exit exitFailure)
  else return ctx

-- ---------------------------------------------------------------------------
-- What the options come to
-- ---------------------------------------------------------------------------

def firstWord (str : List U8) : List U8 := str.takeWhile (· != space)

/-- The characters in front of the first that ends a name. -/
def word (text : List U8) : List U8 := text.takeWhile fun c => c != 0 && c != space

/-- What is copied: the characters that are there keep their places. -/
def appendName (name text : List U8) : List U8 := name ++ word (text.drop name.length)

def padName (name : List U8) : List U8 := name ++ List.replicate (pathMax - name.length) 0

namespace Opt

@[simp] def file? : Opt → Option (List U8)
  | .f optarg _ => some optarg
  | _ => none

/-- The memory from the name of a file on. -/
@[simp] def text? : Opt → Option (List U8)
  | .f optarg behind => some (optarg ++ 0 :: behind)
  | _ => none

@[simp] def stdin? : Opt → Option (List U8)
  | .i optarg => some optarg
  | _ => none

@[simp] def stdout? : Opt → Option (List U8)
  | .o optarg => some optarg
  | _ => none

@[simp] def stderr? : Opt → Option (List U8)
  | .e optarg => some optarg
  | _ => none

/-- An upscale that is not ignored. -/
@[simp] def upscale? : Opt → Option U32
  | .u optarg => if 1 ≤ atoi optarg ∧ atoi optarg ≤ maxUpscale then some (atoi optarg) else none
  | _ => none

@[simp] def cores? : Opt → Option U32
  | .c optarg => some (atoi optarg)
  | _ => none

@[simp] def megabytes? : Opt → Option Nat
  | .m optarg => some (atoi optarg).toNat
  | _ => none

@[simp] def binary? : Opt → Option Unit
  | .b _ => some ()
  | _ => none

@[simp] def debug? : Opt → Option Unit
  | .d => some ()
  | _ => none

end Opt

/-- What the last option says that says something. -/
def lastOf {α : Type} (g : Opt → Option α) (opts : List Opt) : Option α := opts.reverse.findSome? g

def nameOf (opts : List Opt) : List U8 := (opts.filterMap Opt.text?).foldl appendName []

def megabytesOf (opts : List Opt) : Nat := (lastOf Opt.megabytes? opts).getD 1024

def settings (build : Build) (opts : List Opt) : ArgsContext where
  elfName := padName (nameOf opts)
  elfStdin := lastOf Opt.stdin? opts
  elfStdout := lastOf Opt.stdout? opts
  elfStderr := lastOf Opt.stderr? opts
  elfArgs := lastOf Opt.file? opts
  sdlUpscale := (lastOf Opt.upscale? opts).getD 1
  cores := match build with
    | .user => 1
    | .supervisor => (lastOf Opt.cores? opts).getD 1
  debug := (lastOf Opt.debug? opts).isSome
  binary := match build with
    | .user => false
    | .supervisor => (lastOf Opt.binary? opts).isSome
  memorySize := BitVec.ofNat 64 (megabytesOf opts * 1048576)
  stackBase := BitVec.ofNat 32 (megabytesOf opts * 1048576 - 4096)
  brkLimit := match build with
    | .user => BitVec.ofNat 32 (megabytesOf opts * 65536)
    | .supervisor => 67108864

/-- A character that ends a name is there. -/
def HasEnd (text : List U8) : Prop := ∃ c ∈ text, c = 0 ∨ c = space

instance (text : List U8) : Decidable (HasEnd text) :=
  inferInstanceAs (Decidable (∃ c ∈ text, c = 0 ∨ c = space))

def OptOk (build : Build) (before : List Opt) : Opt → Prop
  | .f optarg behind =>
      (appendName (nameOf before) (optarg ++ 0 :: behind)).length < pathMax ∧
      HasEnd ((optarg ++ 0 :: behind).drop (nameOf before).length)
  | .c optarg => build = .supervisor → 1 ≤ atoi optarg ∧ atoi optarg ≤ maxNprocs
  | .m optarg => 1 ≤ (atoi optarg).toInt ∧ (atoi optarg).toInt ≤ 4096
  | .h | .unknown => False
  | _ => True

-- ---------------------------------------------------------------------------
-- The name
-- ---------------------------------------------------------------------------

section
variable {name str : List U8} {c : U8}

theorem word_cons (hc : c ≠ 0 ∧ c ≠ space) : word (c :: str) = c :: word str := by
  have hgo : (c != 0 && c != space) = true := by
    rw [Bool.and_eq_true, bne_iff_ne, bne_iff_ne]
    exact hc
  exact List.takeWhile_cons_of_pos hgo

theorem word_end (hc : c = 0 ∨ c = space) : word (c :: str) = [] := by
  rcases hc with rfl | rfl <;> rfl

theorem hasEnd_cons (hc : c ≠ 0 ∧ c ≠ space) : HasEnd (c :: str) ↔ HasEnd str := by
  have hno : ¬ (c = 0 ∨ c = space) := not_or.mpr hc
  simp only [HasEnd, List.exists_mem_cons_iff, hno, false_or]

theorem word_append (optarg behind : List U8) (h : (0 : U8) ∉ optarg) :
    word (optarg ++ 0 :: behind) = firstWord optarg := by
  induction optarg with
  | nil => rfl
  | cons c optarg ih =>
    rw [List.mem_cons, not_or] at h
    obtain ⟨hc, hrest⟩ := h
    by_cases hspace : c = space
    · rw [hspace]
      rfl
    · have hgo : (c != space) = true := bne_iff_ne.mpr hspace
      rw [List.cons_append, word_cons ⟨Ne.symm hc, hspace⟩, ih hrest]
      exact (List.takeWhile_cons_of_pos (p := (· != space)) hgo).symm

theorem set_padName (h : name.length < pathMax) (c : U8) :
    (padName name).set name.length c = padName (name ++ [c]) := by
  obtain ⟨k, hk⟩ := Nat.exists_eq_add_of_lt h
  have hleft : pathMax - name.length = k + 1 := by omega
  have hrest : pathMax - (name ++ [c]).length = k := by
    rw [List.length_append, List.length_singleton]
    omega
  rw [padName, padName, hleft, hrest, List.set_append_right _ _ (Nat.le_refl _), Nat.sub_self,
    List.replicate_succ, List.set_cons_zero, List.append_assoc]
  rfl

theorem set_padName_zero (h : name.length < pathMax) :
    (padName name).set name.length 0 = padName name := by
  obtain ⟨k, hk⟩ := Nat.exists_eq_add_of_lt h
  have hleft : pathMax - name.length = k + 1 := by omega
  rw [padName, hleft, List.set_append_right _ _ (Nat.le_refl _), Nat.sub_self,
    List.replicate_succ, List.set_cons_zero]

theorem copyName_fits (h : (name ++ word str).length < pathMax) (hend : HasEnd str) :
    copyName (padName name) name.length str =
      .ok (padName (name ++ word str), (name ++ word str).length) := by
  induction str generalizing name with
  | nil => obtain ⟨c, hc, -⟩ := hend; cases hc
  | cons c str ih =>
    by_cases hc : c ≠ 0 ∧ c ≠ space
    · rw [word_cons hc, List.append_cons] at h ⊢
      have hlt : name.length < pathMax := by
        simp only [List.length_append] at h
        omega
      have hnext := ih h ((hasEnd_cons hc).mp hend)
      rw [List.length_append, List.length_singleton] at hnext
      rw [copyName, if_pos ⟨hc.1, hc.2, hlt⟩, set_padName hlt, hnext]
    · have hstop : c = 0 ∨ c = space := or_iff_not_and_not.mpr hc
      rw [word_end hstop, List.append_nil, copyName, if_neg fun h => hc ⟨h.1, h.2.1⟩]
      rfl

/-- Otherwise the array is full, or nothing is mapped behind the last character. -/
theorem copyName_bad (hname : name.length ≤ pathMax)
    (h : ¬ ((name ++ word str).length < pathMax ∧ HasEnd str)) :
    copyName (padName name) name.length str = .error .fault ∨
      ∃ full, copyName (padName name) name.length str = .ok (full, pathMax) := by
  induction str generalizing name with
  | nil => exact .inl rfl
  | cons c str ih =>
    by_cases hc : c ≠ 0 ∧ c ≠ space
    · by_cases hlt : name.length < pathMax
      · rw [word_cons hc, List.append_cons, hasEnd_cons hc] at h
        have hnext := ih (by rw [List.length_append]; exact hlt) h
        rw [List.length_append, List.length_singleton] at hnext
        rw [copyName, if_pos ⟨hc.1, hc.2, hlt⟩, set_padName hlt]
        exact hnext
      · have hfull : name.length = pathMax := Nat.le_antisymm hname (Nat.le_of_not_lt hlt)
        rw [copyName, if_neg fun h => hlt h.2.2, hfull]
        exact .inr ⟨_, rfl⟩
    · have hstop : c = 0 ∨ c = space := or_iff_not_and_not.mpr hc
      have hfull : name.length = pathMax := by
        refine Nat.le_antisymm hname (Nat.le_of_not_lt fun hlt => h ⟨?_, c, .head _, hstop⟩)
        rwa [word_end hstop, List.append_nil]
      rw [copyName, if_neg fun h => hc ⟨h.1, h.2.1⟩, hfull]
      exact .inr ⟨_, rfl⟩

end

-- ---------------------------------------------------------------------------
-- One option more
-- ---------------------------------------------------------------------------

section
variable {build : Build} {opts : List Opt} {opt : Opt} {ctx : ArgsContext} {i : Nat}

theorem lastOf_snoc {α : Type} (g : Opt → Option α) (opts : List Opt) (opt : Opt) :
    lastOf g (opts ++ [opt]) = (g opt).or (lastOf g opts) := by
  rw [lastOf, lastOf, List.reverse_append]
  cases h : g opt with
  | none => simp [h]
  | some v => simp [h]

theorem nameOf_snoc (opts : List Opt) (opt : Opt) : nameOf (opts ++ [opt]) =
    match opt with
    | .f optarg behind => appendName (nameOf opts) (optarg ++ 0 :: behind)
    | _ => nameOf opts := by
  cases opt <;> simp only [nameOf, List.filterMap_append, List.foldl_append] <;> rfl

theorem toNat_memTmp (v : U32) : (v.signExtend 64).toNat =
    if v.toInt < 0 then v.toNat + (2 ^ 64 - 2 ^ 32) else v.toNat := by
  have hlt := v.isLt
  have hmsb : v.msb = true ↔ v.toInt < 0 := by
    rw [BitVec.msb_eq_toInt]
    exact decide_eq_true_iff
  rw [BitVec.toNat_signExtend, BitVec.toNat_setWidth_of_le (by decide)]
  by_cases hneg : v.toInt < 0
  · rw [if_pos hneg, if_pos (hmsb.mpr hneg)]
  · rw [if_neg hneg, if_neg (hneg ∘ hmsb.mp), Nat.add_zero]

theorem memTmp_bad (v : U32) :
    ((v.signExtend 64 : BitVec 64) = 0 ∨ maxMemSizeMb < v.signExtend 64) ↔
      ¬ (1 ≤ v.toInt ∧ v.toInt ≤ 4096) := by
  have hlt := v.isLt
  have hint := BitVec.toInt_eq_toNat_cond v
  have hnat := toNat_memTmp v
  have hzero : (v.signExtend 64 : BitVec 64) = 0 ↔ (v.signExtend 64).toNat = 0 := by
    rw [← BitVec.toNat_inj]
    rfl
  have hmax : maxMemSizeMb < v.signExtend 64 ↔ 4096 < (v.signExtend 64).toNat := Iff.rfl
  rw [hzero, hmax, hnat]
  split at hint <;> split <;> omega

theorem toNat_megabytes {v : U32} (h : 1 ≤ v.toInt ∧ v.toInt ≤ 4096) :
    1 ≤ v.toNat ∧ v.toNat ≤ 4096 := by
  have hlt := v.isLt
  have hint := BitVec.toInt_eq_toNat_cond v
  split at hint <;> omega

theorem memorySize_eq {v : U32} (h : 1 ≤ v.toInt ∧ v.toInt ≤ 4096) :
    (v.signExtend 64 * 1024 * 1024 : BitVec 64) = BitVec.ofNat 64 (v.toNat * 1048576) := by
  have hnat := toNat_memTmp v
  rw [if_neg (by omega)] at hnat
  have hv : (v.signExtend 64 : BitVec 64) = BitVec.ofNat 64 v.toNat := by
    rw [← hnat, BitVec.ofNat_toNat, BitVec.setWidth_eq]
  rw [hv, BitVec.mul_assoc, BitVec.ofNat_mul]
  rfl

theorem stackBase_eq {n : Nat} (hn : 1 ≤ n) :
    (BitVec.ofNat 64 (n * 1048576) - pageSize.setWidth 64).setWidth 32 =
      (BitVec.ofNat 32 (n * 1048576 - 4096)) := by
  have hpage : (pageSize.setWidth 64 : BitVec 64).toNat = 4096 := rfl
  refine BitVec.eq_of_toNat_eq ?_
  rw [BitVec.toNat_setWidth, BitVec.toNat_sub, hpage, BitVec.toNat_ofNat, BitVec.toNat_ofNat]
  omega

theorem brkLimit_eq (n : Nat) :
    (BitVec.ofNat 64 (n * 1048576) >>> 4).setWidth 32 = (BitVec.ofNat 32 (n * 65536)) := by
  refine BitVec.eq_of_toNat_eq ?_
  rw [BitVec.toNat_setWidth, BitVec.toNat_ushiftRight, Nat.shiftRight_eq_div_pow,
    BitVec.toNat_ofNat, BitVec.toNat_ofNat]
  omega

theorem upscale_bad (v : U32) : (v = 0 ∨ maxUpscale < v) ↔ ¬ (1 ≤ v ∧ v ≤ maxUpscale) := by
  simp only [maxUpscale]
  bv_omega

theorem cores_bad (v : U32) : (v = 0 ∨ maxNprocs < v) ↔ ¬ (1 ≤ v ∧ v ≤ maxNprocs) := by
  simp only [maxNprocs]
  bv_omega

theorem settings_nil (build : Build) : settings build [] = .start := by
  have hname : padName (nameOf []) = List.replicate pathMax 0 := List.nil_append _
  have hmb : megabytesOf [] = 1024 := rfl
  unfold settings ArgsContext.start
  rw [hname, hmb]
  cases build <;> rfl

theorem settings_snoc (build : Build) (opts : List Opt) (opt : Opt) :
    settings build (opts ++ [opt]) = { settings build opts with
      elfName := padName (nameOf (opts ++ [opt]))
      elfStdin := opt.stdin?.or (settings build opts).elfStdin
      elfStdout := opt.stdout?.or (settings build opts).elfStdout
      elfStderr := opt.stderr?.or (settings build opts).elfStderr
      elfArgs := opt.file?.or (settings build opts).elfArgs
      sdlUpscale := opt.upscale?.getD (settings build opts).sdlUpscale
      cores := match build with
        | .user => 1
        | .supervisor => opt.cores?.getD (settings build opts).cores
      debug := opt.debug?.isSome || (settings build opts).debug
      binary := match build with
        | .user => false
        | .supervisor => opt.binary?.isSome || (settings build opts).binary
      memorySize := BitVec.ofNat 64 (megabytesOf (opts ++ [opt]) * 1048576)
      stackBase := BitVec.ofNat 32 (megabytesOf (opts ++ [opt]) * 1048576 - 4096)
      brkLimit := match build with
        | .user => BitVec.ofNat 32 (megabytesOf (opts ++ [opt]) * 65536)
        | .supervisor => 67108864 } := by
  cases build <;> simp [settings, lastOf_snoc]

theorem ctxOpt_ok (h : OptOk build opts opt) :
    ctxOpt build (settings build opts, (nameOf opts).length) opt =
      .ok (settings build (opts ++ [opt]), (nameOf (opts ++ [opt])).length) := by
  have hmb (hopt : opt.megabytes? = none) : megabytesOf (opts ++ [opt]) = megabytesOf opts := by
    rw [megabytesOf, lastOf_snoc, hopt]
    rfl
  rw [settings_snoc, nameOf_snoc]
  cases opt with
  | u optarg =>
    rw [hmb rfl]
    simp only [ctxOpt, upscale_bad, Opt.upscale?]
    by_cases hok : 1 ≤ atoi optarg ∧ atoi optarg ≤ maxUpscale
    · simp only [hok, and_self, not_true_eq_false, if_false, if_true]
      cases build <;> rfl
    · simp only [hok, not_false_eq_true, if_false, if_true]
      cases build <;> rfl
  | f optarg behind =>
    obtain ⟨hfits, hend⟩ := h
    have hcopy : copyName (settings build opts).elfName (nameOf opts).length
        ((optarg ++ 0 :: behind).drop (nameOf opts).length) = _ := copyName_fits hfits hend
    rw [hmb rfl]
    simp only [ctxOpt, hcopy, ok_bind]
    rw [← appendName, if_neg (Nat.ne_of_lt hfits), set_padName_zero hfits]
    cases build <;> rfl
  | c optarg =>
    rw [hmb rfl]
    cases build with
    | user => rfl
    | supervisor =>
      simp only [ctxOpt, cores_bad, h rfl]
      rfl
  | m optarg =>
    have hok : ¬ ¬ (1 ≤ (atoi optarg).toInt ∧ (atoi optarg).toInt ≤ 4096) := not_not.mpr h
    obtain ⟨hpos, -⟩ := toNat_megabytes h
    simp only [ctxOpt, memTmp_bad]
    rw [if_neg hok, memorySize_eq h, stackBase_eq hpos, brkLimit_eq, megabytesOf, lastOf_snoc]
    cases build <;> rfl
  | i | o | e | d | b =>
    rw [hmb rfl]
    cases build <;> rfl
  | h | unknown => cases h

theorem ctxOpt_error (hname : (nameOf opts).length < pathMax) (h : ¬ OptOk build opts opt) :
    ∃ e, ctxOpt build (settings build opts, (nameOf opts).length) opt = .error e := by
  cases opt with
  | f optarg behind =>
    have hbad : copyName (settings build opts).elfName (nameOf opts).length
        ((optarg ++ 0 :: behind).drop (nameOf opts).length) = .error .fault ∨
      ∃ full, copyName (settings build opts).elfName (nameOf opts).length
        ((optarg ++ 0 :: behind).drop (nameOf opts).length) = .ok (full, pathMax) :=
      copyName_bad (Nat.le_of_lt hname) h
    simp only [ctxOpt]
    rcases hbad with hfault | ⟨full, hfull⟩
    · rw [hfault]
      exact ⟨_, rfl⟩
    · rw [hfull, ok_bind]
      exact ⟨_, if_pos rfl⟩
  | c optarg =>
    cases build with
    | user => exact absurd (fun hbuild => by cases hbuild) h
    | supervisor =>
      have hbad := (cores_bad _).mpr fun hok => h fun _ => hok
      exact ⟨_, if_pos hbad⟩
  | m optarg => exact ⟨_, if_pos ((memTmp_bad _).mpr h)⟩
  | h | unknown => exact ⟨_, rfl⟩
  | u | i | o | e | d | b => exact absurd trivial h

-- ---------------------------------------------------------------------------
-- All options
-- ---------------------------------------------------------------------------

def AllOk (build : Build) (opts : List Opt) : Prop :=
  ∀ before opt, before ++ [opt] <+: opts → OptOk build before opt

theorem allOk_nil : AllOk build [] := fun before opt hpre => by simp at hpre

theorem allOk_snoc : AllOk build (opts ++ [opt]) ↔ AllOk build opts ∧ OptOk build opts opt := by
  constructor
  · intro h
    exact ⟨fun before opt' hpre => h before opt' (hpre.trans (List.prefix_append _ _)),
      h opts opt (List.prefix_refl _)⟩
  · rintro ⟨h, hopt⟩ before opt' hpre
    obtain heq | hpre := List.prefix_concat_iff.mp hpre
    · obtain ⟨rfl, hsame⟩ := List.append_inj' heq rfl
      obtain rfl := (List.cons.inj hsame).1
      exact hopt
    · exact h before opt' hpre

theorem AllOk.snoc (h : AllOk build opts) (opt : Opt) (hopt : OptOk build opts opt) :
    AllOk build (opts ++ [opt]) := allOk_snoc.mpr ⟨h, hopt⟩

theorem AllOk.name_lt (h : AllOk build opts) : (nameOf opts).length < pathMax := by
  induction opts using List.reverseRecOn with
  | nil => exact Nat.zero_lt_succ _
  | append_singleton opts opt ih =>
    obtain ⟨hopts, hopt⟩ := allOk_snoc.mp h
    rw [nameOf_snoc]
    cases opt with
    | f optarg behind => exact hopt.1
    | _ => exact ih hopts

theorem foldlM_ctxOpt (build : Build) (opts : List Opt) :
    (AllOk build opts → opts.foldlM (ctxOpt build) (.start, 0) =
      .ok (settings build opts, (nameOf opts).length)) ∧
    (¬ AllOk build opts → ∃ e, opts.foldlM (ctxOpt build) (.start, 0) = .error e) := by
  induction opts using List.reverseRecOn with
  | nil =>
    refine ⟨fun _ => ?_, fun h => absurd allOk_nil h⟩
    rw [settings_nil]
    rfl
  | append_singleton opts opt ih =>
    rw [List.foldlM_append, allOk_snoc]
    by_cases hopts : AllOk build opts
    · rw [ih.1 hopts]
      simp only [List.foldlM_cons, List.foldlM_nil, ok_bind, bind_pure, hopts, true_and]
      exact ⟨ctxOpt_ok, ctxOpt_error hopts.name_lt⟩
    · obtain ⟨e, he⟩ := ih.2 hopts
      exact ⟨fun h => absurd h.1 hopts, fun _ => ⟨e, by rw [he]; rfl⟩⟩

/-- Each setting is what the last option says that sets it. -/
theorem ctxInit_ok_iff (build : Build) (opts : List Opt) (ctx : ArgsContext) :
    ctxInit build opts = .ok ctx ↔
      AllOk build opts ∧ lastOf Opt.file? opts ≠ none ∧ ctx = settings build opts := by
  obtain ⟨hok, herror⟩ := foldlM_ctxOpt build opts
  by_cases hall : AllOk build opts
  · rw [ctxInit, hok hall, ok_bind]
    simp only [hall, true_and]
    have hfile : (settings build opts).elfArgs = lastOf Opt.file? opts := rfl
    rw [hfile]
    by_cases hnone : lastOf Opt.file? opts = none
    · simp [hnone, throw, throwThe, MonadExceptOf.throw]
    · simp [hnone, pure, Except.pure, eq_comm]
  · obtain ⟨e, he⟩ := herror hall
    rw [ctxInit, he]
    exact iff_of_false (by simp) fun h => hall h.1

-- ---------------------------------------------------------------------------
-- What the rest of the program finds
-- ---------------------------------------------------------------------------

/-- The bounds that are checked, and the sizes that are computed. -/
structure ArgsContext.Valid (build : Build) (ctx : ArgsContext) : Prop where
  upscale : 1 ≤ ctx.sdlUpscale ∧ ctx.sdlUpscale ≤ maxUpscale
  cores : 1 ≤ ctx.cores ∧ ctx.cores ≤ maxNprocs
  memorySize : 1048576 ≤ ctx.memorySize.toNat ∧ ctx.memorySize.toNat ≤ 2 ^ 32
  stackBase : ctx.stackBase.toNat = ctx.memorySize.toNat - 4096
  brkLimit : build = .user → ctx.brkLimit.toNat = ctx.memorySize.toNat / 16

theorem AllOk.upscale (h : AllOk build opts) :
    1 ≤ (lastOf Opt.upscale? opts).getD 1 ∧ (lastOf Opt.upscale? opts).getD 1 ≤ maxUpscale := by
  induction opts using List.reverseRecOn with
  | nil => decide
  | append_singleton opts opt ih =>
    obtain ⟨hopts, -⟩ := allOk_snoc.mp h
    rw [lastOf_snoc]
    cases hopt : opt.upscale? with
    | none => exact ih hopts
    | some v =>
      cases opt with
      | u optarg =>
        rw [Opt.upscale?] at hopt
        split at hopt
        · cases hopt
          assumption
        · cases hopt
      | _ => cases hopt

theorem AllOk.cores (h : AllOk .supervisor opts) :
    1 ≤ (lastOf Opt.cores? opts).getD 1 ∧ (lastOf Opt.cores? opts).getD 1 ≤ maxNprocs := by
  induction opts using List.reverseRecOn with
  | nil => decide
  | append_singleton opts opt ih =>
    obtain ⟨hopts, hopt⟩ := allOk_snoc.mp h
    rw [lastOf_snoc]
    cases opt with
    | c optarg => exact hopt rfl
    | _ => exact ih hopts

theorem AllOk.megabytes (h : AllOk build opts) :
    1 ≤ megabytesOf opts ∧ megabytesOf opts ≤ 4096 := by
  induction opts using List.reverseRecOn with
  | nil => decide
  | append_singleton opts opt ih =>
    obtain ⟨hopts, hopt⟩ := allOk_snoc.mp h
    rw [megabytesOf, lastOf_snoc]
    cases opt with
    | m optarg => exact toNat_megabytes hopt
    | _ => exact ih hopts

theorem AllOk.valid (h : AllOk build opts) : (settings build opts).Valid build := by
  obtain ⟨hpos, hle⟩ := h.megabytes
  have hmemory : (settings build opts).memorySize.toNat = megabytesOf opts * 1048576 := by
    simp only [settings, BitVec.toNat_ofNat]
    omega
  constructor
  case upscale => exact h.upscale
  case cores =>
    cases build with
    | user => exact (by decide : (1 : U32) ≤ 1 ∧ (1 : U32) ≤ maxNprocs)
    | supervisor => exact h.cores
  case memorySize =>
    rw [hmemory]
    omega
  case stackBase =>
    rw [hmemory]
    simp only [settings, BitVec.toNat_ofNat]
    omega
  case brkLimit =>
    rintro rfl
    rw [hmemory]
    simp only [settings, BitVec.toNat_ofNat]
    omega

theorem ctxInit_valid {ctx : ArgsContext} (h : ctxInit build opts = .ok ctx) : ctx.Valid build := by
  obtain ⟨hall, -, rfl⟩ := (ctxInit_ok_iff build opts ctx).mp h
  exact hall.valid

/-- The file is the one that the text names exactly if what the options before have left is the
beginning of it. -/
theorem appendName_eq_iff (name text : List U8) :
    appendName name text = word text ↔ name <+: word text := by
  constructor
  · exact fun h => ⟨_, h⟩
  · intro h
    have hall : ∀ c ∈ name, (c != 0 && c != space) = true := fun c hc =>
      List.mem_takeWhile_imp (p := fun c => c != 0 && c != space) (h.subset hc)
    obtain ⟨rest, rfl⟩ := h.trans (List.takeWhile_prefix _)
    rw [appendName, List.drop_left, word, word, List.takeWhile_append_of_pos hall]

/-- Exactly the options that the code accepts one by one, a file among them, come to the end of
`ctx_init`. Each setting is then what the last option says that sets it, and is in its bounds. -/
theorem ctxInit_spec (build : Build) (opts : List Opt) :
    ((∃ ctx, ctxInit build opts = .ok ctx) ↔
      AllOk build opts ∧ lastOf Opt.file? opts ≠ none) ∧
    ∀ ctx, ctxInit build opts = .ok ctx → ctx = settings build opts ∧ ctx.Valid build := by
  refine ⟨⟨?_, ?_⟩, fun ctx h => ⟨((ctxInit_ok_iff build opts ctx).mp h).2.2, ctxInit_valid h⟩⟩
  · rintro ⟨ctx, h⟩
    obtain ⟨hall, hfile, -⟩ := (ctxInit_ok_iff build opts ctx).mp h
    exact ⟨hall, hfile⟩
  · rintro ⟨hall, hfile⟩
    exact ⟨_, (ctxInit_ok_iff build opts _).mpr ⟨hall, hfile, rfl⟩⟩

end

/-- `-f abcd -f x -m 2`: the name is looked for behind the NUL of the second file. -/
def twoFiles : List Opt :=
  [.f (ascii "abcd") (ascii "-f\x00x\x00-m\x002\x00"), .f (ascii "x") (ascii "-m\x002\x00"),
    .m (ascii "2")]

theorem twoFiles_ok : AllOk .user twoFiles := by
  have hfirst : OptOk .user [] (.f (ascii "abcd") (ascii "-f\x00x\x00-m\x002\x00")) :=
    ⟨by decide, by decide⟩
  have hsecond : OptOk .user [.f (ascii "abcd") (ascii "-f\x00x\x00-m\x002\x00")]
      (.f (ascii "x") (ascii "-m\x002\x00")) := ⟨by decide, by decide⟩
  have hmb : 1 ≤ (atoi (ascii "2")).toInt ∧ (atoi (ascii "2")).toInt ≤ 4096 := by decide
  exact ((allOk_nil.snoc _ hfirst).snoc _ hsecond).snoc (.m (ascii "2")) hmb

theorem ctxInit_spec_run : ∃ ctx, ctxInit .user twoFiles = .ok ctx ∧
    ctx.memorySize = 2097152 ∧ ctx.elfArgs = some (ascii "x") ∧
    ctx.elfName = padName (ascii "abcd") := by
  have hname : nameOf twoFiles = ascii "abcd" := by decide
  obtain ⟨ctx, h⟩ := (ctxInit_spec .user twoFiles).1.mpr ⟨twoFiles_ok, by decide⟩
  obtain ⟨rfl, -⟩ := (ctxInit_spec .user twoFiles).2 ctx h
  exact ⟨_, h, rfl, rfl, congrArg padName hname⟩

end SwitchV32
