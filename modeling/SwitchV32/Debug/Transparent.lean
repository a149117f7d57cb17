import SwitchV32.Rv32.Footprint
import SwitchV32.Cpu.Program
import SwitchV32.Debug.Patched
import SwitchV32.Harts.Cores

/-!
# Breakpoints do not show

The harts under the debugger, whose breakpoints are words of the memory that the
harts execute. As long as the program leaves these words alone as data, what the
harts do is what they would do without the debugger: the same instructions in
the same order, on the program's own memory. Setting, hitting, stepping over and
removing breakpoints adds nothing to it.
-/

namespace SwitchV32

open Rv32 (Op Shared)

-- ---------------------------------------------------------------------------
-- The harts as the manual sees them
-- ---------------------------------------------------------------------------

namespace Harts

variable {s : Harts} {i j : Nat} {env : Env Platform} {m : Sv32}

/-- The registers of the harts with a memory, which need not be the one that they execute. -/
def arch (s : Harts) (mem : Mem) : Shared where
  x i := (s.machine i).arch.x
  pc i := (s.machine i).arch.pc
  mem := mem.space

/-- One iteration of `vcore_run` on core `i`, whether or not it leaves the loop. -/
def iterate (env : Env Platform) (s : Harts) (i : Nat) : Except Stop Harts := do
  match ← vcoreIteration env (s.machine i) with
  | .again m => return s.put i (m, .idle)
  | .returned m => return s.put i (m, .idle)

theorem iterate_of_execute (h : vcoreExecute env (s.machine i) = .ok m)
    (hfree : env.checkInterrupts m = .ok m) : s.iterate env i = .ok (s.put i (m, .idle)) := by
  simp only [iterate, vcoreIteration, vcoreExitTest, h, ok_bind]
  split
  · rfl
  · simp only [hfree, ok_bind]
    rfl

theorem arch_congr {s' : Harts} (mem : Mem)
    (h : ∀ j, (s'.cthreads j).core.regs = (s.cthreads j).core.regs) : s'.arch mem = s.arch mem := by
  have hreg (j : Nat) : (s'.machine j).reg = (s.machine j).reg := h j
  simp only [arch, Machine.arch, hreg]

theorem arch_put (mem : Mem) (hothers : ∀ j, j ≠ i →
      (m.host.cthreads j).core.regs = (s.cthreads j).core.regs) :
    (s.put i (m, .idle)).arch mem = (s.arch mem).put i { m.arch with mem := mem.space } := by
  have hregs (j : Nat) : ((s.put i (m, .idle)).machine j).reg =
      if j = i then m.reg else (s.machine j).reg := by
    by_cases hji : j = i
    · rw [if_pos hji, hji]
      funext r
      exact put_reg s i (m, .idle) r
    · rw [if_neg hji]
      funext r
      simp only [Machine.reg, machine, put_core_ne s (m, .idle) hji, hothers j hji]
  refine Shared.ext (funext fun j => ?_) (funext fun j => ?_) rfl
  · simp only [arch, Shared.put, Machine.arch, hregs, Function.update_apply]
    split <;> rfl
  · simp only [arch, Shared.put, Machine.arch, hregs, Function.update_apply]
    split <;> rfl

end Harts

-- ---------------------------------------------------------------------------
-- One instruction in patched memory
-- ---------------------------------------------------------------------------

def Breakpoints.Hides (t : Breakpoints) (k : Nat) : Prop := ∃ a, t.FullAt a ∧ Covers a k

/-- Core `i` is to execute an instruction that the interpreter executes as the manual has it, and
whose access spares the breakpoints. -/
structure Executes (build : Build) (s : Harts) (t : Breakpoints) (i : Nat) (op : Op) : Prop where
  aligned : (s.machine i).arch.pc.toNat % 4 = 0
  fetch : s.vmem.word (s.machine i).arch.pc = op.encode
  ordinary : Ordinary s.vmem.size (s.machine i).arch op
  spares : op.Spares (fun a => t.Hides a.toNat) (s.machine i).arch
  due : build = .supervisor → ¬ Supervisor.InterruptDue (s.machine i)

theorem encode_ne_breakpointVal (op : Op) : op.encode ≠ breakpointVal := by
  intro h
  have hopcode : Ins.opcodeType op.encode = OpcodeType.sysType := by
    rw [h]
    decide
  cases op with
  | base i =>
    rw [Op.encode, opcodeType_encode] at hopcode
    cases i <;> simp only [Rv32.Instr.opcode] at hopcode <;> revert hopcode <;> decide
  | amo =>
    rw [Op.encode, opcodeType_encodeAmo] at hopcode
    revert hopcode
    decide

namespace Patched

variable {free vmem vmem' : Mem} {t : Breakpoints} {s : Harts} {i : Nat} {op : Op} {build : Build}

theorem hides_lt (h : Patched free vmem t) {k : Nat} (hk : t.Hides k) : k < 2 ^ 32 := by
  obtain ⟨a, ha, -, hlt⟩ := hk
  have hinside := (h.place a ha).inside
  have hsize := vmem.size_le
  omega

/-- In the eyes of a hart the two memories differ in the hidden bytes only. -/
theorem agreeOff (h : Patched free vmem t) (a : Rv32.State) :
    Rv32.State.AgreeOff (fun b => t.Hides b.toNat) { a with mem := vmem.space }
      { a with mem := free.space } where
  x := rfl
  pc := rfl
  mem b hb := (h.others b.toNat fun c hc hcov => hb ⟨c, hc, hcov⟩).symm

open Classical in
theorem written (h : Patched free vmem t) (hsize : vmem'.size = vmem.size)
    (hkept : ∀ a : U32, t.Hides a.toNat → vmem'.space a = vmem.space a) :
    ∃ free', Patched free' vmem' t ∧
      ∀ a : U32, free'.space a = if t.Hides a.toNat then free.space a else vmem'.space a := by
  let w (k : Nat) : Option U8 := if t.Hides k then none else some (vmem'.byte k)
  have hw : Spares t w := fun a ha k hk => if_pos ⟨a, ha, hk⟩
  have heq : vmem.writeBytes w = vmem' := by
    refine Mem.eq_of_byte hsize.symm fun k => ?_
    by_cases hk : t.Hides k
    · have hlt := h.hides_lt hk
      have hbyte := hkept (BitVec.ofNat 32 k)
      simp only [Mem.space, BitVec.toNat_ofNat, Nat.mod_eq_of_lt hlt] at hbyte
      simp only [Mem.writeBytes, w, if_pos hk, Option.getD_none, hbyte hk]
    · simp only [Mem.writeBytes, w, if_neg hk, Option.getD_some]
  refine ⟨free.writeBytes w, heq ▸ h.guest hw, fun a => ?_⟩
  simp only [Mem.space, Mem.writeBytes, w]
  split <;> rfl

theorem word_program (h : Patched free s.vmem t) (hexec : Executes build s t i op) :
    free.word (s.machine i).arch.pc = op.encode := by
  have hpc : (((s.machine i).arch.pc.setWidth 64).setWidth 32 : U32) = (s.machine i).arch.pc := by
    rw [BitVec.setWidth_setWidth (by decide), BitVec.setWidth_eq]
  have hword : WordIn s.vmem ((s.machine i).arch.pc.setWidth 64) := by
    have hfetch := hexec.ordinary.fetch
    have haligned := hexec.aligned
    refine ⟨?_, ?_⟩ <;> rw [BitVec.toNat_setWidth_of_le (by decide)] <;> assumption
  have hfree := h.word_free hword ?_
  · rw [hpc, hexec.fetch] at hfree
    exact hfree.symm
  · intro hfull
    have hpatched := h.patched _ hfull
    rw [hpc, hexec.fetch] at hpatched
    exact encode_ne_breakpointVal op hpatched

/-- The iteration is the instruction on the program's own memory. -/
theorem iterate (emuSystemCall : Sv32 → Except Stop Sv32) (h : Patched free s.vmem t)
    (hexec : Executes build s t i op) :
    ∃ s' free', s.iterate (build.env emuSystemCall) i = .ok s' ∧ s'.vmem.size = s.vmem.size ∧
      Patched free' s'.vmem t ∧ Shared.Exec (s.arch free) (i, op) (s'.arch free') := by
  obtain ⟨m, hm, harch, hctx⟩ : Yields (s.machine i)
    (vcoreExecute (build.env emuSystemCall) (s.machine i)) _ :=
    vcoreExecute_op hexec.fetch hexec.ordinary
  have hiterate := Harts.iterate_of_execute hm (undisturbed build emuSystemCall hexec.due m hctx)
  have hagree := Op.exec_agreeOff (h.agreeOff (s.machine i).arch) hexec.spares
  obtain ⟨free', h', hfree'⟩ := h.written hctx.size fun a ha => by
    rw [← arch_mem, harch]
    exact Op.exec_mem hexec.spares ha
  refine ⟨_, free', hiterate, hctx.size, h', h.word_program hexec, ?_⟩
  have hspares : op.Spares (fun a => t.Hides a.toNat) ((s.arch free).hart i) :=
    hexec.spares.agreeOff (h.agreeOff (s.machine i).arch)
  have hmem : free'.space = (op.exec ((s.arch free).hart i)).mem := by
    funext a
    rw [hfree' a]
    split
    · rename_i ha
      exact (Op.exec_mem hspares ha).symm
    · rename_i ha
      rw [← arch_mem, harch]
      exact (hagree.mem a ha).symm
  have hstate : { m.arch with mem := free'.space } = op.exec ((s.arch free).hart i) := by
    rw [harch, hmem]
    exact Rv32.State.ext hagree.x.symm hagree.pc.symm rfl
  rw [Harts.arch_put free' fun j _ => by rw [hctx.host]; rfl, hstate]
  rfl

end Patched

-- ---------------------------------------------------------------------------
-- A breakpoint
-- ---------------------------------------------------------------------------

structure SameCores (m m' : Sv32) : Prop where
  vmem : m'.vmem = m.vmem
  ctx : m'.host.ctx = m.host.ctx
  hart : m'.host.hart = m.host.hart
  core : ∀ j, ∃ exit, (m'.cthread j).core = { (m.cthread j).core with atomicExitLoop := exit }

namespace SameCores

variable {m m' m'' : Sv32}

theorem refl (m : Sv32) : SameCores m m := ⟨rfl, rfl, rfl, fun _ => ⟨_, rfl⟩⟩

theorem trans (h : SameCores m m') (h' : SameCores m' m'') : SameCores m m'' where
  vmem := h'.vmem.trans h.vmem
  ctx := h'.ctx.trans h.ctx
  hart := h'.hart.trans h.hart
  core j := by
    obtain ⟨_, hcore⟩ := h.core j
    obtain ⟨exit, hcore'⟩ := h'.core j
    exact ⟨exit, by rw [hcore', hcore]⟩

theorem self (h : SameCores m m') :
    ∃ exit, m'.core = { m.core with atomicExitLoop := exit } := by
  obtain ⟨exit, hcore⟩ := h.core m.host.hart
  simp only [Machine.cthread, h.hart, ite_true] at hcore
  exact ⟨exit, hcore⟩

theorem other (h : SameCores m m') {j : Nat} (hj : j ≠ m.host.hart) :
    (m'.host.cthreads j).core.regs = (m.host.cthreads j).core.regs := by
  obtain ⟨exit, hcore⟩ := h.core j
  simp only [Machine.cthread, h.hart, if_neg hj] at hcore
  rw [hcore]

theorem arch (h : SameCores m m') : m'.arch = m.arch := by
  obtain ⟨exit, hcore⟩ := h.self
  have hreg : m'.reg = m.reg := by
    funext r
    rw [Machine.reg, hcore]
    rfl
  simp only [Machine.arch, hreg, h.vmem]

theorem halt (m : Sv32) {i : Nat} (hi : i < m.host.ctx.cores) :
    ∃ m', m.onCthread i cthreadSignalHalt = .ok m' ∧ SameCores m m' := by
  refine ⟨_, if_pos hi, rfl, rfl, rfl, fun j => ?_⟩
  rw [AllCores.cthread_putCthread]
  split
  · rename_i hji
    rw [hji]
    rcases cthreadSignalHalt_cases (m.cthread i) with ⟨-, h⟩ | ⟨-, -, h⟩ <;> rw [h] <;>
      exact ⟨_, rfl⟩
  · exact ⟨_, rfl⟩

theorem haltAll (m : Sv32) {l : List Nat} (hl : ∀ i ∈ l, i < m.host.ctx.cores) :
    ∃ m', l.foldlM (fun m i => m.onCthread i cthreadSignalHalt) m = .ok m' ∧ SameCores m m' := by
  induction l generalizing m with
  | nil => exact ⟨m, rfl, refl m⟩
  | cons i l ih =>
    obtain ⟨m₁, h₁, hsame₁⟩ := halt m (hl i (.head _))
    obtain ⟨m₂, h₂, hsame₂⟩ := ih m₁ fun j hj => by
      rw [hsame₁.ctx]
      exact hl j (.tail _ hj)
    refine ⟨m₂, ?_, hsame₁.trans hsame₂⟩
    rw [List.foldlM_cons, h₁]
    exact h₂

theorem threadsMgrHaltCores (m : Sv32) :
    ∃ m', threadsMgrHaltCores m = .ok m' ∧ SameCores m m' :=
  haltAll m fun _ => List.mem_range.mp

end SameCores

theorem vcoreExecute_breakpoint (build : Build) (emuSystemCall : Sv32 → Except Stop Sv32) {m : Sv32}
    (hword : memRw m.vmem (m.reg Reg.pc) = .ok breakpointVal)
    (hdebug : build = .supervisor → m.host.ctx.debug = true) :
    vcoreExecute (build.env emuSystemCall) m = threadsMgrHaltCores (m.setReg Reg.zero 0) := by
  have hpc : (m.setReg Reg.zero 0).reg Reg.pc = m.reg Reg.pc := Machine.reg_setReg_ne m (by decide)
  have hcompressed : Ins.isCompressed breakpointVal = false := by decide
  have hopcode : Ins.opcodeType breakpointVal = OpcodeType.sysType := by decide
  have hfunc : Ins.func breakpointVal = 0 := by decide
  have himm : Ins.iImm breakpointVal = 1 := by decide
  have hdispatch : vcoreDispatch (build.env emuSystemCall) (m.setReg Reg.zero 0) breakpointVal =
      (build.env emuSystemCall).vcoreSysType (m.setReg Reg.zero 0) breakpointVal := by
    rw [vcoreDispatch, hopcode]
    rfl
  simp only [vcoreExecute, hpc, Machine.setReg_vmem, hword, ok_bind, hcompressed, hdispatch]
  cases build with
  | user => simp [Build.env, User.env, User.vcoreSysType, User.dispatchTrap, himm]
  | supervisor =>
    have hdebug' : m.host.ctx.debug = true := hdebug rfl
    simp [Build.env, Supervisor.env, Supervisor.envWith, Supervisor.vcoreSysType, himm, hfunc,
      hdebug']

namespace Harts

variable {s : Harts} {i : Nat} {build : Build}

theorem iterate_breakpoint (emuSystemCall : Sv32 → Except Stop Sv32)
    (hword : memRw s.vmem ((s.machine i).reg Reg.pc) = .ok breakpointVal)
    (hdebug : build = .supervisor → s.ctx.debug = true)
    (hdue : build = .supervisor → ¬ Supervisor.InterruptDue (s.machine i)) :
    ∃ s', s.iterate (build.env emuSystemCall) i = .ok s' ∧ s'.vmem = s.vmem ∧
      ∀ mem, s'.arch mem = s.arch mem := by
  have hexec := vcoreExecute_breakpoint build emuSystemCall (m := s.machine i) hword hdebug
  obtain ⟨m, hm, hsame⟩ := SameCores.threadsMgrHaltCores ((s.machine i).setReg Reg.zero 0)
  obtain ⟨exit, hcore⟩ := hsame.self
  have hfree : (build.env emuSystemCall).checkInterrupts m = .ok m := by
    cases build with
    | user => rfl
    | supervisor =>
      refine Supervisor.checkInterrupts_of_not_due fun h => hdue rfl (h.congr ?_ ?_ ?_)
      · intro r hr
        rw [Machine.reg, hcore]
        exact Machine.reg_setReg_ne _ (by rintro rfl; exact absurd hr (by decide))
      · rw [hcore]
        rfl
      · rw [hcore]
        rfl
  refine ⟨_, iterate_of_execute (hexec.trans hm) hfree, hsame.vmem, fun mem => ?_⟩
  have harch : m.arch = (s.machine i).arch := hsame.arch.trans (arch_setZero (s.machine i) 0)
  rw [arch_put (i := i) mem fun j hj => hsame.other hj, harch]
  exact (s.arch mem).put_hart i

end Harts

-- ---------------------------------------------------------------------------
-- Sessions
-- ---------------------------------------------------------------------------

structure Debuggee where
  harts : Harts
  breakpoints : Breakpoints

inductive DebuggeeLabel
  /-- a `Z0` packet -/
  | insert (addr : BitVec 64)
  /-- a `z0` packet -/
  | remove (addr : BitVec 64)
  /-- an iteration of core `i`, which has `op` before it -/
  | execute (i : Nat) (op : Op)
  /-- an iteration of core `i` at a breakpoint -/
  | hit (i : Nat)
  /-- `sad_step_the_breakpoint` on core `i`, whose step executes `op`, or nothing if the core is
  not started -/
  | stepOver (i : Nat) (op : Option Op)
  /-- a section of `cthread.c` -/
  | record (i : Nat) (state : CthreadState) (signal oldSignal : CthreadSignal) (exit : Bool)

/-- The instruction of the program that a step stands for. -/
def DebuggeeLabel.executed : DebuggeeLabel → Option (Nat × Op)
  | .execute i op => some (i, op)
  | .stepOver i op => op.map fun op => (i, op)
  | _ => none

namespace Debuggee

def pc (s : Debuggee) (i : Nat) : BitVec 64 := ((s.harts.machine i).reg Reg.pc).setWidth 64

def patch (s : Debuggee) (vmem : Mem) (breakpoints : Breakpoints) : Debuggee :=
  ⟨{ s.harts with vmem }, breakpoints⟩

/-- `sad_step_the_breakpoint`, with all that the step of the core changes. -/
def stepTheBreakpoint (s : Debuggee) (coreStep : Harts → Except Stop Harts) (i : Nat) :
    Except Stop (Debuggee × BrkRet) := do
  let (vmem, t, ret) ← sadRemoveBreakpoint s.harts.vmem s.breakpoints (s.pc i)
  if ret = .removed then
    let harts ← coreStep (s.patch vmem t).harts
    let (vmem, t, _) ← sadInsertBreakpoint harts.vmem t (s.pc i)
    return (patch ⟨harts, t⟩ vmem t, .stepped)
  return (s.patch vmem t, .notFound)

def next (env : Env Platform) (s : Debuggee) : DebuggeeLabel → Option Debuggee
  | .insert addr =>
    (sadInsertBreakpoint s.harts.vmem s.breakpoints addr).toOption.map fun r => s.patch r.1 r.2.1
  | .remove addr =>
    (sadRemoveBreakpoint s.harts.vmem s.breakpoints addr).toOption.map fun r => s.patch r.1 r.2.1
  | .execute i _ => (s.harts.iterate env i).toOption.map fun harts => { s with harts }
  | .hit i => (s.harts.iterate env i).toOption.map fun harts => { s with harts }
  | .stepOver i op =>
    let coreStep harts := if op.isSome then Harts.iterate env harts i else .ok harts
    (s.stepTheBreakpoint coreStep i).toOption.map Prod.fst
  | .record i state signal oldSignal exit =>
    (s.harts.next (.record i state signal oldSignal exit)).map fun harts => { s with harts }

def Step (env : Env Platform) (s : Debuggee) (l : DebuggeeLabel) (s' : Debuggee) : Prop :=
  s.next env l = some s'

/-- Breakpoints are set on words of guest memory, and the cores execute what the interpreter
executes as the manual has it. -/
def Allowed (build : Build) (s : Debuggee) : DebuggeeLabel → Prop
  | .insert addr => addr.toNat % 4 = 0 ∧ addr.toNat < s.harts.vmem.size
  | .execute i op => Executes build s.harts s.breakpoints i op
  | .hit i => s.breakpoints.FullAt (s.pc i) ∧
    (build = .supervisor → s.harts.ctx.debug = true ∧
      ¬ Supervisor.InterruptDue (s.harts.machine i))
  | .stepOver i (some op) => s.breakpoints.FullAt (s.pc i) ∧ ∀ vmem t,
    sadRemoveBreakpoint s.harts.vmem s.breakpoints (s.pc i) = .ok (vmem, t, .removed) →
      Executes build (s.patch vmem t).harts t i op
  | _ => True

variable {s s' : Debuggee} {a : Shared} {i : Nat} {op : Op} {build : Build}
variable {coreStep : Harts → Except Stop Harts} {ret : BrkRet} {t : Breakpoints} {vmem : Mem}
variable {emuSystemCall : Sv32 → Except Stop Sv32}

/-- On guest memory and the table it does what `sadStepTheBreakpoint` does. -/
theorem stepTheBreakpoint_mem (s : Debuggee) (coreStep : Harts → Except Stop Harts) (i : Nat) :
    (s.stepTheBreakpoint coreStep i).map (fun r => (r.1.harts.vmem, r.1.breakpoints, r.2)) =
      sadStepTheBreakpoint (fun vmem => (coreStep { s.harts with vmem }).map Harts.vmem)
        s.harts.vmem s.breakpoints (s.pc i) := by
  unfold stepTheBreakpoint sadStepTheBreakpoint
  cases sadRemoveBreakpoint s.harts.vmem s.breakpoints (s.pc i) with
  | error e => rfl
  | ok r =>
    obtain ⟨vmem, t, ret⟩ := r
    simp only [ok_bind]
    split
    · simp only [patch]
      cases coreStep { s.harts with vmem } with
      | error e => rfl
      | ok harts =>
        simp only [Except.map, ok_bind]
        cases sadInsertBreakpoint harts.vmem t (s.pc i) <;> rfl
    · rfl

theorem stepTheBreakpoint_cases (h : s.stepTheBreakpoint coreStep i = .ok (s', ret)) :
    (∃ vmem t ret', sadRemoveBreakpoint s.harts.vmem s.breakpoints (s.pc i) = .ok (vmem, t, ret') ∧
      ret' ≠ .removed ∧ s' = s.patch vmem t) ∨
    ∃ vmem t harts vmem' t' ret',
      sadRemoveBreakpoint s.harts.vmem s.breakpoints (s.pc i) = .ok (vmem, t, .removed) ∧
      coreStep (s.patch vmem t).harts = .ok harts ∧
      sadInsertBreakpoint harts.vmem t (s.pc i) = .ok (vmem', t', ret') ∧
      s' = patch ⟨harts, t⟩ vmem' t' := by
  obtain ⟨⟨vmem, t, ret'⟩, hremove, h⟩ := bind_eq_ok.mp h
  dsimp only at h
  split at h
  · rename_i hret
    obtain ⟨harts, hcore, h⟩ := bind_eq_ok.mp h
    obtain ⟨⟨vmem', t', ret''⟩, hinsert, h⟩ := bind_eq_ok.mp h
    cases h
    exact .inr ⟨vmem, t, harts, vmem', t', ret'', hret ▸ hremove, hcore, hinsert, rfl⟩
  · rename_i hret
    cases h
    exact .inl ⟨vmem, t, ret', hremove, hret, rfl⟩

theorem fullAt_iff_removed {addr : BitVec 64} {free : Mem} (hp : Patched free vmem t)
    (hremove : sadRemoveBreakpoint vmem t addr = .ok (vmem', t', ret)) :
    t.FullAt addr ↔ ret = .removed := by
  constructor
  · intro hfull
    cases hfind : sadFindBreakpoint t addr with
    | none => exact absurd hfull (sadFindBreakpoint_none.mp hfind)
    | some j =>
      rw [sadRemoveBreakpoint_found hfind (hp.place addr hfull).mem] at hremove
      cases hremove
      rfl
  · rintro rfl
    by_contra hnot
    rw [sadRemoveBreakpoint_notFound hnot] at hremove
    cases hremove

-- ---------------------------------------------------------------------------
-- Every session
-- ---------------------------------------------------------------------------

/-- What the harts are without the debugger. -/
def Shows (s : Debuggee) (a : Shared) : Prop :=
  ∃ free, Patched free s.harts.vmem s.breakpoints ∧ a = s.harts.arch free

theorem Shows.stepOver {op : Option Op} (hs : s.Shows a) (hl : s.Allowed build (.stepOver i op))
    (h : s.stepTheBreakpoint (fun harts => if op.isSome then
      harts.iterate (build.env emuSystemCall) i else .ok harts) i = .ok (s', ret)) :
    (op = none ∧ s'.Shows a) ∨ ∃ o a', op = some o ∧ Shared.Exec a (i, o) a' ∧ s'.Shows a' := by
  obtain ⟨free, hp, rfl⟩ := hs
  rcases stepTheBreakpoint_cases h with ⟨vmem, t, ret', hremove, hret, rfl⟩ |
    ⟨vmem, t, harts, vmem', t', ret', hremove, hcore, hinsert, rfl⟩
  · cases op with
    | none => exact .inl ⟨rfl, free, hp.remove hremove, rfl⟩
    | some op => exact absurd ((fullAt_iff_removed hp hremove).mp hl.1) hret
  · have hp₁ := hp.remove hremove
    have hplace := hp.place _ ((fullAt_iff_removed hp hremove).mpr rfl)
    have hsize : vmem.size = s.harts.vmem.size := hp₁.size.trans hp.size.symm
    cases op with
    | none =>
      cases hcore
      have hword := hplace.of_size hsize
      exact .inl ⟨rfl, free, hp₁.insert hword.aligned hword.below hinsert, rfl⟩
    | some op =>
      obtain ⟨harts₁, free', hiterate, hsize₁, hp', hexec⟩ :=
        Patched.iterate (s := (s.patch vmem t).harts) emuSystemCall hp₁ (hl.2 _ _ hremove)
      cases hcore.symm.trans hiterate
      have hword := hplace.of_size (hsize₁.trans hsize)
      exact .inr ⟨op, _, rfl, hexec, free', hp'.insert hword.aligned hword.below hinsert, rfl⟩

theorem Shows.step {l : DebuggeeLabel} (hs : s.Shows a) (hl : s.Allowed build l)
    (h : Step (build.env emuSystemCall) s l s') :
    (l.executed = none ∧ s'.Shows a) ∨
      ∃ e a', l.executed = some e ∧ Shared.Exec a e a' ∧ s'.Shows a' := by
  cases l with
  | insert addr =>
    obtain ⟨free, hp, rfl⟩ := hs
    simp only [Step, next] at h
    obtain ⟨⟨vmem, t, ret⟩, hinsert, rfl⟩ := Option.map_eq_some_iff.mp h
    exact .inl ⟨rfl, free, hp.insert hl.1 hl.2 (toOption_eq_some.mp hinsert), rfl⟩
  | remove addr =>
    obtain ⟨free, hp, rfl⟩ := hs
    simp only [Step, next] at h
    obtain ⟨⟨vmem, t, ret⟩, hremove, rfl⟩ := Option.map_eq_some_iff.mp h
    exact .inl ⟨rfl, free, hp.remove (toOption_eq_some.mp hremove), rfl⟩
  | execute i op =>
    obtain ⟨free, hp, rfl⟩ := hs
    obtain ⟨harts, free', hiterate, -, hp', hexec⟩ := hp.iterate emuSystemCall hl
    simp only [Step, next, hiterate] at h
    cases h
    exact .inr ⟨_, _, rfl, hexec, free', hp', rfl⟩
  | hit i =>
    obtain ⟨free, hp, rfl⟩ := hs
    have hword : memRw s.harts.vmem ((s.harts.machine i).reg Reg.pc) = .ok breakpointVal := by
      have hin := (hp.place _ hl.1).mem
      have hpatched := hp.patched _ hl.1
      rw [pc, BitVec.setWidth_setWidth (by decide), BitVec.setWidth_eq] at hin hpatched
      rw [memRw, load_word hin, hpatched]
    obtain ⟨harts, hiterate, hvmem, harch⟩ := Harts.iterate_breakpoint emuSystemCall hword
      (fun hb => (hl.2 hb).1) fun hb => (hl.2 hb).2
    simp only [Step, next, hiterate] at h
    cases h
    refine .inl ⟨rfl, free, ?_, (harch free).symm⟩
    rwa [hvmem]
  | stepOver i op =>
    simp only [Step, next] at h
    obtain ⟨⟨s₁, ret⟩, hstep, rfl⟩ := Option.map_eq_some_iff.mp h
    rcases hs.stepOver hl (toOption_eq_some.mp hstep) with ⟨rfl, hs'⟩ | ⟨o, a', rfl, hexec, hs'⟩
    · exact .inl ⟨rfl, hs'⟩
    · exact .inr ⟨_, a', rfl, hexec, hs'⟩
  | record =>
    obtain ⟨free, hp, rfl⟩ := hs
    simp only [Step, next] at h
    obtain ⟨harts, hharts, rfl⟩ := Option.map_eq_some_iff.mp h
    obtain ⟨-, hvmem, hcore⟩ := Harts.step_record hharts
    refine .inl ⟨rfl, free, ?_, (Harts.arch_congr free fun j => ?_).symm⟩
    · rwa [hvmem]
    · rw [hcore j]

theorem Shows.proceeds {l : DebuggeeLabel} (hs : s.Shows a) (hl : s.Allowed build l)
    (h : l.executed ≠ none) : ∃ s', Step (build.env emuSystemCall) s l s' := by
  obtain ⟨free, hp, rfl⟩ := hs
  cases l with
  | execute i op =>
    obtain ⟨harts, -, hiterate, -⟩ := hp.iterate emuSystemCall hl
    refine ⟨{ s with harts }, ?_⟩
    simp only [Step, next, hiterate]
    rfl
  | stepOver i op =>
    cases op with
    | none => exact absurd rfl h
    | some op =>
      have hplace := hp.place _ hl.1
      obtain ⟨vmem, t, ret, hremove, hp₁, -⟩ := hp.remove_ok (s.pc i)
      obtain rfl := (fullAt_iff_removed hp hremove).mp hl.1
      have hsize : vmem.size = s.harts.vmem.size := hp₁.size.trans hp.size.symm
      obtain ⟨harts, free', hiterate, hsize₁, -⟩ :=
        Patched.iterate (s := (s.patch vmem t).harts) emuSystemCall hp₁ (hl.2 _ _ hremove)
      obtain ⟨vmem', t', ret', hinsert⟩ :=
        sadInsertBreakpoint_ok t (hplace.of_size (hsize₁.trans hsize)).mem
      refine ⟨patch ⟨harts, t⟩ vmem' t', ?_⟩
      simp only [Step, next, stepTheBreakpoint, hremove, ok_bind, Option.isSome_some, hiterate,
        hinsert, if_true]
      rfl
  | _ => exact absurd rfl h

/-- Whatever is done with breakpoints, the harts do what the program does on its own: instruction
by instruction, on the memory that is left when the breakpoints are taken out. -/
theorem breakpoints_transparent (build : Build) (emuSystemCall : Sv32 → Except Stop Sv32)
    (harts : Harts) {t : List (Debuggee × DebuggeeLabel)} {s : Debuggee}
    (hrun : Lts.Run (Step (build.env emuSystemCall)) ⟨harts, .reset⟩ t s)
    (ht : Lts.Every (Allowed build) t) :
    (∃ t' free, Lts.Run Shared.Exec (harts.arch harts.vmem) t' (s.harts.arch free) ∧
      t'.map Prod.snd = t.filterMap (fun e => e.2.executed) ∧
      ∀ addrs, (∀ a, s.breakpoints.FullAt a → a ∈ addrs) →
        ∃ t₁, removeAll s.harts.vmem s.breakpoints addrs = .ok (free, t₁) ∧
          ∀ a, ¬ t₁.FullAt a) ∧
    ∀ l, s.Allowed build l → l.executed ≠ none → ∃ s', Step (build.env emuSystemCall) s l s' := by
  have h0 : Shows ⟨harts, .reset⟩ (harts.arch harts.vmem) := ⟨_, Patched.reset _, rfl⟩
  obtain ⟨t', a, hrun', hs, hlabels⟩ :=
    hrun.simulates DebuggeeLabel.executed (R := Shows) (fun _ _ _ _ hs hl h => hs.step hl h) ht h0
  refine ⟨?_, fun l hl => hs.proceeds hl⟩
  obtain ⟨free, hp, rfl⟩ := hs
  exact ⟨t', free, hrun', hlabels, fun addrs hall => hp.removeAll addrs hall⟩

/-- `addi x5, x5, 1` -/
def addOne : Op := .base (.opImm .addi 5 5 1)

def addOneHarts : Harts := .boot [addOne.encode] [[]]

/-- A breakpoint on the instruction, which a step then goes over. -/
theorem breakpoints_transparent_boot :
    ∃ t s, Lts.Run (Step (Build.user.env .ok)) ⟨addOneHarts, .reset⟩ t s ∧
      ∃ t' free, Lts.Run Shared.Exec (addOneHarts.arch addOneHarts.vmem) t' (s.harts.arch free) ∧
        t'.map Prod.snd = [(0, addOne)] := by
  have hword : addOneHarts.vmem.word ((0 : BitVec 64).setWidth 32) ≠ breakpointVal := by decide
  have hempty : (Breakpoints.reset.slot 0).status = .empty := rfl
  obtain ⟨j, hj, hinsert⟩ := sadInsertBreakpoint_word (by decide) hempty hword
  let s₀ : Debuggee := ⟨addOneHarts, .reset⟩
  let s₁ := s₀.patch (s₀.harts.vmem.put ((0 : BitVec 64).setWidth 32).toNat breakpointVal)
    (s₀.breakpoints.fill j 0 _ hword)
  have hset : Lts.Run (Step (Build.user.env .ok)) s₀ [(s₀, .insert 0)] s₁ := by
    refine .one ?_
    simp only [Step, next]
    exact Option.map_eq_some_iff.mpr ⟨_, toOption_eq_some.mpr hinsert, rfl⟩
  have hset_allowed : s₀.Allowed .user (.insert 0) := ⟨by decide, by decide⟩
  have hp := (Patched.reset addOneHarts.vmem).insert hset_allowed.1 hset_allowed.2 hinsert
  have hfull (a) : s₁.breakpoints.FullAt a ↔ a = 0 :=
    (Breakpoints.fullAt_fill (h := hword) hj).trans (or_iff_right Breakpoints.not_fullAt_reset)
  have hexec (t) : Executes .user addOneHarts t 0 addOne := {
    aligned := by decide
    fetch := by decide
    ordinary := {
      fetch := by decide
      access := by rintro a n ⟨⟩
      jump := by rintro i ⟨⟩; trivial
      amo := by rintro o aq rl rd rs1 rs2 ⟨⟩ }
    spares := by rintro a n ⟨⟩
    due := by rintro ⟨⟩ }
  have hover : s₁.Allowed .user (.stepOver 0 (some addOne)) := by
    refine ⟨(hfull _).mpr rfl, fun vmem t hremove => ?_⟩
    obtain ⟨vmem₁, t₁, ret, hremove₁, hp₁, hgone⟩ := hp.remove_ok (s₁.pc 0)
    cases hremove.symm.trans hremove₁
    -- no breakpoint is left
    obtain rfl := hp₁.eq_free fun a ha => (hgone a ha).2 ((hfull a).mp (hgone a ha).1)
    exact hexec t
  obtain ⟨s₂, hstep⟩ := (breakpoints_transparent .user .ok addOneHarts hset
    (by simpa using hset_allowed)).2 _ hover (by simp [DebuggeeLabel.executed])
  obtain ⟨⟨t', free, hrun, hlabels, -⟩, -⟩ := breakpoints_transparent .user .ok addOneHarts
    (hset.snoc hstep) (by simpa using ⟨hset_allowed, hover⟩)
  exact ⟨_, s₂, hset.snoc hstep, t', free, hrun, hlabels⟩

end Debuggee

end SwitchV32
