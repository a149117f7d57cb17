import SwitchV32.Hsm.OwnRecord

/-!
# Restricted registers

STVEC never holds a reserved mode, and SIE and SIP never a bit other than those
of the three supervisor interrupts. They are written by CSR instructions, which
mask or mend the value, and by `vcore_init`, which clears them; the debugger
writes the general registers and the program counter only.
-/

namespace SwitchV32

namespace Supervisor

/-- No bit is set but those of the software, the timer and the external interrupt. -/
def OnlyInterrupts (x : U32) : Prop := ∀ k, x.getLsbD k = true → k = 1 ∨ k = 5 ∨ k = 9

theorem OnlyInterrupts.and {x : U32} (h : OnlyInterrupts x) (y : U32) :
    OnlyInterrupts (x &&& y) := by
  intro k hk
  rw [BitVec.getLsbD_and, Bool.and_eq_true] at hk
  exact h k hk.1

theorem OnlyInterrupts.or {x y : U32} (hx : OnlyInterrupts x) (hy : OnlyInterrupts y) :
    OnlyInterrupts (x ||| y) := by
  intro k hk
  rw [BitVec.getLsbD_or, Bool.or_eq_true] at hk
  exact hk.elim (hx k) (hy k)

theorem onlyInterrupts_of_lt {x : U32}
    (h : ∀ k < 32, x.getLsbD k = true → k = 1 ∨ k = 5 ∨ k = 9) : OnlyInterrupts x :=
  fun k hk => h k (BitVec.lt_of_getLsbD hk) hk

/-- What `csr.h` and the assertions of `trap.c` take for granted. -/
structure Legal (core : VCore) : Prop where
  stvec : stvecMode (core.regs Reg.stvec) = 0 ∨ stvecMode (core.regs Reg.stvec) = 1
  sie : OnlyInterrupts (core.regs Reg.sie)
  sip : OnlyInterrupts (core.regs Reg.sip)

theorem Legal.congr {core core' : VCore} (h : Legal core)
    (hregs : ∀ r, Warl r → core'.regs r = core.regs r) : Legal core' where
  stvec := by rw [hregs _ (.inl rfl)]; exact h.stvec
  sie := by rw [hregs _ (.inr (.inl rfl))]; exact h.sie
  sip := by rw [hregs _ (.inr (.inr rfl))]; exact h.sip

theorem Legal.setReg {core : VCore} (h : Legal core) {r : Reg} (hr : ¬ Warl r) (v : U32) :
    Legal (core.setReg r v) := by
  refine h.congr fun r' hr' => ?_
  have hne : r' ≠ r := by
    rintro rfl
    exact hr hr'
  exact Function.update_of_ne hne ..

theorem regs_setReg_self (core : VCore) (r : Reg) (v : U32) : (core.setReg r v).regs r = v :=
  Function.update_self ..

theorem Legal.setStvec {core : VCore} (h : Legal core) {v : U32}
    (hv : stvecMode v = 0 ∨ stvecMode v = 1) : Legal (core.setReg Reg.stvec v) where
  stvec := by rwa [regs_setReg_self]
  sie := h.sie
  sip := h.sip

theorem Legal.setSie {core : VCore} (h : Legal core) {v : U32} (hv : OnlyInterrupts v) :
    Legal (core.setReg Reg.sie v) where
  stvec := h.stvec
  sie := by rwa [regs_setReg_self]
  sip := h.sip

theorem Legal.setSip {core : VCore} (h : Legal core) {v : U32} (hv : OnlyInterrupts v) :
    Legal (core.setReg Reg.sip v) where
  stvec := h.stvec
  sie := h.sie
  sip := by rwa [regs_setReg_self]

theorem legal_vcoreInit (init : Option VCoreInit) : Legal (vcoreInit init) := by
  have hclear : OnlyInterrupts 0 := onlyInterrupts_of_lt (by decide)
  have hzero : Legal (vcoreInit none) := ⟨.inl rfl, hclear, hclear⟩
  cases init with
  | none => exact hzero
  | some init => exact hzero.congr fun r hr => by obtain rfl | rfl | rfl := hr <;> rfl

structure AllLegal (cores k : Nat) (m : Sv32) : Prop where
  cores_eq : m.host.ctx.cores = cores
  hart : m.host.hart = k
  hart_lt : k < cores
  legal : ∀ j < cores, Legal (m.cthread j).core

namespace AllLegal

variable {cores k : Nat} {m : Sv32}

theorem core (h : AllLegal cores k m) : Legal m.core := by
  have hlegal := h.legal k h.hart_lt
  rwa [Machine.cthread, if_pos h.hart.symm] at hlegal

theorem setCore (h : AllLegal cores k m) {core : VCore} (hcore : Legal core) (vmem : Mem) :
    AllLegal cores k { m with core, vmem } := by
  refine ⟨h.cores_eq, h.hart, h.hart_lt, fun j hj => ?_⟩
  have hlegal := h.legal j hj
  simp only [Machine.cthread] at hlegal ⊢
  split
  · exact hcore
  · rename_i hne
    rwa [if_neg hne] at hlegal

theorem setReg (h : AllLegal cores k m) {r : Reg} {v : U32} (hcore : Legal (m.core.setReg r v)) :
    AllLegal cores k (m.setReg r v) := h.setCore hcore m.vmem

theorem frameOn (cores k : Nat) : Machine.FrameOn (fun r => ¬ Warl r) (AllLegal cores k) where
  setReg v hr h := h.setReg (h.core.setReg hr v)
  setVmem vmem h := h.setCore h.core vmem
  setMode {m} mode h := by
    have hcore : Legal { m.core with mode } := h.core.congr fun _ _ => rfl
    exact h.setCore hcore m.vmem

theorem not_warl {r : Reg} (h : r.General) : ¬ Warl r := by
  rintro (rfl | rfl | rfl) <;> exact absurd h (by decide)

theorem cthread_putCthread_self (m : Sv32) (i : Nat) (ct : Cthread) :
    (m.putCthread i ct).cthread i = ct := by
  by_cases hhart : i = m.host.hart <;> simp [Machine.cthread, Machine.putCthread, hhart]

theorem cthread_putCthread_ne (m : Sv32) {i j : Nat} (ct : Cthread) (h : j ≠ i) :
    (m.putCthread i ct).cthread j = m.cthread j := by
  by_cases hhart : j = m.host.hart
  · have hne : i ≠ m.host.hart := by
      rw [← hhart]
      exact fun heq => h heq.symm
    simp [Machine.cthread, Machine.putCthread, hne, hhart, Function.update_of_ne (Ne.symm hne)]
  · simp [Machine.cthread, Machine.putCthread, hhart, Function.update_of_ne h]

theorem putCthread (h : AllLegal cores k m) (i : Nat) {ct : Cthread} (hct : Legal ct.core) :
    AllLegal cores k (m.putCthread i ct) := by
  refine ⟨h.cores_eq, h.hart, h.hart_lt, fun j hj => ?_⟩
  by_cases hji : j = i
  · rw [hji, cthread_putCthread_self]
    exact hct
  · rw [cthread_putCthread_ne m ct hji]
    exact h.legal j hj

theorem onCthread (h : AllLegal cores k m) (i : Nat) {f : Cthread → Cthread}
    (hf : ∀ ct : Cthread, Legal ct.core → Legal (f ct).core) :
    Ensures (m.onCthread i f) (AllLegal cores k) := by
  refine .ite (fun hi => .pure (h.putCthread i (hf _ ?_))) fun _ => .error
  exact h.legal i (h.cores_eq ▸ hi)

end AllLegal

-- ---------------------------------------------------------------------------
-- CSR instructions
-- ---------------------------------------------------------------------------

section
variable {cores k : Nat} {m : Sv32} {r : Reg} {csrAddr func x y : U32} {write : U32 → U32}

theorem onlyInterrupts_mask {mask : U32} (x : U32) (h : OnlyInterrupts mask) :
    OnlyInterrupts (x &&& mask) := by
  rw [BitVec.and_comm]
  exact h.and x

theorem csrMask_only (h : csrAddr = CsrAddr.sie ∨ csrAddr = CsrAddr.sip) (x : U32) :
    OnlyInterrupts (csrMask csrAddr x) := by
  obtain rfl | rfl := h
  · exact onlyInterrupts_mask x (onlyInterrupts_of_lt (by decide))
  · exact onlyInterrupts_mask x (onlyInterrupts_of_lt (by decide))

theorem csrWrite_only (h : csrWrite func x y = some write) (hx : OnlyInterrupts x)
    (hy : OnlyInterrupts y) {old : U32} (hold : OnlyInterrupts old) :
    OnlyInterrupts (write old) := by
  unfold csrWrite at h
  split at h <;> cases h
  · exact hx
  · exact hold.or hx
  · exact hold.and _
  · exact hy
  · exact hold.or hy
  · exact hold.and _

theorem findCsr_warl (h : findCsr csrAddr = some r) :
    (r = Reg.stvec ∧ csrAddr = CsrAddr.stvec) ∨
      ((r = Reg.sie ∧ csrAddr = CsrAddr.sie) ∨ (r = Reg.sip ∧ csrAddr = CsrAddr.sip)) ∨
      (¬ Warl r ∧ csrAddr ≠ CsrAddr.stvec) := by
  unfold findCsr at h
  split at h <;> cases h <;> decide

theorem stvecMode_mended (x : U32) : stvecMode (x &&& ~~~0x3#32) = 0 := by
  rw [stvecMode, BitVec.and_assoc]
  exact BitVec.and_zero

theorem stvecMode_lt {x : U32} (h : ¬ stvecMode x ≥ 2#32) : stvecMode x = 0 ∨ stvecMode x = 1 := by
  have hlt : (stvecMode x).toNat < 2 := by simpa [BitVec.lt_def] using h
  obtain h0 | h1 : (stvecMode x).toNat = 0 ∨ (stvecMode x).toNat = 1 := by omega
  · exact .inl (BitVec.eq_of_toNat_eq h0)
  · exact .inr (BitVec.eq_of_toNat_eq h1)

/-- What is written is legal, except for the mode of STVEC. -/
structure NearlyLegal (csrAddr : U32) (r : Reg) (cores k : Nat) (m : Sv32) : Prop where
  other : csrAddr ≠ CsrAddr.stvec → AllLegal cores k m
  stvec : csrAddr = CsrAddr.stvec →
    ∀ v, stvecMode v = 0 ∨ stvecMode v = 1 → AllLegal cores k (m.setReg r v)

theorem setReg_setReg (m : Sv32) (r : Reg) (v v' : U32) :
    (m.setReg r v).setReg r v' = m.setReg r v' := by
  simp only [Machine.setReg, VCore.setReg, Function.update_idem]

theorem NearlyLegal.of_write (hm : AllLegal cores k m) (hr : findCsr csrAddr = some r)
    (hwrite : csrWrite func (csrMask csrAddr x) (csrMask csrAddr y) = some write) :
    NearlyLegal csrAddr r cores k (m.setReg r (write (m.reg r))) := by
  have hframe := AllLegal.frameOn cores k
  have hcore := hm.core
  have hinterrupts (haddr : csrAddr = CsrAddr.sie ∨ csrAddr = CsrAddr.sip)
      (hold : OnlyInterrupts (m.reg r)) : OnlyInterrupts (write (m.reg r)) :=
    csrWrite_only hwrite (csrMask_only haddr x) (csrMask_only haddr y) hold
  obtain ⟨rfl, rfl⟩ | (⟨rfl, rfl⟩ | ⟨rfl, rfl⟩) | ⟨hfree, hne⟩ := findCsr_warl hr
  · refine ⟨fun h => absurd rfl h, fun _ v hv => ?_⟩
    rw [setReg_setReg]
    exact hm.setReg (hcore.setStvec hv)
  · have hsie := hcore.setSie (hinterrupts (.inl rfl) hcore.sie)
    exact ⟨fun _ => hm.setReg hsie, fun h => absurd h (by decide)⟩
  · have hsip := hcore.setSip (hinterrupts (.inr rfl) hcore.sip)
    exact ⟨fun _ => hm.setReg hsip, fun h => absurd h (by decide)⟩
  · exact ⟨fun _ => hframe.setReg _ hfree hm, fun h => absurd h hne⟩

theorem csrAccess_legal (hm : AllLegal cores k m) (ins : U32)
    (hr : findCsr (Ins.iImm ins) = some r) :
    Ensures (csrAccess dispatchTrap m ins (some r)) (AllLegal cores k) := by
  have hframe := AllLegal.frameOn cores k
  have htrap (code v) : Ensures (dispatchTrap m code v) (AllLegal cores k) :=
    dispatchTrap_frameOn hframe (fun _ h => h) hm code v
  have hmend {m' : Sv32} (h : NearlyLegal (Ins.iImm ins) r cores k m') :
      Ensures (do
        if Ins.iImm ins = CsrAddr.stvec then
          let r ← derefCsr (some r)
          if stvecMode (m'.reg r) ≥ 2#32 then return m'.setReg r (m'.reg r &&& ~~~0x3#32)
          else return m'
        else return m') (AllLegal cores k) := by
    refine .ite (fun haddr => ?_) fun haddr => .pure (h.other haddr)
    refine .ite (fun _ => .pure (h.stvec haddr _ (.inl (stvecMode_mended _)))) fun hmode => ?_
    have hsame := h.stvec haddr (m'.reg r) (stvecMode_lt hmode)
    refine .pure ?_
    rwa [show m'.setReg r (m'.reg r) = m' by
      simp only [Machine.setReg, Machine.reg, VCore.setReg, Function.update_eq_self]] at hsame
  have hnone : NearlyLegal (Ins.iImm ins) r cores k m := by
    obtain ⟨rfl, -⟩ | hother := findCsr_warl hr
    · exact ⟨fun _ => hm, fun _ v hv => hm.setReg (hm.core.setStvec hv)⟩
    · refine ⟨fun _ => hm, fun haddr => ?_⟩
      obtain (⟨-, h⟩ | ⟨-, h⟩) | ⟨-, h⟩ := hother
      · exact absurd (h.symm.trans haddr) (by decide)
      · exact absurd (h.symm.trans haddr) (by decide)
      · exact absurd haddr h
  simp only [csrAccess]
  refine .ite (fun _ => .ite (fun _ => htrap _ _) fun _ => .ite (fun _ => htrap _ _) fun _ => ?_)
    fun _ => ?_
  all_goals
    split
    · rename_i write hwrite
      refine hmend (.of_write ?_ hr hwrite)
      exact hframe.setReg _ (AllLegal.not_warl (Ins.general_rdReg ins)) hm
    · exact hmend hnone

theorem csrAccess_user_legal (hm : AllLegal cores k m) (ins : U32) :
    Ensures (csrAccess dispatchTrap m ins none) (AllLegal cores k) := by
  have htrap (code v) : Ensures (dispatchTrap m code v) (AllLegal cores k) :=
    dispatchTrap_frameOn (AllLegal.frameOn cores k) (fun _ h => h) hm code v
  have hmend {m' : Sv32} (h : AllLegal cores k m') :
      Ensures (do
        if Ins.iImm ins = CsrAddr.stvec then
          let r ← derefCsr none
          if stvecMode (m'.reg r) ≥ 2#32 then return m'.setReg r (m'.reg r &&& ~~~0x3#32)
          else return m'
        else return m') (AllLegal cores k) := .ite (fun _ => .error) fun _ => .pure h
  simp only [csrAccess]
  refine .ite (fun _ => .ite (fun _ => htrap _ _) fun _ => .ite (fun _ => htrap _ _) fun _ => ?_)
    fun _ => ?_
  all_goals
    split
    · exact .error
    · exact hmend hm

-- ---------------------------------------------------------------------------
-- Instructions
-- ---------------------------------------------------------------------------

theorem hsmExt_legal (hm : AllLegal cores k m) : Ensures (hsmExt m) (AllLegal cores k) := by
  have hframe := AllLegal.frameOn cores k
  have ha0 {m : Sv32} (v) (h : AllLegal cores k m) : AllLegal cores k (m.setReg Reg.a0 v) :=
    hframe.setReg v (by decide) h
  have hinit {m₁ : Sv32} {init : VCoreInit}
      (h : Machine.vcoreInitAt m (m.reg Reg.a0).toNat init = .ok m₁) : AllLegal cores k m₁ :=
    hm.onCthread _ (fun _ _ => legal_vcoreInit (some init)) m₁ h
  have hsignal {m₁ m₂ : Sv32} (h : AllLegal cores k m₁) (signal : HsmSignal) {i : Nat}
      (hs : m₁.onCthread i (cthreadSignalHsm signal) = .ok m₂) : AllLegal cores k m₂ := by
    refine h.onCthread i (fun ct hct => ?_) m₂ hs
    obtain heq | ⟨-, -, heq⟩ | ⟨-, heq⟩ := cthreadSignalHsm_cases signal ct <;> rw [heq]
    · exact hct
    · exact hct
    · exact hct.congr fun _ _ => rfl
  intro m' h
  cases hsmExt_done h with
  | refused => exact ha0 _ hm
  | status => exact ha0 _ (hframe.setReg _ (by decide) hm)
  | start init _ _ _ h₁ h₂ => exact ha0 _ (hsignal (hinit h₁) .start h₂)
  | signal i signal _ _ h₁ => exact ha0 _ (hsignal hm signal h₁)
  | init init _ _ _ h₁ => exact ha0 _ (hinit h₁)

theorem threadsMgrHaltCores_legal (hm : AllLegal cores k m) :
    Ensures (threadsMgrHaltCores m) (AllLegal cores k) := by
  refine .foldlM (fun m i h => h.onCthread i fun ct hct => ?_) _ hm
  obtain ⟨-, heq⟩ | ⟨-, -, heq⟩ := cthreadSignalHalt_cases ct <;> rw [heq]
  · exact hct
  · exact hct.congr fun _ _ => rfl

theorem begun_legal {ins : U32} {r : Sv32 × Phase} (hm : AllLegal cores k m)
    (h : Begun env m ins r) : AllLegal cores k r.1 := by
  have hframe := AllLegal.frameOn cores k
  have htrap (code v) : Ensures (env.dispatchTrap m code v) (AllLegal cores k) :=
    dispatchTrap_frameOn hframe (fun _ h => h) hm code v
  have hcore {core : VCore} (h : core.regs = m.core.regs) : AllLegal cores k { m with core } :=
    hm.setCore (hm.core.congr fun r _ => congrFun h r) m.vmem
  cases h with
  | lr | sc => exact hcore rfl
  | scRefused => exact hframe.setReg _ (AllLegal.not_warl (Ins.general_rdReg ins)) hm
  | amo => exact hm
  | trap _ _ h => exact hframe.setReg _ (by decide) (htrap _ _ _ h)
  | other hop h =>
    refine vcoreDispatch_frameOn hframe (fun _ => AllLegal.not_warl) hm htrap ins (fun _ => ?_)
      hop _ h
    refine vcoreSysType_frameOn hframe (fun _ h => h) hm ins (fun _ _ _ => ?_)
      (threadsMgrHaltCores_legal hm) (fun r hr => csrAccess_legal hm ins hr)
      (csrAccess_user_legal hm ins)
    exact emuSbiCall_frameOn hframe (fun _ => AllLegal.not_warl) hm fun _ => hsmExt_legal hm

theorem accessed_legal {p : Phase} {r : Sv32 × Phase} (hm : AllLegal cores k m)
    (h : p.Accessed m r) : AllLegal cores k r.1 := by
  have hframe := AllLegal.frameOn cores k
  have hfinish (vmem ins v) : AllLegal cores k (m.finish vmem ins v) :=
    hframe.setReg _ (by decide) (hframe.setReg _ (AllLegal.not_warl (Ins.general_rdReg ins))
      (hframe.setVmem vmem hm))
  cases h with
  | lr =>
    refine hframe.setReg _ (by decide) (hm.setCore ?_ m.vmem)
    exact hm.core.congr fun _ _ => rfl
  | scStored | amoDone | casStored => exact hfinish _ _ _
  | scRetry | amoRead | casRetry => exact hm

theorem dispatchTrap_ok (h : Legal m.core) (code v) : ∃ m', dispatchTrap m code v = .ok m' := by
  rw [dispatchTrap_eq]
  split
  · exact ⟨_, rfl⟩
  · have htarget : ∃ target, interruptTarget (m.reg Reg.stvec) code = .ok target := by
      rw [interruptTarget]
      obtain hdirect | hvectored := h.stvec
      · exact ⟨_, if_pos hdirect⟩
      · refine ⟨_, (if_neg ?_).trans (if_pos hvectored)⟩
        rw [show stvecMode (m.reg Reg.stvec) = 1 from hvectored]
        decide
    obtain ⟨target, htarget⟩ := htarget
    rw [htarget]
    exact ⟨_, rfl⟩

theorem checkInterrupts_ok (hm : AllLegal cores k m) :
    ∃ m', checkInterrupts dispatchTrap m = .ok m' := by
  have htest {c : Prop} [Decidable c] {m : Sv32} (h : AllLegal cores k m) (code v)
      {f : Sv32 → Except Stop Sv32} (hf : ∀ m', AllLegal cores k m' → ∃ m'', f m' = .ok m'') :
      ∃ m', (if c then dispatchTrap m code v >>= f else pure m >>= f) = .ok m' := by
    obtain ⟨m₁, h₁⟩ := dispatchTrap_ok h.core code v
    have hm₁ := dispatchTrap_frameOn (AllLegal.frameOn cores k) (fun _ h => h) h code v m₁ h₁
    split
    · rw [h₁]
      exact hf m₁ hm₁
    · exact hf m h
  simp only [checkInterrupts]
  split
  · exact ⟨_, rfl⟩
  · split
    · exact ⟨_, rfl⟩
    · refine htest hm _ _ fun m₁ h₁ => htest h₁ _ _ fun m₂ h₂ => ?_
      split
      · exact dispatchTrap_ok h₂.core _ _
      · exact ⟨_, rfl⟩

end

end Supervisor

-- ---------------------------------------------------------------------------
-- Runs with a debugger
-- ---------------------------------------------------------------------------

namespace Harts

def writeReg (s : Harts) (input : BitVec 64) (coreId : Nat) (regId : Reg) : Harts :=
  let ct := s.cthreads coreId
  let ct := { ct with core := ct.core.setReg regId (input.setWidth 32) }
  { s with cthreads := Function.update s.cthreads coreId ct }

inductive DebuggedLabel
  | hart (l : HartLabel)
  | writeReg (input : BitVec 64) (coreId : Nat) (regId : Reg)
  | writeMem (vmem : Mem)

/-- The stub writes registers below its `regs_num`, which is 33, and any bytes of guest memory. -/
inductive DebuggedStep : Harts → DebuggedLabel → Harts → Prop
  | hart {s s' : Harts} {l : HartLabel} (h : Step s l s') : DebuggedStep s (.hart l) s'
  | writeReg {s : Harts} (input coreId regId) (hreg : regId.val < 33) :
    DebuggedStep s (.writeReg input coreId regId) (s.writeReg input coreId regId)
  | writeMem {s : Harts} (vmem : Mem) (hsize : vmem.size = s.vmem.size) :
    DebuggedStep s (.writeMem vmem) { s with vmem }

def debuggedNext (s : Harts) : DebuggedLabel → Option Harts
  | .hart l => s.next l
  | .writeReg input coreId regId =>
    if regId.val < 33 then some (s.writeReg input coreId regId) else none
  | .writeMem vmem => if vmem.size = s.vmem.size then some { s with vmem } else none

theorem DebuggedStep.of_next {s s' : Harts} {l : DebuggedLabel} (h : s.debuggedNext l = some s') :
    DebuggedStep s l s' := by
  cases l with
  | hart l => exact .hart h
  | writeReg input coreId regId =>
    simp only [debuggedNext, Option.ite_none_right_eq_some, Option.some.injEq] at h
    obtain ⟨hreg, rfl⟩ := h
    exact .writeReg input coreId regId hreg
  | writeMem vmem =>
    simp only [debuggedNext, Option.ite_none_right_eq_some, Option.some.injEq] at h
    obtain ⟨hsize, rfl⟩ := h
    exact .writeMem vmem hsize

def AllLegal (s : Harts) : Prop := ∀ j < s.ctx.cores, Supervisor.Legal (s.cthreads j).core

variable {s₀ s s' : Harts} {i : Nat} {core0Init : VCoreInit}

theorem AllLegal.machine (h : s.AllLegal) (hi : i < s.ctx.cores) :
    Supervisor.AllLegal s.ctx.cores i (s.machine i) := by
  refine ⟨rfl, rfl, hi, fun j hj => ?_⟩
  rw [Machine.cthread]
  split
  · rename_i hji
    have hlegal := h j hj
    rw [hji] at hlegal
    exact hlegal
  · exact h j hj

theorem AllLegal.put {r : Sv32 × Phase} (h : Supervisor.AllLegal s.ctx.cores i r.1) :
    (s.put i r).AllLegal := by
  intro j hj
  by_cases hji : j = i
  · rw [hji, put_core_self]
    exact h.core
  · have hlegal := h.legal j hj
    rw [Machine.cthread, if_neg (by rw [h.hart]; exact hji)] at hlegal
    rw [put_core_ne s r hji]
    exact hlegal

theorem AllLegal.writeReg (h : s.AllLegal) (input coreId) {regId : Reg} (hreg : regId.val < 33) :
    (s.writeReg input coreId regId).AllLegal := by
  intro j hj
  by_cases hji : j = coreId
  · subst hji
    simp only [Harts.writeReg, Function.update_self]
    exact (h j hj).setReg (Supervisor.AllLegal.not_warl (Nat.lt_succ_iff.mp hreg)) _
  · simp only [Harts.writeReg, Function.update_of_ne hji]
    exact h j hj

theorem MainStart.allLegal (h : MainStart core0Init s) : s.AllLegal := by
  intro j _
  have hj := h.table j
  unfold threadsMgrInit at hj
  split at hj <;>
    · rw [← Except.ok.inj hj]
      show Supervisor.Legal (vcoreInit (some _))
      exact Supervisor.legal_vcoreInit _

theorem Step.allLegal {l : HartLabel} (h : s.AllLegal) (hs : Step s l s') : s'.AllLegal := by
  cases l with
  | begin i =>
    have hi := step_hart_lt hs rfl
    obtain ⟨-, ins, r, -, hbegun, rfl⟩ := step_begin hs
    have hzero := (Supervisor.AllLegal.frameOn _ i).setReg 0 (r := Reg.zero) (by decide)
      (h.machine hi)
    exact .put (Supervisor.begun_legal hzero hbegun)
  | access i =>
    have hi := step_hart_lt hs rfl
    obtain ⟨r, haccess, rfl⟩ := step_access hs
    exact .put (Supervisor.accessed_legal (h.machine hi) haccess)
  | interrupts i =>
    have hi := step_hart_lt hs rfl
    obtain ⟨-, m, hm, rfl⟩ := step_interrupts hs
    exact .put (r := (m, .idle)) (Supervisor.checkInterrupts_frameOn
      (Supervisor.AllLegal.frameOn _ i) (fun _ h => h) (h.machine hi) m hm)
  | record i =>
    have hctx := step_ctx hs
    intro j hj
    rw [hctx] at hj
    rw [(step_record hs).2.2 j]
    exact (h j hj).congr fun _ _ => rfl

theorem DebuggedStep.allLegal {l : DebuggedLabel} (h : s.AllLegal) (hs : DebuggedStep s l s') :
    s'.AllLegal := by
  cases hs with
  | hart hs => exact hs.allLegal h
  | writeReg input coreId regId hreg => exact h.writeReg input coreId hreg
  | writeMem => exact h

/-- In every reachable state the restricted registers of every core are legal, so that no trap
finds a reserved mode. -/
theorem restricted {t : List (Harts × DebuggedLabel)} (h0 : MainStart core0Init s₀)
    (hrun : Lts.Run DebuggedStep s₀ t s) :
    ∀ i < s.ctx.cores, Supervisor.Legal (s.cthreads i).core ∧
      (∀ code v, ∃ m, Supervisor.env.dispatchTrap (s.machine i) code v = .ok m) ∧
      ∃ m, Supervisor.env.checkInterrupts (s.machine i) = .ok m := by
  have hlegal : s.AllLegal :=
    hrun.inv_all AllLegal (fun _ _ _ h hs => hs.allLegal h) h0.allLegal
  intro i hi
  exact ⟨hlegal i hi, fun code v => Supervisor.dispatchTrap_ok (hlegal i hi) code v,
    Supervisor.checkInterrupts_ok (hlegal.machine hi)⟩

/-- `addi a0, zero, -1; csrrw zero, sie, a0`, and a word that is no instruction -/
def sieWords : List U32 := [0xFFF00513, 0x10451073, 0]

/-- The first core writes SIE, at which it stays; the debugger moves it on to the last word, before
which it writes another one, and the core takes a trap there. -/
def sieRun : List DebuggedLabel :=
  [.hart (.begin 0), .hart (.begin 0), .writeReg 8 0 Reg.pc,
    .writeMem (.ofWords [0, 0, 0xFFFFFFFF]), .hart (.begin 0)]

theorem restricted_boot :
    ∃ t s, Lts.Run DebuggedStep (mainBoot sieWords 0) t s ∧
      ((s.machine 0).reg Reg.sie = 0x222 ∧ (s.machine 0).reg Reg.scause = 2) ∧
      ∀ i < s.ctx.cores, Supervisor.Legal (s.cthreads i).core ∧
        (∀ code v, ∃ m, Supervisor.env.dispatchTrap (s.machine i) code v = .ok m) ∧
        ∃ m, Supervisor.env.checkInterrupts (s.machine i) = .ok m := by
  obtain ⟨t, s, hrun, hregs⟩ := Lts.exists_run debuggedNext (s := mainBoot sieWords 0) sieRun
    (Q := fun _ s => (s.machine 0).reg Reg.sie = 0x222 ∧ (s.machine 0).reg Reg.scause = 2)
    (by decide +kernel)
  have hrun := hrun.mono fun _ _ _ => DebuggedStep.of_next
  exact ⟨t, s, hrun, hregs, restricted (mainBoot_start sieWords 0) hrun⟩

end Harts

end SwitchV32
