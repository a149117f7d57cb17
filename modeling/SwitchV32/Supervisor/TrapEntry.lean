import SwitchV32.Cpu.Arch
import SwitchV32.Supervisor.Sys

/-!
# What trap entry does

`dispatch_trap` in closed form, and what a trap leaves of SSTATUS: all of it.
The macros that save and clear the interrupt enable are evaluated for nothing.
-/

namespace SwitchV32.Supervisor

section
variable {σ : Type} {m m' : Machine σ} {code : TrapCode} {v : U32}

-- ---------------------------------------------------------------------------
-- Closed form
-- ---------------------------------------------------------------------------

theorem savePrivilege_eq (m : Machine σ) :
    savePrivilege m = { m with core := { m.core with mode := .supervisor } } := by
  obtain ⟨⟨regs, reserved, flag, exit, mode, idx, brk⟩, vmem, host⟩ := m
  cases mode <;> rfl

def enter (m : Machine σ) (code : TrapCode) : Machine σ :=
  (savePrivilege (m.setReg Reg.scause code.val)).setReg Reg.sepc (m.reg Reg.pc)

/-- Where an interrupt goes, if the mode field of STVEC is not reserved. -/
def interruptTarget (stvec : U32) (code : TrapCode) : Except Stop U32 :=
  if stvecMode stvec = stvecModeDirect then .ok (stvecBase stvec)
  else if stvecMode stvec = stvecModeVectored then
    .ok (stvecBase stvec + getInterruptCode code * 4)
  else .error .abort

@[simp] theorem reg_savePrivilege (m : Machine σ) (r : Reg) :
    (savePrivilege m).reg r = m.reg r := by
  rw [savePrivilege_eq]
  rfl

theorem reg_enter (m : Machine σ) (code) (h1 : r ≠ Reg.scause) (h2 : r ≠ Reg.sepc) :
    (enter m code).reg r = m.reg r := by
  rw [enter, Machine.reg_setReg_ne _ h2, reg_savePrivilege, Machine.reg_setReg_ne _ h1]

theorem dispatchTrap_eq (m : Machine σ) (code : TrapCode) (v : U32) :
    dispatchTrap m code v =
      if 0 ≤ code.val.toInt then
        .ok (((enter m code).setReg Reg.stval v).setReg Reg.pc (stvecBase (m.reg Reg.stvec)))
      else (interruptTarget (m.reg Reg.stvec) code).map ((enter m code).setReg Reg.pc) := by
  have hpc : (savePrivilege (m.setReg Reg.scause code.val)).reg Reg.pc = m.reg Reg.pc := by
    rw [reg_savePrivilege, Machine.reg_setReg_ne _ (by decide)]
  have hstvec : (enter m code).reg Reg.stvec = m.reg Reg.stvec := reg_enter m code (by decide)
    (by decide)
  have hstvec' : ((enter m code).setReg Reg.stval v).reg Reg.stvec = m.reg Reg.stvec := by
    rw [Machine.reg_setReg_ne _ (by decide), hstvec]
  have henter : (savePrivilege (m.setReg Reg.scause code.val)).setReg Reg.sepc (m.reg Reg.pc) =
      enter m code := rfl
  unfold dispatchTrap
  simp only [discard, ite_self, hpc, henter, hstvec, hstvec', interruptTarget]
  split
  · rfl
  · split
    · rfl
    · split <;> rfl

structure InterruptDue (m : Machine σ) : Prop where
  llScFlag : m.core.llScFlag = false
  sie : m.core.mode = .supervisor → sstatusSie (m.reg Reg.sstatus) = true
  enabled : (sieSeie (m.reg Reg.sie) && sipSeip (m.reg Reg.sip) ||
    sieSsie (m.reg Reg.sie) && sipSsip (m.reg Reg.sip) ||
    sieStie (m.reg Reg.sie) && sipStip (m.reg Reg.sip)) = true

theorem checkInterrupts_of_not_due {trap : Machine σ → TrapCode → U32 → Except Stop (Machine σ)}
    (h : ¬ InterruptDue m) : checkInterrupts trap m = .ok m := by
  unfold checkInterrupts
  split
  · rfl
  · rename_i hflag
    split
    · rfl
    · rename_i hsie
      have hsie' (hm : m.core.mode = .supervisor) : sstatusSie (m.reg Reg.sstatus) = true := by
        by_contra hs
        exact hsie ⟨hm, Bool.eq_false_iff.mpr hs⟩
      have hen := Bool.eq_false_iff.mpr fun hen => h ⟨Bool.eq_false_iff.mpr hflag, hsie', hen⟩
      simp only [Bool.or_eq_false_iff] at hen
      obtain ⟨⟨hseip, hssip⟩, hstip⟩ := hen
      simp only [hseip, hssip, hstip, Bool.false_eq_true, ite_false, pure_bind]
      rfl

structure Entered (m : Machine σ) (code : TrapCode) (m' : Machine σ) : Prop where
  core : m'.core = { m.core with regs := m'.core.regs, mode := .supervisor }
  scause : m'.reg Reg.scause = code.val
  sepc : m'.reg Reg.sepc = m.reg Reg.pc
  kept : ∀ r, r ∉ [Reg.pc, Reg.scause, Reg.sepc, Reg.stval] → m'.reg r = m.reg r
  vmem : m'.vmem = m.vmem
  host : m'.host = m.host

theorem enter_entered (m : Machine σ) (code : TrapCode) : Entered m code (enter m code) where
  core := by rw [enter, savePrivilege_eq]; rfl
  scause := by
    rw [enter, Machine.reg_setReg_ne _ (by decide), reg_savePrivilege, Machine.reg_setReg_self]
  sepc := Machine.reg_setReg_self _ _ _
  kept r hr := by
    simp only [List.mem_cons, List.not_mem_nil, or_false, not_or] at hr
    exact reg_enter m code hr.2.1 hr.2.2.1
  vmem := by rw [enter, savePrivilege_eq]; rfl
  host := by rw [enter, savePrivilege_eq]; rfl

theorem Entered.setReg (h : Entered m code m') (hr : r = Reg.pc ∨ r = Reg.stval) (x : U32) :
    Entered m code (m'.setReg r x) where
  core := by
    rw [Machine.setReg, VCore.setReg, h.core]
  scause := by rw [Machine.reg_setReg_ne _ (by rcases hr with rfl | rfl <;> decide), h.scause]
  sepc := by rw [Machine.reg_setReg_ne _ (by rcases hr with rfl | rfl <;> decide), h.sepc]
  kept r' hr' := by
    rw [Machine.reg_setReg_ne _ (by rintro rfl; rcases hr with rfl | rfl <;> simp at hr'),
      h.kept r' hr']
  vmem := h.vmem
  host := h.host

theorem dispatchTrap_entered (h : dispatchTrap m code v = .ok m') : Entered m code m' := by
  rw [dispatchTrap_eq] at h
  split at h
  · cases h
    exact ((enter_entered m code).setReg (.inr rfl) v).setReg (.inl rfl) _
  · cases ht : interruptTarget (m.reg Reg.stvec) code with
    | error e =>
      rw [ht] at h
      cases h
    | ok target =>
      rw [ht] at h
      cases h
      exact (enter_entered m code).setReg (.inl rfl) target

theorem dispatchTrap_exception (m : Machine σ) (v : U32) (hcode : 0 ≤ code.val.toInt) :
    ∃ m', dispatchTrap m code v = .ok m' ∧ Entered m code m' ∧
      m'.reg Reg.pc = stvecBase (m.reg Reg.stvec) ∧ m'.reg Reg.stval = v := by
  have h : dispatchTrap m code v = _ := (dispatchTrap_eq m code v).trans (if_pos hcode)
  refine ⟨_, h, dispatchTrap_entered h, Machine.reg_setReg_self _ _ _, ?_⟩
  rw [Machine.reg_setReg_ne _ (by decide), Machine.reg_setReg_self]

theorem Entered.arch_x (h : Entered m code m') : m'.arch.x = m.arch.x := by
  funext r
  have hr : m'.reg (Reg.gpr r) = m.reg (Reg.gpr r) := by
    apply h.kept
    simp only [List.mem_cons, List.not_mem_nil, or_false, not_or]
    exact ⟨Reg.gpr_ne (by decide), Reg.gpr_ne (by decide), Reg.gpr_ne (by decide),
      Reg.gpr_ne (by decide)⟩
  simp only [Machine.arch, hr]

/-- An exception always completes, an interrupt unless the mode of STVEC is reserved. -/
def CanEnter (m : Machine σ) (code : TrapCode) : Prop :=
  0 ≤ code.val.toInt ∨ stvecMode (m.reg Reg.stvec) = stvecModeDirect ∨
    stvecMode (m.reg Reg.stvec) = stvecModeVectored

theorem dispatchTrap_completes (m : Machine σ) (code : TrapCode) (v : U32) :
    (∃ m', dispatchTrap m code v = .ok m') ↔ CanEnter m code := by
  simp only [dispatchTrap_eq, CanEnter, interruptTarget]
  split
  · rename_i hcode
    exact ⟨fun _ => .inl hcode, fun _ => ⟨_, rfl⟩⟩
  · rename_i hcode
    split
    · rename_i hmode
      exact ⟨fun _ => .inr (.inl hmode), fun _ => ⟨_, rfl⟩⟩
    · rename_i hdirect
      split
      · rename_i hmode
        exact ⟨fun _ => .inr (.inr hmode), fun _ => ⟨_, rfl⟩⟩
      · rename_i hvectored
        constructor
        · rintro ⟨m', h⟩
          cases h
        · rintro (h | h | h)
          · exact absurd h hcode
          · exact absurd h hdirect
          · exact absurd h hvectored

-- ---------------------------------------------------------------------------
-- SSTATUS
-- ---------------------------------------------------------------------------

/-- The update of SSTATUS that the privileged manual asks of a trap: SPIE (bit 5) takes
over SIE (bit 1), SIE is cleared and SPP (bit 8) says whether the hart was in S-mode. -/
structure SstatusEntry (old : U32) (mode : ExecutionMode) (new : U32) : Prop where
  spie : new.getLsbD 5 = old.getLsbD 1
  sie : new.getLsbD 1 = false
  spp : new.getLsbD 8 = (mode == .supervisor)
  other : ∀ k, k ≠ 1 → k ≠ 5 → k ≠ 8 → new.getLsbD k = old.getLsbD k

/-- The old values for which not writing SSTATUS is the right update. -/
structure AlreadyEntered (sstatus : U32) (mode : ExecutionMode) : Prop where
  sie : sstatus.getLsbD 1 = false
  spie : sstatus.getLsbD 5 = false
  spp : sstatus.getLsbD 8 = (mode == .supervisor)

theorem sstatusEntry_self {sstatus : U32} {mode : ExecutionMode} :
    SstatusEntry sstatus mode sstatus ↔ AlreadyEntered sstatus mode :=
  ⟨fun h => ⟨h.sie, h.spie.trans h.sie, h.spp⟩,
    fun h => ⟨h.spie.trans h.sie.symm, h.sie, h.spp, fun _ _ _ _ => rfl⟩⟩

theorem Entered.sstatus (h : Entered m code m') : m'.reg Reg.sstatus = m.reg Reg.sstatus :=
  h.kept _ (by decide)

inductive TrapStep : Machine σ → Machine σ → Prop
  | trap {m m' : Machine σ} {code v} (h : dispatchTrap m code v = .ok m') : TrapStep m m'
  | other {m m' : Machine σ} (h : m'.reg Reg.sstatus = m.reg Reg.sstatus) : TrapStep m m'

theorem TrapStep.sstatus (h : TrapStep m m') : m'.reg Reg.sstatus = m.reg Reg.sstatus := by
  cases h with
  | trap h => exact (dispatchTrap_entered h).sstatus
  | other h => exact h

theorem TrapStep.run_sstatus (h : Relation.ReflTransGen TrapStep m m') :
    m'.reg Reg.sstatus = m.reg Reg.sstatus := by
  induction h with
  | refl => rfl
  | tail _ hstep ih => exact hstep.sstatus.trans ih

/-- The entry is right exactly where there is nothing to write; in a run of traps the interrupt
enable is off at the end exactly if it was off before the first. -/
theorem dispatchTrap_sstatus (m : Machine σ) (code : TrapCode) (v : U32) :
    ((∃ m', dispatchTrap m code v = .ok m' ∧
        SstatusEntry (m.reg Reg.sstatus) m.core.mode (m'.reg Reg.sstatus) ∧
        m'.core.mode = .supervisor) ↔
      CanEnter m code ∧ AlreadyEntered (m.reg Reg.sstatus) m.core.mode) ∧
    ∀ m₁ m', dispatchTrap m code v = .ok m₁ → Relation.ReflTransGen TrapStep m₁ m' →
      (sstatusSie (m'.reg Reg.sstatus) = false ↔ sstatusSie (m.reg Reg.sstatus) = false) := by
  refine ⟨⟨?_, ?_⟩, ?_⟩
  · rintro ⟨m', h, hs, -⟩
    rw [(dispatchTrap_entered h).sstatus] at hs
    exact ⟨(dispatchTrap_completes m code v).mp ⟨m', h⟩, sstatusEntry_self.mp hs⟩
  · rintro ⟨hcan, hold⟩
    obtain ⟨m', h⟩ := (dispatchTrap_completes m code v).mpr hcan
    have he := dispatchTrap_entered h
    refine ⟨m', h, ?_, by rw [he.core]⟩
    rw [he.sstatus]
    exact sstatusEntry_self.mpr hold
  · intro m₁ m' h hrun
    rw [TrapStep.run_sstatus hrun, (dispatchTrap_entered h).sstatus]

end

def interruptibleMachine : Sv32 := .boot [0] [(Reg.sstatus, 0x2)]

theorem dispatchTrap_interruptible :
    ∃ m', dispatchTrap interruptibleMachine .illIns 0 = .ok m' ∧
      sstatusSie (m'.reg Reg.sstatus) = true ∧
      ¬ SstatusEntry (interruptibleMachine.reg Reg.sstatus) interruptibleMachine.core.mode
        (m'.reg Reg.sstatus) := by
  obtain ⟨m', h⟩ := (dispatchTrap_completes interruptibleMachine .illIns 0).mpr
    (.inl (by decide))
  have hs := (dispatchTrap_entered h).sstatus
  refine ⟨m', h, ?_, fun hentry => ?_⟩
  · rw [hs]
    decide
  · have hsie := hentry.sie
    rw [hs] at hsie
    exact absurd hsie (by decide)

end SwitchV32.Supervisor
