import SwitchV32.Cpu.Value

/-!
# The architectural state of a machine

What the manual speaks of, read off a machine: `x0` is 0 whatever its slot
holds, since the loop clears the slot before every fetch. `SameContext` is the
rest of the machine, which an ordinary instruction leaves alone.
-/

namespace SwitchV32

open Rv32 (writeLE)

section
variable {σ : Type}

def Machine.arch (m : Machine σ) : Rv32.State where
  x r := if r = 0 then 0 else m.reg (Reg.gpr r)
  pc := m.reg Reg.pc
  mem := m.vmem.space

/-- All that `arch` does not show: the CSRs, the other fields of the core and the host. -/
structure SameContext (m m' : Machine σ) : Prop where
  csr : ∀ r : Reg, 32 < r.val → m'.reg r = m.reg r
  reserved : m'.core.reserved = m.core.reserved
  llScFlag : m'.core.llScFlag = m.core.llScFlag
  atomicExitLoop : m'.core.atomicExitLoop = m.core.atomicExitLoop
  mode : m'.core.mode = m.core.mode
  coreIdx : m'.core.coreIdx = m.core.coreIdx
  elfBrk : m'.core.elfBrk = m.core.elfBrk
  size : m'.vmem.size = m.vmem.size
  host : m'.host = m.host

theorem SameContext.refl (m : Machine σ) : SameContext m m :=
  ⟨fun _ _ => rfl, rfl, rfl, rfl, rfl, rfl, rfl, rfl, rfl⟩

theorem SameContext.trans {m m' m'' : Machine σ} (h : SameContext m m') (h' : SameContext m' m'') :
    SameContext m m'' where
  csr r hr := (h'.csr r hr).trans (h.csr r hr)
  reserved := h'.reserved.trans h.reserved
  llScFlag := h'.llScFlag.trans h.llScFlag
  atomicExitLoop := h'.atomicExitLoop.trans h.atomicExitLoop
  mode := h'.mode.trans h.mode
  coreIdx := h'.coreIdx.trans h.coreIdx
  elfBrk := h'.elfBrk.trans h.elfBrk
  size := h'.size.trans h.size
  host := h'.host.trans h.host

theorem SameContext.setReg {m m' : Machine σ} (h : SameContext m m') (hr : r.val ≤ 32) (v : U32) :
    SameContext m (m'.setReg r v) where
  csr r' hr' := by
    rw [Machine.reg_setReg_ne _ (by rintro rfl; omega)]
    exact h.csr r' hr'
  reserved := h.reserved
  llScFlag := h.llScFlag
  atomicExitLoop := h.atomicExitLoop
  mode := h.mode
  coreIdx := h.coreIdx
  elfBrk := h.elfBrk
  size := h.size
  host := h.host

theorem SameContext.setGpr {m m' : Machine σ} (h : SameContext m m') (r : Rv32.Reg) (v : U32) :
    SameContext m (m'.setReg (Reg.gpr r) v) :=
  h.setReg (by simp only [Reg.gpr]; omega) v

theorem SameContext.addPc {m m' : Machine σ} (h : SameContext m m') (inc : U32) :
    SameContext m (m'.addPc inc) :=
  h.setReg (by decide) _

theorem SameContext.setVmem {m m' : Machine σ} (h : SameContext m m') {vmem : Mem}
    (hsize : vmem.size = m'.vmem.size) : SameContext m { m' with vmem } where
  csr := h.csr
  reserved := h.reserved
  llScFlag := h.llScFlag
  atomicExitLoop := h.atomicExitLoop
  mode := h.mode
  coreIdx := h.coreIdx
  elfBrk := h.elfBrk
  size := hsize.trans h.size
  host := h.host

-- ---------------------------------------------------------------------------
-- Register writes
-- ---------------------------------------------------------------------------

@[simp] theorem arch_pc (m : Machine σ) : m.arch.pc = m.reg Reg.pc := rfl

@[simp] theorem arch_mem (m : Machine σ) : m.arch.mem = m.vmem.space := rfl

theorem arch_get (m : Machine σ) (h0 : m.reg Reg.zero = 0) (r : Rv32.Reg) :
    m.arch.get r = m.reg (Reg.gpr r) := by
  by_cases hr : r = 0
  · rw [hr, Reg.gpr_zero, h0]
    rfl
  · simp only [Rv32.State.get, Machine.arch, hr, ite_false]

@[simp] theorem arch_setZero (m : Machine σ) (v : U32) : (m.setReg Reg.zero v).arch = m.arch := by
  have hpc : Reg.pc ≠ Reg.zero := by decide
  refine Rv32.State.ext (funext fun r => ?_) (Machine.reg_setReg_ne (v := v) m hpc) rfl
  by_cases hr : r = 0
  · simp only [Machine.arch, hr, ite_true]
  · have hne : Reg.gpr r ≠ Reg.zero := by rwa [← Reg.gpr_zero, Ne, Reg.gpr_inj]
    simp only [Machine.arch, hr, ite_false, Machine.reg_setReg_ne m hne]

@[simp] theorem arch_setGpr (m : Machine σ) (r : Rv32.Reg) (v : U32) :
    (m.setReg (Reg.gpr r) v).arch = m.arch.set r v := by
  by_cases h0 : r = 0
  · rw [h0, Reg.gpr_zero, arch_setZero]
    rfl
  · have hset : m.arch.set r v = { m.arch with x := Function.update m.arch.x r v } := if_neg h0
    rw [hset]
    refine Rv32.State.ext (funext fun r' => ?_)
      (Machine.reg_setReg_ne (v := v) m Reg.gpr_ne_pc.symm) rfl
    by_cases hr : r' = r
    · simp only [Machine.arch, hr, h0, ite_false, Machine.reg_setReg_self, Function.update_self]
    · have hne : Reg.gpr r' ≠ Reg.gpr r := by rwa [Ne, Reg.gpr_inj]
      simp only [Machine.arch, Function.update_of_ne hr, Machine.reg_setReg_ne m hne]

@[simp] theorem arch_setPc (m : Machine σ) (v : U32) :
    (m.setReg Reg.pc v).arch = { m.arch with pc := v } := by
  refine Rv32.State.ext (funext fun r => ?_) (Machine.reg_setReg_self m Reg.pc v) rfl
  simp only [Machine.arch, Machine.reg_setReg_ne m Reg.gpr_ne_pc]

theorem arch_addPc (m : Machine σ) (inc : U32) :
    (m.addPc inc).arch = { m.arch with pc := m.arch.pc + inc } := arch_setPc _ _

@[simp] theorem arch_addPc_4 (m : Machine σ) : (m.addPc 4).arch = m.arch.next := arch_addPc _ _

theorem arch_setVmem (m : Machine σ) (vmem : Mem) :
    ({ m with vmem } : Machine σ).arch = { m.arch with mem := vmem.space } := rfl

end

end SwitchV32
