import SwitchV32.Cpu.Frame
import SwitchV32.Supervisor.CsrSelect

/-!
# What a CSR instruction does

The codes that `cpu_supervisor.c` compares `funct3` with leave `CSRRW` alone
reachable, the read-only checks aside. The instruction then writes its
destination and its CSR, or nothing, and it stays where it is.
-/

namespace SwitchV32.Supervisor

variable {m m₁ m' : Sv32} {ins : U32} {r : Reg} {trap : TrapHandler}

theorem func_ne (ins : U32) {c : U32} (h : 8 ≤ c.toNat) : Ins.func ins ≠ c := by
  rintro rfl
  exact absurd (func_lt ins) (Nat.not_lt.mpr h)

theorem csrWrite_func (ins x y : U32) :
    csrWrite (Ins.func ins) x y = if Ins.func ins = 1 then some fun _ => x else none := by
  split
  · rename_i h
    rw [h]
    rfl
  · rename_i h
    unfold csrWrite
    split
    · exact absurd ‹_› h
    · exact absurd ‹_› (func_ne ins (by decide))
    · exact absurd ‹_› (func_ne ins (by decide))
    · exact absurd ‹_› (func_ne ins (by decide))
    · exact absurd ‹_› (func_ne ins (by decide))
    · exact absurd ‹_› (func_ne ins (by decide))
    · rfl

/-- `CSRRW` on the CSR at `r`, before the mode of STVEC is mended. -/
def csrrw (m : Sv32) (ins : U32) (r : Reg) : Sv32 :=
  (m.setReg (Ins.rdReg ins) (m.reg r)).setReg r
    (csrMask (Ins.iImm ins) (m.reg (Ins.rs1Reg ins)))

structure CsrDid (m : Sv32) (ins : U32) (r : Reg) (m₁ m' : Sv32) : Prop where
  written : m₁ = m ∨ (Ins.func ins = 1 ∧ m₁ = csrrw m ins r)
  mended : m' = m₁ ∨ (Ins.iImm ins = CsrAddr.stvec ∧ ∃ v, m' = m₁.setReg r v)

structure CsrKept (m : Sv32) (r : Reg) (m' : Sv32) : Prop where
  vmem : m'.vmem = m.vmem
  host : m'.host = m.host
  reg : ∀ x, x = Reg.pc ∨ ¬ x.General → x ≠ r → m'.reg x = m.reg x

theorem CsrDid.kept (h : CsrDid m ins r m₁ m') : CsrKept m r m' := by
  have hrd (x) (hx : x = Reg.pc ∨ ¬ x.General) : x ≠ Ins.rdReg ins := by
    rintro rfl
    rcases hx with hpc | hgen
    · exact Ins.rdReg_ne_pc ins hpc
    · exact hgen (Ins.general_rdReg ins)
  have h₁ : CsrKept m r m₁ := by
    rcases h.written with rfl | ⟨-, rfl⟩
    · exact ⟨rfl, rfl, fun _ _ _ => rfl⟩
    · refine ⟨rfl, rfl, fun x hx hr => ?_⟩
      rw [csrrw, Machine.reg_setReg_ne _ hr, Machine.reg_setReg_ne _ (hrd x hx)]
  rcases h.mended with rfl | ⟨-, v, rfl⟩
  · exact h₁
  · refine ⟨h₁.vmem, h₁.host, fun x hx hr => ?_⟩
    rw [Machine.reg_setReg_ne _ hr, h₁.reg x hx hr]

def csrStore (m : Sv32) (ins : U32) (csr : Option Reg) : Except Stop Sv32 :=
  if Ins.func ins = 1 then (derefCsr csr).map (csrrw m ins) else .ok m

/-- `fix WARL` -/
def csrMend (m : Sv32) (ins : U32) (csr : Option Reg) : Except Stop Sv32 :=
  if Ins.iImm ins = CsrAddr.stvec then
    (derefCsr csr).map fun r =>
      if stvecMode (m.reg r) ≥ 2#32 then m.setReg r (m.reg r &&& ~~~0x3#32) else m
  else .ok m

theorem csrAccess_eq (m : Sv32) (ins : U32) (csr : Option Reg) (trap : TrapHandler) :
    csrAccess trap m ins csr = csrStore m ins csr >>= fun m => csrMend m ins csr := by
  simp only [csrAccess, func_ne ins (c := CsrFunc.csrrs) (by decide),
    func_ne ins (c := CsrFunc.csrrc) (by decide),
    func_ne ins (c := CsrFunc.csrrsi) (by decide),
    func_ne ins (c := CsrFunc.csrrci) (by decide), or_self, false_and, ite_false, ite_self,
    csrWrite_func, csrStore]
  have hmend (m : Sv32) : (do
      if Ins.iImm ins = CsrAddr.stvec then
        let r ← derefCsr csr
        if stvecMode (m.reg r) ≥ 2#32 then return m.setReg r (m.reg r &&& ~~~0x3#32)
        else return m
      else return m) = csrMend m ins csr := by
    rw [csrMend]
    split
    · cases csr with
      | none => rfl
      | some r =>
        simp only [derefCsr, ok_bind, Except.map]
        split <;> rfl
    · rfl
  by_cases hfunc : Ins.func ins = 1
  · simp only [hfunc, if_true]
    cases csr with
    | none => rfl
    | some r => exact hmend _
  · simp only [hfunc, if_false]
    exact hmend m

theorem csrAccess_did (h : csrAccess trap m ins (some r) = .ok m') :
    ∃ m₁, CsrDid m ins r m₁ m' := by
  rw [csrAccess_eq] at h
  obtain ⟨m₁, h₁, h⟩ := bind_eq_ok.mp h
  refine ⟨m₁, ?_, ?_⟩
  · unfold csrStore at h₁
    split at h₁ <;> cases h₁
    · exact .inr ⟨‹_›, rfl⟩
    · exact .inl rfl
  · unfold csrMend at h
    split at h <;> cases h
    · dsimp only
      split
      · exact .inr ⟨‹_›, _, rfl⟩
      · exact .inl rfl
    · exact .inl rfl

theorem csrAccess_none (h : csrAccess trap m ins none = .ok m') : m' = m := by
  rw [csrAccess_eq] at h
  obtain ⟨m₁, h₁, h⟩ := bind_eq_ok.mp h
  unfold csrStore at h₁
  unfold csrMend at h
  split at h₁ <;> cases h₁
  split at h <;> cases h
  rfl

end SwitchV32.Supervisor
