import SwitchV32.Supervisor.Csr
import SwitchV32.Supervisor.Exceptions

/-!
# Which CSR an instruction gets

The supervisor level selects a register or traps, and so does every level that
does not exist. The user level is not implemented: its branch is empty, and what
follows works on a pointer that nothing has assigned.
-/

namespace SwitchV32.Supervisor

variable {m : Sv32} {ins csrAddr : U32} {r : Reg}

/-- The instruction writes its CSR whatever the old value is. -/
def WriteForm (ins : U32) : Prop :=
  Ins.func ins = 1 ∨ Ins.func ins = 5 ∨ Ins.rs1Reg ins ≠ Reg.zero

/-- What a CSR instruction may do. The handler of `readOnly` does nothing, which leaves what the
instruction itself does. -/
structure CsrSafe (m : Sv32) (ins : U32) : Prop where
  selects : (∃ r, findCsr (Ins.iImm ins) = some r ∧
      ∀ trap, vcoreSysType trap m ins = csrAccess trap m ins (some r)) ∨
    ∀ trap : TrapHandler, vcoreSysType trap m ins = trap m .illIns ins
  assigned : vcoreSysType dispatchTrap m ins ≠ .error .unassigned
  readOnly : getCsrAccess (Ins.iImm ins) = csrReadAccess → WriteForm ins →
    vcoreSysType (fun m _ _ => .ok m) m ins = .ok m

theorem findCsr_some (h : findCsr csrAddr = some r) :
    r ≠ Reg.pc ∧ getCsrPrivilege csrAddr = csrSupervisorLevel ∧
      getCsrAccess csrAddr ≠ csrReadAccess := by
  unfold findCsr at h
  split at h <;> cases h <;> decide

theorem vcoreSysType_selects (hfunc : Ins.func ins ≠ 0)
    (hlevel : getCsrPrivilege (Ins.iImm ins) ≠ csrUserLevel) :
    (∃ r, findCsr (Ins.iImm ins) = some r ∧
      ∀ trap, vcoreSysType trap m ins = csrAccess trap m ins (some r)) ∨
    ∀ trap : TrapHandler, vcoreSysType trap m ins = trap m .illIns ins := by
  by_cases hsuper : getCsrPrivilege (Ins.iImm ins) = csrSupervisorLevel
  · by_cases hmode : m.core.mode = .supervisor
    · cases hfind : findCsr (Ins.iImm ins) with
      | some r =>
        refine .inl ⟨r, rfl, fun trap => ?_⟩
        simp only [vcoreSysType, if_neg hfunc, if_pos hsuper, hmode, ne_eq, not_true_eq_false,
          if_false, hfind]
      | none =>
        refine .inr fun trap => ?_
        simp only [vcoreSysType, if_neg hfunc, if_pos hsuper, hmode, ne_eq, not_true_eq_false,
          if_false, hfind]
    · refine .inr fun trap => ?_
      simp only [vcoreSysType, if_neg hfunc, if_pos hsuper, ne_eq, hmode, not_false_eq_true,
        if_true]
  · refine .inr fun trap => ?_
    simp only [vcoreSysType, if_neg hfunc, if_neg hsuper, if_neg hlevel]

theorem vcoreSysType_user (hfunc : Ins.func ins ≠ 0)
    (hlevel : getCsrPrivilege (Ins.iImm ins) = csrUserLevel) (trap : TrapHandler) :
    vcoreSysType trap m ins = csrAccess trap m ins none := by
  have hsuper : getCsrPrivilege (Ins.iImm ins) ≠ csrSupervisorLevel := by
    rw [hlevel]
    decide
  simp only [vcoreSysType, if_neg hfunc, if_neg hsuper, if_pos hlevel]

/-- A CSR instruction is safe exactly if its CSR number is not of the user level. -/
theorem csrSafe_iff (m : Sv32) (ins : U32) (hfunc : Ins.func ins ≠ 0) :
    CsrSafe m ins ↔ getCsrPrivilege (Ins.iImm ins) ≠ csrUserLevel := by
  constructor
  · intro h hlevel
    rcases h.selects with ⟨r, hfind, -⟩ | htrap
    · rw [(findCsr_some hfind).2.1] at hlevel
      exact absurd hlevel (by decide)
    · have habort := htrap fun _ _ _ => .error .abort
      have hfault := htrap fun _ _ _ => .error .fault
      rw [vcoreSysType_user hfunc hlevel] at habort hfault
      rw [csrAccess_trap none _ fun _ _ _ => .error .fault, hfault] at habort
      cases habort
  · intro hlevel
    have hselects : _ ∨ _ := vcoreSysType_selects (m := m) hfunc hlevel
    refine ⟨hselects, ?_, fun hread _ => ?_⟩
    · rcases hselects with ⟨r, hfind, haccess⟩ | htrap
      · obtain ⟨hr, -, hread⟩ := findCsr_some hfind
        obtain ⟨m', hm', -⟩ := csrAccess_pc (m := m) hr hread
        rw [haccess, hm']
        simp
      · obtain ⟨m', hm', -⟩ : ∃ m', dispatchTrap m .illIns ins = .ok m' ∧ _ :=
          dispatchTrap_exception m ins (by decide)
        rw [htrap, hm']
        simp
    · rcases hselects with ⟨r, hfind, -⟩ | htrap
      · exact absurd hread (findCsr_some hfind).2.2
      · rw [htrap]

theorem csrSafe_iff_sscratch : CsrSafe (.boot [] []) (Rv32.encodeCsr .rw .sscratch 5 6) :=
  (csrSafe_iff _ _ (by decide)).mpr (by decide)

/-- `csrrw x0, fflags, x6` uses the pointer as it is. -/
theorem csrSafe_fails : ¬ CsrSafe (.boot [] []) 0x00131073 := by
  intro h
  refine h.assigned ?_
  rw [vcoreSysType_user (by decide) (by decide)]
  rfl

end SwitchV32.Supervisor
