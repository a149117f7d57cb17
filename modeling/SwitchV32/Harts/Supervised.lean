import SwitchV32.Harts.Cores
import SwitchV32.Supervisor.Interrupts
import SwitchV32.Supervisor.Legal

/-!
# Harts never leave supervisor mode

Nothing enters user mode: there is no return from a trap, and a start of a hart
begins in supervisor mode. Of the three interrupts only the software interrupt
is ever pending, since CSR instructions write no other bit of SIP and nothing
else sets one.
-/

namespace SwitchV32

open Supervisor

structure Supervised (core : VCore) : Prop where
  mode : core.mode = .supervisor
  sip : ∀ k, (core.regs Reg.sip).getLsbD k = true → k = 1

theorem supervised_frame (k : Nat) :
    CoreFrame (· ≠ Reg.sip) (· = .supervisor) k fun _ => Supervised where
  setReg v hr h := ⟨h.mode, by simpa only [VCore.regs_setReg_ne _ v (Ne.symm hr)] using h.sip⟩
  setMode hmode h := ⟨hmode, h.sip⟩
  setLr _ _ h := ⟨h.mode, h.sip⟩
  setExit _ h := ⟨h.mode, h.sip⟩
  init _ init := by
    have hsip : (vcoreInit (some init)).regs Reg.sip = 0 := rfl
    exact ⟨rfl, fun k h => by simp [hsip] at h⟩

theorem bit_eq_false {x : U32} {k : Nat} (h : x.getLsbD k = false) : bit x k = false := by
  have hzero : x &&& 1#32 <<< k = 0#32 := by
    ext i hi
    rw [BitVec.getElem_and, BitVec.getElem_zero, ← BitVec.getLsbD_eq_getElem,
      ← BitVec.getLsbD_eq_getElem, BitVec.getLsbD_shiftLeft]
    by_cases hik : i = k
    · rw [hik, h, Bool.false_and]
    · have hone : (1#32).getLsbD (i - k) = true → i - k = 0 := by simp
      grind
  simp [bit, hzero]

theorem eq_of_all_eq {α : Type} {a : α} {l : List α} (hl : l.Nodup) (h : ∀ b ∈ l, b = a) :
    l = [] ∨ l = [a] := by
  match l, hl, h with
  | [], _, _ => exact .inl rfl
  | [b], _, h => exact .inr (by rw [h b (by simp)])
  | b :: c :: l, hl, h =>
    have hne : b ≠ c := by
      simp only [List.nodup_cons, List.mem_cons, not_or] at hl
      exact hl.1.1
    exact absurd ((h b (by simp)).trans (h c (by simp)).symm) hne

variable {cores k : Nat} {m : Sv32} {ins : U32} {r : Reg}

theorem csrMask_sip (x : U32) (k : Nat) (h : (csrMask CsrAddr.sip x).getLsbD k = true) :
    k = 1 := by
  have hmask : csrMask CsrAddr.sip x = x &&& 1#32 <<< 1 := rfl
  rw [hmask, BitVec.getLsbD_and, Bool.and_eq_true, BitVec.getLsbD_shiftLeft] at h
  have hk := h.2
  simp at hk
  omega

theorem csrAccess_supervised (hm : AllCores (fun _ => Supervised) cores k m)
    (hr : findCsr (Ins.iImm ins) = some r) :
    Ensures (csrAccess dispatchTrap m ins (some r)) (AllCores (fun _ => Supervised) cores k) := by
  have hframe := AllCores.frame (supervised_frame k) cores
  have hrd {v} : AllCores (fun _ => Supervised) cores k (m.setReg (Ins.rdReg ins) v) := by
    refine hframe.setReg v ?_ hm
    intro h
    exact absurd (h ▸ Ins.general_rdReg ins) (by decide)
  intro m' h
  obtain ⟨m₁, hwritten, hmended⟩ := csrAccess_did h
  have h₁ : AllCores (fun _ => Supervised) cores k m₁ := by
    rcases hwritten with rfl | ⟨-, rfl⟩
    · exact hm
    · rcases findCsr_warl hr with ⟨rfl, -⟩ | (⟨rfl, -⟩ | ⟨rfl, himm⟩) | ⟨hwarl, -⟩
      · exact hframe.setReg _ (by decide) hrd
      · exact hframe.setReg _ (by decide) hrd
      · have hold := hrd (v := m.reg Reg.sip)
        refine hold.setReg ⟨hold.core.mode, ?_⟩
        rw [himm, VCore.regs_setReg_self]
        exact csrMask_sip _
      · refine hframe.setReg _ ?_ hrd
        rintro rfl
        exact hwarl (.inr (.inr rfl))
  rcases hmended with rfl | ⟨himm, v, rfl⟩
  · exact h₁
  · refine hframe.setReg v ?_ h₁
    rintro rfl
    rw [himm] at hr
    cases hr

namespace Harts

variable {s₀ s s' : Harts} {core0Init : VCoreInit}

theorem DebuggedStep.supervised {l : DebuggedLabel} (h : s.All fun _ => Supervised)
    (hs : DebuggedStep s l s') : s'.All fun _ => Supervised := by
  cases hs with
  | hart hs =>
    have hwarl (r : Reg) (h : ¬ Warl r) : r ≠ Reg.sip := by
      rintro rfl
      exact h (.inr (.inr rfl))
    refine h.step supervised_frame hwarl rfl hs fun i ins hl _ _ _ _ _ r hr => ?_
    subst hl
    have hi := step_hart_lt hs rfl
    have hzero := (AllCores.frame (supervised_frame i) _).setReg 0 (r := Reg.zero) (by decide)
      (h.machine hi)
    exact csrAccess_supervised hzero hr
  | writeReg input coreId regId hreg =>
    intro j hj
    by_cases hji : j = coreId
    · subst hji
      simp only [Harts.writeReg, Function.update_self]
      refine (supervised_frame j).setReg (P := fun _ => Supervised) _ ?_ (h j hj)
      rintro rfl
      exact absurd hreg (by decide)
    · simp only [Harts.writeReg, Function.update_of_ne hji]
      exact h j hj
  | writeMem => exact h

structure SoftwareOnly (m : Sv32) : Prop where
  mode : m.core.mode = .supervisor
  sources : ∀ code ∈ sources m, code = .supervisorSoftwareInterrupt
  taken : ∀ m', Supervisor.env.checkInterrupts m = .ok m' →
    m' = m ∨ dispatchTrap m .supervisorSoftwareInterrupt resetFaultVal = .ok m'

/-- In every reachable state no hart has left supervisor mode, and none can take an external or a
timer interrupt. -/
theorem always_supervised {t : List (Harts × DebuggedLabel)} (h0 : MainStart core0Init s₀)
    (hrun : Lts.Run DebuggedStep s₀ t s) :
    ∀ i < s.ctx.cores, SoftwareOnly (s.machine i) := by
  have hall : s.All fun _ => Supervised :=
    hrun.inv_all (All fun _ => Supervised) (fun _ _ _ h hs => hs.supervised h)
      (All.start (fun j init => (supervised_frame j).init j init) h0)
  intro i hi
  have hcore := hall i hi
  have hsources : ∀ code ∈ sources (s.machine i),
      code = .supervisorSoftwareInterrupt := by
    intro code hcode
    obtain ⟨hmem, hpending⟩ := List.mem_filter.mp hcode
    have hbit (k : Nat) (hk : k ≠ 1) : bit ((s.machine i).reg Reg.sip) k = false := by
      refine bit_eq_false (Bool.eq_false_iff.mpr fun h => hk (hcore.sip k h))
    simp only [interrupts, List.mem_cons, List.not_mem_nil, or_false] at hmem
    rcases hmem with rfl | rfl | rfl
    · simp [pending, sipSeip, hbit 9] at hpending
    · rfl
    · simp [pending, sipStip, hbit 5] at hpending
  refine ⟨hcore.mode, hsources, fun m hm => ?_⟩
  by_cases hi : Interruptible (s.machine i)
  · have hone := eq_of_all_eq (sources_nodup (s.machine i)) hsources
    rw [show env.checkInterrupts (s.machine i) = _ from checkInterrupts_eq hi] at hm
    rcases hone with h | h <;> rw [h] at hm
    · cases hm
      exact .inl rfl
    · obtain ⟨m₁, h₁, h₂⟩ := bind_eq_ok.mp hm
      cases h₂
      exact .inr h₁
  · rw [show env.checkInterrupts (s.machine i) = _ from
      checkInterrupts_passes fun h => absurd h hi] at hm
    cases hm
    exact .inl rfl

theorem always_supervised_boot :
    ∃ t s, Lts.Run DebuggedStep (mainBoot sieWords 0) t s ∧
      ((s.machine 0).reg Reg.sie = 0x222 ∧ (s.machine 0).reg Reg.scause = 2) ∧
      ∀ i < s.ctx.cores, SoftwareOnly (s.machine i) := by
  obtain ⟨t, s, hrun, hregs⟩ := Lts.exists_run debuggedNext (s := mainBoot sieWords 0) sieRun
    (Q := fun _ s => (s.machine 0).reg Reg.sie = 0x222 ∧ (s.machine 0).reg Reg.scause = 2)
    (by decide +kernel)
  have hrun := hrun.mono fun _ _ _ => DebuggedStep.of_next
  exact ⟨t, s, hrun, hregs, always_supervised (mainBoot_start sieWords 0) hrun⟩

end Harts

end SwitchV32
