import SwitchV32.Cpu.Rv32im
import SwitchV32.Supervisor.Exceptions
import SwitchV32.User

/-!
# The interpreter and RV32A

One iteration on an encoded AMO, for a hart that runs alone. All but `AMOOR` do
what the manual says; the code of `AMOOR` in `cpu.c` is not the one that the
manual assigns, so its encoding ends in the `default` of the switch.
-/

namespace SwitchV32

open Rv32 (AmoOp encodeAmo execAmo readLE writeLE)

-- ---------------------------------------------------------------------------
-- Words in guest memory
-- ---------------------------------------------------------------------------

section
variable {vmem : Mem} {a : U32} (hin : vmem.Inside a 4)

def Mem.word (vmem : Mem) (a : U32) : U32 := BitVec.ofNat 32 (readLE vmem.space a 4)

include hin

theorem load_word : vmem.load 32 a = .ok (vmem.word a) := by
  rw [Mem.word, readLE_space vmem a 4 (Nat.le_trans hin vmem.size_le)]
  exact if_pos hin

theorem store_word (v : U32) : vmem.store a v = .ok (vmem.put a.toNat v) := if_pos hin

theorem space_put_word (v : U32) :
    (vmem.put a.toNat v).space = writeLE vmem.space a 4 v := by
  have h := space_put vmem a v (w := 32) (by decide) (by decide) (Nat.le_trans hin vmem.size_le)
  rwa [BitVec.setWidth_eq] at h

theorem compareExchange_word (expected v : U32) :
    vmem.compareExchange a expected v =
      if vmem.word a = expected then .ok (true, expected, vmem.put a.toNat v)
      else .ok (false, vmem.word a, vmem) := by
  simp only [Mem.compareExchange, load_word hin, ok_bind, store_word hin]
  rfl

theorem memCas_word (v : U32) : memCas vmem a v (vmem.word a) = .ok (vmem.put a.toNat v) := by
  have h := compareExchange_word hin (vmem.word a) v
  rw [if_pos rfl] at h
  rw [memCas]
  split
  · rename_i heq
    rw [h] at heq
    cases heq
  · rename_i heq
    rw [h] at heq
    cases heq
    rfl
  · rename_i heq
    rw [h] at heq
    cases heq

end

-- ---------------------------------------------------------------------------
-- The helpers of memory.h
-- ---------------------------------------------------------------------------

def amoHelper : AmoOp → Mem → U32 → U32 → Except Stop (U32 × Mem)
  | .swap => memAswp
  | .add => memAadd
  | .xor => memAxor
  | .and => memAand
  | .or => memAor
  | .min => memAmin
  | .max => memAmax
  | .minu => memAminu
  | .maxu => memAmaxu

section
variable {vmem : Mem} {a : U32} (hin : vmem.Inside a 4)
include hin

def DoesOp (vmem : Mem) (a v : U32) (r : Except Stop (U32 × Mem)) : Prop :=
  ∃ vmem', r = .ok (vmem.word a, vmem') ∧ vmem'.size = vmem.size ∧
    vmem'.space = writeLE vmem.space a 4 v

theorem fetchOp_word (op : U32 → U32 → U32) (val : U32) :
    DoesOp vmem a (op (vmem.word a) val) (vmem.fetchOp op a val) := by
  refine ⟨vmem.put a.toNat (op (vmem.word a) val), ?_, rfl, space_put_word hin _⟩
  simp only [Mem.fetchOp, load_word hin, ok_bind, store_word hin]
  rfl

/-- An early return is right when it keeps what the operation would store, and the exchange when
it stores the operand. -/
theorem minMax_word (keep : U32 → U32 → Bool) (val v : U32)
    (hkeep : v = if keep (vmem.word a) val then vmem.word a else val) :
    DoesOp vmem a v (vmem.minMax keep a val) := by
  simp only [Mem.minMax, memAread, load_word hin, ok_bind, memCas_word hin]
  split at hkeep
  · rename_i hk
    rw [if_pos hk, hkeep]
    exact ⟨vmem, rfl, rfl, (Rv32.writeLE_word _ _).symm⟩
  · rename_i hk
    rw [if_neg hk, hkeep]
    exact ⟨vmem.put a.toNat val, rfl, rfl, space_put_word hin val⟩

omit hin in
theorem eval_min (a b : U32) : AmoOp.min.eval a b = if keepMin a b then a else b := by
  simp only [AmoOp.eval, keepMin, BitVec.slt, decide_eq_true_eq]
  split <;> split
  any_goals rfl
  all_goals exact BitVec.eq_of_toInt_eq (by omega)

omit hin in
theorem eval_max (a b : U32) : AmoOp.max.eval a b = if keepMax a b then a else b := by
  simp only [AmoOp.eval, keepMax, BitVec.slt, decide_eq_true_eq]
  split <;> split
  any_goals rfl
  all_goals exact BitVec.eq_of_toInt_eq (by omega)

omit hin in
theorem eval_minu (a b : U32) : AmoOp.minu.eval a b = if keepMinu a b then a else b := by
  simp only [AmoOp.eval, keepMinu, BitVec.ult, decide_eq_true_eq]
  split <;> split
  any_goals rfl
  all_goals exact BitVec.eq_of_toNat_eq (by omega)

omit hin in
theorem eval_maxu (a b : U32) : AmoOp.maxu.eval a b = if keepMaxu a b then a else b := by
  simp only [AmoOp.eval, keepMaxu, BitVec.ult, decide_eq_true_eq]
  split <;> split
  any_goals rfl
  all_goals exact BitVec.eq_of_toNat_eq (by omega)

theorem amoHelper_word (o : AmoOp) (val : U32) :
    DoesOp vmem a (o.eval (vmem.word a) val) (amoHelper o vmem a val) := by
  cases o with
  | swap => exact fetchOp_word hin (fun _ val => val) val
  | add => exact fetchOp_word hin (· + ·) val
  | xor => exact fetchOp_word hin (· ^^^ ·) val
  | and => exact fetchOp_word hin (· &&& ·) val
  | or => exact fetchOp_word hin (· ||| ·) val
  | min => exact minMax_word hin keepMin val _ (eval_min _ _)
  | max => exact minMax_word hin keepMax val _ (eval_max _ _)
  | minu => exact minMax_word hin keepMinu val _ (eval_minu _ _)
  | maxu => exact minMax_word hin keepMaxu val _ (eval_maxu _ _)

end

-- ---------------------------------------------------------------------------
-- Decoding
-- ---------------------------------------------------------------------------

section
variable (o : AmoOp) (aq rl : BitVec 1) (rd rs1 rs2 : Rv32.Reg)

theorem opcodeType_encodeAmo :
    Ins.opcodeType (encodeAmo o aq rl rd rs1 rs2) = OpcodeType.aType := by
  rw [encodeAmo, Rv32.amoFormat_eq, Ins.opcodeType_rFormat]
  rfl

theorem isCompressed_encodeAmo : Ins.isCompressed (encodeAmo o aq rl rd rs1 rs2) = false := by
  rw [Ins.isCompressed_eq, opcodeType_encodeAmo]
  rfl

theorem rdReg_encodeAmo : Ins.rdReg (encodeAmo o aq rl rd rs1 rs2) = Reg.gpr rd := by
  rw [encodeAmo, Rv32.amoFormat_eq, Ins.rdReg_rFormat]

theorem rs1Reg_encodeAmo : Ins.rs1Reg (encodeAmo o aq rl rd rs1 rs2) = Reg.gpr rs1 := by
  rw [encodeAmo, Rv32.amoFormat_eq, Ins.rs1Reg_rFormat]

theorem rs2Reg_encodeAmo : Ins.rs2Reg (encodeAmo o aq rl rd rs1 rs2) = Reg.gpr rs2 := by
  rw [encodeAmo, Rv32.amoFormat_eq, Ins.rs2Reg_rFormat]

end

section
variable {σ : Type} {env : Env σ} {m : Machine σ} {o : AmoOp} {aq rl : BitVec 1}
variable {rd rs1 rs2 : Rv32.Reg}

theorem vcoreAType_amo (ho : o ≠ .or) :
    vcoreAType env m (encodeAmo o aq rl rd rs1 rs2) =
      m.amo (encodeAmo o aq rl rd rs1 rs2) (amoHelper o) := by
  rw [vcoreAType, show Ins.aFunc (encodeAmo o aq rl rd rs1 rs2) = _ from
    Ins.aFunc_amoFormat o.funct5 aq rl rs2 rs1 rd]
  cases o with
  | or => exact absurd rfl ho
  | _ => rfl

/-- `0x082` is the code of no case. -/
theorem vcoreAType_or :
    vcoreAType env m (encodeAmo .or aq rl rd rs1 rs2) =
      env.dispatchTrap m .illIns (encodeAmo .or aq rl rd rs1 rs2) >>=
        fun m => .ok (m.addPc 4) := by
  rw [vcoreAType, show Ins.aFunc (encodeAmo .or aq rl rd rs1 rs2) = _ from
    Ins.aFunc_amoFormat AmoOp.or.funct5 aq rl rs2 rs1 rd]
  rfl

theorem vcoreExecute_encodeAmo
    (hfetch : memRw m.vmem (m.reg Reg.pc) = .ok (encodeAmo o aq rl rd rs1 rs2)) :
    vcoreExecute env m =
      vcoreAType env (m.setReg Reg.zero 0) (encodeAmo o aq rl rd rs1 rs2) := by
  rw [vcoreExecute_fetch hfetch (isCompressed_encodeAmo o aq rl rd rs1 rs2), vcoreDispatch,
    opcodeType_encodeAmo]
  rfl

theorem amo_yields (hz : m.reg Reg.zero = 0) (hin : m.vmem.Inside (m.arch.get rs1) 4) :
    Yields m (m.amo (encodeAmo o aq rl rd rs1 rs2) (amoHelper o))
      (execAmo o rd rs1 rs2 m.arch) := by
  obtain ⟨vmem, hop, hsize, hspace⟩ := amoHelper_word hin o (m.arch.get rs2)
  rw [arch_get m hz, arch_get m hz] at hop
  rw [arch_get m hz, arch_get m hz] at hspace
  simp only [Machine.amo, rs1Reg_encodeAmo, rs2Reg_encodeAmo, rdReg_encodeAmo, hop, ok_bind]
  refine ⟨_, rfl, ?_, (((SameContext.refl m).setVmem hsize).setGpr rd _).addPc 4⟩
  rw [arch_addPc_4, arch_setGpr, arch_setVmem, hspace, execAmo, arch_get m hz, arch_get m hz]
  simp only [Rv32.State.next, Rv32.State.set, Mem.word, Rv32.State.word, arch_mem]
  split <;> rfl

theorem vcoreExecute_amo
    (hfetch : memRw m.vmem (m.reg Reg.pc) = .ok (encodeAmo o aq rl rd rs1 rs2))
    (hin : m.vmem.Inside (m.arch.get rs1) 4) (ho : o ≠ .or) :
    Yields m (vcoreExecute env m) (execAmo o rd rs1 rs2 m.arch) := by
  have hz : (m.setReg Reg.zero 0).reg Reg.zero = 0 := Machine.reg_setReg_self m _ _
  obtain ⟨m', hm', harch, hctx⟩ :
      Yields _ (Machine.amo _ (encodeAmo o aq rl rd rs1 rs2) (amoHelper o)) _ :=
    amo_yields hz (by rwa [arch_setZero])
  have hsame := ((SameContext.refl m).setReg (r := Reg.zero) (by decide) 0).trans hctx
  refine ⟨m', ?_, by rw [harch, arch_setZero], hsame⟩
  rw [vcoreExecute_encodeAmo hfetch, vcoreAType_amo ho, hm']

end

-- ---------------------------------------------------------------------------
-- AMOOR
-- ---------------------------------------------------------------------------

section
variable {m : Sv32} {aq rl : BitVec 1} {rd rs1 rs2 : Rv32.Reg}

/-- The trap that `AMOOR` takes and the operation it stands for both find every value that they
write already there; the handler's address plus 4 is then the next instruction. -/
structure OrIsDone (m : Sv32) (ins : U32) (rd rs1 rs2 : Rv32.Reg) : Prop where
  mode : m.core.mode = .supervisor
  scause : m.reg Reg.scause = TrapCode.illIns.val
  sepc : m.reg Reg.sepc = m.reg Reg.pc
  stval : m.reg Reg.stval = ins
  stvec : Supervisor.stvecBase (m.reg Reg.stvec) = m.reg Reg.pc
  rd : rd = 0 ∨ m.arch.get rd = m.vmem.word (m.arch.get rs1)
  word : m.vmem.word (m.arch.get rs1) ||| m.arch.get rs2 = m.vmem.word (m.arch.get rs1)

theorem execAmo_eq_next (s : Rv32.State) (hrd : rd = 0 ∨ s.get rd = s.word (s.get rs1))
    (hword : s.word (s.get rs1) ||| s.get rs2 = s.word (s.get rs1)) :
    execAmo .or rd rs1 rs2 s = s.next := by
  have hmem : writeLE s.mem (s.get rs1) 4 (s.word (s.get rs1)) = s.mem := Rv32.writeLE_word _ _
  have hset : s.set rd (s.word (s.get rs1)) = s := by
    by_cases h0 : rd = 0
    · simp only [Rv32.State.set, h0, ite_true]
    · have hx : s.x rd = s.word (s.get rs1) := by
        have h := hrd.resolve_left h0
        rwa [Rv32.State.get, if_neg h0] at h
      rw [Rv32.State.set, if_neg h0, ← hx, Function.update_eq_self]
  simp only [execAmo, AmoOp.eval, hword, hmem, hset]
  rfl

theorem vcoreExecute_or
    (hfetch : memRw m.vmem (m.reg Reg.pc) = .ok (encodeAmo .or aq rl rd rs1 rs2)) :
    ∃ m₁, vcoreExecute Supervisor.env m = .ok (m₁.addPc 4) ∧
      Supervisor.Entered (m.setReg Reg.zero 0) .illIns m₁ ∧
      m₁.reg Reg.pc = Supervisor.stvecBase (m.reg Reg.stvec) ∧
      m₁.reg Reg.stval = encodeAmo .or aq rl rd rs1 rs2 := by
  obtain ⟨m₁, hm₁, hent, hpc, hstval⟩ :=
    Supervisor.dispatchTrap_exception (m.setReg Reg.zero 0) (encodeAmo .or aq rl rd rs1 rs2)
      (show 0 ≤ TrapCode.illIns.val.toInt by decide)
  rw [Machine.reg_setReg_ne _ (by decide)] at hpc
  refine ⟨m₁, ?_, hent, hpc, hstval⟩
  rw [vcoreExecute_encodeAmo hfetch, vcoreAType_or]
  exact congrArg (· >>= _) hm₁

theorem vcoreExecute_or_iff
    (hfetch : memRw m.vmem (m.reg Reg.pc) = .ok (encodeAmo .or aq rl rd rs1 rs2)) :
    Yields m (vcoreExecute Supervisor.env m) (execAmo .or rd rs1 rs2 m.arch) ↔
      OrIsDone m (encodeAmo .or aq rl rd rs1 rs2) rd rs1 rs2 := by
  obtain ⟨m₁, hrun, hent, hpc, hstval⟩ := vcoreExecute_or hfetch
  rw [hrun]
  constructor
  · rintro ⟨m', hm', harch, hctx⟩
    cases hm'
    have hcsr (r : Reg) (hr : 32 < r.val) : m₁.reg r = m.reg r := by
      rw [← hctx.csr r hr, Machine.reg_addPc_ne _ _ (by rintro rfl; exact absurd hr (by decide))]
    have hx := congrArg Rv32.State.x harch
    have hmem := congrArg Rv32.State.mem harch
    have hadd := congrArg Rv32.State.pc harch
    rw [arch_addPc_4] at hx hmem hadd
    rw [Rv32.State.next_x, hent.arch_x, arch_setZero] at hx
    rw [Rv32.State.next_mem, arch_mem, hent.vmem] at hmem
    rw [Rv32.State.next_pc, arch_pc, hpc] at hadd
    exact {
      mode := by rw [← hctx.mode]; exact congrArg VCore.mode hent.core
      scause := by rw [← hcsr _ (by decide), hent.scause]
      sepc := by rw [← hcsr _ (by decide), hent.sepc, Machine.reg_setReg_ne _ (by decide)]
      stval := by rw [← hcsr _ (by decide), hstval]
      stvec := by
        simpa [execAmo] using hadd
      rd := by
        by_cases h0 : rd = 0
        · exact .inl h0
        · have hrd := congrFun hx rd
          rw [execAmo, Rv32.State.next_x, Rv32.State.set, if_neg h0] at hrd
          rw [Rv32.State.get, if_neg h0, hrd]
          exact .inr (Function.update_self ..)
      word := Rv32.writeLE_eq_self.mp hmem.symm }
  · intro h
    have hx : m₁.arch = m.arch := by
      refine Rv32.State.ext ?_ ?_ ?_
      · rw [hent.arch_x, arch_setZero]
      · rw [arch_pc, hpc, h.stvec, arch_pc]
      · rw [arch_mem, hent.vmem]
        rfl
    refine ⟨_, rfl, ?_, SameContext.addPc ?_ 4⟩
    · rw [arch_addPc_4, hx]
      exact (execAmo_eq_next m.arch h.rd h.word).symm
    · exact {
        csr := fun r hr => by
          by_cases hr' : r ∈ [Reg.pc, Reg.scause, Reg.sepc, Reg.stval]
          · simp only [List.mem_cons, List.not_mem_nil, or_false] at hr'
            rcases hr' with rfl | rfl | rfl | rfl
            · exact absurd hr (by decide)
            · rw [hent.scause, h.scause]
            · rw [hent.sepc, h.sepc, Machine.reg_setReg_ne _ (by decide)]
            · rw [hstval, h.stval]
          · rw [hent.kept r hr', Machine.reg_setReg_ne _ (by rintro rfl; simp [Reg.zero] at hr)]
        reserved := by rw [hent.core]; rfl
        llScFlag := by rw [hent.core]; rfl
        atomicExitLoop := by rw [hent.core]; rfl
        mode := by rw [h.mode, hent.core]
        coreIdx := by rw [hent.core]; rfl
        elfBrk := by rw [hent.core]; rfl
        size := congrArg Mem.size hent.vmem
        host := hent.host }

end

/-- The AMOs are right in both builds but for `AMOOR`: the user build exits on it, and the
supervisor build is right only where its trap cannot be told from the operation. -/
theorem vcoreExecute_amo_iff (build : Build) (emuSystemCall : Sv32 → Except Stop Sv32) (m : Sv32)
    (o : AmoOp) (aq rl : BitVec 1) (rd rs1 rs2 : Rv32.Reg)
    (hfetch : memRw m.vmem (m.reg Reg.pc) = .ok (encodeAmo o aq rl rd rs1 rs2))
    (hin : m.vmem.Inside (m.arch.get rs1) 4) :
    Yields m (vcoreExecute (build.env emuSystemCall) m) (execAmo o rd rs1 rs2 m.arch) ↔
      o ≠ .or ∨ build = .supervisor ∧ OrIsDone m (encodeAmo o aq rl rd rs1 rs2) rd rs1 rs2 := by
  by_cases ho : o = .or
  · subst ho
    simp only [ne_eq, not_true_eq_false, false_or]
    cases build with
    | user =>
      refine iff_of_false ?_ (fun h => nomatch h.1)
      rintro ⟨m', hm', -, -⟩
      rw [vcoreExecute_encodeAmo hfetch, vcoreAType_or] at hm'
      cases hm'
    | supervisor =>
      simp only [true_and]
      exact vcoreExecute_or_iff hfetch
  · exact iff_of_true (vcoreExecute_amo hfetch hin ho) (.inl ho)

/-- `amomaxu.w.aq x7, x6, (x5)` -/
def amomaxuMachine : Sv32 :=
  .boot [encodeAmo .maxu 1 0 7 5 6, 3] [(5, 4), (6, 9)]

theorem vcoreExecute_amo_iff_amomaxu :
    Yields amomaxuMachine (vcoreExecute (Build.user.env .ok) amomaxuMachine)
        (execAmo .maxu 7 5 6 amomaxuMachine.arch) ↔
      AmoOp.maxu ≠ .or ∨ Build.user = .supervisor ∧
        OrIsDone amomaxuMachine (encodeAmo .maxu 1 0 7 5 6) 7 5 6 :=
  vcoreExecute_amo_iff .user .ok amomaxuMachine .maxu 1 0 7 5 6 (by decide) (by decide)

/-- `amoor.w x7, x6, (x5)` -/
def amoorMachine : Sv32 := .boot [encodeAmo .or 0 0 7 5 6, 3] [(5, 4), (6, 9), (Reg.stvec, 0x100)]

theorem vcoreExecute_amoor :
    vcoreExecute (Build.user.env .ok) amoorMachine = .error (.exit 1) ∧
      ∃ m', vcoreExecute (Build.supervisor.env .ok) amoorMachine = .ok m' ∧
        m'.reg Reg.pc = 0x104 ∧ m'.reg 7 = 0 ∧ m'.vmem.word 4 = 3 ∧
        (execAmo .or 7 5 6 amoorMachine.arch).pc = 4 ∧
        m'.arch ≠ execAmo .or 7 5 6 amoorMachine.arch := by
  refine ⟨rfl, _, rfl, by decide, by decide, by decide, by decide, fun h => ?_⟩
  exact absurd (congrArg Rv32.State.pc h) (by decide)

end SwitchV32
