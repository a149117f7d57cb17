import SwitchV32.Harts.Reserved

/-!
# LR and SC on one hart

One hart runs alone, in either build: instructions, system calls of any effect,
and interrupts between instructions. `ll_sc_flag` says that an `LR` came after
the last `SC`; at which address it was is not kept. `LR` does not write `rd`, and
a refused `SC` stays where it is.
-/

namespace SwitchV32.Sole

open Rv32 (encodeLr encodeSc execLr execSc ScDoes writeLE)

inductive Label
  /-- an iteration of `vcore_run`; `r` is for the system call, if it makes one -/
  | ins (r : SyscallResult)
  /-- `check_interrupts` -/
  | interrupts

def next (build : Build) (m : Sv32) : Label → Option Sv32
  | .ins r => (vcoreExecute (build.env (User.emuSystemCall r)) m).toOption
  | .interrupts => ((build.env .ok).checkInterrupts m).toOption

def Step (build : Build) (m : Sv32) (l : Label) (m' : Sv32) : Prop := next build m l = some m'

abbrev Run (build : Build) := Lts.Run (Step build)

-- ---------------------------------------------------------------------------
-- What a history says
-- ---------------------------------------------------------------------------

/-- An `LR` reserves its address and an `SC` gives up the reservation. -/
def insReserves (m : Sv32) (ins : U32) (reserved : Option U32) : Option U32 :=
  if Ins.opcodeType ins = OpcodeType.aType then
    match Ins.aFunc ins with
    | AFunc.lr => some ((m.setReg Reg.zero 0).reg (Ins.rs1Reg ins))
    | AFunc.sc => none
    | _ => reserved
  else reserved

def reserves (reserved : Option U32) (e : Sv32 × Label) : Option U32 :=
  match e.2, memRw e.1.vmem (e.1.reg Reg.pc) with
  | .ins _, .ok ins => insReserves e.1 ins reserved
  | _, _ => reserved

def lrAddr (t : List (Sv32 × Label)) : Option U32 := t.foldl reserves none

variable {σ : Type} {env : Env σ} {build : Build} {m₀ m m' : Sv32} {l : Label}
variable {t : List (Sv32 × Label)} {ins : U32}

theorem lrAddr_snoc : lrAddr (t ++ [(m, l)]) = reserves (lrAddr t) (m, l) := List.foldl_append ..

theorem reserves_ins {reserved r} (hfetch : m.Fetches ins) :
    reserves reserved (m, .ins r) = insReserves m ins reserved := by
  have h : memRw m.vmem (m.reg Reg.pc) = .ok ins := hfetch
  simp only [reserves, h]

theorem step_ins {r} : Step build m (.ins r) m' ↔
    vcoreExecute (build.env (User.emuSystemCall r)) m = .ok m' := toOption_eq_some

theorem step_interrupts :
    Step build m .interrupts m' ↔ (build.env .ok).checkInterrupts m = .ok m' := toOption_eq_some

-- ---------------------------------------------------------------------------
-- The two instructions
-- ---------------------------------------------------------------------------

section
variable {m : Machine σ}

theorem vcoreExecute_aType (hfetch : m.Fetches ins) (hop : Ins.opcodeType ins = OpcodeType.aType) :
    vcoreExecute env m = vcoreAType env (m.setReg Reg.zero 0) ins := by
  have hc : Ins.isCompressed ins = false := by
    rw [Ins.isCompressed_eq, hop]
    rfl
  rw [vcoreExecute_fetch hfetch hc, vcoreDispatch, hop]
  rfl

theorem vcoreExecute_lr (env : Env σ) (hfetch : m.Fetches ins)
    (hop : Ins.opcodeType ins = OpcodeType.aType) (haf : Ins.aFunc ins = AFunc.lr) :
    vcoreExecute env m = memAread m.vmem ((m.setReg Reg.zero 0).reg (Ins.rs1Reg ins)) >>=
      fun reserved =>
        let m := m.setReg Reg.zero 0
        .ok (Machine.addPc { m with core := { m.core with llScFlag := true, reserved } } 4) := by
  rw [vcoreExecute_aType hfetch hop, vcoreAType, haf]
  rfl

theorem vcoreExecute_sc (env : Env σ) (hfetch : m.Fetches ins)
    (hop : Ins.opcodeType ins = OpcodeType.aType) (haf : Ins.aFunc ins = AFunc.sc) :
    vcoreExecute env m =
      let m := m.setReg Reg.zero 0
      if m.core.llScFlag then
        memCas m.vmem (m.reg (Ins.rs1Reg ins)) (m.reg (Ins.rs2Reg ins)) m.core.reserved >>=
          fun vmem => .ok (Machine.finish { m with core := { m.core with llScFlag := false } }
            vmem ins 0)
      else .ok (m.setReg (Ins.rdReg ins) 1) := by
  rw [vcoreExecute_aType hfetch hop, vcoreAType, haf]
  rfl

/-- Alone, the loop of `mem_cas` stores whatever it expects. -/
theorem memCas_stores {vmem : Mem} {a : U32} (hin : vmem.Inside a 4) (v expected : U32) :
    memCas vmem a v expected = .ok (vmem.put a.toNat v) := by
  rw [memCas_eq, compareExchange_word hin]
  split
  · rfl
  · exact memCas_word hin v

end

-- ---------------------------------------------------------------------------
-- The flag
-- ---------------------------------------------------------------------------

theorem rest_llScFlag {m m' : Machine σ} {p : Phase} (h : p.rest m = .ok m') :
    m'.core.llScFlag = m.core.llScFlag := by
  cases p with
  | idle =>
    cases h
    rfl
  | lr | sc | amo | cas =>
    obtain ⟨_, -, h⟩ := bind_eq_ok.mp h
    cases h
    rfl

theorem step_keeps {r} (h : Step build m (.ins r) m') (hfetch : m.Fetches ins)
    (hno : Ins.opcodeType ins = OpcodeType.aType → Ins.aFunc ins ≠ AFunc.lr)
    (hflag : m'.core.llScFlag = true) : m.core.llScFlag = true := by
  have henv := build.env_keeps r
  rw [step_ins, vcoreExecute_eq] at h
  obtain ⟨⟨m₁, p⟩, hbegin, hrest⟩ := bind_eq_ok.mp h
  rw [rest_llScFlag hrest] at hflag
  obtain ⟨ins', hfetch', hbegun⟩ := vcoreBegin_cases hbegin
  cases Except.ok.inj (hfetch'.symm.trans hfetch)
  cases hbegun with
  | lr hop haf => exact absurd haf (hno hop)
  | sc => cases hflag
  | scRefused hop haf hoff => exact hflag
  | amo => exact hflag
  | trap hop haf htrap => exact ((henv.dispatchTrap _ _ _ _ htrap).core hflag).1
  | other hop hins => exact ((vcoreDispatch_keeps henv ins hop _ hins).core hflag).1

theorem step_sc_clears {r} (h : Step build m (.ins r) m') (hfetch : m.Fetches ins)
    (hop : Ins.opcodeType ins = OpcodeType.aType) (haf : Ins.aFunc ins = AFunc.sc) :
    m'.core.llScFlag = false := by
  rw [step_ins, vcoreExecute_sc _ hfetch hop haf] at h
  simp only at h
  split at h
  · obtain ⟨vmem, -, h⟩ := bind_eq_ok.mp h
    cases h
    rfl
  · rename_i hflag
    cases h
    exact Bool.eq_false_iff.mpr hflag

/-- While the flag is up, some address is reserved. -/
def FlagInv (t : List (Sv32 × Label)) (m : Sv32) : Prop :=
  m.core.llScFlag = true → ∃ a, lrAddr t = some a

theorem FlagInv.step (hi : FlagInv t m) (h : Step build m l m') : FlagInv (t ++ [(m, l)]) m' := by
  intro hflag
  rw [lrAddr_snoc]
  cases l with
  | interrupts =>
    have hkeeps := (build.env_keeps ⟨0, 0, fun _ => 0⟩).checkInterrupts m
    refine hi ((hkeeps m' ?_).core hflag).1
    cases build <;> exact step_interrupts.mp h
  | ins r =>
    have hex := h
    rw [step_ins, vcoreExecute_eq] at hex
    obtain ⟨_, hbegin, -⟩ := bind_eq_ok.mp hex
    obtain ⟨ins, hfetch, -⟩ := vcoreBegin_cases hbegin
    rw [reserves_ins hfetch]
    by_cases hop : Ins.opcodeType ins = OpcodeType.aType
    · rw [insReserves, if_pos hop]
      split
      · exact ⟨_, rfl⟩
      · exact nomatch (step_sc_clears h hfetch hop ‹_›).symm.trans hflag
      · exact hi (step_keeps h hfetch (fun _ => ‹_›) hflag)
    · rw [insReserves, if_neg hop]
      exact hi (step_keeps h hfetch (fun hop' => absurd hop' hop) hflag)

theorem flagInv (h0 : m₀.core.llScFlag = false) (h : Run build m₀ t m) : FlagInv t m :=
  h.inv_history (P := fun _ _ => True) FlagInv (fun _ _ _ _ hi _ hs => hi.step hs)
    (fun _ _ => trivial) fun hf => nomatch h0.symm.trans hf

-- ---------------------------------------------------------------------------
-- When the two do what the manual says
-- ---------------------------------------------------------------------------

theorem opcodeType_amoFormat (funct5 aq rl) (rs2 rs1 rd : Rv32.Reg) :
    Ins.opcodeType (Rv32.amoFormat funct5 aq rl rs2 rs1 rd) = OpcodeType.aType := by
  rw [Rv32.amoFormat_eq, Ins.opcodeType_rFormat]
  rfl

theorem get_setZero (m : Sv32) (r : Rv32.Reg) :
    (m.setReg Reg.zero 0).reg (Reg.gpr r) = m.arch.get r := by
  rw [← arch_get _ (Machine.reg_setReg_self m _ _), arch_setZero]

theorem step_lr (build : Build) {aq rl rd rs1} (r) (hfetch : m.Fetches (encodeLr aq rl rd rs1))
    (hin : m.vmem.Inside (m.arch.get rs1) 4) :
    ∃ m', Step build m (.ins r) m' ∧ m'.arch = m.arch.next := by
  have hex := vcoreExecute_lr (build.env (User.emuSystemCall r)) hfetch
    (opcodeType_amoFormat ..) (Ins.aFunc_amoFormat 0b00010 aq rl 0 rs1 rd)
  rw [encodeLr, Rv32.amoFormat_eq, Ins.rs1Reg_rFormat, get_setZero, memAread, load_word hin] at hex
  refine ⟨_, step_ins.mpr hex, ?_⟩
  rw [arch_addPc_4]
  exact congrArg Rv32.State.next (arch_setZero m 0)

theorem arch_finish {m : Machine σ} {vmem v} (hrd : Ins.rdReg ins = Reg.gpr rd) :
    (m.finish vmem ins v).arch = { (m.arch.set rd v).next with mem := vmem.space } := by
  rw [Machine.finish, arch_addPc_4, hrd, arch_setGpr, arch_setVmem]
  simp only [Rv32.State.next, Rv32.State.set]
  split <;> rfl

theorem step_sc (build : Build) {aq rl rd rs1 rs2} (r)
    (hfetch : m.Fetches (encodeSc aq rl rd rs1 rs2)) (hin : m.vmem.Inside (m.arch.get rs1) 4) :
    ∃ m', Step build m (.ins r) m' ∧ m'.arch =
      if m.core.llScFlag then execSc rd rs1 rs2 m.arch else m.arch.set rd 1 := by
  have hrs1 : Ins.rs1Reg (encodeSc aq rl rd rs1 rs2) = Reg.gpr rs1 := by
    rw [encodeSc, Rv32.amoFormat_eq, Ins.rs1Reg_rFormat]
  have hrs2 : Ins.rs2Reg (encodeSc aq rl rd rs1 rs2) = Reg.gpr rs2 := by
    rw [encodeSc, Rv32.amoFormat_eq, Ins.rs2Reg_rFormat]
  have hrd : Ins.rdReg (encodeSc aq rl rd rs1 rs2) = Reg.gpr rd := by
    rw [encodeSc, Rv32.amoFormat_eq, Ins.rdReg_rFormat]
  have hex := vcoreExecute_sc (build.env (User.emuSystemCall r)) hfetch
    (opcodeType_amoFormat ..) (Ins.aFunc_amoFormat 0b00011 aq rl rs2 rs1 rd)
  simp only [hrs1, hrs2, get_setZero, Machine.setReg_vmem, memCas_stores hin, ok_bind] at hex
  cases hflag : m.core.llScFlag with
  | true =>
    refine ⟨_, step_ins.mpr (hex.trans (if_pos hflag)), ?_⟩
    rw [arch_finish hrd, space_put_word hin, if_pos rfl, execSc, ← arch_setZero m 0]
    rfl
  | false =>
    refine ⟨_, step_ins.mpr (hex.trans (if_neg (Bool.eq_false_iff.mp hflag))), ?_⟩
    rw [hrd, arch_setGpr, arch_setZero]
    rfl

theorem lr_iff {aq rl rd rs1 r} (hfetch : m.Fetches (encodeLr aq rl rd rs1))
    (hin : m.vmem.Inside (m.arch.get rs1) 4) :
    (∃ m', Step build m (.ins r) m' ∧ m'.arch = execLr rd rs1 m.arch) ↔
      rd = 0 ∨ m.arch.get rd = m.arch.word (m.arch.get rs1) := by
  obtain ⟨m₁, hm₁, harch⟩ := step_lr build r hfetch hin
  rw [← Rv32.State.set_eq_self]
  constructor
  · rintro ⟨m', hm', h⟩
    cases hm₁.symm.trans hm'
    exact (Rv32.State.next_inj.mp (harch.symm.trans h)).symm
  · intro h
    refine ⟨m₁, hm₁, ?_⟩
    rw [harch, execLr, h]

theorem sc_iff {aq rl rd rs1 rs2 r} (reserved : Option U32)
    (hfetch : m.Fetches (encodeSc aq rl rd rs1 rs2)) (hin : m.vmem.Inside (m.arch.get rs1) 4) :
    (∃ m', Step build m (.ins r) m' ∧ ScDoes reserved rd rs1 rs2 m.arch m'.arch) ↔
      m.core.llScFlag = true ∧ (reserved = some (m.arch.get rs1) ∨
        rd = 0 ∧ m.arch.get rs2 = m.arch.word (m.arch.get rs1)) := by
  obtain ⟨m₁, hm₁, harch⟩ := step_sc build r hfetch hin
  have hex : (∃ m', Step build m (.ins r) m' ∧ ScDoes reserved rd rs1 rs2 m.arch m'.arch) ↔
      ScDoes reserved rd rs1 rs2 m.arch m₁.arch := by
    constructor
    · rintro ⟨m', hm', h⟩
      cases hm₁.symm.trans hm'
      exact h
    · exact fun h => ⟨m₁, hm₁, h⟩
  rw [hex, harch]
  cases hflag : m.core.llScFlag with
  | false =>
    simp only [Bool.false_eq_true, ite_false, false_and, iff_false]
    intro h
    have hpc := h.pc
    rw [Rv32.State.set_pc] at hpc
    bv_omega
  | true =>
    simp only [ite_true, true_and]
    unfold ScDoes
    by_cases hres : reserved = some (m.arch.get rs1)
    · simp only [hres, ite_true, true_or]
    · rw [if_neg hres, Rv32.execSc_eq_fail, Rv32.writeLE_eq_self]
      simp only [hres, false_or]
      rfl

/-- On one hart, for every run: `LR` is right where `rd` needs no write, and `SC` where the flag
is up and its address is the one of the last `LR`, or its store cannot be told from a failure.
The flag is up only if an `LR` came after the last `SC`. -/
theorem lrSc_iff (build : Build) {m₀ m : Sv32} {t} (h0 : m₀.core.llScFlag = false)
    (hrun : Run build m₀ t m) (r : SyscallResult) (aq rl : BitVec 1) :
    (m.core.llScFlag = true → ∃ a, lrAddr t = some a) ∧
    (∀ rd rs1, m.Fetches (encodeLr aq rl rd rs1) → m.vmem.Inside (m.arch.get rs1) 4 →
      ((∃ m', Step build m (.ins r) m' ∧ m'.arch = execLr rd rs1 m.arch) ↔
        rd = 0 ∨ m.arch.get rd = m.arch.word (m.arch.get rs1))) ∧
    ∀ rd rs1 rs2, m.Fetches (encodeSc aq rl rd rs1 rs2) → m.vmem.Inside (m.arch.get rs1) 4 →
      ((∃ m', Step build m (.ins r) m' ∧ ScDoes (lrAddr t) rd rs1 rs2 m.arch m'.arch) ↔
        m.core.llScFlag = true ∧ (lrAddr t = some (m.arch.get rs1) ∨
          rd = 0 ∧ m.arch.get rs2 = m.arch.word (m.arch.get rs1))) :=
  ⟨flagInv h0 hrun, fun _ _ => lr_iff, fun _ _ _ => sc_iff (lrAddr t)⟩

/-- `lr.w x7, (x5); sc.w x8, x6, (x5)`, then two `sc.w x8, x6, (x9)`, with 3 at 16 and 4 at 20. -/
def lrScMachine : Sv32 :=
  .boot [encodeLr 0 0 7 5, encodeSc 0 0 8 5 6, encodeSc 0 0 8 9 6, encodeSc 0 0 8 9 6, 3, 4]
    [(5, 16), (6, 1), (9, 20)]

def lrScOther : Sv32 :=
  .boot [encodeLr 0 0 7 5, encodeSc 0 0 8 9 6, encodeSc 0 0 8 9 6, 0, 3, 4]
    [(5, 16), (6, 1), (9, 20)]

def noSyscall : SyscallResult := ⟨0, 0, fun _ => 0⟩

theorem lrSc_iff_boot :
    ∃ t m, Run .supervisor lrScMachine t m ∧ m.Fetches (encodeSc 0 0 8 5 6) ∧
      ∃ m', Step .supervisor m (.ins noSyscall) m' ∧ ScDoes (some 16) 8 5 6 m.arch m'.arch := by
  obtain ⟨t, m, hrun, hfetch, hin, hflag, hlr, ha⟩ := Lts.exists_run (next .supervisor)
    [.ins noSyscall, .interrupts]
    (Q := fun t m => m.Fetches (encodeSc 0 0 8 5 6) ∧ m.vmem.Inside (m.arch.get 5) 4 ∧
      m.core.llScFlag = true ∧ lrAddr t = some 16 ∧ m.arch.get 5 = 16)
    (s := lrScMachine) (by decide +kernel)
  have hsc := (lrSc_iff .supervisor rfl hrun noSyscall 0 0).2.2 8 5 6 hfetch hin
  rw [hlr] at hsc
  exact ⟨t, m, hrun, hfetch, hsc.mpr ⟨hflag, .inl (by rw [ha])⟩⟩

/-- `LR` leaves `x7` at 0, an `SC` at another address stores, and the one after it does not move
on. -/
theorem lrSc_fails :
    (¬ ∃ m', Step .user lrScOther (.ins noSyscall) m' ∧ m'.arch = execLr 7 5 lrScOther.arch) ∧
    (∃ t m, Run .user lrScOther t m ∧ lrAddr t = some 16 ∧ m.Fetches (encodeSc 0 0 8 9 6) ∧
      (∃ m', Step .user m (.ins noSyscall) m' ∧ m'.reg 8 = 0 ∧ m'.vmem.word 20 = 1) ∧
      ¬ ∃ m', Step .user m (.ins noSyscall) m' ∧ ScDoes (lrAddr t) 8 9 6 m.arch m'.arch) ∧
    ∃ t m, Run .user lrScOther t m ∧ lrAddr t = none ∧ m.Fetches (encodeSc 0 0 8 9 6) ∧
      (∃ m', Step .user m (.ins noSyscall) m' ∧ m'.reg Reg.pc = m.reg Reg.pc) ∧
      ¬ ∃ m', Step .user m (.ins noSyscall) m' ∧ ScDoes (lrAddr t) 8 9 6 m.arch m'.arch := by
  refine ⟨?_, ?_, ?_⟩
  · have hfetch : lrScOther.Fetches (encodeLr 0 0 7 5) := by decide +kernel
    rw [lr_iff hfetch (by decide +kernel)]
    decide +kernel
  · obtain ⟨t, m, hrun, hlr, hfetch, hin, hnext, hno⟩ := Lts.exists_run (next .user)
      [.ins noSyscall]
      (Q := fun t m => lrAddr t = some 16 ∧ m.Fetches (encodeSc 0 0 8 9 6) ∧
        m.vmem.Inside (m.arch.get 9) 4 ∧
        (next .user m (.ins noSyscall)).any
          (fun m' => decide (m'.reg 8 = 0 ∧ m'.vmem.word 20 = 1)) = true ∧
        ¬ (m.core.llScFlag = true ∧ (lrAddr t = some (m.arch.get 9) ∨
          (8 : Rv32.Reg) = 0 ∧ m.arch.get 6 = m.arch.word (m.arch.get 9))))
      (s := lrScOther) (by decide +kernel)
    obtain ⟨m', hs, hend⟩ := (Option.any_eq_true ..).mp hnext
    refine ⟨t, m, hrun, hlr, hfetch, ⟨m', hs, of_decide_eq_true hend⟩, ?_⟩
    rwa [sc_iff (lrAddr t) hfetch hin]
  · obtain ⟨t, m, hrun, hlr, hfetch, hin, hnext, hno⟩ := Lts.exists_run (next .user)
      [.ins noSyscall, .ins noSyscall]
      (Q := fun t m => lrAddr t = none ∧ m.Fetches (encodeSc 0 0 8 9 6) ∧
        m.vmem.Inside (m.arch.get 9) 4 ∧
        (next .user m (.ins noSyscall)).any
          (fun m' => decide (m'.reg Reg.pc = m.reg Reg.pc)) = true ∧ m.core.llScFlag = false)
      (s := lrScOther) (by decide +kernel)
    obtain ⟨m', hs, hend⟩ := (Option.any_eq_true ..).mp hnext
    refine ⟨t, m, hrun, hlr, hfetch, ⟨m', hs, of_decide_eq_true hend⟩, ?_⟩
    rw [sc_iff (lrAddr t) hfetch hin, hno]
    rintro ⟨⟨⟩, -⟩

end SwitchV32.Sole
