import SwitchV32.Supervisor.TrapEntry

/-!
# Exceptions of the supervisor build

Which iterations dispatch an exception, and what is left at their end. The
iteration is read as a function of the trap handler it calls: it dispatches a
trap when its result, for every handler, is what that handler makes of it.
-/

namespace SwitchV32.Supervisor

abbrev TrapHandler := Sv32 → TrapCode → U32 → Except Stop Sv32

/-- The iteration from `m` calls its trap handler with `code` and `v`; `k` is what it does after. -/
def Dispatches (m : Sv32) (code : TrapCode) (v : U32) : Prop :=
  ∃ m₀ k, ∀ trap, vcoreExecute (envWith trap) m = trap m₀ code v >>= k

/-- The instructions that add 4 to the program counter whether they trapped or not: the classes
with function codes, and `ECALL`. -/
def AddsPcAfterTrap (ins : U32) : Prop :=
  Ins.opcodeType ins ∈ [OpcodeType.rType, OpcodeType.irType, OpcodeType.ilType, OpcodeType.sType,
    OpcodeType.bType, OpcodeType.aType] ∨
  (Ins.opcodeType ins = OpcodeType.sysType ∧ Ins.func ins = 0 ∧ Ins.iImm ins = 0)

instance : Decidable (AddsPcAfterTrap ins) := inferInstanceAs (Decidable (_ ∨ _))

/-- A handler that stops, in a way that tells one call from all others. -/
def probe (code : TrapCode) (v : U32) : TrapHandler :=
  fun _ code' v' => .error (if code' = code ∧ v' = v then .fault else .abort)

-- ---------------------------------------------------------------------------
-- The paths of an iteration
-- ---------------------------------------------------------------------------

/-- What becomes of a trap handler passed to `run`, on the way of the instruction `ins`. -/
inductive Path (m : Sv32) (ins : U32) (run : TrapHandler → Except Stop Sv32) : Prop
  /-- It is not called. -/
  | quiet (r : Except Stop Sv32) (h : ∀ trap, run trap = r)
  /-- It is called, then the program counter moves. -/
  | adds (code : TrapCode) (v : U32) (hins : AddsPcAfterTrap ins) (hcode : 0 ≤ code.val.toInt)
      (h : ∀ trap, run trap = trap m code v >>= fun m => .ok (m.addPc 4))
  /-- It is called last. -/
  | enters (code : TrapCode) (v : U32) (hins : ¬ AddsPcAfterTrap ins) (hcode : 0 ≤ code.val.toInt)
      (hv : code = .illIns → v = ins) (h : ∀ trap, run trap = trap m code v)

section
variable {m : Sv32} {ins : U32}

theorem vcoreRType_path (hins : AddsPcAfterTrap ins) :
    Path m ins fun trap => vcoreRType (envWith trap) m ins := by
  simp only [vcoreRType]
  cases rValue (Ins.rFunc ins) (m.reg (Ins.rs1Reg ins)) (m.reg (Ins.rs2Reg ins)) with
  | some v => exact .quiet _ fun _ => rfl
  | none => exact .adds .illIns ins hins (by decide) fun _ => rfl

theorem vcoreIrType_path (hins : AddsPcAfterTrap ins) :
    Path m ins fun trap => vcoreIrType (envWith trap) m ins := by
  simp only [vcoreIrType]
  cases irValue ins (m.reg (Ins.rs1Reg ins)) with
  | some v => exact .quiet _ fun _ => rfl
  | none => exact .adds .illIns 0 hins (by decide) fun _ => rfl

theorem vcoreIlType_path (hins : AddsPcAfterTrap ins) :
    Path m ins fun trap => vcoreIlType (envWith trap) m ins := by
  simp only [vcoreIlType]
  cases ilValue m.vmem (Ins.func ins) (m.reg (Ins.rs1Reg ins) + Ins.iImm ins) with
  | some access => exact .quiet _ fun _ => rfl
  | none => exact .adds .illIns ins hins (by decide) fun _ => rfl

theorem vcoreSType_path (hins : AddsPcAfterTrap ins) :
    Path m ins fun trap => vcoreSType (envWith trap) m ins := by
  simp only [vcoreSType]
  cases sValue m.vmem (Ins.func ins) (m.reg (Ins.rs1Reg ins) + Ins.sImm ins)
      (m.reg (Ins.rs2Reg ins)) with
  | some access => exact .quiet _ fun _ => rfl
  | none => exact .adds .illIns ins hins (by decide) fun _ => rfl

theorem vcoreBType_path (hins : AddsPcAfterTrap ins) :
    Path m ins fun trap => vcoreBType (envWith trap) m ins := by
  simp only [vcoreBType]
  cases bTaken (Ins.func ins) (m.reg (Ins.rs1Reg ins)) (m.reg (Ins.rs2Reg ins)) with
  | some taken => exact .quiet _ fun _ => rfl
  | none => exact .adds .illIns ins hins (by decide) fun _ => rfl

theorem vcoreAType_path (hins : AddsPcAfterTrap ins) :
    Path m ins fun trap => vcoreAType (envWith trap) m ins := by
  simp only [vcoreAType]
  split <;> first
    | exact .quiet _ fun _ => rfl
    | exact .adds .illIns ins hins (by decide) fun _ => rfl

theorem func_lt (ins : U32) : (Ins.func ins).toNat < 8 := by
  have h : Ins.func ins = ins >>> 12 &&& 0x7#32 := BitVec.ushiftRight_and_distrib ins _ 12
  rw [h, BitVec.toNat_and]
  exact Nat.lt_of_le_of_lt Nat.and_le_right (by decide)

/-- The read-only checks compare with codes that no `funct3` has. -/
theorem csrAccess_trap (csr) (trap trap' : TrapHandler) :
    csrAccess trap m ins csr = csrAccess trap' m ins csr := by
  have hne (code : U32) (h : 8 ≤ code.toNat) : Ins.func ins ≠ code := by
    rintro rfl
    exact absurd (func_lt ins) (Nat.not_lt.mpr h)
  simp only [csrAccess, hne CsrFunc.csrrs (by decide), hne CsrFunc.csrrc (by decide),
    hne CsrFunc.csrrsi (by decide), hne CsrFunc.csrrci (by decide), or_self, false_and, ite_false]

theorem csrAccess_path (csr) : Path m ins fun trap => csrAccess trap m ins csr :=
  .quiet _ fun trap => csrAccess_trap csr trap (probe .illIns ins)

theorem vcoreSysType_path (hop : Ins.opcodeType ins = OpcodeType.sysType) :
    Path m ins fun trap => vcoreSysType trap m ins := by
  have hclass : Ins.opcodeType ins ∉ [OpcodeType.rType, OpcodeType.irType, OpcodeType.ilType,
      OpcodeType.sType, OpcodeType.bType, OpcodeType.aType] := by
    rw [hop]
    decide
  have hnot (h : ¬ (Ins.func ins = 0 ∧ Ins.iImm ins = 0)) : ¬ AddsPcAfterTrap ins := by
    rintro (hc | hc)
    · exact hclass hc
    · exact h hc.2
  simp only [vcoreSysType]
  split
  · rename_i hfunc
    split
    · rename_i himm
      split
      · exact .quiet _ fun _ => rfl
      · exact .adds .ecallUMode _ (.inr ⟨hop, hfunc, himm⟩) (by decide) fun _ => rfl
    · rename_i himm
      have hins := hnot fun h => himm h.2
      split
      · split
        · exact .quiet _ fun _ => rfl
        · exact .enters .brkpt _ hins (by decide) (fun h => nomatch h) fun _ => rfl
      · exact .enters .illIns ins hins (by decide) (fun _ => rfl) fun _ => rfl
  · rename_i hfunc
    have hins := hnot fun h => hfunc h.1
    split
    · split
      · exact .enters .illIns ins hins (by decide) (fun _ => rfl) fun _ => rfl
      · split
        · exact csrAccess_path _
        · exact .enters .illIns ins hins (by decide) (fun _ => rfl) fun _ => rfl
    · split
      · exact csrAccess_path none
      · exact .enters .illIns ins hins (by decide) (fun _ => rfl) fun _ => rfl

theorem vcoreDispatch_path (m : Sv32) (ins : U32) :
    Path m ins fun trap => vcoreDispatch (envWith trap) m ins := by
  simp only [vcoreDispatch]
  split
  case h_1 hop => exact vcoreRType_path (.inl (by rw [hop]; decide))
  case h_2 hop => exact vcoreIrType_path (.inl (by rw [hop]; decide))
  case h_3 hop => exact vcoreIlType_path (.inl (by rw [hop]; decide))
  case h_4 hop => exact vcoreSType_path (.inl (by rw [hop]; decide))
  case h_5 hop => exact vcoreBType_path (.inl (by rw [hop]; decide))
  case h_10 hop => exact vcoreAType_path (.inl (by rw [hop]; decide))
  case h_11 hop => exact vcoreSysType_path hop
  case h_12 h1 h2 h3 h4 h5 _ _ _ _ h10 h11 =>
    have hins : ¬ AddsPcAfterTrap ins := by
      rintro (hc | hc)
      · simp only [List.mem_cons, List.not_mem_nil, or_false] at hc
        rcases hc with hc | hc | hc | hc | hc | hc
        · exact h1 hc
        · exact h2 hc
        · exact h3 hc
        · exact h4 hc
        · exact h5 hc
        · exact h10 hc
      · exact h11 hc.1
    exact .enters .illIns ins hins (by decide) (fun _ => rfl) fun _ => rfl
  all_goals exact .quiet _ fun _ => rfl

theorem vcoreExecute_path (hfetch : memRw m.vmem (m.reg Reg.pc) = .ok ins) :
    Path (m.setReg Reg.zero 0) ins fun trap => vcoreExecute (envWith trap) m := by
  have hpc : (m.setReg Reg.zero 0).reg Reg.pc = m.reg Reg.pc :=
    Machine.reg_setReg_ne m (by decide)
  simp only [vcoreExecute, hpc, Machine.setReg_vmem, hfetch, ok_bind]
  split
  · exact .quiet _ fun _ => rfl
  · exact vcoreDispatch_path _ ins

-- ---------------------------------------------------------------------------
-- Dispatched exceptions
-- ---------------------------------------------------------------------------

theorem Dispatches.unique {m₀ : Sv32} {k : Sv32 → Except Stop Sv32} (hd : Dispatches m code v)
    (h : ∀ trap, vcoreExecute (envWith trap) m = trap m₀ code' v' >>= k) :
    code' = code ∧ v' = v := by
  obtain ⟨m₁, k', hd⟩ := hd
  have hrun := (hd (probe code v)).symm.trans (h (probe code v))
  simp only [probe, error_bind, Except.error.injEq, and_self, ite_true] at hrun
  by_contra hne
  rw [if_neg hne] at hrun
  cases hrun

theorem Dispatches.not_quiet (hd : Dispatches m code v) (r : Except Stop Sv32) :
    ¬ ∀ trap, vcoreExecute (envWith trap) m = r := by
  intro h
  obtain ⟨m₀, k, hd⟩ := hd
  have hfault := (hd fun _ _ _ => .error .fault).symm.trans (h _)
  have habort := (hd fun _ _ _ => .error .abort).symm.trans (h _)
  cases hfault.trans habort.symm

/-- The state that the manual asks for at the end of an instruction that raised `code`. -/
structure ExceptionEntry (m : Sv32) (ins : U32) (code : TrapCode) (m' : Sv32) : Prop where
  pc : m'.reg Reg.pc = stvecBase (m.reg Reg.stvec)
  sepc : m'.reg Reg.sepc = m.reg Reg.pc
  scause : m'.reg Reg.scause = code.val
  stval : code = .illIns → m'.reg Reg.stval = ins
  gpr : ∀ r, m'.arch.get r = m.arch.get r
  vmem : m'.vmem = m.vmem

/-- An iteration that dispatches an exception ends in the handler unless its instruction is one
of those that add to the program counter after the trap. -/
theorem vcoreExecute_exception_iff (m : Sv32) (ins : U32) (code : TrapCode) (v : U32)
    (hfetch : memRw m.vmem (m.reg Reg.pc) = .ok ins) (hd : Dispatches m code v) :
    (∃ m', vcoreExecute env m = .ok m' ∧ ExceptionEntry m ins code m') ↔
      ¬ AddsPcAfterTrap ins := by
  have hpc : (m.setReg Reg.zero 0).reg Reg.pc = m.reg Reg.pc :=
    Machine.reg_setReg_ne m (by decide)
  have hstvec : (m.setReg Reg.zero 0).reg Reg.stvec = m.reg Reg.stvec :=
    Machine.reg_setReg_ne m (by decide)
  rcases vcoreExecute_path hfetch with ⟨r, h⟩ | ⟨code', v', hins, hcode, h⟩ |
      ⟨code', v', hins, hcode, hv, h⟩
  · exact absurd h (hd.not_quiet r)
  · -- the handler's address is 4 too high
    obtain ⟨rfl, rfl⟩ := hd.unique h
    obtain ⟨m₁, hm₁, -, hbase, -⟩ := dispatchTrap_exception (m.setReg Reg.zero 0) v' hcode
    have hrun : vcoreExecute env m = .ok (m₁.addPc 4) := by
      rw [env, h, hm₁, ok_bind]
    refine iff_of_false ?_ (not_not_intro hins)
    rintro ⟨m', hm', hentry⟩
    rw [hrun] at hm'
    cases hm'
    have hskip := hentry.pc
    rw [Machine.addPc, Machine.reg_setReg_self, hbase, hstvec] at hskip
    simp at hskip
  · obtain ⟨rfl, rfl⟩ := hd.unique fun trap => (h trap).trans (bind_pure _).symm
    obtain ⟨m', hm', hent, hbase, hstval⟩ :=
      dispatchTrap_exception (m.setReg Reg.zero 0) v' hcode
    refine iff_of_true ⟨m', (h _).trans hm', ?_⟩ hins
    exact {
      pc := by rw [hbase, hstvec]
      sepc := by rw [hent.sepc, hpc]
      scause := hent.scause
      stval := fun hill => by rw [hstval, hv hill]
      gpr := fun r => by rw [Rv32.State.get, hent.arch_x, arch_setZero, Rv32.State.get]
      vmem := hent.vmem }

end

def unknownOpcodeMachine : Sv32 := .boot [0x7F] [(Reg.stvec, 0x100)]

theorem vcoreExecute_exception_iff_unknownOpcode :
    (∃ m', vcoreExecute env unknownOpcodeMachine = .ok m' ∧
        ExceptionEntry unknownOpcodeMachine 0x7F .illIns m') ↔ ¬ AddsPcAfterTrap 0x7F :=
  vcoreExecute_exception_iff unknownOpcodeMachine 0x7F .illIns 0x7F (by decide)
    ⟨_, pure, fun _ => (bind_pure _).symm⟩

/-- `func7` and `func3` of no instruction of the opcode OP. -/
def unknownFuncMachine : Sv32 := .boot [0x40001033] [(Reg.stvec, 0x100)]

theorem vcoreExecute_exception_unknownFunc :
    Dispatches unknownFuncMachine .illIns 0x40001033 ∧
      ∃ m', vcoreExecute env unknownFuncMachine = .ok m' ∧ m'.reg Reg.pc = 0x104 ∧
        ¬ ExceptionEntry unknownFuncMachine 0x40001033 .illIns m' := by
  refine ⟨⟨_, fun m => .ok (m.addPc 4), fun _ => rfl⟩, _, rfl, by decide, fun h => ?_⟩
  exact absurd h.pc (by decide)

end SwitchV32.Supervisor
