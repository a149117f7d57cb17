import SwitchV32.User
import SwitchV32.Cpu.Rv32im
import SwitchV32.Rv32.Encoding
import SwitchV32.Supervisor.Exceptions

/-!
# Words that encode nothing

Which of the words outside `Encoding` the interpreter takes for an instruction.
As in `Supervisor.Exceptions`, an iteration is read as a function of the trap
handler it calls, here in either build.
-/

namespace SwitchV32

open Rv32 (Encoding field rFormat iFormat AluOp MulOp ImmOp ShiftOp BranchOp LoadOp StoreOp)
open Supervisor (TrapHandler)

-- ---------------------------------------------------------------------------
-- The builds as functions of their trap handler
-- ---------------------------------------------------------------------------

namespace User

/-- `vcore_sys_type` with another function in the place of `dispatch_trap`. -/
def vcoreSysTypeWith (trap : TrapHandler) (m : Sv32) (ins : U32) : Except Stop Sv32 := do
  let imm := Ins.iImm ins
  if imm = 0x0 then
    let m ← trap m .ecallUMode resetFaultVal
    return m.addPc 4
  else if imm = 0x1 then trap m .brkpt (m.reg Reg.pc)
  else trap m .illIns ins

def envWith (trap : TrapHandler) : Env Platform where
  dispatchTrap := trap
  vcoreSysType := vcoreSysTypeWith trap
  checkInterrupts := .ok

end User

namespace Build

def envWith (trap : TrapHandler) : Build → Env Platform
  | .user => User.envWith trap
  | .supervisor => Supervisor.envWith trap

def zicsr : Build → Bool
  | .user => false
  | .supervisor => true

@[simp] theorem envWith_dispatchTrap (b : Build) (trap) : (b.envWith trap).dispatchTrap = trap := by
  cases b <;> rfl

end Build

-- ---------------------------------------------------------------------------
-- Raising ILL_INS
-- ---------------------------------------------------------------------------

/-- `run` calls its trap handler on `m`, with `ILL_INS`, and does nothing else than adding 4 to
the program counter afterwards. -/
def Raises (run : TrapHandler → Except Stop Sv32) (m : Sv32) : Prop :=
  ∃ v, (∀ trap, run trap = trap m .illIns v) ∨
    ∀ trap, run trap = trap m .illIns v >>= fun m => .ok (m.addPc 4)

/-- The iteration from `m` resets `x0`, fetches and raises `ILL_INS`. -/
def RaisesIllIns (b : Build) (m : Sv32) : Prop :=
  Raises (fun trap => vcoreExecute (b.envWith trap) m) (m.setReg Reg.zero 0)

section
variable {run : TrapHandler → Except Stop Sv32} {m : Sv32}

theorem Raises.adds (v) (h : ∀ trap, run trap = trap m .illIns v >>= fun m => .ok (m.addPc 4)) :
    Raises run m := ⟨v, .inr h⟩

theorem Raises.last (v) (h : ∀ trap, run trap = trap m .illIns v) : Raises run m := ⟨v, .inl h⟩

theorem Raises.not_const (h : Raises run m) (r : Except Stop Sv32) : ¬ ∀ trap, run trap = r := by
  intro hr
  have hsame : run (fun _ _ _ => .error .fault) = run fun _ _ _ => .error .abort :=
    (hr _).trans (hr _).symm
  obtain ⟨v, h | h⟩ := h <;> simp [h] at hsame

theorem Raises.code_eq (h : Raises run m) (m' : Sv32) (k : Sv32 → Except Stop Sv32)
    {code : TrapCode} {v' : U32} (hrun : ∀ trap, run trap = trap m' code v' >>= k) :
    code = .illIns := by
  obtain ⟨v, h | h⟩ := h
  all_goals
    have hprobe := (h (Supervisor.probe .illIns v)).symm.trans (hrun _)
    simp only [Supervisor.probe, error_bind, and_self, ite_true, Except.error.injEq] at hprobe
    by_contra hne
    simp [hne] at hprobe

end

-- ---------------------------------------------------------------------------
-- What the decoders accept
-- ---------------------------------------------------------------------------

theorem aFunc_rFormat (funct7 : BitVec 7) (rs2 rs1 : Rv32.Reg) (funct3 : BitVec 3) (rd : Rv32.Reg)
    (opcode : BitVec 7) : Ins.aFunc (rFormat funct7 rs2 rs1 funct3 rd opcode) =
      field (funct7.extractLsb' 2 5) 4 ||| field funct3 0 := by
  have hhigh : field funct7 25 &&& 0x1F#32 <<< 27 = field (funct7.extractLsb' 2 5) 27 := by
    apply BitVec.eq_of_getLsbD_eq
    intro i hi
    simp only [BitVec.getLsbD_and, Rv32.getLsbD_field, BitVec.getLsbD_shiftLeft,
      BitVec.getLsbD_extractLsb']
    interval_cases i <;> simp
  simp (disch := decide) only [Ins.aFunc, rFormat, BitVec.and_or_distrib_right, hhigh,
    Rv32.field_and_eq, Rv32.field_and_zero, BitVec.zero_or, BitVec.or_zero,
    Rv32.field_ushiftRight]
  exact BitVec.or_comm ..

theorem codes_eq {high : BitVec n} {funct3 : BitVec 3} (hn : n ≤ 28)
    (h : field high 4 ||| field funct3 0 = c) :
    high = c.extractLsb' 4 n ∧ funct3 = c.extractLsb' 0 3 := by
  subst h
  constructor
  · apply BitVec.eq_of_getLsbD_eq
    intro i hi
    have hlow : funct3.getLsbD (4 + i) = false := BitVec.getLsbD_of_ge _ _ (by omega)
    have hword : 4 + i < 32 := by omega
    simp only [BitVec.getLsbD_extractLsb', BitVec.getLsbD_or, Rv32.getLsbD_field]
    simp [hi, hlow, hword]
  · apply BitVec.eq_of_getLsbD_eq
    intro i hi
    have hword : i < 32 := by omega
    have hlow : ¬ 4 ≤ i := by omega
    simp only [BitVec.getLsbD_extractLsb', BitVec.getLsbD_or, Rv32.getLsbD_field]
    simp [hi, hlow, hword]

theorem codes_inj {high high' : BitVec n} {funct3 funct3' : BitVec 3} (hn : n ≤ 28)
    (h : field high 4 ||| field funct3 0 = field high' 4 ||| field funct3' 0) :
    high = high' ∧ funct3 = funct3' := by
  obtain ⟨hhigh, hfunct3⟩ := codes_eq hn h
  obtain ⟨hhigh', hfunct3'⟩ := codes_eq hn (rfl : field high' 4 ||| field funct3' 0 = _)
  exact ⟨hhigh.trans hhigh'.symm, hfunct3.trans hfunct3'.symm⟩

theorem setWidth_inj {x : BitVec n} (hn : n ≤ 32) (h : x.setWidth 32 = c) : x = c.setWidth n := by
  subst h
  simp [hn]

theorem rSwitch_some (h : rSwitch func a b = some v) :
    (∃ o : AluOp, func = field o.funct7 4 ||| field o.funct3 0) ∨
      ∃ o : MulOp, func = field 0b0000001#7 4 ||| field o.funct3 0 := by
  unfold rSwitch at h
  split at h
  · exact .inl ⟨.add, by decide⟩
  · exact .inl ⟨.sub, by decide⟩
  · exact .inl ⟨.xor, by decide⟩
  · exact .inl ⟨.or, by decide⟩
  · exact .inl ⟨.and, by decide⟩
  · exact .inl ⟨.sll, by decide⟩
  · exact .inl ⟨.srl, by decide⟩
  · exact .inl ⟨.sra, by decide⟩
  · exact .inl ⟨.slt, by decide⟩
  · exact .inl ⟨.sltu, by decide⟩
  · exact .inr ⟨.mul, by decide⟩
  · exact .inr ⟨.mulh, by decide⟩
  · exact .inr ⟨.mulhsu, by decide⟩
  · exact .inr ⟨.mulhu, by decide⟩
  · exact .inr ⟨.div, by decide⟩
  · exact .inr ⟨.divu, by decide⟩
  · exact .inr ⟨.rem, by decide⟩
  · exact .inr ⟨.remu, by decide⟩
  · cases h

theorem rCorner_some (h : rCorner func a b = some v) :
    ∃ o : MulOp, func = field 0b0000001#7 4 ||| field o.funct3 0 := by
  by_contra hne
  have hdiv : func ≠ Func.div := fun he => hne ⟨.div, he⟩
  have hdivu : func ≠ Func.divu := fun he => hne ⟨.divu, he⟩
  have hrem : func ≠ Func.rem := fun he => hne ⟨.rem, he⟩
  have hremu : func ≠ Func.remu := fun he => hne ⟨.remu, he⟩
  rw [rCorner_of_ne hdiv hdivu hrem hremu] at h
  cases h

/-- The operands decide the value, never whether there is one. -/
theorem rValue_some (h : rValue (field funct7 4 ||| field funct3 0) a b = some v) :
    (∃ o : AluOp, funct7 = o.funct7 ∧ funct3 = o.funct3) ∨
      ∃ o : MulOp, funct7 = 0b0000001 ∧ funct3 = o.funct3 := by
  have hcode :
      (∃ o : AluOp, field funct7 4 ||| field funct3 0 = field o.funct7 4 ||| field o.funct3 0) ∨
      ∃ o : MulOp,
        field funct7 4 ||| field funct3 0 = field 0b0000001#7 4 ||| field o.funct3 0 := by
    cases hc : rCorner (field funct7 4 ||| field funct3 0) a b with
    | some _ => exact .inr (rCorner_some hc)
    | none =>
      rw [rValue, hc, Option.none_or] at h
      exact rSwitch_some h
  rcases hcode with ⟨o, ho⟩ | ⟨o, ho⟩
  · exact .inl ⟨o, codes_inj (by decide) ho⟩
  · exact .inr ⟨o, codes_inj (by decide) ho⟩

theorem irSwitch_some (h : irSwitch (funct3.setWidth 32) a imm = some v) :
    ∃ o : ImmOp, funct3 = o.funct3 := by
  unfold irSwitch at h
  split at h
  case h_1 hf => exact ⟨.addi, setWidth_inj (by decide) hf⟩
  case h_2 hf => exact ⟨.xori, setWidth_inj (by decide) hf⟩
  case h_3 hf => exact ⟨.ori, setWidth_inj (by decide) hf⟩
  case h_4 hf => exact ⟨.andi, setWidth_inj (by decide) hf⟩
  case h_5 hf => exact ⟨.slti, setWidth_inj (by decide) hf⟩
  case h_6 hf => exact ⟨.sltiu, setWidth_inj (by decide) hf⟩
  case h_7 => cases h

theorem irValue_some (h : irValue (rFormat funct7 rs2 rs1 funct3 rd opcode) a = some v) :
    (∃ o : ShiftOp, funct7 = o.funct7 ∧ funct3 = o.funct3) ∨ ∃ o : ImmOp, funct3 = o.funct3 := by
  simp only [irValue, Ins.rFunc_rFormat, Ins.func_rFormat] at h
  split at h
  case isTrue hf => exact .inl ⟨.srai, codes_eq (by decide) hf⟩
  split at h
  case isTrue hf => exact .inl ⟨.srli, codes_eq (by decide) hf⟩
  split at h
  case isTrue hf => exact .inl ⟨.slli, codes_eq (by decide) hf⟩
  exact .inr (irSwitch_some h)

theorem bTaken_some (h : bTaken (funct3.setWidth 32) a b = some v) :
    ∃ o : BranchOp, funct3 = o.funct3 := by
  unfold bTaken at h
  split at h
  case h_1 hf => exact ⟨.beq, setWidth_inj (by decide) hf⟩
  case h_2 hf => exact ⟨.bne, setWidth_inj (by decide) hf⟩
  case h_3 hf => exact ⟨.blt, setWidth_inj (by decide) hf⟩
  case h_4 hf => exact ⟨.bge, setWidth_inj (by decide) hf⟩
  case h_5 hf => exact ⟨.bltu, setWidth_inj (by decide) hf⟩
  case h_6 hf => exact ⟨.bgeu, setWidth_inj (by decide) hf⟩
  case h_7 => cases h

theorem ilValue_some (h : ilValue vmem (funct3.setWidth 32) addr = some v) :
    ∃ o : LoadOp, funct3 = o.funct3 := by
  unfold ilValue at h
  split at h
  case h_1 hf => exact ⟨.lb, setWidth_inj (by decide) hf⟩
  case h_2 hf => exact ⟨.lh, setWidth_inj (by decide) hf⟩
  case h_3 hf => exact ⟨.lw, setWidth_inj (by decide) hf⟩
  case h_4 hf => exact ⟨.lbu, setWidth_inj (by decide) hf⟩
  case h_5 hf => exact ⟨.lhu, setWidth_inj (by decide) hf⟩
  case h_6 => cases h

theorem sValue_some (h : sValue vmem (funct3.setWidth 32) addr x = some v) :
    ∃ o : StoreOp, funct3 = o.funct3 := by
  unfold sValue at h
  split at h
  case h_1 hf => exact ⟨.sb, setWidth_inj (by decide) hf⟩
  case h_2 hf => exact ⟨.sh, setWidth_inj (by decide) hf⟩
  case h_3 hf => exact ⟨.sw, setWidth_inj (by decide) hf⟩
  case h_4 => cases h

-- ---------------------------------------------------------------------------
-- Instruction classes
-- ---------------------------------------------------------------------------

section
variable {b : Build} {m : Sv32} {ins : U32} {zicsr : Bool} {funct7 : BitVec 7} {rs2 rs1 : Rv32.Reg}
variable {funct3 : BitVec 3} {rd : Rv32.Reg}

theorem vcoreRType_raises (hinv : ¬ Encoding zicsr ins)
    (hins : rFormat funct7 rs2 rs1 funct3 rd Rv32.Opcode.op = ins) :
    Raises (fun trap => vcoreRType (b.envWith trap) m ins) m := by
  have hnone : ∀ x y, rValue (field funct7 4 ||| field funct3 0) x y = none := by
    intro x y
    rw [Option.eq_none_iff_forall_ne_some]
    intro v hv
    obtain ⟨o, rfl, rfl⟩ | ⟨o, rfl, rfl⟩ := rValue_some hv
    · exact hinv (hins ▸ .base (.op o rd rs1 rs2))
    · exact hinv (hins ▸ .base (.mulDiv o rd rs1 rs2))
  refine .adds ins fun trap => ?_
  simp only [vcoreRType, ← hins, Ins.rFunc_rFormat, hnone, Build.envWith_dispatchTrap]
  rfl

theorem vcoreIrType_raises (hinv : ¬ Encoding zicsr ins)
    (hins : rFormat funct7 rs2 rs1 funct3 rd Rv32.Opcode.opImm = ins) :
    Raises (fun trap => vcoreIrType (b.envWith trap) m ins) m := by
  have hnone : ∀ x, irValue ins x = none := by
    intro x
    rw [← hins]
    rw [Option.eq_none_iff_forall_ne_some]
    intro v hv
    obtain ⟨o, rfl, rfl⟩ | ⟨o, rfl⟩ := irValue_some hv
    · exact hinv (hins ▸ .base (.shiftImm o rd rs1 rs2))
    · obtain ⟨imm, himm⟩ := Rv32.exists_iFormat funct7 rs2 rs1 o.funct3 rd Rv32.Opcode.opImm
      rw [← hins, himm] at hinv
      exact hinv (.base (.opImm o rd rs1 imm))
  refine .adds 0 fun trap => ?_
  simp only [vcoreIrType, hnone, Build.envWith_dispatchTrap]
  rfl

theorem vcoreBType_raises (hinv : ¬ Encoding zicsr ins)
    (hins : rFormat funct7 rs2 rs1 funct3 rd Rv32.Opcode.branch = ins) :
    Raises (fun trap => vcoreBType (b.envWith trap) m ins) m := by
  have hnone : ∀ x y, bTaken (funct3.setWidth 32) x y = none := by
    intro x y
    rw [Option.eq_none_iff_forall_ne_some]
    intro v hv
    obtain ⟨o, rfl⟩ := bTaken_some hv
    obtain ⟨imm, himm⟩ := Rv32.exists_bFormat funct7 rs2 rs1 o.funct3 rd Rv32.Opcode.branch
    rw [← hins, himm] at hinv
    exact hinv (.base (.branch o rs1 rs2 imm))
  refine .adds ins fun trap => ?_
  simp only [vcoreBType, ← hins, Ins.func_rFormat, hnone, Build.envWith_dispatchTrap]
  rfl

theorem vcoreIlType_raises (hinv : ¬ Encoding zicsr ins)
    (hins : rFormat funct7 rs2 rs1 funct3 rd Rv32.Opcode.load = ins) :
    Raises (fun trap => vcoreIlType (b.envWith trap) m ins) m := by
  have hnone : ∀ x, ilValue m.vmem (funct3.setWidth 32) x = none := by
    intro x
    rw [Option.eq_none_iff_forall_ne_some]
    intro v hv
    obtain ⟨o, rfl⟩ := ilValue_some hv
    obtain ⟨imm, himm⟩ := Rv32.exists_iFormat funct7 rs2 rs1 o.funct3 rd Rv32.Opcode.load
    rw [← hins, himm] at hinv
    exact hinv (.base (.load o rd rs1 imm))
  refine .adds ins fun trap => ?_
  simp only [vcoreIlType, ← hins, Ins.func_rFormat, hnone, Build.envWith_dispatchTrap]
  rfl

theorem vcoreSType_raises (hinv : ¬ Encoding zicsr ins)
    (hins : rFormat funct7 rs2 rs1 funct3 rd Rv32.Opcode.store = ins) :
    Raises (fun trap => vcoreSType (b.envWith trap) m ins) m := by
  have hnone : ∀ x y, sValue m.vmem (funct3.setWidth 32) x y = none := by
    intro x y
    rw [Option.eq_none_iff_forall_ne_some]
    intro v hv
    obtain ⟨o, rfl⟩ := sValue_some hv
    obtain ⟨imm, himm⟩ := Rv32.exists_sFormat funct7 rs2 rs1 o.funct3 rd Rv32.Opcode.store
    rw [← hins, himm] at hinv
    exact hinv (.base (.store o rs1 rs2 imm))
  refine .adds ins fun trap => ?_
  simp only [vcoreSType, ← hins, Ins.func_rFormat, hnone, Build.envWith_dispatchTrap]
  rfl

/-- The function codes of `LR.W`, whatever its `rs2`, and of no instruction at all: the manual's
`AMOOR.W` has `0x082`. -/
def AFunc.Loose (func : U32) : Prop := func = AFunc.lr ∨ func = AFunc.aor

instance : Decidable (AFunc.Loose func) := inferInstanceAs (Decidable (_ ∨ _))

theorem vcoreAType_raises (hinv : ¬ Encoding zicsr ins)
    (hins : rFormat funct7 rs2 rs1 funct3 rd Rv32.Opcode.amo = ins)
    (hloose : ¬ AFunc.Loose (Ins.aFunc ins)) :
    Raises (fun trap => vcoreAType (b.envWith trap) m ins) m := by
  have hcode (funct5 : BitVec 5)
      (h : Ins.aFunc ins = field funct5 4 ||| field 0b010#3 0) :
      ins = Rv32.amoFormat funct5
        (funct7.extractLsb' 1 1) (funct7.extractLsb' 0 1) rs2 rs1 rd := by
    rw [← hins, aFunc_rFormat] at h
    obtain ⟨h5, h3⟩ := codes_inj (by decide) h
    rw [← hins, h3, Rv32.rFormat_eq_amoFormat, h5]
  have hamo (o : Rv32.AmoOp)
      (h : Ins.aFunc ins = field o.funct5 4 ||| field 0b010#3 0) : False := by
    rw [hcode o.funct5 h] at hinv
    exact hinv (.amo o _ _ rd rs1 rs2)
  refine .adds ins fun trap => ?_
  simp only [vcoreAType]
  split
  case h_1 h => exact absurd (.inl h) hloose
  case h_2 h =>
    rw [hcode 0b00011 h] at hinv
    exact absurd (.sc _ _ rd rs1 rs2) hinv
  case h_3 h => exact absurd h (hamo .swap)
  case h_4 h => exact absurd h (hamo .add)
  case h_5 h => exact absurd h (hamo .and)
  case h_6 h => exact absurd (.inr h) hloose
  case h_7 h => exact absurd h (hamo .xor)
  case h_8 h => exact absurd h (hamo .max)
  case h_9 h => exact absurd h (hamo .min)
  case h_10 h => exact absurd h (hamo .maxu)
  case h_11 h => exact absurd h (hamo .minu)
  case h_12 => simp only [Build.envWith_dispatchTrap]; rfl

end

-- ---------------------------------------------------------------------------
-- SYSTEM
-- ---------------------------------------------------------------------------

/-- The SYSTEM words that a build executes, `CSR` forms apart. The user build looks at the
immediate only; the supervisor build at `funct3` too, never at `rd` and `rs1` of `ECALL` and
`EBREAK`, and has no `default` for the reserved `funct3`. -/
def SysLoose (b : Build) (mode : ExecutionMode) (ins : U32) : Prop :=
  match b with
  | .user => Ins.iImm ins = 0x0 ∨ Ins.iImm ins = 0x1
  | .supervisor =>
    Ins.func ins = 0 ∧ (Ins.iImm ins = 0x0 ∨ Ins.iImm ins = 0x1) ∨
      Ins.func ins = 0x4 ∧
        (Supervisor.getCsrPrivilege (Ins.iImm ins) = Supervisor.csrUserLevel ∨
          Supervisor.getCsrPrivilege (Ins.iImm ins) = Supervisor.csrSupervisorLevel ∧
            mode = .supervisor ∧ Supervisor.findCsr (Ins.iImm ins) ≠ none)

instance (b mode ins) : Decidable (SysLoose b mode ins) := by
  cases b <;> unfold SysLoose <;> infer_instance

theorem csrOp_of_funct3 {funct3 : BitVec 3} (h0 : funct3 ≠ 0) (h4 : funct3 ≠ 4) :
    ∃ o : Rv32.CsrOp, funct3 = o.funct3 := by
  have hall : ∀ f : BitVec 3, f ≠ 0 → f ≠ 4 → f = 1 ∨ f = 2 ∨ f = 3 ∨ f = 5 ∨ f = 6 ∨ f = 7 := by
    decide
  rcases hall funct3 h0 h4 with rfl | rfl | rfl | rfl | rfl | rfl
  · exact ⟨.rw, rfl⟩
  · exact ⟨.rs, rfl⟩
  · exact ⟨.rc, rfl⟩
  · exact ⟨.rwi, rfl⟩
  · exact ⟨.rsi, rfl⟩
  · exact ⟨.rci, rfl⟩

section
variable {m : Sv32} {ins : U32}

theorem User.vcoreSysType_raises (h : ¬ SysLoose .user m.core.mode ins) :
    Raises (fun trap => (Build.user.envWith trap).vcoreSysType m ins) m := by
  obtain ⟨hecall, hebreak⟩ := not_or.mp h
  refine .last ins fun trap => ?_
  simp only [Build.envWith, User.envWith, User.vcoreSysTypeWith, hecall, hebreak, ite_false]

theorem User.vcoreSysType_loose (h : SysLoose .user m.core.mode ins) :
    ¬ Raises (fun trap => (Build.user.envWith trap).vcoreSysType m ins) m := by
  intro hr
  rcases h with hecall | hebreak
  · have hcode := hr.code_eq m (fun m => .ok (m.addPc 4)) fun trap => by
      simp only [Build.envWith, User.envWith, User.vcoreSysTypeWith, hecall, ite_true]
      rfl
    cases hcode
  · have hcode := hr.code_eq m pure fun trap => by
      simp only [Build.envWith, User.envWith, User.vcoreSysTypeWith, hebreak, bind_pure]
      rfl
    cases hcode

theorem Supervisor.vcoreSysType_raises (hinv : ¬ Encoding true ins)
    (hins : rFormat funct7 rs2 rs1 funct3 rd Rv32.Opcode.system = ins)
    (h : ¬ SysLoose .supervisor m.core.mode ins) :
    Raises (fun trap => (Build.supervisor.envWith trap).vcoreSysType m ins) m := by
  obtain ⟨henv, hcsr⟩ := not_or.mp h
  refine .last ins fun trap => ?_
  simp only [Build.envWith, Supervisor.envWith, Supervisor.vcoreSysType]
  by_cases hfunc : Ins.func ins = 0
  · obtain ⟨hecall, hebreak⟩ := not_or.mp fun h => henv ⟨hfunc, h⟩
    simp only [hfunc, hecall, hebreak, ite_true, ite_false]
  · have hfunc4 : Ins.func ins = 0x4 := by
      by_contra hne
      obtain ⟨imm, himm⟩ := Rv32.exists_iFormat funct7 rs2 rs1 funct3 rd Rv32.Opcode.system
      rw [← hins, Ins.func_rFormat] at hfunc hne
      have h0 : funct3 ≠ 0 := by
        rintro rfl
        exact hfunc rfl
      have h4 : funct3 ≠ 4 := by
        rintro rfl
        exact hne rfl
      obtain ⟨o, rfl⟩ := csrOp_of_funct3 h0 h4
      rw [← hins, himm] at hinv
      exact hinv (.csr rfl o imm rd rs1)
    obtain ⟨huser, hsup⟩ := not_or.mp fun h => hcsr ⟨hfunc4, h⟩
    simp only [hfunc, huser, ite_false]
    split
    · rename_i hp
      split
      · rfl
      · rename_i hmode
        have hnone : Supervisor.findCsr (Ins.iImm ins) = none := by
          by_contra hne
          exact hsup ⟨hp, not_not.mp hmode, hne⟩
        simp only [hnone]
    · rfl

theorem Supervisor.vcoreSysType_loose (h : SysLoose .supervisor m.core.mode ins) :
    ¬ Raises (fun trap => (Build.supervisor.envWith trap).vcoreSysType m ins) m := by
  intro hr
  rcases h with ⟨hfunc, hecall | hebreak⟩ | ⟨hfunc, hlevel⟩
  · by_cases hmode : m.core.mode = .supervisor
    · -- the call is carried out
      refine hr.not_const (Supervisor.emuSbiCall m >>= fun m => .ok (m.addPc 4)) fun trap => ?_
      simp only [Build.envWith, Supervisor.envWith, Supervisor.vcoreSysType, hfunc, hecall, hmode,
        ite_true]
      rfl
    · have hcode := hr.code_eq m (fun m => .ok (m.addPc 4)) fun trap => by
        simp only [Build.envWith, Supervisor.envWith, Supervisor.vcoreSysType, hfunc, hecall, hmode,
          ite_true, ite_false]
        rfl
      cases hcode
  · by_cases hdebug : m.host.ctx.debug = true
    · refine hr.not_const (threadsMgrHaltCores m) fun trap => ?_
      simp only [Build.envWith, Supervisor.envWith, Supervisor.vcoreSysType, hfunc, hebreak, hdebug,
        ite_true]
      rfl
    · have hcode := hr.code_eq m pure fun trap => by
        simp only [Build.envWith, Supervisor.envWith, Supervisor.vcoreSysType, hfunc, hebreak,
          hdebug, ite_true, bind_pure]
        rfl
      cases hcode
  · have hfunc0 : Ins.func ins ≠ 0 := by
      rw [hfunc]
      decide
    rcases hlevel with huser | ⟨hsup, hmode, hfound⟩
    · have hnot : Supervisor.getCsrPrivilege (Ins.iImm ins) ≠ Supervisor.csrSupervisorLevel := by
        rw [huser]
        decide
      refine hr.not_const (Supervisor.csrAccess (Supervisor.probe .illIns ins) m ins none)
        fun trap => ?_
      simp only [Build.envWith, Supervisor.envWith, Supervisor.vcoreSysType, hfunc0, huser,
        ite_true, ite_false]
      exact Supervisor.csrAccess_trap none trap _
    · obtain ⟨r, hr'⟩ := Option.ne_none_iff_exists'.mp hfound
      refine hr.not_const (Supervisor.csrAccess (Supervisor.probe .illIns ins) m ins (some r))
        fun trap => ?_
      simp only [Build.envWith, Supervisor.envWith, Supervisor.vcoreSysType, hfunc0, hsup, hmode,
        hr', ne_eq, not_true_eq_false, ite_true, ite_false]
      exact Supervisor.csrAccess_trap (some r) trap _

end

-- ---------------------------------------------------------------------------
-- Exactness
-- ---------------------------------------------------------------------------

/-- What is executed although it encodes nothing: any word of the opcode JALR, whose `funct3` is
not looked at, two function codes of the A extension, and some SYSTEM words. -/
def Loose (b : Build) (mode : ExecutionMode) (ins : U32) : Prop :=
  Ins.opcodeType ins = OpcodeType.ijType ∨
    Ins.opcodeType ins = OpcodeType.aType ∧ AFunc.Loose (Ins.aFunc ins) ∨
    Ins.opcodeType ins = OpcodeType.sysType ∧ SysLoose b mode ins

instance (b mode ins) : Decidable (Loose b mode ins) := by
  unfold Loose
  infer_instance

section
variable {b : Build} {m : Sv32} {ins : U32}

theorem vcoreDispatch_raises (hinv : ¬ Encoding b.zicsr ins) (h : ¬ Loose b m.core.mode ins) :
    Raises (fun trap => vcoreDispatch (b.envWith trap) m ins) m := by
  obtain ⟨hjalr, ha, hsys⟩ : Ins.opcodeType ins ≠ OpcodeType.ijType ∧
      (Ins.opcodeType ins = OpcodeType.aType → ¬ AFunc.Loose (Ins.aFunc ins)) ∧
      (Ins.opcodeType ins = OpcodeType.sysType → ¬ SysLoose b m.core.mode ins) := by
    simpa [Loose] using h
  obtain ⟨funct7, rs2, rs1, funct3, rd, opcode, hins⟩ := Rv32.exists_rFormat ins
  have hop : Ins.opcodeType ins = opcode.setWidth 32 := by rw [hins, Ins.opcodeType_rFormat]
  have hopcode {code : U32} (hcode : Ins.opcodeType ins = code) : opcode = code.setWidth 7 :=
    setWidth_inj (by decide) (hop.symm.trans hcode)
  simp only [vcoreDispatch]
  split
  case h_1 hcode =>
    obtain rfl := hopcode hcode
    exact vcoreRType_raises hinv hins.symm
  case h_2 hcode =>
    obtain rfl := hopcode hcode
    exact vcoreIrType_raises hinv hins.symm
  case h_3 hcode =>
    obtain rfl := hopcode hcode
    exact vcoreIlType_raises hinv hins.symm
  case h_4 hcode =>
    obtain rfl := hopcode hcode
    exact vcoreSType_raises hinv hins.symm
  case h_5 hcode =>
    obtain rfl := hopcode hcode
    exact vcoreBType_raises hinv hins.symm
  case h_6 hcode =>
    obtain rfl := hopcode hcode
    obtain ⟨imm, himm⟩ := Rv32.exists_jFormat funct7 rs2 rs1 funct3 rd Rv32.Opcode.jal
    exact absurd (.base (.jal rd imm)) (himm ▸ hins ▸ hinv)
  case h_7 hcode => exact absurd hcode hjalr
  case h_8 hcode =>
    obtain rfl := hopcode hcode
    obtain ⟨imm, himm⟩ := Rv32.exists_uFormat funct7 rs2 rs1 funct3 rd Rv32.Opcode.lui
    exact absurd (.base (.lui rd imm)) (himm ▸ hins ▸ hinv)
  case h_9 hcode =>
    obtain rfl := hopcode hcode
    obtain ⟨imm, himm⟩ := Rv32.exists_uFormat funct7 rs2 rs1 funct3 rd Rv32.Opcode.auipc
    exact absurd (.base (.auipc rd imm)) (himm ▸ hins ▸ hinv)
  case h_10 hcode =>
    obtain rfl := hopcode hcode
    exact vcoreAType_raises hinv hins.symm (ha hcode)
  case h_11 hcode =>
    obtain rfl := hopcode hcode
    cases b with
    | user => exact User.vcoreSysType_raises (hsys hcode)
    | supervisor => exact Supervisor.vcoreSysType_raises hinv hins.symm (hsys hcode)
  case h_12 =>
    refine .last ins fun trap => ?_
    simp only [Build.envWith_dispatchTrap]

theorem vcoreDispatch_loose (h : Loose b m.core.mode ins) :
    ¬ Raises (fun trap => vcoreDispatch (b.envWith trap) m ins) m := by
  rcases h with hop | ⟨hop, hfunc | hfunc⟩ | ⟨hop, hsys⟩
  · intro hr
    refine hr.not_const (vcoreIjType m ins) fun trap => ?_
    simp only [vcoreDispatch, hop]
    rfl
  · intro hr
    refine hr.not_const (vcoreAType (b.envWith fun m _ _ => .ok m) m ins) fun trap => ?_
    simp only [vcoreDispatch, hop, vcoreAType, hfunc]
    rfl
  · intro hr
    refine hr.not_const (vcoreAType (b.envWith fun m _ _ => .ok m) m ins) fun trap => ?_
    simp only [vcoreDispatch, hop, vcoreAType, hfunc]
    rfl
  · simp only [vcoreDispatch, hop]
    cases b with
    | user => exact User.vcoreSysType_loose hsys
    | supervisor => exact Supervisor.vcoreSysType_loose hsys

/-- Of the full-width words that encode nothing, the loose ones and no others are executed. -/
theorem raisesIllIns_iff (b : Build) (m : Sv32) (ins : U32)
    (hfetch : memRw m.vmem (m.reg Reg.pc) = .ok ins) (hlow : ins &&& 0x3 = 0x3)
    (hinv : ¬ Encoding b.zicsr ins) : RaisesIllIns b m ↔ ¬ Loose b m.core.mode ins := by
  have hc : Ins.isCompressed ins = false := by
    simp only [Ins.isCompressed, bne_eq_false_iff_eq]
    exact hlow
  have hrun : (fun trap => vcoreExecute (b.envWith trap) m) =
      fun trap => vcoreDispatch (b.envWith trap) (m.setReg Reg.zero 0) ins :=
    funext fun _ => vcoreExecute_fetch hfetch hc
  unfold RaisesIllIns
  rw [hrun]
  constructor
  · intro hr hloose
    exact vcoreDispatch_loose (m := m.setReg Reg.zero 0) hloose hr
  · exact vcoreDispatch_raises (m := m.setReg Reg.zero 0) hinv

/-- The user build ends with the message about the opcode. -/
theorem RaisesIllIns.user (h : RaisesIllIns .user m) (emuSystemCall) :
    vcoreExecute (User.env emuSystemCall) m = .error (.exit exitFailure) := by
  obtain ⟨v, h | h⟩ := h
  · exact h (User.dispatchTrap emuSystemCall)
  · exact h (User.dispatchTrap emuSystemCall)

/-- The supervisor build enters the trap with guest memory, the general registers and the rest of
the program as they were. -/
theorem RaisesIllIns.supervisor (h : RaisesIllIns .supervisor m) :
    ∃ m', vcoreExecute Supervisor.env m = .ok m' ∧ m'.reg Reg.scause = TrapCode.illIns.val ∧
      m'.reg Reg.sepc = m.reg Reg.pc ∧ (∀ r, m'.arch.get r = m.arch.get r) ∧ m'.vmem = m.vmem ∧
      m'.host = m.host := by
  have hpc : (m.setReg Reg.zero 0).reg Reg.pc = m.reg Reg.pc :=
    Machine.reg_setReg_ne m (by decide)
  obtain ⟨v, h⟩ := h
  obtain ⟨m', hm', hent, -⟩ := Supervisor.dispatchTrap_exception
    (m.setReg Reg.zero 0) v (show 0 ≤ TrapCode.illIns.val.toInt by decide)
  have hget (r) : m'.arch.get r = m.arch.get r := by
    rw [Rv32.State.get, hent.arch_x, arch_setZero, Rv32.State.get]
  rcases h with h | h
  · exact ⟨m', (h _).trans hm', hent.scause, hent.sepc.trans hpc, hget, hent.vmem, hent.host⟩
  · refine ⟨m'.addPc 4, (h _).trans (by rw [hm', ok_bind]), ?_, ?_, ?_, hent.vmem, hent.host⟩
    · rw [Machine.reg_addPc_ne _ _ (by decide), hent.scause]
    · rw [Machine.reg_addPc_ne _ _ (by decide), hent.sepc, hpc]
    · intro r
      rw [arch_addPc]
      exact hget r

-- ---------------------------------------------------------------------------
-- Two words
-- ---------------------------------------------------------------------------

theorem encoding_fields {zicsr : Bool} (h : Encoding zicsr ins) :
    Ins.opcodeType ins ∈ [OpcodeType.rType, OpcodeType.irType, OpcodeType.lui, OpcodeType.auipc,
      OpcodeType.bType, OpcodeType.ilType, OpcodeType.sType, OpcodeType.jType, OpcodeType.ijType,
      OpcodeType.aType, OpcodeType.sysType, 0x0F#32] ∧
      (Ins.opcodeType ins = OpcodeType.ijType → Ins.func ins = 0) := by
  have hfields {opcode : BitVec 7} (hop : Ins.opcodeType ins = opcode.setWidth 32)
      (hmem : opcode ∈ [Rv32.Opcode.amo, Rv32.Opcode.system, Rv32.Opcode.miscMem]) :
      Ins.opcodeType ins ∈ [OpcodeType.rType, OpcodeType.irType, OpcodeType.lui, OpcodeType.auipc,
        OpcodeType.bType, OpcodeType.ilType, OpcodeType.sType, OpcodeType.jType, OpcodeType.ijType,
        OpcodeType.aType, OpcodeType.sysType, 0x0F#32] ∧
        (Ins.opcodeType ins = OpcodeType.ijType → Ins.func ins = 0) := by
    rw [hop]
    simp only [List.mem_cons, List.not_mem_nil, or_false] at hmem
    rcases hmem with rfl | rfl | rfl
    all_goals exact ⟨by decide, fun h => absurd h (by decide)⟩
  cases h with
  | base i =>
    rw [opcodeType_encode]
    cases i with
    | jalr rd rs1 imm =>
      rw [Rv32.encode, Rv32.iFormat_eq, Ins.func_rFormat]
      exact ⟨by simp only [Rv32.Instr.opcode]; decide, fun _ => rfl⟩
    | _ => exact ⟨by simp only [Rv32.Instr.opcode]; decide,
        fun h => absurd h (by simp only [Rv32.Instr.opcode]; decide)⟩
  | fence imm rs1 rd =>
    exact hfields (by rw [Rv32.iFormat_eq, Ins.opcodeType_rFormat]) (by decide)
  | amo o aq rl rd rs1 rs2 =>
    exact hfields (by rw [Rv32.encodeAmo, Rv32.amoFormat_eq, Ins.opcodeType_rFormat]) (by decide)
  | lr aq rl rd rs1 =>
    exact hfields (by rw [Rv32.encodeLr, Rv32.amoFormat_eq, Ins.opcodeType_rFormat]) (by decide)
  | sc aq rl rd rs1 rs2 =>
    exact hfields (by rw [Rv32.encodeSc, Rv32.amoFormat_eq, Ins.opcodeType_rFormat]) (by decide)
  | ecall => decide
  | ebreak => decide
  | csr _ o number rd src =>
    exact hfields (by rw [Rv32.iFormat_eq, Ins.opcodeType_rFormat]) (by decide)

/-- An opcode that nothing has, in the user build. -/
theorem raisesIllIns_iff_unknownOpcode :
    RaisesIllIns .user Supervisor.unknownOpcodeMachine ↔
      ¬ Loose .user Supervisor.unknownOpcodeMachine.core.mode 0x7F :=
  raisesIllIns_iff .user Supervisor.unknownOpcodeMachine 0x7F (by decide) (by decide) fun h =>
    absurd (encoding_fields h).1 (by decide)

/-- `jalr x0, 16(x1)` with a `funct3` of 1. -/
def jalrFunct3Machine : Sv32 := .boot [0x01009067] []

theorem raisesIllIns_fails :
    memRw jalrFunct3Machine.vmem (jalrFunct3Machine.reg Reg.pc) = .ok 0x01009067 ∧
      0x01009067#32 &&& 0x3 = 0x3 ∧
      ∀ b : Build, ¬ Encoding b.zicsr 0x01009067 ∧ ¬ RaisesIllIns b jalrFunct3Machine ∧
        (vcoreExecute (b.envWith fun _ _ _ => .error .abort) jalrFunct3Machine).toOption.map
          (·.reg Reg.pc) = some 16 := by
  refine ⟨by decide, by decide, fun b => ⟨fun h => ?_, fun hr => ?_, ?_⟩⟩
  · exact absurd ((encoding_fields h).2 (by decide)) (by decide)
  · exact hr.not_const (vcoreIjType (jalrFunct3Machine.setReg Reg.zero 0) 0x01009067) fun _ => rfl
  · cases b <;> decide

end

end SwitchV32
