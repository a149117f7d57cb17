import SwitchV32.Memory

/-!
# The core and its decoders

`VCore` with the register numbers of `cpu.h`, the field decoders of `cpu.h` and
`cpu.c`, and the trap codes of `trap.h`. The register file holds the program
counter and the supervisor CSRs behind the 32 general registers.
-/

namespace SwitchV32

-- ---------------------------------------------------------------------------
-- Registers
-- ---------------------------------------------------------------------------

/-- An index below `REG_NUMS`. -/
abbrev Reg := Fin 44

instance neZeroRegNums : NeZero 44 := ⟨by decide⟩

namespace Reg

def zero : Reg := 0
def sp : Reg := 2
def gp : Reg := 3
def a0 : Reg := 10
def a1 : Reg := 11
def a2 : Reg := 12
def a6 : Reg := 16
def a7 : Reg := 17
def pc : Reg := 32
def satp : Reg := 33
def sstatus : Reg := 34
def scause : Reg := 35
def stval : Reg := 36
def stvec : Reg := 37
def sepc : Reg := 38
def sscratch : Reg := 39
def sie : Reg := 40
def sip : Reg := 41
def scounteren : Reg := 42
def senvcfg : Reg := 43

end Reg

inductive ExecutionMode
  | supervisor
  | user
  deriving DecidableEq, Repr

structure VCore where
  regs : Reg → U32
  /-- What the last `LR.W` read. -/
  reserved : U32
  llScFlag : Bool
  atomicExitLoop : Bool
  mode : ExecutionMode
  coreIdx : U32
  /-- Only in the user build. -/
  elfBrk : U32

structure VCoreInit where
  pc : U32
  sp : U32
  id : U32
  opaqueArg : U32
  gp : U32
  /-- Only in the user build. -/
  elfBrk : U32

def VCore.setReg (core : VCore) (r : Reg) (v : U32) : VCore :=
  { core with regs := Function.update core.regs r v }

/-- `memset(core, 0, ...)` with `mode` set, then the fields of `init` if there is one.
The user build also takes over `elfBrk`, which the supervisor build does not have. -/
def vcoreInit (init : Option VCoreInit) : VCore :=
  let core : VCore :=
    { regs := fun _ => 0, reserved := 0, llScFlag := false, atomicExitLoop := false,
      mode := .supervisor, coreIdx := 0, elfBrk := 0 }
  match init with
  | none => core
  | some init =>
    { ((((core.setReg Reg.pc init.pc).setReg Reg.sp init.sp).setReg Reg.a0 init.id).setReg Reg.a1
        init.opaqueArg).setReg Reg.gp init.gp with
      coreIdx := init.id, elfBrk := init.elfBrk }

/-- What one core executes on: its own record, guest memory, and the rest of the
program, which only `ECALL` and `EBREAK` reach. -/
structure Machine (σ : Type) where
  core : VCore
  vmem : Mem
  host : σ

section
variable {σ : Type}

def Machine.reg (m : Machine σ) (r : Reg) : U32 := m.core.regs r

def Machine.setReg (m : Machine σ) (r : Reg) (v : U32) : Machine σ :=
  { m with core := m.core.setReg r v }

def Machine.addPc (m : Machine σ) (inc : U32) : Machine σ :=
  m.setReg Reg.pc (m.reg Reg.pc + inc)

@[simp] theorem Machine.reg_setReg_self (m : Machine σ) (r v) : (m.setReg r v).reg r = v := by
  simp [Machine.setReg, Machine.reg, VCore.setReg]

@[simp] theorem Machine.reg_setReg_ne (m : Machine σ) (h : r' ≠ r) :
    (m.setReg r v).reg r' = m.reg r' := by
  simp [Machine.setReg, Machine.reg, VCore.setReg, Function.update_of_ne h]

@[simp] theorem Machine.reg_addPc_pc (m : Machine σ) (inc) :
    (m.addPc inc).reg Reg.pc = m.reg Reg.pc + inc := m.reg_setReg_self _ _

theorem Machine.reg_addPc_ne (m : Machine σ) (inc) (h : r ≠ Reg.pc) :
    (m.addPc inc).reg r = m.reg r := m.reg_setReg_ne h

@[simp] theorem Machine.setReg_vmem (m : Machine σ) (r v) : (m.setReg r v).vmem = m.vmem := rfl

@[simp] theorem Machine.setReg_host (m : Machine σ) (r v) : (m.setReg r v).host = m.host := rfl

end

-- ---------------------------------------------------------------------------
-- Decoders
-- ---------------------------------------------------------------------------

namespace Ins

def isCompressed (x : U32) : Bool := x &&& 0x3#32 != 0x3#32

def opcodeType (x : U32) : U32 := x &&& 0x7F#32

def rd (x : U32) : U32 := (x &&& 0x1F#32 <<< 7) >>> 7
def rs1 (x : U32) : U32 := (x &&& 0x1F#32 <<< 15) >>> 15
def rs2 (x : U32) : U32 := (x &&& 0x1F#32 <<< 20) >>> 20
def func (x : U32) : U32 := (x &&& 0x7#32 <<< 12) >>> 12
def rFunc (x : U32) : U32 := (x &&& 0x7#32 <<< 12) >>> 12 ||| (x &&& 0x7F#32 <<< 25) >>> 21
def aFunc (x : U32) : U32 := (x &&& 0x7#32 <<< 12) >>> 12 ||| (x &&& 0x1F#32 <<< 27) >>> 23

/-- The shift is of an `int32_t`: gcc's arithmetic shift. -/
def iImm (x : U32) : U32 := (x &&& 0xFFF#32 <<< 20).sshiftRight 20

def bImm (x : U32) : U32 :=
  (0xF#32 <<< 8 &&& x) >>> 7 ||| (0x3F#32 <<< 25 &&& x) >>> 20 ||| (0x1#32 <<< 7 &&& x) <<< 4 |||
    (1#32 <<< 31 &&& x).sshiftRight 19

def jImm (x : U32) : U32 :=
  (x >>> 21 &&& 0x3FF#32) <<< 1 ||| (x >>> 20 &&& 0x1#32) <<< 11 |||
    (x >>> 12 &&& 0xFF#32) <<< 12 ||| (x.sshiftRight 11 &&& 0xFFF00000#32)

def uImm (x : U32) : U32 := x &&& 0xFFFFF#32 <<< 12

def sImm (x : U32) : U32 := rd x ||| (x &&& 0x7F#32 <<< 25).sshiftRight 20

theorem five_bits_lt (x : U32) (k : Nat) : ((x &&& 0x1F#32 <<< k) >>> k).toNat < 32 := by
  have h : (x &&& 0x1F#32 <<< k) >>> k = x >>> k &&& (0x1F#32 <<< k) >>> k := by
    ext i; simp
  rw [h, BitVec.toNat_and]
  refine Nat.lt_of_le_of_lt Nat.and_le_right ?_
  simp only [BitVec.toNat_ushiftRight, BitVec.toNat_shiftLeft, Nat.shiftRight_eq_div_pow,
    Nat.shiftLeft_eq]
  refine Nat.lt_of_le_of_lt (Nat.div_le_div_right (Nat.mod_le _ _)) ?_
  rw [Nat.mul_div_cancel _ (Nat.two_pow_pos k)]
  decide

def rdReg (x : U32) : Reg := ⟨(rd x).toNat, Nat.lt_trans (five_bits_lt x 7) (by decide)⟩
def rs1Reg (x : U32) : Reg := ⟨(rs1 x).toNat, Nat.lt_trans (five_bits_lt x 15) (by decide)⟩
def rs2Reg (x : U32) : Reg := ⟨(rs2 x).toNat, Nat.lt_trans (five_bits_lt x 20) (by decide)⟩

theorem rdReg_ne_pc (x : U32) : rdReg x ≠ Reg.pc :=
  Fin.ne_of_val_ne (Nat.ne_of_lt (five_bits_lt x 7))

end Ins

-- ---------------------------------------------------------------------------
-- Traps
-- ---------------------------------------------------------------------------

/-- The interrupts exist in the supervisor build only. -/
inductive TrapCode
  | insAddrMisAlgn | insAccFault | illIns | brkpt | loadAddrMisAlgn | loadAccFault
  | storeAmoAddrMisAlgn | storeAmoAccFault | ecallUMode | ecallSMode | insPageFault
  | loadPageFault | storeAmoPageFault | softwareCheck | hardwareError
  | supervisorSoftwareInterrupt | supervisorTimerInterrupt | supervisorExternalInterrupt
  | supervisorCounterOveflowInterrupt
  deriving DecidableEq, Repr

/-- The value of the enumerator; an interrupt has the top bit set. -/
def TrapCode.val : TrapCode → U32
  | .insAddrMisAlgn => 0
  | .insAccFault => 1
  | .illIns => 2
  | .brkpt => 3
  | .loadAddrMisAlgn => 4
  | .loadAccFault => 5
  | .storeAmoAddrMisAlgn => 6
  | .storeAmoAccFault => 7
  | .ecallUMode => 8
  | .ecallSMode => 9
  | .insPageFault => 12
  | .loadPageFault => 13
  | .storeAmoPageFault => 15
  | .softwareCheck => 18
  | .hardwareError => 19
  | .supervisorSoftwareInterrupt => 0x80000001
  | .supervisorTimerInterrupt => 0x80000005
  | .supervisorExternalInterrupt => 0x80000009
  | .supervisorCounterOveflowInterrupt => 0x8000000D

def resetFaultVal : U32 := 0

end SwitchV32
