import SwitchV32.Core

/-!
# The instruction interpreter

`cpu.c`: one function per instruction class and the body of the `vcore_run`
loop. The two builds link it with their own `dispatch_trap`, `vcore_sys_type`
and `check_interrupts`; `Env` is that interface. Logging is compiled out.

Where every case of a `switch` ends in the same register write and the same
program counter update, the `switch` is a function of its own that answers the
value to write, and `none` for its `default`.
-/

namespace SwitchV32

-- ---------------------------------------------------------------------------
-- Codes
-- ---------------------------------------------------------------------------

namespace OpcodeType

@[match_pattern] abbrev rType : U32 := 0x33#32
@[match_pattern] abbrev irType : U32 := 0x13#32
@[match_pattern] abbrev ilType : U32 := 0x3#32
@[match_pattern] abbrev sType : U32 := 0x23#32
@[match_pattern] abbrev bType : U32 := 0x63#32
@[match_pattern] abbrev jType : U32 := 0x6F#32
@[match_pattern] abbrev ijType : U32 := 0x67#32
@[match_pattern] abbrev lui : U32 := 0x37#32
@[match_pattern] abbrev auipc : U32 := 0x17#32
@[match_pattern] abbrev sysType : U32 := 0x73#32
@[match_pattern] abbrev aType : U32 := 0x2F#32

end OpcodeType

-- func7:func3, also of the immediate forms
namespace Func

@[match_pattern] abbrev add : U32 := 0x000#32
@[match_pattern] abbrev sub : U32 := 0x200#32
@[match_pattern] abbrev xor : U32 := 0x004#32
@[match_pattern] abbrev or : U32 := 0x006#32
@[match_pattern] abbrev and : U32 := 0x007#32
@[match_pattern] abbrev sll : U32 := 0x001#32
@[match_pattern] abbrev srl : U32 := 0x005#32
@[match_pattern] abbrev sra : U32 := 0x205#32
@[match_pattern] abbrev slt : U32 := 0x002#32
@[match_pattern] abbrev sltu : U32 := 0x003#32
@[match_pattern] abbrev mul : U32 := 0x010#32
@[match_pattern] abbrev mulh : U32 := 0x011#32
@[match_pattern] abbrev mulhsu : U32 := 0x012#32
@[match_pattern] abbrev mulhu : U32 := 0x013#32
@[match_pattern] abbrev div : U32 := 0x014#32
@[match_pattern] abbrev divu : U32 := 0x015#32
@[match_pattern] abbrev rem : U32 := 0x016#32
@[match_pattern] abbrev remu : U32 := 0x017#32

end Func

-- func3 of the branches, loads and stores
namespace Func3

@[match_pattern] abbrev beq : U32 := 0x0#32
@[match_pattern] abbrev bne : U32 := 0x1#32
@[match_pattern] abbrev blt : U32 := 0x4#32
@[match_pattern] abbrev bge : U32 := 0x5#32
@[match_pattern] abbrev bltu : U32 := 0x6#32
@[match_pattern] abbrev bgeu : U32 := 0x7#32
@[match_pattern] abbrev lb : U32 := 0x0#32
@[match_pattern] abbrev lh : U32 := 0x1#32
@[match_pattern] abbrev lw : U32 := 0x2#32
@[match_pattern] abbrev lbu : U32 := 0x4#32
@[match_pattern] abbrev lhu : U32 := 0x5#32
@[match_pattern] abbrev sb : U32 := 0x0#32
@[match_pattern] abbrev sh : U32 := 0x1#32
@[match_pattern] abbrev sw : U32 := 0x2#32

end Func3

-- func5:func3
namespace AFunc

@[match_pattern] abbrev lr : U32 := 0x022#32
@[match_pattern] abbrev sc : U32 := 0x032#32
@[match_pattern] abbrev aswp : U32 := 0x012#32
@[match_pattern] abbrev aadd : U32 := 0x002#32
@[match_pattern] abbrev aand : U32 := 0x0C2#32
@[match_pattern] abbrev aor : U32 := 0x0A2#32
@[match_pattern] abbrev axor : U32 := 0x042#32
@[match_pattern] abbrev amax : U32 := 0x142#32
@[match_pattern] abbrev amin : U32 := 0x102#32
@[match_pattern] abbrev amaxu : U32 := 0x1C2#32
@[match_pattern] abbrev aminu : U32 := 0x182#32

end AFunc

def exitFailure : Nat := 1

def int32Min : U32 := 0x80000000

-- ---------------------------------------------------------------------------
-- Values
-- ---------------------------------------------------------------------------

def highWord (tmpMul : BitVec 64) : U32 :=
  ((tmpMul &&& 0xFFFFFFFF00000000#64) >>> 32).setWidth 32

/-- The operands that `vcore_r_type` handles before its `switch`. -/
def rCorner (func rs1 rs2 : U32) : Option U32 :=
  -- Divide by zero
  if rs2 = 0 ∧ (func = Func.div ∨ func = Func.divu) then some 0xFFFFFFFF
  else if rs2 = 0 ∧ (func = Func.rem ∨ func = Func.remu) then some rs1
  -- overflow (minnegative / -1)
  else if rs2.toInt = -1 ∧ rs1 = int32Min ∧ func = Func.div then some int32Min
  else if rs2.toInt = -1 ∧ rs1 = int32Min ∧ func = Func.rem then some 0
  else none

def rSwitch (func rs1 rs2 : U32) : Option U32 :=
  match func with
  | Func.add => some (rs1 + rs2)
  | Func.sub => some (rs1 - rs2)
  | Func.xor => some (rs1 ^^^ rs2)
  | Func.or => some (rs1 ||| rs2)
  | Func.and => some (rs1 &&& rs2)
  | Func.sll => some (rs1 <<< (rs2 &&& 31))
  | Func.srl => some (rs1 >>> (rs2 &&& 31))
  | Func.sra => some (rs1.sshiftRight' (rs2 &&& 31))
  | Func.slt => some (if rs1.slt rs2 then 1 else 0)
  | Func.sltu => some (if rs1.ult rs2 then 1 else 0)
  | Func.mul => some ((rs1.signExtend 64 * rs2.signExtend 64).setWidth 32)
  | Func.mulh => some (highWord (rs1.signExtend 64 * rs2.signExtend 64))
  | Func.mulhsu => some (highWord (rs1.signExtend 64 * rs2.setWidth 64))
  | Func.mulhu => some (highWord (rs1.setWidth 64 * rs2.setWidth 64))
  | Func.div => some (rs1.sdiv rs2)
  | Func.divu => some (rs1.udiv rs2)
  | Func.rem => some (rs1.srem rs2)
  | Func.remu => some (rs1.umod rs2)
  | _ => none

def rValue (func rs1 rs2 : U32) : Option U32 :=
  (rCorner func rs1 rs2).or (rSwitch func rs1 rs2)

def irSwitch (func rs1 imm : U32) : Option U32 :=
  match func with
  | Func.add => some (rs1 + imm)
  | Func.xor => some (rs1 ^^^ imm)
  | Func.or => some (rs1 ||| imm)
  | Func.and => some (rs1 &&& imm)
  | Func.slt => some (if rs1.slt imm then 1 else 0)
  | Func.sltu => some (if rs1.ult imm then 1 else 0)
  | _ => none

/-- The shifts look at `func7`; the other forms have immediate bits there. -/
def irValue (ins rs1 : U32) : Option U32 :=
  let shiftImm := Ins.rs2 ins &&& 31
  if Ins.rFunc ins = Func.sra then some (rs1.sshiftRight' shiftImm)
  else if Ins.rFunc ins = Func.srl then some (rs1 >>> shiftImm)
  else if Ins.rFunc ins = Func.sll then some (rs1 <<< shiftImm)
  else irSwitch (Ins.func ins) rs1 (Ins.iImm ins)

/-- Whether the branch replaces the increment 4 by its immediate. -/
def bTaken (func rs1 rs2 : U32) : Option Bool :=
  match func with
  | Func3.beq => some (rs1 == rs2)
  | Func3.bne => some (rs1 != rs2)
  | Func3.blt => some (rs1.slt rs2)
  | Func3.bge => some (!rs1.slt rs2)
  | Func3.bltu => some (rs1.ult rs2)
  | Func3.bgeu => some (!rs1.ult rs2)
  | _ => none

/-- `some` of the access, which may leave guest memory. -/
def ilValue (vmem : Mem) (func addr : U32) : Option (Except Stop U32) :=
  match func with
  | Func3.lb => some do
    let rd := (← memRb vmem addr).setWidth 32
    return if rd ≥ 0x80#32 then rd ||| 0xFFFFFF00 else rd
  | Func3.lh => some do
    let rd := (← memRh vmem addr).setWidth 32
    return if rd ≥ 0x8000#32 then rd ||| 0xFFFF0000 else rd
  | Func3.lw => some (memRw vmem addr)
  | Func3.lbu => some do return (← memRb vmem addr).setWidth 32
  | Func3.lhu => some do return (← memRh vmem addr).setWidth 32
  | _ => none

def sValue (vmem : Mem) (func addr rs2 : U32) : Option (Except Stop Mem) :=
  match func with
  | Func3.sb => some (memWb vmem addr (rs2.setWidth 8))
  | Func3.sh => some (memWh vmem addr (rs2.setWidth 16))
  | Func3.sw => some (memWw vmem addr rs2)
  | _ => none

-- ---------------------------------------------------------------------------
-- Instruction classes
-- ---------------------------------------------------------------------------

/-- What the build provides to `cpu.c`. -/
structure Env (σ : Type) where
  dispatchTrap : Machine σ → TrapCode → U32 → Except Stop (Machine σ)
  vcoreSysType : Machine σ → U32 → Except Stop (Machine σ)
  /-- The identity in the user build, which does not call it. -/
  checkInterrupts : Machine σ → Except Stop (Machine σ)

section
variable {σ : Type} (env : Env σ)

def vcoreRType (m : Machine σ) (ins : U32) : Except Stop (Machine σ) := do
  let m ← match rValue (Ins.rFunc ins) (m.reg (Ins.rs1Reg ins)) (m.reg (Ins.rs2Reg ins)) with
    | some v => pure (m.setReg (Ins.rdReg ins) v)
    | none => env.dispatchTrap m .illIns ins
  return m.addPc 4

/-- The trap reports 0, not the instruction. -/
def vcoreIrType (m : Machine σ) (ins : U32) : Except Stop (Machine σ) := do
  let m ← match irValue ins (m.reg (Ins.rs1Reg ins)) with
    | some v => pure (m.setReg (Ins.rdReg ins) v)
    | none => env.dispatchTrap m .illIns 0
  return m.addPc 4

def vcoreBType (m : Machine σ) (ins : U32) : Except Stop (Machine σ) := do
  match bTaken (Ins.func ins) (m.reg (Ins.rs1Reg ins)) (m.reg (Ins.rs2Reg ins)) with
  | some taken => return m.addPc (if taken then Ins.bImm ins else 4)
  | none =>
    let m ← env.dispatchTrap m .illIns ins
    return m.addPc 4

def vcoreJType (m : Machine σ) (ins : U32) : Except Stop (Machine σ) :=
  let m := m.setReg (Ins.rdReg ins) (m.reg Reg.pc + 4)
  return m.addPc (Ins.jImm ins)

/-- `rs1` is read after `rd` is written. -/
def vcoreIjType (m : Machine σ) (ins : U32) : Except Stop (Machine σ) :=
  let m := m.setReg (Ins.rdReg ins) (m.reg Reg.pc + 4)
  return m.setReg Reg.pc (m.reg (Ins.rs1Reg ins) + Ins.iImm ins)

def vcoreLuiType (m : Machine σ) (ins : U32) : Except Stop (Machine σ) :=
  return (m.setReg (Ins.rdReg ins) (Ins.uImm ins)).addPc 4

def vcoreAuipcType (m : Machine σ) (ins : U32) : Except Stop (Machine σ) :=
  return (m.setReg (Ins.rdReg ins) (m.reg Reg.pc + Ins.uImm ins)).addPc 4

def vcoreIlType (m : Machine σ) (ins : U32) : Except Stop (Machine σ) := do
  let m ← match ilValue m.vmem (Ins.func ins) (m.reg (Ins.rs1Reg ins) + Ins.iImm ins) with
    | some access => do
      let v ← access
      pure (m.setReg (Ins.rdReg ins) v)
    | none => env.dispatchTrap m .illIns ins
  return m.addPc 4

def vcoreSType (m : Machine σ) (ins : U32) : Except Stop (Machine σ) := do
  let m ← match sValue m.vmem (Ins.func ins) (m.reg (Ins.rs1Reg ins) + Ins.sImm ins)
      (m.reg (Ins.rs2Reg ins)) with
    | some access => do
      let vmem ← access
      pure { m with vmem }
    | none => env.dispatchTrap m .illIns ins
  return m.addPc 4

def Machine.amo (m : Machine σ) (ins : U32)
    (op : Mem → U32 → U32 → Except Stop (U32 × Mem)) : Except Stop (Machine σ) := do
  let (v, vmem) ← op m.vmem (m.reg (Ins.rs1Reg ins)) (m.reg (Ins.rs2Reg ins))
  return ({ m with vmem }.setReg (Ins.rdReg ins) v).addPc 4

/-- Memory orders are left out: one hart runs alone here. `LR` does not write
`rd`, and a refused `SC` returns before the program counter moves. -/
def vcoreAType (m : Machine σ) (ins : U32) : Except Stop (Machine σ) :=
  let rs1 := m.reg (Ins.rs1Reg ins)
  let rs2 := m.reg (Ins.rs2Reg ins)
  match Ins.aFunc ins with
  | AFunc.lr => do
    let reserved ← memAread m.vmem rs1
    return { m with core := { m.core with llScFlag := true, reserved } }.addPc 4
  | AFunc.sc =>
    if m.core.llScFlag then do
      let vmem ← memCas m.vmem rs1 rs2 m.core.reserved
      return ({ m with core := { m.core with llScFlag := false }, vmem }.setReg
        (Ins.rdReg ins) 0).addPc 4
    else return m.setReg (Ins.rdReg ins) 1
  | AFunc.aswp => m.amo ins memAswp
  | AFunc.aadd => m.amo ins memAadd
  | AFunc.aand => m.amo ins memAand
  | AFunc.aor => m.amo ins memAor
  | AFunc.axor => m.amo ins memAxor
  | AFunc.amax => m.amo ins memAmax
  | AFunc.amin => m.amo ins memAmin
  | AFunc.amaxu => m.amo ins memAmaxu
  | AFunc.aminu => m.amo ins memAminu
  | _ => do
    let m ← env.dispatchTrap m .illIns ins
    return m.addPc 4

-- ---------------------------------------------------------------------------
-- The loop
-- ---------------------------------------------------------------------------

def vcoreDispatch (m : Machine σ) (ins : U32) : Except Stop (Machine σ) :=
  match Ins.opcodeType ins with
  | OpcodeType.rType => vcoreRType env m ins
  | OpcodeType.irType => vcoreIrType env m ins
  | OpcodeType.ilType => vcoreIlType env m ins
  | OpcodeType.sType => vcoreSType env m ins
  | OpcodeType.bType => vcoreBType env m ins
  | OpcodeType.jType => vcoreJType m ins
  | OpcodeType.ijType => vcoreIjType m ins
  | OpcodeType.lui => vcoreLuiType m ins
  | OpcodeType.auipc => vcoreAuipcType m ins
  | OpcodeType.aType => vcoreAType env m ins
  | OpcodeType.sysType => env.vcoreSysType m ins
  | _ => env.dispatchTrap m .illIns ins

/-- One iteration up to its exit test. -/
def vcoreExecute (m : Machine σ) : Except Stop (Machine σ) := do
  let m := m.setReg Reg.zero 0
  let ins ← memRw m.vmem (m.reg Reg.pc)
  if Ins.isCompressed ins then throw (.exit exitFailure)
  vcoreDispatch env m ins

inductive Iteration (σ : Type)
  | again (m : Machine σ)
  | returned (m : Machine σ)

def vcoreExitTest (m : Machine σ) : Except Stop (Iteration σ) :=
  if m.core.atomicExitLoop then return .returned m
  else return .again (← env.checkInterrupts m)

def vcoreIteration (m : Machine σ) : Except Stop (Iteration σ) := do
  let m ← vcoreExecute env m
  vcoreExitTest env m

end

end SwitchV32
