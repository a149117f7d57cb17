import SwitchV32.Supervisor.Trap
import SwitchV32.Supervisor.Sbi

/-!
# SYSTEM instructions of the supervisor build

`supervisor/cpu_supervisor.c`, and the environment it makes for the interpreter.
-/

namespace SwitchV32.Supervisor

namespace CsrFunc

@[match_pattern] abbrev csrrw : U32 := 0x001#32
@[match_pattern] abbrev csrrs : U32 := 0x010#32
@[match_pattern] abbrev csrrc : U32 := 0x011#32
@[match_pattern] abbrev csrrwi : U32 := 0x101#32
@[match_pattern] abbrev csrrsi : U32 := 0x110#32
@[match_pattern] abbrev csrrci : U32 := 0x111#32

end CsrFunc

namespace CsrAddr

@[match_pattern] abbrev sstatus : U32 := 0x100#32
@[match_pattern] abbrev sie : U32 := 0x104#32
@[match_pattern] abbrev stvec : U32 := 0x105#32
@[match_pattern] abbrev scounteren : U32 := 0x106#32
@[match_pattern] abbrev senvcfg : U32 := 0x10B#32
@[match_pattern] abbrev sscratch : U32 := 0x140#32
@[match_pattern] abbrev sepc : U32 := 0x141#32
@[match_pattern] abbrev scause : U32 := 0x142#32
@[match_pattern] abbrev stval : U32 := 0x143#32
@[match_pattern] abbrev sip : U32 := 0x144#32
@[match_pattern] abbrev satp : U32 := 0x180#32

end CsrAddr

def csrReadAccess : U32 := 0xC00
def getCsrAccess (csrAddr : U32) : U32 := csrAddr &&& 0xC00
def csrSupervisorLevel : U32 := 0x100
def csrUserLevel : U32 := 0x000
def getCsrPrivilege (csrAddr : U32) : U32 := csrAddr &&& 0x300

/-- The switch of the supervisor level, `none` for an unknown register. -/
def findCsr (csrAddr : U32) : Option Reg :=
  match csrAddr with
  | CsrAddr.sstatus => some Reg.sstatus
  | CsrAddr.sie => some Reg.sie
  | CsrAddr.stvec => some Reg.stvec
  | CsrAddr.scounteren => some Reg.scounteren
  | CsrAddr.senvcfg => some Reg.senvcfg
  | CsrAddr.sscratch => some Reg.sscratch
  | CsrAddr.sepc => some Reg.sepc
  | CsrAddr.scause => some Reg.scause
  | CsrAddr.stval => some Reg.stval
  | CsrAddr.sip => some Reg.sip
  | CsrAddr.satp => some Reg.satp
  | _ => none

def csrWrite (func rs1Val rs1Imm : U32) : Option (U32 → U32) :=
  match func with
  | CsrFunc.csrrw => some fun _ => rs1Val
  | CsrFunc.csrrs => some fun csr => csr ||| rs1Val
  | CsrFunc.csrrc => some fun csr => csr &&& ~~~rs1Val
  | CsrFunc.csrrwi => some fun _ => rs1Imm
  | CsrFunc.csrrsi => some fun csr => csr ||| rs1Imm
  | CsrFunc.csrrci => some fun csr => csr &&& ~~~rs1Imm
  | _ => none

/-- The only writable bits of SIP and SIE; the other CSRs have no mask. -/
def csrMask (csrAddr x : U32) : U32 :=
  let x := if csrAddr = CsrAddr.sip then x &&& 1#32 <<< 1 else x
  if csrAddr = CsrAddr.sie then x &&& (1#32 <<< 9 ||| 1#32 <<< 5 ||| 1#32 <<< 1) else x

section
variable (trap : Sv32 → TrapCode → U32 → Except Stop Sv32)

/-- `*csr` with the pointer that was found, if one was. -/
def derefCsr (csr : Option Reg) : Except Stop Reg :=
  match csr with
  | some r => .ok r
  | none => .error .unassigned

/-- The part after the CSR was found. The read-only checks compare the 3-bit
`func` with the codes of `CsrFunc`. -/
def csrAccess (m : Sv32) (ins : U32) (csr : Option Reg) : Except Stop Sv32 := do
  let func := Ins.func ins
  let csrAddr := Ins.iImm ins
  let rs1Val := m.reg (Ins.rs1Reg ins)
  if getCsrAccess csrAddr = csrReadAccess then
    -- if read-set or read-clear without zero register as rs1
    if (func = CsrFunc.csrrs ∨ func = CsrFunc.csrrc) ∧ Ins.rs1Reg ins ≠ Reg.zero then
      return ← trap m .illIns ins
    -- if read-set-immediate or read-clear-immediate without zero immediate
    if (func = CsrFunc.csrrsi ∨ func = CsrFunc.csrrci) ∧ rs1Val ≠ 0 then
      return ← trap m .illIns ins
  let rs1Val := csrMask csrAddr rs1Val
  let rs1Imm := csrMask csrAddr (Ins.rs1 ins)
  let m ← match csrWrite func rs1Val rs1Imm with
    | some write => do
      let r ← derefCsr csr
      let m := m.setReg (Ins.rdReg ins) (m.reg r)
      pure (m.setReg r (write (m.reg r)))
    | none => pure m
  -- stvec "MODE" >= 2 is reserved: force Direct
  if csrAddr = CsrAddr.stvec then
    let r ← derefCsr csr
    if stvecMode (m.reg r) ≥ 2#32 then return m.setReg r (m.reg r &&& ~~~0x3#32)
    return m
  return m

/-- A user-level number leaves the pointer unassigned. -/
def vcoreSysType (m : Sv32) (ins : U32) : Except Stop Sv32 :=
  let func := Ins.func ins
  let imm := Ins.iImm ins
  if func = 0 then
    -- ENV
    if imm = 0x0 then do
      -- ECALL
      let m ← if m.core.mode = .supervisor then emuSbiCall m
        else trap m .ecallUMode (m.reg Reg.pc)
      return m.addPc 4
    else if imm = 0x1 then
      -- EBREAK
      if m.host.ctx.debug then threadsMgrHaltCores m else trap m .brkpt (m.reg Reg.pc)
    else trap m .illIns ins
  else if getCsrPrivilege imm = csrSupervisorLevel then
    if m.core.mode ≠ .supervisor then trap m .illIns ins
    else match findCsr imm with
      | some r => csrAccess trap m ins (some r)
      | none => trap m .illIns ins
  else if getCsrPrivilege imm = csrUserLevel then csrAccess trap m ins none
  else trap m .illIns ins

end

/-- The supervisor build with another function in the place of `dispatch_trap`. -/
def envWith (trap : Sv32 → TrapCode → U32 → Except Stop Sv32) : Env Platform where
  dispatchTrap := trap
  vcoreSysType := vcoreSysType trap
  checkInterrupts := checkInterrupts trap

def env : Env Platform := envWith dispatchTrap

end SwitchV32.Supervisor
