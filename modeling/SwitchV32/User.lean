import SwitchV32.Platform
import SwitchV32.Supervisor.Sys

/-!
# The user build

`user/trap.c` and `user/cpu_user.c`. System calls are a parameter: they act on
the host's files and clocks as well as on the machine. `emu_system_call` of
`user/emu.c` is the instance whose effect on the machine is given.
-/

namespace SwitchV32

/-- What a system call answers and writes: `a0`, the program break and guest memory. -/
structure SyscallResult where
  a0 : U32
  elfBrk : U32
  byte : Nat → U8

namespace User

/-- `emu_system_call`, with what the host does given. -/
def emuSystemCall (r : SyscallResult) (m : Sv32) : Except Stop Sv32 :=
  .ok (({ m with
    core := { m.core with elfBrk := r.elfBrk }
    vmem := { m.vmem with byte := r.byte } } : Sv32).setReg Reg.a0 r.a0)

variable (emuSystemCall : Sv32 → Except Stop Sv32)

def dispatchTrap (m : Sv32) (code : TrapCode) (_faultingVal : U32) : Except Stop Sv32 :=
  match code with
  | .illIns => .error (.exit exitFailure)
  | .brkpt => threadsMgrHaltCores m
  | .ecallUMode => emuSystemCall m
  | .insPageFault | .loadPageFault | .storeAmoPageFault => .ok m
  | _ => .error .abort

/-- Only the immediate is looked at. -/
def vcoreSysType (m : Sv32) (ins : U32) : Except Stop Sv32 := do
  let imm := Ins.iImm ins
  if imm = 0x0 then
    let m ← dispatchTrap emuSystemCall m .ecallUMode resetFaultVal
    return m.addPc 4
  else if imm = 0x1 then dispatchTrap emuSystemCall m .brkpt (m.reg Reg.pc)
  else dispatchTrap emuSystemCall m .illIns ins

def env : Env Platform where
  dispatchTrap := dispatchTrap emuSystemCall
  vcoreSysType := vcoreSysType emuSystemCall
  checkInterrupts := .ok

end User

inductive Build
  | user
  | supervisor
  deriving DecidableEq, Repr

def Build.env (emuSystemCall : Sv32 → Except Stop Sv32) : Build → Env Platform
  | .user => User.env emuSystemCall
  | .supervisor => Supervisor.env

end SwitchV32
