import SwitchV32.Platform

/-!
# SBI calls

`supervisor/sbi.c`: the base and HSM extensions, run as one step. `hsm_ext`
stores through pointers into the table of records and may reach the calling
core that way.
-/

namespace SwitchV32.Supervisor

namespace SbiError

def success : U32 := 0
def notSupported : U32 := -2
def invalidParam : U32 := -3
def invalidAddress : U32 := -5
def alreadyAvailable : U32 := -6

end SbiError

@[match_pattern] abbrev baseEid : U32 := 0x10#32
@[match_pattern] abbrev hsmEid : U32 := 0x48534D#32

def supportedExt : List U32 := [baseEid, hsmEid]

def hsmRetentiveSuspend : U32 := 0x00000000
def hsmNonRetentiveSuspend : U32 := 0x80000000

/-- The functions 1, 2, 4, 5 and 6 identify the implementation and the machine. -/
def baseExt (m : Sv32) : Sv32 :=
  match m.reg Reg.a6 with
  | 0#32 => (m.setReg Reg.a1 0x03000000).setReg Reg.a0 SbiError.success
  | 3#32 =>
    let found := supportedExt.contains (m.reg Reg.a0)
    (m.setReg Reg.a0 (if found then 1 else 0)).setReg Reg.a0 SbiError.success
  | 1#32 | 2#32 | 4#32 | 5#32 | 6#32 => (m.setReg Reg.a1 0).setReg Reg.a0 SbiError.success
  | _ => m.setReg Reg.a0 SbiError.notSupported

def Machine.vcoreInitAt (m : Sv32) (i : Nat) (init : VCoreInit) : Except Stop Sv32 :=
  m.onCthread i fun ct => { ct with core := vcoreInit (some init) }

def hsmExt (m : Sv32) : Except Stop Sv32 :=
  let hartId := m.reg Reg.a0
  let startAddr := m.reg Reg.a1
  let suspendType := m.reg Reg.a0
  let init : VCoreInit :=
    { pc := startAddr, sp := 0, id := hartId, opaqueArg := m.reg Reg.a2, gp := 0, elfBrk := 0 }
  match m.reg Reg.a6 with
  -- Hart Start
  | 0#32 =>
    if m.host.ctx.cores ≤ hartId.toNat then return m.setReg Reg.a0 SbiError.invalidParam
    else if m.vmem.size ≤ startAddr.toNat then return m.setReg Reg.a0 SbiError.invalidAddress
    else
      let state := cthreadGetHsmState (m.cthread hartId.toNat)
      if state = .startPending ∨ state = .started then
        return m.setReg Reg.a0 SbiError.alreadyAvailable
      else do
        let m ← Machine.vcoreInitAt m hartId.toNat init
        let m ← m.onCthread hartId.toNat cthreadSignalStart
        return m.setReg Reg.a0 SbiError.success
  -- Hart Stop
  | 1#32 => do
    let m ← m.onCthread m.core.coreIdx.toNat cthreadSignalStop
    return m.setReg Reg.a0 SbiError.success
  | 2#32 =>
    if m.host.ctx.cores ≤ hartId.toNat then return m.setReg Reg.a0 SbiError.invalidParam
    else
      return (m.setReg Reg.a1 (cthreadGetHsmState (m.cthread hartId.toNat)).val).setReg Reg.a0
        SbiError.success
  | 3#32 =>
    if m.vmem.size ≤ startAddr.toNat then return m.setReg Reg.a0 SbiError.invalidAddress
    else if suspendType = hsmRetentiveSuspend then do
      let m ← m.onCthread hartId.toNat cthreadSignalSuspend
      return m.setReg Reg.a0 SbiError.success
    else if suspendType = hsmNonRetentiveSuspend then do
      let m ← Machine.vcoreInitAt m hartId.toNat init
      return m.setReg Reg.a0 SbiError.success
    else return m.setReg Reg.a0 SbiError.invalidParam
  | _ => return m.setReg Reg.a0 SbiError.notSupported

def emuSbiCall (m : Sv32) : Except Stop Sv32 :=
  match m.reg Reg.a7 with
  | baseEid => return baseExt m
  | hsmEid => hsmExt m
  | _ => return m.setReg Reg.a0 SbiError.notSupported

end SwitchV32.Supervisor
