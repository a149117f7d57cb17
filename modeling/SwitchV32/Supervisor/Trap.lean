import SwitchV32.Cpu

/-!
# Traps and interrupts of the supervisor build

`csr.h` and `supervisor/trap.c`. The macros of `csr.h` that set or clear a bit
are expressions: used as a statement, such a macro stores nothing.
-/

namespace SwitchV32.Supervisor

-- ---------------------------------------------------------------------------
-- CSR fields
-- ---------------------------------------------------------------------------

def bit (x : U32) (k : Nat) : Bool := x &&& 1#32 <<< k != 0

def setSstatusSie (sstatus : U32) : U32 := sstatus ||| 1#32 <<< 1
def resetSstatusSie (sstatus : U32) : U32 := sstatus &&& ~~~(1#32 <<< 1)
def setSstatusSpie (sstatus : U32) : U32 := sstatus ||| 1#32 <<< 5
def resetSstatusSpie (sstatus : U32) : U32 := sstatus &&& ~~~(1#32 <<< 5)
def setSstatusSpp (sstatus : U32) : U32 := sstatus ||| 1#32 <<< 8
def resetSstatusSpp (sstatus : U32) : U32 := sstatus &&& ~~~(1#32 <<< 8)

def sstatusSie (sstatus : U32) : Bool := bit sstatus 1
def sstatusSpp (sstatus : U32) : Bool := bit sstatus 8

def sipSsip (sip : U32) : Bool := bit sip 1
def sipStip (sip : U32) : Bool := bit sip 5
def sipSeip (sip : U32) : Bool := bit sip 9

def sieSsie (sie : U32) : Bool := bit sie 1
def sieStie (sie : U32) : Bool := bit sie 5
def sieSeie (sie : U32) : Bool := bit sie 9

def stvecMode (stvec : U32) : U32 := stvec &&& 0x3
def stvecBase (stvec : U32) : U32 := stvec &&& 0xFFFFFFFC

def stvecModeDirect : U32 := 0
def stvecModeVectored : U32 := 1

-- ---------------------------------------------------------------------------
-- Trap entry
-- ---------------------------------------------------------------------------

section
variable {σ : Type}

/-- An expression statement: the value is computed and dropped. -/
@[simp] def discard (_ : U32) (m : Machine σ) : Machine σ := m

def getInterruptCode (code : TrapCode) : U32 := code.val &&& 0x7FFFFFFF

def savePrivilege (m : Machine σ) : Machine σ :=
  match m.core.mode with
  | .supervisor => discard (setSstatusSpp (m.reg Reg.sstatus)) m
  | .user =>
    let m := discard (resetSstatusSpp (m.reg Reg.sstatus)) m
    { m with core := { m.core with mode := .supervisor } }

def dispatchTrap (m : Machine σ) (code : TrapCode) (faultingVal : U32) :
    Except Stop (Machine σ) :=
  -- save old Interrupt Enable value and then reset interrupts if enabled
  let m :=
    if sstatusSie (m.reg Reg.sstatus) then
      discard (resetSstatusSie (m.reg Reg.sstatus)) (discard (setSstatusSpie (m.reg Reg.sstatus)) m)
    else discard (setSstatusSpie (m.reg Reg.sstatus)) m
  let m := m.setReg Reg.scause code.val
  -- save old privilege mode
  let m := savePrivilege m
  let m := m.setReg Reg.sepc (m.reg Reg.pc)
  if 0 ≤ code.val.toInt then
    let m := m.setReg Reg.stval faultingVal
    .ok (m.setReg Reg.pc (stvecBase (m.reg Reg.stvec)))
  else if stvecMode (m.reg Reg.stvec) = stvecModeDirect then
    .ok (m.setReg Reg.pc (stvecBase (m.reg Reg.stvec)))
  else if stvecMode (m.reg Reg.stvec) = stvecModeVectored then
    .ok (m.setReg Reg.pc (stvecBase (m.reg Reg.stvec) + getInterruptCode code * 4))
  else .error .abort

/-- `trap` is `dispatchTrap`; nothing returns between two of the three tests. -/
def checkInterrupts (trap : Machine σ → TrapCode → U32 → Except Stop (Machine σ)) (m : Machine σ) :
    Except Stop (Machine σ) := do
  -- never process interrupts during LL/SC instructions
  if m.core.llScFlag then return m
  -- if in supervisor mode ignore interrupts if SIE bit in SSTATUS is 0
  if m.core.mode = .supervisor ∧ sstatusSie (m.reg Reg.sstatus) = false then return m
  let m ← if sieSeie (m.reg Reg.sie) && sipSeip (m.reg Reg.sip)
    then trap m .supervisorExternalInterrupt resetFaultVal else pure m
  let m ← if sieSsie (m.reg Reg.sie) && sipSsip (m.reg Reg.sip)
    then trap m .supervisorSoftwareInterrupt resetFaultVal else pure m
  if sieStie (m.reg Reg.sie) && sipStip (m.reg Reg.sip)
    then trap m .supervisorTimerInterrupt resetFaultVal else return m

end

end SwitchV32.Supervisor
