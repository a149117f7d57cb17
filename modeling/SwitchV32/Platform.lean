import SwitchV32.Cthread

/-!
# The core records of the process

`threads_mgr.cthreads` as seen from one running core, whose own registers are
`Machine.core`: a function that takes a pointer into the table reaches the
running core through the same record.
-/

namespace SwitchV32

/-- The options of `Args_Context` that the cores look at. -/
structure Ctx where
  cores : Nat
  debug : Bool

structure Platform where
  ctx : Ctx
  /-- The running core's index. -/
  hart : Nat
  /-- The record at `hart` has an outdated `core`: `Machine.core` is current. -/
  cthreads : Nat → Cthread

abbrev Sv32 := Machine Platform

def Machine.cthread (m : Sv32) (i : Nat) : Cthread :=
  if i = m.host.hart then { m.host.cthreads i with core := m.core } else m.host.cthreads i

def Machine.putCthread (m : Sv32) (i : Nat) (ct : Cthread) : Sv32 :=
  { m with
    core := if i = m.host.hart then ct.core else m.core
    host := { m.host with cthreads := Function.update m.host.cthreads i ct } }

/-- A call on `&threads_mgr.cthreads[i]`; the table has `ctx.cores` records. -/
def Machine.onCthread (m : Sv32) (i : Nat) (f : Cthread → Cthread) : Except Stop Sv32 :=
  if i < m.host.ctx.cores then .ok (m.putCthread i (f (m.cthread i))) else .error .fault

/-- A process of one core that was started at address 0 of a page, with the
register values given by `regs`. -/
def Sv32.boot (words : List U32) (regs : List (Reg × U32)) : Sv32 where
  core := regs.foldl (fun core r => core.setReg r.1 r.2) (vcoreInit none)
  vmem := .ofWords words
  host :=
    { ctx := { cores := 1, debug := false }
      hart := 0
      cthreads := fun _ => ⟨.started, .start, .start, vcoreInit none⟩ }

def threadsMgrHaltCores (m : Sv32) : Except Stop Sv32 :=
  (List.range m.host.ctx.cores).foldlM (fun m i => m.onCthread i cthreadSignalHalt) m

end SwitchV32
