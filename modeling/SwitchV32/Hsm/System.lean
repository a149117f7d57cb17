import SwitchV32.Cthread.Exec
import SwitchV32.Supervisor.Sbi

/-!
# Harts that start harts

The core threads of all records, and the calls of `hart_start` that are under
way. A call reads the state of its target, initialises the target's `VCore`
without the mutex, and signals the start; other threads run in between. A core
whose assertion fails takes no more steps; the real process ends there.
-/

namespace SwitchV32

structure HartArgs where
  hartId : U32
  startAddr : U32
  opaqueArg : U32
  deriving DecidableEq

def HartArgs.init (args : HartArgs) : VCoreInit :=
  { pc := args.startAddr, sp := 0, id := args.hartId, opaqueArg := args.opaqueArg, gp := 0
    elfBrk := 0 }

def HartArgs.target (args : HartArgs) : Nat := args.hartId.toNat

def HartArgs.Holds (args : HartArgs) (core : VCore) : Prop :=
  core.regs Reg.pc = args.startAddr ∧ core.regs Reg.a0 = args.hartId ∧
    core.regs Reg.a1 = args.opaqueArg

theorem HartArgs.holds_init (args : HartArgs) : args.Holds (vcoreInit (some args.init)) :=
  ⟨rfl, rfl, rfl⟩

theorem HartArgs.Holds.of_regs {args : HartArgs} {core core' : VCore} (h : args.Holds core)
    (heq : core'.regs = core.regs) : args.Holds core' := by
  simpa only [HartArgs.Holds, heq] using h

inductive HartCall
  | idle
  /-- has read a state that lets it go on -/
  | init (args : HartArgs)
  /-- has initialised the `VCore` of its target -/
  | signal (args : HartArgs)
  /-- about to return -/
  | done (code : U32)
  deriving DecidableEq

/-- `hart_start` up to the read of the target's state. -/
def hartStart (cores memorySize : Nat) (cthread : Nat → Cthread) (core : VCore) : HartCall :=
  let args : HartArgs := ⟨core.regs Reg.a0, core.regs Reg.a1, core.regs Reg.a2⟩
  if cores ≤ args.hartId.toNat then .done Supervisor.SbiError.invalidParam
  else if memorySize ≤ args.startAddr.toNat then .done Supervisor.SbiError.invalidAddress
  else
    let state := cthreadGetHsmState (cthread args.target)
    if state = .startPending ∨ state = .started then .done Supervisor.SbiError.alreadyAvailable
    else .init args

/-- Run as one step, the call is these three parts. -/
theorem hsmExt_hartStart (m : Sv32) (h : m.reg Reg.a6 = 0) :
    Supervisor.hsmExt m =
      match hartStart m.host.ctx.cores m.vmem.size m.cthread m.core with
      | .done code => .ok (m.setReg Reg.a0 code)
      | .init args => do
        let m ← Supervisor.Machine.vcoreInitAt m args.target args.init
        let m ← m.onCthread args.target cthreadSignalStart
        return m.setReg Reg.a0 Supervisor.SbiError.success
      | _ => .ok m := by
  have ha0 : m.core.regs Reg.a0 = m.reg Reg.a0 := rfl
  have ha1 : m.core.regs Reg.a1 = m.reg Reg.a1 := rfl
  have ha2 : m.core.regs Reg.a2 = m.reg Reg.a2 := rfl
  simp only [Supervisor.hsmExt, h, hartStart, ha0, ha1, ha2, HartArgs.target]
  by_cases hid : m.host.ctx.cores ≤ (m.reg Reg.a0).toNat
  · simp only [hid, if_true]
    rfl
  · by_cases haddr : m.vmem.size ≤ (m.reg Reg.a1).toNat
    · simp only [hid, haddr, if_true, if_false]
      rfl
    · simp only [hid, haddr, if_false]
      by_cases hstate : cthreadGetHsmState (m.cthread (m.reg Reg.a0).toNat) = .startPending ∨
          cthreadGetHsmState (m.cthread (m.reg Reg.a0).toNat) = .started
      · simp only [hstate, if_true]
        rfl
      · simp only [hstate, if_false]
        rfl

structure HsmSys where
  cores : Nat
  memorySize : Nat
  node : Nat → CoreSys
  call : Nat → HartCall

inductive HsmLabel
  /-- a step of the threads around the record of core `j` -/
  | node (j : Nat) (l : CoreLabel)
  /-- core `i` begins a call -/
  | hartStart (i : Nat)
  /-- `vcore_init` of its target -/
  | hartInit (i : Nat)
  /-- `cthread_signal_start` on its target -/
  | hartSignal (i : Nat)
  deriving DecidableEq

def HartCall.free : HartCall → Bool
  | .idle | .done _ => true
  | _ => false

namespace HsmSys

-- ---------------------------------------------------------------------------
-- Steps
-- ---------------------------------------------------------------------------

def onCt (s : HsmSys) (j : Nat) (f : Cthread → Cthread) : Nat → CoreSys :=
  Function.update s.node j { s.node j with ct := f (s.node j).ct }

inductive Step : HsmSys → HsmLabel → HsmSys → Prop
  /-- The instruction that makes the call is over when the call has returned. -/
  | node {s : HsmSys} (j) (l) {n : CoreSys} (hj : j < s.cores)
      (hcall : l = .guest → (s.call j).free = true) (h : CoreSys.Step (s.node j) l n) :
    Step s (.node j l)
      { s with
        node := Function.update s.node j n
        call := if l = .guest then Function.update s.call j .idle else s.call }
  | hartStart {s : HsmSys} (i) (site) (hi : i < s.cores) (hcore : (s.node i).core = .instr site)
      (hcall : s.call i = .idle) :
    Step s (.hartStart i)
      { s with
        call := Function.update s.call i
          (SwitchV32.hartStart s.cores s.memorySize (fun j => (s.node j).ct) (s.node i).ct.core) }
  | hartInit {s : HsmSys} (i) {args : HartArgs} (hcall : s.call i = .init args)
      (ha : (s.node args.target).Alive) :
    Step s (.hartInit i)
      { s with
        node := s.onCt args.target fun ct => { ct with core := vcoreInit (some args.init) }
        call := Function.update s.call i (.signal args) }
  | hartSignal {s : HsmSys} (i) {args : HartArgs} (hcall : s.call i = .signal args)
      (ha : (s.node args.target).Alive) :
    Step s (.hartSignal i)
      { s with
        node := s.onCt args.target cthreadSignalStart
        call := Function.update s.call i (.done Supervisor.SbiError.success) }

abbrev Run := Lts.Run Step

structure Start (s : HsmSys) : Prop where
  node : ∀ j, (s.node j).Init
  call : ∀ i, s.call i = .idle

-- ---------------------------------------------------------------------------
-- Steps by computation
-- ---------------------------------------------------------------------------

def next (core : VCore) (s : HsmSys) : HsmLabel → Option HsmSys
  | .node j l =>
    if j < s.cores ∧ (l = .guest → (s.call j).free = true) then
      ((s.node j).exec core l).map fun n =>
        { s with
          node := Function.update s.node j n
          call := if l = .guest then Function.update s.call j .idle else s.call }
    else none
  | .hartStart i =>
    match s.call i, (s.node i).core with
    | .idle, .instr _ =>
      if i < s.cores then
        some { s with
          call := Function.update s.call i
            (SwitchV32.hartStart s.cores s.memorySize (fun j => (s.node j).ct) (s.node i).ct.core) }
      else none
    | _, _ => none
  | .hartInit i =>
    match s.call i with
    | .init args =>
      if (s.node args.target).Alive then
        some { s with
          node := s.onCt args.target fun ct => { ct with core := vcoreInit (some args.init) }
          call := Function.update s.call i (.signal args) }
      else none
    | _ => none
  | .hartSignal i =>
    match s.call i with
    | .signal args =>
      if (s.node args.target).Alive then
        some { s with
          node := s.onCt args.target cthreadSignalStart
          call := Function.update s.call i (.done Supervisor.SbiError.success) }
      else none
    | _ => none

theorem next_step {core : VCore} {s s' : HsmSys} {l} (h : next core s l = some s') :
    Step s l s' := by
  cases l with
  | node j l =>
    simp only [next] at h
    split at h
    · rename_i hj
      obtain ⟨n, hn, rfl⟩ := Option.map_eq_some_iff.mp h
      exact .node j l hj.1 hj.2 (CoreSys.exec_step hn)
    · cases h
  | hartStart i =>
    simp only [next] at h
    split at h
    · split at h <;> cases h
      exact .hartStart i _ ‹_› ‹_› ‹_›
    · cases h
  | hartInit i =>
    simp only [next] at h
    split at h
    · split at h <;> cases h
      exact .hartInit i ‹_› ‹_›
    · cases h
  | hartSignal i =>
    simp only [next] at h
    split at h
    · split at h <;> cases h
      exact .hartSignal i ‹_› ‹_›
    · cases h

end HsmSys

end SwitchV32
