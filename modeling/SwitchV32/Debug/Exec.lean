import SwitchV32.Debug.System

/-!
# Steps under a debugger by computation

The step relation of `Debug.System` as a function, for runs that are computed:
the core threads, the stub and its `vCont` packets. Every instruction leaves
the given core.
-/

namespace SwitchV32.DebugSys

def exec (core : VCore) (s : DebugSys) : DebugLabel → Option DebugSys
  | .core j => if j < s.cores then ((s.node j).exec core .core).map (s.setNode j) else none
  | .guest j vmem =>
    if j < s.cores ∧ (s.call j).free = true ∧ vmem.size = s.vmem.size then
      ((s.node j).exec core .guest).map fun n =>
        { (s.setNode j n).setCall j (.hart .idle) with vmem }
    else none
  | .vCont action threadId =>
    if s.stub = .idle then
      some { s with stub :=
        match SwitchV32.vCont s.cores s.selectedCore action threadId with
        | none => .idle
        | some act => s.fromBreakpoint 0 act }
    else none
  | .interrupt => if s.stub = .poll then some { s with stub := .haltLock } else none
  | .stub =>
    match s.stubMove with
    | some (.goto vmem t stub) => some { s with vmem, breakpoints := t, stub }
    | some (.signal j l next) =>
      ((s.node j).exec core l).map fun n => { s.setNode j n with stub := next n }
    | none => none
  | _ => none

theorem exec_step {core : VCore} {s s' : DebugSys} {l} (h : exec core s l = some s') :
    Step s l s' := by
  cases l with
  | core j =>
    simp only [exec] at h
    split at h
    · obtain ⟨n, hn, rfl⟩ := Option.map_eq_some_iff.mp h
      exact .core j ‹_› (CoreSys.exec_step hn)
    · cases h
  | guest j vmem =>
    simp only [exec] at h
    split at h
    · rename_i hj
      obtain ⟨n, hn, rfl⟩ := Option.map_eq_some_iff.mp h
      exact .guest j vmem hj.1 hj.2.1 hj.2.2 (CoreSys.exec_step hn)
    · cases h
  | vCont action threadId =>
    simp only [exec] at h
    split at h <;> cases h
    exact .vCont action threadId ‹_›
  | interrupt =>
    simp only [exec] at h
    split at h <;> cases h
    exact .interrupt ‹_›
  | stub =>
    simp only [exec] at h
    split at h
    · cases h
      exact .stubGoto ‹_›
    · obtain ⟨n, hn, rfl⟩ := Option.map_eq_some_iff.mp h
      exact .stubSignal ‹_› (CoreSys.exec_step hn)
    · cases h
  | _ => cases h

end SwitchV32.DebugSys
