import SwitchV32.Cthread.Exec
import SwitchV32.Cpu.ZeroReg

/-!
# `x0` as others see it

The core thread of `Cthread.System` with the interpreter in it: each instruction
runs on whatever guest memory and host the other threads have left. The
debugger writes registers other than `x0`, and a `hart_start` of another hart
may start the record over. The slot of `x0` is cleared at the top of the loop
only, so it is what the last instruction made of it when `vcore_run` is left.
-/

namespace SwitchV32

structure ZeroSys where
  sys : CoreSys
  /-- What the last instruction ran on; nothing reads it. -/
  last : Option Sv32

inductive ZeroLabel
  /-- a signal, or a section or an exit test of the core thread -/
  | thread (l : CoreLabel)
  | guest (vmem : Mem) (host : Platform) (r : SyscallResult)
  /-- `check_interrupts`, after an exit test that goes on -/
  | interrupts (vmem : Mem) (host : Platform) (r : SyscallResult)
  | writeReg (r : Reg) (v : U32)
  | init (init : VCoreInit)

namespace ZeroSys

def machine (s : ZeroSys) (vmem : Mem) (host : Platform) : Sv32 := ⟨s.sys.ct.core, vmem, host⟩

/-- The exit flag is the threads' business. -/
def setCore (s : ZeroSys) (core : VCore) : CoreSys :=
  { s.sys with
    ct := { s.sys.ct with core := { core with atomicExitLoop := s.sys.ct.core.atomicExitLoop } } }

inductive Step (b : Build) : ZeroSys → ZeroLabel → ZeroSys → Prop
  | thread {l sys} (hl : l ≠ .guest) (h : CoreSys.Step s.sys l sys) :
    Step b s (.thread l) { s with sys }
  | guest {site m} (vmem host r) (ha : s.sys.Alive) (hc : s.sys.core = .instr site)
      (h : vcoreExecute (b.env (User.emuSystemCall r)) (s.machine vmem host) = .ok m) :
    Step b s (.guest vmem host r)
      { sys := { s.setCore m.core with core := .test site }, last := some (s.machine vmem host) }
  | interrupts {site m} (vmem host r) (ha : s.sys.Alive) (hc : s.sys.core = .instr site)
      (h : (b.env (User.emuSystemCall r)).checkInterrupts (s.machine vmem host) = .ok m) :
    Step b s (.interrupts vmem host r) { s with sys := s.setCore m.core }
  | writeReg (r v) (hr : r ≠ Reg.zero) :
    Step b s (.writeReg r v) { s with sys := s.setCore (s.sys.ct.core.setReg r v) }
  | init (init) :
    Step b s (.init init)
      { s with sys := { s.sys with ct := { s.sys.ct with core := vcoreInit (some init) } } }

theorem Step.coreStep {b : Build} {s s' : ZeroSys} (h : Step b s (.guest vmem host r) s') :
    CoreSys.Step s.sys .guest s'.sys := by
  cases h with
  | guest _ _ _ ha hc _ => exact .guest _ _ ha hc rfl

abbrev Run (b : Build) (s₀ : ZeroSys) (t : List (ZeroSys × ZeroLabel)) (s : ZeroSys) : Prop :=
  Lts.Run (Step b) s₀ t s

def Init (s : ZeroSys) : Prop := s.sys.Init ∧ s.last = none

-- ---------------------------------------------------------------------------
-- Observations
-- ---------------------------------------------------------------------------

/-- What the debugger reads while the core thread is outside `vcore_run`. -/
def DebuggerSeesZero (s : ZeroSys) : Prop :=
  s.sys.core.inRun = false → s.sys.ct.core.regs Reg.zero = 0

def GuestSeesZero (s : ZeroSys) : ZeroLabel → Prop
  | .guest vmem host _ =>
    let m := s.machine vmem host
    ∀ ins, memRw m.vmem (m.reg Reg.pc) = .ok ins →
      ∀ o ∈ operands (m.setReg Reg.zero 0) ins, o.1 = Reg.zero → o.2 = 0
  | _ => True

/-- No JALR links to the `x0` that it jumps by, and when `vcore_run` is left the last instruction
was none with a value for `x0`. -/
def Harmless (b : Build) (s : ZeroSys) : ZeroLabel → Prop
  | .guest vmem host _ =>
    let m := s.machine vmem host
    ∀ ins, memRw m.vmem (m.reg Reg.pc) = .ok ins → ¬ SelfLink (m.setReg Reg.zero 0) ins
  | .thread .core =>
    ∀ site m, s.sys.core = .test site → s.sys.ct.core.atomicExitLoop = true → s.last = some m →
      b.ZeroDest m
  | _ => True

theorem guestSeesZero_iff (s : ZeroSys) (vmem host r) :
    s.GuestSeesZero (.guest vmem host r) ↔
      let m := s.machine vmem host
      ∀ ins, memRw m.vmem (m.reg Reg.pc) = .ok ins → ¬ SelfLink (m.setReg Reg.zero 0) ins := by
  have hclear : ((s.machine vmem host).setReg Reg.zero 0).ZeroClear :=
    Machine.reg_setReg_self _ _ _
  simp only [GuestSeesZero, operands_zero hclear]

theorem Harmless.guestSeesZero {b : Build} {s : ZeroSys} {l : ZeroLabel} (h : s.Harmless b l) :
    s.GuestSeesZero l := by
  cases l with
  | guest vmem host r => exact (guestSeesZero_iff s vmem host r).mpr h
  | _ => trivial

-- ---------------------------------------------------------------------------
-- The invariant
-- ---------------------------------------------------------------------------

/-- The slot is clear, except inside an iteration; at the exit test it depends on the last
instruction. -/
def Slot (b : Build) (s : ZeroSys) : Prop :=
  match s.sys.core with
  | .instr _ => True
  | .test _ => ∃ m, s.last = some m ∧ (b.ZeroDest m → s.sys.ct.core.regs Reg.zero = 0)
  | _ => s.sys.ct.core.regs Reg.zero = 0

theorem slot_iff {b : Build} {s : ZeroSys} (h : s.sys.core.inRun = false) :
    s.Slot b ↔ s.sys.ct.core.regs Reg.zero = 0 := by
  unfold Slot
  cases hc : s.sys.core with
  | instr | test =>
    rw [hc] at h
    cases h
  | _ => rfl

theorem slot_of_instr {b : Build} {s : ZeroSys} (h : s.sys.core = .instr site) : s.Slot b := by
  simp only [Slot, h]

theorem core_moves {s s' : CoreSys} (h : CoreSys.Step s l s') (hl : l ≠ .guest) :
    s'.core = s.core ∨ (∃ site, s'.core = .instr site) ∨
      (s.core.inRun = false ∧ s'.core.inRun = false) ∨
      ∃ site, l = .core ∧ s.core = .test site ∧ s.ct.core.atomicExitLoop = true ∧
        s'.core.inRun = false := by
  cases h.outcome with
  | start | again => exact .inr (.inl ⟨_, rfl⟩)
  | blockStep hc => exact .inr (.inr (.inl ⟨by rw [hc]; rfl, rfl⟩))
  | block hc =>
    refine .inr (.inr (.inl ⟨?_, rfl⟩))
    obtain ⟨hc, -⟩ | hc := hc <;> rw [hc] <;> rfl
  | unblock signal hc =>
    simp only [afterWait]
    split
    · exact .inr (.inl ⟨_, rfl⟩)
    · exact .inr (.inr (.inl ⟨by rw [hc]; rfl, rfl⟩))
  | exited site hc hexit => exact .inr (.inr (.inr ⟨site, rfl, hc, hexit, rfl⟩))
  | locked site hc | hotLoop hc => exact .inr (.inr (.inl ⟨by rw [hc]; rfl, rfl⟩))
  | guest => exact absurd rfl hl
  | _ => exact .inl rfl

theorem Step.slot {b : Build} {s s' : ZeroSys} {l : ZeroLabel} (hs : s.Slot b)
    (hP : s.Harmless b l) (h : Step b s l s') : s'.Slot b := by
  cases h with
  | @thread l sys hl h =>
    have hregs := h.regs hl
    obtain hcore | ⟨site, hcore⟩ | ⟨hout, hout'⟩ | ⟨site, rfl, hcore, hexit, hout⟩ :=
      core_moves h hl
    · simpa only [Slot, hcore, hregs] using hs
    · exact slot_of_instr hcore
    · refine (slot_iff hout').mpr ?_
      rw [hregs]
      exact (slot_iff hout).mp hs
    · refine (slot_iff hout).mpr ?_
      rw [hregs]
      simp only [Slot, hcore] at hs
      obtain ⟨m, hlast, hzero⟩ := hs
      exact hzero (hP site m hcore hexit hlast)
  | guest vmem host r _ _ h =>
    refine ⟨s.machine vmem host, rfl, fun hdest => ?_⟩
    exact b.vcoreExecute_zero r _ hdest _ h
  | interrupts _ _ _ _ hc => exact slot_of_instr hc
  | writeReg r v hr =>
    have hzero : (s.sys.ct.core.setReg r v).regs Reg.zero = s.sys.ct.core.regs Reg.zero :=
      Function.update_of_ne (Ne.symm hr) _ _
    simpa only [Slot, setCore, hzero] using hs
  | init init =>
    simp only [Slot] at hs ⊢
    split
    · trivial
    · rename_i hc
      rw [hc] at hs
      obtain ⟨m, hlast, -⟩ := hs
      exact ⟨m, hlast, fun _ => rfl⟩
    · rfl

theorem Init.slot {b : Build} {s : ZeroSys} (h : s.Init) : s.Slot b := by
  obtain ⟨oldSignal, -, init, hsys⟩ := h.1.eq
  refine (slot_iff ?_).mpr ?_
  · rw [hsys]
    rfl
  · rw [hsys]
    cases init <;> rfl

-- ---------------------------------------------------------------------------
-- Runs
-- ---------------------------------------------------------------------------

/-- In a run of harmless steps `x0` is 0 for the debugger and for every instruction. -/
theorem zero_observed (b : Build) {s₀ s : ZeroSys} {t : List (ZeroSys × ZeroLabel)}
    (h0 : s₀.Init) (hrun : Run b s₀ t s) (ht : Lts.Every (Harmless b) t) :
    s.DebuggerSeesZero ∧ Lts.Every GuestSeesZero t := by
  have hslot : s.Slot b := hrun.inv (Slot b) (fun _ _ _ => Step.slot) ht h0.slot
  exact ⟨fun hout => (slot_iff hout).mp hslot, ht.mono fun _ _ h => h.guestSeesZero⟩

-- ---------------------------------------------------------------------------
-- Single steps
-- ---------------------------------------------------------------------------

def stepInit : ZeroSys := ⟨⟨⟨.halted, .halt, .start, vcoreInit none⟩, .fsm, .idle⟩, none⟩

theorem stepInit_init : stepInit.Init := ⟨⟨.started, none, _, rfl, rfl⟩, rfl⟩

def stepMachine (word : U32) : Sv32 :=
  { Sv32.boot [word] [] with core := { vcoreInit none with atomicExitLoop := true } }

theorem stepRun {word : U32} {m : Sv32} (hfetch : memRw (stepMachine word).vmem 0 = .ok word)
    (h : vcoreExecute (User.env (User.emuSystemCall ⟨0, 0, fun _ => 0⟩)) (stepMachine word) =
      .ok m) :
    ∃ t s, Run .user stepInit t s ∧ s.sys.core.inRun = false ∧
      s.sys.ct.core.regs = m.core.regs ∧
      (Lts.Every GuestSeesZero t → ¬ SelfLink ((stepMachine word).setReg Reg.zero 0) word) ∧
      (Build.user.ZeroDest (stepMachine word) →
        ¬ SelfLink ((stepMachine word).setReg Reg.zero 0) word → Lts.Every (Harmless .user) t) := by
  have halive {ct : Cthread} {core : CoreLoc} {debug : DebugLoc}
      (h : core ≠ .aborted ∧ debug ≠ .aborted) : CoreSys.Alive ⟨ct, core, debug⟩ := h
  have h1 : Run .user stepInit _
      ⟨⟨⟨.halted, .step, .start, (stepMachine word).core⟩, .fsm, .stepStepping⟩, none⟩ :=
    .one (.thread (by decide) (.signalStep (halive (by decide)) rfl rfl))
  have h2 : Run .user stepInit _
      ⟨⟨⟨.stepping, .step, .start, (stepMachine word).core⟩, .waiting .step, .stepStepping⟩,
        none⟩ :=
    h1.snoc (.thread (by decide) (.fsm (halive (by decide)) rfl))
  have h3 : Run .user stepInit _
      ⟨⟨⟨.stepping, .halt, .start, (stepMachine word).core⟩, .waiting .step, .stepHalted⟩, none⟩ :=
    h2.snoc (.thread (by decide) (.stepWake (halive (by decide)) (.inl rfl)))
  have h4 : Run .user stepInit _
      ⟨⟨⟨.stepping, .halt, .start, (stepMachine word).core⟩, .instr .step, .stepHalted⟩, none⟩ :=
    h3.snoc (.thread (by decide) (.wake .step (halive (by decide)) rfl))
  have h5 := h4.snoc (.guest (stepMachine word).vmem (stepMachine word).host ⟨0, 0, fun _ => 0⟩
    (halive (by decide)) rfl h)
  have h6 := h5.snoc (.thread (by decide) (.test .step ⟨by rintro ⟨⟩, by rintro ⟨⟩⟩ rfl))
  refine ⟨_, _, h6, rfl, rfl, fun hsees => ?_, fun hdest hlink => ?_⟩
  · simp only [Lts.every_append, Lts.every_cons] at hsees
    exact (guestSeesZero_iff _ _ _ _).mp hsees.1.2.1 word hfetch
  · simp only [Lts.every_append, Lts.every_cons]
    have hguest {ins : U32} (hins : memRw (stepMachine word).vmem 0 = .ok ins) :
        ¬ SelfLink ((stepMachine word).setReg Reg.zero 0) ins := by
      cases hfetch.symm.trans hins
      exact hlink
    refine ⟨⟨⟨⟨⟨⟨trivial, Lts.every_nil⟩, ?_, Lts.every_nil⟩, trivial, Lts.every_nil⟩, ?_,
      Lts.every_nil⟩, fun _ => hguest, Lts.every_nil⟩, ?_, Lts.every_nil⟩
    · rintro _ _ ⟨⟩
    · rintro _ _ ⟨⟩
    · rintro _ _ - - ⟨⟩
      exact hdest

/-- `addi x5, x0, 7` -/
theorem zero_observed_addi :
    ∃ t s, Run .user stepInit t s ∧ s.sys.core.inRun = false ∧ s.sys.ct.core.regs 5 = 7 ∧
      s.DebuggerSeesZero ∧ Lts.Every GuestSeesZero t := by
  obtain ⟨t, s, hrun, hout, hregs, -, hharmless⟩ :=
    stepRun (show memRw (stepMachine 0x00700293).vmem 0 = .ok 0x00700293 by decide) rfl
  have hdest : Build.user.ZeroDest (stepMachine 0x00700293) := by
    intro ins hins hrd
    have hword : memRw (stepMachine 0x00700293).vmem 0 = .ok 0x00700293 := by decide
    cases hword.symm.trans hins
    exact absurd hrd (by decide)
  have ht := hharmless hdest fun hlink => absurd hlink.1 (by decide)
  refine ⟨t, s, hrun, hout, ?_, zero_observed .user stepInit_init hrun ht⟩
  rw [hregs]
  decide

/-- `addi x0, x0, 7` is seen by the debugger, `jalr x0, 0(x0)` sees its own link. -/
theorem zero_observed_fails :
    stepInit.Init ∧ (∃ t s, Run .user stepInit t s ∧ s.sys.core.inRun = false ∧
      s.sys.ct.core.regs Reg.zero = 7 ∧ ¬ s.DebuggerSeesZero) ∧
      ∃ t s, Run .user stepInit t s ∧ ¬ Lts.Every GuestSeesZero t := by
  refine ⟨stepInit_init, ?_, ?_⟩
  · obtain ⟨t, s, hrun, hout, hregs, -, -⟩ :=
      stepRun (show memRw (stepMachine 0x00700013).vmem 0 = .ok 0x00700013 by decide) rfl
    have hseven : s.sys.ct.core.regs Reg.zero = 7 := by
      rw [hregs]
      decide
    refine ⟨t, s, hrun, hout, hseven, fun hsees => ?_⟩
    exact absurd ((hsees hout).symm.trans hseven) (by decide)
  · obtain ⟨t, s, hrun, -, -, hsees, -⟩ :=
      stepRun (show memRw (stepMachine 0x00000067).vmem 0 = .ok 0x00000067 by decide) rfl
    exact ⟨t, s, hrun, fun ht => hsees ht ⟨by decide, by decide, by decide, by decide⟩⟩

end ZeroSys

end SwitchV32
