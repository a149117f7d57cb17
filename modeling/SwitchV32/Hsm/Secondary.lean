import SwitchV32.Cthread.StepReturns
import SwitchV32.Hsm.HartStart

/-!
# Secondary harts without a debugger

Every record is created halted, and only a debug signal takes it out of that
state. Without a debugger `main` sends one, a continue to core 0. A start of
another hart is kept for when debugging ends, which is never: the call reports
success and the hart is reported as started, but it executes nothing.
-/

namespace SwitchV32

namespace CoreSys

structure Parked (s : CoreSys) : Prop where
  state : s.ct.state = .halted
  signal : s.ct.signal = .halt
  oldSignal : ∃ mode : HsmSignal, s.ct.oldSignal = mode.toSignal
  debug : s.debug = .idle
  core : s.core = .fsm ∨ s.core = .waiting .halt

theorem Init.parked (h : Init s) : Parked s := by
  have hold := h.savedInv.oldSignal
  obtain ⟨_, _, _, rfl⟩ := h.eq
  exact ⟨rfl, rfl, hold, rfl, .inl rfl⟩

theorem Parked.step (hi : Parked s) (hl : l ≠ .continue ∧ l ≠ .step) (h : Step s l s') :
    Parked s' ∧ l ≠ .guest := by
  have hold := h.oldSignal_mode hi.oldSignal
  cases h.outcome with
  | same _ hl => exact ⟨hi, hl.2⟩
  | saved => exact ⟨⟨hi.state, hi.signal, hold, hi.debug, hi.core⟩, nofun⟩
  | taken signal hleave =>
    rw [hi.state] at hleave
    cases signal <;> cases hleave
  | halted h1 => exact absurd hi.state h1
  | continued => exact absurd rfl hl.1
  | stepped => exact absurd rfl hl.2
  | debugAbort _ _ h' => exact (not_or.mpr hl h').elim
  | stepSeen hd | stepDone hd => cases hi.debug.symm.trans hd
  | start _ hsignal | blockStep _ hsignal => cases hi.signal.symm.trans hsignal
  | block =>
    refine ⟨⟨?_, hi.signal, hold, hi.debug, .inr (by simp only [hi.signal])⟩, nofun⟩
    simp only [hi.signal]
    rfl
  | unblock signal hc hsignal =>
    rcases hi.core with h | h <;> cases h.symm.trans hc
    exact absurd hi.signal hsignal
  | again _ hc | exited _ hc | locked _ hc | hotLoop hc | guest _ _ hc =>
    rcases hi.core with h | h <;> cases h.symm.trans hc

/-- A start is kept, and from then on reported as the state of the hart. -/
theorem Parked.start (hi : Parked s) :
    cthreadGetHsmState (cthreadSignalStart s.ct) = .started := by
  obtain ⟨mode, hmode⟩ := hi.oldSignal
  obtain ⟨⟨state, signal, oldSignal, core⟩, _, _⟩ := s
  cases hi.state
  cases hmode
  cases mode <;> rfl

end CoreSys

namespace HsmSys

def debugged : HsmLabel → Option Nat
  | .node j .continue | .node j .step => some j
  | _ => none

/-- Without a debugger no core other than 0 is ever continued or stepped. -/
def Undebugged (_ : HsmSys) (l : HsmLabel) : Prop := ∀ j ∈ debugged l, j = 0

instance decidableUndebugged (s : HsmSys) (l : HsmLabel) : Decidable (Undebugged s l) :=
  inferInstanceAs (Decidable (∀ j ∈ debugged l, j = 0))

variable {s₀ s s' : HsmSys} {l : HsmLabel} {t : List (HsmSys × HsmLabel)} {j : Nat}

theorem parked_step (hi : (s.node j).Parked) (hj : j ≠ 0) (hl : Undebugged s l)
    (h : Step s l s') : (s'.node j).Parked ∧ l ≠ .node j .guest := by
  cases h with
  | node i cl hi' hcall h =>
    by_cases hji : j = i
    · subst hji
      have hcl : cl ≠ .continue ∧ cl ≠ .step := by
        constructor <;> rintro rfl <;> exact hj (hl j rfl)
      obtain ⟨hn, hguest⟩ := hi.step hcl h
      refine ⟨by simpa only [Function.update_self] using hn, ?_⟩
      rintro ⟨⟩
      exact hguest rfl
    · simp only [Function.update_of_ne hji]
      refine ⟨hi, ?_⟩
      rintro ⟨⟩
      exact hji rfl
  | hartStart =>
    refine ⟨hi, ?_⟩
    rintro ⟨⟩
  | hartInit i hcall =>
    refine ⟨?_, by rintro ⟨⟩⟩
    simp only [onCt, Function.update_apply]
    split
    · rename_i htarget
      subst htarget
      exact ⟨hi.state, hi.signal, hi.oldSignal, hi.debug, hi.core⟩
    · exact hi
  | hartSignal i hcall ha =>
    refine ⟨?_, by rintro ⟨⟩⟩
    simp only [onCt, Function.update_apply]
    split
    · rename_i htarget
      subst htarget
      exact (hi.step (by simp) (.hsm ha .start)).1
    · exact hi

structure StartedInName (s' : HsmSys) (i j : Nat) : Prop where
  success : s'.call i = .done Supervisor.SbiError.success
  reported : cthreadGetHsmState (s'.node j).ct = .started
  halted : (s'.node j).ct.state = .halted

/-- Without a debugger no secondary hart ever executes an instruction, and every start of one that
gets past the checks is a start in name only. -/
theorem secondary_never_runs (h0 : Start s₀) (hrun : Run s₀ t s) (ht : Lts.Every Undebugged t)
    (hj : j ≠ 0) :
    (s.node j).ct.state = .halted ∧ Lts.Every (fun _ l => l ≠ .node j .guest) t ∧
      ∀ i args s', s.call i = .signal args → args.target = j → Step s (.hartSignal i) s' →
        StartedInName s' i j := by
  have hparked : (s.node j).Parked ∧ Lts.Every (fun _ l => l ≠ .node j .guest) t := by
    refine hrun.inv_history
      (fun t s => (s.node j).Parked ∧ Lts.Every (fun _ l => l ≠ .node j .guest) t) ?_ ht
      ⟨(h0.node j).parked, Lts.every_nil⟩
    rintro t s l s' ⟨hi, hguest⟩ hl hs
    obtain ⟨hi', hl'⟩ := parked_step hi hj hl hs
    exact ⟨hi', Lts.every_append.mpr ⟨hguest, Lts.every_cons.mpr ⟨hl', Lts.every_nil⟩⟩⟩
  obtain ⟨hi, hguest⟩ := hparked
  refine ⟨hi.state, hguest, fun i args s' hcall htarget hs => ?_⟩
  have hi' := (parked_step hi hj (l := .hartSignal i) nofun hs).1
  cases hs with
  | hartSignal _ hcall' =>
    cases hcall.symm.trans hcall'
    subst htarget
    refine ⟨Function.update_self .., ?_, hi'.state⟩
    simp only [onCt, Function.update_self]
    exact hi.start

/-- Hart 0 is continued as `main` does, and starts hart 1. -/
theorem secondary_never_runs_boot : ∃ t s s', Run bootHsm t s ∧ Step s (.hartSignal 0) s' ∧
    (s.node 1).ct.state = .halted ∧ StartedInName s' 0 1 := by
  obtain ⟨t, s, hrun, ht, hcall, hnext⟩ := Lts.exists_run (next callerCore) (s := bootHsm)
    [.node 0 .core, .node 1 .core, .node 0 .continue, .node 0 .core, .node 0 .core,
      .node 0 .guest, .node 0 .core, .hartStart 0, .hartInit 0]
    (Q := fun t s => Lts.Every Undebugged t ∧ s.call 0 = .signal callerArgs ∧
      (next callerCore s (.hartSignal 0)).isSome = true) (by decide)
  obtain ⟨s', hnext⟩ := Option.isSome_iff_exists.mp hnext
  have hrun := hrun.mono fun _ _ _ => next_step
  obtain ⟨hstate, -, hstart⟩ := secondary_never_runs bootHsm_start hrun ht (j := 1) (by decide)
  exact ⟨t, s, s', hrun, next_step hnext, hstate,
    hstart 0 callerArgs s' hcall rfl (next_step hnext)⟩

end HsmSys

end SwitchV32
