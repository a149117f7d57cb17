import SwitchV32.Supervisor.TrapEntry

/-!
# Which interrupt is taken

`check_interrupts` tests the three sources one after the other and returns after
none of them: each that is pending and enabled is dispatched, on top of those
before it.
-/

namespace SwitchV32.Supervisor

section
variable {σ : Type} {m m' : Machine σ} {code : TrapCode} {codes : List TrapCode}

structure Interruptible (m : Machine σ) : Prop where
  llScFlag : m.core.llScFlag = false
  sie : m.core.mode = .supervisor → sstatusSie (m.reg Reg.sstatus) = true

def pending (m : Machine σ) : TrapCode → Bool
  | .supervisorExternalInterrupt => sieSeie (m.reg Reg.sie) && sipSeip (m.reg Reg.sip)
  | .supervisorSoftwareInterrupt => sieSsie (m.reg Reg.sie) && sipSsip (m.reg Reg.sip)
  | .supervisorTimerInterrupt => sieStie (m.reg Reg.sie) && sipStip (m.reg Reg.sip)
  | _ => false

/-- In falling priority. -/
def interrupts : List TrapCode :=
  [.supervisorExternalInterrupt, .supervisorSoftwareInterrupt, .supervisorTimerInterrupt]

def sources (m : Machine σ) : List TrapCode := interrupts.filter (pending m)

/-- `r` is what one call may do: it takes the first of the sources, or nothing. -/
structure TakesFirst (m : Machine σ) (r : Except Stop (Machine σ)) : Prop where
  takes : ∀ code, Interruptible m → (sources m).head? = some code →
    ∃ m', r = .ok m' ∧ Entered m code m' ∧
      interruptTarget (m.reg Reg.stvec) code = .ok (m'.reg Reg.pc)
  passes : (Interruptible m → sources m = []) → r = .ok m

-- ---------------------------------------------------------------------------
-- All sources
-- ---------------------------------------------------------------------------

theorem Entered.pending (h : Entered m code m') : pending m' = pending m := by
  have hsie : m'.reg Reg.sie = m.reg Reg.sie := h.kept _ (by decide)
  have hsip : m'.reg Reg.sip = m.reg Reg.sip := h.kept _ (by decide)
  funext code
  unfold Supervisor.pending
  rw [hsie, hsip]

def test (m : Machine σ) (code : TrapCode) : Except Stop (Machine σ) :=
  if pending m code then dispatchTrap m code resetFaultVal else pure m

def dispatchAll (m : Machine σ) (codes : List TrapCode) : Except Stop (Machine σ) :=
  codes.foldlM (fun m code => dispatchTrap m code resetFaultVal) m

/-- A trap does not change what is pending: the tests are of the state before the first. -/
theorem tests_eq (m : Machine σ) (codes : List TrapCode) :
    codes.foldlM test m = dispatchAll m (codes.filter (pending m)) := by
  induction codes generalizing m with
  | nil => rfl
  | cons code codes ih =>
    rw [List.foldlM_cons, test]
    cases hp : pending m code with
    | false =>
      rw [List.filter_cons_of_neg (by simp [hp]), if_neg (by simp)]
      exact ih m
    | true =>
      rw [List.filter_cons_of_pos (by simp [hp]), if_pos rfl, dispatchAll, List.foldlM_cons]
      cases htrap : dispatchTrap m code resetFaultVal with
      | error e => rfl
      | ok m₁ =>
        rw [ok_bind, ok_bind, ih m₁, (dispatchTrap_entered htrap).pending]
        rfl

theorem test_bind (m : Machine σ) (code : TrapCode) (f : Machine σ → Except Stop (Machine σ)) :
    test m code >>= f =
      if pending m code then dispatchTrap m code resetFaultVal >>= f else f m := by
  unfold test
  split <;> rfl

theorem checkInterrupts_eq (h : Interruptible m) :
    checkInterrupts dispatchTrap m = dispatchAll m (sources m) := by
  have hsie : ¬ (m.core.mode = .supervisor ∧ sstatusSie (m.reg Reg.sstatus) = false) := by
    rintro ⟨hmode, hs⟩
    rw [h.sie hmode] at hs
    cases hs
  rw [sources, ← tests_eq]
  simp only [checkInterrupts, if_neg hsie, h.llScFlag, Bool.false_eq_true, if_false, interrupts,
    List.foldlM_cons, List.foldlM_nil, test_bind, pending, pure_bind, bind_pure]
  rfl

theorem checkInterrupts_passes (h : Interruptible m → sources m = []) :
    checkInterrupts dispatchTrap m = .ok m := by
  by_cases hi : Interruptible m
  · rw [checkInterrupts_eq hi, h hi]
    rfl
  · exact checkInterrupts_of_not_due fun hdue => hi ⟨hdue.llScFlag, hdue.sie⟩

/-- The last interrupt dispatched is what SCAUSE tells. -/
theorem dispatchAll_scause (h : dispatchAll m (codes ++ [code]) = .ok m') :
    m'.reg Reg.scause = code.val := by
  rw [dispatchAll, List.foldlM_append] at h
  obtain ⟨m₁, -, h⟩ := bind_eq_ok.mp h
  obtain ⟨m₂, htrap, h⟩ := bind_eq_ok.mp h
  cases h
  exact (dispatchTrap_entered htrap).scause

-- ---------------------------------------------------------------------------
-- One source
-- ---------------------------------------------------------------------------

theorem mem_interrupts (h : code ∈ sources m) : code ∈ interrupts := (List.mem_filter.mp h).1

theorem interrupts_negative : ∀ code ∈ interrupts, ¬ 0 ≤ code.val.toInt := by decide

theorem interrupts_val : ∀ code ∈ interrupts, ∀ code' ∈ interrupts,
    code.val = code'.val → code = code' := by decide

theorem sources_nodup (m : Machine σ) : (sources m).Nodup := by
  have h : interrupts.Nodup := by decide
  exact h.sublist List.filter_sublist

def StvecDefined (stvec : U32) : Prop :=
  stvecMode stvec = stvecModeDirect ∨ stvecMode stvec = stvecModeVectored

theorem interruptTarget_ok_iff (stvec : U32) (code : TrapCode) :
    (∃ target, interruptTarget stvec code = .ok target) ↔ StvecDefined stvec := by
  unfold interruptTarget StvecDefined
  split
  · simp_all
  · split <;> simp_all

theorem dispatchAll_one (hcode : code ∈ interrupts) (hstvec : StvecDefined (m.reg Reg.stvec)) :
    ∃ m', dispatchAll m [code] = .ok m' ∧ Entered m code m' ∧
      interruptTarget (m.reg Reg.stvec) code = .ok (m'.reg Reg.pc) := by
  obtain ⟨target, htarget⟩ := (interruptTarget_ok_iff _ code).mpr hstvec
  have htrap : dispatchTrap m code resetFaultVal = .ok ((enter m code).setReg Reg.pc target) := by
    rw [dispatchTrap_eq, if_neg (interrupts_negative code hcode), htarget]
    rfl
  refine ⟨(enter m code).setReg Reg.pc target, ?_, dispatchTrap_entered htrap, ?_⟩
  · rw [dispatchAll, List.foldlM_cons, htrap]
    rfl
  · rw [htarget, Machine.reg_setReg_self]

theorem not_entered_of_two (hcodes : sources m = code :: codes) (hmore : codes ≠ [])
    (h : dispatchAll m (sources m) = .ok m') : ¬ Entered m code m' := by
  obtain ⟨init, last, rfl⟩ := (List.eq_nil_or_concat codes).resolve_left hmore
  rw [List.concat_eq_append] at hcodes
  intro hentered
  have hlast : m'.reg Reg.scause = last.val := by
    rw [hcodes, ← List.cons_append] at h
    exact dispatchAll_scause h
  have hcode : code ∈ interrupts := by
    apply mem_interrupts (m := m)
    simp [hcodes]
  have hlast' : last ∈ interrupts := by
    apply mem_interrupts (m := m)
    simp [hcodes]
  have heq : code = last := interrupts_val code hcode last hlast' (hentered.scause.symm.trans hlast)
  have hnodup := sources_nodup m
  rw [hcodes, heq] at hnodup
  simp at hnodup

/-- The call takes the right interrupt exactly if there is at most one to take, and STVEC says
where it goes. -/
theorem takesFirst_iff (m : Machine σ) : TakesFirst m (checkInterrupts dispatchTrap m) ↔
    (Interruptible m → sources m = [] ∨
      ∃ code, sources m = [code] ∧ StvecDefined (m.reg Reg.stvec)) := by
  constructor
  · intro h hi
    cases hcodes : sources m with
    | nil => exact .inl rfl
    | cons code codes =>
      obtain ⟨m', hrun, hentered, htarget⟩ := h.takes code hi (by rw [hcodes, List.head?_cons])
      rw [checkInterrupts_eq hi] at hrun
      have hone : codes = [] := by
        by_contra hmore
        exact not_entered_of_two hcodes hmore hrun hentered
      exact .inr ⟨code, by rw [hone], (interruptTarget_ok_iff _ code).mp ⟨_, htarget⟩⟩
  · intro h
    refine ⟨fun code hi hhead => ?_, checkInterrupts_passes⟩
    rcases h hi with hnone | ⟨code', hone, hstvec⟩
    · rw [hnone] at hhead
      cases hhead
    · rw [hone] at hhead
      cases hhead
      have hmem : code ∈ sources m := by simp [hone]
      rw [checkInterrupts_eq hi, hone]
      exact dispatchAll_one (mem_interrupts hmem) hstvec

end

/-- A software and an external interrupt at the same time: the external one is lost in SEPC. -/
theorem takesFirst_fails :
    let m := Sv32.boot [] [(Reg.sstatus, 0x2), (Reg.sie, 0x202), (Reg.sip, 0x202),
      (Reg.stvec, 0x100), (Reg.pc, 0x40)]
    ¬ TakesFirst m (checkInterrupts dispatchTrap m) := by
  intro m h
  have hi : Interruptible m := ⟨rfl, fun _ => by decide⟩
  have hcodes : sources m = [.supervisorExternalInterrupt, .supervisorSoftwareInterrupt] := by
    decide
  obtain ⟨m', hrun, hentered, -⟩ := h.takes _ hi (congrArg List.head? hcodes)
  rw [checkInterrupts_eq hi] at hrun
  exact not_entered_of_two hcodes (by simp) hrun hentered

end SwitchV32.Supervisor
