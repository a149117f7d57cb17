import SwitchV32.Hsm.OwnRecord

/-!
# What an SBI call returns

The error code in `a0` and the value in `a1`. The base extension's probe leaves
its answer in `a0`, where the common exit puts the error code; the extensions
that it looks up are those `emu_sbi_call` has a handler for.
-/

namespace SwitchV32.Supervisor

variable {m m' : Sv32}

def Calls (m : Sv32) (eid fid : U32) : Prop := m.reg Reg.a7 = eid ∧ m.reg Reg.a6 = fid

def Handled (eid : U32) : Prop :=
  ∃ m : Sv32, m.reg Reg.a7 = eid ∧ emuSbiCall m ≠ .ok (m.setReg Reg.a0 SbiError.notSupported)

def hsmError (m : Sv32) : U32 :=
  let hartId := m.reg Reg.a0
  let startAddr := m.reg Reg.a1
  match m.reg Reg.a6 with
  | 0#32 =>
    if m.host.ctx.cores ≤ hartId.toNat then SbiError.invalidParam
    else if m.vmem.size ≤ startAddr.toNat then SbiError.invalidAddress
    else if hsmStarts m = [] then SbiError.alreadyAvailable
    else SbiError.success
  | 1#32 => SbiError.success
  | 2#32 => if m.host.ctx.cores ≤ hartId.toNat then SbiError.invalidParam else SbiError.success
  | 3#32 =>
    if m.vmem.size ≤ startAddr.toNat then SbiError.invalidAddress
    else if hartId = hsmRetentiveSuspend ∨ hartId = hsmNonRetentiveSuspend then SbiError.success
    else SbiError.invalidParam
  | _ => SbiError.notSupported

def sbiError (m : Sv32) : U32 :=
  if m.reg Reg.a7 = baseEid then
    if (m.reg Reg.a6).toNat ≤ 6 then SbiError.success else SbiError.notSupported
  else if m.reg Reg.a7 = hsmEid then hsmError m
  else SbiError.notSupported

structure SbiReturns (m m' : Sv32) : Prop where
  error : m'.reg Reg.a0 = sbiError m
  version : Calls m baseEid 0#32 → m'.reg Reg.a1 = 0x03000000#32
  probe : Calls m baseEid 3#32 → (m'.reg Reg.a1 ≠ 0#32 ↔ Handled (m.reg Reg.a0))
  machine : ∀ fid ∈ [1#32, 2#32, 4#32, 5#32, 6#32], Calls m baseEid fid → m'.reg Reg.a1 = 0#32
  status : Calls m hsmEid 2#32 → (m.reg Reg.a0).toNat < m.host.ctx.cores →
    m'.reg Reg.a1 = (cthreadGetHsmState (m.cthread (m.reg Reg.a0).toNat)).val
  others : m.reg Reg.a7 = baseEid → ∀ r, r ≠ Reg.a0 → r ≠ Reg.a1 → m'.reg r = m.reg r

-- ---------------------------------------------------------------------------
-- The extensions
-- ---------------------------------------------------------------------------

theorem emuSbiCall_base (h : m.reg Reg.a7 = baseEid) : emuSbiCall m = .ok (baseExt m) := by
  rw [emuSbiCall, h]
  rfl

theorem emuSbiCall_hsm (h : m.reg Reg.a7 = hsmEid) : emuSbiCall m = hsmExt m := by
  rw [emuSbiCall, h]
  rfl

theorem emuSbiCall_default (hbase : m.reg Reg.a7 ≠ baseEid) (hhsm : m.reg Reg.a7 ≠ hsmEid) :
    emuSbiCall m = .ok (m.setReg Reg.a0 SbiError.notSupported) := by
  unfold emuSbiCall
  split
  · contradiction
  · contradiction
  · rfl

theorem handled_iff (eid : U32) : Handled eid ↔ eid ∈ supportedExt := by
  simp only [supportedExt, List.mem_cons, List.not_mem_nil, or_false]
  constructor
  · rintro ⟨m, rfl, hanswer⟩
    by_contra hnone
    rw [not_or] at hnone
    exact hanswer (emuSbiCall_default hnone.1 hnone.2)
  · rintro (rfl | rfl)
    · refine ⟨.boot [] [(Reg.a7, baseEid)], rfl, fun h => ?_⟩
      rw [emuSbiCall_base rfl, Except.ok.injEq] at h
      have ha0 := congrArg (Machine.reg · Reg.a0) h
      exact absurd ha0 (by decide)
    · refine ⟨.boot [] [(Reg.a7, hsmEid), (Reg.a6, 2), (Reg.a0, 1)], rfl, fun h => ?_⟩
      rw [emuSbiCall_hsm rfl] at h
      have ha0 := congrArg (Except.map (Machine.reg · Reg.a0)) h
      exact absurd ha0 (by decide)

-- ---------------------------------------------------------------------------
-- The base extension
-- ---------------------------------------------------------------------------

theorem baseExt_others {r : Reg} (h0 : r ≠ Reg.a0) (h1 : r ≠ Reg.a1) :
    (baseExt m).reg r = m.reg r := by
  unfold baseExt
  split <;> simp [h0, h1]

theorem baseExt_error : (baseExt m).reg Reg.a0 =
    if (m.reg Reg.a6).toNat ≤ 6 then SbiError.success else SbiError.notSupported := by
  unfold baseExt
  split
  case h_8 =>
    rename_i h0 h3 h1 h2 h4 h5 h6
    simp only [imp_false] at h0 h1 h2 h3 h4 h5 h6
    have hfid : ¬ (m.reg Reg.a6).toNat ≤ 6 := by bv_omega
    rw [if_neg hfid, Machine.reg_setReg_self]
  all_goals
    rename_i hfid
    rw [hfid, if_pos (by decide), Machine.reg_setReg_self]

theorem baseExt_version (h : m.reg Reg.a6 = 0#32) : (baseExt m).reg Reg.a1 = 0x03000000#32 := by
  rw [baseExt, h]
  simp [Reg.a0, Reg.a1]

theorem baseExt_machine {fid : U32} (hfid : fid ∈ [1#32, 2#32, 4#32, 5#32, 6#32])
    (h : m.reg Reg.a6 = fid) : (baseExt m).reg Reg.a1 = 0#32 := by
  simp only [List.mem_cons, List.not_mem_nil, or_false] at hfid
  rw [baseExt, h]
  rcases hfid with rfl | rfl | rfl | rfl | rfl <;> simp [Reg.a0, Reg.a1]

theorem baseExt_probe (h : m.reg Reg.a6 = 3#32) : (baseExt m).reg Reg.a1 = m.reg Reg.a1 := by
  rw [baseExt, h]
  simp [Reg.a0, Reg.a1]

-- ---------------------------------------------------------------------------
-- The HSM extension
-- ---------------------------------------------------------------------------

def InTable (m : Sv32) : Prop := ∀ j ∈ hsmSignals m ++ hsmInits m, j < m.host.ctx.cores

theorem onCthread_lt {i : Nat} {f : Cthread → Cthread} (h : m.onCthread i f = .ok m') :
    i < m.host.ctx.cores ∧ m'.host.ctx = m.host.ctx := by
  unfold Machine.onCthread at h
  split at h
  · rename_i hi
    cases h
    exact ⟨hi, rfl⟩
  · cases h

theorem InTable.of_ok (h : hsmExt m = .ok m') : InTable m := by
  intro j hj
  cases hsmExt_done h with
  | refused _ hsignals hinits | status _ hsignals hinits =>
    rw [hsignals, hinits] at hj
    cases hj
  | start init _ hsignals hinits hinit _ =>
    simp only [hsignals, hinits, List.mem_append, List.mem_singleton, or_self] at hj
    rw [hj]
    exact (onCthread_lt hinit).1
  | signal i signal hsignals hinits hsignal =>
    simp only [hsignals, hinits, List.append_nil, List.mem_singleton] at hj
    rw [hj]
    exact (onCthread_lt hsignal).1
  | init init _ hsignals hinits hinit =>
    simp only [hsignals, hinits, List.nil_append, List.mem_singleton] at hj
    rw [hj]
    exact (onCthread_lt hinit).1

theorem onCthread_ok {i : Nat} (f : Cthread → Cthread) (hi : i < m.host.ctx.cores) :
    m.onCthread i f = .ok (m.putCthread i (f (m.cthread i))) := if_pos hi

theorem hsmExt_start_returns (hfid : m.reg Reg.a6 = 0#32) :
    ∃ m', hsmExt m = .ok m' ∧ m'.reg Reg.a0 = hsmError m := by
  simp only [hsmExt, hsmError, hsmStarts, hfid]
  by_cases hid : m.host.ctx.cores ≤ (m.reg Reg.a0).toNat
  · simp only [hid, if_true]
    exact ⟨_, rfl, Machine.reg_setReg_self ..⟩
  by_cases haddr : m.vmem.size ≤ (m.reg Reg.a1).toNat
  · simp only [hid, haddr, if_true, if_false]
    exact ⟨_, rfl, Machine.reg_setReg_self ..⟩
  by_cases hstate : cthreadGetHsmState (m.cthread (m.reg Reg.a0).toNat) = .startPending ∨
      cthreadGetHsmState (m.cthread (m.reg Reg.a0).toNat) = .started
  · simp only [hid, haddr, hstate, if_true, if_false]
    exact ⟨_, rfl, Machine.reg_setReg_self ..⟩
  · have hlt := Nat.lt_of_not_le hid
    have hsignal : ∀ ct, (m.putCthread (m.reg Reg.a0).toNat ct).onCthread (m.reg Reg.a0).toNat
        cthreadSignalStart = .ok _ := fun _ => onCthread_ok _ hlt
    simp only [hid, haddr, hstate, if_false, List.cons_ne_nil, Machine.vcoreInitAt,
      onCthread_ok _ hlt, hsignal, ok_bind]
    exact ⟨_, rfl, Machine.reg_setReg_self ..⟩

theorem hsmExt_status_returns (hfid : m.reg Reg.a6 = 2#32) :
    ∃ m', hsmExt m = .ok m' ∧ m'.reg Reg.a0 = hsmError m ∧
      ((m.reg Reg.a0).toNat < m.host.ctx.cores →
        m'.reg Reg.a1 = (cthreadGetHsmState (m.cthread (m.reg Reg.a0).toNat)).val) := by
  simp only [hsmExt, hsmError, hfid]
  by_cases hid : m.host.ctx.cores ≤ (m.reg Reg.a0).toNat
  · simp only [hid, if_true]
    exact ⟨_, rfl, Machine.reg_setReg_self .., fun hlt => absurd hid (Nat.not_le_of_lt hlt)⟩
  · simp only [hid, if_false]
    refine ⟨_, rfl, Machine.reg_setReg_self .., fun _ => ?_⟩
    simp [Reg.a0, Reg.a1]

theorem hsmExt_suspend_returns (hfid : m.reg Reg.a6 = 3#32) (hm : InTable m) :
    ∃ m', hsmExt m = .ok m' ∧ m'.reg Reg.a0 = hsmError m := by
  simp only [InTable, hsmSignals, hsmInits, hfid] at hm
  simp only [hsmExt, hsmError, hfid]
  by_cases haddr : m.vmem.size ≤ (m.reg Reg.a1).toNat
  · simp only [haddr, if_true]
    exact ⟨_, rfl, Machine.reg_setReg_self ..⟩
  by_cases hret : m.reg Reg.a0 = hsmRetentiveSuspend
  · have hlt := hm (m.reg Reg.a0).toNat (by simp [haddr, hret])
    simp only [haddr, hret, true_or, if_true, if_false] at hlt ⊢
    rw [onCthread_ok _ hlt]
    exact ⟨_, rfl, Machine.reg_setReg_self ..⟩
  by_cases hnon : m.reg Reg.a0 = hsmNonRetentiveSuspend
  · have hne : hsmNonRetentiveSuspend ≠ hsmRetentiveSuspend := by decide
    have hlt := hm (m.reg Reg.a0).toNat (by simp [haddr, hnon, hne])
    simp only [haddr, hnon, hne, or_true, if_true, if_false, Machine.vcoreInitAt] at hlt ⊢
    rw [onCthread_ok _ hlt]
    exact ⟨_, rfl, Machine.reg_setReg_self ..⟩
  · simp only [haddr, hret, hnon, or_self, if_false]
    exact ⟨_, rfl, Machine.reg_setReg_self ..⟩

theorem hsmExt_returns (hm : InTable m) :
    ∃ m', hsmExt m = .ok m' ∧ m'.reg Reg.a0 = hsmError m ∧
      (m.reg Reg.a6 = 2#32 → (m.reg Reg.a0).toNat < m.host.ctx.cores →
        m'.reg Reg.a1 = (cthreadGetHsmState (m.cthread (m.reg Reg.a0).toNat)).val) := by
  by_cases h2 : m.reg Reg.a6 = 2#32
  · obtain ⟨m', hok, herror, hstatus⟩ := hsmExt_status_returns h2
    exact ⟨m', hok, herror, fun _ => hstatus⟩
  suffices h : ∃ m', hsmExt m = .ok m' ∧ m'.reg Reg.a0 = hsmError m by
    obtain ⟨m', hok, herror⟩ := h
    exact ⟨m', hok, herror, fun hfid => absurd hfid h2⟩
  by_cases h0 : m.reg Reg.a6 = 0#32
  · exact hsmExt_start_returns h0
  by_cases h3 : m.reg Reg.a6 = 3#32
  · exact hsmExt_suspend_returns h3 hm
  by_cases h1 : m.reg Reg.a6 = 1#32
  · have hlt : m.core.coreIdx.toNat < m.host.ctx.cores := by
      refine hm _ ?_
      simp [hsmSignals, h1]
    simp only [hsmExt, hsmError, h1, onCthread_ok _ hlt]
    exact ⟨_, rfl, Machine.reg_setReg_self ..⟩
  · have herror : hsmError m = SbiError.notSupported := by
      unfold hsmError
      split <;> first | contradiction | rfl
    rw [herror]
    unfold hsmExt
    split
    all_goals first | contradiction | exact ⟨_, rfl, Machine.reg_setReg_self ..⟩

-- ---------------------------------------------------------------------------
-- Any call
-- ---------------------------------------------------------------------------

def ProbeAnswered (m : Sv32) : Prop :=
  Calls m baseEid 3#32 → (m.reg Reg.a1 ≠ 0#32 ↔ m.reg Reg.a0 ∈ supportedExt)

theorem baseExt_returns_iff (h : m.reg Reg.a7 = baseEid) :
    SbiReturns m (baseExt m) ↔ ProbeAnswered m := by
  constructor
  · intro hret hprobe
    rw [← handled_iff, ← hret.probe hprobe, baseExt_probe hprobe.2]
  · intro hprobe
    refine
      { error := ?_
        version := fun hcall => baseExt_version hcall.2
        probe := fun hcall => ?_
        machine := fun fid hfid hcall => baseExt_machine hfid hcall.2
        status := fun hcall => ?_
        others := fun _ r => baseExt_others }
    · rw [baseExt_error, sbiError, if_pos h]
    · rw [baseExt_probe hcall.2, hprobe hcall, handled_iff]
    · exact absurd (h.symm.trans hcall.1) (by decide)

theorem SbiReturns.of_not_base (hbase : m.reg Reg.a7 ≠ baseEid)
    (herror : m'.reg Reg.a0 = sbiError m)
    (hstatus : Calls m hsmEid 2#32 → (m.reg Reg.a0).toNat < m.host.ctx.cores →
      m'.reg Reg.a1 = (cthreadGetHsmState (m.cthread (m.reg Reg.a0).toNat)).val) :
    SbiReturns m m' where
  error := herror
  version hcall := absurd hcall.1 hbase
  probe hcall := absurd hcall.1 hbase
  machine _ _ hcall := absurd hcall.1 hbase
  status := hstatus
  others hext := absurd hext hbase

/-- A call returns as it has to unless it is a probe whose answer is not in `a1` already, or a
signal to a record behind the table. -/
theorem sbiReturns_iff (m : Sv32) : (∃ m', emuSbiCall m = .ok m' ∧ SbiReturns m m') ↔
    ProbeAnswered m ∧ (m.reg Reg.a7 = hsmEid → InTable m) := by
  by_cases hbase : m.reg Reg.a7 = baseEid
  · have hhsm : m.reg Reg.a7 ≠ hsmEid := by rw [hbase]; decide
    simp [emuSbiCall_base hbase, baseExt_returns_iff hbase, hhsm]
  have hprobe : ProbeAnswered m := fun hcall => absurd hcall.1 hbase
  by_cases hhsm : m.reg Reg.a7 = hsmEid
  · rw [emuSbiCall_hsm hhsm]
    constructor
    · rintro ⟨m', hok, -⟩
      exact ⟨hprobe, fun _ => .of_ok hok⟩
    · rintro ⟨-, hm⟩
      obtain ⟨m', hok, herror, hstatus⟩ := hsmExt_returns (hm hhsm)
      refine ⟨m', hok, .of_not_base hbase ?_ fun hcall => hstatus hcall.2⟩
      rw [herror, sbiError, if_neg hbase, if_pos hhsm]
  · rw [emuSbiCall_default hbase hhsm]
    refine ⟨fun _ => ⟨hprobe, fun hext => absurd hext hhsm⟩, fun _ => ⟨_, rfl, ?_⟩⟩
    refine .of_not_base hbase ?_ fun hcall => absurd hcall.1 hhsm
    rw [Machine.reg_setReg_self, sbiError, if_neg hbase, if_neg hhsm]

/-- Asked for itself, the base extension answers with the zero that was in `a1`. -/
theorem sbiReturns_fails :
    let m := Sv32.boot [] [(Reg.a7, baseEid), (Reg.a6, 3), (Reg.a0, baseEid)]
    ¬ ∃ m', emuSbiCall m = .ok m' ∧ SbiReturns m m' := by
  intro m
  rintro ⟨m', hok, hret⟩
  rw [emuSbiCall_base rfl, Except.ok.injEq] at hok
  subst hok
  have hprobe := (hret.probe ⟨rfl, rfl⟩).mpr ((handled_iff _).mpr (by decide))
  exact hprobe (by decide)

end SwitchV32.Supervisor
