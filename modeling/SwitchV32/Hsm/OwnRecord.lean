import SwitchV32.Supervisor.Frame
import SwitchV32.Harts.System

/-!
# Whose record a hart stops or suspends

`hart_stop` takes the record from `core_idx`, which `main` leaves undefined for
the first hart; `hart_suspend` takes it from `a0`, where the caller has put the
kind of the suspend. Both mean the record of the calling hart.
-/

namespace SwitchV32

-- ---------------------------------------------------------------------------
-- The records of a call
-- ---------------------------------------------------------------------------

namespace Supervisor

def hsmStarts (m : Sv32) : List Nat :=
  let hartId := m.reg Reg.a0
  if m.host.ctx.cores ≤ hartId.toNat then []
  else if m.vmem.size ≤ (m.reg Reg.a1).toNat then []
  else
    let state := cthreadGetHsmState (m.cthread hartId.toNat)
    if state = .startPending ∨ state = .started then [] else [hartId.toNat]

def hsmSignals (m : Sv32) : List Nat :=
  match m.reg Reg.a6 with
  | 0#32 => hsmStarts m
  | 1#32 => [m.core.coreIdx.toNat]
  | 3#32 =>
    if m.vmem.size ≤ (m.reg Reg.a1).toNat then []
    else if m.reg Reg.a0 = hsmRetentiveSuspend then [(m.reg Reg.a0).toNat] else []
  | _ => []

def hsmInits (m : Sv32) : List Nat :=
  match m.reg Reg.a6 with
  | 0#32 => hsmStarts m
  | 3#32 =>
    if m.vmem.size ≤ (m.reg Reg.a1).toNat then []
    else if m.reg Reg.a0 = hsmRetentiveSuspend then []
    else if m.reg Reg.a0 = hsmNonRetentiveSuspend then [(m.reg Reg.a0).toNat] else []
  | _ => []

def OnlySelf (m : Sv32) : Prop :=
  ∀ j ∈ hsmSignals m ++ hsmInits m, j = m.host.hart ∧ j < m.host.ctx.cores

end Supervisor

/-- The indices of all records, as core `k` sees them. -/
structure Machine.CoreIdx (idx : Nat → U32) (k : Nat) (m : Sv32) : Prop where
  hart : m.host.hart = k
  coreIdx : ∀ j, (m.cthread j).core.coreIdx = idx j

namespace Machine.CoreIdx

variable {idx : Nat → U32} {k : Nat} {m : Sv32}

theorem cthread_coreIdx (m : Sv32) (j : Nat) : (m.cthread j).core.coreIdx =
    if j = m.host.hart then m.core.coreIdx else (m.host.cthreads j).core.coreIdx := by
  rw [Machine.cthread]
  split <;> rfl

theorem frame (idx k) : Machine.Frame (Machine.CoreIdx idx k) where
  setReg r v h := by
    refine ⟨h.hart, fun j => ?_⟩
    rw [← h.coreIdx j, cthread_coreIdx, cthread_coreIdx]
    rfl
  setVmem _ h := ⟨h.hart, h.coreIdx⟩
  setMode mode h := by
    refine ⟨h.hart, fun j => ?_⟩
    rw [← h.coreIdx j, cthread_coreIdx, cthread_coreIdx]

theorem putCthread (h : Machine.CoreIdx idx k m) (i : Nat) (ct : Cthread) :
    Machine.CoreIdx (Function.update idx i ct.core.coreIdx) k (m.putCthread i ct) := by
  refine ⟨h.hart, fun j => ?_⟩
  rw [cthread_coreIdx]
  by_cases hj : j = i
  · subst hj
    simp only [Machine.putCthread, Function.update_self]
    split <;> rfl
  · have hidx := h.coreIdx j
    rw [cthread_coreIdx] at hidx
    simp only [Machine.putCthread, Function.update_of_ne hj, ← hidx]
    split
    · rename_i hhart
      rw [if_neg (by rw [← hhart]; exact fun h => hj h.symm)]
    · rfl

theorem onCthread (h : Machine.CoreIdx idx k m) (i : Nat) {f : Cthread → Cthread}
    (hf : ∀ ct : Cthread, (f ct).core.coreIdx = ct.core.coreIdx) :
    Ensures (m.onCthread i f) (Machine.CoreIdx idx k) := by
  refine .ite (fun _ => .pure ?_) fun _ => .error
  have hput := h.putCthread i (f (m.cthread i))
  rwa [hf, h.coreIdx, Function.update_eq_self] at hput

theorem vcoreInitAt (h : Machine.CoreIdx idx k m) (i : Nat) (init : VCoreInit) :
    Ensures (Supervisor.Machine.vcoreInitAt m i init)
      (Machine.CoreIdx (Function.update idx i init.id) k) :=
  .ite (fun _ => .pure (h.putCthread i { m.cthread i with core := vcoreInit (some init) }))
    fun _ => .error

end Machine.CoreIdx

theorem cthreadSignalHsm_coreIdx (signal : HsmSignal) (ct : Cthread) :
    (cthreadSignalHsm signal ct).core.coreIdx = ct.core.coreIdx := by
  rcases cthreadSignalHsm_cases signal ct with h | ⟨-, -, h⟩ | ⟨-, h⟩ <;> rw [h]

theorem cthreadSignalHalt_coreIdx (ct : Cthread) :
    (cthreadSignalHalt ct).core.coreIdx = ct.core.coreIdx := by
  rcases cthreadSignalHalt_cases ct with ⟨-, h⟩ | ⟨-, -, h⟩ <;> rw [h]

namespace Supervisor

variable {m m' : Sv32}

/-- The outcomes of a call, each with the records that it has accessed. -/
inductive HsmDone (m : Sv32) : Sv32 → Prop
  | refused (code) (hsignals : hsmSignals m = []) (hinits : hsmInits m = []) :
    HsmDone m (m.setReg Reg.a0 code)
  | status (state) (hsignals : hsmSignals m = []) (hinits : hsmInits m = []) :
    HsmDone m ((m.setReg Reg.a1 state).setReg Reg.a0 SbiError.success)
  | start {m₁ m₂ : Sv32} (init : VCoreInit) (hid : init.id = m.reg Reg.a0)
      (hsignals : hsmSignals m = [(m.reg Reg.a0).toNat])
      (hinits : hsmInits m = [(m.reg Reg.a0).toNat])
      (hinit : Machine.vcoreInitAt m (m.reg Reg.a0).toNat init = .ok m₁)
      (hsignal : m₁.onCthread (m.reg Reg.a0).toNat cthreadSignalStart = .ok m₂) :
    HsmDone m (m₂.setReg Reg.a0 SbiError.success)
  | signal {m₁ : Sv32} (i) (signal : HsmSignal) (hsignals : hsmSignals m = [i])
      (hinits : hsmInits m = [])
      (hsignal : m.onCthread i (cthreadSignalHsm signal) = .ok m₁) :
    HsmDone m (m₁.setReg Reg.a0 SbiError.success)
  | init {m₁ : Sv32} (init : VCoreInit) (hid : init.id = m.reg Reg.a0)
      (hsignals : hsmSignals m = []) (hinits : hsmInits m = [(m.reg Reg.a0).toNat])
      (hinit : Machine.vcoreInitAt m (m.reg Reg.a0).toNat init = .ok m₁) :
    HsmDone m (m₁.setReg Reg.a0 SbiError.success)

theorem hsmExt_start_done (ha6 : m.reg Reg.a6 = 0#32) (h : hsmExt m = .ok m') : HsmDone m m' := by
  have hsignals : hsmSignals m = hsmStarts m := by rw [hsmSignals, ha6]; rfl
  have hinits : hsmInits m = hsmStarts m := by rw [hsmInits, ha6]; rfl
  simp only [hsmStarts] at hsignals hinits
  dsimp only [hsmExt] at h
  split at h
  case h_2 | h_3 | h_4 =>
    rename_i hother
    exact absurd (ha6.symm.trans hother) (by decide)
  case h_5 => contradiction
  split at h
  · rename_i hid
    rw [if_pos hid] at hsignals hinits
    cases h
    exact .refused _ hsignals hinits
  rename_i hid
  rw [if_neg hid] at hsignals hinits
  split at h
  · rename_i haddr
    rw [if_pos haddr] at hsignals hinits
    cases h
    exact .refused _ hsignals hinits
  rename_i haddr
  rw [if_neg haddr] at hsignals hinits
  split at h
  · rename_i hstate
    rw [if_pos hstate] at hsignals hinits
    cases h
    exact .refused _ hsignals hinits
  rename_i hstate
  rw [if_neg hstate] at hsignals hinits
  obtain ⟨m₁, h₁, h⟩ := bind_eq_ok.mp h
  obtain ⟨m₂, h₂, h⟩ := bind_eq_ok.mp h
  cases h
  exact .start _ rfl hsignals hinits h₁ h₂

theorem hsmExt_suspend_done (ha6 : m.reg Reg.a6 = 3#32) (h : hsmExt m = .ok m') :
    HsmDone m m' := by
  have hsignals : hsmSignals m = if m.vmem.size ≤ (m.reg Reg.a1).toNat then []
      else if m.reg Reg.a0 = hsmRetentiveSuspend then [(m.reg Reg.a0).toNat] else [] := by
    rw [hsmSignals, ha6]
    rfl
  have hinits : hsmInits m = if m.vmem.size ≤ (m.reg Reg.a1).toNat then []
      else if m.reg Reg.a0 = hsmRetentiveSuspend then []
      else if m.reg Reg.a0 = hsmNonRetentiveSuspend then [(m.reg Reg.a0).toNat] else [] := by
    rw [hsmInits, ha6]
    rfl
  dsimp only [hsmExt] at h
  split at h
  case h_1 | h_2 | h_3 =>
    rename_i hother
    exact absurd (ha6.symm.trans hother) (by decide)
  case h_5 => contradiction
  split at h
  · rename_i haddr
    rw [if_pos haddr] at hsignals hinits
    cases h
    exact .refused _ hsignals hinits
  rename_i haddr
  rw [if_neg haddr] at hsignals hinits
  split at h
  · rename_i hret
    rw [if_pos hret] at hsignals hinits
    obtain ⟨m₁, h₁, h⟩ := bind_eq_ok.mp h
    cases h
    exact .signal _ .suspend hsignals hinits h₁
  rename_i hret
  rw [if_neg hret] at hsignals hinits
  split at h
  · rename_i hnon
    rw [if_pos hnon] at hinits
    obtain ⟨m₁, h₁, h⟩ := bind_eq_ok.mp h
    cases h
    exact .init _ rfl hsignals hinits h₁
  · rename_i hnon
    rw [if_neg hnon] at hinits
    cases h
    exact .refused _ hsignals hinits

theorem hsmExt_done (h : hsmExt m = .ok m') : HsmDone m m' := by
  by_cases h0 : m.reg Reg.a6 = 0#32
  · exact hsmExt_start_done h0 h
  by_cases h3 : m.reg Reg.a6 = 3#32
  · exact hsmExt_suspend_done h3 h
  have hinits : hsmInits m = [] := by
    unfold hsmInits
    split <;> first | rfl | contradiction
  by_cases h1 : m.reg Reg.a6 = 1#32
  · have hsignals : hsmSignals m = [m.core.coreIdx.toNat] := by rw [hsmSignals, h1]; rfl
    dsimp only [hsmExt] at h
    rw [h1] at h
    obtain ⟨m₁, h₁, h⟩ := bind_eq_ok.mp h
    cases h
    exact .signal _ .stop hsignals hinits h₁
  have hsignals : hsmSignals m = [] := by
    unfold hsmSignals
    split <;> first | rfl | contradiction
  dsimp only [hsmExt] at h
  split at h
  · contradiction
  · contradiction
  · split at h <;> cases h
    · exact .refused _ hsignals hinits
    · exact .status _ hsignals hinits
  · contradiction
  · cases h
    exact .refused _ hsignals hinits

-- ---------------------------------------------------------------------------
-- What becomes of the records
-- ---------------------------------------------------------------------------

theorem hsmExt_others (h : hsmExt m = .ok m') {j : Nat}
    (hj : j ∉ hsmSignals m ++ hsmInits m) : m'.host.cthreads j = m.host.cthreads j := by
  have hput {m₁ m₂ : Sv32} {i : Nat} {f : Cthread → Cthread} (h : m₁.onCthread i f = .ok m₂)
      (hj : j ≠ i) : m₂.host.cthreads j = m₁.host.cthreads j := by
    unfold Machine.onCthread at h
    split at h <;> cases h
    exact Function.update_of_ne hj ..
  rw [List.mem_append, not_or] at hj
  cases hsmExt_done h with
  | refused | status => rfl
  | start init hid hsignals hinits hinit hsignal =>
    rw [hsignals, List.mem_singleton] at hj
    exact (hput hsignal hj.1).trans (hput hinit hj.1)
  | signal i signal hsignals hinits hsignal =>
    rw [hsignals, List.mem_singleton] at hj
    have hkept := hput hsignal hj.1
    exact hkept
  | init init hid hsignals hinits hinit =>
    rw [hinits, List.mem_singleton] at hj
    have hkept := hput hinit hj.2
    exact hkept

def hsmIdx (m : Sv32) (idx : Nat → U32) (j : Nat) : U32 :=
  if j ∈ hsmInits m then BitVec.ofNat 32 j else idx j

theorem hsmExt_coreIdx {idx : Nat → U32} {k : Nat} (hidx : Machine.CoreIdx idx k m) :
    Ensures (hsmExt m) (Machine.CoreIdx (hsmIdx m idx) k) := by
  intro m' h
  have hframe := Machine.CoreIdx.frame (hsmIdx m idx) k
  have hnone (hinits : hsmInits m = []) : hsmIdx m idx = idx := by
    funext j
    simp only [hsmIdx, hinits, List.not_mem_nil, if_false]
  have hone (hinits : hsmInits m = [(m.reg Reg.a0).toNat]) {m₁ : Sv32} {init : VCoreInit}
      (hid : init.id = m.reg Reg.a0)
      (hinit : Machine.vcoreInitAt m (m.reg Reg.a0).toNat init = .ok m₁) :
      Machine.CoreIdx (hsmIdx m idx) k m₁ := by
    have hset : Function.update idx (m.reg Reg.a0).toNat init.id = hsmIdx m idx := by
      funext j
      simp only [hsmIdx, hinits, hid, Function.update_apply, List.mem_singleton]
      split
      · rename_i hj
        rw [hj, BitVec.ofNat_toNat, BitVec.setWidth_eq]
      · rfl
    rw [← hset]
    exact hidx.vcoreInitAt _ init m₁ hinit
  cases hsmExt_done h with
  | refused code _ hinits => exact hframe.setReg _ _ (by rwa [hnone hinits])
  | status state _ hinits =>
    exact hframe.setReg _ _ (hframe.setReg _ _ (by rwa [hnone hinits]))
  | start init hid _ hinits hinit hsignal =>
    have hset := (hone hinits hid hinit).onCthread (m.reg Reg.a0).toNat
      (cthreadSignalHsm_coreIdx .start)
    exact hframe.setReg _ _ (hset _ hsignal)
  | signal i signal _ hinits hsignal =>
    rw [← hnone hinits] at hidx
    exact hframe.setReg _ _ (hidx.onCthread i (cthreadSignalHsm_coreIdx signal) _ hsignal)
  | init init hid _ hinits hinit => exact hframe.setReg _ _ (hone hinits hid hinit)

end Supervisor

namespace Harts

variable {s₀ s s' : Harts} {t : List (Harts × HartLabel)} {core0Init : VCoreInit}

-- ---------------------------------------------------------------------------
-- Calls in a run
-- ---------------------------------------------------------------------------

def caller (s : Harts) (i : Nat) : Sv32 := (s.machine i).setReg Reg.zero 0

structure HsmIns (m : Sv32) (ins : U32) : Prop where
  opcode : Ins.opcodeType ins = OpcodeType.sysType
  func : Ins.func ins = 0
  imm : Ins.iImm ins = 0
  mode : m.core.mode = .supervisor
  extension : m.reg Reg.a7 = Supervisor.hsmEid

def HsmCall (s : Harts) (i : Nat) : Prop :=
  ∃ ins, (s.machine i).Fetches ins ∧ HsmIns (s.caller i) ins

def StartsOver (s : Harts) (l : HartLabel) (j : Nat) : Prop :=
  ∃ i, l = .begin i ∧ s.HsmCall i ∧ j ∈ Supervisor.hsmInits (s.caller i)

/-- The table is made, with whatever `main` has on its stack, and nothing has run yet. -/
structure MainStart (core0Init : VCoreInit) (s : Harts) : Prop where
  idle : ∀ i, s.phase i = .idle
  table : ∀ i, threadsMgrInit core0Init i = .ok (s.cthreads i)

theorem vcoreDispatch_hsm {m : Sv32} {ins : U32} (h : HsmIns m ins) :
    vcoreDispatch Supervisor.env m ins =
      Supervisor.hsmExt m >>= fun m' => .ok (m'.addPc 4) := by
  have hsys : vcoreDispatch Supervisor.env m ins =
      Supervisor.vcoreSysType Supervisor.dispatchTrap m ins := by
    rw [vcoreDispatch, h.opcode]
    rfl
  have hcall : Supervisor.emuSbiCall m = Supervisor.hsmExt m := by
    rw [Supervisor.emuSbiCall, h.extension]
    rfl
  rw [hsys]
  simp only [Supervisor.vcoreSysType, h.func, h.imm, h.mode, if_true, hcall]
  rfl

theorem step_hsmCall {i : Nat} (hcall : s.HsmCall i) (h : Step s (.begin i) s') :
    ∃ m, Supervisor.hsmExt (s.caller i) = .ok m ∧ s' = s.put i (m.addPc 4, .idle) := by
  obtain ⟨ins, hfetch, hins⟩ := hcall
  obtain ⟨-, ins', r, hfetch', hbegun, rfl⟩ := step_begin h
  cases Except.ok.inj (hfetch.symm.trans hfetch')
  have hop : Ins.opcodeType ins ≠ OpcodeType.aType := by
    rw [hins.opcode]
    decide
  cases hbegun with
  | other _ hr =>
    rw [show (s.machine i).setReg Reg.zero 0 = s.caller i from rfl, vcoreDispatch_hsm hins] at hr
    obtain ⟨m, hm, hr⟩ := bind_eq_ok.mp hr
    cases hr
    exact ⟨m, hm, rfl⟩
  | _ => contradiction

-- ---------------------------------------------------------------------------
-- Every record keeps its index
-- ---------------------------------------------------------------------------

def coreIdx (s : Harts) (j : Nat) : U32 := (s.cthreads j).core.coreIdx

theorem machine_coreIdx (s : Harts) (i : Nat) : Machine.CoreIdx s.coreIdx i (s.machine i) := by
  refine ⟨rfl, fun j => ?_⟩
  rw [Machine.CoreIdx.cthread_coreIdx]
  split
  · rename_i hj
    rw [hj]
    rfl
  · rfl

theorem caller_coreIdx (s : Harts) (i : Nat) : Machine.CoreIdx s.coreIdx i (s.caller i) :=
  (Machine.CoreIdx.frame _ _).setReg _ _ (s.machine_coreIdx i)

theorem put_coreIdx {idx : Nat → U32} {i : Nat} {r : Sv32 × Phase}
    (h : Machine.CoreIdx idx i r.1) : (s.put i r).coreIdx = idx := by
  funext j
  have hj := h.coreIdx j
  rw [Machine.CoreIdx.cthread_coreIdx, h.hart] at hj
  simp only [← hj, coreIdx, put, Function.update_apply]
  split <;> rfl

theorem begun_coreIdx {idx : Nat → U32} {i : Nat} {m : Sv32} {ins : U32} {r : Sv32 × Phase}
    (hm : Machine.CoreIdx idx i m) (hins : ¬ HsmIns m ins) (h : Begun Supervisor.env m ins r) :
    Machine.CoreIdx idx i r.1 := by
  have hframe := Machine.CoreIdx.frame idx i
  have htrap (code v) : Ensures (Supervisor.env.dispatchTrap m code v) (Machine.CoreIdx idx i) :=
    Supervisor.dispatchTrap_frame hframe hm code v
  have hcore (core : VCore) (h : core.coreIdx = m.core.coreIdx) :
      Machine.CoreIdx idx i { m with core } := by
    refine ⟨hm.hart, fun j => ?_⟩
    rw [← hm.coreIdx j, Machine.CoreIdx.cthread_coreIdx, Machine.CoreIdx.cthread_coreIdx, ← h]
  cases h with
  | lr | sc => exact hcore _ rfl
  | scRefused => exact hframe.setReg _ _ hm
  | amo => exact hm
  | trap _ _ h => exact hframe.addPc 4 (htrap _ _ _ h)
  | other hop h =>
    refine vcoreDispatch_frame hframe hm htrap ins (fun hsys => ?_) hop _ h
    refine Supervisor.vcoreSysType_frame hframe hm ins (fun hfunc himm hmode => ?_) ?_
    · refine Supervisor.emuSbiCall_frame hframe hm fun hext => ?_
      exact absurd ⟨hsys, hfunc, himm, hmode, hext⟩ hins
    · exact .foldlM (fun _ j h => h.onCthread j cthreadSignalHalt_coreIdx) _ hm

theorem accessed_coreIdx {idx : Nat → U32} {i : Nat} {m : Sv32} {p : Phase} {r : Sv32 × Phase}
    (hm : Machine.CoreIdx idx i m) (h : p.Accessed m r) : Machine.CoreIdx idx i r.1 := by
  have hframe := Machine.CoreIdx.frame idx i
  have hfinish (vmem ins v) : Machine.CoreIdx idx i (m.finish vmem ins v) :=
    hframe.addPc 4 (hframe.setReg _ _ (hframe.setVmem vmem hm))
  cases h with
  | lr =>
    refine hframe.addPc 4 ⟨hm.hart, fun j => ?_⟩
    rw [← hm.coreIdx j, Machine.CoreIdx.cthread_coreIdx, Machine.CoreIdx.cthread_coreIdx]
  | scStored | amoDone | casStored => exact hfinish _ _ _
  | scRetry | amoRead | casRetry => exact hm

theorem step_coreIdx (h : Step s l s') (j : Nat) :
    (StartsOver s l j ∧ s'.coreIdx j = BitVec.ofNat 32 j) ∨
      (¬ StartsOver s l j ∧ s'.coreIdx j = s.coreIdx j) := by
  cases l with
  | begin i =>
    by_cases hcall : s.HsmCall i
    · obtain ⟨m, hm, rfl⟩ := step_hsmCall hcall h
      have hidx := Supervisor.hsmExt_coreIdx (s.caller_coreIdx i) m hm
      rw [put_coreIdx (r := (m.addPc 4, .idle)) ((Machine.CoreIdx.frame _ _).addPc 4 hidx)]
      by_cases hj : j ∈ Supervisor.hsmInits (s.caller i)
      · exact .inl ⟨⟨i, rfl, hcall, hj⟩, if_pos hj⟩
      · refine .inr ⟨?_, if_neg hj⟩
        rintro ⟨i', hi', -, hj'⟩
        cases hi'
        exact hj hj'
    · obtain ⟨-, ins, r, hfetch, hbegun, rfl⟩ := step_begin h
      have hins : ¬ HsmIns (s.caller i) ins := fun hins => hcall ⟨ins, hfetch, hins⟩
      refine .inr ⟨?_, congrFun (put_coreIdx (begun_coreIdx (s.caller_coreIdx i) hins hbegun)) j⟩
      rintro ⟨i', hi', hcall', -⟩
      cases hi'
      exact hcall hcall'
  | access i =>
    refine .inr ⟨by rintro ⟨_, ⟨⟩, -⟩, ?_⟩
    obtain ⟨r, haccess, rfl⟩ := step_access h
    exact congrFun (put_coreIdx (accessed_coreIdx (s.machine_coreIdx i) haccess)) j
  | interrupts i =>
    refine .inr ⟨by rintro ⟨_, ⟨⟩, -⟩, ?_⟩
    obtain ⟨-, m, hm, rfl⟩ := step_interrupts h
    have hidx := Supervisor.checkInterrupts_frame (Machine.CoreIdx.frame _ _) (s.machine_coreIdx i)
    exact congrFun (put_coreIdx (r := (m, .idle)) (hidx m hm)) j
  | record i =>
    refine .inr ⟨by rintro ⟨_, ⟨⟩, -⟩, ?_⟩
    rw [coreIdx, (step_record h).2.2 j]
    rfl

def StartedOver (t : List (Harts × HartLabel)) (j : Nat) : Prop := ∃ e ∈ t, StartsOver e.1 e.2 j

theorem startedOver_snoc {l : HartLabel} {j : Nat} :
    StartedOver (t ++ [(s, l)]) j ↔ StartedOver t j ∨ StartsOver s l j := by
  simp only [StartedOver, List.mem_append, List.mem_singleton, or_and_right, exists_or,
    exists_eq_left]

theorem run_coreIdx (hrun : Run s₀ t s) (j : Nat) :
    (StartedOver t j ∧ s.coreIdx j = BitVec.ofNat 32 j) ∨
      (¬ StartedOver t j ∧ s.coreIdx j = s₀.coreIdx j) := by
  induction hrun with
  | nil => exact .inr ⟨by rintro ⟨e, ⟨⟩, -⟩, rfl⟩
  | snoc _ hs ih =>
    rw [startedOver_snoc]
    rcases step_coreIdx hs j with ⟨hover, hidx⟩ | ⟨hover, hidx⟩
    · exact .inl ⟨.inr hover, hidx⟩
    · rcases ih with ⟨hover', hidx'⟩ | ⟨hover', hidx'⟩
      · exact .inl ⟨.inl hover', hidx.trans hidx'⟩
      · exact .inr ⟨not_or.mpr ⟨hover', hover⟩, hidx.trans hidx'⟩

theorem MainStart.coreIdx (h : MainStart core0Init s) (j : Nat) :
    s.coreIdx j = if j = 0 then core0Init.id else BitVec.ofNat 32 j := by
  have hj := h.table j
  rw [Harts.coreIdx]
  unfold threadsMgrInit at hj
  split at hj
  · rename_i h0
    rw [if_pos h0, ← Except.ok.inj hj]
    rfl
  · rename_i h0
    rw [if_neg h0, ← Except.ok.inj hj]
    rfl

/-- The record of a core has its own index, but for the first core until it is started over. -/
theorem coreIdx_eq_self (h0 : MainStart core0Init s₀) (hrun : Run s₀ t s) {j : Nat}
    (hj : j < 2 ^ 32) :
    (s.coreIdx j).toNat = j ↔ j ≠ 0 ∨ core0Init.id = 0 ∨ StartedOver t 0 := by
  have hself : (BitVec.ofNat 32 j).toNat = j := Nat.mod_eq_of_lt hj
  by_cases hj0 : j = 0
  · subst hj0
    simp only [ne_eq, not_true_eq_false, false_or]
    rcases run_coreIdx hrun 0 with ⟨hover, hidx⟩ | ⟨hover, hidx⟩
    · rw [hidx]
      exact ⟨fun _ => .inr hover, fun _ => hself⟩
    · rw [hidx, h0.coreIdx, if_pos rfl]
      constructor
      · intro hid
        exact .inl (BitVec.eq_of_toNat_eq hid)
      · rintro (hid | hover')
        · rw [hid]
          rfl
        · exact absurd hover' hover
  · refine ⟨fun _ => .inl hj0, fun _ => ?_⟩
    rcases run_coreIdx hrun j with ⟨-, hidx⟩ | ⟨-, hidx⟩
    · rw [hidx, hself]
    · rw [hidx, h0.coreIdx, if_neg hj0, hself]

-- ---------------------------------------------------------------------------
-- Stops and suspends
-- ---------------------------------------------------------------------------

theorem onlySelf_stop {m : Sv32} (ha6 : m.reg Reg.a6 = 1) (hhart : m.host.hart < m.host.ctx.cores) :
    Supervisor.OnlySelf m ↔ m.core.coreIdx.toNat = m.host.hart := by
  have hsignals : Supervisor.hsmSignals m = [m.core.coreIdx.toNat] := by
    rw [Supervisor.hsmSignals, ha6]
    rfl
  have hinits : Supervisor.hsmInits m = [] := by
    rw [Supervisor.hsmInits, ha6]
    rfl
  rw [Supervisor.OnlySelf, hsignals, hinits]
  simp only [List.append_nil, List.mem_singleton, forall_eq]
  exact ⟨fun h => h.1, fun h => ⟨h, by rwa [h]⟩⟩

theorem onlySelf_suspend {m : Sv32} (ha6 : m.reg Reg.a6 = 3)
    (hhart : m.host.hart < m.host.ctx.cores) :
    Supervisor.OnlySelf m ↔ m.vmem.size ≤ (m.reg Reg.a1).toNat ∨
      (m.reg Reg.a0 ≠ Supervisor.hsmRetentiveSuspend ∧
        m.reg Reg.a0 ≠ Supervisor.hsmNonRetentiveSuspend) ∨
      (m.reg Reg.a0).toNat = m.host.hart := by
  have haccess : Supervisor.hsmSignals m ++ Supervisor.hsmInits m =
      if m.vmem.size ≤ (m.reg Reg.a1).toNat then []
      else if m.reg Reg.a0 = Supervisor.hsmRetentiveSuspend ∨
        m.reg Reg.a0 = Supervisor.hsmNonRetentiveSuspend then [(m.reg Reg.a0).toNat]
      else [] := by
    rw [Supervisor.hsmSignals, Supervisor.hsmInits, ha6]
    by_cases haddr : m.vmem.size ≤ (m.reg Reg.a1).toNat
    · simp [haddr]
    · by_cases hret : m.reg Reg.a0 = Supervisor.hsmRetentiveSuspend
      · simp [haddr, hret]
      · by_cases hnon : m.reg Reg.a0 = Supervisor.hsmNonRetentiveSuspend
        · rw [hnon] at hret
          simp [haddr, hret, hnon]
        · simp [haddr, hret, hnon]
  rw [Supervisor.OnlySelf, haccess]
  split
  · rename_i haddr
    simp [haddr]
  · rename_i haddr
    split
    · rename_i hkind
      rw [← not_or]
      simp only [haddr, hkind, List.mem_singleton, forall_eq, not_true_eq_false, false_or]
      exact ⟨fun h => h.1, fun h => ⟨h, by rwa [h]⟩⟩
    · rename_i hkind
      rw [← not_or]
      simp [hkind]

theorem run_cores (hrun : Run s₀ t s) : s.ctx.cores = s₀.ctx.cores := by rw [run_ctx hrun]

/-- When a call of `hart_stop` or `hart_suspend` keeps to the record of its own hart. -/
theorem hsmCall_iff (h0 : MainStart core0Init s₀) (hcores : s₀.ctx.cores ≤ 2 ^ 32)
    (hrun : Run s₀ t s) {i : Nat} (hi : i < s.ctx.cores) (hcall : s.HsmCall i) :
    (∀ s', Step s (.begin i) s' → ∃ m, Supervisor.hsmExt (s.caller i) = .ok m ∧
      s' = s.put i (m.addPc 4, .idle)) ∧
    ((s.caller i).reg Reg.a6 = 1 →
      (Supervisor.OnlySelf (s.caller i) ↔ i ≠ 0 ∨ core0Init.id = 0 ∨ StartedOver t 0)) ∧
    ((s.caller i).reg Reg.a6 = 3 →
      (Supervisor.OnlySelf (s.caller i) ↔
        s.vmem.size ≤ ((s.caller i).reg Reg.a1).toNat ∨
        ((s.caller i).reg Reg.a0 ≠ Supervisor.hsmRetentiveSuspend ∧
          (s.caller i).reg Reg.a0 ≠ Supervisor.hsmNonRetentiveSuspend) ∨
        ((s.caller i).reg Reg.a0).toNat = i)) := by
  refine ⟨fun s' h => step_hsmCall hcall h, fun ha6 => ?_, fun ha6 => ?_⟩
  · have hlt : i < 2 ^ 32 := Nat.lt_of_lt_of_le (run_cores hrun ▸ hi) hcores
    rw [← coreIdx_eq_self h0 hrun hlt]
    exact onlySelf_stop ha6 hi
  · exact onlySelf_suspend ha6 hi

-- ---------------------------------------------------------------------------
-- The first hart alone
-- ---------------------------------------------------------------------------

/-- One core, with `words` at address 0, where it starts; `id` is what was on the stack. -/
def mainInit (id : U32) : VCoreInit :=
  { pc := 0, sp := 0, id, opaqueArg := 0, gp := 0, elfBrk := 0 }

def mainBoot (words : List U32) (id : U32) : Harts where
  ctx := { cores := 1, debug := false }
  vmem := .ofWords words
  cthreads i :=
    if i = 0 then ⟨.halted, .halt, .start, vcoreInit (some (mainInit id))⟩
    else ⟨.halted, .halt, .stop, vcoreInit (some (mainInit (BitVec.ofNat 32 i)))⟩
  phase _ := .idle

theorem mainBoot_start (words : List U32) (id : U32) :
    MainStart (mainInit id) (mainBoot words id) where
  idle _ := rfl
  table i := by
    by_cases hi : i = 0
    · simp only [threadsMgrInit, mainBoot, hi, if_true]
      rfl
    · simp only [threadsMgrInit, mainBoot, hi, if_false]
      rfl

/-- `LUI a7, 0x485`, `ADDI a7, a7, 0x34D`, `ADDI a6, x0, 1`, `ECALL` -/
def stopWords : List U32 := [0x004858B7, 0x34D88893, 0x00100813, 0x00000073]

/-- `LUI a0, 0x80000`, then the same with function 3 -/
def suspendWords : List U32 := [0x80000537, 0x004858B7, 0x34D88893, 0x00300813, 0x00000073]

instance decidableOnlySelf (m : Sv32) : Decidable (Supervisor.OnlySelf m) :=
  inferInstanceAs (Decidable (∀ j ∈ Supervisor.hsmSignals m ++ Supervisor.hsmInits m,
    j = m.host.hart ∧ j < m.host.ctx.cores))

theorem hsmCall_of_ecall {i : Nat} (hfetch : (s.machine i).Fetches 0x73)
    (hmode : (s.caller i).core.mode = .supervisor)
    (hext : (s.caller i).reg Reg.a7 = Supervisor.hsmEid) : s.HsmCall i :=
  ⟨0x73, hfetch, by decide, by decide, by decide, hmode, hext⟩

theorem hsmCall_iff_boot : ∃ t s, Run (mainBoot stopWords 0) t s ∧ s.HsmCall 0 ∧
    Supervisor.OnlySelf (s.caller 0) := by
  obtain ⟨t, s, hrun, hfetch, hmode, hext, hcores, ha6⟩ :=
    Lts.exists_run next (s := mainBoot stopWords 0) [.begin 0, .begin 0, .begin 0]
      (Q := fun _ s => (s.machine 0).Fetches 0x73 ∧ (s.caller 0).core.mode = .supervisor ∧
        (s.caller 0).reg Reg.a7 = Supervisor.hsmEid ∧ 0 < s.ctx.cores ∧
        (s.caller 0).reg Reg.a6 = 1) (by decide +kernel)
  have hcall := hsmCall_of_ecall hfetch hmode hext
  have hiff := hsmCall_iff (mainBoot_start stopWords 0) (by decide) hrun hcores hcall
  exact ⟨t, s, hrun, hcall, (hiff.2.1 ha6).mpr (.inr (.inl rfl))⟩

/-- The first hart stops the record that its stack has named; and, with any index, a
non-retentive suspend initialises a record that is not there. -/
theorem hsmCall_fails :
    (∃ t s, MainStart (mainInit 5) (mainBoot stopWords 5) ∧ Run (mainBoot stopWords 5) t s ∧
      0 < s.ctx.cores ∧ s.HsmCall 0 ∧ (s.caller 0).reg Reg.a6 = 1 ∧
      ¬ Supervisor.OnlySelf (s.caller 0) ∧
      Supervisor.hsmSignals (s.caller 0) = [5]) ∧
    (∃ t s, MainStart (mainInit 0) (mainBoot suspendWords 0) ∧
      Run (mainBoot suspendWords 0) t s ∧ 0 < s.ctx.cores ∧ s.HsmCall 0 ∧
      (s.caller 0).reg Reg.a6 = 3 ∧ ¬ Supervisor.OnlySelf (s.caller 0) ∧
      Supervisor.hsmInits (s.caller 0) = [0x80000000]) := by
  constructor
  · obtain ⟨t, s, hrun, hfetch, hmode, hext, hcores, ha6, hnot, hsignals⟩ :=
      Lts.exists_run next (s := mainBoot stopWords 5) [.begin 0, .begin 0, .begin 0]
        (Q := fun _ s => (s.machine 0).Fetches 0x73 ∧ (s.caller 0).core.mode = .supervisor ∧
          (s.caller 0).reg Reg.a7 = Supervisor.hsmEid ∧ 0 < s.ctx.cores ∧
          (s.caller 0).reg Reg.a6 = 1 ∧ ¬ Supervisor.OnlySelf (s.caller 0) ∧
          Supervisor.hsmSignals (s.caller 0) = [5]) (by decide +kernel)
    exact ⟨t, s, mainBoot_start _ _, hrun, hcores, hsmCall_of_ecall hfetch hmode hext, ha6, hnot,
      hsignals⟩
  · obtain ⟨t, s, hrun, hfetch, hmode, hext, hcores, ha6, hnot, hinits⟩ :=
      Lts.exists_run next (s := mainBoot suspendWords 0) [.begin 0, .begin 0, .begin 0, .begin 0]
        (Q := fun _ s => (s.machine 0).Fetches 0x73 ∧ (s.caller 0).core.mode = .supervisor ∧
          (s.caller 0).reg Reg.a7 = Supervisor.hsmEid ∧ 0 < s.ctx.cores ∧
          (s.caller 0).reg Reg.a6 = 3 ∧ ¬ Supervisor.OnlySelf (s.caller 0) ∧
          Supervisor.hsmInits (s.caller 0) = [0x80000000]) (by decide +kernel)
    exact ⟨t, s, mainBoot_start _ _, hrun, hcores, hsmCall_of_ecall hfetch hmode hext, ha6, hnot,
      hinits⟩

end Harts

end SwitchV32
