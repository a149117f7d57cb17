import SwitchV32.Cpu.Frame
import SwitchV32.Supervisor.TrapEntry

/-!
# What the supervisor build leaves alone

The same for traps, interrupts, CSR accesses and SYSTEM instructions; the SBI
calls and the halt of all cores are left to the property.
-/

namespace SwitchV32.Supervisor

variable {R : Reg → Prop} {M : ExecutionMode → Prop} {Q : Sv32 → Prop} {m : Sv32}

def Warl (r : Reg) : Prop := r = Reg.stvec ∨ r = Reg.sie ∨ r = Reg.sip

instance (r : Reg) : Decidable (Warl r) := inferInstanceAs (Decidable (_ ∨ _))

theorem dispatchTrap_frameWith (hQ : Machine.FrameWith R M Q) (hR : ∀ r, ¬ Warl r → R r)
    (hM : M .supervisor) (hm : Q m) (code v) : Ensures (dispatchTrap m code v) Q := by
  have hset {m : Sv32} {r : Reg} (v) (hr : ¬ Warl r) (h : Q m) : Q (m.setReg r v) :=
    hQ.setReg v (hR r hr) h
  have henter : Q (enter m code) := by
    rw [enter, savePrivilege_eq]
    exact hset _ (by decide) (hQ.setMode hM (hset _ (by decide) hm))
  rw [dispatchTrap_eq]
  refine .ite (fun _ => .pure (hset _ (by decide) (hset _ (by decide) henter))) fun _ => ?_
  cases interruptTarget (m.reg Reg.stvec) code with
  | error e => exact .error
  | ok target => exact .pure (hset _ (by decide) henter)

theorem dispatchTrap_frameOn (hQ : Machine.FrameOn R Q) (hR : ∀ r, ¬ Warl r → R r) (hm : Q m)
    (code v) : Ensures (dispatchTrap m code v) Q :=
  dispatchTrap_frameWith hQ.frameWith hR trivial hm code v

theorem dispatchTrap_frame (hQ : Machine.Frame Q) (hm : Q m) (code v) :
    Ensures (dispatchTrap m code v) Q :=
  dispatchTrap_frameOn (hQ.on fun _ => True) (fun _ _ => trivial) hm code v

theorem csrAccess_frame (hQ : Machine.Frame Q) (hm : Q m) (ins csr) :
    Ensures (csrAccess dispatchTrap m ins csr) Q := by
  have hstvec (m' : Sv32) (h : Q m') :
      Ensures (do
        if Ins.iImm ins = CsrAddr.stvec then
          let r ← derefCsr csr
          if stvecMode (m'.reg r) ≥ 2#32 then return m'.setReg r (m'.reg r &&& ~~~0x3#32)
          else return m'
        else return m') Q := by
    refine .ite (fun _ => .bind .trivial fun r _ => ?_) fun _ => .pure h
    exact .ite (fun _ => .pure (hQ.setReg _ _ h)) fun _ => .pure h
  simp only [csrAccess]
  refine .ite (fun _ => .ite (fun _ => dispatchTrap_frame hQ hm _ _) fun _ =>
    .ite (fun _ => dispatchTrap_frame hQ hm _ _) fun _ => ?_) fun _ => ?_
  all_goals
    split
    · exact .bind .trivial fun r _ => hstvec _ (hQ.setReg _ _ (hQ.setReg _ _ hm))
    · exact hstvec m hm

theorem baseExt_frameWith (hQ : Machine.FrameWith R M Q) (hR : ∀ r : Reg, r.General → R r)
    (hm : Q m) : Q (baseExt m) := by
  have ha0 {m : Sv32} (v) (h : Q m) : Q (m.setReg Reg.a0 v) :=
    hQ.setReg v (hR _ (by decide)) h
  have ha1 {m : Sv32} (v) (h : Q m) : Q (m.setReg Reg.a1 v) :=
    hQ.setReg v (hR _ (by decide)) h
  unfold baseExt
  split
  all_goals first
    | exact ha0 _ (ha1 _ hm)
    | exact ha0 _ (ha0 _ hm)
    | exact ha0 _ hm

theorem emuSbiCall_frameWith (hQ : Machine.FrameWith R M Q) (hR : ∀ r : Reg, r.General → R r)
    (hm : Q m) (hhsm : m.reg Reg.a7 = hsmEid → Ensures (hsmExt m) Q) :
    Ensures (emuSbiCall m) Q := by
  unfold emuSbiCall
  split
  · exact .pure (baseExt_frameWith hQ hR hm)
  · exact hhsm ‹_›
  · exact .pure (hQ.setReg _ (hR _ (by decide)) hm)

theorem emuSbiCall_frameOn (hQ : Machine.FrameOn R Q) (hR : ∀ r : Reg, r.General → R r) (hm : Q m)
    (hhsm : m.reg Reg.a7 = hsmEid → Ensures (hsmExt m) Q) : Ensures (emuSbiCall m) Q :=
  emuSbiCall_frameWith hQ.frameWith hR hm hhsm

theorem emuSbiCall_frame (hQ : Machine.Frame Q) (hm : Q m)
    (hhsm : m.reg Reg.a7 = hsmEid → Ensures (hsmExt m) Q) : Ensures (emuSbiCall m) Q :=
  emuSbiCall_frameOn (hQ.on fun _ => True) (fun _ _ => trivial) hm hhsm

theorem vcoreSysType_frameWith (hQ : Machine.FrameWith R M Q) (hR : ∀ r, ¬ Warl r → R r)
    (hM : M .supervisor) (hm : Q m) (ins)
    (hsbi : Ins.func ins = 0 → Ins.iImm ins = 0 → m.core.mode = .supervisor →
      Ensures (emuSbiCall m) Q)
    (hhalt : Ensures (threadsMgrHaltCores m) Q)
    (hcsr : Ins.func ins ≠ 0 → m.core.mode = .supervisor →
      getCsrPrivilege (Ins.iImm ins) = csrSupervisorLevel →
      ∀ r, findCsr (Ins.iImm ins) = some r → Ensures (csrAccess dispatchTrap m ins (some r)) Q)
    (huser : Ins.func ins ≠ 0 → getCsrPrivilege (Ins.iImm ins) = csrUserLevel →
      Ensures (csrAccess dispatchTrap m ins none) Q) :
    Ensures (vcoreSysType dispatchTrap m ins) Q := by
  have htrap (code v) := dispatchTrap_frameWith hQ hR hM hm code v
  have hadd (m' : Sv32) (h : Q m') : Q (m'.addPc 4) := hQ.setReg _ (hR _ (by decide)) h
  simp only [vcoreSysType]
  refine .ite (fun hfunc => .ite (fun himm => ?_) fun _ => ?_) fun hfunc => ?_
  · refine .ite (fun hmode => ?_) fun _ => .bind (htrap _ _) fun m' h => .pure (hadd m' h)
    exact .bind (hsbi hfunc himm hmode) fun m' h => .pure (hadd m' h)
  · refine .ite (fun _ => ?_) fun _ => htrap _ _
    exact .ite (fun _ => hhalt) fun _ => htrap _ _
  · refine .ite (fun hlevel => .ite (fun _ => htrap _ _) fun hmode => ?_) fun _ => ?_
    · split
      · exact hcsr hfunc (not_not.mp hmode) hlevel _ ‹_›
      · exact htrap _ _
    · exact .ite (fun hlevel => huser hfunc hlevel) fun _ => htrap _ _

theorem vcoreSysType_frameOn (hQ : Machine.FrameOn R Q) (hR : ∀ r, ¬ Warl r → R r) (hm : Q m)
    (ins)
    (hsbi : Ins.func ins = 0 → Ins.iImm ins = 0 → m.core.mode = .supervisor →
      Ensures (emuSbiCall m) Q)
    (hhalt : Ensures (threadsMgrHaltCores m) Q)
    (hcsr : ∀ r, findCsr (Ins.iImm ins) = some r →
      Ensures (csrAccess dispatchTrap m ins (some r)) Q)
    (huser : Ensures (csrAccess dispatchTrap m ins none) Q) :
    Ensures (vcoreSysType dispatchTrap m ins) Q :=
  vcoreSysType_frameWith hQ.frameWith hR trivial hm ins hsbi hhalt (fun _ _ _ => hcsr)
    fun _ _ => huser

theorem vcoreSysType_frame (hQ : Machine.Frame Q) (hm : Q m) (ins)
    (hsbi : Ins.func ins = 0 → Ins.iImm ins = 0 → m.core.mode = .supervisor →
      Ensures (emuSbiCall m) Q)
    (hhalt : Ensures (threadsMgrHaltCores m) Q) :
    Ensures (vcoreSysType dispatchTrap m ins) Q :=
  vcoreSysType_frameOn (hQ.on fun _ => True) (fun _ _ => trivial) hm ins hsbi hhalt
    (fun _ _ => csrAccess_frame hQ hm _ _) (csrAccess_frame hQ hm _ _)

theorem checkInterrupts_frameWith (hQ : Machine.FrameWith R M Q) (hR : ∀ r, ¬ Warl r → R r)
    (hM : M .supervisor) (hm : Q m) : Ensures (checkInterrupts dispatchTrap m) Q := by
  have htest {c : Prop} [Decidable c] (m' : Sv32) (h : Q m') (code v)
      {k : Sv32 → Except Stop Sv32} (hk : ∀ m', Q m' → Ensures (k m') Q) :
      Ensures (if c then dispatchTrap m' code v >>= k else pure m' >>= k) Q :=
    .ite (fun _ => .bind (dispatchTrap_frameWith hQ hR hM h _ _) hk) fun _ => hk m' h
  simp only [checkInterrupts]
  refine .ite (fun _ => .pure hm) fun _ => .ite (fun _ => .pure hm) fun _ => ?_
  refine htest m hm _ _ fun m₁ h₁ => htest m₁ h₁ _ _ fun m₂ h₂ => ?_
  exact .ite (fun _ => dispatchTrap_frameWith hQ hR hM h₂ _ _) fun _ => .pure h₂

theorem checkInterrupts_frameOn (hQ : Machine.FrameOn R Q) (hR : ∀ r, ¬ Warl r → R r) (hm : Q m) :
    Ensures (checkInterrupts dispatchTrap m) Q :=
  checkInterrupts_frameWith hQ.frameWith hR trivial hm

theorem checkInterrupts_frame (hQ : Machine.Frame Q) (hm : Q m) :
    Ensures (checkInterrupts dispatchTrap m) Q :=
  checkInterrupts_frameOn (hQ.on fun _ => True) (fun _ _ => trivial) hm

end SwitchV32.Supervisor
