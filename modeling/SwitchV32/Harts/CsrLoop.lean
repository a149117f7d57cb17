import SwitchV32.Harts.Supervised

/-!
# Harts that stay at a CSR instruction

A CSR instruction leaves the program counter where it is, so a hart that comes
to one executes it again and again and never writes a second CSR. An interrupt
needs a bit in SIE and one in SIP: no hart ever has both.
-/

namespace SwitchV32

open Supervisor

-- ---------------------------------------------------------------------------
-- The instruction
-- ---------------------------------------------------------------------------

structure CsrIns (ins : U32) (r : Reg) : Prop where
  opcode : Ins.opcodeType ins = OpcodeType.sysType
  func : Ins.func ins ≠ 0
  csr : findCsr (Ins.iImm ins) = some r

variable {m : Sv32} {ins : U32} {r : Reg} {p : Sv32 × Phase}

theorem vcoreDispatch_csrIns (hmode : m.core.mode = .supervisor) (hins : CsrIns ins r) :
    vcoreDispatch Supervisor.env m ins = csrAccess dispatchTrap m ins (some r) := by
  have hsys : vcoreDispatch Supervisor.env m ins = vcoreSysType dispatchTrap m ins := by
    rw [vcoreDispatch, hins.opcode]
    rfl
  rw [hsys]
  simp only [vcoreSysType, if_neg hins.func, if_pos (findCsr_some hins.csr).2.1, hmode, ne_eq,
    not_true_eq_false, if_false, hins.csr]

theorem begun_csrIns (hmode : m.core.mode = .supervisor) (hins : CsrIns ins r)
    (h : Begun Supervisor.env m ins p) : ∃ m₁ m', CsrDid m ins r m₁ m' ∧ p = (m', .idle) := by
  have hop : Ins.opcodeType ins ≠ OpcodeType.aType := by
    rw [hins.opcode]
    decide
  cases h with
  | other _ h =>
    rw [vcoreDispatch_csrIns hmode hins] at h
    obtain ⟨m₁, hdid⟩ := csrAccess_did h
    exact ⟨m₁, _, hdid, rfl⟩
  | _ => contradiction

-- ---------------------------------------------------------------------------
-- Where a hart stands
-- ---------------------------------------------------------------------------

namespace Harts

variable {s₀ s s' : Harts} {core0Init : VCoreInit} {i j : Nat}

def AtCsr (s : Harts) (j : Nat) (r : Reg) : Prop :=
  s.phase j = .idle ∧ ∃ ins, (s.machine j).Fetches ins ∧ CsrIns ins r

/-- No step of the debugger moves a program counter, and no step changes the instruction that a
hart stays at. -/
structure ProgramStep (s : Harts) (l : DebuggedLabel) (s' : Harts) : Prop where
  step : DebuggedStep s l s'
  keepsPc : ∀ input coreId regId, l = .writeReg input coreId regId → regId ≠ Reg.pc
  keepsCode : ∀ j r, s.AtCsr j r → memRw s'.vmem ((s.machine j).reg Reg.pc) =
    memRw s.vmem ((s.machine j).reg Reg.pc)

/-- No interrupt is enabled and none is pending, as long as the hart has come to no CSR
instruction for SIE or SIP. -/
inductive NeverDue (s : Harts) (j : Nat) : Prop
  | clear (hsie : (s.machine j).reg Reg.sie = 0) (hsip : (s.machine j).reg Reg.sip = 0)
  | atSie (hat : s.AtCsr j Reg.sie) (hsip : (s.machine j).reg Reg.sip = 0)
  | atSip (hat : s.AtCsr j Reg.sip) (hsie : (s.machine j).reg Reg.sie = 0)

theorem NeverDue.checkInterrupts (h : s.NeverDue j) :
    Supervisor.env.checkInterrupts (s.machine j) = .ok (s.machine j) := by
  have hand : (s.machine j).reg Reg.sie = 0 ∨ (s.machine j).reg Reg.sip = 0 := by
    cases h with
    | clear hsie | atSip _ hsie => exact .inl hsie
    | atSie _ hsip => exact .inr hsip
  have hzero (k : Nat) : bit 0#32 k = false := bit_eq_false (by simp)
  have hpending : ∀ code, pending (s.machine j) code = false := by
    intro code
    rcases hand with h | h <;> cases code <;>
      simp [pending, h, sieSeie, sieSsie, sieStie, sipSeip, sipSsip, sipStip, hzero]
  refine checkInterrupts_passes fun _ => ?_
  simp [sources, hpending]

theorem AtCsr.unique {r₁ r₂ : Reg} (h₁ : s.AtCsr j r₁) (h₂ : s.AtCsr j r₂) : r₁ = r₂ := by
  obtain ⟨-, ins₁, hfetch₁, hins₁⟩ := h₁
  obtain ⟨-, ins₂, hfetch₂, hins₂⟩ := h₂
  cases Except.ok.inj (hfetch₁.symm.trans hfetch₂)
  exact Option.some.inj (hins₁.csr.symm.trans hins₂.csr)

theorem AtCsr.congr {r : Reg} (h : s.AtCsr j r) (hphase : s'.phase j = s.phase j)
    (hpc : (s'.machine j).reg Reg.pc = (s.machine j).reg Reg.pc)
    (hcode : memRw s'.vmem ((s.machine j).reg Reg.pc) =
      memRw s.vmem ((s.machine j).reg Reg.pc)) : s'.AtCsr j r := by
  obtain ⟨hidle, ins, hfetch, hins⟩ := h
  refine ⟨hphase.trans hidle, ins, ?_, hins⟩
  rw [Machine.Fetches, hpc]
  exact hcode.trans hfetch

theorem NeverDue.congr (h : s.NeverDue j) (hphase : s'.phase j = s.phase j)
    (hreg : ∀ x, x = Reg.pc ∨ x = Reg.sie ∨ x = Reg.sip →
      (s'.machine j).reg x = (s.machine j).reg x)
    (hcode : ∀ r, s.AtCsr j r → memRw s'.vmem ((s.machine j).reg Reg.pc) =
      memRw s.vmem ((s.machine j).reg Reg.pc)) : s'.NeverDue j := by
  have hpc := hreg Reg.pc (.inl rfl)
  have hsie' := hreg Reg.sie (.inr (.inl rfl))
  have hsip' := hreg Reg.sip (.inr (.inr rfl))
  cases h with
  | clear hsie hsip => exact .clear (hsie'.trans hsie) (hsip'.trans hsip)
  | atSie hat hsip => exact .atSie (hat.congr hphase hpc (hcode _ hat)) (hsip'.trans hsip)
  | atSip hat hsie => exact .atSip (hat.congr hphase hpc (hcode _ hat)) (hsie'.trans hsie)

theorem NeverDue.clear_of (h : s.NeverDue j) (hat : ∀ r, ¬ s.AtCsr j r) :
    (s.machine j).reg Reg.sie = 0 ∧ (s.machine j).reg Reg.sip = 0 := by
  cases h with
  | clear hsie hsip => exact ⟨hsie, hsip⟩
  | atSie h | atSip h => exact absurd h (hat _)

-- ---------------------------------------------------------------------------
-- Steps
-- ---------------------------------------------------------------------------

/-- A core with nothing enabled and pending, or one that is not `i` and has kept its registers. -/
def ClearOr (s : Harts) (i k : Nat) (core : VCore) : Prop :=
  (core.regs Reg.sie = 0 ∧ core.regs Reg.sip = 0) ∨
    (k ≠ i ∧ core.regs = (s.cthreads k).core.regs)

theorem clearOr_frame (s : Harts) (i : Nat) :
    CoreFrame (fun r => r ≠ Reg.sie ∧ r ≠ Reg.sip) (fun _ => True) i (s.ClearOr i) where
  setReg v hr h := by
    rcases h with ⟨hsie, hsip⟩ | ⟨hne, -⟩
    · refine .inl ⟨?_, ?_⟩
      · rwa [VCore.regs_setReg_ne _ v (Ne.symm hr.1)]
      · rwa [VCore.regs_setReg_ne _ v (Ne.symm hr.2)]
    · exact absurd rfl hne
  setMode _ h := h
  setLr _ _ h := h
  setExit _ h := h
  init _ _ := .inl ⟨rfl, rfl⟩

theorem All.clearOr (hi : (s.machine i).reg Reg.sie = 0 ∧ (s.machine i).reg Reg.sip = 0) :
    s.All (s.ClearOr i) := by
  intro k _
  by_cases hk : k = i
  · subst hk
    exact .inl hi
  · exact .inr ⟨hk, rfl⟩

theorem All.neverDue (h : ∀ k < s.ctx.cores, s.NeverDue k) (hall : s'.All (s.ClearOr i))
    (hctx : s'.ctx = s.ctx) (hphase : ∀ k, k ≠ i → s'.phase k = s.phase k)
    (hcode : ∀ k r, s.AtCsr k r → memRw s'.vmem ((s.machine k).reg Reg.pc) =
      memRw s.vmem ((s.machine k).reg Reg.pc)) : ∀ k < s'.ctx.cores, s'.NeverDue k := by
  intro k hk
  rcases hall k hk with ⟨hsie, hsip⟩ | ⟨hki, hregs⟩
  · exact .clear hsie hsip
  · rw [hctx] at hk
    exact (h k hk).congr (hphase k hki) (fun x _ => congrFun hregs x) (hcode k)

/-- The hart executes the CSR instruction that it is at. -/
theorem NeverDue.access {m₁ m' : Sv32} (h : s.NeverDue i) (hat : s.AtCsr i r)
    (hdid : CsrDid ((s.machine i).setReg Reg.zero 0) ins r m₁ m') :
    (s.put i (m', .idle)).NeverDue i := by
  have hkept := hdid.kept
  have hreg (x) (hx : x = Reg.pc ∨ ¬ x.General) (hr : x ≠ r) (hzero : x ≠ Reg.zero) :
      ((s.put i (m', .idle)).machine i).reg x = (s.machine i).reg x := by
    rw [put_reg, hkept.reg x hx hr, Machine.reg_setReg_ne _ hzero]
  have hsie (hr : Reg.sie ≠ r) := hreg Reg.sie (.inr (by decide)) hr (by decide)
  have hsip (hr : Reg.sip ≠ r) := hreg Reg.sip (.inr (by decide)) hr (by decide)
  have hat' : (s.put i (m', .idle)).AtCsr i r := by
    have hpc : Reg.pc ≠ r := by
      obtain ⟨-, ins, -, hins⟩ := hat
      exact (findCsr_some hins.csr).1.symm
    refine hat.congr ?_ (hreg _ (.inl rfl) hpc (by decide)) ?_
    · rw [put_phase_self, hat.1]
    · rw [put_vmem, hkept.vmem]
      rfl
  by_cases hr : Reg.sie = r
  · subst hr
    refine .atSie hat' ((hsip (by decide)).trans ?_)
    cases h with
    | clear _ hsip | atSie _ hsip => exact hsip
    | atSip hat₂ => exact absurd (hat₂.unique hat) (by decide)
  by_cases hr' : Reg.sip = r
  · subst hr'
    refine .atSip hat' ((hsie (by decide)).trans ?_)
    cases h with
    | clear hsie | atSip _ hsie => exact hsie
    | atSie hat₂ => exact absurd (hat₂.unique hat) (by decide)
  cases h with
  | clear hsie₀ hsip₀ => exact .clear ((hsie hr).trans hsie₀) ((hsip hr').trans hsip₀)
  | atSie hat₂ => exact absurd (hat₂.unique hat) hr
  | atSip hat₂ => exact absurd (hat₂.unique hat) hr'

theorem Step.neverDue {l : HartLabel} (hsup : s.All fun _ => Supervised)
    (h : ∀ k < s.ctx.cores, s.NeverDue k) (hs : Step s l s')
    (hcode : ∀ k r, s.AtCsr k r → memRw s'.vmem ((s.machine k).reg Reg.pc) =
      memRw s.vmem ((s.machine k).reg Reg.pc)) : ∀ k < s'.ctx.cores, s'.NeverDue k := by
  have hctx := step_ctx hs
  have hR (r : Reg) (hr : ¬ Warl r) : r ≠ Reg.sie ∧ r ≠ Reg.sip := by
    refine ⟨?_, ?_⟩ <;>
      · rintro rfl
        exact hr (by simp [Warl])
  have hgeneral (r : Reg) (hr : r.General) : ¬ Warl r := by
    rintro (rfl | rfl | rfl) <;> exact absurd hr (by decide)
  cases l with
  | begin i =>
    have hi := step_hart_lt hs rfl
    have hphase (k) (hk : k ≠ i) : s'.phase k = s.phase k :=
      step_phase hs fun heq => hk (Option.some.inj heq).symm
    obtain ⟨hidle, ins, p, hfetch, hbegun, rfl⟩ := step_begin hs
    by_cases hcsr : ∃ r, CsrIns ins r
    · obtain ⟨r, hins⟩ := hcsr
      obtain ⟨m₁, m', hdid, rfl⟩ := begun_csrIns (hsup i hi).mode hins hbegun
      intro k hk
      by_cases hki : k = i
      · rw [hki]
        exact (h i hi).access ⟨hidle, ins, hfetch, hins⟩ hdid
      · refine (h k hk).congr (hphase k hki) (fun x _ => ?_) (hcode k)
        simp only [Machine.reg, machine, put_core_ne s (m', .idle) hki]
        exact congrArg (fun host => (host.cthreads k).core.regs x) hdid.kept.host
    · have hclear := (h i hi).clear_of fun r hat => by
        obtain ⟨-, ins', hfetch', hins'⟩ := hat
        cases Except.ok.inj (hfetch.symm.trans hfetch')
        exact hcsr ⟨r, hins'⟩
      have hzero := (AllCores.frame (s.clearOr_frame i) _).setReg 0 (r := Reg.zero) (by decide)
        ((All.clearOr hclear).machine hi)
      have hbegun' := AllCores.begun (s.clearOr_frame i) hR trivial hzero
        (fun hop hfunc _ _ r hr => absurd ⟨r, hop, hfunc, hr⟩ hcsr) hbegun
      exact All.neverDue h (.put hbegun') hctx hphase hcode
  | access i =>
    have hi := step_hart_lt hs rfl
    have hphase (k) (hk : k ≠ i) : s'.phase k = s.phase k :=
      step_phase hs fun heq => hk (Option.some.inj heq).symm
    obtain ⟨p, haccess, rfl⟩ := step_access hs
    have hclear := (h i hi).clear_of fun r hat => by
      rw [hat.1] at haccess
      cases haccess
    have haccess' := AllCores.accessed (s.clearOr_frame i) (fun r hr => hR r (hgeneral r hr))
      ((All.clearOr hclear).machine hi) haccess
    exact All.neverDue h (.put haccess') hctx hphase hcode
  | interrupts i =>
    have hi := step_hart_lt hs rfl
    obtain ⟨hidle, m, hm, rfl⟩ := step_interrupts hs
    cases (h i hi).checkInterrupts.symm.trans hm
    intro k hk
    have hphase : (s.put i (s.machine i, .idle)).phase k = s.phase k := by
      by_cases hki : k = i
      · rw [hki, put_phase_self, hidle]
      · exact put_phase_ne s _ hki
    refine (h k hk).congr hphase (fun x _ => ?_) fun _ _ => rfl
    by_cases hki : k = i
    · rw [hki, put_reg]
    · simp only [Machine.reg, machine, put_core_ne s _ hki]
  | record =>
    obtain ⟨hphase, hvmem, hcores⟩ := step_record hs
    intro k hk
    rw [hctx] at hk
    refine (h k hk).congr (congrFun hphase k) (fun x _ => ?_) (hcode k)
    exact congrFun (congrArg VCore.regs (hcores k)) x

theorem ProgramStep.neverDue {l : DebuggedLabel} (hsup : s.All fun _ => Supervised)
    (h : ∀ k < s.ctx.cores, s.NeverDue k) (hs : ProgramStep s l s') :
    ∀ k < s'.ctx.cores, s'.NeverDue k := by
  obtain ⟨hstep, hpc, hcode⟩ := hs
  cases hstep with
  | hart hstep => exact hstep.neverDue hsup h hcode
  | writeReg input coreId regId hreg =>
    have hne := hpc input coreId regId rfl
    intro k hk
    refine (h k hk).congr rfl (fun x hx => ?_) fun _ _ => rfl
    have hx : x ≠ regId := by
      rcases hx with rfl | rfl | rfl
      · exact hne.symm
      · rintro rfl
        exact absurd hreg (by decide)
      · rintro rfl
        exact absurd hreg (by decide)
    by_cases hki : k = coreId
    · subst hki
      simp only [Machine.reg, machine, Harts.writeReg, Function.update_self]
      exact VCore.regs_setReg_ne _ _ hx
    · simp only [Machine.reg, machine, Harts.writeReg, Function.update_of_ne hki]
  | writeMem => exact fun k hk => (h k hk).congr rfl (fun _ _ => rfl) (hcode k)

/-- No hart ever takes an interrupt, whatever the harts execute and however their steps
interleave. -/
theorem never_interrupted {t : List (Harts × DebuggedLabel)} (h0 : MainStart core0Init s₀)
    (hrun : Lts.Run ProgramStep s₀ t s) :
    ∀ i < s.ctx.cores, Supervisor.env.checkInterrupts (s.machine i) = .ok (s.machine i) := by
  have hstart : s₀.All fun _ core => core.regs Reg.sie = 0 ∧ core.regs Reg.sip = 0 :=
    All.start (fun _ _ => ⟨rfl, rfl⟩) h0
  have hinv := hrun.inv_all (fun s => s.All (fun _ => Supervised) ∧ ∀ k < s.ctx.cores, s.NeverDue k)
    (fun _ _ _ h hs => ⟨hs.step.supervised h.1, hs.neverDue h.1 h.2⟩)
    ⟨All.start (fun j init => (supervised_frame j).init j init) h0,
      fun k hk => .clear (hstart k hk).1 (hstart k hk).2⟩
  exact fun i hi => (hinv.2 i hi).checkInterrupts

/-- `csrrw zero, sie, a0`, before which the debugger sets `a0`. -/
def sieBoot : Harts := (mainBoot [Rv32.encodeCsr .rw .sie 0 10] 0).writeReg 2 0 Reg.a0

/-- The first core sets a bit of SIE and stays where it is. -/
theorem never_interrupted_boot :
    ∃ t s, t.length = 2 ∧
      Lts.Run ProgramStep (mainBoot [Rv32.encodeCsr .rw .sie 0 10] 0) t s ∧
      ((s.machine 0).reg Reg.sie = 2 ∧ ∀ i < s.ctx.cores,
        Supervisor.env.checkInterrupts (s.machine i) = .ok (s.machine i)) := by
  obtain ⟨s, hs, hvmem, hsie⟩ : ∃ s, Step sieBoot (.begin 0) s ∧ s.vmem = sieBoot.vmem ∧
    (s.machine 0).reg Reg.sie = 2 := ⟨_, rfl, rfl, rfl⟩
  have h₁ : ProgramStep _ _ sieBoot :=
    ⟨.writeReg 2 0 Reg.a0 (by decide), by rintro _ _ _ ⟨⟩; decide, fun _ _ _ => rfl⟩
  have h₂ : ProgramStep sieBoot _ s :=
    ⟨.hart hs, by rintro _ _ _ ⟨⟩, fun _ _ _ => by rw [hvmem]⟩
  have hrun := (Lts.Run.nil.snoc h₁).snoc h₂
  exact ⟨_, _, rfl, hrun, hsie, never_interrupted (mainBoot_start _ 0) hrun⟩

end Harts

end SwitchV32
