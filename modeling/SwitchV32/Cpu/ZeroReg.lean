import SwitchV32.User
import SwitchV32.Hsm.OwnRecord
import SwitchV32.Supervisor.Exceptions

/-!
# What an instruction leaves in `x0`

The slot of `x0` is cleared before every fetch and may be written by any
instruction that has a destination. `rdValue` is what that is; past it, nothing
that an iteration does reaches the slot.
-/

namespace SwitchV32

section
variable {σ : Type}

-- ---------------------------------------------------------------------------
-- What goes to `rd`
-- ---------------------------------------------------------------------------

def aOp (func : U32) : Option (Mem → U32 → U32 → Except Stop (U32 × Mem)) :=
  match func with
  | AFunc.aswp => some memAswp
  | AFunc.aadd => some memAadd
  | AFunc.aand => some memAand
  | AFunc.aor => some memAor
  | AFunc.axor => some memAxor
  | AFunc.amax => some memAmax
  | AFunc.amin => some memAmin
  | AFunc.amaxu => some memAmaxu
  | AFunc.aminu => some memAminu
  | _ => none

def aRdValue (m : Machine σ) (ins : U32) : Option U32 :=
  match Ins.aFunc ins with
  | AFunc.lr => none
  | AFunc.sc => some (if m.core.llScFlag then 0 else 1)
  | func => (aOp func).bind fun op =>
    (op m.vmem (m.reg (Ins.rs1Reg ins)) (m.reg (Ins.rs2Reg ins))).toOption.map Prod.fst

/-- What an instruction that is not SYSTEM stores in `rd`, if it comes to that. -/
def rdValue (m : Machine σ) (ins : U32) : Option U32 :=
  let rs1 := m.reg (Ins.rs1Reg ins)
  let rs2 := m.reg (Ins.rs2Reg ins)
  match Ins.opcodeType ins with
  | OpcodeType.rType => rValue (Ins.rFunc ins) rs1 rs2
  | OpcodeType.irType => irValue ins rs1
  | OpcodeType.ilType => (ilValue m.vmem (Ins.func ins) (rs1 + Ins.iImm ins)).bind Except.toOption
  | OpcodeType.jType | OpcodeType.ijType => some (m.reg Reg.pc + 4)
  | OpcodeType.lui => some (Ins.uImm ins)
  | OpcodeType.auipc => some (m.reg Reg.pc + Ins.uImm ins)
  | OpcodeType.aType => aRdValue m ins
  | _ => none

-- ---------------------------------------------------------------------------
-- What is read as an operand
-- ---------------------------------------------------------------------------

/-- The operands of an instruction, each with the value that it sees. `vcore_ij_type` reads
`rs1` after it has written `rd`. -/
def operands (m : Machine σ) (ins : U32) : List (Reg × U32) :=
  let rs1 := (Ins.rs1Reg ins, m.reg (Ins.rs1Reg ins))
  let rs2 := (Ins.rs2Reg ins, m.reg (Ins.rs2Reg ins))
  match Ins.opcodeType ins with
  | OpcodeType.rType | OpcodeType.sType | OpcodeType.bType | OpcodeType.aType => [rs1, rs2]
  | OpcodeType.irType | OpcodeType.ilType | OpcodeType.sysType => [rs1]
  | OpcodeType.ijType =>
    [(Ins.rs1Reg ins, (m.setReg (Ins.rdReg ins) (m.reg Reg.pc + 4)).reg (Ins.rs1Reg ins))]
  | _ => []

/-- A JALR that puts its link where it then reads `x0`. -/
def SelfLink (m : Machine σ) (ins : U32) : Prop :=
  Ins.opcodeType ins = OpcodeType.ijType ∧ Ins.rdReg ins = Reg.zero ∧
    Ins.rs1Reg ins = Reg.zero ∧ m.reg Reg.pc + 4 ≠ 0

-- ---------------------------------------------------------------------------
-- What stays in the slot
-- ---------------------------------------------------------------------------

def Machine.ZeroClear (m : Machine σ) : Prop := m.reg Reg.zero = 0

variable {m : Machine σ} {ins v : U32}

theorem Machine.ZeroClear.setReg {r : Reg} (h : m.ZeroClear) (hr : r = Reg.zero → v = 0) :
    (m.setReg r v).ZeroClear := by
  unfold Machine.ZeroClear
  by_cases hzero : r = Reg.zero
  · rw [hzero, Machine.reg_setReg_self, hr hzero]
  · rw [Machine.reg_setReg_ne m (Ne.symm hzero)]
    exact h

theorem Machine.ZeroClear.setReg_ne {r : Reg} (h : m.ZeroClear) (hr : r ≠ Reg.zero) :
    (m.setReg r v).ZeroClear := h.setReg fun he => absurd he hr

theorem Machine.ZeroClear.addPc (h : m.ZeroClear) (inc : U32) : (m.addPc inc).ZeroClear :=
  h.setReg_ne (by decide)

theorem operands_zero (h : m.ZeroClear) :
    (∀ o ∈ operands m ins, o.1 = Reg.zero → o.2 = 0) ↔ ¬ SelfLink m ins := by
  have hread (r : Reg) (hr : r = Reg.zero) : m.reg r = 0 := by rwa [hr]
  by_cases hop : Ins.opcodeType ins = OpcodeType.ijType
  · have hops : operands m ins = [(Ins.rs1Reg ins,
        (m.setReg (Ins.rdReg ins) (m.reg Reg.pc + 4)).reg (Ins.rs1Reg ins))] := by
      simp only [operands, hop]
      rfl
    simp only [hops, List.mem_singleton, forall_eq, SelfLink, hop, true_and, not_and, not_not]
    constructor
    · intro hsee hrd hrs1
      have hlink := hsee hrs1
      rwa [hrs1, hrd, Machine.reg_setReg_self] at hlink
    · intro hlink hrs1
      by_cases hrd : Ins.rdReg ins = Reg.zero
      · rw [hrs1, hrd, Machine.reg_setReg_self]
        exact hlink hrd hrs1
      · rw [hrs1, Machine.reg_setReg_ne m (Ne.symm hrd)]
        exact h
  · refine iff_of_true ?_ fun hlink => hop hlink.1
    unfold operands
    split
    all_goals simp only [List.mem_cons, List.not_mem_nil, or_false, forall_eq_or_imp, forall_eq]
    all_goals first
      | exact ⟨hread _, hread _⟩
      | exact hread _
      | exact absurd ‹_› hop
      | exact fun _ h => h.elim

theorem ilValue_zero {env : Env σ} (hm : m.ZeroClear)
    (htrap : ∀ code v, Ensures (env.dispatchTrap m code v) Machine.ZeroClear)
    (hrd : Ins.rdReg ins = Reg.zero → ∀ v, (ilValue m.vmem (Ins.func ins)
      (m.reg (Ins.rs1Reg ins) + Ins.iImm ins)).bind Except.toOption = some v → v = 0) :
    Ensures (vcoreIlType env m ins) Machine.ZeroClear := by
  simp only [vcoreIlType]
  split
  · rename_i access haccess
    rw [haccess] at hrd
    cases access with
    | error e => exact .error
    | ok v => exact .pure ((hm.setReg fun hr => hrd hr v rfl).addPc 4)
  · exact .bind (htrap _ _) fun m' h => .pure (h.addPc 4)

theorem amo_zero (hm : m.ZeroClear) {op : Mem → U32 → U32 → Except Stop (U32 × Mem)}
    (hrd : Ins.rdReg ins = Reg.zero → ∀ v,
      (op m.vmem (m.reg (Ins.rs1Reg ins)) (m.reg (Ins.rs2Reg ins))).toOption.map Prod.fst = some v →
        v = 0) : Ensures (m.amo ins op) Machine.ZeroClear := by
  unfold Machine.amo
  cases hop : op m.vmem (m.reg (Ins.rs1Reg ins)) (m.reg (Ins.rs2Reg ins)) with
  | error e => exact .error
  | ok r =>
    obtain ⟨v, vmem⟩ := r
    rw [hop] at hrd
    have hm' : ({ m with vmem } : Machine σ).ZeroClear := hm
    exact .pure ((hm'.setReg fun hr => hrd hr v rfl).addPc 4)

theorem vcoreAType_zero {env : Env σ} (hm : m.ZeroClear)
    (htrap : ∀ code v, Ensures (env.dispatchTrap m code v) Machine.ZeroClear)
    (hrd : Ins.rdReg ins = Reg.zero → ∀ v, aRdValue m ins = some v → v = 0) :
    Ensures (vcoreAType env m ins) Machine.ZeroClear := by
  unfold aRdValue at hrd
  simp only [vcoreAType]
  split
  case h_1 =>
    refine .bind .trivial fun v _ => .pure ?_
    have hm' : ({ m with core := { m.core with llScFlag := true, reserved := v } } :
      Machine σ).ZeroClear := hm
    exact hm'.addPc 4
  case h_2 hfunc =>
    rw [hfunc] at hrd
    split
    · refine .bind .trivial fun vmem _ => .pure ?_
      have hm' : ({ m with core := { m.core with llScFlag := false }, vmem } :
        Machine σ).ZeroClear := hm
      exact (hm'.setReg fun _ => rfl).addPc 4
    · rename_i hflag
      have hone : (if m.core.llScFlag then (0 : U32) else 1) = 1 := if_neg hflag
      exact .pure (hm.setReg fun hr => hrd hr 1 (congrArg some hone))
  case h_12 => exact .bind (htrap _ _) fun m' h => .pure (h.addPc 4)
  all_goals
    rename_i hfunc
    rw [hfunc] at hrd
    exact amo_zero hm hrd

theorem vcoreDispatch_zero {env : Env σ} (hm : m.ZeroClear)
    (htrap : ∀ code v, Ensures (env.dispatchTrap m code v) Machine.ZeroClear)
    (hsys : Ins.opcodeType ins = OpcodeType.sysType →
      Ensures (env.vcoreSysType m ins) Machine.ZeroClear)
    (hrd : Ins.rdReg ins = Reg.zero → ∀ v, rdValue m ins = some v → v = 0) :
    Ensures (vcoreDispatch env m ins) Machine.ZeroClear := by
  have hpc (m' : Machine σ) (h : m'.ZeroClear) :
      Ensures (pure (m'.addPc 4) : Except Stop (Machine σ)) Machine.ZeroClear := .pure (h.addPc 4)
  unfold rdValue at hrd
  simp only [vcoreDispatch]
  split
  case h_1 hop =>
    rw [hop] at hrd
    simp only [vcoreRType]
    split
    · rename_i v hv
      exact hpc _ (hm.setReg fun hr => hrd hr v hv)
    · exact .bind (htrap _ _) hpc
  case h_2 hop =>
    rw [hop] at hrd
    simp only [vcoreIrType]
    split
    · rename_i v hv
      exact hpc _ (hm.setReg fun hr => hrd hr v hv)
    · exact .bind (htrap _ _) hpc
  case h_3 hop =>
    rw [hop] at hrd
    exact ilValue_zero hm htrap hrd
  case h_4 =>
    simp only [vcoreSType]
    split
    · refine .bind .trivial fun vmem _ => hpc _ ?_
      exact hm
    · exact .bind (htrap _ _) hpc
  case h_5 =>
    simp only [vcoreBType]
    split
    · exact .pure (hm.addPc _)
    · exact .bind (htrap _ _) hpc
  case h_6 hop =>
    rw [hop] at hrd
    exact .pure ((hm.setReg fun hr => hrd hr _ rfl).addPc _)
  case h_7 hop =>
    rw [hop] at hrd
    exact .pure ((hm.setReg fun hr => hrd hr _ rfl).setReg_ne (by decide))
  case h_8 hop =>
    rw [hop] at hrd
    exact hpc _ (hm.setReg fun hr => hrd hr _ rfl)
  case h_9 hop =>
    rw [hop] at hrd
    exact hpc _ (hm.setReg fun hr => hrd hr _ rfl)
  case h_10 hop =>
    rw [hop] at hrd
    exact vcoreAType_zero hm htrap hrd
  case h_11 hop => exact hsys hop
  case h_12 => exact htrap _ _

end

-- ---------------------------------------------------------------------------
-- Calls into the table of records
-- ---------------------------------------------------------------------------

section
variable {m : Sv32}

theorem Machine.ZeroClear.putCthread (h : m.ZeroClear) (i : Nat) {ct : Cthread}
    (hct : i = m.host.hart → ct.core.regs Reg.zero = 0) : (m.putCthread i ct).ZeroClear := by
  unfold Machine.ZeroClear Machine.reg Machine.putCthread
  by_cases hi : i = m.host.hart
  · rw [if_pos hi]
    exact hct hi
  · rw [if_neg hi]
    exact h

theorem Machine.ZeroClear.onCthread (h : m.ZeroClear) (i : Nat) {f : Cthread → Cthread}
    (hf : ∀ ct : Cthread, ct.core.regs Reg.zero = 0 → (f ct).core.regs Reg.zero = 0) :
    Ensures (m.onCthread i f) Machine.ZeroClear := by
  refine .ite (fun _ => .pure (h.putCthread i fun hi => hf _ ?_)) fun _ => .error
  rw [Machine.cthread, if_pos hi]
  exact h

theorem cthreadSignalHsm_regs (signal : HsmSignal) (ct : Cthread) :
    (cthreadSignalHsm signal ct).core.regs = ct.core.regs := by
  obtain h | ⟨-, -, h⟩ | ⟨-, h⟩ := cthreadSignalHsm_cases signal ct <;> rw [h]

theorem cthreadSignalHalt_regs (ct : Cthread) :
    (cthreadSignalHalt ct).core.regs = ct.core.regs := by
  obtain ⟨-, h⟩ | ⟨-, -, h⟩ := cthreadSignalHalt_cases ct <;> rw [h]

theorem threadsMgrHaltCores_zero (h : m.ZeroClear) :
    Ensures (threadsMgrHaltCores m) Machine.ZeroClear :=
  .foldlM (fun _ i h => h.onCthread i fun ct hct => by rwa [cthreadSignalHalt_regs]) _ h

theorem vcoreInit_zero (init : VCoreInit) : (vcoreInit (some init)).regs Reg.zero = 0 := rfl

namespace Supervisor

theorem hsmExt_zero (h : m.ZeroClear) : Ensures (hsmExt m) Machine.ZeroClear := by
  have ha0 {m : Sv32} (v : U32) (h : m.ZeroClear) : (m.setReg Reg.a0 v).ZeroClear :=
    h.setReg_ne (by decide)
  have hinit {m₁ : Sv32} {init : VCoreInit}
      (h₁ : Machine.vcoreInitAt m (m.reg Reg.a0).toNat init = .ok m₁) : m₁.ZeroClear :=
    h.onCthread _ (fun _ _ => vcoreInit_zero init) m₁ h₁
  have hsignal {m₁ m₂ : Sv32} (h : m₁.ZeroClear) (signal : HsmSignal) {i : Nat}
      (hs : m₁.onCthread i (cthreadSignalHsm signal) = .ok m₂) : m₂.ZeroClear :=
    h.onCthread i (fun ct hct => by rwa [cthreadSignalHsm_regs]) m₂ hs
  intro m' hm'
  cases hsmExt_done hm' with
  | refused => exact ha0 _ h
  | status => exact ha0 _ (h.setReg_ne (by decide))
  | start init _ _ _ h₁ h₂ => exact ha0 _ (hsignal (hinit h₁) .start h₂)
  | signal i signal _ _ h₁ => exact ha0 _ (hsignal h signal h₁)
  | init init _ _ _ h₁ => exact ha0 _ (hinit h₁)

theorem emuSbiCall_zero (h : m.ZeroClear) : Ensures (emuSbiCall m) Machine.ZeroClear := by
  have ha0 {m : Sv32} (v : U32) (h : m.ZeroClear) : (m.setReg Reg.a0 v).ZeroClear :=
    h.setReg_ne (by decide)
  unfold emuSbiCall
  split
  · refine .pure ?_
    unfold baseExt
    split
    · exact ha0 _ (h.setReg_ne (by decide))
    · exact ha0 _ (ha0 _ h)
    all_goals first
      | exact ha0 _ (h.setReg_ne (by decide))
      | exact ha0 _ h
  · exact hsmExt_zero h
  · exact .pure (ha0 _ h)

theorem dispatchTrap_zero (h : m.ZeroClear) (code v) :
    Ensures (dispatchTrap m code v) Machine.ZeroClear := by
  intro m' hm'
  exact ((dispatchTrap_entered hm').kept Reg.zero (by decide)).trans h

def csrRdValue (m : Sv32) (ins : U32) : Option U32 :=
  if Ins.func ins ≠ 0 ∧ getCsrPrivilege (Ins.iImm ins) = csrSupervisorLevel ∧
      m.core.mode = .supervisor ∧ (csrWrite (Ins.func ins) 0 0).isSome then
    (findCsr (Ins.iImm ins)).map m.reg
  else none

theorem csrWrite_isSome (func x y : U32) :
    (csrWrite func x y).isSome = (csrWrite func 0 0).isSome := by
  unfold csrWrite
  split <;> rfl

theorem findCsr_ne_zero (h : findCsr csrAddr = some r) : r ≠ Reg.zero := by
  unfold findCsr at h
  split at h <;> cases h <;> decide

theorem csrAccess_zero (h : m.ZeroClear) {ins : U32} (trap) (csr : Option Reg)
    (hcsr : ∀ r, csr = some r → r ≠ Reg.zero)
    (hrd : Ins.rdReg ins = Reg.zero → (csrWrite (Ins.func ins) 0 0).isSome = true →
      ∀ r, csr = some r → m.reg r = 0) :
    Ensures (csrAccess trap m ins csr) Machine.ZeroClear := by
  have hmend {m' : Sv32} (h : m'.ZeroClear) :
      Ensures (do
        if Ins.iImm ins = CsrAddr.stvec then
          let r ← derefCsr csr
          if stvecMode (m'.reg r) ≥ 2#32 then return m'.setReg r (m'.reg r &&& ~~~0x3#32)
          else return m'
        else return m') Machine.ZeroClear := by
    refine .ite (fun _ => ?_) fun _ => .pure h
    cases csr with
    | none => exact .error
    | some r => exact .ite (fun _ => .pure (h.setReg_ne (hcsr r rfl))) fun _ => .pure h
  rw [csrAccess_trap csr trap fun _ _ _ => .error .abort]
  simp only [csrAccess]
  refine .ite (fun _ => .ite (fun _ => .error) fun _ => .ite (fun _ => .error) fun _ => ?_)
    fun _ => ?_
  all_goals
    split
    · rename_i write hwrite
      cases csr with
      | none => exact .error
      | some r =>
        have hselects : (csrWrite (Ins.func ins) 0 0).isSome = true := by
          rw [← csrWrite_isSome, hwrite]
          rfl
        have hset := h.setReg fun hr => hrd hr hselects r rfl
        exact hmend (hset.setReg_ne (hcsr r rfl))
    · exact hmend h

theorem vcoreSysType_zero (h : m.ZeroClear) {ins : U32}
    (hrd : Ins.rdReg ins = Reg.zero → ∀ v, csrRdValue m ins = some v → v = 0) :
    Ensures (vcoreSysType dispatchTrap m ins) Machine.ZeroClear := by
  have htrap (code v) := dispatchTrap_zero h code v
  have hadd (m' : Sv32) (h : m'.ZeroClear) :
      Ensures (pure (m'.addPc 4) : Except Stop Sv32) Machine.ZeroClear := .pure (h.addPc 4)
  simp only [vcoreSysType]
  refine .ite (fun _ => .ite (fun _ => ?_) fun _ => ?_) fun hfunc => ?_
  · exact .ite (fun _ => .bind (emuSbiCall_zero h) hadd) fun _ => .bind (htrap _ _) hadd
  · refine .ite (fun _ => ?_) fun _ => htrap _ _
    exact .ite (fun _ => threadsMgrHaltCores_zero h) fun _ => htrap _ _
  · refine .ite (fun hlevel => .ite (fun _ => htrap _ _) fun hmode => ?_) fun _ => ?_
    · split
      · rename_i r hfound
        refine csrAccess_zero h _ (some r) (fun r' hr' => ?_) fun hzero hselects r' hr' => ?_
        · cases hr'
          exact findCsr_ne_zero hfound
        · cases hr'
          refine hrd hzero _ ?_
          rw [csrRdValue, if_pos ⟨hfunc, hlevel, not_not.mp hmode, hselects⟩, hfound,
            Option.map_some]
      · exact htrap _ _
    · refine .ite (fun _ => ?_) fun _ => htrap _ _
      exact csrAccess_zero h _ none (by rintro _ ⟨⟩) (by rintro - - _ ⟨⟩)

end Supervisor

-- ---------------------------------------------------------------------------
-- One iteration
-- ---------------------------------------------------------------------------

namespace Build

def rdValue (b : Build) (m : Sv32) (ins : U32) : Option U32 :=
  match b with
  | .user => SwitchV32.rdValue m ins
  | .supervisor =>
    if Ins.opcodeType ins = OpcodeType.sysType then Supervisor.csrRdValue m ins
    else SwitchV32.rdValue m ins

/-- What is left in the slot of `x0` when the iteration from `m` is over: nothing, unless the
instruction names `x0` as its destination and computes something else than 0 for it. -/
def ZeroDest (b : Build) (m : Sv32) : Prop :=
  ∀ ins, memRw m.vmem (m.reg Reg.pc) = .ok ins → Ins.rdReg ins = Reg.zero →
    ∀ v, b.rdValue (m.setReg Reg.zero 0) ins = some v → v = 0

theorem dispatchTrap_zero (b : Build) (r : SyscallResult) (h : m.ZeroClear) (code v) :
    Ensures ((b.env (User.emuSystemCall r)).dispatchTrap m code v) Machine.ZeroClear := by
  cases b with
  | supervisor => exact Supervisor.dispatchTrap_zero h code v
  | user =>
    show Ensures (User.dispatchTrap (User.emuSystemCall r) m code v) _
    unfold User.dispatchTrap
    split
    · exact .error
    · exact threadsMgrHaltCores_zero h
    · refine .pure (Machine.ZeroClear.setReg_ne ?_ (by decide))
      exact h
    all_goals first
      | exact .pure h
      | exact .error

theorem vcoreExecute_zero (b : Build) (r : SyscallResult) (m : Sv32) (hdest : b.ZeroDest m) :
    Ensures (vcoreExecute (b.env (User.emuSystemCall r)) m) Machine.ZeroClear := by
  have hpc : (m.setReg Reg.zero 0).reg Reg.pc = m.reg Reg.pc :=
    Machine.reg_setReg_ne m (by decide)
  have hm : (m.setReg Reg.zero 0).ZeroClear := Machine.reg_setReg_self m _ _
  have htrap (code v) := dispatchTrap_zero b r hm code v
  unfold vcoreExecute
  simp only [hpc, Machine.setReg_vmem]
  cases hfetch : memRw m.vmem (m.reg Reg.pc) with
  | error e => exact .error
  | ok ins =>
    have hrd := hdest ins hfetch
    refine .ite (fun _ => .error) fun _ => ?_
    cases b with
    | user =>
      refine vcoreDispatch_zero hm htrap (fun _ => ?_) hrd
      show Ensures (User.vcoreSysType (User.emuSystemCall r) _ ins) _
      have htrap' (code v) : Ensures (User.dispatchTrap (User.emuSystemCall r)
          (m.setReg Reg.zero 0) code v) Machine.ZeroClear := htrap code v
      simp only [User.vcoreSysType]
      refine .ite (fun _ => .bind (htrap' _ _) fun m' h => .pure (h.addPc 4)) fun _ => ?_
      exact .ite (fun _ => htrap' _ _) fun _ => htrap' _ _
    | supervisor =>
      refine vcoreDispatch_zero hm htrap (fun hop => ?_) fun hzero v hv => ?_
      · refine Supervisor.vcoreSysType_zero hm fun hzero v hv => hrd hzero v ?_
        rw [rdValue, if_pos hop, hv]
      · refine hrd hzero v ?_
        rw [rdValue, if_neg, hv]
        intro hop
        simp only [SwitchV32.rdValue, hop] at hv
        cases hv

end Build

end

end SwitchV32
