import SwitchV32.Cpu.Amo

/-!
# Instructions as sequences of accesses

What one iteration of `vcore_run` does between two points at which another hart
may run: up to the first atomic access of `memory.h`, and from there one access
at a time. A hart that is not interrupted in between does what `vcoreExecute`
does.
-/

namespace SwitchV32

open Rv32 (AmoOp encodeAmo writeLE)

-- ---------------------------------------------------------------------------
-- Phases
-- ---------------------------------------------------------------------------

/-- Where a hart stands, with the variables of the functions that it is in. -/
inductive Phase
  /-- between two instructions -/
  | idle
  /-- in `vcore_a_type`, before the load of `LR` -/
  | lr (addr : U32)
  /-- in the loop of `mem_cas`, called for `SC` -/
  | sc (ins addr val expected : U32)
  /-- in the helper of an AMO, before its first access -/
  | amo (op : AmoOp) (ins addr val : U32)
  /-- in the loop of `mem_cas`, called by the helper of an AMO -/
  | cas (op : AmoOp) (ins addr val oldVal expected : U32)
  deriving DecidableEq

/-- The cases of the switch that call a helper. -/
def amoOf (aFunc : U32) : Option AmoOp :=
  match aFunc with
  | AFunc.aswp => some .swap
  | AFunc.aadd => some .add
  | AFunc.aand => some .and
  | AFunc.aor => some .or
  | AFunc.axor => some .xor
  | AFunc.amax => some .max
  | AFunc.amin => some .min
  | AFunc.amaxu => some .maxu
  | AFunc.aminu => some .minu
  | _ => none

/-- The test for the early return, in the helpers that have one. -/
def amoKeep : AmoOp → Option (U32 → U32 → Bool)
  | .min => some keepMin
  | .max => some keepMax
  | .minu => some keepMinu
  | .maxu => some keepMaxu
  | _ => none

section
variable {σ : Type} (env : Env σ)

/-- `vcore_a_type` up to its first access. -/
def vcoreABegin (m : Machine σ) (ins : U32) : Except Stop (Machine σ × Phase) :=
  let rs1 := m.reg (Ins.rs1Reg ins)
  let rs2 := m.reg (Ins.rs2Reg ins)
  match Ins.aFunc ins with
  | AFunc.lr => return ({ m with core := { m.core with llScFlag := true } }, .lr rs1)
  | AFunc.sc =>
    if m.core.llScFlag then
      return ({ m with core := { m.core with llScFlag := false } },
        .sc ins rs1 rs2 m.core.reserved)
    else return (m.setReg (Ins.rdReg ins) 1, .idle)
  | aFunc =>
    match amoOf aFunc with
    | some op => return (m, .amo op ins rs1 rs2)
    | none => do
      let m ← env.dispatchTrap m .illIns ins
      return (m.addPc 4, .idle)

/-- One iteration up to its first atomic access, or its exit test if it has none. -/
def vcoreBegin (m : Machine σ) : Except Stop (Machine σ × Phase) := do
  let m := m.setReg Reg.zero 0
  let ins ← memRw m.vmem (m.reg Reg.pc)
  if Ins.isCompressed ins then throw (.exit exitFailure)
  if Ins.opcodeType ins = OpcodeType.aType then vcoreABegin env m ins
  else return (← vcoreDispatch env m ins, .idle)

def Machine.finish (m : Machine σ) (vmem : Mem) (ins v : U32) : Machine σ :=
  ({ m with vmem }.setReg (Ins.rdReg ins) v).addPc 4

/-- One access, and what the hart does until the next one. -/
def Phase.access (m : Machine σ) : Phase → Except Stop (Machine σ × Phase)
  | .idle => return (m, .idle)
  | .lr addr => do
    let reserved ← memAread m.vmem addr
    return ({ m with core := { m.core with reserved } }.addPc 4, .idle)
  | .sc ins addr val expected => do
    let (stored, expected, vmem) ← m.vmem.compareExchange addr expected val
    return if stored then (m.finish vmem ins 0, .idle) else (m, .sc ins addr val expected)
  | .amo op ins addr val =>
    match amoKeep op with
    | none => do
      let (oldVal, vmem) ← amoHelper op m.vmem addr val
      return (m.finish vmem ins oldVal, .idle)
    | some keep => do
      let oldVal ← memAread m.vmem addr
      return if keep oldVal val then (m.finish m.vmem ins oldVal, .idle)
        else (m, .cas op ins addr val oldVal oldVal)
  | .cas op ins addr val oldVal expected => do
    let (stored, expected, vmem) ← m.vmem.compareExchange addr expected val
    return if stored then (m.finish vmem ins oldVal, .idle)
      else (m, .cas op ins addr val oldVal expected)

-- ---------------------------------------------------------------------------
-- Without interruption
-- ---------------------------------------------------------------------------

def Phase.rest (m : Machine σ) : Phase → Except Stop (Machine σ)
  | .idle => return m
  | .lr addr => do
    let reserved ← memAread m.vmem addr
    return { m with core := { m.core with reserved } }.addPc 4
  | .sc ins addr val expected => do
    let vmem ← memCas m.vmem addr val expected
    return m.finish vmem ins 0
  | .amo op ins addr val => do
    let (oldVal, vmem) ← amoHelper op m.vmem addr val
    return m.finish vmem ins oldVal
  | .cas _ ins addr val oldVal expected => do
    let vmem ← memCas m.vmem addr val expected
    return m.finish vmem ins oldVal

variable {env} {m m' : Machine σ}

theorem memCas_eq (vmem : Mem) (addr val expected : U32) :
    memCas vmem addr val expected = vmem.compareExchange addr expected val >>=
      fun r => if r.1 then .ok r.2.2 else memCas vmem addr val r.2.1 := by
  rw [memCas]
  split
  · rename_i h
    rw [h]
    rfl
  · rename_i h
    rw [h]
    rfl
  · rename_i h
    obtain ⟨-, -, rfl⟩ := Mem.compareExchange_false h
    rw [h]
    rfl

theorem amoHelper_minMax {op : AmoOp} (h : amoKeep op = some keep) :
    amoHelper op = fun vmem addr val => vmem.minMax keep addr val := by
  cases op <;> cases h <;> rfl

/-- The accesses of an instruction, one after the other. -/
theorem Phase.rest_eq (p : Phase) (hp : p ≠ .idle) (m : Machine σ) :
    p.rest m = p.access m >>= fun r => r.2.rest r.1 := by
  cases p with
  | idle => exact absurd rfl hp
  | lr addr =>
    simp only [Phase.rest, Phase.access]
    cases memAread m.vmem addr <;> rfl
  | sc ins addr val expected | cas op ins addr val oldVal expected =>
    simp only [Phase.rest, Phase.access]
    rw [memCas_eq]
    cases m.vmem.compareExchange addr expected val with
    | error e => rfl
    | ok r =>
      obtain ⟨stored, expected, vmem⟩ := r
      cases stored <;> rfl
  | amo op ins addr val =>
    simp only [Phase.rest, Phase.access]
    cases hk : amoKeep op with
    | none => cases amoHelper op m.vmem addr val <;> rfl
    | some keep =>
      simp only [amoHelper_minMax hk, Mem.minMax]
      cases memAread m.vmem addr with
      | error e => rfl
      | ok oldVal =>
        simp only [ok_bind]
        cases keep oldVal val with
        | true => rfl
        | false => cases h : memCas m.vmem addr val oldVal <;> simp [h]

theorem vcoreAType_eq (m : Machine σ) (ins : U32) :
    vcoreAType env m ins = vcoreABegin env m ins >>= fun r => r.2.rest r.1 := by
  unfold vcoreAType vcoreABegin
  generalize Ins.aFunc ins = aFunc
  split
  case h_1 => rfl
  case h_2 =>
    simp only
    split <;> rfl
  case h_12 =>
    simp only
    split
    · rename_i h
      unfold amoOf at h
      split at h <;> contradiction
    · cases env.dispatchTrap m .illIns ins <;> rfl
  all_goals rfl

theorem vcoreExecute_eq (env : Env σ) (m : Machine σ) :
    vcoreExecute env m = vcoreBegin env m >>= fun r => r.2.rest r.1 := by
  simp only [vcoreExecute, vcoreBegin]
  cases memRw (m.setReg Reg.zero 0).vmem ((m.setReg Reg.zero 0).reg Reg.pc) with
  | error e => rfl
  | ok ins =>
    simp only [ok_bind]
    split
    · rfl
    · by_cases h : Ins.opcodeType ins = OpcodeType.aType
      · rw [if_pos h, vcoreDispatch, h]
        exact vcoreAType_eq _ ins
      · rw [if_neg h]
        cases vcoreDispatch env (m.setReg Reg.zero 0) ins <;> rfl

-- ---------------------------------------------------------------------------
-- What the steps do
-- ---------------------------------------------------------------------------

theorem word_of_space {vmem vmem' : Mem} {a v : U32}
    (h : vmem'.space = writeLE vmem.space a 4 v) : vmem'.word a = v := by
  rw [Mem.word, h]
  exact Rv32.word_writeLE _ _ _

theorem word_put {vmem : Mem} {a : U32} (hin : vmem.Inside a 4) (v : U32) :
    (vmem.put a.toNat v).word a = v := word_of_space (space_put_word hin v)

@[simp] theorem reg_finish (m : Machine σ) (vmem ins v) :
    (m.finish vmem ins v).reg (Ins.rdReg ins) = v := by
  rw [Machine.finish, Machine.reg_addPc_ne _ _ (Ins.rdReg_ne_pc ins), Machine.reg_setReg_self]

@[simp] theorem vmem_finish (m : Machine σ) (vmem ins v) :
    (m.finish vmem ins v).vmem = vmem := rfl

theorem load_eq_ok {vmem : Mem} {a v : U32} (h : vmem.load 32 a = .ok v) :
    vmem.Inside a 4 ∧ v = vmem.word a := by
  by_cases hin : vmem.Inside a 4
  · rw [load_word hin] at h
    cases h
    exact ⟨hin, rfl⟩
  · rw [Mem.load, if_neg hin] at h
    cases h

theorem compareExchange_eq_ok {vmem : Mem} {a expected v : U32}
    (h : vmem.compareExchange a expected v = .ok r) :
    vmem.Inside a 4 ∧ ((vmem.word a = expected ∧ r = (true, expected, vmem.put a.toNat v)) ∨
      (vmem.word a ≠ expected ∧ r = (false, vmem.word a, vmem))) := by
  have hin : vmem.Inside a 4 := by
    obtain ⟨w, hw, -⟩ := bind_eq_ok.mp h
    exact (load_eq_ok hw).1
  rw [compareExchange_word hin] at h
  refine ⟨hin, ?_⟩
  split at h
  · rename_i hw
    cases h
    exact .inl ⟨hw, rfl⟩
  · rename_i hw
    cases h
    exact .inr ⟨hw, rfl⟩

theorem eval_keep {op : AmoOp} (h : amoKeep op = some keep) (a b : U32) :
    op.eval a b = if keep a b then a else b := by
  cases op <;> cases h
  · exact eval_min a b
  · exact eval_max a b
  · exact eval_minu a b
  · exact eval_maxu a b

/-- The outcomes of one access. Only the exchanges depend on what happened since the phase was
entered. -/
inductive Phase.Accessed (m : Machine σ) : Phase → Machine σ × Phase → Prop
  | lr (hin : m.vmem.Inside addr 4) :
    Accessed m (.lr addr)
      ({ m with core := { m.core with reserved := m.vmem.word addr } }.addPc 4, .idle)
  | scStored (hin : m.vmem.Inside addr 4) (hword : m.vmem.word addr = expected) :
    Accessed m (.sc ins addr val expected) (m.finish (m.vmem.put addr.toNat val) ins 0, .idle)
  | scRetry (hin : m.vmem.Inside addr 4) (hword : m.vmem.word addr ≠ expected) :
    Accessed m (.sc ins addr val expected) (m, .sc ins addr val (m.vmem.word addr))
  | amoDone (hin : m.vmem.Inside addr 4)
      (hspace : vmem.space = writeLE m.vmem.space addr 4 (op.eval (m.vmem.word addr) val)) :
    Accessed m (.amo op ins addr val) (m.finish vmem ins (m.vmem.word addr), .idle)
  | amoRead (hin : m.vmem.Inside addr 4) (hkeep : op.eval (m.vmem.word addr) val = val) :
    Accessed m (.amo op ins addr val)
      (m, .cas op ins addr val (m.vmem.word addr) (m.vmem.word addr))
  | casStored (hin : m.vmem.Inside addr 4) (hword : m.vmem.word addr = expected) :
    Accessed m (.cas op ins addr val oldVal expected)
      (m.finish (m.vmem.put addr.toNat val) ins oldVal, .idle)
  | casRetry (hin : m.vmem.Inside addr 4) (hword : m.vmem.word addr ≠ expected) :
    Accessed m (.cas op ins addr val oldVal expected)
      (m, .cas op ins addr val oldVal (m.vmem.word addr))

theorem amoHelper_inside {op : AmoOp} {vmem : Mem}
    (h : amoHelper op vmem addr val = .ok r) : vmem.Inside addr 4 := by
  cases op <;>
    · obtain ⟨w, hw, -⟩ := bind_eq_ok.mp h
      exact (load_eq_ok hw).1

theorem Phase.access_cases {p : Phase} (hp : p ≠ .idle) (h : p.access m = .ok r) :
    p.Accessed m r := by
  cases p with
  | idle => exact absurd rfl hp
  | lr addr =>
    obtain ⟨w, hw, h⟩ := bind_eq_ok.mp h
    obtain ⟨hin, rfl⟩ := load_eq_ok hw
    cases h
    exact .lr hin
  | sc ins addr val expected =>
    obtain ⟨w, hw, h⟩ := bind_eq_ok.mp h
    obtain ⟨hin, ⟨hword, rfl⟩ | ⟨hword, rfl⟩⟩ := compareExchange_eq_ok hw <;> cases h
    · exact .scStored hin hword
    · exact .scRetry hin hword
  | amo op ins addr val =>
    simp only [Phase.access] at h
    cases hk : amoKeep op with
    | none =>
      rw [hk] at h
      obtain ⟨⟨w, vmem⟩, hw, h⟩ := bind_eq_ok.mp h
      have hin := amoHelper_inside hw
      obtain ⟨vmem', hdone, -, hspace⟩ := amoHelper_word hin op val
      cases hw.symm.trans hdone
      cases h
      exact .amoDone hin hspace
    | some keep =>
      rw [hk] at h
      obtain ⟨w, hw, h⟩ := bind_eq_ok.mp h
      obtain ⟨hin, rfl⟩ := load_eq_ok hw
      have heval := eval_keep hk (m.vmem.word addr) val
      split at h <;> rename_i hkeep <;> cases h
      · rw [if_pos hkeep] at heval
        exact .amoDone hin (by rw [heval]; exact (Rv32.writeLE_word _ _).symm)
      · rw [if_neg hkeep] at heval
        exact .amoRead hin heval
  | cas op ins addr val oldVal expected =>
    obtain ⟨w, hw, h⟩ := bind_eq_ok.mp h
    obtain ⟨hin, ⟨hword, rfl⟩ | ⟨hword, rfl⟩⟩ := compareExchange_eq_ok hw <;> cases h
    · exact .casStored hin hword
    · exact .casRetry hin hword

def Machine.Fetches (m : Machine σ) (ins : U32) : Prop := memRw m.vmem (m.reg Reg.pc) = .ok ins

instance decidableFetches (m : Machine σ) (ins : U32) : Decidable (m.Fetches ins) :=
  inferInstanceAs (Decidable (memRw m.vmem (m.reg Reg.pc) = .ok ins))

/-- The outcomes of the part before the first access; `m` has its `x0` cleared. -/
inductive Begun (env : Env σ) (m : Machine σ) (ins : U32) : Machine σ × Phase → Prop
  | lr (hop : Ins.opcodeType ins = OpcodeType.aType) (haf : Ins.aFunc ins = AFunc.lr) :
    Begun env m ins
      ({ m with core := { m.core with llScFlag := true } }, .lr (m.reg (Ins.rs1Reg ins)))
  | sc (hop : Ins.opcodeType ins = OpcodeType.aType) (haf : Ins.aFunc ins = AFunc.sc)
      (hflag : m.core.llScFlag = true) :
    Begun env m ins ({ m with core := { m.core with llScFlag := false } },
      .sc ins (m.reg (Ins.rs1Reg ins)) (m.reg (Ins.rs2Reg ins)) m.core.reserved)
  | scRefused (hop : Ins.opcodeType ins = OpcodeType.aType) (haf : Ins.aFunc ins = AFunc.sc)
      (hflag : m.core.llScFlag = false) :
    Begun env m ins (m.setReg (Ins.rdReg ins) 1, .idle)
  | amo (hop : Ins.opcodeType ins = OpcodeType.aType) (haf : amoOf (Ins.aFunc ins) = some op) :
    Begun env m ins
      (m, .amo op ins (m.reg (Ins.rs1Reg ins)) (m.reg (Ins.rs2Reg ins)))
  | trap {m' : Machine σ} (hop : Ins.opcodeType ins = OpcodeType.aType)
      (haf : amoOf (Ins.aFunc ins) = none) (h : env.dispatchTrap m .illIns ins = .ok m') :
      Begun env m ins (m'.addPc 4, .idle)
  | other {m' : Machine σ} (hop : Ins.opcodeType ins ≠ OpcodeType.aType)
      (h : vcoreDispatch env m ins = .ok m') : Begun env m ins (m', .idle)

theorem vcoreBegin_cases (h : vcoreBegin env m = .ok r) :
    ∃ ins, m.Fetches ins ∧ Begun env (m.setReg Reg.zero 0) ins r := by
  obtain ⟨ins, hfetch, h⟩ := bind_eq_ok.mp h
  rw [Machine.reg_setReg_ne _ (by decide)] at hfetch
  refine ⟨ins, hfetch, ?_⟩
  cases hc : Ins.isCompressed ins with
  | true =>
    rw [hc] at h
    cases h
  | false =>
    rw [hc] at h
    by_cases hop : Ins.opcodeType ins = OpcodeType.aType
    · replace h : vcoreABegin env (m.setReg Reg.zero 0) ins = .ok r := (if_pos hop).symm.trans h
      unfold vcoreABegin at h
      split at h
      · cases h
        exact .lr hop ‹_›
      · split at h <;> rename_i hflag <;> cases h
        · exact .sc hop ‹_› hflag
        · exact .scRefused hop ‹_› (by simpa using hflag)
      · split at h
        · cases h
          exact .amo hop ‹_›
        · obtain ⟨m', hm', h⟩ := bind_eq_ok.mp h
          cases h
          exact .trap hop ‹_› hm'
    · replace h := (if_neg hop).symm.trans h
      obtain ⟨m', hm', h⟩ := bind_eq_ok.mp h
      cases h
      exact .other hop hm'

end

end SwitchV32
