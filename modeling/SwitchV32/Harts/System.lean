import SwitchV32.Lts
import SwitchV32.Cpu.Access

/-!
# Harts on shared memory

The cores of the supervisor build in `vcore_run`, on one guest memory; the user
build never starts a second core. A step is an instruction up to its first
atomic access, one such access, the interrupts between two instructions, or a
section of `cthread.c` on one record. Any core may take the next step, in
whatever state its record is, so the runs contain every real interleaving.
-/

namespace SwitchV32

structure Harts where
  ctx : Ctx
  vmem : Mem
  cthreads : Nat → Cthread
  phase : Nat → Phase

inductive HartLabel
  /-- from the top of the loop to the first atomic access -/
  | begin (i : Nat)
  /-- one atomic access -/
  | access (i : Nat)
  /-- `check_interrupts` -/
  | interrupts (i : Nat)
  /-- a section of `cthread.c`, run by any thread on the record of a core -/
  | record (i : Nat) (state : CthreadState) (signal oldSignal : CthreadSignal) (exit : Bool)

namespace Harts

-- ---------------------------------------------------------------------------
-- Steps
-- ---------------------------------------------------------------------------

def machine (s : Harts) (i : Nat) : Sv32 where
  core := (s.cthreads i).core
  vmem := s.vmem
  host := { ctx := s.ctx, hart := i, cthreads := s.cthreads }

def put (s : Harts) (i : Nat) (r : Sv32 × Phase) : Harts where
  ctx := s.ctx
  vmem := r.1.vmem
  cthreads := Function.update r.1.host.cthreads i { r.1.host.cthreads i with core := r.1.core }
  phase := Function.update s.phase i r.2

/-- The state after a step, if the core is there and the process goes on. -/
def next (s : Harts) : HartLabel → Option Harts
  | .begin i =>
    if i < s.ctx.cores ∧ s.phase i = .idle then
      (vcoreBegin Supervisor.env (s.machine i)).toOption.map (s.put i)
    else none
  | .access i =>
    if i < s.ctx.cores ∧ s.phase i ≠ .idle then
      ((s.phase i).access (s.machine i)).toOption.map (s.put i)
    else none
  | .interrupts i =>
    if i < s.ctx.cores ∧ s.phase i = .idle then
      (Supervisor.env.checkInterrupts (s.machine i)).toOption.map fun m => s.put i (m, .idle)
    else none
  | .record i state signal oldSignal exit =>
    let core := { (s.cthreads i).core with atomicExitLoop := exit }
    some { s with cthreads := Function.update s.cthreads i ⟨state, signal, oldSignal, core⟩ }

def Step (s : Harts) (l : HartLabel) (s' : Harts) : Prop := s.next l = some s'

abbrev Run := Lts.Run Step

variable {s s' : Harts} {i j : Nat}

@[simp] theorem put_vmem (s : Harts) (i r) : (s.put i r).vmem = r.1.vmem := rfl

@[simp] theorem put_phase_self (s : Harts) (i r) : (s.put i r).phase i = r.2 :=
  Function.update_self ..

@[simp] theorem put_phase_ne (s : Harts) (r) (h : j ≠ i) : (s.put i r).phase j = s.phase j :=
  Function.update_of_ne h ..

@[simp] theorem put_core_self (s : Harts) (i r) : ((s.put i r).cthreads i).core = r.1.core := by
  simp only [put, Function.update_self]

@[simp] theorem put_core_ne (s : Harts) (r) (h : j ≠ i) :
    (s.put i r).cthreads j = r.1.host.cthreads j :=
  Function.update_of_ne h ..

@[simp] theorem put_reg (s : Harts) (i r x) : ((s.put i r).machine i).reg x = r.1.reg x := by
  simp only [Machine.reg, machine, put_core_self]

-- ---------------------------------------------------------------------------
-- What the steps do
-- ---------------------------------------------------------------------------

theorem toOption_map_eq_some {x : Except Stop α} {f : α → Harts} :
    x.toOption.map f = some s' ↔ ∃ a, x = .ok a ∧ f a = s' := by
  simp only [Option.map_eq_some_iff, toOption_eq_some]

theorem step_begin (h : Step s (.begin i) s') :
    s.phase i = .idle ∧ ∃ ins r, (s.machine i).Fetches ins ∧
      Begun Supervisor.env ((s.machine i).setReg Reg.zero 0) ins r ∧ s' = s.put i r := by
  simp only [Step, next] at h
  split at h
  · rename_i hi
    obtain ⟨r, hr, rfl⟩ := toOption_map_eq_some.mp h
    obtain ⟨ins, hfetch, hbegun⟩ := vcoreBegin_cases hr
    exact ⟨hi.2, ins, r, hfetch, hbegun, rfl⟩
  · cases h

theorem step_access (h : Step s (.access i) s') :
    ∃ r, (s.phase i).Accessed (s.machine i) r ∧ s' = s.put i r := by
  simp only [Step, next] at h
  split at h
  · rename_i hi
    obtain ⟨r, hr, rfl⟩ := toOption_map_eq_some.mp h
    exact ⟨r, Phase.access_cases hi.2 hr, rfl⟩
  · cases h

theorem step_interrupts (h : Step s (.interrupts i) s') :
    s.phase i = .idle ∧ ∃ m, Supervisor.env.checkInterrupts (s.machine i) = .ok m ∧
      s' = s.put i (m, .idle) := by
  simp only [Step, next] at h
  split at h
  · rename_i hi
    obtain ⟨m, hm, rfl⟩ := toOption_map_eq_some.mp h
    exact ⟨hi.2, m, hm, rfl⟩
  · cases h

theorem step_record {state signal oldSignal exit}
    (h : Step s (.record i state signal oldSignal exit) s') :
    s'.phase = s.phase ∧ s'.vmem = s.vmem ∧ ∀ j, (s'.cthreads j).core =
      { (s.cthreads j).core with atomicExitLoop := (s'.cthreads j).core.atomicExitLoop } := by
  cases h
  refine ⟨rfl, rfl, fun j => ?_⟩
  by_cases hj : j = i
  · subst hj
    simp only [Function.update_self]
  · simp only [Function.update_of_ne hj]

theorem step_lt (h : Step s (.begin i) s') : i < s.ctx.cores := by
  simp only [Step, next] at h
  split at h
  · rename_i hi
    exact hi.1
  · cases h

theorem step_ctx (h : Step s l s') : s'.ctx = s.ctx := by
  cases l with
  | begin i =>
    obtain ⟨-, ins, r, -, -, rfl⟩ := step_begin h
    rfl
  | access i =>
    obtain ⟨r, -, rfl⟩ := step_access h
    rfl
  | interrupts i =>
    obtain ⟨-, m, -, rfl⟩ := step_interrupts h
    rfl
  | record =>
    cases h
    rfl

theorem run_ctx (h : Run s t s') : s'.ctx = s.ctx :=
  h.inv_all (fun s' => s'.ctx = s.ctx) (fun _ _ _ hi hs => (step_ctx hs).trans hi) rfl

/-- The core whose instructions a step belongs to; a section of `cthread.c` belongs to none. -/
def hartOf : HartLabel → Option Nat
  | .begin i | .access i | .interrupts i => some i
  | .record .. => none

theorem step_hart_lt (h : Step s l s') (hl : hartOf l = some i) : i < s.ctx.cores := by
  cases l with
  | begin | access | interrupts =>
    cases hl
    simp only [Step, next] at h
    split at h
    · rename_i hi
      exact hi.1
    · cases h
  | record => cases hl

def accessPhase (s : Harts) : HartLabel → Phase
  | .access i => s.phase i
  | _ => .idle

theorem accessPhase_eq {p : Phase} (hp : p ≠ .idle) :
    s.accessPhase l = p ↔ ∃ i, l = .access i ∧ s.phase i = p := by
  constructor
  · rintro rfl
    cases l with
    | access i => exact ⟨i, rfl, rfl⟩
    | _ => exact absurd rfl hp
  · rintro ⟨i, rfl, hp⟩
    exact hp

theorem step_phase (h : Step s l s') (hl : hartOf l ≠ some i) : s'.phase i = s.phase i := by
  cases l with
  | begin j =>
    obtain ⟨-, ins, r, -, -, rfl⟩ := step_begin h
    exact put_phase_ne s r (by rintro rfl; exact hl rfl)
  | access j =>
    obtain ⟨r, -, rfl⟩ := step_access h
    exact put_phase_ne s r (by rintro rfl; exact hl rfl)
  | interrupts j =>
    obtain ⟨-, m, -, rfl⟩ := step_interrupts h
    exact put_phase_ne s _ (by rintro rfl; exact hl rfl)
  | record j => rw [(step_record h).1]

-- ---------------------------------------------------------------------------
-- Where runs start
-- ---------------------------------------------------------------------------

/-- No core is inside an instruction or holds a reservation. -/
structure Start (s : Harts) : Prop where
  idle : ∀ i, s.phase i = .idle
  llScFlag : ∀ i, (s.cthreads i).core.llScFlag = false

def threadsMgrInit (core0Init : VCoreInit) (i : Nat) : Except Stop Cthread :=
  if i = 0 then cthreadInit .started (some core0Init)
  else cthreadInit .stopped
    (some { pc := 0, sp := 0, id := BitVec.ofNat 32 i, opaqueArg := 0, gp := 0, elfBrk := 0 })

theorem start_of_init {core0Init} (hidle : ∀ i, s.phase i = .idle)
    (h : ∀ i, threadsMgrInit core0Init i = .ok (s.cthreads i)) : s.Start := by
  refine ⟨hidle, fun i => ?_⟩
  have hi := h i
  unfold threadsMgrInit at hi
  split at hi <;>
    · rw [← Except.ok.inj hi]
      rfl

/-- Cores at address 0 of a page that starts with `words`; `regs` are their register values. -/
def boot (words : List U32) (cores : List (List (Reg × U32))) : Harts where
  ctx := { cores := cores.length, debug := false }
  vmem := .ofWords words
  cthreads i := ⟨.started, .start, .start, (Sv32.boot words (cores.getD i [])).core⟩
  phase _ := .idle

theorem foldl_setReg_llScFlag (regs : List (Reg × U32)) (core : VCore) :
    (regs.foldl (fun core r => core.setReg r.1 r.2) core).llScFlag = core.llScFlag := by
  induction regs generalizing core with
  | nil => rfl
  | cons r regs ih => exact ih _

theorem boot_start (words cores) : (boot words cores).Start :=
  ⟨fun _ => rfl, fun _ => foldl_setReg_llScFlag _ _⟩

end Harts

end SwitchV32
