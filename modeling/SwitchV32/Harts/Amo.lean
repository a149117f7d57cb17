import SwitchV32.Harts.System

/-!
# AMOs between harts

Each AMO takes effect at one access of its hart, the last one it makes. For the
four helpers that compare first, this holds only as long as the word is still
the one that the helper loaded when `mem_cas` exchanges it: after a failed
exchange the loop stores the operand over whatever it finds.
-/

namespace SwitchV32

open Rv32 (AmoOp encodeAmo writeLE)

-- ---------------------------------------------------------------------------
-- Calls
-- ---------------------------------------------------------------------------

structure AmoCall where
  op : AmoOp
  ins : U32
  addr : U32
  val : U32

def amoCode (o : AmoOp) : U32 := Rv32.field o.funct5 4 ||| 0b010#32

/-- An AMO by the code of the manual, or by that of the switch. The two differ for `AMOOR`. -/
structure IsAmo (o : AmoOp) (ins : U32) : Prop where
  opcode : Ins.opcodeType ins = OpcodeType.aType
  code : Ins.aFunc ins = amoCode o ∨ amoOf (Ins.aFunc ins) = some o

theorem amoOf_amoCode {o : AmoOp} (ho : o ≠ .or) : amoOf (amoCode o) = some o := by
  cases o with
  | or => exact absurd rfl ho
  | _ => rfl

def Phase.amoCall : Phase → Option AmoCall
  | .amo op ins addr val => some ⟨op, ins, addr, val⟩
  | .cas op ins addr val _ _ => some ⟨op, ins, addr, val⟩
  | _ => none

/-- The call is under way, and the exchange it may still make is the right one. -/
inductive Phase.Runs (c : AmoCall) : Phase → Prop
  | amo : Runs c (.amo c.op c.ins c.addr c.val)
  | cas {oldVal} (h : c.op.eval oldVal c.val = c.val) :
    Runs c (.cas c.op c.ins c.addr c.val oldVal oldVal)

theorem Phase.Runs.ne_idle {p : Phase} {c : AmoCall} (h : p.Runs c) : p ≠ .idle := by
  cases h <;> nofun

namespace Harts

variable {s₀ s s' : Harts} {l : HartLabel} {i : Nat} {t : List (Harts × HartLabel)} {c : AmoCall}

structure AtAmo (s : Harts) (i : Nat) (c : AmoCall) : Prop where
  fetches : (s.machine i).Fetches c.ins
  isAmo : IsAmo c.op c.ins
  addr : ((s.machine i).setReg Reg.zero 0).reg (Ins.rs1Reg c.ins) = c.addr
  val : ((s.machine i).setReg Reg.zero 0).reg (Ins.rs2Reg c.ins) = c.val

/-- The AMO `c` of core `i` takes effect and ends: the word goes from `v` to `op v val`, no other
byte changes, and `rd` is that `v`. -/
structure Effect (i : Nat) (c : AmoCall) (s s' : Harts) : Prop where
  idle : s'.phase i = .idle
  word : s'.vmem.word c.addr = c.op.eval (s.vmem.word c.addr) c.val
  rd : (s'.machine i).reg (Ins.rdReg c.ins) = s.vmem.word c.addr
  space : s'.vmem.space = writeLE s.vmem.space c.addr 4 (s'.vmem.word c.addr)

/-- The step is not one of core `i`, or it leaves memory alone and the core in its instruction. -/
def Quiet (i : Nat) (s : Harts) (l : HartLabel) : Prop :=
  hartOf l = some i → ∀ s', Step s l s' → s'.vmem = s.vmem ∧ s'.phase i ≠ .idle

-- ---------------------------------------------------------------------------
-- Steps at which the code is right
-- ---------------------------------------------------------------------------

def casExchange (s : Harts) (l : HartLabel) : Option (U32 × U32) :=
  match s.accessPhase l with
  | .cas _ _ addr _ _ expected => some (addr, expected)
  | _ => none

def beginIns (s : Harts) (l : HartLabel) : Option U32 :=
  match l with
  | .begin i => (memRw (s.machine i).vmem ((s.machine i).reg Reg.pc)).toOption
  | _ => none

/-- No exchange of a helper fails, and no `AMOOR` by the manual's code is begun. -/
structure AmoRight (s : Harts) (l : HartLabel) : Prop where
  cas : ∀ x ∈ casExchange s l, s.vmem.word x.1 = x.2
  or : ∀ ins ∈ beginIns s l, Ins.opcodeType ins = OpcodeType.aType → Ins.aFunc ins ≠ amoCode .or

instance : Decidable (AmoRight s l) :=
  -- the words are too many to be tried one by one
  have := Option.decidableForallMem (p := fun x => s.vmem.word x.1 = x.2) (casExchange s l)
  have := Option.decidableForallMem
    (p := fun ins => Ins.opcodeType ins = OpcodeType.aType → Ins.aFunc ins ≠ amoCode .or)
    (beginIns s l)
  decidable_of_iff ((∀ x ∈ casExchange s l, s.vmem.word x.1 = x.2) ∧ ∀ ins ∈ beginIns s l,
      Ins.opcodeType ins = OpcodeType.aType → Ins.aFunc ins ≠ amoCode .or)
    ⟨fun h => ⟨h.1, h.2⟩, fun h => ⟨h.cas, h.or⟩⟩

theorem AmoRight.cas_word (h : AmoRight s (.access i))
    (hp : s.phase i = .cas op ins addr val oldVal expected) : s.vmem.word addr = expected :=
  h.cas (addr, expected) (by simp only [casExchange, accessPhase, hp, Option.mem_def])

theorem AmoRight.amoOf (h : AmoRight s (.begin i)) (hc : s.AtAmo i c) :
    amoOf (Ins.aFunc c.ins) = some c.op := by
  rcases hc.isAmo.code with hcode | hcode
  · have hne := h.or c.ins (by rw [Option.mem_def, beginIns, hc.fetches]; rfl) hc.isAmo.opcode
    rw [hcode] at hne ⊢
    exact amoOf_amoCode (by rintro h; rw [h] at hne; exact hne rfl)
  · exact hcode

-- ---------------------------------------------------------------------------
-- One call
-- ---------------------------------------------------------------------------

theorem AtAmo.step_begin (hc : s.AtAmo i c) (hr : AmoRight s (.begin i))
    (h : Step s (.begin i) s') : s'.phase i = .amo c.op c.ins c.addr c.val := by
  have hop := hr.amoOf hc
  obtain ⟨-, ins, r, hfetch, hbegun, rfl⟩ := Harts.step_begin h
  obtain rfl : c.ins = ins := Except.ok.inj (hc.fetches.symm.trans hfetch)
  rw [put_phase_self]
  cases hbegun with
  | amo hopcode haf =>
    rw [hop] at haf
    cases haf
    rw [hc.addr, hc.val]
  | lr hopcode haf | sc hopcode haf | scRefused hopcode haf =>
    rw [haf] at hop
    cases hop
  | trap hopcode haf => exact nomatch hop.symm.trans haf
  | other hopcode => exact absurd hc.isAmo.opcode hopcode

theorem step_call (hp : (s.phase i).Runs c) (hr : AmoRight s (.access i))
    (h : Step s (.access i) s') :
    (s'.vmem = s.vmem ∧ (s'.phase i).Runs c) ∨ Effect i c s s' := by
  obtain ⟨r, haccess, rfl⟩ := step_access h
  have heffect {vmem : Mem} {v : U32} (hv : v = s.vmem.word c.addr)
      (hspace : vmem.space =
        writeLE s.vmem.space c.addr 4 (c.op.eval (s.vmem.word c.addr) c.val)) :
      Effect i c s (s.put i ((s.machine i).finish vmem c.ins v, .idle)) := {
    idle := put_phase_self ..
    word := word_of_space hspace
    rd := by rw [put_reg, reg_finish, hv]
    space := by rw [put_vmem, vmem_finish, word_of_space hspace, hspace] }
  generalize hpi : s.phase i = p at hp haccess
  cases hp with
  | amo =>
    cases haccess with
    | amoDone hin hspace => exact .inr (heffect rfl hspace)
    | amoRead hin hkeep =>
      refine .inl ⟨rfl, ?_⟩
      rw [put_phase_self]
      exact .cas hkeep
  | cas hkeep =>
    have hword := hr.cas_word hpi
    cases haccess with
    | casStored hin =>
      refine .inr (heffect hword.symm ?_)
      rw [hword, hkeep]
      exact space_put_word hin c.val
    | casRetry hin hne => exact absurd hword hne

/-- A call goes on until the step at which it takes effect. -/
theorem step_pending (hp : (s.phase i).Runs c) (hr : AmoRight s l) (h : Step s l s') :
    (Quiet i s l ∧ (s'.phase i).Runs c) ∨ (l = .access i ∧ Effect i c s s') := by
  by_cases hl : hartOf l = some i
  · have hidle := hp.ne_idle
    cases l with
    | begin j =>
      cases hl
      exact absurd (step_begin h).1 hidle
    | interrupts j =>
      cases hl
      exact absurd (step_interrupts h).1 hidle
    | record => cases hl
    | access j =>
      cases hl
      rcases step_call hp hr h with ⟨hvmem, hp'⟩ | heffect
      · refine .inl ⟨fun _ s'' h' => ?_, hp'⟩
        cases h.symm.trans h'
        exact ⟨hvmem, hp'.ne_idle⟩
      · exact .inr ⟨rfl, heffect⟩
  · rw [← step_phase h hl] at hp
    exact .inl ⟨fun hl' => absurd hl' hl, hp⟩

/-- What becomes of an AMO that was begun in a run: it is still under way, or it took effect. -/
theorem begun_call {t₁ t₂ : List (Harts × HartLabel)} {sb : Harts} (h : Run s₀ t s)
    (ht : Lts.Every AmoRight t) (hsplit : t = t₁ ++ (sb, .begin i) :: t₂) (hc : sb.AtAmo i c) :
    (Lts.Every (Quiet i) t₂ ∧ (s.phase i).Runs c) ∨
    ∃ t₃ s₁ t₄ s₂, t₂ = t₃ ++ (s₁, .access i) :: t₄ ∧ Lts.Every (Quiet i) t₃ ∧
      Step s₁ (.access i) s₂ ∧ Effect i c s₁ s₂ ∧ Run s₂ t₄ s := by
  obtain ⟨-, sb', hb, hrun⟩ := h.split hsplit
  rw [hsplit, Lts.every_append, Lts.every_cons] at ht
  have hp : (sb'.phase i).Runs c := by
    rw [hc.step_begin ht.2.1 hb]
    exact .amo
  rcases hrun.since (fun _ _ _ hp hr hs => step_pending hp hr hs) ht.2.2 hp with
    hpend | ⟨t₃, s₁, l, t₄, s₂, heq, hquiet, hs, ⟨rfl, heffect⟩, hrun₂⟩
  · exact .inl hpend
  · exact .inr ⟨t₃, s₁, t₄, s₂, heq, hquiet, hs, heffect, hrun₂⟩

-- ---------------------------------------------------------------------------
-- All calls of a run
-- ---------------------------------------------------------------------------

theorem step_amoCall (h : Step s l s') (hc : (s'.phase i).amoCall = some c) :
    (s.phase i).amoCall = some c ∨
      (l = .begin i ∧ s.AtAmo i c ∧ s'.phase i = .amo c.op c.ins c.addr c.val) := by
  by_cases hl : hartOf l = some i
  · cases l with
    | begin j =>
      cases hl
      obtain ⟨-, ins, r, hfetch, hbegun, rfl⟩ := step_begin h
      rw [put_phase_self] at hc
      cases hbegun with
      | amo hop haf =>
        cases hc
        exact .inr ⟨rfl, ⟨hfetch, ⟨hop, .inr haf⟩, rfl, rfl⟩, put_phase_self ..⟩
      | _ => cases hc
    | access j =>
      cases hl
      obtain ⟨r, haccess, rfl⟩ := step_access h
      rw [put_phase_self] at hc
      generalize s.phase i = p at haccess
      cases haccess with
      | amoRead | casRetry => exact .inl hc
      | _ => cases hc
    | interrupts j =>
      cases hl
      obtain ⟨-, m, -, rfl⟩ := step_interrupts h
      rw [put_phase_self] at hc
      cases hc
    | record => cases hl
  · rw [step_phase h hl] at hc
    exact .inl hc

def RunsInv (s : Harts) : Prop := ∀ i c, (s.phase i).amoCall = some c → (s.phase i).Runs c

theorem RunsInv.step (hi : s.RunsInv) (hr : AmoRight s l) (h : Step s l s') : s'.RunsInv := by
  intro i c hc
  rcases step_amoCall h hc with hc' | ⟨-, -, hp⟩
  · rcases step_pending (hi i c hc') hr h with ⟨-, hp⟩ | ⟨-, heffect⟩
    · exact hp
    · rw [heffect.idle] at hc
      cases hc
  · rw [hp]
    exact .amo

theorem Start.runsInv (h0 : s.Start) : s.RunsInv := fun i c hc => by
  rw [h0.idle] at hc
  cases hc

theorem runsInv (h0 : s₀.RunsInv) (h : Run s₀ t s) (ht : Lts.Every AmoRight t) : s.RunsInv :=
  h.inv RunsInv (fun _ _ _ hi hr hs => hi.step hr hs) ht h0

theorem amoCall_begun (h0 : s₀.Start) (h : Run s₀ t s) (hc : (s.phase i).amoCall = some c) :
    ∃ sb, (sb, .begin i) ∈ t ∧ sb.AtAmo i c := by
  induction h with
  | nil =>
    rw [h0.idle] at hc
    cases hc
  | snoc _ hs ih =>
    rcases step_amoCall hs hc with hc' | ⟨rfl, hat, -⟩
    · obtain ⟨sb, hmem, hat⟩ := ih hc'
      exact ⟨sb, List.mem_append_left _ hmem, hat⟩
    · exact ⟨_, List.mem_append_right _ (List.mem_singleton_self _), hat⟩

-- ---------------------------------------------------------------------------
-- Minima and maxima
-- ---------------------------------------------------------------------------

/-- The order in which a helper that compares keeps the larger value. -/
def amoRank : AmoOp → U32 → Int
  | .min, x => -x.toInt
  | .max, x => x.toInt
  | .minu, x => -(x.toNat : Int)
  | .maxu, x => x.toNat
  | _, _ => 0

theorem rank_eval {o : AmoOp} (ho : amoKeep o = some keep) (a b : U32) :
    amoRank o (o.eval a b) = max (amoRank o a) (amoRank o b) := by
  cases o <;> cases ho <;> simp only [amoRank, AmoOp.eval] <;> split <;> omega

theorem eval_mem {o : AmoOp} (ho : amoKeep o = some keep) (a b : U32) :
    o.eval a b = a ∨ o.eval a b = b := by
  rw [eval_keep ho]
  exact ite_eq_or_eq ..

def operands (o : AmoOp) (a : U32) (t : List (Harts × HartLabel)) : Set U32 :=
  { v | ∃ s i c, (s, .begin i) ∈ t ∧ s.AtAmo i c ∧ c.op = o ∧ c.addr = a ∧ c.val = v }

def OnlyAmo (o : AmoOp) (a : U32) (s : Harts) (l : HartLabel) : Prop :=
  (∃ c, (s.accessPhase l).amoCall = some c ∧ c.op = o ∧ c.addr = a) ∨
    ∀ s', Step s l s' → s'.vmem.word a = s.vmem.word a

instance : Decidable (OnlyAmo o a s l) :=
  decidable_of_iff ((∃ c ∈ (s.accessPhase l).amoCall, c.op = o ∧ c.addr = a) ∨
    ∀ s' ∈ s.next l, s'.vmem.word a = s.vmem.word a) Iff.rfl

section
variable {o : AmoOp} {a : U32}

theorem operands_append (t t') : operands o a t ⊆ operands o a (t ++ t') := by
  rintro v ⟨s, i, c, hmem, h⟩
  exact ⟨s, i, c, List.mem_append_left _ hmem, h⟩

theorem OnlyAmo.step (ho : OnlyAmo o a s l) (hi : s.RunsInv) (hr : AmoRight s l)
    (h : Step s l s') :
    s'.vmem.word a = s.vmem.word a ∨ ∃ i c, (s.phase i).amoCall = some c ∧ c.op = o ∧ c.addr = a ∧
      s'.vmem.word a = o.eval (s.vmem.word a) c.val := by
  rcases ho with ⟨c, hc, rfl, rfl⟩ | ho
  · have hne : s.accessPhase l ≠ .idle := fun h => by rw [h] at hc; cases hc
    obtain ⟨i, rfl, -⟩ := (accessPhase_eq hne).mp rfl
    rcases step_call (hi i c hc) hr h with ⟨hvmem, -⟩ | heffect
    · exact .inl (by rw [hvmem])
    · exact .inr ⟨i, c, hc, rfl, rfl, heffect.word⟩
  · exact .inl (ho s' h)

theorem rank_step (hk : amoKeep o = some keep) (ho : OnlyAmo o a s l) (hi : s.RunsInv)
    (hr : AmoRight s l) (h : Step s l s') :
    amoRank o (s.vmem.word a) ≤ amoRank o (s'.vmem.word a) := by
  rcases ho.step hi hr h with hword | ⟨i, c, -, -, -, hword⟩
  · rw [hword]
  · rw [hword, rank_eval hk]
    exact le_max_left _ _

theorem rank_mono (hk : amoKeep o = some keep) (h0 : s₀.RunsInv) (h : Run s₀ t s)
    (ht : Lts.Every AmoRight t) (ho : Lts.Every (OnlyAmo o a) t) :
    amoRank o (s₀.vmem.word a) ≤ amoRank o (s.vmem.word a) := by
  induction h with
  | nil => exact le_refl _
  | snoc hrun hs ih =>
    rw [Lts.every_append, Lts.every_cons] at ht ho
    exact (ih ht.1 ho.1).trans (rank_step hk ho.2.1 (runsInv h0 hrun ht.1) ht.2.1 hs)

theorem word_mem (hk : amoKeep o = some keep) (h0 : s₀.Start) (h : Run s₀ t s)
    (ht : Lts.Every AmoRight t) (ho : Lts.Every (OnlyAmo o a) t) :
    s.vmem.word a ∈ insert (s₀.vmem.word a) (operands o a t) := by
  induction h with
  | nil => exact Set.mem_insert _ _
  | @snoc t s l s' hrun hs ih =>
    rw [Lts.every_append, Lts.every_cons] at ht ho
    have hold := Set.insert_subset_insert (operands_append t [(s, l)]) (ih ht.1 ho.1)
    rcases ho.2.1.step (runsInv h0.runsInv hrun ht.1) ht.2.1 hs with
      hword | ⟨i, c, hc, hop, haddr, hword⟩
    · rwa [hword]
    · rcases eval_mem hk (s.vmem.word a) c.val with heq | heq
      · rwa [hword, heq]
      · rw [hword, heq]
        obtain ⟨sb, hmem, hat⟩ := amoCall_begun h0 hrun hc
        exact Set.mem_insert_of_mem _
          (operands_append t _ ⟨sb, i, c, hmem, hat, hop, haddr, rfl⟩)

theorem rank_operand (hk : amoKeep o = some keep) (h0 : s₀.Start) (h : Run s₀ t s)
    (ht : Lts.Every AmoRight t) (ho : Lts.Every (OnlyAmo o a) t)
    (hidle : ∀ i < s.ctx.cores, s.phase i = .idle)
    (hv : v ∈ operands o a t) : amoRank o v ≤ amoRank o (s.vmem.word a) := by
  obtain ⟨sb, i, c, hmem, hat, rfl, rfl, rfl⟩ := hv
  obtain ⟨t₁, t₂, rfl⟩ := List.append_of_mem hmem
  rcases begun_call h ht rfl hat with ⟨-, hp⟩ | ⟨t₃, s₁, t₄, s₂, rfl, -, hs, heffect, hrun₂⟩
  · obtain ⟨hrun₁, sb', hb, hrun₂⟩ := h.split rfl
    have hi : i < s.ctx.cores := by
      rw [run_ctx hrun₂, step_ctx hb]
      exact step_lt hb
    exact absurd (hidle i hi) hp.ne_idle
  · rw [← List.cons_append, ← List.append_assoc] at h ht ho
    obtain ⟨hrun₁, -⟩ := h.split rfl
    rw [Lts.every_append, Lts.every_cons] at ht ho
    have hi := runsInv h0.runsInv hrun₁ ht.1
    calc amoRank c.op c.val ≤ amoRank c.op (s₂.vmem.word c.addr) := by
          rw [heffect.word, rank_eval hk]
          exact le_max_right _ _
      _ ≤ amoRank c.op (s.vmem.word c.addr) :=
          rank_mono hk (hi.step ht.2.1 hs) hrun₂ ht.2.2 ho.2.2

end

/-- As long as no exchange of a helper fails and no `AMOOR` by the manual's code is begun: an AMO
takes effect at one access of its hart, before and after which that hart leaves memory alone; and
where only one of the comparing operations changes a word, the word moves in its order and ends as
the largest of the initial word and the operands. -/
theorem amo_holds (h0 : s₀.Start) (hrun : Run s₀ t s) (ht : Lts.Every AmoRight t) :
    (∀ t₁ sb i t₂ c, t = t₁ ++ (sb, .begin i) :: t₂ → sb.AtAmo i c →
      (Lts.Every (Quiet i) t₂ ∧ s.phase i ≠ .idle) ∨
      ∃ t₃ s₁ t₄ s₂, t₂ = t₃ ++ (s₁, .access i) :: t₄ ∧ Lts.Every (Quiet i) t₃ ∧
        Step s₁ (.access i) s₂ ∧ Effect i c s₁ s₂ ∧ Run s₂ t₄ s) ∧
    ∀ o a, o ∈ [AmoOp.max, .min, .maxu, .minu] → Lts.Every (OnlyAmo o a) t →
      (∀ t₁ s₁ l t₂ s₂, t = t₁ ++ (s₁, l) :: t₂ → Step s₁ l s₂ →
        amoRank o (s₁.vmem.word a) ≤ amoRank o (s₂.vmem.word a)) ∧
      ((∀ i < s.ctx.cores, s.phase i = .idle) →
        s.vmem.word a ∈ insert (s₀.vmem.word a) (operands o a t) ∧
        ∀ v ∈ insert (s₀.vmem.word a) (operands o a t),
          amoRank o v ≤ amoRank o (s.vmem.word a)) := by
  refine ⟨fun t₁ sb i t₂ c hsplit hc => ?_, fun o a hop ho => ?_⟩
  · exact (begun_call hrun ht hsplit hc).imp_left fun h => ⟨h.1, h.2.ne_idle⟩
  · obtain ⟨keep, hk⟩ : ∃ keep, amoKeep o = some keep := by
      simp only [List.mem_cons, List.not_mem_nil, or_false] at hop
      rcases hop with rfl | rfl | rfl | rfl <;> exact ⟨_, rfl⟩
    refine ⟨fun t₁ s₁ l t₂ s₂ hsplit hs => ?_, fun hidle => ⟨word_mem hk h0 hrun ht ho, ?_⟩⟩
    · obtain ⟨hrun₁, -⟩ := hrun.split hsplit
      rw [hsplit, Lts.every_append, Lts.every_cons] at ht ho
      exact rank_step hk ho.2.1 (runsInv h0.runsInv hrun₁ ht.1) ht.2.1 hs
    · rintro v (rfl | hv)
      · exact rank_mono hk h0.runsInv hrun ht ho
      · exact rank_operand hk h0 hrun ht ho hidle hv

/-- Two harts at `amomaxu.w x7, x6, (x5)`, with the word 3 and the operands 9 and 5. -/
def amoBoot : Harts :=
  .boot [encodeAmo .maxu 0 0 7 5 6, 3] [[(5, 4), (6, 9)], [(5, 4), (6, 5)]]

/-- The helper of the second hart loads the word after the first hart has stored it. -/
theorem amo_holds_boot :
    ∃ t s, Run amoBoot t s ∧ s.vmem.word 4 = 9 ∧
      s.vmem.word 4 ∈ insert (amoBoot.vmem.word 4) (operands .maxu 4 t) ∧
      ∀ v ∈ insert (amoBoot.vmem.word 4) (operands .maxu 4 t),
        amoRank .maxu v ≤ amoRank .maxu (s.vmem.word 4) := by
  obtain ⟨t, s, hrun, ht, ho, hidle, hword⟩ := Lts.exists_run next
    [.begin 0, .begin 1, .access 0, .access 0, .access 1]
    (Q := fun t s => Lts.Every AmoRight t ∧ Lts.Every (OnlyAmo .maxu 4) t ∧
      (∀ i < s.ctx.cores, s.phase i = .idle) ∧ s.vmem.word 4 = 9)
    (s := amoBoot) (by decide +kernel)
  exact ⟨t, s, hrun, hword,
    ((amo_holds (boot_start _ _) hrun ht).2 .maxu 4 (by decide) ho).2 hidle⟩

/-- Both load 3, the first stores 9, and the second stores 5 over it. -/
theorem amo_lowers :
    ∃ t s s', Run amoBoot t s ∧ Step s (.access 1) s' ∧
      (s.phase 1 = .cas .maxu (encodeAmo .maxu 0 0 7 5 6) 4 5 3 9 ∧ s.vmem.word 4 = 9) ∧
      (∀ i < s'.ctx.cores, s'.phase i = .idle) ∧ s'.vmem.word 4 = 5 ∧
      (s'.machine 1).reg 7 = 3 := by
  obtain ⟨t, s, hrun, hmid, hnext⟩ := Lts.exists_run next
    [.begin 0, .begin 1, .access 1, .access 0, .access 0, .access 1]
    (Q := fun t s =>
      (s.phase 1 = .cas .maxu (encodeAmo .maxu 0 0 7 5 6) 4 5 3 9 ∧ s.vmem.word 4 = 9) ∧
      (s.next (.access 1)).any (fun s' => decide ((∀ i < s'.ctx.cores, s'.phase i = .idle) ∧
        s'.vmem.word 4 = 5 ∧ (s'.machine 1).reg 7 = 3)) = true)
    (s := amoBoot) (by decide +kernel)
  obtain ⟨s', hs, hend⟩ := (Option.any_eq_true ..).mp hnext
  exact ⟨t, s, s', hrun, hs, hmid, of_decide_eq_true hend⟩

end Harts

end SwitchV32
