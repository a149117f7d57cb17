import SwitchV32.Harts.Amo

/-!
# Words that harts share

A word that only `AMOSWAP`, `AMOADD`, `AMOXOR`, `AMOAND` and `AMOOR` change is
an atomic object: their accesses take effect one after the other, none is lost,
and each gets the value that the ones before it have left. `AMOSWAP` makes a
spin lock of such a word.
-/

namespace SwitchV32

open Rv32 (AmoOp encodeAmo)

namespace Harts

variable {s₀ s s' : Harts} {l : HartLabel} {i j : Nat} {t : List (Harts × HartLabel)}
variable {c : AmoCall} {a : U32}

-- ---------------------------------------------------------------------------
-- Fetch and operate
-- ---------------------------------------------------------------------------

def fetchAt (a : U32) (s : Harts) (l : HartLabel) : Option AmoCall :=
  match s.accessPhase l with
  | .amo op ins addr val => if addr = a ∧ amoKeep op = none then some ⟨op, ins, addr, val⟩ else none
  | _ => none

def OnlyFetch (a : U32) (s : Harts) (l : HartLabel) : Prop :=
  (fetchAt a s l).isSome ∨ ∀ s', Step s l s' → s'.vmem.word a = s.vmem.word a

instance : Decidable (OnlyFetch a s l) :=
  decidable_of_iff ((fetchAt a s l).isSome ∨ ∀ s' ∈ s.next l, s'.vmem.word a = s.vmem.word a)
    Iff.rfl

/-- In the order in which they have taken effect. -/
def fetches (a : U32) (t : List (Harts × HartLabel)) : List AmoCall :=
  t.filterMap fun e => fetchAt a e.1 e.2

def afterCalls (w : U32) (cs : List AmoCall) : U32 := cs.foldl (fun w c => c.op.eval w c.val) w

theorem fetches_append (t₁ t₂ : List (Harts × HartLabel)) :
    fetches a (t₁ ++ t₂) = fetches a t₁ ++ fetches a t₂ := List.filterMap_append

theorem fetches_cons : fetches a ((s, l) :: t) = (fetchAt a s l).toList ++ fetches a t := by
  simp only [fetches, List.filterMap_cons]
  cases fetchAt a s l <;> rfl

theorem afterCalls_snoc (w : U32) (cs : List AmoCall) (c : AmoCall) :
    afterCalls w (cs ++ [c]) = c.op.eval (afterCalls w cs) c.val := by
  simp [afterCalls]

theorem fetchAt_eq_some (h : fetchAt a s l = some c) : ∃ i, l = .access i ∧
    s.phase i = .amo c.op c.ins c.addr c.val ∧ c.addr = a ∧ amoKeep c.op = none := by
  unfold fetchAt at h
  split at h
  · rename_i op ins addr val hp
    obtain ⟨i, rfl, hphase⟩ := (accessPhase_eq (by rintro ⟨⟩)).mp hp
    split at h <;> cases h
    rename_i hc
    exact ⟨i, rfl, hphase, hc⟩
  · cases h

theorem step_fetch (hp : s.phase i = .amo c.op c.ins c.addr c.val) (hk : amoKeep c.op = none)
    (h : Step s (.access i) s') : Effect i c s s' := by
  simp only [Step, next] at h
  split at h
  · obtain ⟨r, hr, rfl⟩ := toOption_map_eq_some.mp h
    simp only [hp, Phase.access, hk] at hr
    obtain ⟨⟨w, vmem⟩, hw, hr⟩ := bind_eq_ok.mp hr
    obtain ⟨vmem', hdone, -, hspace⟩ := amoHelper_word (amoHelper_inside hw) c.op c.val
    cases hw.symm.trans hdone
    cases hr
    exact {
      idle := put_phase_self ..
      word := word_of_space hspace
      rd := by rw [put_reg, reg_finish]; rfl
      space := by rw [put_vmem, vmem_finish, word_of_space hspace, hspace]; rfl }
  · cases h

theorem word_afterCalls (hrun : Run s₀ t s) (ho : Lts.Every (OnlyFetch a) t) :
    s.vmem.word a = afterCalls (s₀.vmem.word a) (fetches a t) := by
  induction hrun with
  | nil => rfl
  | @snoc t s l s' _ hs ih =>
    rw [Lts.every_append, Lts.every_cons] at ho
    rw [fetches_append, fetches_cons, show fetches a [] = [] from rfl, List.append_nil]
    cases hf : fetchAt a s l with
    | some c =>
      obtain ⟨i, rfl, hp, rfl, hk⟩ := fetchAt_eq_some hf
      rw [Option.toList_some, afterCalls_snoc, ← ih ho.1]
      exact (step_fetch hp hk hs).word
    | none =>
      rw [Option.toList_none, List.append_nil, ← ih ho.1]
      refine (ho.2.1.resolve_left ?_) s' hs
      simp [hf]

/-- A word that only these AMOs change holds what they come to in the order of their accesses, and
each of them gets in `rd` what the ones before it come to. -/
theorem atomic_word (hrun : Run s₀ t s) (ho : Lts.Every (OnlyFetch a) t) :
    s.vmem.word a = afterCalls (s₀.vmem.word a) (fetches a t) ∧
      ∀ t₁ s₁ l t₂ s₂ c, t = t₁ ++ (s₁, l) :: t₂ → Step s₁ l s₂ → fetchAt a s₁ l = some c →
        ∃ i, l = .access i ∧ s₂.phase i = .idle ∧ (s₂.machine i).reg (Ins.rdReg c.ins) =
          afterCalls (s₀.vmem.word a) (fetches a t₁) := by
  refine ⟨word_afterCalls hrun ho, fun t₁ s₁ l t₂ s₂ c hsplit hs hf => ?_⟩
  obtain ⟨i, rfl, hp, rfl, hk⟩ := fetchAt_eq_some hf
  have heffect := step_fetch hp hk hs
  obtain ⟨hrun₁, -⟩ := hrun.split hsplit
  rw [hsplit, Lts.every_append] at ho
  exact ⟨i, rfl, heffect.idle, heffect.rd.trans (word_afterCalls hrun₁ ho.1)⟩

/-- Two harts at `amoadd.w x7, x6, (x5)`, with the word 3 and the operands 9 and 5. -/
def addBoot : Harts :=
  .boot [encodeAmo .add 0 0 7 5 6, 3] [[(5, 4), (6, 9)], [(5, 4), (6, 5)]]

theorem atomic_word_boot :
    ∃ t s, Run addBoot t s ∧ (fetches 4 t).map AmoCall.val = [5, 9] ∧ s.vmem.word 4 = 17 ∧
      s.vmem.word 4 = afterCalls (addBoot.vmem.word 4) (fetches 4 t) := by
  obtain ⟨t, s, hrun, ho, hvals, hword⟩ := Lts.exists_run next
    [.begin 0, .begin 1, .access 1, .access 0]
    (Q := fun t s => Lts.Every (OnlyFetch 4) t ∧ (fetches 4 t).map AmoCall.val = [5, 9] ∧
      s.vmem.word 4 = 17)
    (s := addBoot) (by decide +kernel)
  exact ⟨t, s, hrun, hvals, hword, (atomic_word hrun ho).1⟩

-- ---------------------------------------------------------------------------
-- A counter
-- ---------------------------------------------------------------------------

theorem afterCalls_one (w : U32) {cs : List AmoCall} (h : ∀ c ∈ cs, c.op = .add ∧ c.val = 1) :
    afterCalls w cs = w + BitVec.ofNat 32 cs.length := by
  induction cs generalizing w with
  | nil => simp [afterCalls]
  | cons c cs ih =>
    obtain ⟨hop, hval⟩ := h c List.mem_cons_self
    have hrest := ih (w + 1) fun c hc => h c (List.mem_cons_of_mem _ hc)
    rw [afterCalls, List.foldl_cons, hop, hval, AmoOp.eval, ← afterCalls, hrest, List.length_cons,
      BitVec.ofNat_add, BitVec.add_assoc, BitVec.add_comm 1]
    rfl

/-- Harts that add 1 to a word count: the word goes up by the number of additions, and no two
additions get the same number. -/
theorem tickets (hrun : Run s₀ t s) (ho : Lts.Every (OnlyFetch a) t)
    (hone : ∀ c ∈ fetches a t, c.op = .add ∧ c.val = 1) (hlen : (fetches a t).length < 2 ^ 32) :
    s.vmem.word a = s₀.vmem.word a + BitVec.ofNat 32 (fetches a t).length ∧
      ∀ t₁ s₁ i t₂ s₂ j t₃ s₁' s₂' c₁ c₂,
        t = t₁ ++ (s₁, .access i) :: (t₂ ++ (s₂, .access j) :: t₃) →
        Step s₁ (.access i) s₁' → Step s₂ (.access j) s₂' →
        fetchAt a s₁ (.access i) = some c₁ → fetchAt a s₂ (.access j) = some c₂ →
        (s₁'.machine i).reg (Ins.rdReg c₁.ins) ≠ (s₂'.machine j).reg (Ins.rdReg c₂.ins) := by
  obtain ⟨hword, hgets⟩ := atomic_word hrun ho
  refine ⟨by rw [hword, afterCalls_one _ hone], ?_⟩
  intro t₁ s₁ i t₂ s₂ j t₃ s₁' s₂' c₁ c₂ hsplit hs₁ hs₂ hf₁ hf₂
  have hsplit₂ : t = (t₁ ++ (s₁, .access i) :: t₂) ++ (s₂, .access j) :: t₃ := by
    rw [hsplit, List.append_assoc, List.cons_append]
  obtain ⟨_, hi, -, hrd₁⟩ := hgets _ _ _ _ _ _ hsplit hs₁ hf₁
  obtain ⟨_, hj, -, hrd₂⟩ := hgets _ _ _ _ _ _ hsplit₂ hs₂ hf₂
  cases hi
  cases hj
  rw [hsplit₂, fetches_append] at hone hlen
  have hone₂ := fun c hc => hone c (List.mem_append_left _ hc)
  have hone₁ := fun c hc => hone₂ c (by rw [fetches_append]; exact List.mem_append_left _ hc)
  rw [hrd₁, hrd₂, afterCalls_one _ hone₁, afterCalls_one _ hone₂, ne_eq, BitVec.add_right_inj]
  rw [List.length_append] at hlen
  have hlt : (fetches a t₁).length < (fetches a (t₁ ++ (s₁, .access i) :: t₂)).length := by
    simp [fetches_append, fetches_cons, hf₁]
  intro heq
  have hnat := congrArg BitVec.toNat heq
  rw [BitVec.toNat_ofNat, BitVec.toNat_ofNat, Nat.mod_eq_of_lt (by omega),
    Nat.mod_eq_of_lt (by omega)] at hnat
  omega

/-- Two harts at `amoadd.w x7, x6, (x5)` that add 1 to the word 3. -/
def ticketBoot : Harts :=
  .boot [encodeAmo .add 0 0 7 5 6, 3] [[(5, 4), (6, 1)], [(5, 4), (6, 1)]]

theorem tickets_boot :
    ∃ t s, Run ticketBoot t s ∧ (fetches 4 t).length = 2 ∧
      s.vmem.word 4 = ticketBoot.vmem.word 4 + BitVec.ofNat 32 (fetches 4 t).length := by
  obtain ⟨t, s, hrun, ho, hone, hlen⟩ := Lts.exists_run next
    [.begin 1, .access 1, .begin 0, .access 0]
    (Q := fun t _ => Lts.Every (OnlyFetch 4) t ∧
      (∀ c ∈ fetches 4 t, c.op = .add ∧ c.val = 1) ∧ (fetches 4 t).length = 2)
    (s := ticketBoot) (by decide +kernel)
  exact ⟨t, s, hrun, hlen, (tickets hrun ho hone (by rw [hlen]; decide)).1⟩

end Harts

end SwitchV32
