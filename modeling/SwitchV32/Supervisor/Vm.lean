import SwitchV32.Supervisor.TrapEntry
import Mathlib.Tactic.IntervalCases

/-!
# The page-table walk

`supervisor/vm.c` against the Sv32 translation. The walk reads its entries
through host pointers: an offset from `vmem` that is not below the memory size
finds what the process has there. The permission checks are those of Sv32; the
entries are neither where Sv32 puts them nor laid out as Sv32 lays them out.
-/

namespace SwitchV32.Supervisor

-- ---------------------------------------------------------------------------
-- Entries
-- ---------------------------------------------------------------------------

/-- The fields that the walk looks at: all but `rsw`. -/
structure Pte where
  ppn : BitVec 22
  d : Bool
  a : Bool
  g : Bool
  u : Bool
  x : Bool
  w : Bool
  r : Bool
  v : Bool
  deriving DecidableEq

/-- The bit-fields of `PTE`, which gcc allocates from the low end of the word. -/
def Pte.ofWord (word : U32) : Pte where
  ppn := word.extractLsb' 0 22
  d := word.getLsbD 24
  a := word.getLsbD 25
  g := word.getLsbD 26
  u := word.getLsbD 27
  x := word.getLsbD 28
  w := word.getLsbD 29
  r := word.getLsbD 30
  v := word.getLsbD 31

/-- The entry as the privileged architecture lays it out. -/
def Pte.ofSv32Word (word : U32) : Pte where
  ppn := word.extractLsb' 10 22
  d := word.getLsbD 7
  a := word.getLsbD 6
  g := word.getLsbD 5
  u := word.getLsbD 4
  x := word.getLsbD 3
  w := word.getLsbD 2
  r := word.getLsbD 1
  v := word.getLsbD 0

def memWord (vmem : Mem) (a : Nat) : U32 := BitVec.ofNat 32 (bytesLE vmem.byte a 4)

/-- The word at an offset from `vmem`; `beyond` is what follows the block. -/
def hostWord (vmem : Mem) (beyond : Nat → U8) (offset : Nat) : U32 :=
  BitVec.ofNat 32
    (bytesLE (fun i => if i < vmem.size then vmem.byte i else beyond i) offset 4)

-- ---------------------------------------------------------------------------
-- `vm.c`
-- ---------------------------------------------------------------------------

def pageSize : U32 := 4096

def satpMode (satp : U32) : Bool := bit satp 31
def satpPpn (satp : U32) : U32 := satp &&& 0x3FFFFF
def sstatusMxr (sstatus : U32) : Bool := bit sstatus 19
def sstatusSum (sstatus : U32) : Bool := bit sstatus 18

def getPpn1 (ppn : U32) : U32 := ppn &&& 0x3FFC00
def getPpn0 (ppn : U32) : U32 := ppn &&& 0x3FF
def getAddrLast10 (addr : U32) : U32 := addr &&& 0xFFC00000
def getVpOffset (addr : U32) : U32 := addr &&& 0xFFF
def getMegapageVpOffset (addr : U32) : U32 := addr &&& 0x3FFFFF

def treeWalkTrapped : BitVec 64 := 0xFFFFFFFFFFFFFFFF

inductive OpType
  | memInsFetch | memRead | memWrite
  deriving DecidableEq, Repr

def OpType.code : OpType → TrapCode
  | .memInsFetch => .insPageFault
  | .memRead => .loadPageFault
  | .memWrite => .storeAmoPageFault

def sizeofPte : Nat := 4

/-- `pte_array + ...`, as an offset from `vmem`: the scaling by the pointer type comes on top of
the factor in the expression. -/
def selectedPte (ppAddr tmpAddr : U32) : Nat :=
  ppAddr.toNat + (getAddrLast10 tmpAddr).toNat * sizeofPte * sizeofPte

inductive WalkStep
  /-- `dispatch_trap(core, op, addr)` and return -/
  | trapped
  | found (paddr : BitVec 64)
  | next (ppAddr : U32)
  deriving DecidableEq

def walkBody (core : VCore) (addr : U32) (op : OpType) (level : Nat) (pte : Pte) : WalkStep :=
  let sstatus := core.regs Reg.sstatus
  let ppn := pte.ppn.setWidth 32
  -- not valid or reserved combination
  if pte.v = false ∨ (pte.r = false ∧ pte.w = true) then .trapped
  else if pte.r = true ∨ pte.x = true then
    -- leaf pte
    if (sstatusMxr sstatus = false ∧ op = .memRead ∧ pte.r = false) ∨
        (op = .memInsFetch ∧ pte.x = false) ∨ (op = .memWrite ∧ pte.w = false) then .trapped
    else if ((sstatusSum sstatus = false ∨ op = .memInsFetch) ∧ pte.u = true ∧
          core.mode = .supervisor) ∨ (pte.u = false ∧ core.mode = .user) then .trapped
    -- misaligned megapage
    else if level > 0 ∧ getPpn0 ppn ≠ 0 then .trapped
    -- demanding the supervisor to set A and D bits
    else if pte.a = false ∨ (pte.d = false ∧ op = .memWrite) then .trapped
    else if level > 0 then
      .found ((getPpn1 ppn).setWidth 64 <<< 12 ||| (getMegapageVpOffset addr).setWidth 64)
    else .found (ppn.setWidth 64 <<< 12 ||| (getVpOffset addr).setWidth 64)
  else .next (ppn * pageSize)

/-- The loop with `levels` rounds to go: the entries that it selects, and the address it finds. -/
def walkLoop (entry : Nat → Pte) (core : VCore) (addr : U32) (op : OpType) :
    (levels : Nat) → (ppAddr tmpAddr : U32) → List (Nat × Pte) × Option (BitVec 64)
  | 0, _, _ => ([], none)
  | level + 1, ppAddr, tmpAddr =>
    let selected := selectedPte ppAddr tmpAddr
    let pte := entry selected
    match walkBody core addr op level pte with
    | .trapped => ([(selected, pte)], none)
    | .found paddr => ([(selected, pte)], some paddr)
    | .next ppAddr =>
      let (selecteds, paddr) := walkLoop entry core addr op level ppAddr (tmpAddr <<< 10)
      ((selected, pte) :: selecteds, paddr)

def rootAddr (satp : U32) : U32 := satpPpn satp * pageSize

section
variable {σ : Type}

/-- `entry` is what the pointers to `PTE` read, by offset from `vmem`. -/
def vmTreeWalk (entry : Nat → Pte) (m : Machine σ) (addr : U32) (op : OpType) :
    Except Stop (Machine σ × BitVec 64) := do
  let satp := m.reg Reg.satp
  -- assert virtual memory is active
  if satpMode satp = false then throw .abort
  if ¬ (rootAddr satp).toNat < m.vmem.size then throw .abort
  match (walkLoop entry m.core addr op 2 (rootAddr satp) addr).2 with
  | some paddr => return (m, paddr)
  | none =>
    let m ← dispatchTrap m op.code addr
    return (m, treeWalkTrapped)

/-- The entries that the walk consults, with the offsets from `vmem` they are read at. -/
def consulted (beyond : Nat → U8) (m : Machine σ) (addr : U32) (op : OpType) :
    List (Nat × Pte) :=
  (walkLoop (fun offset => .ofWord (hostWord m.vmem beyond offset)) m.core addr op 2
    (rootAddr (m.reg Reg.satp)) addr).1

end

-- ---------------------------------------------------------------------------
-- The Sv32 rules
-- ---------------------------------------------------------------------------

namespace Pte

/-- A valid entry, and not of the reserved combination. -/
def Valid (e : Pte) : Prop := e.v = true ∧ ¬ (e.r = false ∧ e.w = true)

def Leaf (e : Pte) : Prop := e.r = true ∨ e.x = true

def Allows (e : Pte) (sstatus : U32) : OpType → Prop
  | .memInsFetch => e.x = true
  | .memRead => e.r = true ∨ (e.x = true ∧ sstatusMxr sstatus = true)
  | .memWrite => e.w = true

def Accessible (e : Pte) (sstatus : U32) (mode : ExecutionMode) (op : OpType) : Prop :=
  match mode with
  | .supervisor => e.u = true → sstatusSum sstatus = true ∧ op ≠ .memInsFetch
  | .user => e.u = true

def Permits (e : Pte) (sstatus : U32) (mode : ExecutionMode) (op : OpType) : Prop :=
  e.Allows sstatus op ∧ e.Accessible sstatus mode op ∧ e.a = true ∧ (op = .memWrite → e.d = true)

def ppn0 (e : Pte) : Nat := e.ppn.toNat % 2 ^ 10
def ppn1 (e : Pte) : Nat := e.ppn.toNat / 2 ^ 10

instance (e : Pte) : Decidable e.Valid := inferInstanceAs (Decidable (_ ∧ _))
instance (e : Pte) : Decidable e.Leaf := inferInstanceAs (Decidable (_ ∨ _))

instance (e : Pte) (sstatus op) : Decidable (e.Allows sstatus op) :=
  match op with
  | .memInsFetch => inferInstanceAs (Decidable (_ = _))
  | .memRead => inferInstanceAs (Decidable (_ ∨ _))
  | .memWrite => inferInstanceAs (Decidable (_ = _))

instance (e : Pte) (sstatus mode op) : Decidable (e.Accessible sstatus mode op) :=
  match mode with
  | .supervisor => inferInstanceAs (Decidable (_ → _))
  | .user => inferInstanceAs (Decidable (_ = _))

instance (e : Pte) (sstatus mode op) : Decidable (e.Permits sstatus mode op) :=
  inferInstanceAs (Decidable (_ ∧ _ ∧ _ ∧ (_ → _)))

end Pte

/-- An entry of level 1 that leads to a page of entries of level 0. -/
def Pte.Pointer (e : Pte) : Prop := e.Valid ∧ ¬ e.Leaf

instance (e : Pte) : Decidable e.Pointer := inferInstanceAs (Decidable (_ ∧ _))

/-- The access is granted by the entries `e₁` of level 1 and, if that is a pointer, `e₀`. -/
def Sv32Grants (e₁ e₀ : Pte) (sstatus : U32) (mode : ExecutionMode) (op : OpType) : Prop :=
  e₁.Valid ∧
    if e₁.Leaf then e₁.Permits sstatus mode op ∧ e₁.ppn0 = 0
    else e₀.Valid ∧ e₀.Leaf ∧ e₀.Permits sstatus mode op

instance (e₁ e₀ : Pte) (sstatus mode op) : Decidable (Sv32Grants e₁ e₀ sstatus mode op) :=
  inferInstanceAs (Decidable (_ ∧ ite ..))

def sv32Paddr (e₁ e₀ : Pte) (addr : U32) : Nat :=
  if e₁.Leaf then e₁.ppn1 * 2 ^ 22 + addr.toNat % 2 ^ 22
  else e₀.ppn.toNat * 2 ^ 12 + addr.toNat % 2 ^ 12

-- ---------------------------------------------------------------------------
-- Fields of an address
-- ---------------------------------------------------------------------------

theorem toNat_and_ones (x : U32) {n : Nat} (hn : n ≤ 32) :
    (x &&& BitVec.ofNat 32 (2 ^ n - 1)).toNat = x.toNat % 2 ^ n := by
  have hle := Nat.pow_le_pow_right (n := 2) (by decide) hn
  have hpos := Nat.two_pow_pos n
  rw [BitVec.toNat_and, BitVec.toNat_ofNat, Nat.mod_eq_of_lt (by omega),
    Nat.and_two_pow_sub_one_eq_mod]

theorem toNat_ppn (e : Pte) : (e.ppn.setWidth 32).toNat = e.ppn.toNat := by
  have hppn := e.ppn.isLt
  rw [BitVec.toNat_setWidth, Nat.mod_eq_of_lt (by omega)]

theorem toNat_getPpn0 (e : Pte) : (getPpn0 (e.ppn.setWidth 32)).toNat = e.ppn0 := by
  have h := toNat_and_ones (e.ppn.setWidth 32) (n := 10) (by decide)
  rw [toNat_ppn] at h
  exact h

theorem getPpn0_eq_zero (e : Pte) : getPpn0 (e.ppn.setWidth 32) = 0 ↔ e.ppn0 = 0 := by
  rw [← toNat_getPpn0]
  exact BitVec.toNat_eq

theorem getPpn1_eq (ppn : BitVec 22) :
    getPpn1 (ppn.setWidth 32) = (ppn.setWidth 32) >>> 10 <<< 10 := by
  apply BitVec.eq_of_getLsbD_eq
  intro i hi
  simp only [getPpn1, BitVec.getLsbD_and, BitVec.getLsbD_shiftLeft, BitVec.getLsbD_ushiftRight]
  interval_cases i <;> simp

theorem toNat_getPpn1 (e : Pte) : (getPpn1 (e.ppn.setWidth 32)).toNat = e.ppn1 * 2 ^ 10 := by
  have hppn := e.ppn.isLt
  rw [getPpn1_eq, BitVec.toNat_shiftLeft, BitVec.toNat_ushiftRight, toNat_ppn,
    Nat.shiftRight_eq_div_pow, Nat.shiftLeft_eq, Nat.mod_eq_of_lt (by omega), Pte.ppn1]

theorem toNat_page (page offset : U32) {n : Nat} (hoffset : offset.toNat < 2 ^ 12 * 2 ^ n)
    (hpage : 2 ^ n ∣ page.toNat) :
    (page.setWidth 64 <<< 12 ||| offset.setWidth 64).toNat =
      page.toNat * 2 ^ 12 + offset.toNat := by
  have hpage_lt := page.isLt
  have hoffset_lt := offset.isLt
  have hdvd : 2 ^ (12 + n) ∣ page.toNat <<< 12 := by
    rw [Nat.shiftLeft_eq, Nat.mul_comm, Nat.pow_add]
    exact Nat.mul_dvd_mul_left _ hpage
  obtain ⟨q, hq⟩ := hdvd
  simp only [BitVec.toNat_or, BitVec.toNat_shiftLeft, BitVec.toNat_setWidth]
  rw [Nat.mod_eq_of_lt (a := page.toNat) (by omega),
    Nat.mod_eq_of_lt (a := offset.toNat) (by omega),
    Nat.mod_eq_of_lt (by rw [Nat.shiftLeft_eq]; omega), hq,
    ← Nat.two_pow_add_eq_or_of_lt (by rw [Nat.pow_add]; exact hoffset), ← hq, Nat.shiftLeft_eq]

-- ---------------------------------------------------------------------------
-- The checks
-- ---------------------------------------------------------------------------

section
variable {core : VCore} {addr : U32} {op : OpType} {level : Nat} {e : Pte}

theorem walkBody_invalid (h : ¬ e.Valid) : walkBody core addr op level e = .trapped := by
  have hv : e.v = false ∨ (e.r = false ∧ e.w = true) := by
    simp only [Pte.Valid, not_and_or] at h
    simpa using h
  simp only [walkBody, hv, if_true]

theorem walkBody_pointer (hv : e.Valid) (hl : ¬ e.Leaf) :
    walkBody core addr op level e = .next (e.ppn.setWidth 32 * pageSize) := by
  have hvalid : ¬ (e.v = false ∨ (e.r = false ∧ e.w = true)) := by
    simpa [Pte.Valid] using hv
  simp only [walkBody, hvalid, if_false]
  exact if_neg hl

/-- The conditions that the code negates one by one. -/
theorem walkBody_leaf (hv : e.Valid) (hl : e.Leaf) :
    walkBody core addr op level e =
      if e.Permits (core.regs Reg.sstatus) core.mode op ∧ (level > 0 → e.ppn0 = 0) then
        .found (if level > 0 then
            (getPpn1 (e.ppn.setWidth 32)).setWidth 64 <<< 12 |||
              (getMegapageVpOffset addr).setWidth 64
          else (e.ppn.setWidth 32).setWidth 64 <<< 12 ||| (getVpOffset addr).setWidth 64)
      else .trapped := by
  have hvalid : ¬ (e.v = false ∨ (e.r = false ∧ e.w = true)) := by
    simpa [Pte.Valid] using hv
  have hleaf : e.r = true ∨ e.x = true := hl
  have hallows : ((sstatusMxr (core.regs Reg.sstatus) = false ∧ op = .memRead ∧ e.r = false) ∨
      (op = .memInsFetch ∧ e.x = false) ∨ (op = .memWrite ∧ e.w = false)) ↔
        ¬ e.Allows (core.regs Reg.sstatus) op := by
    cases op <;> simp only [Pte.Allows] <;> grind
  have haccess : ((sstatusSum (core.regs Reg.sstatus) = false ∨ op = .memInsFetch) ∧ e.u = true ∧
      core.mode = .supervisor ∨ e.u = false ∧ core.mode = .user) ↔
        ¬ e.Accessible (core.regs Reg.sstatus) core.mode op := by
    cases core.mode <;> simp only [Pte.Accessible] <;> grind
  have hmega : (level > 0 ∧ getPpn0 (e.ppn.setWidth 32) ≠ 0) ↔ ¬ (level > 0 → e.ppn0 = 0) := by
    rw [ne_eq, getPpn0_eq_zero, Classical.not_imp]
  have had : (e.a = false ∨ (e.d = false ∧ op = .memWrite)) ↔
      ¬ (e.a = true ∧ (op = .memWrite → e.d = true)) := by grind
  simp only [walkBody, hvalid, hleaf, if_false, if_true, hallows, haccess, hmega, had,
    Pte.Permits]
  split_ifs <;> first | rfl | grind

end

-- ---------------------------------------------------------------------------
-- What is granted
-- ---------------------------------------------------------------------------

section
variable {σ : Type}

def entry₁ (entry : Nat → Pte) (m : Machine σ) (addr : U32) : Pte :=
  entry (selectedPte (rootAddr (m.reg Reg.satp)) addr)

def entry₀ (entry : Nat → Pte) (m : Machine σ) (addr : U32) : Pte :=
  entry (selectedPte ((entry₁ entry m addr).ppn.setWidth 32 * pageSize) (addr <<< 10))

variable {entry : Nat → Pte} {m : Machine σ} {addr : U32} {op : OpType}

theorem sv32Paddr_lt (e₁ e₀ : Pte) (addr : U32) : sv32Paddr e₁ e₀ addr < 2 ^ 34 := by
  have h₁ := e₁.ppn.isLt
  have h₀ := e₀.ppn.isLt
  unfold sv32Paddr
  split
  · unfold Pte.ppn1
    omega
  · omega

theorem ofNat_sv32Paddr_ne (e₁ e₀ : Pte) (addr : U32) :
    BitVec.ofNat 64 (sv32Paddr e₁ e₀ addr) ≠ treeWalkTrapped := by
  have hlt := sv32Paddr_lt e₁ e₀ addr
  intro h
  have hnat := congrArg BitVec.toNat h
  rw [BitVec.toNat_ofNat, Nat.mod_eq_of_lt (by omega)] at hnat
  have htrapped : treeWalkTrapped.toNat = 2 ^ 64 - 1 := rfl
  omega

theorem found_megapage (e : Pte) (addr : U32) :
    (getPpn1 (e.ppn.setWidth 32)).setWidth 64 <<< 12 ||| (getMegapageVpOffset addr).setWidth 64 =
      BitVec.ofNat 64 (e.ppn1 * 2 ^ 22 + addr.toNat % 2 ^ 22) := by
  have hoffset : (getMegapageVpOffset addr).toNat = addr.toNat % 2 ^ 22 :=
    toNat_and_ones addr (n := 22) (by decide)
  have hlt := e.ppn.isLt
  have hlt₁ : e.ppn1 * 2 ^ 22 + addr.toNat % 2 ^ 22 < 2 ^ 64 := by
    unfold Pte.ppn1
    omega
  apply BitVec.eq_of_toNat_eq
  rw [toNat_page (n := 10) _ _ (by rw [hoffset]; omega) ⟨e.ppn1, by rw [toNat_getPpn1]; omega⟩,
    toNat_getPpn1, hoffset, BitVec.toNat_ofNat, Nat.mod_eq_of_lt (b := 2 ^ 64) hlt₁]
  omega

theorem found_page (e : Pte) (addr : U32) :
    (e.ppn.setWidth 32).setWidth 64 <<< 12 ||| (getVpOffset addr).setWidth 64 =
      BitVec.ofNat 64 (e.ppn.toNat * 2 ^ 12 + addr.toNat % 2 ^ 12) := by
  have hoffset : (getVpOffset addr).toNat = addr.toNat % 2 ^ 12 :=
    toNat_and_ones addr (n := 12) (by decide)
  have hlt := e.ppn.isLt
  apply BitVec.eq_of_toNat_eq
  rw [toNat_page (n := 0) _ _ (by rw [hoffset]; omega) (Nat.one_dvd _), toNat_ppn, hoffset,
    BitVec.toNat_ofNat, Nat.mod_eq_of_lt (b := 2 ^ 64) (by omega)]

theorem walkLoop_found :
    (walkLoop entry m.core addr op 2 (rootAddr (m.reg Reg.satp)) addr).2 =
      if Sv32Grants (entry₁ entry m addr) (entry₀ entry m addr) (m.reg Reg.sstatus) m.core.mode op
      then some (BitVec.ofNat 64 (sv32Paddr (entry₁ entry m addr) (entry₀ entry m addr) addr))
      else none := by
  have h₁ : entry (selectedPte (rootAddr (m.reg Reg.satp)) addr) = entry₁ entry m addr := rfl
  have h₀ : entry (selectedPte ((entry₁ entry m addr).ppn.setWidth 32 * pageSize) (addr <<< 10)) =
      entry₀ entry m addr := rfl
  have hreg : m.core.regs Reg.sstatus = m.reg Reg.sstatus := rfl
  generalize entry₁ entry m addr = e₁ at h₁ h₀ ⊢
  generalize entry₀ entry m addr = e₀ at h₀ ⊢
  by_cases hv₁ : e₁.Valid
  · by_cases hl₁ : e₁.Leaf
    · simp only [walkLoop, h₁, walkBody_leaf hv₁ hl₁, Sv32Grants, hv₁, hl₁, sv32Paddr, hreg,
        true_and, if_true, Nat.zero_lt_one, forall_const, gt_iff_lt, found_megapage]
      split_ifs <;> rfl
    · simp only [walkLoop, h₁, h₀, walkBody_pointer hv₁ hl₁, Sv32Grants, hv₁, hl₁, sv32Paddr,
        if_false, true_and]
      by_cases hv₀ : e₀.Valid
      · by_cases hl₀ : e₀.Leaf
        · simp only [walkBody_leaf hv₀ hl₀, hv₀, hl₀, hreg, true_and, gt_iff_lt, Nat.lt_irrefl,
            false_imp_iff, and_true, if_false, found_page]
          split_ifs <;> rfl
        · simp only [walkBody_pointer hv₀ hl₀, hv₀, hl₀, false_and, and_false, if_false]
      · simp only [walkBody_invalid hv₀, hv₀, false_and, if_false]
  · simp only [walkLoop, h₁, walkBody_invalid hv₁, Sv32Grants, hv₁, false_and, if_false]

theorem OpType.code_nonneg (op : OpType) : 0 ≤ op.code.val.toInt := by
  cases op <;> decide

/-- The walk returns an address exactly where Sv32 grants the access, for whatever entries it
reads; it leaves the core alone then, and dispatches one trap otherwise. -/
theorem vmTreeWalk_sv32 (entry : Nat → Pte) (m : Machine σ) (addr : U32) (op : OpType)
    (hmode : satpMode (m.reg Reg.satp) = true)
    (hroot : (rootAddr (m.reg Reg.satp)).toNat < m.vmem.size) :
    let e₁ := entry₁ entry m addr
    let e₀ := entry₀ entry m addr
    let paddr := BitVec.ofNat 64 (sv32Paddr e₁ e₀ addr)
    (Sv32Grants e₁ e₀ (m.reg Reg.sstatus) m.core.mode op →
      vmTreeWalk entry m addr op = .ok (m, paddr) ∧ paddr ≠ treeWalkTrapped) ∧
    (¬ Sv32Grants e₁ e₀ (m.reg Reg.sstatus) m.core.mode op →
      ∃ m', dispatchTrap m op.code addr = .ok m' ∧
        vmTreeWalk entry m addr op = .ok (m', treeWalkTrapped)) := by
  intro e₁ e₀ paddr
  have hwalk : vmTreeWalk entry m addr op =
      match (walkLoop entry m.core addr op 2 (rootAddr (m.reg Reg.satp)) addr).2 with
      | some paddr => .ok (m, paddr)
      | none => dispatchTrap m op.code addr >>= fun m => .ok (m, treeWalkTrapped) := by
    simp only [vmTreeWalk, hmode, hroot, not_true_eq_false, if_false, reduceCtorEq]
    rfl
  rw [walkLoop_found] at hwalk
  constructor
  · intro hgrants
    refine ⟨?_, ofNat_sv32Paddr_ne e₁ e₀ addr⟩
    rw [hwalk, if_pos hgrants]
  · intro hgrants
    rw [if_neg hgrants] at hwalk
    have htrap := dispatchTrap_eq m op.code addr
    rw [if_pos op.code_nonneg] at htrap
    exact ⟨_, htrap, by rw [hwalk, htrap]; rfl⟩

/-- A core in supervisor mode with translation on and the page table at page 0. -/
def walking (vmem : Mem) : Machine Unit where
  core := (vcoreInit none).setReg Reg.satp 0x80000000
  vmem
  host := ()

def userMegapage : Pte :=
  { ppn := 0x400, d := false, a := true, g := false, u := true, x := false, w := false, r := true,
    v := true }

theorem vmTreeWalk_sv32_user :
    let m := walking (.ofWords [])
    let paddr := BitVec.ofNat 64 (sv32Paddr userMegapage userMegapage 0x1234)
    (Sv32Grants userMegapage userMegapage (m.reg Reg.sstatus) m.core.mode .memRead →
      vmTreeWalk (fun _ => userMegapage) m 0x1234 .memRead = .ok (m, paddr) ∧
        paddr ≠ treeWalkTrapped) ∧
    (¬ Sv32Grants userMegapage userMegapage (m.reg Reg.sstatus) m.core.mode .memRead →
      ∃ m', dispatchTrap m OpType.memRead.code 0x1234 = .ok m' ∧
        vmTreeWalk (fun _ => userMegapage) m 0x1234 .memRead = .ok (m', treeWalkTrapped)) :=
  vmTreeWalk_sv32 (fun _ => userMegapage) (walking (.ofWords [])) 0x1234 .memRead (by decide)
    (by decide)

end

-- ---------------------------------------------------------------------------
-- Which entries are consulted
-- ---------------------------------------------------------------------------

def vpn1 (addr : U32) : Nat := addr.toNat / 2 ^ 22
def vpn0 (addr : U32) : Nat := addr.toNat / 2 ^ 12 % 2 ^ 10

def sv32Addr₁ (satp addr : U32) : Nat := (satpPpn satp).toNat * 4096 + 4 * vpn1 addr
def sv32Entry₁ (vmem : Mem) (satp addr : U32) : Pte :=
  .ofSv32Word (memWord vmem (sv32Addr₁ satp addr))

def sv32Addr₀ (vmem : Mem) (satp addr : U32) : Nat :=
  (sv32Entry₁ vmem satp addr).ppn.toNat * 4096 + 4 * vpn0 addr
def sv32Entry₀ (vmem : Mem) (satp addr : U32) : Pte :=
  .ofSv32Word (memWord vmem (sv32Addr₀ vmem satp addr))

/-- The entries of the Sv32 translation, with their physical addresses. -/
def sv32Consulted (vmem : Mem) (satp addr : U32) : List (Nat × Pte) :=
  let first := (sv32Addr₁ satp addr, sv32Entry₁ vmem satp addr)
  if (sv32Entry₁ vmem satp addr).Pointer then
    [first, (sv32Addr₀ vmem satp addr, sv32Entry₀ vmem satp addr)]
  else [first]

structure PagesInside (vmem : Mem) (satp addr : U32) : Prop where
  root : (satpPpn satp).toNat * 4096 + 4096 ≤ vmem.size
  next : (sv32Entry₁ vmem satp addr).Pointer →
    (sv32Entry₁ vmem satp addr).ppn.toNat * 4096 + 4096 ≤ vmem.size

/-- The bit-fields of `PTE` make of the word what Sv32 makes of it. -/
def SameLayout (word : U32) : Prop := Pte.ofWord word = Pte.ofSv32Word word

/-- The walk indexes with 0 and finds a word that reads the same in both layouts. -/
structure WalkFits (vmem : Mem) (satp addr : U32) : Prop where
  index₁ : vpn1 addr = 0
  layout₁ : SameLayout (memWord vmem (sv32Addr₁ satp addr))

section
variable {vmem : Mem} {beyond : Nat → U8} {addr satp page : U32} {offset : Nat}

theorem hostWord_inside (h : offset + 4 ≤ vmem.size) :
    hostWord vmem beyond offset = memWord vmem offset := by
  have hbyte : ∀ i, i < vmem.size → (if i < vmem.size then vmem.byte i else beyond i) =
      vmem.byte i := fun i hi => if_pos hi
  simp only [hostWord, memWord, bytesLE]
  rw [hbyte _ (by omega), hbyte _ (by omega), hbyte _ (by omega), hbyte _ (by omega)]

/-- The index that the code selects, sixteen times too far apart and shifted by 22 more bits. -/
theorem selectedPte_eq (page addr : U32) :
    selectedPte page addr = page.toNat + vpn1 addr * 2 ^ 26 := by
  have hlast : (getAddrLast10 addr).toNat = vpn1 addr * 2 ^ 22 := by
    have heq : getAddrLast10 addr = addr >>> 22 <<< 22 := by
      apply BitVec.eq_of_getLsbD_eq
      intro i hi
      simp only [getAddrLast10, BitVec.getLsbD_and, BitVec.getLsbD_shiftLeft,
        BitVec.getLsbD_ushiftRight]
      interval_cases i <;> simp
    have hlt := addr.isLt
    rw [heq, BitVec.toNat_shiftLeft, BitVec.toNat_ushiftRight, Nat.shiftRight_eq_div_pow,
      Nat.shiftLeft_eq, Nat.mod_eq_of_lt (by omega), vpn1]
  rw [selectedPte, hlast, sizeofPte]
  omega

theorem toNat_mul_pageSize (h : page.toNat * 4096 < 2 ^ 32) :
    (page * pageSize).toNat = page.toNat * 4096 := by
  have hsize : pageSize.toNat = 4096 := rfl
  rw [BitVec.toNat_mul, hsize, Nat.mod_eq_of_lt h]

variable {entry : Nat → Pte} {core : VCore} {op : OpType} {level : Nat} {e : Pte}

theorem walkBody_eq_next :
    walkBody core addr op level e = .next page ↔
      e.Pointer ∧ page = e.ppn.setWidth 32 * pageSize := by
  by_cases hv : e.Valid
  · by_cases hl : e.Leaf
    · rw [walkBody_leaf hv hl]
      constructor
      · intro h
        split at h <;> cases h
      · rintro ⟨⟨-, hl'⟩, -⟩
        exact absurd hl hl'
    · rw [walkBody_pointer hv hl, WalkStep.next.injEq]
      exact ⟨fun h => ⟨⟨hv, hl⟩, h.symm⟩, fun h => h.2.symm⟩
  · rw [walkBody_invalid hv]
    constructor
    · rintro ⟨⟩
    · rintro ⟨⟨hv', -⟩, -⟩
      exact absurd hv' hv

theorem walkLoop_selected :
    (walkLoop entry core addr op (level + 1) page tmpAddr).1 =
      (selectedPte page tmpAddr, entry (selectedPte page tmpAddr)) ::
        if (entry (selectedPte page tmpAddr)).Pointer then
          (walkLoop entry core addr op level
            ((entry (selectedPte page tmpAddr)).ppn.setWidth 32 * pageSize) (tmpAddr <<< 10)).1
        else [] := by
  simp only [walkLoop]
  cases hbody : walkBody core addr op level (entry (selectedPte page tmpAddr)) with
  | next page' =>
    obtain ⟨hpointer, rfl⟩ := walkBody_eq_next.mp hbody
    simp only [hpointer, if_true]
  | trapped | found =>
    have hpointer : ¬ (entry (selectedPte page tmpAddr)).Pointer := by
      intro hpointer
      have hnext : walkBody core addr op level (entry (selectedPte page tmpAddr)) = .next _ :=
        walkBody_eq_next.mpr ⟨hpointer, rfl⟩
      rw [hbody] at hnext
      cases hnext
    simp only [hpointer, if_false]

end

section
variable {σ : Type} {vmem : Mem} {beyond : Nat → U8} {m : Machine σ} {addr satp : U32} {op : OpType}

theorem vpn1_lt (addr : U32) : vpn1 addr < 2 ^ 10 := by
  have hlt := addr.isLt
  unfold vpn1
  omega

theorem toNat_rootAddr (h : PagesInside vmem satp addr) :
    (rootAddr satp).toNat = (satpPpn satp).toNat * 4096 := by
  have hroot := h.root
  have hsize := vmem.size_le
  exact toNat_mul_pageSize (by omega)

/-- Where the walk reads its first entry: in the right place for index 0 only. -/
theorem selectedPte_root (h : PagesInside vmem satp addr) :
    selectedPte (rootAddr satp) addr = sv32Addr₁ satp addr ↔ vpn1 addr = 0 := by
  rw [selectedPte_eq, toNat_rootAddr h, sv32Addr₁]
  omega

theorem hostWord_addr₁ (h : PagesInside vmem satp addr) :
    hostWord vmem beyond (sv32Addr₁ satp addr) = memWord vmem (sv32Addr₁ satp addr) := by
  have hroot := h.root
  have hindex := vpn1_lt addr
  refine hostWord_inside ?_
  unfold sv32Addr₁
  omega

/-- Bits 0, 31, 21, 11 and 1 of such a word are the same: where `V` is set, so is `R`. -/
theorem SameLayout.not_pointer {word : U32} (h : SameLayout word) :
    ¬ (Pte.ofSv32Word word).Pointer := by
  have hv : word.getLsbD 31 = word.getLsbD 0 := congrArg Pte.v h
  have hppn : ∀ i < 22, word.getLsbD i = word.getLsbD (10 + i) := by
    intro i hi
    have hbit := congrArg (fun e : Pte => e.ppn.getLsbD i) h
    simpa [Pte.ofWord, Pte.ofSv32Word, hi] using hbit
  rintro ⟨⟨hvalid, -⟩, hleaf⟩
  refine hleaf (.inl ?_)
  calc word.getLsbD 1 = word.getLsbD 11 := hppn 1 (by decide)
    _ = word.getLsbD 21 := hppn 11 (by decide)
    _ = word.getLsbD 31 := hppn 21 (by decide)
    _ = true := hv.trans hvalid

theorem consulted_eq (beyond : Nat → U8) (m : Machine σ) (addr : U32) (op : OpType) :
    consulted beyond m addr op =
      let entry := fun offset => Pte.ofWord (hostWord m.vmem beyond offset)
      let selected := selectedPte (rootAddr (m.reg Reg.satp)) addr
      let next := selectedPte ((entry selected).ppn.setWidth 32 * pageSize) (addr <<< 10)
      (selected, entry selected) ::
        if (entry selected).Pointer then [(next, entry next)] else [] := by
  simp only [consulted, walkLoop_selected]
  split
  · split <;> rfl
  · rfl

theorem sv32Consulted_eq (vmem : Mem) (satp addr : U32) :
    sv32Consulted vmem satp addr =
      (sv32Addr₁ satp addr, sv32Entry₁ vmem satp addr) ::
        if (sv32Entry₁ vmem satp addr).Pointer then
          [(sv32Addr₀ vmem satp addr, sv32Entry₀ vmem satp addr)]
        else [] := by
  simp only [sv32Consulted]
  split <;> rfl

theorem consulted_cons {o₁ o₀ a₁ a₀ : Nat} {p₁ p₀ e₁ e₀ : Pte} :
    ((o₁, p₁) :: if p₁.Pointer then [(o₀, p₀)] else []) =
        ((a₁, e₁) :: if e₁.Pointer then [(a₀, e₀)] else []) ↔
      (o₁ = a₁ ∧ p₁ = e₁) ∧ (e₁.Pointer → o₀ = a₀ ∧ p₀ = e₀) := by
  rw [List.cons.injEq, Prod.mk.injEq]
  refine and_congr_right ?_
  rintro ⟨-, rfl⟩
  by_cases hp : p₁.Pointer
  · simp only [hp, if_true, List.cons.injEq, Prod.mk.injEq, and_true, forall_const]
  · simp only [hp, if_false, false_imp_iff]

/-- The walk consults the entries of Sv32 exactly where it indexes with 0 and finds words that
read the same in both layouts. -/
theorem consulted_iff (beyond : Nat → U8) (m : Machine σ) (addr : U32) (op : OpType)
    (hinside : PagesInside m.vmem (m.reg Reg.satp) addr) :
    consulted beyond m addr op = sv32Consulted m.vmem (m.reg Reg.satp) addr ↔
      WalkFits m.vmem (m.reg Reg.satp) addr := by
  generalize hsatp : m.reg Reg.satp = satp at hinside
  rw [consulted_eq, sv32Consulted_eq, hsatp]
  dsimp only
  rw [consulted_cons]
  constructor
  · rintro ⟨⟨haddr, hentry⟩, -⟩
    rw [haddr, hostWord_addr₁ hinside] at hentry
    exact ⟨(selectedPte_root hinside).mp haddr, hentry⟩
  · intro h
    have haddr := (selectedPte_root hinside).mpr h.index₁
    refine ⟨⟨haddr, ?_⟩, fun hp => absurd hp h.layout₁.not_pointer⟩
    rw [haddr, hostWord_addr₁ hinside]
    exact h.layout₁

/-- A page for reading at index 0, with the word the same in both layouts; and index 1. -/
theorem consulted_iff_leaf :
    consulted (fun _ => 0) (walking (.ofWords [0xC0300C03])) 0x123 .memRead =
        sv32Consulted (.ofWords [0xC0300C03]) 0x80000000 0x123 ∧
      consulted (fun _ => 0) (walking (.ofWords [0xC0300C03, 0xCF])) 0x400123 .memRead ≠
        sv32Consulted (.ofWords [0xC0300C03, 0xCF]) 0x80000000 0x400123 := by
  have hleaf : PagesInside (.ofWords [0xC0300C03]) 0x80000000 0x123 := ⟨by decide, by decide⟩
  have hnext : PagesInside (.ofWords [0xC0300C03, 0xCF]) 0x80000000 0x400123 :=
    ⟨by decide, by decide⟩
  refine ⟨?_, fun hsame => ?_⟩
  · exact (consulted_iff _ (walking (.ofWords [0xC0300C03])) _ .memRead hleaf).mpr
      ⟨by decide, by unfold SameLayout; decide⟩
  · have hfits :=
      (consulted_iff _ (walking (.ofWords [0xC0300C03, 0xCF])) _ .memRead hnext).mp hsame
    exact absurd hfits.index₁ (by decide)

/-- Index 1, with an identity megapage there; and an identity megapage at index 0. -/
theorem consulted_fails :
    consulted (fun _ => 0) (walking (.ofWords [0, 0xCF])) 0x400000 .memRead ≠
        sv32Consulted (.ofWords [0, 0xCF]) 0x80000000 0x400000 ∧
      consulted (fun _ => 0) (walking (.ofWords [0xCF])) 0 .memRead ≠
        sv32Consulted (.ofWords [0xCF]) 0x80000000 0 := by
  decide +kernel

end

end SwitchV32.Supervisor
