import SwitchV32.Rv32.Base

/-!
# Guest memory

The functions of `memory.h` on the block that `mem_init` maps. The host is
little-endian and lets an access be misaligned; an access that leaves the block
is a host fault. Sizes and widths are in bits, as in the names of the C types.
-/

namespace SwitchV32

abbrev U8 := BitVec 8
abbrev U16 := BitVec 16
abbrev U32 := BitVec 32

/-- How the process ends inside a modelled function. -/
inductive Stop
  /-- `exit(status)` -/
  | exit (status : Nat)
  /-- a failed `assert` -/
  | abort
  /-- an access outside the memory it is meant for -/
  | fault
  /-- a use of a pointer that was never assigned -/
  | unassigned
  deriving DecidableEq, Repr

@[simp] theorem ok_bind (a : α) (f : α → Except ε β) : (Except.ok a >>= f) = f a := rfl

@[simp] theorem error_bind (e : ε) (f : α → Except ε β) :
    (Except.error e >>= f) = Except.error e := rfl

theorem bind_eq_ok {x : Except ε α} {f : α → Except ε β} :
    x >>= f = .ok b ↔ ∃ a, x = .ok a ∧ f a = .ok b := by
  cases x <;> simp

theorem toOption_eq_some {x : Except ε α} : x.toOption = some a ↔ x = .ok a := by
  cases x <;> simp [Except.toOption]

/-- The block at `vmem`, of `ctx.memory_size` bytes. -/
structure Mem where
  size : Nat
  /-- `ctx_init` accepts at most 4096 MB. -/
  size_le : size ≤ 2 ^ 32
  byte : Nat → U8

/-- `VALID_ADDR` as the accesses need it: the whole access is in the block. -/
abbrev Mem.Inside (m : Mem) (addr : U32) (n : Nat) : Prop := addr.toNat + n ≤ m.size

/-- The `n` bytes from `a` on as a number, the first one least significant. -/
def bytesLE (byte : Nat → U8) (a : Nat) : Nat → Nat
  | 0 => 0
  | n + 1 => (byte a).toNat + 256 * bytesLE byte (a + 1) n

def Mem.load (w : Nat) (m : Mem) (addr : U32) : Except Stop (BitVec w) :=
  if m.Inside addr (w / 8) then .ok (BitVec.ofNat w (bytesLE m.byte addr.toNat (w / 8)))
  else .error .fault

def Mem.put {w : Nat} (m : Mem) (a : Nat) (data : BitVec w) : Mem :=
  { m with byte := fun i =>
      if a ≤ i ∧ i < a + w / 8 then (data >>> (8 * (i - a))).setWidth 8 else m.byte i }

def Mem.store {w : Nat} (m : Mem) (addr : U32) (data : BitVec w) : Except Stop Mem :=
  if m.Inside addr (w / 8) then .ok (m.put addr.toNat data) else .error .fault

def Mem.ofWords (words : List U32) : Mem where
  size := 4096
  size_le := by decide
  byte i := (words.getD (i / 4) 0 >>> (8 * (i % 4))).setWidth 8

def memRb (m : Mem) (addr : U32) : Except Stop U8 := m.load 8 addr
def memRh (m : Mem) (addr : U32) : Except Stop U16 := m.load 16 addr
def memRw (m : Mem) (addr : U32) : Except Stop U32 := m.load 32 addr

def memWb (m : Mem) (addr : U32) (data : U8) : Except Stop Mem := m.store addr data
def memWh (m : Mem) (addr : U32) (data : U16) : Except Stop Mem := m.store addr data
def memWw (m : Mem) (addr : U32) (data : U32) : Except Stop Mem := m.store addr data

-- ---------------------------------------------------------------------------
-- Atomic helpers, run by one hart alone
-- ---------------------------------------------------------------------------

/-- `__atomic_fetch_OP` and `__atomic_exchange_n`: the old word and the new block. -/
def Mem.fetchOp (op : U32 → U32 → U32) (m : Mem) (addr val : U32) : Except Stop (U32 × Mem) := do
  let old ← m.load 32 addr
  let m ← m.store addr (op old val)
  return (old, m)

def memAadd (m : Mem) (addr val : U32) := m.fetchOp (· + ·) addr val
def memAand (m : Mem) (addr val : U32) := m.fetchOp (· &&& ·) addr val
def memAxor (m : Mem) (addr val : U32) := m.fetchOp (· ^^^ ·) addr val
def memAor (m : Mem) (addr val : U32) := m.fetchOp (· ||| ·) addr val
def memAswp (m : Mem) (addr val : U32) := m.fetchOp (fun _ val => val) addr val

def memAread (m : Mem) (addr : U32) : Except Stop U32 := m.load 32 addr

/-- `__atomic_compare_exchange_n`: whether it stored, the value `expected` is
left with, and the block. -/
def Mem.compareExchange (m : Mem) (addr expected val : U32) : Except Stop (Bool × U32 × Mem) := do
  let cur ← m.load 32 addr
  if cur = expected then
    let m ← m.store addr val
    return (true, expected, m)
  else return (false, cur, m)

theorem Mem.compareExchange_false {m m' : Mem}
    (h : m.compareExchange addr expected val = .ok (false, cur, m')) :
    m.load 32 addr = .ok cur ∧ cur ≠ expected ∧ m' = m := by
  simp only [Mem.compareExchange, bind_eq_ok] at h
  obtain ⟨old, hl, h⟩ := h
  split at h
  · obtain ⟨m'', -, h⟩ := bind_eq_ok.mp h
    simp [pure, Except.pure] at h
  · rename_i hne
    simp only [pure, Except.pure, Except.ok.injEq, Prod.mk.injEq, true_and] at h
    obtain ⟨rfl, rfl⟩ := h
    exact ⟨hl, hne, rfl⟩

/-- The loop exchanges again with whatever value the last failure found. Alone,
it ends on its second try at the latest. -/
def memCas (m : Mem) (addr val expected : U32) : Except Stop Mem :=
  match _h : m.compareExchange addr expected val with
  | .error e => .error e
  | .ok (true, _, m) => .ok m
  | .ok (false, cur, m) => memCas m addr val cur
termination_by if m.load 32 addr = .ok expected then 0 else 1
decreasing_by
  obtain ⟨hload, hne, rfl⟩ := Mem.compareExchange_false _h
  simp [hload, hne]

/-- The four helpers that compare first: `keep` is the test for an early return. -/
def Mem.minMax (keep : U32 → U32 → Bool) (m : Mem) (addr val : U32) : Except Stop (U32 × Mem) := do
  let old ← memAread m addr
  if keep old val then return (old, m)
  let m ← memCas m addr val old
  return (old, m)

def keepMaxu (old val : U32) : Bool := val.ult old
def keepMinu (old val : U32) : Bool := old.ult val
def keepMax (old val : U32) : Bool := val.slt old
def keepMin (old val : U32) : Bool := old.slt val

def memAmaxu (m : Mem) (addr val : U32) := m.minMax keepMaxu addr val
def memAminu (m : Mem) (addr val : U32) := m.minMax keepMinu addr val
def memAmax (m : Mem) (addr val : U32) := m.minMax keepMax addr val
def memAmin (m : Mem) (addr val : U32) := m.minMax keepMin addr val

end SwitchV32
