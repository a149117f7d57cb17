import SwitchV32.Block
import SwitchV32.Memory
import Mathlib.Data.List.Induction

/-!
# Packet buffers of the stub

`stubb_a_dub/src/buffer.c`: a buffer that doubles its block until the data fits,
and that `sad_buff_reset` shrinks back once it has grown. An allocation succeeds
or fails as `alloc` says of its size; a null pointer is a block without bytes.
Sizes are natural numbers: what an allocation grants is far below `2^63`, so
that no sum or double of a size wraps around.
-/

namespace SwitchV32

abbrev maxBuffDataSize : Nat := 4096

inductive BuffRet
  | ok | oom | fdErr | wouldBlock | closed
  deriving DecidableEq, Repr

inductive BuffFault
  /-- a write that leaves the block -/
  | outside
  /-- still in its loop when the fuel runs out -/
  | looping
  deriving DecidableEq, Repr

structure PktBuffer where
  initialSize : Nat
  startPktData : Nat
  endPktData : Nat
  filled : Nat
  dataSize : Nat
  data : Block U8
  deriving DecidableEq

/-- What `read` gives, once it is no longer interrupted. -/
inductive ReadResult
  | bytes (rd : List U8)
  | eof
  | wouldBlock
  | error

-- ---------------------------------------------------------------------------
-- The functions of `buffer.c`
-- ---------------------------------------------------------------------------

section
variable (alloc : Nat → Bool)

def malloc (size : Nat) : Option (Block U8) := if alloc size then some (.fresh size) else none

def realloc (data : Block U8) (size : Nat) : Option (Block U8) :=
  if alloc size then some (data.resize size) else none

def sadBuffReset (b : PktBuffer) : PktBuffer :=
  let b := if maxBuffDataSize ≤ b.dataSize then
      { b with data := (malloc alloc b.initialSize).getD [] }
    else b
  { b with filled := 0, endPktData := 0, startPktData := 0 }

def pktBufferSize : Nat := 48

def sadBuffCreate (initialSize : Nat) : Option PktBuffer :=
  if initialSize = 0 ∨ alloc pktBufferSize = false then none
  else do
    let data ← malloc alloc initialSize
    -- the record is not initialised; the reset sets the other fields
    return sadBuffReset alloc
      { initialSize, dataSize := initialSize, data, filled := 0, startPktData := 0
        endPktData := 0 }

def sadBuffExpand (b : PktBuffer) : BuffRet × PktBuffer :=
  match realloc alloc b.data (b.dataSize * 2) with
  | none => (.oom, b)
  | some data => (.ok, { b with dataSize := b.dataSize * 2, data })

/-- The loop in front of a write of up to `size` bytes. -/
def expandFor (size : Nat) : Nat → PktBuffer → Except BuffFault (BuffRet × PktBuffer)
  | 0, b => if b.filled + size > b.dataSize then .error .looping else .ok (.ok, b)
  | fuel + 1, b =>
    if b.filled + size > b.dataSize then
      match sadBuffExpand alloc b with
      | (.oom, b) => .ok (.oom, b)
      | (_, b) => expandFor size fuel b
    else .ok (.ok, b)

def PktBuffer.push (b : PktBuffer) (src : List U8) : Except BuffFault PktBuffer :=
  match b.data.write b.filled src with
  | none => .error .outside
  | some data => .ok { b with data, filled := b.filled + src.length }

def sadBuffAppend (fuel : Nat) (b : PktBuffer) (data : List U8) :
    Except BuffFault (BuffRet × PktBuffer) := do
  let (ret, b) ← expandFor alloc data.length fuel b
  if ret = .oom then return (.oom, b)
  let b ← b.push data
  return (.ok, b)

def cString (str : List U8) : List U8 := str.takeWhile (· ≠ 0)

def sadBuffAppendStr (fuel : Nat) (b : PktBuffer) (str : List U8) :
    Except BuffFault (BuffRet × PktBuffer) :=
  sadBuffAppend alloc fuel b (cString str)

def sadBuffFromSocket (fuel : Nat) (b : PktBuffer) (rd : ReadResult) :
    Except BuffFault (BuffRet × PktBuffer) := do
  let (ret, b) ← expandFor alloc b.initialSize fuel b
  if ret = .oom then return (.oom, b)
  match rd with
  | .error => return (.fdErr, b)
  | .wouldBlock => return (.wouldBlock, b)
  | .eof => return (.closed, b)
  | .bytes rd =>
    let b ← b.push rd
    return (.ok, b)

end

-- ---------------------------------------------------------------------------
-- Sequences of operations
-- ---------------------------------------------------------------------------

/-- An operation on a buffer that was created with `initialSize`. -/
inductive BuffOp (initialSize : Nat)
  | append (data : List U8)
  | appendStr (str : List U8)
  | expand
  /-- a read that succeeds -/
  | fromSocket (rd : List U8) (hrd : 0 < rd.length ∧ rd.length ≤ initialSize)
  | reset
  deriving DecidableEq

namespace BuffOp

variable {initialSize : Nat}

def exec (alloc : Nat → Bool) (fuel : Nat) (b : PktBuffer) :
    BuffOp initialSize → Except BuffFault (BuffRet × PktBuffer)
  | .append data => sadBuffAppend alloc fuel b data
  | .appendStr str => sadBuffAppendStr alloc fuel b str
  | .expand => .ok (sadBuffExpand alloc b)
  | .fromSocket rd _ => sadBuffFromSocket alloc fuel b (.bytes rd)
  | .reset => .ok (.ok, sadBuffReset alloc b)

/-- What the buffer has to hold after the operation, if it held `l` before. -/
def contents (l : List U8) : BuffOp initialSize → List U8
  | .append data => l ++ data
  | .appendStr str => l ++ cString str
  | .expand => l
  | .fromSocket rd _ => l ++ rd
  | .reset => []

/-- Each loop of the operations goes round at most `fuel` times. -/
def run (alloc : Nat → Bool) (fuel : Nat) (b : PktBuffer) (ops : List (BuffOp initialSize)) :
    Except BuffFault PktBuffer :=
  ops.foldlM (fun b op => (op.exec alloc fuel b).map Prod.snd) b

/-- What was appended or read since the last reset. -/
def written (ops : List (BuffOp initialSize)) : List U8 := ops.foldl contents []

end BuffOp

/-- The buffer holds the bytes `l`, in a block of the size that it records. -/
structure PktBuffer.Keeps (b : PktBuffer) (l : List U8) : Prop where
  block : b.data.length = b.dataSize
  filled_le : b.filled ≤ b.dataSize
  bytes : b.data.take b.filled = l.map some

/-- The sequence on a new buffer: each operation ends, writes to its block only, and leaves
what was written since the last reset. -/
def BuffOp.Sound (alloc : Nat → Bool) {initialSize : Nat} (ops : List (BuffOp initialSize)) :
    Prop :=
  ∃ b₀, sadBuffCreate alloc initialSize = some b₀ ∧ ∀ pre, pre <+: ops →
    ∃ fuel b, run alloc fuel b₀ pre = .ok b ∧ b.Keeps (written pre)

/-- A reset leaves the block alone, or the block that it allocates is of the recorded size. -/
def PktBuffer.ResetFits (b : PktBuffer) : Prop :=
  b.dataSize < maxBuffDataSize ∨ b.dataSize = b.initialSize

/-- So it is before each reset of the sequence. -/
def BuffOp.ResetsFit (alloc : Nat → Bool) {initialSize : Nat} (ops : List (BuffOp initialSize)) :
    Prop :=
  ∀ b₀, sadBuffCreate alloc initialSize = some b₀ → ∀ pre, pre ++ [.reset] <+: ops →
    ∀ fuel b, run alloc fuel b₀ pre = .ok b → b.ResetFits

-- ---------------------------------------------------------------------------
-- More fuel
-- ---------------------------------------------------------------------------

section
variable {alloc : Nat → Bool} {fuel fuel' size initialSize : Nat} {b b' : PktBuffer}

theorem expandFor_mono {x} (h : expandFor alloc size fuel b = .ok x) (hf : fuel ≤ fuel') :
    expandFor alloc size fuel' b = .ok x := by
  induction fuel generalizing fuel' b with
  | zero =>
    simp only [expandFor] at h
    split at h
    · cases h
    · rename_i hfit
      cases fuel' <;> simpa only [expandFor, hfit, if_false] using h
  | succ fuel ih =>
    obtain ⟨fuel', rfl⟩ : ∃ n, fuel' = n + 1 := ⟨fuel' - 1, by omega⟩
    simp only [expandFor] at h ⊢
    split
    · rename_i hgrow
      simp only [hgrow, if_true] at h
      split at h
      · exact h
      · exact ih h (by omega)
    · rename_i hfit
      simpa only [hfit, if_false] using h

namespace BuffOp

theorem exec_mono {op : BuffOp initialSize} {x} (h : op.exec alloc fuel b = .ok x)
    (hf : fuel ≤ fuel') : op.exec alloc fuel' b = .ok x := by
  cases op with
  | append | appendStr | fromSocket =>
    obtain ⟨y, hy, h⟩ := bind_eq_ok.mp h
    exact bind_eq_ok.mpr ⟨y, expandFor_mono hy hf, h⟩
  | expand | reset => exact h

theorem run_snoc (pre : List (BuffOp initialSize)) (op) :
    run alloc fuel b (pre ++ [op]) = .ok b' ↔
      ∃ b₁ ret, run alloc fuel b pre = .ok b₁ ∧ op.exec alloc fuel b₁ = .ok (ret, b') := by
  have hmap : ∀ x : Except BuffFault (BuffRet × PktBuffer),
      x.map Prod.snd = .ok b' ↔ ∃ ret, x = .ok (ret, b') := by
    intro x
    cases x <;> simp [Except.map, Prod.ext_iff]
  simp only [run, List.foldlM_append, List.foldlM_cons, List.foldlM_nil, bind_pure, bind_eq_ok,
    hmap]
  constructor
  · rintro ⟨b₁, hpre, ret, hop⟩
    exact ⟨b₁, ret, hpre, hop⟩
  · rintro ⟨b₁, ret, hpre, hop⟩
    exact ⟨b₁, hpre, ret, hop⟩

theorem run_mono {ops : List (BuffOp initialSize)} (h : run alloc fuel b ops = .ok b')
    (hf : fuel ≤ fuel') : run alloc fuel' b ops = .ok b' := by
  induction ops using List.reverseRecOn generalizing b' with
  | nil => exact h
  | append_singleton pre op ih =>
    obtain ⟨b₁, ret, hpre, hop⟩ := (run_snoc pre op).mp h
    exact (run_snoc pre op).mpr ⟨b₁, ret, ih hpre, exec_mono hop hf⟩

/-- The fuel decides whether a run gets to its end, not where it ends. -/
theorem run_unique {ops : List (BuffOp initialSize)} (h : run alloc fuel b ops = .ok b₁)
    (h' : run alloc fuel' b ops = .ok b₂) : b₁ = b₂ := by
  have h₁ := run_mono h (Nat.le_max_left fuel fuel')
  have h₂ := run_mono h' (Nat.le_max_right fuel fuel')
  exact Except.ok.inj (h₁.symm.trans h₂)

end BuffOp

end

-- ---------------------------------------------------------------------------
-- What an operation preserves
-- ---------------------------------------------------------------------------

namespace PktBuffer

variable {alloc : Nat → Bool} {b : PktBuffer} {l src : List U8} {fuel size initialSize : Nat}

theorem Keeps.filled_eq (h : b.Keeps l) : b.filled = l.length := by
  have hlen := congrArg List.length h.bytes
  have := h.filled_le
  simp only [List.length_take, List.length_map, h.block] at hlen
  omega

theorem Keeps.holds (h : b.Keeps l) : b.data.Holds l := by
  rw [Block.Holds, ← h.filled_eq, h.bytes]

structure Inv (initialSize : Nat) (b : PktBuffer) (l : List U8) : Prop extends b.Keeps l where
  pos : 0 < initialSize
  dataSize_pos : 0 < b.dataSize
  initialSize_eq : b.initialSize = initialSize

/-- From one size to another by doubling what is less than `need`. -/
inductive Grown (need : Nat) : Nat → Nat → Prop
  | same (n) : Grown need n n
  | double {n m} (hn : n < need) (h : Grown need (2 * n) m) : Grown need n m

theorem Grown.le {need n m : Nat} (h : Grown need n m) : n ≤ m := by
  induction h with
  | same n => exact Nat.le_refl n
  | double _ _ ih => omega

theorem sadBuffExpand_ok (halloc : ∀ n, alloc n = true) (h : b.Inv initialSize l) :
    ∃ b', sadBuffExpand alloc b = (.ok, b') ∧ b'.Inv initialSize l ∧
      b'.dataSize = 2 * b.dataSize := by
  have hle : l.length ≤ b.dataSize := h.filled_eq ▸ h.filled_le
  refine ⟨{ b with dataSize := b.dataSize * 2, data := b.data.resize (b.dataSize * 2) },
    by simp only [sadBuffExpand, realloc, halloc, if_true], ?_, Nat.mul_comm _ _⟩
  exact {
    block := Block.length_resize
    filled_le := by have := h.filled_le; dsimp only; omega
    bytes := by
      have hholds := h.holds.resize (n := b.dataSize * 2) (by omega)
      simpa only [h.filled_eq, Block.Holds] using hholds
    pos := h.pos
    dataSize_pos := by have := h.dataSize_pos; dsimp only; omega
    initialSize_eq := h.initialSize_eq }

/-- Each round doubles the block, so the loop ends. -/
theorem expandFor_ok (size fuel : Nat) (halloc : ∀ n, alloc n = true) (h : b.Inv initialSize l)
    (hfuel : b.filled + size ≤ b.dataSize + fuel) :
    ∃ b', expandFor alloc size fuel b = .ok (.ok, b') ∧ b'.Inv initialSize l ∧
      b'.filled + size ≤ b'.dataSize ∧ Grown (b.filled + size) b.dataSize b'.dataSize := by
  induction fuel generalizing b with
  | zero =>
    have hfit : ¬ b.filled + size > b.dataSize := by omega
    exact ⟨b, by simp only [expandFor, hfit, if_false], h, by omega, .same _⟩
  | succ fuel ih =>
    by_cases hgrow : b.filled + size > b.dataSize
    · obtain ⟨b₁, hexpand, h₁, hsize⟩ := sadBuffExpand_ok halloc h
      have hfilled : b₁.filled = b.filled := h₁.filled_eq.trans h.filled_eq.symm
      have := h.dataSize_pos
      obtain ⟨b', hrun, hb', hfit, hgrown⟩ := ih h₁ (by omega)
      refine ⟨b', ?_, hb', hfit, .double hgrow ?_⟩
      · simp only [expandFor, hgrow, if_true, hexpand]
        exact hrun
      · rwa [hfilled, hsize] at hgrown
    · exact ⟨b, by simp only [expandFor, hgrow, if_false], h, by omega, .same _⟩

theorem push_ok (src : List U8) (h : b.Inv initialSize l)
    (hfit : b.filled + src.length ≤ b.dataSize) :
    ∃ b', b.push src = .ok b' ∧ b'.Inv initialSize (l ++ src) ∧ b'.dataSize = b.dataSize := by
  obtain ⟨data, hwrite⟩ : ∃ data, b.data.write b.filled src = some data :=
    ⟨_, Block.write_eq_some (h.block ▸ hfit)⟩
  refine ⟨{ b with data, filled := b.filled + src.length }, by simp only [push, hwrite], ?_, rfl⟩
  exact {
    block := (Block.length_write hwrite).trans h.block
    filled_le := hfit
    bytes := by
      have hholds := h.holds.write (h.filled_eq ▸ hwrite)
      simpa only [Block.Holds, List.length_append, ← h.filled_eq] using hholds
    pos := h.pos
    dataSize_pos := h.dataSize_pos
    initialSize_eq := h.initialSize_eq }

theorem sadBuffAppend_ok (halloc : ∀ n, alloc n = true) (h : b.Inv initialSize l)
    (data : List U8) :
    ∃ fuel b', sadBuffAppend alloc fuel b data = .ok (.ok, b') ∧
      b'.Inv initialSize (l ++ data) ∧
      Grown (b.filled + data.length) b.dataSize b'.dataSize := by
  obtain ⟨b₁, hloop, h₁, hfit, hgrown⟩ :=
    expandFor_ok data.length (b.filled + data.length) halloc h (by omega)
  obtain ⟨b', hpush, h', hsize⟩ := push_ok data h₁ hfit
  refine ⟨b.filled + data.length, b', ?_, h', hsize ▸ hgrown⟩
  simp [sadBuffAppend, hloop, hpush]

theorem sadBuffFromSocket_ok (halloc : ∀ n, alloc n = true) (h : b.Inv initialSize l)
    {rd : List U8} (hrd : rd.length ≤ initialSize) :
    ∃ fuel b', sadBuffFromSocket alloc fuel b (.bytes rd) = .ok (.ok, b') ∧
      b'.Inv initialSize (l ++ rd) ∧ b.filled + initialSize ≤ b'.dataSize ∧
      Grown (b.filled + initialSize) b.dataSize b'.dataSize := by
  obtain ⟨b₁, hloop, h₁, hfit, hgrown⟩ :=
    expandFor_ok b.initialSize (b.filled + b.initialSize) halloc h (by omega)
  have hsize := h.initialSize_eq
  have hfilled : b₁.filled = b.filled := h₁.filled_eq.trans h.filled_eq.symm
  obtain ⟨b', hpush, h', hdata⟩ := push_ok rd h₁ (by omega)
  refine ⟨b.filled + b.initialSize, b', ?_, h', by omega, ?_⟩
  · simp [sadBuffFromSocket, hloop, hpush]
  · rwa [hsize, ← hdata] at hgrown

theorem sadBuffReset_ok (halloc : ∀ n, alloc n = true) (h : b.Inv initialSize l)
    (hfits : b.ResetFits) : (sadBuffReset alloc b).Inv initialSize [] := by
  have hblock : (sadBuffReset alloc b).data.length = (sadBuffReset alloc b).dataSize := by
    simp only [sadBuffReset, malloc, halloc, if_true, Option.getD_some]
    split
    · obtain hlt | heq := hfits
      · omega
      · simp [heq]
    · exact h.block
  have hsame : (sadBuffReset alloc b).dataSize = b.dataSize ∧
      (sadBuffReset alloc b).initialSize = b.initialSize := by
    simp only [sadBuffReset]
    split <;> exact ⟨rfl, rfl⟩
  exact {
    block := hblock
    filled_le := Nat.zero_le _
    bytes := rfl
    pos := h.pos
    dataSize_pos := hsame.1 ▸ h.dataSize_pos
    initialSize_eq := hsame.2.trans h.initialSize_eq }

end PktBuffer

-- ---------------------------------------------------------------------------
-- Whole sequences
-- ---------------------------------------------------------------------------

namespace BuffOp

variable {alloc : Nat → Bool} {b b₀ : PktBuffer} {l : List U8} {fuel initialSize : Nat}
  {ops pre : List (BuffOp initialSize)}

theorem exec_ok (halloc : ∀ n, alloc n = true) (h : b.Inv initialSize l)
    (op : BuffOp initialSize) (hreset : op = .reset → b.ResetFits) :
    ∃ fuel b', op.exec alloc fuel b = .ok (.ok, b') ∧ b'.Inv initialSize (op.contents l) := by
  cases op with
  | append data =>
    obtain ⟨fuel, b', hrun, h', -⟩ := PktBuffer.sadBuffAppend_ok halloc h data
    exact ⟨fuel, b', hrun, h'⟩
  | appendStr str =>
    obtain ⟨fuel, b', hrun, h', -⟩ := PktBuffer.sadBuffAppend_ok halloc h (cString str)
    exact ⟨fuel, b', hrun, h'⟩
  | expand =>
    obtain ⟨b', hexpand, h', -⟩ := PktBuffer.sadBuffExpand_ok halloc h
    exact ⟨0, b', congrArg Except.ok hexpand, h'⟩
  | fromSocket rd hrd =>
    obtain ⟨fuel, b', hrun, h', -⟩ := PktBuffer.sadBuffFromSocket_ok halloc h hrd.2
    exact ⟨fuel, b', hrun, h'⟩
  | reset => exact ⟨0, _, rfl, PktBuffer.sadBuffReset_ok halloc h (hreset rfl)⟩

theorem create_inv (halloc : ∀ n, alloc n = true) (hsize : 0 < initialSize) :
    ∃ b₀, sadBuffCreate alloc initialSize = some b₀ ∧ b₀.Inv initialSize [] := by
  have hnew : PktBuffer.Inv initialSize
      { initialSize, dataSize := initialSize, data := .fresh initialSize, filled := 0,
        startPktData := 0, endPktData := 0 } [] :=
    { block := Block.length_fresh, filled_le := Nat.zero_le _, bytes := rfl, pos := hsize,
      dataSize_pos := hsize, initialSize_eq := rfl }
  refine ⟨_, ?_, PktBuffer.sadBuffReset_ok halloc hnew (.inr rfl)⟩
  have hzero : ¬ initialSize = 0 := by omega
  simp [sadBuffCreate, malloc, halloc, hzero]

theorem written_snoc (op) : written (pre ++ [op]) = op.contents (written pre) := by
  simp [written]

/-- Where every reset fits, the run gets to its end with the invariant kept. -/
theorem run_inv (halloc : ∀ n, alloc n = true) (h₀ : b₀.Inv initialSize [])
    (hfits : ∀ pre, pre ++ [.reset] <+: ops → ∀ fuel b, run alloc fuel b₀ pre = .ok b →
      b.ResetFits) :
    ∃ fuel b, run alloc fuel b₀ ops = .ok b ∧ b.Inv initialSize (written ops) := by
  induction ops using List.reverseRecOn with
  | nil => exact ⟨0, b₀, rfl, h₀⟩
  | append_singleton pre op ih =>
    obtain ⟨fuel₁, b₁, hpre, h₁⟩ := ih fun p hp => hfits p (hp.trans (List.prefix_append _ _))
    have hreset : op = .reset → b₁.ResetFits := by
      rintro rfl
      exact hfits pre (List.prefix_refl _) fuel₁ b₁ hpre
    obtain ⟨fuel₂, b₂, hop, h₂⟩ := exec_ok halloc h₁ op hreset
    refine ⟨max fuel₁ fuel₂, b₂, (run_snoc pre op).mpr ⟨b₁, .ok, ?_, ?_⟩, ?_⟩
    · exact run_mono hpre (Nat.le_max_left _ _)
    · exact exec_mono hop (Nat.le_max_right _ _)
    · rw [written_snoc]
      exact h₂

theorem sound_of_resetsFit (halloc : ∀ n, alloc n = true) (hsize : 0 < initialSize)
    (hfits : ResetsFit alloc ops) : Sound alloc ops := by
  obtain ⟨b₀, hcreate, h₀⟩ := create_inv halloc hsize
  refine ⟨b₀, hcreate, fun pre hpre => ?_⟩
  obtain ⟨fuel, b, hrun, hb⟩ := run_inv halloc h₀ fun p hp => hfits b₀ hcreate p (hp.trans hpre)
  exact ⟨fuel, b, hrun, hb.toKeeps⟩

theorem length_reset (halloc : ∀ n, alloc n = true) (hbig : maxBuffDataSize ≤ b.dataSize) :
    (sadBuffReset alloc b).data.length = b.initialSize := by
  simp [sadBuffReset, malloc, halloc, hbig]

theorem dataSize_reset : (sadBuffReset alloc b).dataSize = b.dataSize := by
  simp only [sadBuffReset]
  split <;> rfl

theorem resetsFit_of_sound (halloc : ∀ n, alloc n = true) (h : Sound alloc ops) :
    ResetsFit alloc ops := by
  obtain ⟨b₁, hcreate₁, hsound⟩ := h
  intro b₀ hcreate pre hpre fuel b hrun
  obtain rfl : b₀ = b₁ := Option.some.inj (hcreate.symm.trans hcreate₁)
  obtain ⟨fuel', b', hrun', hkeeps⟩ := hsound _ hpre
  obtain ⟨b₂, ret, hrun₂, hop⟩ := (run_snoc pre .reset).mp hrun'
  obtain rfl : b = b₂ := run_unique hrun hrun₂
  obtain ⟨-, rfl⟩ : ret = .ok ∧ b' = sadBuffReset alloc b := by
    simp only [exec, Except.ok.injEq, Prod.mk.injEq] at hop
    exact ⟨hop.1.symm, hop.2.symm⟩
  by_cases hbig : maxBuffDataSize ≤ b.dataSize
  · right
    rw [← length_reset halloc hbig, hkeeps.block, dataSize_reset]
  · exact .inl (by omega)

/-- A buffer is sound as long as no reset finds it grown to `MAX_BUFF_DATA_SIZE`. -/
theorem sound_iff (halloc : ∀ n, alloc n = true) (hsize : 0 < initialSize)
    (ops : List (BuffOp initialSize)) : Sound alloc ops ↔ ResetsFit alloc ops :=
  ⟨resetsFit_of_sound halloc, sound_of_resetsFit halloc hsize⟩

/-- Six bytes in a buffer of four, which grows, and another one after the reset. -/
def grownReply : List (BuffOp 4) := [.append [1, 2, 3, 4, 5, 6], .reset, .append [7]]

theorem grownReply_grows : (sadBuffCreate (fun _ => true) 4).map (fun b₀ =>
    (run (fun _ => true) 8 b₀ (grownReply.take 1)).map PktBuffer.dataSize) = some (.ok 8) := by
  decide +kernel

theorem grownReply_resetsFit : ResetsFit (fun _ => true) grownReply := by
  intro b₀ hcreate pre hpre fuel b hrun
  obtain rfl : pre = grownReply.take 1 := by
    obtain ⟨rest, hrest⟩ := hpre
    match pre, hrest with
    | [], hrest => cases hrest
    | [_], hrest => rw [(List.cons.inj hrest).1]; rfl
    | [_, _], hrest => simp [grownReply] at hrest
    | _ :: _ :: _ :: pre, hrest => simp [grownReply] at hrest
  have hgrows := grownReply_grows
  rw [hcreate, Option.map_some, Option.some.injEq] at hgrows
  cases hrun₁ : run (fun _ => true) 8 b₀ (grownReply.take 1) with
  | error fault =>
    rw [hrun₁] at hgrows
    cases hgrows
  | ok b₁ =>
    obtain rfl := run_unique hrun hrun₁
    rw [hrun₁] at hgrows
    have hsize : b.dataSize = 8 := Except.ok.inj hgrows
    exact .inl (by rw [hsize]; decide)

theorem sound_iff_grown : Sound (fun _ => true) grownReply :=
  (sound_iff (fun _ => rfl) (by decide) _).mpr grownReply_resetsFit

def readZeros (n : Nat) (h : 0 < n ∧ n ≤ 1024) : BuffOp 1024 :=
  .fromSocket (List.replicate n 0) (by simpa only [List.length_replicate] using h)

def longPacket : List (BuffOp 1024) :=
  [readZeros 1024 (by decide), readZeros 1 (by decide), readZeros 1 (by decide), .reset]

/-- After it the buffer records 4096 bytes for a block of 1024, and the next packet is written
past the end of the block. -/
theorem longPacket_fails :
    ¬ Sound (fun _ => true) longPacket ∧
      ∃ b₀, sadBuffCreate (fun _ => true) 1024 = some b₀ ∧
        run (fun _ => true) 1 b₀
          (longPacket ++ [readZeros 1024 (by decide), readZeros 1 (by decide)]) =
            .error .outside := by
  refine ⟨fun ⟨b₀, hcreate, hsound⟩ => ?_, _, rfl, by decide +kernel⟩
  obtain ⟨fuel, b, hrun, hkeeps⟩ := hsound longPacket (List.prefix_refl _)
  have hsizes : (sadBuffCreate (fun _ => true) 1024).map (fun b₀ =>
      (run (fun _ => true) 1 b₀ longPacket).map fun b => (b.data.length, b.dataSize)) =
        some (.ok (1024, 4096)) := by decide +kernel
  rw [hcreate, Option.map_some, Option.some.injEq] at hsizes
  cases hrun₁ : run (fun _ => true) 1 b₀ longPacket with
  | error fault =>
    rw [hrun₁] at hsizes
    cases hsizes
  | ok b₁ =>
    obtain rfl := run_unique hrun hrun₁
    rw [hrun₁] at hsizes
    obtain ⟨hlength, hsize⟩ := Prod.mk.inj (Except.ok.inj hsizes)
    have hblock := hkeeps.block
    omega

end BuffOp

end SwitchV32
