import Mathlib.Tactic.IntervalCases
import Mathlib.Logic.Function.Basic

/-!
# The RV32IM base instructions

The encodings and the meaning of the unprivileged integer instructions, as the
RISC-V manual gives them: `encode` lays the fields out in the six formats and
`Instr.exec` says what one instruction does to the registers, the program
counter and a byte-addressed memory. Nothing here knows how an interpreter
decodes a word.

Execution has no alignment exceptions: a misaligned access reads and writes the
bytes at its address, and a control transfer may go to any address.
-/

namespace Rv32

abbrev Word := BitVec 32
abbrev Byte := BitVec 8
abbrev Reg := BitVec 5

-- ---------------------------------------------------------------------------
-- Formats
-- ---------------------------------------------------------------------------

/-- The bits of `x` placed from bit `k` of a word upwards. -/
def field (x : BitVec n) (k : Nat) : Word := x.setWidth 32 <<< k

def rFormat (funct7 : BitVec 7) (rs2 rs1 : Reg) (funct3 : BitVec 3) (rd : Reg)
    (opcode : BitVec 7) : Word :=
  field funct7 25 ||| field rs2 20 ||| field rs1 15 ||| field funct3 12 ||| field rd 7 |||
    field opcode 0

def iFormat (imm : BitVec 12) (rs1 : Reg) (funct3 : BitVec 3) (rd : Reg) (opcode : BitVec 7) :
    Word :=
  field imm 20 ||| field rs1 15 ||| field funct3 12 ||| field rd 7 ||| field opcode 0

/-- The immediate is `imm[11:5]` in the high field and `imm[4:0]` in the place of `rd`. -/
def sFormat (imm : BitVec 12) (rs2 rs1 : Reg) (funct3 : BitVec 3) (opcode : BitVec 7) : Word :=
  field (imm.extractLsb' 5 7) 25 ||| field rs2 20 ||| field rs1 15 ||| field funct3 12 |||
    field (imm.extractLsb' 0 5) 7 ||| field opcode 0

/-- `imm` holds bits 12 to 1 of the offset: `imm[12|10:5]` go to the high field
and `imm[4:1|11]` to the place of `rd`. -/
def bFormat (imm : BitVec 12) (rs2 rs1 : Reg) (funct3 : BitVec 3) (opcode : BitVec 7) : Word :=
  field (imm.extractLsb' 11 1) 31 ||| field (imm.extractLsb' 4 6) 25 ||| field rs2 20 |||
    field rs1 15 ||| field funct3 12 ||| field (imm.extractLsb' 0 4) 8 |||
    field (imm.extractLsb' 10 1) 7 ||| field opcode 0

def uFormat (imm : BitVec 20) (rd : Reg) (opcode : BitVec 7) : Word :=
  field imm 12 ||| field rd 7 ||| field opcode 0

/-- `imm` holds bits 20 to 1 of the offset, stored as `imm[20|10:1|11|19:12]`. -/
def jFormat (imm : BitVec 20) (rd : Reg) (opcode : BitVec 7) : Word :=
  field (imm.extractLsb' 19 1) 31 ||| field (imm.extractLsb' 0 10) 21 |||
    field (imm.extractLsb' 10 1) 20 ||| field (imm.extractLsb' 11 8) 12 ||| field rd 7 |||
    field opcode 0

-- ---------------------------------------------------------------------------
-- Instructions
-- ---------------------------------------------------------------------------

inductive AluOp
  | add | sub | sll | slt | sltu | xor | srl | sra | or | and
  deriving DecidableEq, Repr

inductive MulOp
  | mul | mulh | mulhsu | mulhu | div | divu | rem | remu
  deriving DecidableEq, Repr

inductive ImmOp
  | addi | slti | sltiu | xori | ori | andi
  deriving DecidableEq, Repr

inductive ShiftOp
  | slli | srli | srai
  deriving DecidableEq, Repr

inductive BranchOp
  | beq | bne | blt | bge | bltu | bgeu
  deriving DecidableEq, Repr

inductive LoadOp
  | lb | lh | lw | lbu | lhu
  deriving DecidableEq, Repr

inductive StoreOp
  | sb | sh | sw
  deriving DecidableEq, Repr

/-- One instruction. The immediates of `branch` and `jal` leave out the bit 0
that the encoding does not store. -/
inductive Instr
  | op (o : AluOp) (rd rs1 rs2 : Reg)
  | mulDiv (o : MulOp) (rd rs1 rs2 : Reg)
  | opImm (o : ImmOp) (rd rs1 : Reg) (imm : BitVec 12)
  | shiftImm (o : ShiftOp) (rd rs1 : Reg) (shamt : BitVec 5)
  | lui (rd : Reg) (imm : BitVec 20)
  | auipc (rd : Reg) (imm : BitVec 20)
  | branch (o : BranchOp) (rs1 rs2 : Reg) (imm : BitVec 12)
  | load (o : LoadOp) (rd rs1 : Reg) (imm : BitVec 12)
  | store (o : StoreOp) (rs1 rs2 : Reg) (imm : BitVec 12)
  | jal (rd : Reg) (imm : BitVec 20)
  | jalr (rd rs1 : Reg) (imm : BitVec 12)
  deriving DecidableEq, Repr

def AluOp.funct3 : AluOp → BitVec 3
  | .add | .sub => 0b000
  | .sll => 0b001
  | .slt => 0b010
  | .sltu => 0b011
  | .xor => 0b100
  | .srl | .sra => 0b101
  | .or => 0b110
  | .and => 0b111

def AluOp.funct7 : AluOp → BitVec 7
  | .sub | .sra => 0b0100000
  | _ => 0b0000000

def MulOp.funct3 : MulOp → BitVec 3
  | .mul => 0b000
  | .mulh => 0b001
  | .mulhsu => 0b010
  | .mulhu => 0b011
  | .div => 0b100
  | .divu => 0b101
  | .rem => 0b110
  | .remu => 0b111

def ImmOp.funct3 : ImmOp → BitVec 3
  | .addi => 0b000
  | .slti => 0b010
  | .sltiu => 0b011
  | .xori => 0b100
  | .ori => 0b110
  | .andi => 0b111

def ShiftOp.funct3 : ShiftOp → BitVec 3
  | .slli => 0b001
  | .srli | .srai => 0b101

def ShiftOp.funct7 : ShiftOp → BitVec 7
  | .srai => 0b0100000
  | _ => 0b0000000

def BranchOp.funct3 : BranchOp → BitVec 3
  | .beq => 0b000
  | .bne => 0b001
  | .blt => 0b100
  | .bge => 0b101
  | .bltu => 0b110
  | .bgeu => 0b111

def LoadOp.funct3 : LoadOp → BitVec 3
  | .lb => 0b000
  | .lh => 0b001
  | .lw => 0b010
  | .lbu => 0b100
  | .lhu => 0b101

def StoreOp.funct3 : StoreOp → BitVec 3
  | .sb => 0b000
  | .sh => 0b001
  | .sw => 0b010

namespace Opcode

def op : BitVec 7 := 0b0110011
def opImm : BitVec 7 := 0b0010011
def lui : BitVec 7 := 0b0110111
def auipc : BitVec 7 := 0b0010111
def branch : BitVec 7 := 0b1100011
def load : BitVec 7 := 0b0000011
def store : BitVec 7 := 0b0100011
def jal : BitVec 7 := 0b1101111
def jalr : BitVec 7 := 0b1100111
def amo : BitVec 7 := 0b0101111

end Opcode

def Instr.opcode : Instr → BitVec 7
  | .op .. | .mulDiv .. => Opcode.op
  | .opImm .. | .shiftImm .. => Opcode.opImm
  | .lui .. => Opcode.lui
  | .auipc .. => Opcode.auipc
  | .branch .. => Opcode.branch
  | .load .. => Opcode.load
  | .store .. => Opcode.store
  | .jal .. => Opcode.jal
  | .jalr .. => Opcode.jalr

def encode : Instr → Word
  | .op o rd rs1 rs2 => rFormat o.funct7 rs2 rs1 o.funct3 rd Opcode.op
  | .mulDiv o rd rs1 rs2 => rFormat 0b0000001 rs2 rs1 o.funct3 rd Opcode.op
  | .opImm o rd rs1 imm => iFormat imm rs1 o.funct3 rd Opcode.opImm
  | .shiftImm o rd rs1 shamt => rFormat o.funct7 shamt rs1 o.funct3 rd Opcode.opImm
  | .lui rd imm => uFormat imm rd Opcode.lui
  | .auipc rd imm => uFormat imm rd Opcode.auipc
  | .branch o rs1 rs2 imm => bFormat imm rs2 rs1 o.funct3 Opcode.branch
  | .load o rd rs1 imm => iFormat imm rs1 o.funct3 rd Opcode.load
  | .store o rs1 rs2 imm => sFormat imm rs2 rs1 o.funct3 Opcode.store
  | .jal rd imm => jFormat imm rd Opcode.jal
  | .jalr rd rs1 imm => iFormat imm rs1 0b000 rd Opcode.jalr

-- ---------------------------------------------------------------------------
-- Architectural state
-- ---------------------------------------------------------------------------

/-- The memory is the whole 32-bit address space. The value stored for `x0` is
never read: `get` answers 0 for it. -/
@[ext] structure State where
  x : Reg → Word
  pc : Word
  mem : Word → Byte

def State.get (s : State) (r : Reg) : Word := if r = 0 then 0 else s.x r

def State.set (s : State) (r : Reg) (v : Word) : State :=
  if r = 0 then s else { s with x := Function.update s.x r v }

def State.next (s : State) : State := { s with pc := s.pc + 4 }

/-- The `n` bytes from `a` on, little-endian, as a number. -/
def readLE (mem : Word → Byte) (a : Word) : Nat → Nat
  | 0 => 0
  | n + 1 => (mem a).toNat + 256 * readLE mem (a + 1) n

/-- The memory with the low `n` bytes of `v` stored from `a` on, little-endian. -/
def writeLE (mem : Word → Byte) (a : Word) (n : Nat) (v : Word) : Word → Byte :=
  fun b => if (b - a).toNat < n then (v >>> (8 * (b - a).toNat)).setWidth 8 else mem b

-- ---------------------------------------------------------------------------
-- Meaning
-- ---------------------------------------------------------------------------

def AluOp.eval : AluOp → Word → Word → Word
  | .add, a, b => a + b
  | .sub, a, b => a - b
  | .sll, a, b => a <<< (b.toNat % 32)
  | .slt, a, b => if a.toInt < b.toInt then 1 else 0
  | .sltu, a, b => if a.toNat < b.toNat then 1 else 0
  | .xor, a, b => a ^^^ b
  | .srl, a, b => a >>> (b.toNat % 32)
  | .sra, a, b => a.sshiftRight (b.toNat % 32)
  | .or, a, b => a ||| b
  | .and, a, b => a &&& b

/-- The high halves are the floor of the exact product over `2 ^ 32`. Division
by zero gives all ones, its remainder the dividend; the one signed overflow,
the most negative number by -1, gives itself and the remainder 0. -/
def MulOp.eval : MulOp → Word → Word → Word
  | .mul, a, b => a * b
  | .mulh, a, b => BitVec.ofInt 32 (a.toInt * b.toInt / 2 ^ 32)
  | .mulhsu, a, b => BitVec.ofInt 32 (a.toInt * b.toNat / 2 ^ 32)
  | .mulhu, a, b => BitVec.ofNat 32 (a.toNat * b.toNat / 2 ^ 32)
  | .div, a, b =>
    if b = 0 then -1
    else if a.toInt = -2 ^ 31 ∧ b.toInt = -1 then a
    else BitVec.ofInt 32 (a.toInt.tdiv b.toInt)
  | .divu, a, b => if b = 0 then -1 else BitVec.ofNat 32 (a.toNat / b.toNat)
  | .rem, a, b =>
    if b = 0 then a
    else if a.toInt = -2 ^ 31 ∧ b.toInt = -1 then 0
    else BitVec.ofInt 32 (a.toInt.tmod b.toInt)
  | .remu, a, b => if b = 0 then a else BitVec.ofNat 32 (a.toNat % b.toNat)

def ImmOp.alu : ImmOp → AluOp
  | .addi => .add
  | .slti => .slt
  | .sltiu => .sltu
  | .xori => .xor
  | .ori => .or
  | .andi => .and

def ShiftOp.alu : ShiftOp → AluOp
  | .slli => .sll
  | .srli => .srl
  | .srai => .sra

def BranchOp.taken : BranchOp → Word → Word → Bool
  | .beq, a, b => a == b
  | .bne, a, b => a != b
  | .blt, a, b => a.toInt < b.toInt
  | .bge, a, b => b.toInt ≤ a.toInt
  | .bltu, a, b => a.toNat < b.toNat
  | .bgeu, a, b => b.toNat ≤ a.toNat

def LoadOp.size : LoadOp → Nat
  | .lb | .lbu => 1
  | .lh | .lhu => 2
  | .lw => 4

def LoadOp.signed : LoadOp → Bool
  | .lb | .lh => true
  | _ => false

def LoadOp.extend (o : LoadOp) (v : Nat) : Word :=
  let bits := BitVec.ofNat (8 * o.size) v
  if o.signed then bits.signExtend 32 else bits.setWidth 32

def StoreOp.size : StoreOp → Nat
  | .sb => 1
  | .sh => 2
  | .sw => 4

/-- The address and width of the data access, for the instructions that make one. -/
def Instr.access? (i : Instr) (s : State) : Option (Word × Nat) :=
  match i with
  | .load o _ rs1 imm => some (s.get rs1 + imm.signExtend 32, o.size)
  | .store o rs1 _ imm => some (s.get rs1 + imm.signExtend 32, o.size)
  | _ => none

def Instr.exec (i : Instr) (s : State) : State :=
  match i with
  | .op o rd rs1 rs2 => (s.set rd (o.eval (s.get rs1) (s.get rs2))).next
  | .mulDiv o rd rs1 rs2 => (s.set rd (o.eval (s.get rs1) (s.get rs2))).next
  | .opImm o rd rs1 imm => (s.set rd (o.alu.eval (s.get rs1) (imm.signExtend 32))).next
  | .shiftImm o rd rs1 shamt => (s.set rd (o.alu.eval (s.get rs1) (shamt.setWidth 32))).next
  | .lui rd imm => (s.set rd (field imm 12)).next
  | .auipc rd imm => (s.set rd (s.pc + field imm 12)).next
  | .branch o rs1 rs2 imm =>
    if o.taken (s.get rs1) (s.get rs2) then { s with pc := s.pc + imm.signExtend 32 <<< 1 }
    else s.next
  | .load o rd rs1 imm =>
    (s.set rd (o.extend (readLE s.mem (s.get rs1 + imm.signExtend 32) o.size))).next
  | .store o rs1 rs2 imm =>
    { s.next with mem := writeLE s.mem (s.get rs1 + imm.signExtend 32) o.size (s.get rs2) }
  | .jal rd imm => { s.set rd (s.pc + 4) with pc := s.pc + imm.signExtend 32 <<< 1 }
  | .jalr rd rs1 imm =>
    { s.set rd (s.pc + 4) with pc := (s.get rs1 + imm.signExtend 32) &&& ~~~1#32 }

-- ---------------------------------------------------------------------------
-- Register file laws
-- ---------------------------------------------------------------------------

@[simp] theorem State.set_pc (s : State) (r v) : (s.set r v).pc = s.pc := by
  unfold State.set; split <;> rfl

@[simp] theorem State.next_x (s : State) : s.next.x = s.x := rfl

@[simp] theorem State.next_pc (s : State) : s.next.pc = s.pc + 4 := rfl

@[simp] theorem State.next_mem (s : State) : s.next.mem = s.mem := rfl

-- ---------------------------------------------------------------------------
-- Format laws
-- ---------------------------------------------------------------------------

theorem getLsbD_field (x : BitVec n) (k i : Nat) :
    (field x k).getLsbD i = (decide (i < 32) && decide (k ≤ i) && x.getLsbD (i - k)) := by
  unfold field
  rw [BitVec.getLsbD_shiftLeft, BitVec.getLsbD_setWidth]
  by_cases h : i < 32
  · have hi : i - k < 32 := by omega
    by_cases hk : k ≤ i <;> simp [h, hk, hi, Nat.not_lt.mpr, Nat.lt_of_not_le]
  · simp [h]

section
variable {x : BitVec n} {j k w : Nat} {m m' : Word}

theorem field_zero (x : BitVec n) : field x 0 = x.setWidth 32 := by simp [field]

theorem field_and_congr (h : ∀ i < n, m.getLsbD (k + i) = m'.getLsbD (k + i)) :
    field x k &&& m = field x k &&& m' := by
  apply BitVec.eq_of_getLsbD_eq
  intro i hi
  simp only [BitVec.getLsbD_and, getLsbD_field]
  by_cases hin : k ≤ i ∧ i - k < n
  · have hbit := h (i - k) hin.2
    rw [Nat.add_sub_cancel' hin.1] at hbit
    rw [hbit]
  · by_cases hk : k ≤ i
    · simp [BitVec.getLsbD_of_ge x (i - k) (by omega)]
    · simp [hk]

theorem field_and_eq (h : ∀ i < n, m.getLsbD (k + i) = true) :
    field x k &&& m = field x k := by
  have hones : ∀ i < n, m.getLsbD (k + i) = (BitVec.allOnes 32).getLsbD (k + i) := by
    intro i hi
    rw [h i hi, BitVec.getLsbD_allOnes, decide_eq_true (BitVec.lt_of_getLsbD (h i hi))]
  rw [field_and_congr hones, BitVec.and_allOnes]

theorem field_and_zero (h : ∀ i < n, m.getLsbD (k + i) = false) :
    field x k &&& m = 0#32 := by
  have hzero : ∀ i < n, m.getLsbD (k + i) = (0#32).getLsbD (k + i) := by simpa using h
  rw [field_and_congr hzero, BitVec.and_zero]

theorem field_ushiftRight (hj : j ≤ k) (hk : k + n ≤ 32) :
    field x k >>> j = field x (k - j) := by
  apply BitVec.eq_of_getLsbD_eq
  intro i hi
  have hidx : j + i - k = i - (k - j) := by omega
  have hle : k ≤ j + i ↔ k - j ≤ i := by omega
  rw [BitVec.getLsbD_ushiftRight, getLsbD_field, getLsbD_field, hidx]
  by_cases hin : i - (k - j) < n
  · by_cases hbelow : k - j ≤ i
    · simp [hle, hbelow, hi]
      omega
    · simp [hle, hbelow]
  · simp [BitVec.getLsbD_of_ge x _ (Nat.le_of_not_lt hin)]

theorem field_ushiftRight_zero (h : k + n ≤ j) : field x k >>> j = 0#32 := by
  apply BitVec.eq_of_getLsbD_eq
  intro i hi
  rw [BitVec.getLsbD_ushiftRight, getLsbD_field, BitVec.getLsbD_of_ge x _ (by omega),
    Bool.and_false, BitVec.getLsbD_zero]

theorem field_or (x y : BitVec n) (k : Nat) : field (x ||| y) k = field x k ||| field y k := by
  simp [field, BitVec.setWidth_or, BitVec.shiftLeft_or_distrib]

theorem field_setWidth (h : n ≤ w) : field (x.setWidth w) k = field x k := by
  rw [field, BitVec.setWidth_setWidth (by omega)]
  rfl

theorem field_shiftLeft (h : n + j ≤ w) : field (x.setWidth w <<< j) k = field x (k + j) := by
  apply BitVec.eq_of_getLsbD_eq
  intro i hi
  rw [getLsbD_field, getLsbD_field, BitVec.getLsbD_shiftLeft, BitVec.getLsbD_setWidth,
    Nat.sub_sub]
  by_cases hhigh : i - (k + j) < n
  · by_cases hk : k + j ≤ i
    · have hle : k ≤ i := by omega
      have hshift : ¬ i - k < j := by omega
      have hw : i - k < w := by omega
      have hw' : i - (k + j) < w := by omega
      simp [hk, hle, hshift, hw, hw']
    · by_cases hle : k ≤ i
      · have hshift : i - k < j := by omega
        simp [hk, hshift]
      · simp [hk, hle]
  · simp [BitVec.getLsbD_of_ge x _ (Nat.le_of_not_lt hhigh)]

theorem field_append (x : BitVec n) (y : BitVec w) (k : Nat) :
    field (x ++ y) k = field x (k + w) ||| field y k := by
  apply BitVec.eq_of_getLsbD_eq
  intro i hi
  rw [BitVec.getLsbD_or, getLsbD_field, getLsbD_field, getLsbD_field, BitVec.getLsbD_append]
  by_cases hk : k ≤ i
  · by_cases hw : i - k < w
    · have hlow : ¬ k + w ≤ i := by omega
      simp [hi, hk, hw, hlow]
    · have hhigh : k + w ≤ i := by omega
      simp [hi, hk, hw, hhigh, Nat.sub_sub, BitVec.getLsbD_of_ge y _ (Nat.le_of_not_lt hw)]
  · have hlow : ¬ k + w ≤ i := by omega
    simp [hk, hlow]

theorem field_split (x : BitVec n) (k j : Nat) (h : w + j = n) :
    field x k = field (x.extractLsb' j w) (k + j) ||| field (x.extractLsb' 0 j) k := by
  subst h
  rw [← field_append, BitVec.extractLsb'_append_extractLsb']

end

/-- The I, S and B formats are the R format with the immediate cut in two. -/
theorem iFormat_eq (imm : BitVec 12) (rs1 funct3 rd opcode) :
    iFormat imm rs1 funct3 rd opcode =
      rFormat (imm.extractLsb' 5 7) (imm.extractLsb' 0 5) rs1 funct3 rd opcode := by
  have hsplit : field imm 20 =
      field (imm.extractLsb' 5 7) 25 ||| field (imm.extractLsb' 0 5) 20 := field_split imm 20 5 rfl
  rw [iFormat, rFormat, hsplit]

theorem sFormat_eq (imm : BitVec 12) (rs2 rs1 funct3 opcode) :
    sFormat imm rs2 rs1 funct3 opcode =
      rFormat (imm.extractLsb' 5 7) rs2 rs1 funct3 (imm.extractLsb' 0 5) opcode := rfl

theorem bFormat_eq (imm : BitVec 12) (rs2 rs1 funct3 opcode) :
    bFormat imm rs2 rs1 funct3 opcode =
      rFormat ((imm.extractLsb' 11 1).setWidth 7 <<< 6 ||| (imm.extractLsb' 4 6).setWidth 7)
        rs2 rs1 funct3
        ((imm.extractLsb' 0 4).setWidth 5 <<< 1 ||| (imm.extractLsb' 10 1).setWidth 5) opcode := by
  simp (disch := decide) only [bFormat, rFormat, field_or, field_shiftLeft, field_setWidth,
    Nat.reduceAdd, BitVec.or_assoc]

end Rv32
