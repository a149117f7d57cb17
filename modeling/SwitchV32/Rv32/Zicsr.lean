import SwitchV32.Rv32.Base

/-!
# Zicsr on the supervisor registers

The six instructions put the old value of a CSR in `rd` and write, set or clear
bits of the CSR, as far as they are writable. Of the CSRs there are the eleven
that the emulator has, under its numbers; the manual's `senvcfg` is `0x10A`.
-/

namespace Rv32

inductive CsrOp
  | rw | rs | rc | rwi | rsi | rci
  deriving DecidableEq, Repr

inductive Csr
  | sstatus | sie | stvec | scounteren | senvcfg | sscratch | sepc | scause | stval | sip | satp
  deriving DecidableEq, Repr

-- ---------------------------------------------------------------------------
-- Encoding
-- ---------------------------------------------------------------------------

def Opcode.system : BitVec 7 := 0b1110011

def CsrOp.funct3 : CsrOp → BitVec 3
  | .rw => 0b001
  | .rs => 0b010
  | .rc => 0b011
  | .rwi => 0b101
  | .rsi => 0b110
  | .rci => 0b111

/-- Whether the field of `rs1` is the operand itself. -/
def CsrOp.immediate : CsrOp → Bool
  | .rw | .rs | .rc => false
  | .rwi | .rsi | .rci => true

def Csr.number : Csr → BitVec 12
  | .sstatus => 0x100
  | .sie => 0x104
  | .stvec => 0x105
  | .scounteren => 0x106
  | .senvcfg => 0x10B
  | .sscratch => 0x140
  | .sepc => 0x141
  | .scause => 0x142
  | .stval => 0x143
  | .sip => 0x144
  | .satp => 0x180

def encodeCsr (o : CsrOp) (csr : Csr) (rd src : Reg) : Word :=
  iFormat csr.number src o.funct3 rd Opcode.system

-- ---------------------------------------------------------------------------
-- Meaning
-- ---------------------------------------------------------------------------

def CsrOp.eval : CsrOp → Word → Word → Word
  | .rw, _, x | .rwi, _, x => x
  | .rs, old, x | .rsi, old, x => old ||| x
  | .rc, old, x | .rci, old, x => old &&& ~~~x

def Csr.writable : Csr → Word
  | .sip => 1#32 <<< 1
  | .sie => 1#32 <<< 9 ||| 1#32 <<< 5 ||| 1#32 <<< 1
  | _ => BitVec.allOnes 32

/-- The modes 2 and 3 of `stvec` are reserved and read as 0. -/
def Csr.legal : Csr → Word → Word
  | .stvec, x => if x &&& 0x3 ≥ 2#32 then x &&& ~~~0x3#32 else x
  | _, x => x

def Csr.write (csr : Csr) (old new : Word) : Word :=
  csr.legal (new &&& csr.writable ||| old &&& ~~~csr.writable)

end Rv32
