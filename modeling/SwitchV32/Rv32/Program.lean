import SwitchV32.Rv32.Amo
import SwitchV32.Lts

/-!
# Runs of a program

A program is whatever memory holds at the program counter, so it may write
itself. Each step executes one instruction of RV32IM or one AMO.
-/

namespace Rv32

inductive Op
  | base (i : Instr)
  | amo (o : AmoOp) (aq rl : BitVec 1) (rd rs1 rs2 : Reg)
  deriving DecidableEq

def Op.encode : Op → Word
  | .base i => Rv32.encode i
  | .amo o aq rl rd rs1 rs2 => encodeAmo o aq rl rd rs1 rs2

def Op.exec : Op → State → State
  | .base i => i.exec
  | .amo o _ _ rd rs1 rs2 => execAmo o rd rs1 rs2

def Op.access? (s : State) : Op → Option (Word × Nat)
  | .base i => i.access? s
  | .amo _ _ _ _ rs1 _ => some (s.get rs1, 4)

structure Exec (s : State) (op : Op) (s' : State) : Prop where
  fetch : s.word s.pc = op.encode
  exec : s' = op.exec s

end Rv32
