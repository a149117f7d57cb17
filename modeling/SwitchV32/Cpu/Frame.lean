import SwitchV32.Cpu
import SwitchV32.Ensures

/-!
# What instructions leave alone

A property of the machine that is blind to guest memory, the privilege mode and
some of the registers, among them the general ones and the program counter, is
kept by every instruction, unless a function of the build or the A extension
breaks it.
-/

namespace SwitchV32

variable {σ : Type}

structure Machine.Frame (Q : Machine σ → Prop) : Prop where
  setReg : ∀ {m : Machine σ} (r v), Q m → Q (m.setReg r v)
  setVmem : ∀ {m : Machine σ} (vmem), Q m → Q { m with vmem }
  setMode : ∀ {m : Machine σ} (mode), Q m → Q { m with core := { m.core with mode } }

/-- The property may look at the registers that are not among `R`. -/
structure Machine.FrameOn (R : Reg → Prop) (Q : Machine σ → Prop) : Prop where
  setReg : ∀ {m : Machine σ} {r} (v), R r → Q m → Q (m.setReg r v)
  setVmem : ∀ {m : Machine σ} (vmem), Q m → Q { m with vmem }
  setMode : ∀ {m : Machine σ} (mode), Q m → Q { m with core := { m.core with mode } }

/-- The property may also look at the mode, if it is kept by a change to one of `M`. -/
structure Machine.FrameWith (R : Reg → Prop) (M : ExecutionMode → Prop) (Q : Machine σ → Prop) :
    Prop where
  setReg : ∀ {m : Machine σ} {r} (v), R r → Q m → Q (m.setReg r v)
  setVmem : ∀ {m : Machine σ} (vmem), Q m → Q { m with vmem }
  setMode : ∀ {m : Machine σ} {mode}, M mode → Q m → Q { m with core := { m.core with mode } }

theorem Machine.FrameOn.frameWith {R : Reg → Prop} {Q : Machine σ → Prop}
    (hQ : Machine.FrameOn R Q) : Machine.FrameWith R (fun _ => True) Q where
  setReg := hQ.setReg
  setVmem := hQ.setVmem
  setMode _ := hQ.setMode _

theorem Machine.Frame.on {Q : Machine σ → Prop} (hQ : Machine.Frame Q) (R : Reg → Prop) :
    Machine.FrameOn R Q where
  setReg _ _ h := hQ.setReg _ _ h
  setVmem := hQ.setVmem
  setMode := hQ.setMode

theorem Machine.Frame.addPc {Q : Machine σ → Prop} (hQ : Machine.Frame Q) {m : Machine σ} (inc)
    (h : Q m) : Q (m.addPc inc) := hQ.setReg _ _ h

def Reg.General (r : Reg) : Prop := r.val ≤ 32

instance (r : Reg) : Decidable r.General := inferInstanceAs (Decidable (_ ≤ _))

theorem Reg.general_pc : Reg.pc.General := Nat.le_refl 32

theorem Ins.general_rdReg (ins : U32) : (Ins.rdReg ins).General :=
  Nat.le_of_lt (Ins.five_bits_lt ins 7)

theorem vcoreDispatch_frameWith {env : Env σ} {R : Reg → Prop} {M : ExecutionMode → Prop}
    {Q : Machine σ → Prop} {m : Machine σ} (hQ : Machine.FrameWith R M Q)
    (hR : ∀ r : Reg, r.General → R r) (hm : Q m)
    (htrap : ∀ code v, Ensures (env.dispatchTrap m code v) Q)
    (ins) (hsys : Ins.opcodeType ins = OpcodeType.sysType → Ensures (env.vcoreSysType m ins) Q)
    (hop : Ins.opcodeType ins ≠ OpcodeType.aType) : Ensures (vcoreDispatch env m ins) Q := by
  have hrd (v) : Q (m.setReg (Ins.rdReg ins) v) := hQ.setReg v (hR _ (Ins.general_rdReg ins)) hm
  have hadd (m' : Machine σ) (inc) (h : Q m') : Q (m'.addPc inc) :=
    hQ.setReg _ (hR _ Reg.general_pc) h
  have hpc (m' : Machine σ) (h : Q m') :
      Ensures (pure (m'.addPc 4) : Except Stop (Machine σ)) Q := .pure (hadd m' 4 h)
  simp only [vcoreDispatch]
  split
  · simp only [vcoreRType]
    split
    · exact hpc _ (hrd _)
    · exact .bind (htrap _ _) hpc
  · simp only [vcoreIrType]
    split
    · exact hpc _ (hrd _)
    · exact .bind (htrap _ _) hpc
  · simp only [vcoreIlType]
    split
    · exact .bind .trivial fun v _ => hpc _ (hrd v)
    · exact .bind (htrap _ _) hpc
  · simp only [vcoreSType]
    split
    · exact .bind .trivial fun vmem _ => hpc _ (hQ.setVmem vmem hm)
    · exact .bind (htrap _ _) hpc
  · simp only [vcoreBType]
    split
    · exact .pure (hadd _ _ hm)
    · exact .bind (htrap _ _) hpc
  · exact .pure (hadd _ _ (hrd _))
  · exact .pure (hQ.setReg _ (hR _ Reg.general_pc) (hrd _))
  · exact .pure (hadd _ _ (hrd _))
  · exact .pure (hadd _ _ (hrd _))
  · exact absurd ‹_› hop
  · exact hsys ‹_›
  · exact htrap _ _

theorem vcoreDispatch_frameOn {env : Env σ} {R : Reg → Prop} {Q : Machine σ → Prop} {m : Machine σ}
    (hQ : Machine.FrameOn R Q) (hR : ∀ r : Reg, r.General → R r) (hm : Q m)
    (htrap : ∀ code v, Ensures (env.dispatchTrap m code v) Q)
    (ins) (hsys : Ins.opcodeType ins = OpcodeType.sysType → Ensures (env.vcoreSysType m ins) Q)
    (hop : Ins.opcodeType ins ≠ OpcodeType.aType) : Ensures (vcoreDispatch env m ins) Q :=
  vcoreDispatch_frameWith hQ.frameWith hR hm htrap ins hsys hop

theorem vcoreDispatch_frame {env : Env σ} {Q : Machine σ → Prop} {m : Machine σ}
    (hQ : Machine.Frame Q) (hm : Q m) (htrap : ∀ code v, Ensures (env.dispatchTrap m code v) Q)
    (ins) (hsys : Ins.opcodeType ins = OpcodeType.sysType → Ensures (env.vcoreSysType m ins) Q)
    (hop : Ins.opcodeType ins ≠ OpcodeType.aType) : Ensures (vcoreDispatch env m ins) Q :=
  vcoreDispatch_frameOn (hQ.on fun _ => True) (fun _ _ => trivial) hm htrap ins hsys hop

end SwitchV32
