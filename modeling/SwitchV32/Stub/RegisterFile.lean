import Mathlib.Data.Nat.Digits.Defs
import SwitchV32.Stub.GuestMemory

/-!
# The register file over packets

`G` lays its fields over the bytes of all the registers and writes them back. A
field with a character that is no digit leaves the bytes of its register alone.
-/

namespace SwitchV32

def regField (l : List U8) (n : Nat) : List U8 := (l.drop (n * regStrBytes)).take regStrBytes

def AllHex (l : List U8) : Prop := ∀ c ∈ l, isHex c = true

instance (l : List U8) : Decidable (AllHex l) := inferInstanceAs (Decidable (∀ c ∈ l, _))

/-- The number whose bytes are spelled one after the other, the first one least significant. -/
def littleEndian : List U8 → Nat
  | a :: b :: l => hexNat 0 [a, b] + 256 * littleEndian l
  | _ => 0

def regDigits (v : U32) : List U8 := (bytesOf (v.setWidth 64) regBytes).flatMap hexPair

-- ---------------------------------------------------------------------------
-- Numbers and their bytes
-- ---------------------------------------------------------------------------

section
variable {l src dest : List U8} {n : Nat} {x : BitVec 64}

def leNat (l : List U8) : Nat := Nat.ofDigits 256 (l.map BitVec.toNat)

@[simp] theorem leNat_nil : leNat [] = 0 := rfl

@[simp] theorem leNat_cons (b : U8) (l : List U8) : leNat (b :: l) = b.toNat + 256 * leNat l := by
  simp [leNat, Nat.ofDigits_cons]

theorem leNat_lt (l : List U8) : leNat l < 256 ^ l.length := by
  induction l with
  | nil => simp
  | cons b l ih =>
    have hb := b.isLt
    simp only [leNat_cons, List.length_cons, Nat.pow_succ']
    omega

theorem toNat_ofBytes (h : l.length ≤ 8) : (ofBytes l).toNat = leNat l := by
  induction l with
  | nil => rfl
  | cons b l ih =>
    simp only [List.length_cons] at h
    have hb := b.isLt
    have hl : leNat l < 256 ^ 7 :=
      (leNat_lt l).trans_le (Nat.pow_le_pow_right (by decide) (by omega))
    have hstep : ofBytes (b :: l) = (ofBytes l <<< 8) ||| b.setWidth 64 := rfl
    have hshift : leNat l <<< 8 % 2 ^ 64 = leNat l <<< 8 := by
      rw [Nat.shiftLeft_eq]
      exact Nat.mod_eq_of_lt (by omega)
    have hwidth : b.toNat % 2 ^ 64 = b.toNat := Nat.mod_eq_of_lt (by omega)
    rw [hstep, BitVec.toNat_or, BitVec.toNat_shiftLeft, BitVec.toNat_setWidth, ih (by omega),
      hshift, hwidth, ← Nat.shiftLeft_add_eq_or_of_lt hb, Nat.shiftLeft_eq, leNat_cons]
    omega

theorem leNat_bytesOf (x : BitVec 64) (n : Nat) : leNat (bytesOf x n) = x.toNat % 256 ^ n := by
  induction n generalizing x with
  | zero => simp [bytesOf, Nat.mod_one]
  | succ n ih =>
    have hpow : 256 ^ (n + 1) = 2 ^ 8 * 256 ^ n := Nat.pow_succ'
    rw [bytesOf_succ, leNat_cons, ih, BitVec.toNat_setWidth, BitVec.toNat_ushiftRight,
      Nat.shiftRight_eq_div_pow, hpow, Nat.mod_mul]
    rfl

theorem bytesOf_eq (h : x.toNat % 256 ^ l.length = leNat l) : bytesOf x l.length = l := by
  induction l generalizing x with
  | nil => rfl
  | cons b l ih =>
    have hb := b.isLt
    simp only [List.length_cons, Nat.pow_succ', Nat.mod_mul, leNat_cons] at h
    have hhead : x.setWidth 8 = b := by
      apply BitVec.eq_of_toNat_eq
      rw [BitVec.toNat_setWidth]
      omega
    have htail : (x >>> 8).toNat % 256 ^ l.length = leNat l := by
      rw [BitVec.toNat_ushiftRight, Nat.shiftRight_eq_div_pow]
      have hdiv : 2 ^ 8 = 256 := rfl
      rw [hdiv]
      omega
    rw [List.length_cons, bytesOf_succ, hhead, ih htail]

-- ---------------------------------------------------------------------------
-- Fields
-- ---------------------------------------------------------------------------

theorem AllHex.cons_cons {a b : U8} (h : AllHex (a :: b :: l)) :
    isHex a = true ∧ isHex b = true ∧ AllHex l :=
  ⟨h a (by simp), h b (by simp), fun c hc => h c (by simp [hc])⟩

theorem leNat_decodeHex (h : AllHex l) : leNat (decodeHex l) = littleEndian l := by
  induction l using decodeHex.induct with
  | case1 a b l ih =>
    obtain ⟨ha, hb, hl⟩ := h.cons_cons
    have hlt : hexNat 0 [a, b] < (0 + 1) * 16 ^ 2 := hexNat_lt (v := [a, b]) (by simp [ha, hb]) 0
    rw [decodeHex, leNat_cons, ih hl, littleEndian, BitVec.toNat_ofNat, Nat.mod_eq_of_lt (by omega)]
  | case2 l hl =>
    rw [decodeHex, littleEndian]
    · rfl
    all_goals exact hl

theorem flatMap_decodeHex (h : AllHex l) (heven : l.length = 2 * n) :
    (decodeHex l).flatMap hexPair = lower l := by
  induction n generalizing l with
  | zero =>
    obtain rfl := List.eq_nil_of_length_eq_zero heven
    rfl
  | succ n ih =>
    obtain ⟨a, b, l, rfl, hlen⟩ := exists_pair heven
    obtain ⟨ha, hb, hl⟩ := h.cons_cons
    obtain ⟨d, hd, hvala, hchara⟩ := isHex_val ha
    obtain ⟨e, he, hvalb, hcharb⟩ := isHex_val hb
    have hbyte : (BitVec.ofNat 8 (hexNat 0 [a, b])).toNat = 16 * d + e := by
      simp only [hexNat, hvala, hvalb, BitVec.toNat_ofNat]
      omega
    rw [decodeHex, List.flatMap_cons, ih hl hlen, hexPair_eq he hbyte, hchara, hcharb]
    rfl

theorem hexCharsLoop_x (h : ¬ AllHex src) (dest : List U8) (state : Bool) (tmpVal : U8)
    (bytesIdx : Nat) : (hexCharsLoop dest state tmpVal bytesIdx src).1 = .x := by
  induction src generalizing dest state tmpVal bytesIdx with
  | nil => exact absurd (fun c hc => absurd hc List.not_mem_nil) h
  | cons c src ih =>
    cases hval : hexVal c with
    | none => simp only [hexCharsLoop, hval]
    | some d =>
      have hrest : ¬ AllHex src := fun hall => h fun b hb => by
        obtain rfl | hb := List.mem_cons.mp hb
        · simp [isHex, hval]
        · exact hall b hb
      simp only [hexCharsLoop, hval]
      split
      · exact ih hrest ..
      · exact ih hrest ..

theorem sadHexCharsToBytes_x (h : ¬ AllHex src) (hsrc : src.length = 2 * dest.length) :
    ∃ reg, sadHexCharsToBytes dest src = (.x, reg) := by
  have hfits : ¬ dest.length < (src.length + 1) / 2 := by omega
  have hloop := hexCharsLoop_x h dest (src.length % 2 == 0) 0 0
  simp only [sadHexCharsToBytes, hfits, if_false]
  generalize hexCharsLoop dest (src.length % 2 == 0) 0 0 src = r at hloop
  obtain ⟨ret, dest', idx⟩ := r
  obtain rfl : ret = .x := hloop
  exact ⟨dest', rfl⟩

end

-- ---------------------------------------------------------------------------
-- The parts of an array
-- ---------------------------------------------------------------------------

def regPart (regs : List U8) (n : Nat) : List U8 := (regs.drop (n * regBytes)).take regBytes

section
variable {ρ : Type} {ops : SysOps ρ} {regs part l : List U8} {i j n m : Nat}

theorem length_regField (hl : l.length = regStrBytes * m) (hn : n < m) :
    (regField l n).length = regStrBytes := by
  simp only [regField, List.length_take, List.length_drop, hl, regStrBytes]
  omega

def setPart (regs : List U8) (i : Nat) (part : List U8) : List U8 :=
  regs.take (i * regBytes) ++ part ++ regs.drop ((i + 1) * regBytes)

theorem length_setPart (hregs : regs.length = regBytes * m) (hi : i < m)
    (hpart : part.length = regBytes) : (setPart regs i part).length = regBytes * m := by
  simp only [setPart, List.length_append, List.length_take, List.length_drop, hregs, hpart,
    regBytes]
  omega

theorem regPart_setPart (hregs : regs.length = regBytes * m) (hi : i < m)
    (hpart : part.length = regBytes) :
    regPart (setPart regs i part) j = if j = i then part else regPart regs j := by
  have hfront : (regs.take (i * regBytes)).length = i * regBytes := by
    simp only [List.length_take, hregs, regBytes]
    omega
  obtain hlt | rfl | hgt := Nat.lt_trichotomy j i
  · rw [if_neg (by omega)]
    have hdrop : j * regBytes ≤ (regs.take (i * regBytes)).length := by
      rw [hfront]
      exact Nat.mul_le_mul_right _ hlt.le
    have htake : regBytes ≤ ((regs.take (i * regBytes)).drop (j * regBytes)).length := by
      simp only [List.length_drop, hfront, regBytes]
      omega
    rw [regPart, setPart, List.append_assoc, List.drop_append_of_le_length hdrop,
      List.take_append_of_le_length htake, List.drop_take, List.take_take, regPart]
    congr 1
    simp only [regBytes]
    omega
  · rw [if_pos rfl, regPart, setPart, List.append_assoc, List.drop_left' hfront,
      List.take_left' hpart]
  · rw [if_neg (by omega)]
    have hsplit : j * regBytes = (regs.take (i * regBytes) ++ part).length +
        (j - (i + 1)) * regBytes := by
      simp only [List.length_append, hfront, hpart, regBytes]
      omega
    have hplace : (i + 1) * regBytes + (j - (i + 1)) * regBytes = j * regBytes := by
      simp only [regBytes]
      omega
    rw [regPart, setPart, hsplit, List.drop_length_add_append, List.drop_drop, hplace, regPart]

theorem overwriteRegs_eq (ops : SysOps ρ) (hl : (regField l i).length = regStrBytes) :
    overwriteRegs ops l regs i =
      if AllHex (regField l i) then setPart regs i (decodeHex (regField l i)) else regs := by
  have hlen : (regField l i).length = 2 * (ops.array regBytes).length := by
    rw [hl, length_array]
    rfl
  split
  · rename_i hhex
    have hdecode : sadHexCharsToBytes (ops.array regBytes)
        ((l.drop (i * regStrBytes)).take regStrBytes) = _ := sadHexStrToBytes_eq hhex hlen
    simp only [overwriteRegs, hdecode]
    rfl
  · rename_i hhex
    obtain ⟨reg, hx⟩ := sadHexCharsToBytes_x hhex hlen
    have hx' : sadHexCharsToBytes (ops.array regBytes)
        ((l.drop (i * regStrBytes)).take regStrBytes) = _ := hx
    simp only [overwriteRegs, hx']

theorem foldl_overwriteRegs (ops : SysOps ρ) (hl : l.length = regStrBytes * m)
    (hregs : regs.length = regBytes * m) (hn : n ≤ m) :
    ((List.range n).foldl (overwriteRegs ops l) regs).length = regBytes * m ∧
    ∀ j, regPart ((List.range n).foldl (overwriteRegs ops l) regs) j =
      if j < n ∧ AllHex (regField l j) then decodeHex (regField l j) else regPart regs j := by
  induction n with
  | zero => exact ⟨hregs, fun j => by simp⟩
  | succ n ih =>
    obtain ⟨hlen, hpart⟩ := ih (by omega)
    have hfield := length_regField hl (n := n) (by omega)
    rw [List.range_succ, List.foldl_append, List.foldl_cons, List.foldl_nil,
      overwriteRegs_eq ops hfield]
    split
    · rename_i hhex
      have hdecode : (decodeHex (regField l n)).length = regBytes :=
        length_decodeHex (hfield.trans rfl)
      refine ⟨length_setPart hlen (by omega) hdecode, fun j => ?_⟩
      rw [regPart_setPart hlen (by omega) hdecode, hpart]
      obtain rfl | hne := eq_or_ne j n
      · simp [hhex]
      · have hlt : j < n + 1 ↔ j < n := by omega
        simp [hne, hlt]
    · rename_i hhex
      refine ⟨hlen, fun j => ?_⟩
      rw [hpart]
      obtain rfl | hne := eq_or_ne j n
      · simp [hhex]
      · have hlt : j < n + 1 ↔ j < n := by omega
        simp [hlt]

end

-- ---------------------------------------------------------------------------
-- All registers of a core
-- ---------------------------------------------------------------------------

section
variable {ρ : Type} {ops : SysOps ρ} {s s₁ : Stub ρ} {t : Target ρ} {input : Pkt}
variable {regs l post : List U8} {core n m : Nat} {reg : Reg}

theorem ofNat_reg_inj {i j : Nat} (hi : i < regsNum) (hj : j < regsNum)
    (h : Fin.ofNat 44 i = Fin.ofNat 44 j) : i = j := by
  have hval := congrArg Fin.val h
  simp only [regsNum, Fin.ofNat] at hi hj hval
  omega

theorem foldl_writeReg (value : Nat → BitVec 64) (t : Target ρ) (core : Nat) (hn : n ≤ regsNum) :
    (∀ i < n, ((List.range n).foldl (fun t regId => t.writeReg (value regId) core regId) t).regs
      core (Fin.ofNat 44 i) = (value i).setWidth 32) ∧
    ∀ core' reg, (core' = core → ∀ i < n, reg ≠ Fin.ofNat 44 i) →
      ((List.range n).foldl (fun t regId => t.writeReg (value regId) core regId) t).regs core' reg =
        t.regs core' reg := by
  induction n with
  | zero => exact ⟨fun i hi => absurd hi (Nat.not_lt_zero i), fun _ _ _ => rfl⟩
  | succ n ih =>
    obtain ⟨hwritten, hothers⟩ := ih (by omega)
    simp only [List.range_succ, List.foldl_append, List.foldl_cons, List.foldl_nil]
    refine ⟨fun i hi => ?_, fun core' reg hnot => ?_⟩
    · obtain rfl | hne := eq_or_ne i n
      · simp only [Target.writeReg, Function.update_self]
      · have hreg : Fin.ofNat 44 i ≠ Fin.ofNat 44 n := fun heq =>
          hne (ofNat_reg_inj (by omega) (by omega) heq)
        rw [regs_writeReg _ _ (.inr hreg)]
        exact hwritten i (by omega)
    · have hlast : core' ≠ core ∨ reg ≠ Fin.ofNat 44 n := by
        by_cases hcore : core' = core
        · exact .inr (hnot hcore n (by omega))
        · exact .inl hcore
      rw [regs_writeReg _ _ hlast]
      exact hothers core' reg fun hcore i hi => hnot hcore i (by omega)

theorem regPart_sadTargetReadRegs (t : Target ρ) (core : Nat) (hn : n < regsNum) :
    regPart (sadTargetReadRegs t core) n = bytesOf (t.readReg core n) regBytes := by
  have hpart := flatMap_part (f := fun regId => bytesOf (t.readReg core regId) regBytes)
    (fun _ => length_bytesOf) hn
  rw [regPart, sadTargetReadRegs, Nat.mul_comm]
  exact hpart

theorem setWidth_ofBytes_bytesOf (v : U32) :
    (ofBytes (bytesOf (v.setWidth 64) regBytes)).setWidth 32 = v := by
  have hv := v.isLt
  have hlen : (bytesOf (v.setWidth 64) regBytes).length ≤ 8 := by
    rw [length_bytesOf]
    decide
  apply BitVec.eq_of_toNat_eq
  rw [BitVec.toNat_setWidth, toNat_ofBytes hlen, leNat_bytesOf, BitVec.toNat_setWidth]
  simp only [regBytes]
  omega

def overwritten (ops : SysOps ρ) (l : List U8) (t : Target ρ) (core : Nat) : Target ρ :=
  sadTargetWriteRegs t
    ((List.range regsNum).foldl (overwriteRegs ops l) (sadTargetReadRegs t core)) core

theorem regs_overwritten (ops : SysOps ρ) (t : Target ρ) (core : Nat)
    (hl : l.length = regsStrBytes) (hn : n < regsNum) :
    (overwritten ops l t core).regs core (Fin.ofNat 44 n) =
      if AllHex (regField l n) then BitVec.ofNat 32 (littleEndian (regField l n))
      else t.regs core (Fin.ofNat 44 n) := by
  have hregs : (sadTargetReadRegs t core).length = regBytes * regsNum :=
    length_sadTargetReadRegs t core
  obtain ⟨-, hpart⟩ := foldl_overwriteRegs ops hl hregs (Nat.le_refl _)
  rw [overwritten]
  generalize (List.range regsNum).foldl (overwriteRegs ops l) (sadTargetReadRegs t core) = regs
    at hpart
  obtain ⟨hwritten, -⟩ := foldl_writeReg (fun regId => ofBytes (regPart regs regId)) t core
    (Nat.le_refl regsNum)
  refine (hwritten n hn).trans ?_
  rw [hpart]
  by_cases hhex : AllHex (regField l n)
  · have hlen : (decodeHex (regField l n)).length ≤ 8 := by
      have hfield : (regField l n).length = 2 * 4 := length_regField hl hn
      rw [length_decodeHex hfield]
      decide
    rw [if_pos ⟨hn, hhex⟩, if_pos hhex]
    apply BitVec.eq_of_toNat_eq
    rw [BitVec.toNat_setWidth, toNat_ofBytes hlen, leNat_decodeHex hhex, BitVec.toNat_ofNat]
  · rw [if_neg fun h => hhex h.2, if_neg hhex, regPart_sadTargetReadRegs t core hn]
    exact setWidth_ofBytes_bytesOf _

theorem regs_overwritten_other (ops : SysOps ρ) (l : List U8) (t : Target ρ) {core' : Nat}
    (h : core' = core → ∀ n < regsNum, reg ≠ Fin.ofNat 44 n) :
    (overwritten ops l t core).regs core' reg = t.regs core' reg := by
  rw [overwritten]
  generalize (List.range regsNum).foldl (overwriteRegs ops l) (sadTargetReadRegs t core) = regs
  obtain ⟨-, hothers⟩ := foldl_writeReg (fun regId => ofBytes (regPart regs regId)) t core
    (Nat.le_refl regsNum)
  exact hothers core' reg h

theorem littleEndian_lt (hhex : AllHex l) (hlen : l.length = 2 * n) : littleEndian l < 256 ^ n := by
  rw [← leNat_decodeHex hhex, ← length_decodeHex hlen]
  exact leNat_lt _

theorem regDigits_littleEndian (hhex : AllHex l) (hlen : l.length = 2 * regBytes) :
    regDigits (BitVec.ofNat 32 (littleEndian l)) = lower l := by
  have hlt := littleEndian_lt hhex hlen
  have hbytes : bytesOf ((BitVec.ofNat 32 (littleEndian l)).setWidth 64) regBytes =
      decodeHex l := by
    rw [← length_decodeHex hlen]
    refine bytesOf_eq ?_
    rw [leNat_decodeHex hhex, length_decodeHex hlen, BitVec.toNat_setWidth, BitVec.toNat_ofNat]
    simp only [regBytes] at hlt ⊢
    omega
  rw [regDigits, hbytes, flatMap_decodeHex hhex hlen]

theorem length_cString_ne (hzero : (0 : U8) ∈ l) : (cString l).length ≠ l.length := by
  intro heq
  have hwhole := (List.takeWhile_prefix _).eq_of_length heq
  exact of_decide_eq_true (List.takeWhile_eq_self_iff.mp hwhole 0 hzero) rfl

theorem buildg_fields (ops : SysOps ρ) (s : Stub ρ) :
    ∃ reply, buildg ops s = .ok (s.append reply) ∧ reply.length = regsStrBytes ∧
      ∀ n < regsNum, regField reply n =
        regDigits (s.target.regs s.selectedCore (Fin.ofNat 44 n)) := by
  have hchars : hexChars ops regsStrBytes (sadTargetReadRegs s.target s.selectedCore) = _ :=
    hexChars_eq (by rw [length_sadTargetReadRegs]; rfl)
  have hparts (regId : Nat) :
      (regDigits (s.target.regs s.selectedCore (Fin.ofNat 44 regId))).length = regStrBytes := by
    rw [regDigits, length_flatMap_hexPair, length_bytesOf]
    rfl
  have hreply : (sadTargetReadRegs s.target s.selectedCore).flatMap hexPair =
      (List.range regsNum).flatMap fun regId =>
        regDigits (s.target.regs s.selectedCore (Fin.ofNat 44 regId)) :=
    List.flatMap_assoc ..
  rw [hreply] at hchars
  refine ⟨_, congrArg (fun l => Except.ok (s.append l)) hchars, ?_, fun n hn => ?_⟩
  · simp only [List.length_flatMap, hparts, List.map_const', List.length_range,
      List.sum_replicate_nat]
    rfl
  · rw [regField, Nat.mul_comm]
    exact flatMap_part hparts hn

theorem buildG_eq (ops : SysOps ρ) (h : s.input.At (s.input.startPktData + 1) l)
    (hl : l.length = regsStrBytes) :
    ∃ p, buildG ops s = .ok (if (0 : U8) ∈ l then (s.setInput p).appendStr "E"
      else { s.setInput p with
        target := overwritten ops l s.target s.selectedCore }.appendStr "OK") := by
  obtain ⟨cursor, p, htoken, hcut⟩ := sadCursorTokenizer_at h eob
  have hstr : p.str (s.input.startPktData + 1) = .ok (cString l) := by
    rw [hcut.str, field_eob]
  refine ⟨p, ?_⟩
  rw [buildG]
  simp only [sadExtractStr, htoken, ok_bind, Stub.input_setInput, hstr]
  by_cases hzero : (0 : U8) ∈ l
  · have hshort : (cString l).length ≠ regsStrBytes := hl ▸ length_cString_ne hzero
    rw [if_pos hzero, if_pos hshort]
    rfl
  · rw [if_neg hzero, cString_of_not_mem hzero, if_neg (not_not.mpr hl)]
    rfl

theorem respond_G_ended (ops : SysOps ρ) (hG : input.Holds (0x47 :: l) post)
    (hl : l.length = regsStrBytes) (hzero : (0 : U8) ∈ l) :
    ∃ s₁, respond ops s input = .ok (ascii "E", s₁) := by
  obtain ⟨p, hbuild⟩ := buildG_eq ops (s := s.asked input) hG.at_succ hl
  rw [if_pos hzero] at hbuild
  exact ⟨_, respond_of_builder hG hbuild rfl⟩

theorem respond_G (ops : SysOps ρ) (hG : input.Holds (0x47 :: l) post)
    (hl : l.length = regsStrBytes) (hzero : (0 : U8) ∉ l) :
    ∃ s₁, respond ops s input = .ok (ascii "OK", s₁) ∧
      s₁.target = overwritten ops l s.target s.selectedCore ∧
      s₁.selectedCore = s.selectedCore := by
  obtain ⟨p, hbuild⟩ := buildG_eq ops (s := s.asked input) hG.at_succ hl
  have htarget : overwritten ops l (s.asked input).target (s.asked input).selectedCore =
      overwritten ops l s.target s.selectedCore := rfl
  rw [if_neg hzero, htarget] at hbuild
  generalize overwritten ops l s.target s.selectedCore = t at hbuild
  exact ⟨_, respond_of_builder hG hbuild rfl, rfl, rfl⟩

/-- What a `G` packet that is answered `OK` has done, and what a `g` packet then replies. -/
theorem registerFile_replies (ops : SysOps ρ) (hG : input.Holds (0x47 :: l) post)
    (hl : l.length = regsStrBytes) (hok : respond ops s input = .ok (ascii "OK", s₁)) :
    (∀ n < regsNum, AllHex (regField l n) →
      (s₁.target.regs s.selectedCore (Fin.ofNat 44 n)).toNat = littleEndian (regField l n)) ∧
    (∀ core reg, (core = s.selectedCore → ∀ n < regsNum, reg = Fin.ofNat 44 n →
        ¬ AllHex (regField l n)) →
      s₁.target.regs core reg = s.target.regs core reg) ∧
    ∀ inputg postg, inputg.Holds [0x67] postg → ∃ reply s₂,
      respond ops s₁ inputg = .ok (reply, s₂) ∧ reply.length = regsStrBytes ∧
      ∀ n < regsNum, regField reply n = if AllHex (regField l n) then lower (regField l n)
        else regDigits (s.target.regs s.selectedCore (Fin.ofNat 44 n)) := by
  have hzero : (0 : U8) ∉ l := fun hmem => by
    obtain ⟨s₂, hended⟩ := respond_G_ended ops hG hl hmem
    cases hok.symm.trans hended
  obtain ⟨s₂, hresp, htarget, hselected⟩ := respond_G ops hG hl hzero
  obtain ⟨-, rfl⟩ := Prod.mk.inj (Except.ok.inj (hok.symm.trans hresp))
  have hfield (n) (hn : n < regsNum) := regs_overwritten ops s.target s.selectedCore hl hn
  simp only [← htarget] at hfield
  refine ⟨fun n hn hhex => ?_, fun core reg hnot => ?_, fun inputg postg hg => ?_⟩
  · have hlt := littleEndian_lt (n := regBytes) hhex (length_regField hl hn)
    rw [hfield n hn, if_pos hhex, BitVec.toNat_ofNat]
    exact Nat.mod_eq_of_lt hlt
  · by_cases hsome : core = s.selectedCore ∧ ∃ n < regsNum, reg = Fin.ofNat 44 n
    · obtain ⟨rfl, n, hn, rfl⟩ := hsome
      rw [hfield n hn, if_neg (hnot rfl n hn rfl)]
    · rw [htarget]
      exact regs_overwritten_other ops l s.target fun hcore n hn hreg =>
        hsome ⟨hcore, n, hn, hreg⟩
  · have hregs : (s₁.asked inputg).target.regs (s₁.asked inputg).selectedCore =
        s₁.target.regs s.selectedCore := by
      rw [← hselected]
      rfl
    obtain ⟨reply, hbuild, hlen, hreply⟩ := buildg_fields ops (s₁.asked inputg)
    refine ⟨reply, _, respond_of_builder hg hbuild rfl, hlen, fun n hn => ?_⟩
    rw [hreply n hn, hregs, hfield n hn]
    split
    · rename_i hhex
      exact regDigits_littleEndian hhex (length_regField hl hn)
    · rfl

/-- A value for register 1, the other fields being skipped. -/
theorem registerFile_replies_one :
    ∃ s₁, respond .idle (.init (.ofWords []) .reset) (packet (0x47 ::
        (ascii "xxxxxxxx78563412" ++ List.replicate 248 0x78))) = .ok (ascii "OK", s₁) ∧
      (s₁.target.regs 0 1).toNat = 0x12345678 ∧ s₁.target.regs 0 2 = 0 := by
  have hzero : (0 : U8) ∉ ascii "xxxxxxxx78563412" ++ List.replicate 248 0x78 := by
    intro hmem
    obtain hmem | hmem := List.mem_append.mp hmem
    · revert hmem
      decide
    · cases List.eq_of_mem_replicate hmem
  have hlen : (ascii "xxxxxxxx78563412" ++ List.replicate 248 0x78).length = regsStrBytes := by
    rw [List.length_append, List.length_replicate]
    rfl
  obtain ⟨s₁, hok, -⟩ := respond_G .idle (s := .init (.ofWords []) .reset) (packet_holds _) hlen
    hzero
  obtain ⟨hvalue, hothers, -⟩ := registerFile_replies .idle (packet_holds _) hlen hok
  refine ⟨s₁, hok, hvalue 1 (by decide) (by decide), ?_⟩
  refine (hothers 0 2 fun _ n hn hreg => ?_).trans rfl
  obtain rfl := ofNat_reg_inj (i := 2) (by decide) hn hreg
  decide

end

end SwitchV32
