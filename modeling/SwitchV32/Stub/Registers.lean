import SwitchV32.Stub.Fields
import SwitchV32.Stub.Reply

/-!
# Registers over packets

`P` reads its value as a number, `p` and `g` write the bytes of the register in
the order of memory.
-/

namespace SwitchV32

-- ---------------------------------------------------------------------------
-- Requests
-- ---------------------------------------------------------------------------

/-- The stub before the builder of a packet. -/
def Stub.asked {ρ : Type} (s : Stub ρ) (input : Pkt) : Stub ρ :=
  Stub.openResp { s.setInput input with output := .reset }

@[simp] theorem Stub.target_asked {ρ : Type} (s : Stub ρ) (input : Pkt) :
    (s.asked input).target = s.target := rfl

section
variable {ρ : Type} {ops : SysOps ρ} {s s₁ : Stub ρ} {input : Pkt} {cmd : U8}
variable {l post reply : List U8}

theorem respond_eq (ops : SysOps ρ) (s : Stub ρ) (h : input.Holds (cmd :: l) post) :
    respond ops s input = (do
      let s ← builder ops cmd (s.asked input)
      return (s.closeResp.output.payload, s.closeResp)) := by
  obtain ⟨pre, hdata, hstart, -⟩ := h
  have hread : input.read input.startPktData = .ok cmd := by
    rw [hstart]
    exact read_append_right (i := 0) hdata rfl
  have hresp : sadBuilderBuildResp ops { s.setInput input with output := .reset } = (do
      let cmd ← input.read input.startPktData
      let s ← builder ops cmd (s.asked input)
      return s.closeResp) := rfl
  simp only [respond, hresp, hread, ok_bind, bind_assoc, pure_bind]

theorem payload_closeResp (hout : s₁.output = (s.asked input).output.append reply) :
    s₁.closeResp.output.payload = reply := by
  have hdata : s₁.output.data = (s.asked input).output.data ++ reply := by
    rw [hout]
    rfl
  have hopen : s₁.output.startPktData = (s.asked input).output.data.length := by
    rw [hout]
    rfl
  have htake : s₁.closeResp.output.payload = ((s₁.output.data ++ ascii "#" ++ print02x _).take
      s₁.output.data.length).drop s₁.output.startPktData := rfl
  rw [htake, List.append_assoc, List.take_left, hopen, hdata, List.drop_left]

theorem respond_of_builder (h : input.Holds (cmd :: l) post)
    (hbuild : builder ops cmd (s.asked input) = .ok s₁)
    (hout : s₁.output = (s.asked input).output.append reply) :
    respond ops s input = .ok (reply, s₁.closeResp) := by
  rw [respond_eq ops s h, hbuild, ← payload_closeResp hout]
  rfl

theorem respond_of_append (h : input.Holds (cmd :: l) post)
    (hbuild : builder ops cmd (s.asked input) = .ok (s₁.append reply))
    (hout : s₁.output = (s.asked input).output) :
    respond ops s input = .ok (reply, (s₁.append reply).closeResp) :=
  respond_of_builder h hbuild (congrArg (Pkt.append · reply) hout)

theorem Pkt.Holds.at_succ (h : input.Holds (cmd :: l) post) :
    (s.asked input).input.At ((s.asked input).input.startPktData + 1) l :=
  Pkt.At.drop [cmd] h.at

end

-- ---------------------------------------------------------------------------
-- Digits of a register
-- ---------------------------------------------------------------------------

def lowerChar (c : U8) : U8 := if 0x41 ≤ c ∧ c ≤ 0x46 then c + 0x20 else c

def lower (l : List U8) : List U8 := l.map lowerChar

def reversePairs : List U8 → List U8
  | a :: b :: l => reversePairs l ++ [a, b]
  | _ => []

section
variable {c : U8} {d : Nat}

theorem isHex_val (h : isHex c = true) : ∃ d < 16, hexVal c = some d ∧ hexChar d = lowerChar c := by
  have hall : ∀ c : U8, isHex c = true →
      ∃ d < 16, hexVal c = some d ∧ hexChar d = lowerChar c := by decide
  exact hall c h

theorem reversePairs_append {u : List U8} (hu : u.length % 2 = 0) (a b : U8) :
    reversePairs (u ++ [a, b]) = [a, b] ++ reversePairs u := by
  induction u using reversePairs.induct with
  | case1 x y u ih =>
    simp only [List.length_cons] at hu
    simp only [List.cons_append, reversePairs, ih (by omega)]
    simp
  | case2 u hnot =>
    cases u with
    | nil => rfl
    | cons x u =>
      cases u with
      | nil => simp at hu
      | cons y u => exact absurd rfl (hnot x y u)

theorem bytesOf_succ (x : BitVec 64) (n : Nat) :
    bytesOf x (n + 1) = x.setWidth 8 :: bytesOf (x >>> 8) n := by
  simp only [bytesOf, List.range_succ_eq_map, List.map_cons, List.map_map]
  congr 1
  refine List.map_congr_left fun i _ => ?_
  simp only [Function.comp, Nat.mul_succ, ← BitVec.shiftRight_add, Nat.add_comm (8 * i)]

/-- The bytes of a number in memory are its digits with the bytes reversed. -/
theorem flatMap_bytesOf {n : Nat} {x : BitVec 64} {v : List U8} (hlen : v.length = 2 * n)
    (hhex : ∀ c ∈ v, isHex c = true) (hx : x.toNat % 256 ^ n = hexNat 0 v % 256 ^ n) :
    (bytesOf x n).flatMap hexPair = reversePairs (lower v) := by
  induction n generalizing x v with
  | zero =>
    obtain rfl := List.eq_nil_of_length_eq_zero hlen
    rfl
  | succ n ih =>
    obtain ⟨u, a, b, rfl⟩ : ∃ u a b, v = u ++ [a, b] := by
      obtain rfl | ⟨w, b, rfl⟩ := List.eq_nil_or_concat v
      · simp at hlen
      · obtain rfl | ⟨u, a, rfl⟩ := List.eq_nil_or_concat w
        · simp at hlen
          omega
        · exact ⟨u, a, b, by simp⟩
    have hu : ∀ c ∈ u, isHex c = true := fun c hc => hhex c (List.mem_append_left _ hc)
    have hlen' : u.length = 2 * n := by
      simp only [List.length_append, List.length_cons, List.length_nil] at hlen
      omega
    obtain ⟨da, hda, hvala, hchara⟩ := isHex_val (hhex a (by simp))
    obtain ⟨db, hdb, hvalb, hcharb⟩ := isHex_val (hhex b (by simp))
    have hnum : hexNat 0 (u ++ [a, b]) = 256 * hexNat 0 u + (16 * da + db) := by
      rw [hexNat_append hu]
      simp only [hexNat, hvala, hvalb]
      omega
    rw [hnum, Nat.pow_succ'] at hx
    have hlow : (x.setWidth 8).toNat = 16 * da + db := by
      rw [BitVec.toNat_setWidth]
      have hmod := congrArg (· % 256) hx
      simp only [Nat.mod_mul_right_mod] at hmod
      omega
    have hhigh : (x >>> 8).toNat % 256 ^ n = hexNat 0 u % 256 ^ n := by
      rw [BitVec.toNat_ushiftRight, Nat.shiftRight_eq_div_pow]
      have hdiv := congrArg (· / 256) hx
      simp only [Nat.mod_mul_right_div_self] at hdiv
      rw [hdiv]
      congr 1
      omega
    rw [bytesOf_succ, List.flatMap_cons, ih hlen' hu hhigh, hexPair_eq hdb hlow, hchara, hcharb]
    have hlower : lower (u ++ [a, b]) = lower u ++ [lowerChar a, lowerChar b] := by simp [lower]
    rw [hlower, reversePairs_append (by simp [lower]; omega)]

end

-- ---------------------------------------------------------------------------
-- `P`, `p` and `g`
-- ---------------------------------------------------------------------------

section
variable {ρ : Type} {ops : SysOps ρ} {s : Stub ρ} {input : Pkt} {n : Nat}
variable {digits v post : List U8}

theorem hexNat_lt {v : List U8} (hv : ∀ c ∈ v, isHex c = true) (n : Nat) :
    hexNat n v < (n + 1) * 16 ^ v.length := by
  induction v generalizing n with
  | nil => simp [hexNat]
  | cons c v ih =>
    obtain ⟨d, hd, hval, -⟩ := isHex_val (hv c List.mem_cons_self)
    simp only [hexNat, hval, List.length_cons, Nat.pow_succ']
    calc hexNat (16 * n + d) v
        < (16 * n + d + 1) * 16 ^ v.length := ih (fun c hc => hv c (List.mem_cons_of_mem _ hc)) _
      _ ≤ ((n + 1) * 16) * 16 ^ v.length := Nat.mul_le_mul_right _ (by omega)
      _ = (n + 1) * (16 * 16 ^ v.length) := Nat.mul_assoc ..

theorem flatMap_part {α : Type} {f : Nat → List α} {k m : Nat} (hf : ∀ i, (f i).length = k)
    (hn : n < m) : (((List.range m).flatMap f).drop (k * n)).take k = f n := by
  have hlen : ((List.range n).flatMap f).length = k * n := by
    simp [List.length_flatMap, hf, Nat.mul_comm]
  have hsplit : List.range m = List.range n ++ n :: List.range' (n + 1) (m - (n + 1)) := by
    obtain ⟨k, rfl⟩ : ∃ k, m = n + (k + 1) := ⟨m - (n + 1), by omega⟩
    have hk : n + (k + 1) - (n + 1) = k := by omega
    rw [List.range_add, hk, List.range_succ_eq_map, List.map_cons, Nat.add_zero]
    simp [List.range'_eq_map_range, Function.comp_def, Nat.add_comm, Nat.add_left_comm]
  rw [hsplit, List.flatMap_append, List.flatMap_cons, ← hlen, List.drop_left,
    ← hf n, List.take_left]

theorem readReg_writeReg (t : Target ρ) (v : BitVec 64) (core : Nat) :
    (t.writeReg v core n).readReg core n = (v.setWidth 32).setWidth 64 := by
  simp only [Target.readReg, Target.writeReg, Function.update_self]

theorem regs_writeReg (t : Target ρ) (v : BitVec 64) {core core' : Nat} {reg : Reg}
    (h : core' ≠ core ∨ reg ≠ Fin.ofNat 44 n) :
    (t.writeReg v core n).regs core' reg = t.regs core' reg := by
  simp only [Target.writeReg]
  by_cases hcore : core' = core
  · subst hcore
    obtain h | h := h
    · exact absurd rfl h
    · rw [Function.update_self, Function.update_of_ne h]
  · rw [Function.update_of_ne hcore]

theorem buildP_eq {m : Nat} (h : s.input.At (s.input.startPktData + 1) (digits ++ 0x3d :: v))
    (hd : Spells digits n) (hn : n < 33) (hv : Spells v m) (hm : m < 2 ^ 32) :
    ∃ p, buildP s = .ok ({ s.setInput p with
      target := s.target.writeReg (BitVec.ofNat 64 m) s.selectedCore n }.appendStr "OK") := by
  obtain ⟨cursor, p, hat, hreg⟩ := extractVal_number h checkUint32 hd (by decide)
    (by omega) (checkUint32_ofNat (by omega))
  obtain ⟨cursor', p', hval⟩ := extractVal_last (s := s.setInput p) hat checkUint64 hv
    (by omega) (checkUint64_ofNat (by omega))
  have hle : ¬ (n : Int).toNat ≥ regsNum := by
    simp only [Int.toNat_natCast, regsNum]
    omega
  refine ⟨p', ?_⟩
  rw [buildP, sadExtractUint32, hreg, sadExtractUint64, hval, if_neg hle]
  rfl

theorem buildp_eq (ops : SysOps ρ) (h : s.input.At (s.input.startPktData + 1) digits)
    (hd : Spells digits n) (hn : n < 33) :
    ∃ p, buildp ops s = .ok ((s.setInput p).append
      ((bytesOf (s.target.readReg s.selectedCore n) regBytes).flatMap hexPair)) := by
  obtain ⟨cursor, p, hreg⟩ := extractVal_last h checkUint32 hd (by omega)
    (checkUint32_ofNat (by omega))
  have hle : ¬ (n : Int).toNat ≥ regsNum := by
    simp only [Int.toNat_natCast, regsNum]
    omega
  have hchars : hexChars ops regStrBytes
      (bytesOf (s.target.readReg s.selectedCore n) regBytes) = _ :=
    hexChars_eq (by rw [length_bytesOf]; rfl)
  refine ⟨p, ?_⟩
  rw [buildp, sadExtractUint32, hreg, if_neg hle, ← hchars]
  rfl

theorem buildg_field (ops : SysOps ρ) (hn : n < 33) :
    ∃ reply, buildg ops s = .ok (s.append reply) ∧ (reply.drop (8 * n)).take 8 =
      (bytesOf (s.target.readReg s.selectedCore n) regBytes).flatMap hexPair := by
  refine ⟨_, rfl, ?_⟩
  rw [hexChars_eq (by rw [length_sadTargetReadRegs]; rfl), sadTargetReadRegs,
    List.flatMap_assoc]
  refine flatMap_part (fun i => ?_) hn
  rw [length_flatMap_hexPair, length_bytesOf]
  rfl

-- ---------------------------------------------------------------------------
-- One byte order
-- ---------------------------------------------------------------------------

/-- After `P n=v` both `p n` and the field of `n` in `g` reply with the digits, and no other
register has changed. -/
def KeepsDigits (ops : SysOps ρ) (s : Stub ρ) (n : Nat) (v : List U8) : Prop :=
  ∀ (digits digits' : List U8) (inputP inputp inputg : Pkt) (postP postp postg : List U8),
    Spells digits n → Spells digits' n → inputP.Holds (0x50 :: (digits ++ 0x3d :: v)) postP →
    inputp.Holds (0x70 :: digits') postp → inputg.Holds [0x67] postg →
    ∃ s₁, respond ops s inputP = .ok (ascii "OK", s₁) ∧
      (∃ s₂, respond ops s₁ inputp = .ok (lower v, s₂)) ∧
      (∃ reply s₂, respond ops s₁ inputg = .ok (reply, s₂) ∧
        (reply.drop (8 * n)).take 8 = lower v) ∧
      ∀ core reg, core ≠ s.selectedCore ∨ reg ≠ Fin.ofNat 44 n →
        s₁.target.regs core reg = s.target.regs core reg

theorem register_replies {digits' : List U8} {inputP inputp inputg : Pkt}
    {postP postp postg : List U8} (ops : SysOps ρ) (s : Stub ρ) (hn : n < 33)
    (hlen : v.length = 8) (hhex : ∀ c ∈ v, isHex c = true) (hd : Spells digits n)
    (hd' : Spells digits' n) (hP : inputP.Holds (0x50 :: (digits ++ 0x3d :: v)) postP)
    (hp : inputp.Holds (0x70 :: digits') postp) (hg : inputg.Holds [0x67] postg) :
    ∃ s₁ s₂ s₃ reply, respond ops s inputP = .ok (ascii "OK", s₁) ∧
      respond ops s₁ inputp = .ok (reversePairs (lower v), s₂) ∧
      respond ops s₁ inputg = .ok (reply, s₃) ∧
      (reply.drop (8 * n)).take 8 = reversePairs (lower v) ∧
      ∀ core reg, core ≠ s.selectedCore ∨ reg ≠ Fin.ofNat 44 n →
        s₁.target.regs core reg = s.target.regs core reg := by
  have hv : Spells v (hexNat 0 v) := by
    refine ⟨?_, hhex, rfl⟩
    rintro rfl
    cases hlen
  have hlt := hexNat_lt hhex 0
  rw [hlen] at hlt
  obtain ⟨p, hbuildP⟩ := buildP_eq hP.at_succ hd hn hv (by omega)
  have hrespP : respond ops s inputP = .ok (ascii "OK", _) := respond_of_builder hP hbuildP rfl
  have hshow : (bytesOf ((s.target.writeReg (BitVec.ofNat 64 (hexNat 0 v)) s.selectedCore
      n).readReg s.selectedCore n) regBytes).flatMap hexPair = reversePairs (lower v) := by
    refine flatMap_bytesOf hlen hhex ?_
    rw [readReg_writeReg, BitVec.toNat_setWidth, BitVec.toNat_setWidth, BitVec.toNat_ofNat]
    simp only [regBytes]
    omega
  generalize hs₁ : Stub.closeResp _ = s₁ at hrespP
  have htarget : s₁.target = s.target.writeReg (BitVec.ofNat 64 (hexNat 0 v)) s.selectedCore n := by
    rw [← hs₁]
    rfl
  have hselected : s₁.selectedCore = s.selectedCore := by
    rw [← hs₁]
    rfl
  obtain ⟨p', hbuildp⟩ := buildp_eq ops (s := s₁.asked inputp) hp.at_succ hd' hn
  obtain ⟨reply, hbuildg, hfield⟩ := buildg_field ops (s := s₁.asked inputg) hn
  have hregs : (s₁.asked inputp).target.readReg (s₁.asked inputp).selectedCore n =
      (s.target.writeReg (BitVec.ofNat 64 (hexNat 0 v)) s.selectedCore n).readReg
        s.selectedCore n := by
    rw [← htarget, ← hselected]
    rfl
  rw [hregs, hshow] at hbuildp
  have hrespp := respond_of_builder hp hbuildp rfl
  refine ⟨s₁, _, _, reply, hrespP, hrespp, respond_of_builder hg hbuildg rfl, ?_, ?_⟩
  · rw [hfield, ← hshow, ← hregs]
    rfl
  · intro core reg hne
    rw [htarget]
    exact regs_writeReg s.target _ hne

def packet (payload : List U8) : Pkt := ⟨0x24 :: (payload ++ [0x23]), 1, 1 + payload.length⟩

theorem packet_holds (payload : List U8) : (packet payload).Holds payload [] :=
  ⟨[0x24], rfl, rfl, rfl⟩

theorem spells_pair (h : n < 256) : Spells [hexChar (n / 16), hexChar (n % 16)] n where
  ne_nil := List.cons_ne_nil _ _
  hex c hc := by
    simp only [List.mem_cons, List.not_mem_nil, or_false] at hc
    obtain rfl | rfl := hc
    · exact isHex_hexChar (by omega)
    · exact isHex_hexChar (by omega)
  val := by
    have hhigh : hexVal (hexChar (n / 16)) = some (n / 16) := hexVal_hexChar (by omega)
    have hlow : hexVal (hexChar (n % 16)) = some (n % 16) := hexVal_hexChar (by omega)
    simp only [hexNat, hhigh, hlow]
    omega

theorem KeepsDigits.reverse (h : KeepsDigits ops s n v) (hn : n < 33) (hlen : v.length = 8)
    (hhex : ∀ c ∈ v, isHex c = true) : reversePairs (lower v) = lower v := by
  have hd : Spells [hexChar (n / 16), hexChar (n % 16)] n := spells_pair (by omega)
  obtain ⟨s₁, hrespP, ⟨s₂, hrespp⟩, -⟩ := h _ _ _ _ _ [] [] [] hd hd (packet_holds _)
    (packet_holds _) (packet_holds _)
  obtain ⟨s₁', s₂', -, -, hrespP', hrespp', -⟩ := register_replies ops s hn hlen hhex hd hd
    (packet_holds _) (packet_holds _) (packet_holds [0x67])
  cases hrespP.symm.trans hrespP'
  have heq := hrespp.symm.trans hrespp'
  simp only [Except.ok.injEq, Prod.mk.injEq] at heq
  exact heq.1.symm

/-- The register keeps its digits exactly if they are the same from the other side. -/
theorem keepsDigits_iff (ops : SysOps ρ) (s : Stub ρ) (hn : n < regsNum) (hlen : v.length = 8)
    (hhex : ∀ c ∈ v, isHex c = true) :
    KeepsDigits ops s n v ↔ reversePairs (lower v) = lower v := by
  constructor
  · exact fun hkeeps => hkeeps.reverse hn hlen hhex
  · intro heq digits digits' inputP inputp inputg postP postp postg hd hd' hP hp hg
    obtain ⟨s₁, s₂, s₃, reply, hrespP, hrespp, hrespg, hfield, hothers⟩ :=
      register_replies ops s hn hlen hhex hd hd' hP hp hg
    rw [heq] at hrespp hfield
    exact ⟨s₁, hrespP, ⟨s₂, hrespp⟩, ⟨reply, s₃, hrespg, hfield⟩, hothers⟩

/-- A byte palindrome, in register 1. -/
theorem keepsDigits_iff_palindrome :
    KeepsDigits .idle (.init (.ofWords []) .reset) 1 (ascii "A55a5aA5") := by
  have hhex : ∀ c ∈ ascii "A55a5aA5", isHex c = true := by decide
  exact (keepsDigits_iff .idle _ (by decide) rfl hhex).mpr (by decide)

/-- `P1=12345678` and `p1`. -/
theorem keepsDigits_fails :
    ¬ KeepsDigits .idle (.init (.ofWords []) .reset) 1 (ascii "12345678") := by
  intro h
  have heq := h.reverse (by decide) rfl (by decide)
  revert heq
  decide

end

end SwitchV32
