import SwitchV32.Overlay
import SwitchV32.Stub.Registers

/-!
# Guest memory over packets

`M` decodes its digits into an array and copies that over guest memory, `m`
encodes what is there.
-/

namespace SwitchV32

-- ---------------------------------------------------------------------------
-- The decoder
-- ---------------------------------------------------------------------------

def decodeHex : List U8 → List U8
  | a :: b :: l => BitVec.ofNat 8 (hexNat 0 [a, b]) :: decodeHex l
  | _ => []

section
variable {src rest front : List U8} {n : Nat}

theorem exists_pair (h : src.length = 2 * (n + 1)) :
    ∃ a b l, src = a :: b :: l ∧ l.length = 2 * n := by
  obtain ⟨a, src, rfl⟩ := List.exists_cons_of_length_eq_add_one (n := 2 * n + 1) h
  obtain ⟨b, l, rfl⟩ := List.exists_cons_of_length_eq_add_one (n := 2 * n) (Nat.succ.inj h)
  refine ⟨a, b, l, rfl, ?_⟩
  simp only [List.length_cons] at h
  omega

theorem length_decodeHex (h : src.length = 2 * n) : (decodeHex src).length = n := by
  induction n generalizing src with
  | zero =>
    obtain rfl : src = [] := List.length_eq_zero_iff.mp h
    rfl
  | succ n ih =>
    obtain ⟨a, b, l, rfl, hl⟩ := exists_pair h
    rw [decodeHex, List.length_cons, ih hl]

theorem nibbles_eq {d e : Nat} (hd : d < 16) (he : e < 16) :
    (BitVec.ofNat 8 d <<< 4 : U8) + BitVec.ofNat 8 e = BitVec.ofNat 8 (16 * d + e) := by
  have hall : ∀ d < 16, ∀ e < 16,
      (BitVec.ofNat 8 d <<< 4 : U8) + BitVec.ofNat 8 e = BitVec.ofNat 8 (16 * d + e) := by decide
  exact hall d hd e he

/-- From a first digit on, the loop fills the array pair by pair. -/
theorem hexCharsLoop_eq (hhex : ∀ c ∈ src, isHex c = true) (hsrc : src.length = 2 * rest.length)
    (tmpVal : U8) :
    hexCharsLoop (front ++ rest) true tmpVal front.length src =
      (.ok, front ++ decodeHex src, front.length + rest.length) := by
  induction rest generalizing src front tmpVal with
  | nil =>
    obtain rfl : src = [] := List.length_eq_zero_iff.mp hsrc
    rfl
  | cons r rest ih =>
    obtain ⟨a, b, src, rfl, hlen⟩ := exists_pair hsrc
    obtain ⟨d, hd, hvala, -⟩ := isHex_val (hhex a (by simp))
    obtain ⟨e, he, hvalb, -⟩ := isHex_val (hhex b (by simp))
    have hpair : hexNat 0 [a, b] = 16 * d + e := by simp [hexNat, hvala, hvalb]
    -- the bytes that are done, with the one of this pair
    generalize hfront : front ++ [BitVec.ofNat 8 (16 * d + e)] = front'
    have hset : (front ++ r :: rest).set front.length (BitVec.ofNat 8 (16 * d + e)) =
        front' ++ rest := by simp [← hfront]
    have hidx : front.length + 1 = front'.length := by simp [← hfront]
    have hrest (tmpVal) : hexCharsLoop (front' ++ rest) true tmpVal front'.length src = _ :=
      ih (fun c hc => hhex c (by simp [hc])) hlen tmpVal
    simp only [hexCharsLoop, hvala, hvalb, Bool.not_true, Bool.not_false, if_true,
      Bool.false_eq_true, if_false, nibbles_eq hd he, hset, hidx, hrest, decodeHex, hpair]
    simp [← hfront, Nat.add_assoc, Nat.add_comm 1]

theorem sadHexStrToBytes_eq {dest : List U8} (hhex : ∀ c ∈ src, isHex c = true)
    (hsrc : src.length = 2 * dest.length) :
    sadHexStrToBytes dest src = (.ok, decodeHex src) := by
  have hfits : ¬ dest.length < (src.length + 1) / 2 := by omega
  have heven : (src.length % 2 == 0) = true := by
    rw [hsrc]
    simp
  have hloop :
      hexCharsLoop ([] ++ dest) true 0 0 src = (.ok, [] ++ decodeHex src, 0 + dest.length) :=
    hexCharsLoop_eq hhex hsrc 0
  simp only [List.nil_append, Nat.zero_add] at hloop
  have htake : (decodeHex src).take dest.length = decodeHex src := by
    rw [List.take_of_length_le (Nat.le_of_eq (length_decodeHex hsrc))]
  simp only [sadHexStrToBytes, sadHexCharsToBytes, hfits, if_false, heven, hloop,
    length_decodeHex hsrc, htake, Nat.sub_self, List.replicate_zero, List.append_nil]

end

-- ---------------------------------------------------------------------------
-- The packets
-- ---------------------------------------------------------------------------

/-- What an `M` packet says: two digits for each byte. -/
structure MemWrite where
  addr : Nat
  length : Nat
  digits : List U8
  hex : ∀ c ∈ digits, isHex c = true
  length_eq : digits.length = 2 * length

def MemWrite.overlay (w : MemWrite) : Overlay U8 := ⟨w.addr, decodeHex w.digits⟩

/-- `M addr,length:XX` within a memory of `size` bytes. -/
structure MemWrite.Packet (size : Nat) (w : MemWrite) (input : Pkt) : Prop where
  inside : w.addr + w.length < size
  holds : ∃ da dl post, Spells da w.addr ∧ Spells dl w.length ∧
    input.Holds (0x4d :: (da ++ 0x2c :: (dl ++ 0x3a :: w.digits))) post

/-- `m addr,length` within a memory of `size` bytes. -/
structure ReadPacket (size addr length : Nat) (input : Pkt) : Prop where
  inside : addr + length < size
  holds : ∃ da dl post, Spells da addr ∧ Spells dl length ∧
    input.Holds (0x6d :: (da ++ 0x2c :: dl)) post

section
variable {ρ : Type} {ops : SysOps ρ} {s : Stub ρ} {addr length : Nat} {input : Pkt}

theorem beyond_ofNat (h : addr + length < s.target.vmem.size) :
    s.beyond addr length = false := by
  have hsize := s.target.vmem.size_le
  simp only [Stub.beyond]
  simp
  omega

theorem writeMem_eq {t : Target ρ} {data : List U8} (h : addr + data.length < t.vmem.size) :
    t.writeMem data addr = .ok { t with
      vmem := { t.vmem with byte := (Overlay.mk addr data).put t.vmem.byte } } := by
  have hsize := t.vmem.size_le
  have hmod : addr % 2 ^ 32 = addr := Nat.mod_eq_of_lt (by omega)
  have hbyte : (Overlay.mk addr data).put t.vmem.byte = fun k =>
      if addr ≤ k ∧ k < addr + data.length then data.getD (k - addr) 0 else t.vmem.byte k := by
    funext k
    by_cases hcovers : (Overlay.mk addr data).Covers k
    · have hrange : addr ≤ k ∧ k < addr + data.length := hcovers
      rw [Overlay.put, if_pos hcovers, if_pos hrange]
      exact hcovers.getD _ _
    · have hrange : ¬ (addr ≤ k ∧ k < addr + data.length) := hcovers
      rw [Overlay.put, if_neg hcovers, if_neg hrange]
  simp only [Target.writeMem, hmod, if_pos (Nat.le_of_lt h), hbyte]

theorem readMem_eq {t : Target ρ} (h : addr + length < t.vmem.size) :
    t.readMem length addr = .ok ((List.range length).map fun i => t.vmem.byte (addr + i)) := by
  have hsize := t.vmem.size_le
  have hmod : addr % 2 ^ 32 = addr := Nat.mod_eq_of_lt (by omega)
  simp only [Target.readMem, hmod, if_pos (Nat.le_of_lt h)]

theorem buildM_eq {w : MemWrite} {da dl : List U8} (ops : SysOps ρ)
    (hin : w.addr + w.length < s.target.vmem.size)
    (hda : Spells da w.addr) (hdl : Spells dl w.length)
    (h : s.input.At (s.input.startPktData + 1) (da ++ 0x2c :: (dl ++ 0x3a :: w.digits))) :
    ∃ p, buildM ops s = (do
      ops.allot w.length
      return { s.setInput p with
        target := { s.target with vmem := { s.target.vmem with
          byte := w.overlay.put s.target.vmem.byte } } }.appendStr "OK") := by
  have hsize := s.target.vmem.size_le
  obtain ⟨cursor, p, hat, haddr⟩ := extractVal_number h checkUint64 hda (by decide) (by omega)
    (checkUint64_ofNat (by omega))
  obtain ⟨cursor', p', hat', hlength⟩ := extractVal_number (s := s.setInput p) hat checkUint64 hdl
    (by decide) (by omega) (checkUint64_ofNat (by omega))
  obtain ⟨cursor'', p'', htoken, hcut⟩ := sadCursorTokenizer_at hat' eob
  have hstr : p''.str cursor' = .ok w.digits := by
    rw [hcut.str, field_eob, cString_of_not_mem]
    exact fun hmem => (isHex_cases (w.hex 0 hmem)).2.2.2.2.2 rfl
  have hdecode : sadHexStrToBytes (ops.array w.length) w.digits = (.ok, decodeHex w.digits) :=
    sadHexStrToBytes_eq w.hex (by rw [length_array, w.length_eq])
  have hwrite : s.target.writeMem (decodeHex w.digits) w.addr = _ :=
    writeMem_eq (by rwa [length_decodeHex w.length_eq])
  have hbeyond : ((s.setInput p).setInput p').beyond w.addr w.length = false := beyond_ofNat hin
  have hdigits : ¬ w.digits.length ≠ 2 * w.length := not_not.mpr w.length_eq
  refine ⟨p'', ?_⟩
  rw [buildM, sadExtractUint64, haddr, hlength, hbeyond]
  simp only [Bool.false_eq_true, if_false, sadExtractStr, Stub.input_setInput, htoken, ok_bind,
    Stub.target_setInput, hstr, Int.toNat_natCast, hdigits, hdecode, hwrite]
  rfl

theorem buildm_eq {da dl : List U8} (ops : SysOps ρ) (hin : addr + length < s.target.vmem.size)
    (hda : Spells da addr) (hdl : Spells dl length)
    (h : s.input.At (s.input.startPktData + 1) (da ++ 0x2c :: dl)) :
    ∃ p, buildm ops s = (do
      ops.allot (3 * length)
      return (s.setInput p).append
        (((List.range length).map fun i => s.target.vmem.byte (addr + i)).flatMap hexPair)) := by
  have hsize := s.target.vmem.size_le
  obtain ⟨cursor, p, hat, haddr⟩ := extractVal_number h checkUint64 hda (by decide) (by omega)
    (checkUint64_ofNat (by omega))
  obtain ⟨cursor', p', hlength⟩ := extractVal_last (s := s.setInput p) hat checkUint64 hdl
    (by omega) (checkUint64_ofNat (by omega))
  have hbeyond : ((s.setInput p).setInput p').beyond addr length = false := beyond_ofNat hin
  have hread : s.target.readMem length addr = _ := readMem_eq hin
  have hallot : 2 * length + length = 3 * length := by omega
  refine ⟨p', ?_⟩
  rw [buildm, sadExtractUint64, haddr, hlength, hbeyond]
  simp only [Bool.false_eq_true, if_false, Int.toNat_natCast, hallot, Stub.target_setInput, hread]
  have hchars : hexChars ops (2 * length)
      ((List.range length).map fun i => s.target.vmem.byte (addr + i)) = _ := hexChars_eq (by simp)
  rw [← hchars]
  rfl

-- ---------------------------------------------------------------------------
-- Requests
-- ---------------------------------------------------------------------------

/-- Accepted packets one after the other: the replies, and the stub after them. -/
def requests (ops : SysOps ρ) (s : Stub ρ) :
    List Pkt → Except BuildFault (List (List U8) × Stub ρ)
  | [] => return ([], s)
  | input :: inputs => do
    let (reply, s) ← respond ops s input
    let (replies, s) ← requests ops s inputs
    return (reply :: replies, s)

theorem respond_of_allot {cmd : U8} {l post : List U8} {n : Nat} {s₁ : Stub ρ} (reply : List U8)
    (h : input.Holds (cmd :: l) post)
    (hbuild : builder ops cmd (s.asked input) = (do
      ops.allot n
      return s₁))
    (hout : s₁.output = (s.asked input).output.append reply) :
    (n ≤ ops.stackRoom → respond ops s input = .ok (reply, s₁.closeResp)) ∧
      (¬ n ≤ ops.stackRoom → respond ops s input = .error .stack) := by
  refine ⟨fun hroom => ?_, fun hroom => ?_⟩
  · rw [ops.allot_ok hroom] at hbuild
    exact respond_of_builder h hbuild hout
  · rw [ops.allot_stack hroom] at hbuild
    rw [respond_eq ops s h, hbuild]
    rfl

theorem respond_M {w : MemWrite} (ops : SysOps ρ) (h : w.Packet s.target.vmem.size input) :
    (w.length ≤ ops.stackRoom → ∃ s₁, respond ops s input = .ok (ascii "OK", s₁) ∧
      s₁.target = { s.target with vmem := { s.target.vmem with
        byte := w.overlay.put s.target.vmem.byte } } ∧ s₁.breakpoints = s.breakpoints) ∧
    (¬ w.length ≤ ops.stackRoom → respond ops s input = .error .stack) := by
  obtain ⟨da, dl, post, hda, hdl, hholds⟩ := h.holds
  obtain ⟨p, hbuild⟩ := buildM_eq ops (s := s.asked input) h.inside hda hdl hholds.at_succ
  obtain ⟨hok, hstack⟩ := respond_of_allot (ascii "OK") hholds hbuild rfl
  exact ⟨fun hroom => ⟨_, hok hroom, rfl, rfl⟩, hstack⟩

theorem respond_m (ops : SysOps ρ) (h : ReadPacket s.target.vmem.size addr length input) :
    (3 * length ≤ ops.stackRoom → ∃ s₁, respond ops s input = .ok
        ((List.range length).flatMap (fun i =>
          let v := s.target.vmem.byte (addr + i)
          [hexChar (v.toNat / 16), hexChar (v.toNat % 16)]), s₁) ∧
      s₁.target = s.target ∧ s₁.breakpoints = s.breakpoints) ∧
    (¬ 3 * length ≤ ops.stackRoom → respond ops s input = .error .stack) := by
  obtain ⟨da, dl, post, hda, hdl, hholds⟩ := h.holds
  obtain ⟨p, hbuild⟩ := buildm_eq ops (s := s.asked input) h.inside hda hdl hholds.at_succ
  have hpair (v : U8) : hexPair v = [hexChar (v.toNat / 16), hexChar (v.toNat % 16)] :=
    hexPair_eq (by omega) (by omega)
  obtain ⟨hok, hstack⟩ := respond_of_allot _ hholds hbuild rfl
  have htarget : (s.asked input).target = s.target := rfl
  simp only [List.flatMap_map, hpair, htarget] at hok
  refine ⟨fun hroom => ⟨_, hok hroom, ?_, ?_⟩, hstack⟩
  · rw [Stub.target_closeResp]
    rfl
  · rfl

end

end SwitchV32
