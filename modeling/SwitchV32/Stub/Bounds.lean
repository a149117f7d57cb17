import SwitchV32.Stub.Breakpoints
import SwitchV32.Stub.RegisterFile

/-!
# The end of guest memory over packets

`m` and `M` are refused from the last byte of memory on, and `M` does not look at
what the decoder says of its digits.
-/

namespace SwitchV32

/-- `m addr,length` -/
def ReadAt (addr length : Nat) (input : Pkt) : Prop :=
  ∃ da dl post, Spells da addr ∧ Spells dl length ∧ input.Holds (0x6d :: (da ++ 0x2c :: dl)) post

/-- `M addr,length:XX` -/
def WriteAt (addr length : Nat) (data : List U8) (input : Pkt) : Prop :=
  ∃ da dl post, Spells da addr ∧ Spells dl length ∧
    input.Holds (0x4d :: (da ++ 0x2c :: (dl ++ 0x3a :: data))) post

-- ---------------------------------------------------------------------------
-- The range
-- ---------------------------------------------------------------------------

section
variable {ρ : Type} {ops : SysOps ρ} {s s₁ : Stub ρ} {input : Pkt} {addr length cursor : Nat}
variable {da dl l data dest src : List U8} {term : Term} {rest : Option (List U8)}

theorem extractVal_range (next : Int → Int → Nat → Stub ρ → Except BuildFault (Stub ρ))
    (h : s.input.At cursor (da ++ 0x2c :: l)) (ha : Spells da addr) (hl : Spells dl length)
    (hfield : field term l = (dl, rest)) {x : Except BuildFault (Stub ρ)}
    (hx : x = extractVal sadExtractUint64 s cursor (some 0x2c) fun addr cursor s =>
      extractVal sadExtractUint64 s cursor term fun length cursor s =>
        if s.beyond addr length then return s.appendStr "E" else next addr length cursor s) :
    (addr + length < s.target.vmem.size ∧ ∃ cursor' p, (∀ l', rest = some l' → p.At cursor' l') ∧
      x = next addr length cursor' (s.setInput p)) ∨
    (s.target.vmem.size ≤ addr + length ∧ ∃ p, x = .ok ((s.setInput p).appendStr "E")) := by
  have hsize := s.target.vmem.size_le
  obtain ⟨cursor₁, p₁, hat, haddr⟩ := extractVal_spells checkUint64 (by decide) h ha
    (field_append (c := 0x2c) ha.ne_nil (ha.not_mem (by decide)))
  obtain ⟨cursor₂, p₂, hrest, hlength⟩ := extractVal_spells (s := s.setInput p₁) checkUint64
    (by decide) (hat _ rfl) hl hfield
  have hadmits (n : Nat) : n < 2 ^ 63 - 1 ∧ checkUint64 n = true ↔ n < 2 ^ 63 - 1 :=
    ⟨And.left, fun hlt => ⟨hlt, checkUint64_ofNat hlt⟩⟩
  simp only [sadExtractUint64, haddr, hlength, hadmits] at hx
  by_cases hlt : addr < 2 ^ 63 - 1
  · by_cases hlt' : length < 2 ^ 63 - 1
    · have hbeyond : ((s.setInput p₁).setInput p₂).beyond addr length =
          decide (s.target.vmem.size ≤ addr + length) := by
        have hsum : ((addr : Int) + length).toNat % 2 ^ 64 = addr + length := by omega
        simp only [Stub.beyond, hsum]
        rfl
      simp only [hlt, hlt', if_true, hbeyond, decide_eq_true_eq] at hx
      by_cases hin : addr + length < s.target.vmem.size
      · rw [if_neg (Nat.not_le_of_lt hin)] at hx
        exact .inl ⟨hin, cursor₂, p₂, hrest, hx⟩
      · rw [if_pos (Nat.le_of_not_lt hin)] at hx
        exact .inr ⟨Nat.le_of_not_lt hin, p₂, hx⟩
    · simp only [hlt, hlt', if_true, if_false] at hx
      exact .inr ⟨by omega, p₂, hx⟩
  · simp only [hlt, if_false] at hx
    exact .inr ⟨by omega, p₁, hx⟩

def readReply (ops : SysOps ρ) (addr length : Int) (_cursor : Nat) (s : Stub ρ) :
    Except BuildFault (Stub ρ) := do
  ops.allot (2 * length.toNat + length.toNat)
  let mem ← sysCall (s.target.readMem length.toNat addr.toNat)
  return s.append (hexChars ops (2 * length.toNat) mem)

theorem buildm_range (ops : SysOps ρ) (s : Stub ρ) :
    buildm ops s = extractVal sadExtractUint64 s (s.input.startPktData + 1) (some 0x2c)
      fun addr cursor s => extractVal sadExtractUint64 s cursor eob fun length cursor s =>
        if s.beyond addr length then return s.appendStr "E"
        else readReply ops addr length cursor s := rfl

theorem respond_m_beyond (ops : SysOps ρ) (h : ReadAt addr length input)
    (hout : s.target.vmem.size ≤ addr + length) :
    ∃ s₁, respond ops s input = .ok (ascii "E", s₁) ∧ s₁.target = s.target := by
  obtain ⟨da, dl, post, ha, hl, hholds⟩ := h
  obtain ⟨hin, -⟩ | ⟨-, p, hbuild⟩ := extractVal_range (readReply ops) hholds.at_succ ha hl
    field_eob (buildm_range ops (s.asked input))
  · exact absurd hin (Nat.not_lt_of_le hout)
  · exact ⟨_, respond_of_append hholds hbuild (by simp), by simp⟩

def writeReply (ops : SysOps ρ) (addr length : Int) (cursor : Nat) (s : Stub ρ) :
    Except BuildFault (Stub ρ) := do
  let (start, _, input) ← sadExtractStr s.input cursor eob
  let s := s.setInput input
  let memStr ← s.input.str start
  if memStr.length ≠ 2 * length.toNat then return s.appendStr "E"
  ops.allot length.toNat
  let (_, data) := sadHexStrToBytes (ops.array length.toNat) memStr
  let target ← sysCall (s.target.writeMem data addr.toNat)
  return { s with target }.appendStr "OK"

theorem buildM_range (ops : SysOps ρ) (s : Stub ρ) :
    buildM ops s = extractVal sadExtractUint64 s (s.input.startPktData + 1) (some 0x2c)
      fun addr cursor s => extractVal sadExtractUint64 s cursor (some 0x3a) fun length cursor s =>
        if s.beyond addr length then return s.appendStr "E"
        else writeReply ops addr length cursor s := rfl

theorem respond_M_beyond (ops : SysOps ρ) (h : WriteAt addr length data input)
    (hout : s.target.vmem.size ≤ addr + length) :
    ∃ s₁, respond ops s input = .ok (ascii "E", s₁) ∧ s₁.target = s.target := by
  obtain ⟨da, dl, post, ha, hl, hholds⟩ := h
  have hfield : field (some 0x3a) (dl ++ 0x3a :: data) = _ :=
    field_append hl.ne_nil (hl.not_mem (by decide))
  obtain ⟨hin, -⟩ | ⟨-, p, hbuild⟩ := extractVal_range (writeReply ops) hholds.at_succ ha hl
    hfield (buildM_range ops (s.asked input))
  · exact absurd hin (Nat.not_lt_of_le hout)
  · exact ⟨_, respond_of_append hholds hbuild (by simp), by simp⟩

theorem length_hexCharsLoop (src dest : List U8) (state : Bool) (tmpVal : U8) (bytesIdx : Nat) :
    (hexCharsLoop dest state tmpVal bytesIdx src).2.1.length = dest.length := by
  induction src generalizing dest state tmpVal bytesIdx with
  | nil => rfl
  | cons c src ih =>
    cases hval : hexVal c with
    | none => simp only [hexCharsLoop, hval]
    | some d =>
      simp only [hexCharsLoop, hval]
      split
      · exact ih ..
      · exact (ih ..).trans (List.length_set ..)

theorem length_sadHexStrToBytes (hsrc : src.length = 2 * dest.length) :
    (sadHexStrToBytes dest src).2.length = dest.length := by
  by_cases hhex : AllHex src
  · rw [sadHexStrToBytes_eq hhex hsrc, length_decodeHex hsrc]
  · have hfits : ¬ dest.length < (src.length + 1) / 2 := by omega
    have hloop := hexCharsLoop_x hhex dest (src.length % 2 == 0) 0 0
    have hlen := length_hexCharsLoop src dest (src.length % 2 == 0) 0 0
    simp only [sadHexStrToBytes, sadHexCharsToBytes, hfits, if_false]
    generalize hexCharsLoop dest (src.length % 2 == 0) 0 0 src = r at hloop hlen
    obtain ⟨ret, dest', idx⟩ := r
    obtain rfl : ret = .x := hloop
    exact hlen

theorem respond_M_data (ops : SysOps ρ) (h : WriteAt addr length data input)
    (hin : addr + length < s.target.vmem.size) (hdata : data.length = 2 * length) :
    ((0 : U8) ∈ data → ∃ s₁, respond ops s input = .ok (ascii "E", s₁) ∧ s₁.target = s.target) ∧
    ((0 : U8) ∉ data → (length ≤ ops.stackRoom → ∃ s₁, respond ops s input = .ok (ascii "OK", s₁)) ∧
      (¬ length ≤ ops.stackRoom → respond ops s input = .error .stack)) := by
  obtain ⟨da, dl, post, ha, hl, hholds⟩ := h
  have hfield : field (some 0x3a) (dl ++ 0x3a :: data) = _ :=
    field_append hl.ne_nil (hl.not_mem (by decide))
  obtain ⟨-, cursor, p, hrest, hbuild⟩ | ⟨hout, -⟩ := extractVal_range (writeReply ops)
    hholds.at_succ ha hl hfield (buildM_range ops (s.asked input))
  · obtain ⟨cursor', p', htoken, hcut⟩ := sadCursorTokenizer_at (hrest data rfl) eob
    have hstr : p'.str cursor = .ok (cString data) := by rw [hcut.str, field_eob]
    simp only [writeReply, sadExtractStr, Stub.input_setInput, htoken, ok_bind, hstr,
      Int.toNat_natCast, Stub.target_setInput] at hbuild
    refine ⟨fun hzero => ?_, fun hzero => ?_⟩
    · have hshort : (cString data).length ≠ 2 * length := hdata ▸ length_cString_ne hzero
      rw [if_pos hshort] at hbuild
      exact ⟨_, respond_of_append hholds hbuild (by simp), by simp⟩
    · have hlength : (sadHexStrToBytes (ops.array length) data).2.length = length := by
        rw [length_sadHexStrToBytes (by rw [length_array, hdata]), length_array]
      have hwrite : (s.asked input).target.writeMem
          (sadHexStrToBytes (ops.array length) data).2 addr = _ :=
        writeMem_eq (by rwa [hlength])
      rw [cString_of_not_mem hzero, if_neg (not_not.mpr hdata), hwrite] at hbuild
      obtain ⟨hok, hstack⟩ := respond_of_allot (ascii "OK") hholds hbuild rfl
      exact ⟨fun hroom => ⟨_, hok hroom⟩, hstack⟩
  · exact absurd hin (Nat.not_lt_of_le hout)

-- ---------------------------------------------------------------------------
-- Digits
-- ---------------------------------------------------------------------------

/-- `M` writes its bytes if its characters are digits, and else leaves memory alone and says so. -/
structure ChecksDigits (ops : SysOps ρ) (s : Stub ρ) (addr : Nat) (data : List U8) (input : Pkt) :
    Prop where
  written : AllHex data → ∃ s₁, respond ops s input = .ok (ascii "OK", s₁) ∧
    s₁.target.vmem.byte = (Overlay.mk addr (decodeHex data)).put s.target.vmem.byte
  refused : ¬ AllHex data → ∃ s₁, respond ops s input = .ok (ascii "E", s₁) ∧
    s₁.target.vmem = s.target.vmem

theorem not_E_and_OK (hE : respond ops s input = .ok (ascii "E", s₁)) {s₂ : Stub ρ}
    (hOK : respond ops s input = .ok (ascii "OK", s₂)) : False := by
  cases hE.symm.trans hOK

/-- The packet does it exactly if it ends below the last byte of memory with digits only that the
stack has room for, or is refused for another reason where it has other characters. -/
theorem checksDigits_iff (ops : SysOps ρ) (s : Stub ρ) (h : WriteAt addr length data input)
    (hin : addr + length ≤ s.target.vmem.size) (hdata : data.length = 2 * length) :
    ChecksDigits ops s addr data input ↔
      (AllHex data ∧ addr + length < s.target.vmem.size ∧ length ≤ ops.stackRoom) ∨
      (¬ AllHex data ∧ ((0 : U8) ∈ data ∨ addr + length = s.target.vmem.size)) := by
  obtain hlt | heq := Nat.lt_or_eq_of_le hin
  · obtain ⟨hended, hanswered⟩ := respond_M_data ops h hlt hdata
    have hne : addr + length ≠ s.target.vmem.size := Nat.ne_of_lt hlt
    by_cases hhex : AllHex data
    · obtain ⟨da, dl, post, ha, hl, hholds⟩ := h
      have hpacket : MemWrite.Packet s.target.vmem.size ⟨addr, length, data, hhex, hdata⟩ input :=
        ⟨hlt, da, dl, post, ha, hl, hholds⟩
      obtain ⟨hwritten, hstack⟩ := respond_M ops hpacket
      by_cases hroom : length ≤ ops.stackRoom
      · obtain ⟨s₁, hresp, htarget, -⟩ := hwritten hroom
        exact iff_of_true ⟨fun _ => ⟨s₁, hresp, by rw [htarget]; rfl⟩, fun hnot => absurd hhex hnot⟩
          (.inl ⟨hhex, hlt, hroom⟩)
      · refine iff_of_false (fun hchecks => ?_) (by simp [hhex, hroom])
        obtain ⟨s₁, hresp, -⟩ := hchecks.written hhex
        cases hresp.symm.trans (hstack hroom)
    · by_cases hzero : (0 : U8) ∈ data
      · obtain ⟨s₁, hresp, htarget⟩ := hended hzero
        exact iff_of_true ⟨fun h => absurd h hhex, fun _ => ⟨s₁, hresp, by rw [htarget]⟩⟩
          (.inr ⟨hhex, .inl hzero⟩)
      · obtain ⟨hok, hstack⟩ := hanswered hzero
        refine iff_of_false (fun hchecks => ?_) ?_
        · obtain ⟨s₂, hE, -⟩ := hchecks.refused hhex
          by_cases hroom : length ≤ ops.stackRoom
          · obtain ⟨s₁, hresp⟩ := hok hroom
            exact not_E_and_OK hE hresp
          · cases hE.symm.trans (hstack hroom)
        · rintro (⟨hall, -⟩ | ⟨-, hmem | heq⟩)
          · exact hhex hall
          · exact hzero hmem
          · exact hne heq
  · obtain ⟨s₁, hE, htarget⟩ := respond_M_beyond ops h (Nat.le_of_eq heq.symm)
    by_cases hhex : AllHex data
    · refine iff_of_false (fun hchecks => ?_) (by simp [hhex, heq])
      obtain ⟨s₂, hOK, -⟩ := hchecks.written hhex
      exact not_E_and_OK hE hOK
    · exact iff_of_true ⟨fun h => absurd h hhex, fun _ => ⟨s₁, hE, by rw [htarget]⟩⟩
        (.inr ⟨hhex, .inr heq⟩)

theorem writeAt_packet {digits : List U8} (ha : addr < 256) (hl : length < 256) :
    WriteAt addr length digits (packet (0x4d :: ([hexChar (addr / 16), hexChar (addr % 16)] ++
      0x2c :: ([hexChar (length / 16), hexChar (length % 16)] ++ 0x3a :: digits)))) :=
  ⟨_, _, [], spells_pair ha, spells_pair hl, packet_holds _⟩

/-- Two bytes at address 4. -/
theorem checksDigits_iff_digits :
    ChecksDigits .idle (.init (.ofWords []) .reset) 4 (ascii "A1b2")
      (packet (ascii "M04,02:A1b2")) := by
  have hM : WriteAt 4 2 (ascii "A1b2") (packet (ascii "M04,02:A1b2")) :=
    writeAt_packet (by decide) (by decide)
  exact (checksDigits_iff .idle _ hM (by decide) rfl).mpr (.inl ⟨by decide, by decide, by decide⟩)

/-- Two characters that are no digits, answered `OK`. -/
theorem checksDigits_fails :
    ¬ ChecksDigits .idle (.init (.ofWords []) .reset) 4 (ascii "zz")
      (packet (ascii "M04,01:zz")) := by
  intro hchecks
  have hM : WriteAt 4 1 (ascii "zz") (packet (ascii "M04,01:zz")) :=
    writeAt_packet (by decide) (by decide)
  obtain ⟨-, hanswered⟩ := respond_M_data .idle (s := .init (.ofWords []) .reset) hM (by decide) rfl
  obtain ⟨s₁, hok⟩ := (hanswered (by decide)).1 (by decide)
  obtain ⟨s₂, hE, -⟩ := hchecks.refused (by decide)
  exact not_E_and_OK hE hok

-- ---------------------------------------------------------------------------
-- The last byte
-- ---------------------------------------------------------------------------

/-- A request for a range of memory: `m`, or `M` with two digits for each byte. -/
inductive RangeRequest (addr length : Nat) (input : Pkt) : Type
  | read (h : ReadAt addr length input)
  | write (data : List U8) (hex : AllHex data) (length_eq : data.length = 2 * length)
      (h : WriteAt addr length data input)

namespace RangeRequest

/-- The size of the arrays that the builder puts on the stack for the range. -/
def arrays : RangeRequest addr length input → Nat
  | .read _ => 3 * length
  | .write _ _ _ _ => length

/-- The digits of the range are in the reply, or the bytes are in memory. -/
def CarriedOut (ops : SysOps ρ) (s : Stub ρ) : RangeRequest addr length input → Prop
  | .read _ => ∃ s₁, respond ops s input = .ok
      (((List.range length).map fun i => s.target.vmem.byte (addr + i)).flatMap hexPair, s₁) ∧
      s₁.target = s.target
  | .write data _ _ _ => ∃ s₁, respond ops s input = .ok (ascii "OK", s₁) ∧
      s₁.target.vmem.byte = (Overlay.mk addr (decodeHex data)).put s.target.vmem.byte

/-- It is carried out if the range is in memory, and refused otherwise. -/
structure Bounded (ops : SysOps ρ) (s : Stub ρ) (r : RangeRequest addr length input) : Prop where
  carriedOut : r.CarriedOut ops s ↔ addr + length ≤ s.target.vmem.size
  refused : ¬ addr + length ≤ s.target.vmem.size → ∃ s₁,
    respond ops s input = .ok (ascii "E", s₁) ∧ s₁.target = s.target

theorem carriedOut_iff (ops : SysOps ρ) (r : RangeRequest addr length input)
    (hlt : addr + length < s.target.vmem.size) :
    r.CarriedOut ops s ↔ r.arrays ≤ ops.stackRoom := by
  cases r with
  | read h =>
    obtain ⟨da, dl, post, ha, hl, hholds⟩ := h
    obtain ⟨p, hbuild⟩ := buildm_eq ops (s := s.asked input) hlt ha hl hholds.at_succ
    obtain ⟨hok, hstack⟩ := respond_of_allot _ hholds hbuild rfl
    refine ⟨fun ⟨s₁, hresp, _⟩ => ?_, fun hroom => ⟨_, hok hroom, by simp⟩⟩
    by_contra hroom
    cases hresp.symm.trans (hstack hroom)
  | write data hex length_eq h =>
    obtain ⟨da, dl, post, ha, hl, hholds⟩ := h
    have hpacket : MemWrite.Packet s.target.vmem.size ⟨addr, length, data, hex, length_eq⟩ input :=
      ⟨hlt, da, dl, post, ha, hl, hholds⟩
    obtain ⟨hwritten, hstack⟩ := respond_M ops hpacket
    refine ⟨fun ⟨s₁, hresp, _⟩ => ?_, fun hroom => ?_⟩
    · by_contra hroom
      cases hresp.symm.trans (hstack hroom)
    · obtain ⟨s₁, hresp, htarget, -⟩ := hwritten hroom
      exact ⟨s₁, hresp, by rw [htarget]; rfl⟩

theorem respond_beyond (ops : SysOps ρ) (r : RangeRequest addr length input)
    (hle : s.target.vmem.size ≤ addr + length) :
    ∃ s₁, respond ops s input = .ok (ascii "E", s₁) ∧ s₁.target = s.target := by
  cases r with
  | read h => exact respond_m_beyond ops h hle
  | write data hex length_eq h => exact respond_M_beyond ops h hle

theorem not_carriedOut (r : RangeRequest addr length input)
    (hE : respond ops s input = .ok (ascii "E", s₁)) : ¬ r.CarriedOut ops s := by
  intro hcarried
  cases r with
  | read h =>
    obtain ⟨s₂, hresp, -⟩ := hcarried
    have hreply := (Prod.mk.inj (Except.ok.inj (hE.symm.trans hresp))).1
    have hlength := congrArg List.length hreply
    rw [length_flatMap_hexPair] at hlength
    have hone : (ascii "E").length = 1 := rfl
    omega
  | write data hex length_eq h =>
    obtain ⟨s₂, hOK, -⟩ := hcarried
    exact not_E_and_OK hE hOK

end RangeRequest

/-- The sum of two numbers that the parser lets through does not wrap. -/
theorem sum_lt {v w : Int} (hv : checkUint64 v = true) (hw : checkUint64 w = true)
    (hv' : v ≤ longMax) (hw' : w ≤ longMax) : 0 ≤ v + w ∧ v + w < 2 ^ 64 := by
  simp only [checkUint64, longMax] at hv hw hv' hw'
  simp at hv hw
  omega

theorem strtol16_le (str : List U8) : strtol16 str ≤ longMax := by
  simp only [strtol16, longMax, longMin]
  split
  · omega
  · omega

/-- A request is bounded by memory exactly if it does not end at its last byte and, where it ends
below, the stack has room for its arrays; no sum wraps. -/
theorem bounded_iff (ops : SysOps ρ) (s : Stub ρ) (r : RangeRequest addr length input) :
    (∀ str str', checkUint64 (strtol16 str) = true → checkUint64 (strtol16 str') = true →
      0 ≤ strtol16 str + strtol16 str' ∧ strtol16 str + strtol16 str' < 2 ^ 64) ∧
    (r.Bounded ops s ↔ addr + length ≠ s.target.vmem.size ∧
      (addr + length < s.target.vmem.size → r.arrays ≤ ops.stackRoom)) := by
  refine ⟨fun str str' hv hw => sum_lt hv hw (strtol16_le str) (strtol16_le str'), ?_⟩
  by_cases hlt : addr + length < s.target.vmem.size
  · have hcarried := r.carriedOut_iff ops hlt
    have hle : addr + length ≤ s.target.vmem.size := Nat.le_of_lt hlt
    constructor
    · exact fun hbounded =>
        ⟨Nat.ne_of_lt hlt, fun _ => hcarried.mp (hbounded.carriedOut.mpr hle)⟩
    · rintro ⟨-, hroom⟩
      exact ⟨iff_of_true (hcarried.mpr (hroom hlt)) hle, fun hnot => absurd hle hnot⟩
  · have hE := r.respond_beyond ops (Nat.le_of_not_lt hlt)
    obtain ⟨s₁, hresp, -⟩ := id hE
    have hnot := r.not_carriedOut hresp
    constructor
    · refine fun hbounded => ⟨fun heq => ?_, fun h => absurd h hlt⟩
      exact hnot (hbounded.carriedOut.mpr (Nat.le_of_eq heq))
    · rintro ⟨hne, -⟩
      have hgt : ¬ addr + length ≤ s.target.vmem.size := by omega
      exact ⟨iff_of_false hnot hgt, fun _ => hE⟩

/-- The first bytes of memory. -/
theorem bounded_iff_first :
    ∃ r : RangeRequest 0 4 (packet (ascii "m0,4")),
      r.Bounded .idle (.init (.ofWords []) .reset) := by
  have haddr : Spells (ascii "0") 0 := ⟨by decide, by decide, rfl⟩
  have hlength : Spells (ascii "4") 4 := ⟨by decide, by decide, rfl⟩
  exact ⟨.read ⟨_, _, [], haddr, hlength, packet_holds _⟩,
    (bounded_iff .idle _ _).2.mpr ⟨by decide, fun _ => show 3 * 4 ≤ 0x800000 by decide⟩⟩

/-- The last word of memory. -/
theorem bounded_fails :
    ∃ r : RangeRequest 0xffc 4 (packet (ascii "mffc,4")),
      ¬ r.Bounded .idle (.init (.ofWords []) .reset) := by
  have haddr : Spells (ascii "ffc") 0xffc := ⟨by decide, by decide, rfl⟩
  have hlength : Spells (ascii "4") 4 := ⟨by decide, by decide, rfl⟩
  have hread : ReadAt 0xffc 4 (packet (ascii "mffc,4")) :=
    ⟨_, _, [], haddr, hlength, packet_holds _⟩
  refine ⟨.read hread, fun hbounded => ?_⟩
  obtain ⟨s₁, hE, -⟩ := respond_m_beyond .idle (s := .init (.ofWords []) .reset) hread (by decide)
  exact RangeRequest.not_carriedOut (.read hread) hE (hbounded.carriedOut.mpr (by decide))

end

end SwitchV32
