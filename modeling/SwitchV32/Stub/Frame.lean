import SwitchV32.Stub.Parser

/-!
# Frames and the parser

The frame of a payload in acknowledgement mode is accepted by a parser that was
reset, with that payload, over any sequence of reads.
-/

namespace SwitchV32

def byteTotal (l : List U8) : Nat := (l.map BitVec.toNat).sum

/-- `+$`, the payload, `#` and two lowercase digits of the sum of its bytes modulo 256. -/
def frame (payload : List U8) : List U8 :=
  [0x2b, 0x24] ++ payload ++
    [0x23, hexChar (byteTotal payload % 256 / 16), hexChar (byteTotal payload % 16)]

-- ---------------------------------------------------------------------------
-- The checksum
-- ---------------------------------------------------------------------------

section
variable {l digits rest : List U8} {n : Nat}

theorem byteSum_eq (sum : U32) :
    (l.foldl (fun sum b => sum + b.setWidth 32) sum).toNat =
      (sum.toNat + byteTotal l) % 2 ^ 32 := by
  induction l generalizing sum with
  | nil => simp [byteTotal, Nat.mod_eq_of_lt sum.isLt]
  | cons b l ih =>
    have hb := b.isLt
    rw [List.foldl_cons, ih, BitVec.toNat_add, BitVec.toNat_setWidth,
      Nat.mod_eq_of_lt (a := b.toNat) (by omega), Nat.mod_add_mod]
    simp only [byteTotal, List.map_cons, List.sum_cons, Nat.add_assoc]

theorem checksum_eq : (checksum l).toNat = byteTotal l % 256 := by
  have hsum := byteSum_eq (l := l) 0
  have hand : (255 : U32).toNat = 2 ^ 8 - 1 := rfl
  rw [checksum, BitVec.toNat_setWidth, BitVec.toNat_and, hand, Nat.and_two_pow_sub_one_eq_mod,
    byteSum, hsum]
  have hzero : (0 : U32).toNat = 0 := rfl
  rw [hzero]
  omega

-- ---------------------------------------------------------------------------
-- Numbers in hex
-- ---------------------------------------------------------------------------

theorem isHex_hexChar (h : n < 16) : isHex (hexChar n) = true := by
  rw [isHex, hexVal_hexChar h]
  rfl

theorem isHex_cases {c : U8} (h : isHex c = true) :
    isSpace c = false ∧ c ≠ 0x2d ∧ c ≠ 0x2b ∧ c ≠ 0x78 ∧ c ≠ 0x58 ∧ c ≠ 0 := by
  have hall : ∀ c : U8, isHex c = true →
      isSpace c = false ∧ c ≠ 0x2d ∧ c ≠ 0x2b ∧ c ≠ 0x78 ∧ c ≠ 0x58 ∧ c ≠ 0 := by decide
  exact hall c h

theorem hexNat_append {u w : List U8} (hu : ∀ c ∈ u, isHex c = true) (n : Nat) :
    hexNat n (u ++ w) = hexNat (hexNat n u) w := by
  induction u generalizing n with
  | nil => rfl
  | cons c u ih =>
    obtain ⟨d, hval⟩ := Option.isSome_iff_exists.mp (hu c List.mem_cons_self)
    simp only [List.cons_append, hexNat, hval]
    exact ih (fun c hc => hu c (List.mem_cons_of_mem _ hc)) _

theorem skipBase_append (hne : digits ≠ []) (hhex : ∀ b ∈ digits, isHex b = true)
    (hrest : ∀ b ∈ rest.head?, b = 0x3b) : skipBase (digits ++ rest) = digits ++ rest := by
  obtain ⟨d, digits, rfl⟩ := List.exists_cons_of_ne_nil hne
  have hsecond : ∀ b ∈ (digits ++ rest).head?, b ≠ 0x78 ∧ b ≠ 0x58 := by
    intro b hb
    cases digits with
    | nil =>
      rw [hrest b hb]
      decide
    | cons e digits =>
      obtain rfl := Option.some.inj hb
      obtain ⟨-, -, -, hx, hX, -⟩ := isHex_cases (hhex e (by simp))
      exact ⟨hx, hX⟩
  simp only [List.cons_append]
  generalize digits ++ rest = tail at hsecond
  unfold skipBase
  split
  · rename_i z x c cs heq
    obtain ⟨-, rfl⟩ := List.cons.inj heq
    obtain ⟨hx, hX⟩ := hsecond x rfl
    simp only [hx, hX, or_self, false_and, and_false, if_false]
    exact heq.symm
  · rfl

theorem hexNat_stop (hhex : ∀ b ∈ digits, isHex b = true) (hrest : ∀ b ∈ rest.head?, b = 0x3b) :
    hexNat 0 (digits ++ rest) = hexNat 0 digits := by
  rw [hexNat_append hhex]
  cases rest with
  | nil => rfl
  | cons b rest =>
    obtain rfl := hrest b rfl
    rfl

theorem strtol16_append (hne : digits ≠ []) (hhex : ∀ b ∈ digits, isHex b = true)
    (hrest : ∀ b ∈ rest.head?, b = 0x3b) :
    strtol16 (digits ++ rest) = min (hexNat 0 digits : Int) longMax := by
  obtain ⟨d, tail, rfl⟩ := List.exists_cons_of_ne_nil hne
  obtain ⟨hspace, hminus, hplus, -⟩ := isHex_cases (hhex d List.mem_cons_self)
  have hdrop : (d :: tail ++ rest).dropWhile isSpace = d :: tail ++ rest := by
    simp [hspace]
  have hsign : skipSign (d :: tail ++ rest) = (false, d :: tail ++ rest) := by
    simp only [List.cons_append, skipSign, hminus, hplus, if_false]
  simp only [strtol16, hdrop, hsign, skipBase_append hne hhex hrest, hexNat_stop hhex hrest]
  rfl

theorem strtol16_neg (hne : digits ≠ []) (hhex : ∀ b ∈ digits, isHex b = true)
    (hrest : ∀ b ∈ rest.head?, b = 0x3b) :
    strtol16 (0x2d :: digits ++ rest) = max (-(hexNat 0 digits : Int)) longMin := by
  have hdrop : (0x2d :: digits ++ rest).dropWhile isSpace = 0x2d :: digits ++ rest := rfl
  have hsign : skipSign (0x2d :: digits ++ rest) = (true, digits ++ rest) := rfl
  simp only [strtol16, hdrop, hsign, skipBase_append hne hhex hrest, hexNat_stop hhex hrest]
  rfl

theorem strtol16_hex (h : ∀ c ∈ l, isHex c = true) :
    strtol16 l = min (hexNat 0 l : Int) longMax := by
  by_cases hne : l = []
  · subst hne
    rfl
  · have hend : ∀ b ∈ ([] : List U8).head?, b = 0x3b := by simp
    have happend := strtol16_append hne h hend
    rwa [List.append_nil] at happend

theorem strtol16_pair {a b : Nat} (ha : a < 16) (hb : b < 16) :
    strtol16 [hexChar a, hexChar b] = (16 * a + b : Nat) := by
  rw [strtol16_hex]
  · simp only [hexNat, hexVal_hexChar ha, hexVal_hexChar hb, longMax]
    omega
  · intro c hc
    simp only [List.mem_cons, List.not_mem_nil, or_false] at hc
    obtain rfl | rfl := hc
    · exact isHex_hexChar ha
    · exact isHex_hexChar hb

end

-- ---------------------------------------------------------------------------
-- The parser
-- ---------------------------------------------------------------------------

/-- Bytes that leave the state of the parser as it is. -/
def Reader.pass (r : Reader) (l : List U8) : Reader :=
  { r.read l with parseIdx := r.parseIdx + l.length }

section
variable {ackEnabled : Bool} {r : Reader} {b : U8} {l payload : List U8}

theorem scan_skip (hr : r.state = .skip) (hb : b ≠ 0x23) : scan ackEnabled r b = r.pass [b] := by
  have hstate : (r.read [b]).state = .skip := hr
  simp only [scan, parseByte, parseState, hstate, hb, if_false]
  rw [← hstate]
  rfl

theorem foldl_scan_skip (hr : r.state = .skip) (hl : (0x23 : U8) ∉ l) :
    l.foldl (scan ackEnabled) r = r.pass l := by
  induction l generalizing r with
  | nil => simp [Reader.pass, Reader.read, Pkt.append]
  | cons b l ih =>
    rw [List.mem_cons, not_or] at hl
    have hpass : (r.pass [b]).state = .skip := hr
    rw [List.foldl_cons, scan_skip hr (Ne.symm hl.1), ih hpass hl.2]
    simp [Reader.pass, Reader.read, Pkt.append, Nat.add_assoc, Nat.add_comm 1]

theorem foldl_scan_frame (r : Reader) (hl : (0x23 : U8) ∉ payload) (d₀ d₁ : U8) :
    ([0x2b, 0x24] ++ payload ++ [0x23, d₀, d₁]).foldl (scan true) r.reset =
      { state := if (BitVec.ofInt 8 (strtol16 [d₀, d₁]) : U8) ≠ checksum payload then .error
          else .finished
        parseIdx := payload.length + 5
        digit0 := d₀
        digit1 := d₁
        input := ⟨[0x2b, 0x24] ++ payload ++ [0x23, d₀, d₁], 2, payload.length + 2⟩ } := by
  have hstart : [0x2b, 0x24].foldl (scan true) r.reset =
      ⟨.skip, 2, r.digit0, r.digit1, ⟨[0x2b, 0x24], 2, 0⟩⟩ := rfl
  have hdata (l' : List U8) :
      (Pkt.mk ([0x2b, 0x24] ++ (payload ++ l')) 2 (2 + payload.length)).payload = payload := by
    simp [Pkt.payload, Nat.add_comm 2]
  rw [List.foldl_append, List.foldl_append, hstart, foldl_scan_skip rfl hl]
  simp only [List.foldl_cons, List.foldl_nil, scan, parseByte, parseState, Reader.pass, Reader.read,
    Pkt.append, if_true, List.append_assoc, sadBuffChecksum]
  rw [hdata, Nat.add_comm 2]
  rfl

/-- The parser has come to the end of a packet with this payload. -/
structure Reader.Accepted (r : Reader) (payload : List U8) : Prop where
  state : r.state = .finished
  start : r.input.startPktData = 2
  finish : r.input.endPktData = 2 + payload.length
  payload : r.input.payload = payload

theorem foldl_scan_accepted (r : Reader) (hl : (0x23 : U8) ∉ payload) :
    ((frame payload).foldl (scan true) r.reset).Accepted payload := by
  have hdigits : (BitVec.ofInt 8 (strtol16 [hexChar (byteTotal payload % 256 / 16),
      hexChar (byteTotal payload % 16)]) : U8) = checksum payload := by
    rw [strtol16_pair (by omega) (by omega)]
    apply BitVec.eq_of_toNat_eq
    rw [checksum_eq, BitVec.ofInt_natCast, BitVec.toNat_ofNat]
    omega
  rw [frame, foldl_scan_frame r hl, hdigits]
  simp only [ne_eq, not_true_eq_false, if_false]
  exact {
    state := rfl
    start := rfl
    finish := Nat.add_comm _ _
    payload := by simp [Pkt.payload] }

theorem feed_frame (r : Reader) (hl : (0x23 : U8) ∉ payload) {reads : List (List U8)}
    (hreads : reads.flatten = frame payload) : (feed true r.reset reads).Accepted payload := by
  rw [feed_eq caughtUp_reset, hreads]
  exact foldl_scan_accepted r hl

end

end SwitchV32
