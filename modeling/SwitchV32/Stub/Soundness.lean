import SwitchV32.Stub.Registers
import SwitchV32.Stub.Session

/-!
# What the parser accepts

In acknowledgement mode a packet is what the first `+` of the bytes opens, unless
a `-` is in front of it. The two characters of its checksum go through `strtol`,
which also reads a number off characters that are no digits.
-/

namespace SwitchV32

/-- `+$`, a payload and two characters behind its `#`, after bytes that the parser skips. -/
structure PacketIn (l pre payload : List U8) (d₀ d₁ : U8) (post : List U8) : Prop where
  bytes : l = pre ++ 0x2b :: 0x24 :: (payload ++ 0x23 :: d₀ :: d₁ :: post)
  skipped : ∀ b ∈ pre, b ≠ 0x2b ∧ b ≠ 0x2d
  payload : (0x23 : U8) ∉ payload

/-- The two characters are hex digits, and they are the sum of the payload modulo 256. -/
def Framed (l payload : List U8) : Prop := ∃ pre d₀ d₁,
  l = pre ++ 0x2b :: 0x24 :: (payload ++ [0x23, d₀, d₁]) ∧ (0x23 : U8) ∉ payload ∧
    isHex d₀ = true ∧ isHex d₁ = true ∧ hexNat 0 [d₀, d₁] = byteTotal payload % 256

/-- The bytes with the last of which the parser comes to the end of a packet. -/
structure Consumed (r : Reader) (reads : List (List U8)) (l : List U8) : Prop where
  front : l <+: reads.flatten
  finished : (feed true r.reset [l]).state = .finished
  last : (feed true r.reset [l.dropLast]).state ≠ .finished

def Sound (r : Reader) (reads : List (List U8)) : Prop :=
  (feed true r.reset reads).state = .finished →
    ∃ l, Consumed r reads l ∧ Framed l (feed true r.reset reads).input.payload

def DigitsOnly (l : List U8) : Prop := ∀ pre payload d₀ d₁ post,
  PacketIn l pre payload d₀ d₁ post → Matches payload d₀ d₁ → isHex d₀ = true ∧ isHex d₁ = true

-- ---------------------------------------------------------------------------
-- The states along a packet
-- ---------------------------------------------------------------------------

section
variable {r : Reader} {b d₀ d₁ : U8} {l l' pre payload post : List U8} {reads : List (List U8)}

theorem feed_one (r : Reader) (l : List U8) :
    feed true r.reset [l] = l.foldl (scan true) r.reset := by
  rw [feed_eq caughtUp_reset, List.flatten_cons, List.flatten_nil, List.append_nil]

theorem scan_reset (hr : r.state = .reset) (hb : b ≠ 0x2b ∧ b ≠ 0x2d) :
    scan true r b = r.pass [b] := by
  have hstate : (r.read [b]).state = .reset := hr
  simp only [scan, parseByte, parseState, hstate, hb.1, hb.2, if_true, if_false]
  rw [← hstate]
  rfl

theorem foldl_scan_reset (hr : r.state = .reset) (hpre : ∀ b ∈ pre, b ≠ 0x2b ∧ b ≠ 0x2d) :
    pre.foldl (scan true) r = r.pass pre := by
  induction pre generalizing r with
  | nil => simp [Reader.pass, Reader.read, Pkt.append]
  | cons b pre ih =>
    rw [List.forall_mem_cons] at hpre
    have hpass : (r.pass [b]).state = .reset := hr
    rw [List.foldl_cons, scan_reset hr hpre.1, ih hpass hpre.2, pass_pass]
    rfl

theorem scan_start_error (hr : r.state = .start) (hb : b ≠ 0x24) :
    (scan true r b).state = .error := by
  have hstate : (r.read [b]).state = .start := hr
  simp only [scan, parseByte, parseState, parseStart, hstate, if_neg hb]

theorem foldl_scan_plus (r : Reader) (hpre : ∀ b ∈ pre, b ≠ 0x2b ∧ b ≠ 0x2d) :
    (pre ++ [0x2b]).foldl (scan true) r.reset =
      ⟨.start, pre.length + 1, r.digit0, r.digit1, ⟨pre ++ [0x2b], 0, 0⟩⟩ := by
  rw [List.foldl_append, foldl_scan_reset rfl hpre]
  simp [scan, parseByte, parseState, Reader.pass, Reader.read, Reader.reset, Pkt.append, Pkt.reset]

theorem foldl_scan_payload (r : Reader) (hpre : ∀ b ∈ pre, b ≠ 0x2b ∧ b ≠ 0x2d)
    (hpayload : (0x23 : U8) ∉ payload) :
    (pre ++ [0x2b] ++ 0x24 :: payload).foldl (scan true) r.reset =
      ⟨.skip, pre.length + 2 + payload.length, r.digit0, r.digit1,
        ⟨pre ++ [0x2b] ++ 0x24 :: payload, pre.length + 2, 0⟩⟩ := by
  rw [List.foldl_append, foldl_scan_plus r hpre, List.foldl_cons, foldl_scan_skip rfl hpayload]
  simp [scan, parseByte, parseState, parseStart, Reader.pass, Reader.read, Pkt.append]

theorem foldl_scan_digit (r : Reader) (hpre : ∀ b ∈ pre, b ≠ 0x2b ∧ b ≠ 0x2d)
    (hpayload : (0x23 : U8) ∉ payload) (d₀ : U8) :
    (pre ++ [0x2b] ++ 0x24 :: payload ++ [0x23, d₀]).foldl (scan true) r.reset =
      ⟨.checksumDigit1, pre.length + 2 + payload.length + 2, d₀, r.digit1,
        ⟨pre ++ [0x2b] ++ 0x24 :: payload ++ [0x23, d₀], pre.length + 2,
          pre.length + 2 + payload.length⟩⟩ := by
  rw [List.foldl_append, foldl_scan_payload r hpre hpayload]
  simp [scan, parseByte, parseState, Reader.read, Pkt.append]

theorem foldl_scan_packet (r : Reader) (hpre : ∀ b ∈ pre, b ≠ 0x2b ∧ b ≠ 0x2d)
    (hpayload : (0x23 : U8) ∉ payload) (d₀ d₁ : U8) : ∃ r',
    (pre ++ 0x2b :: 0x24 :: (payload ++ [0x23, d₀, d₁])).foldl (scan true) r.reset = r' ∧
      r'.input.Holds payload [d₀, d₁] ∧ r'.state.final = true ∧
      (r'.state = .finished ↔ Matches payload d₀ d₁) := by
  have hbytes : pre ++ 0x2b :: 0x24 :: (payload ++ [0x23, d₀, d₁]) =
      pre ++ [0x2b] ++ 0x24 :: payload ++ [0x23, d₀] ++ [d₁] := by simp
  obtain ⟨input, hinput⟩ : ∃ input : Pkt, input =
      ⟨pre ++ [0x2b] ++ 0x24 :: payload ++ [0x23, d₀] ++ [d₁], pre.length + 2,
        pre.length + 2 + payload.length⟩ := ⟨_, rfl⟩
  have hholds : input.Holds payload [d₀, d₁] :=
    ⟨pre ++ [0x2b, 0x24], by simp [hinput], by simp [hinput], by simp [hinput]⟩
  refine ⟨⟨if (BitVec.ofInt 8 (strtol16 [d₀, d₁]) : U8) ≠ checksum payload then .error
    else .finished, pre.length + 2 + payload.length + 2 + 1, d₀, d₁, input⟩, ?_, hholds, ?_, ?_⟩
  · have hsum : checksum payload = sadBuffChecksum input := by rw [sadBuffChecksum, hholds.payload]
    rw [hbytes, List.foldl_append, foldl_scan_digit r hpre hpayload, hsum, hinput]
    rfl
  · dsimp only
    split <;> rfl
  · dsimp only [Matches]
    split
    · rename_i hne
      exact iff_of_false (by rintro ⟨⟩) hne
    · rename_i heq
      exact iff_of_true rfl (not_not.mp heq)

theorem PacketIn.foldl (h : PacketIn l pre payload d₀ d₁ post) (r : Reader) : ∃ r',
    l.foldl (scan true) r.reset = r' ∧ r'.input.payload = payload ∧
      (r'.state = .finished ↔ Matches payload d₀ d₁) := by
  obtain ⟨r', hr', hholds, hfinal, hstate⟩ := foldl_scan_packet r h.skipped h.payload d₀ d₁
  have hbytes : l = pre ++ 0x2b :: 0x24 :: (payload ++ [0x23, d₀, d₁]) ++ post := by
    simp [h.bytes]
  refine ⟨r'.pass post, ?_, (hholds.append post).payload, hstate⟩
  rw [hbytes, List.foldl_append, hr', foldl_scan_final hfinal]

theorem exists_first {α : Type} (p : α → Prop) (l : List α) :
    (∀ a ∈ l, p a) ∨ ∃ pre a post, l = pre ++ a :: post ∧ (∀ a ∈ pre, p a) ∧ ¬ p a := by
  induction l with
  | nil => exact .inl (by simp)
  | cons a l ih =>
    by_cases ha : p a
    · obtain hall | ⟨pre, c, post, rfl, hpre, hc⟩ := ih
      · exact .inl (List.forall_mem_cons.mpr ⟨ha, hall⟩)
      · exact .inr ⟨a :: pre, c, post, rfl, List.forall_mem_cons.mpr ⟨ha, hpre⟩, hc⟩
    · exact .inr ⟨[], a, l, rfl, by simp, ha⟩

theorem packetIn_of_opened (hpre : ∀ b ∈ pre, b ≠ 0x2b ∧ b ≠ 0x2d)
    (h : ((pre ++ [0x2b] ++ 0x24 :: l).foldl (scan true) r.reset).state = .finished) :
    ∃ payload d₀ d₁ post, PacketIn (pre ++ [0x2b] ++ 0x24 :: l) pre payload d₀ d₁ post := by
  obtain hall | ⟨payload, c, rest, rfl, hskip, hc⟩ := exists_first (fun b : U8 => b ≠ 0x23) l
  · rw [foldl_scan_payload r hpre fun hmem => hall _ hmem rfl] at h
    cases h
  · have hpayload : (0x23 : U8) ∉ payload := fun hmem => hskip _ hmem rfl
    rw [not_not] at hc
    subst hc
    have hopened := foldl_scan_payload r hpre hpayload
    match rest with
    | [] =>
      rw [← List.cons_append, ← List.append_assoc, List.foldl_append, hopened] at h
      cases h
    | [d₀] =>
      rw [← List.cons_append, ← List.append_assoc, foldl_scan_digit r hpre hpayload] at h
      cases h
    | d₀ :: d₁ :: post => exact ⟨payload, d₀, d₁, post, by simp, hpre, hpayload⟩

theorem packetIn_of_finished (h : (l.foldl (scan true) r.reset).state = .finished) :
    ∃ pre payload d₀ d₁ post, PacketIn l pre payload d₀ d₁ post := by
  obtain hall | ⟨pre, c, rest, rfl, hpre, hc⟩ :=
    exists_first (fun b : U8 => b ≠ 0x2b ∧ b ≠ 0x2d) l
  · rw [foldl_scan_reset rfl hall] at h
    cases h
  · by_cases hplus : c = 0x2b
    · subst hplus
      rw [← List.singleton_append, ← List.append_assoc] at h ⊢
      cases rest with
      | nil =>
        rw [List.append_nil, foldl_scan_plus r hpre] at h
        cases h
      | cons c rest =>
        by_cases hdollar : c = 0x24
        · subst hdollar
          exact ⟨pre, packetIn_of_opened hpre h⟩
        · rw [List.foldl_append, foldl_scan_plus r hpre, List.foldl_cons] at h
          rw [foldl_scan_final (by rw [scan_start_error rfl hdollar]; rfl)] at h
          cases (scan_start_error rfl hdollar).symm.trans h
    · -- a `-`, behind which nothing is looked at
      have hminus : c = 0x2d := by
        by_contra hne
        exact hc ⟨hplus, hne⟩
      subst hminus
      rw [List.foldl_append, foldl_scan_reset rfl hpre, List.foldl_cons,
        foldl_scan_final (r := scan true _ _) rfl] at h
      cases h

-- ---------------------------------------------------------------------------
-- When that is sound
-- ---------------------------------------------------------------------------

/-- The bytes of the packet are those that the parser consumes for it. -/
theorem PacketIn.consumed (h : PacketIn reads.flatten pre payload d₀ d₁ post)
    (hmatches : Matches payload d₀ d₁) (r : Reader) :
    Consumed r reads (pre ++ 0x2b :: 0x24 :: (payload ++ [0x23, d₀, d₁])) where
  front := ⟨post, by simp [h.bytes]⟩
  finished := by
    obtain ⟨r', hr', -, -, hstate⟩ := foldl_scan_packet r h.skipped h.payload d₀ d₁
    rw [feed_one, hr']
    exact hstate.mpr hmatches
  last := by
    have hlast : pre ++ 0x2b :: 0x24 :: (payload ++ [0x23, d₀, d₁]) =
        pre ++ [0x2b] ++ 0x24 :: payload ++ [0x23, d₀] ++ [d₁] := by simp
    rw [hlast, List.dropLast_concat, feed_one, foldl_scan_digit r h.skipped h.payload]
    rintro ⟨⟩

theorem Consumed.eq_of_prefix (h : Consumed r reads l) (h' : Consumed r reads l')
    (hle : l <+: l') : l = l' := by
  obtain ⟨t, rfl⟩ := hle
  by_contra hne
  have ht : t ≠ [] := by
    rintro rfl
    exact hne (List.append_nil l).symm
  have hfinished := h.finished
  refine h'.last ?_
  rw [feed_one] at hfinished ⊢
  rw [List.dropLast_append_of_ne_nil ht, List.foldl_append,
    foldl_scan_final (by rw [hfinished]; rfl)]
  exact hfinished

theorem Consumed.eq (h : Consumed r reads l) (h' : Consumed r reads l') : l = l' := by
  obtain hle | hle := List.prefix_or_prefix_of_prefix h.front h'.front
  · exact h.eq_of_prefix h' hle
  · exact (h'.eq_of_prefix h hle).symm

theorem Matches.hexNat (h : Matches payload d₀ d₁) (h₀ : isHex d₀ = true) (h₁ : isHex d₁ = true) :
    hexNat 0 [d₀, d₁] = byteTotal payload % 256 := by
  have hhex : ∀ c ∈ [d₀, d₁], isHex c = true := by simp [h₀, h₁]
  have hlt : SwitchV32.hexNat 0 [d₀, d₁] < (0 + 1) * 16 ^ 2 := hexNat_lt hhex 0
  have hnat : strtol16 [d₀, d₁] = (SwitchV32.hexNat 0 [d₀, d₁] : Nat) := by
    rw [strtol16_hex hhex, min_eq_left]
    simp only [longMax]
    omega
  have hvalue := congrArg BitVec.toNat h
  rw [hnat, BitVec.ofInt_natCast, BitVec.toNat_ofNat, checksum_eq] at hvalue
  omega

theorem Sound.digitsOnly (h : Sound r reads) : DigitsOnly reads.flatten := by
  intro pre payload d₀ d₁ post hpacket hmatches
  obtain ⟨r', hr', hpayload, hstate⟩ := hpacket.foldl r
  rw [← feed_eq caughtUp_reset] at hr'
  obtain ⟨l, hl, pre', d₀', d₁', hbytes, -, hhex₀, hhex₁, -⟩ :=
    h (by rw [hr']; exact hstate.mpr hmatches)
  have heq := hl.eq (hpacket.consumed hmatches r)
  rw [hbytes, hr', hpayload] at heq
  have hends : (pre' ++ 0x2b :: 0x24 :: payload) ++ [0x23, d₀', d₁'] =
      (pre ++ 0x2b :: 0x24 :: payload) ++ [0x23, d₀, d₁] := by simpa using heq
  cases List.append_inj_right' hends rfl
  exact ⟨hhex₀, hhex₁⟩

theorem DigitsOnly.sound (h : DigitsOnly reads.flatten) : Sound r reads := by
  intro hfinished
  rw [feed_eq caughtUp_reset] at hfinished ⊢
  obtain ⟨pre, payload, d₀, d₁, post, hpacket⟩ := packetIn_of_finished hfinished
  obtain ⟨r', hr', hpayload, hstate⟩ := hpacket.foldl r
  rw [hr'] at hfinished ⊢
  have hmatches := hstate.mp hfinished
  obtain ⟨hhex₀, hhex₁⟩ := h _ _ _ _ _ hpacket hmatches
  rw [hpayload]
  exact ⟨_, hpacket.consumed hmatches r, pre, d₀, d₁, rfl, hpacket.payload, hhex₀, hhex₁,
    hmatches.hexNat hhex₀ hhex₁⟩

/-- Whatever the client sends in whatever reads, the end of a packet is sound exactly if characters
that pass for its checksum are hex digits. -/
theorem reads_sound_iff (r : Reader) (reads : List (List U8)) :
    Sound r reads ↔ DigitsOnly reads.flatten :=
  ⟨Sound.digitsOnly, DigitsOnly.sound⟩

/-- The sum of `m0,4` is 0xfd, which is what becomes of `-3`. -/
theorem reads_sound_fails : ¬ Sound ⟨.reset, 0, 0, 0, .reset⟩ [ascii "+$m0,", ascii "4#-3"] := by
  intro h
  have hpacket : PacketIn (ascii "+$m0,4#-3") [] (ascii "m0,4") 0x2d 0x33 [] :=
    ⟨rfl, by simp, by decide⟩
  obtain ⟨hminus, -⟩ := h.digitsOnly _ _ _ _ _ hpacket rfl
  cases hminus

end

end SwitchV32
