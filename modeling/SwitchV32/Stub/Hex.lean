import SwitchV32.Stub.RegisterFile

/-!
# Hex digits in a block

The decoder and the encoder of `stubb_a_dub/src/utils.c` on the block that they
write to, which need not hold anything before. A store that leaves the block ends
the call.
-/

namespace SwitchV32

-- ---------------------------------------------------------------------------
-- Characters
-- ---------------------------------------------------------------------------

/-- `a <= b` between characters; the platform says whether `char` is signed. -/
def charLe (signed : Bool) (a b : U8) : Bool := if signed then a.sle b else a.ule b

/-- `c`, once it has become the value of its digit -/
def charDigit (signed : Bool) (c : U8) : Option U8 :=
  if charLe signed 0x30 c && charLe signed c 0x39 then some (c - 0x30)
  else if charLe signed 0x41 c && charLe signed c 0x46 then some (c - 0x41 + 10)
  else if charLe signed 0x61 c && charLe signed c 0x66 then some (c - 0x61 + 10)
  else none

/-- A character from `0x80` on is no digit, whatever its sign is. -/
theorem charDigit_eq (signed : Bool) (c : U8) :
    charDigit signed c = (hexVal c).map (BitVec.ofNat 8) := by
  revert signed c
  decide +kernel

-- ---------------------------------------------------------------------------
-- The functions
-- ---------------------------------------------------------------------------

/-- `*(dest + i) = v` -/
def storeAt (dest : Block U8) (i : Nat) (v : U8) : Except BuffFault (Block U8) :=
  match dest.write i [v] with
  | some dest => .ok dest
  | none => .error .outside

/-- The loop over `src`: `state` holds before the first digit of a byte. -/
def hexCharsLoopIn (signed : Bool) (dest : Block U8) (state : Bool) (tmpVal : U8)
    (bytesIdx : Nat) : List U8 → Except BuffFault (UtilRet × Block U8 × Nat)
  | [] => .ok (.ok, dest, bytesIdx)
  | c :: src =>
    match charDigit signed c with
    | none => .ok (.x, dest, bytesIdx)
    | some c =>
      if state then hexCharsLoopIn signed dest (!state) (c <<< 4) bytesIdx src
      else do
        let tmpVal := tmpVal + c
        let dest ← storeAt dest bytesIdx tmpVal
        hexCharsLoopIn signed dest (!state) tmpVal (bytesIdx + 1) src

def resetLoop (destSize : Nat) : Nat → Block U8 → Nat → Except BuffFault (Block U8)
  | 0, dest, bytesIdx => if bytesIdx = destSize then .ok dest else .error .looping
  | fuel + 1, dest, bytesIdx =>
    if bytesIdx = destSize then .ok dest
    else do
      let dest ← storeAt dest bytesIdx 0
      resetLoop destSize fuel dest (bytesIdx + 1)

def sadHexCharsToBytesIn (signed : Bool) (dest : Block U8) (src : List U8) (destSize : Nat) :
    Except BuffFault (UtilRet × Block U8) :=
  if destSize < (src.length + 1) / 2 then .ok (.unexpected, dest)
  else do
    -- based on the length of the src, the parsing changes
    let (ret, dest, bytesIdx) ← hexCharsLoopIn signed dest (src.length % 2 == 0) 0 0 src
    if ret = .ok then
      let dest ← resetLoop destSize destSize dest bytesIdx
      return (ret, dest)
    else return (ret, dest)

def hexPairsLoop (dest : Block U8) (i : Nat) : List U8 → Except BuffFault (Block U8)
  | [] => .ok dest
  | v :: src => do
    let dest ← storeAt dest (2 * i) (hexChar (v >>> 4).toNat)
    let dest ← storeAt dest (2 * i + 1) (hexChar (v &&& 0xf).toNat)
    hexPairsLoop dest (i + 1) src

def sadBytesToHexCharsIn (dest : Block U8) (src : List U8) (destSize : Nat) :
    Except BuffFault (UtilRet × Block U8) :=
  if destSize < 2 * src.length then .ok (.unexpected, dest)
  else do
    let dest ← hexPairsLoop dest 0 src
    return (.ok, dest)

-- ---------------------------------------------------------------------------
-- What is stored
-- ---------------------------------------------------------------------------

/-- The bytes that the loop stores one after the other, and how it ends. -/
def hexStores (state : Bool) (tmpVal : U8) : List U8 → UtilRet × List U8
  | [] => (.ok, [])
  | c :: src =>
    match hexVal c with
    | none => (.x, [])
    | some d =>
      if state then hexStores (!state) (BitVec.ofNat 8 d <<< 4) src
      else
        let tmpVal := tmpVal + BitVec.ofNat 8 d
        ((hexStores (!state) tmpVal src).1, tmpVal :: (hexStores (!state) tmpVal src).2)

/-- The bytes that the digits spell, the first one most significant; before an odd number of
digits goes a `0`. -/
def hexBytes (src : List U8) : List U8 :=
  decodeHex (if src.length % 2 = 0 then src else 0x30 :: src)

section
variable {signed state : Bool} {tmpVal : U8} {src l : List U8} {dest dest' : Block U8}
variable {bytesIdx destSize n fuel i : Nat}

theorem storeAt_bind {β : Type} {next : Block U8 → Except BuffFault β} {v : U8}
    (h : dest.write i [v] = some dest') : storeAt dest i v >>= next = next dest' := by
  simp only [storeAt, h]
  rfl

/-- The induction is on the characters; what is stored lies between the index and its end. -/
theorem hexCharsLoopIn_eq (h : dest.write bytesIdx (hexStores state tmpVal src).2 = some dest') :
    hexCharsLoopIn signed dest state tmpVal bytesIdx src =
      .ok ((hexStores state tmpVal src).1, dest',
        bytesIdx + (hexStores state tmpVal src).2.length) := by
  induction src generalizing dest state tmpVal bytesIdx with
  | nil =>
    obtain rfl := Block.eq_of_write_nil h
    rfl
  | cons c src ih =>
    cases hval : hexVal c with
    | none =>
      simp only [hexStores, hval] at h
      obtain rfl := Block.eq_of_write_nil h
      simp only [hexCharsLoopIn, charDigit_eq, hexStores, hval, Option.map_none, List.length_nil,
        Nat.add_zero]
    | some d =>
      simp only [hexStores, hval] at h
      simp only [hexCharsLoopIn, charDigit_eq, hexStores, hval, Option.map_some]
      cases state with
      | true => exact ih h
      | false =>
        obtain ⟨dest₁, hfirst, hrest⟩ := Block.exists_write_cons h
        have hloop := ih hrest
        rw [Nat.add_assoc, Nat.add_comm 1] at hloop
        simp only [Bool.false_eq_true, if_false, storeAt_bind hfirst, List.length_cons]
        exact hloop

theorem length_hexStores_le (state : Bool) (tmpVal : U8) (src : List U8) :
    2 * (hexStores state tmpVal src).2.length + state.toNat ≤ src.length + 1 := by
  induction src generalizing state tmpVal with
  | nil => cases state <;> simp [hexStores]
  | cons c src ih =>
    cases hval : hexVal c with
    | none => cases state <;> simp [hexStores, hval]
    | some d =>
      cases state with
      | true =>
        have hrest := ih false (BitVec.ofNat 8 d <<< 4)
        simp only [hexStores, hval, Bool.not_true, if_true, List.length_cons, Bool.toNat_true,
          Bool.toNat_false] at hrest ⊢
        omega
      | false =>
        have hrest := ih true (tmpVal + BitVec.ofNat 8 d)
        simp only [hexStores, hval, Bool.not_false, Bool.false_eq_true, if_false,
          List.length_cons, Bool.toNat_true, Bool.toNat_false] at hrest ⊢
        omega

theorem hexStores_ret (state : Bool) (tmpVal : U8) (src : List U8) :
    (hexStores state tmpVal src).1 = if AllHex src then .ok else .x := by
  induction src generalizing state tmpVal with
  | nil => simp [hexStores, AllHex]
  | cons c src ih =>
    cases hval : hexVal c with
    | none => simp [hexStores, hval, AllHex, isHex]
    | some d =>
      have hall : AllHex (c :: src) ↔ AllHex src := by simp [AllHex, isHex, hval]
      simp only [hexStores, hval, hall]
      cases state with
      | true => exact ih ..
      | false => exact ih ..

theorem hexStores_eq (h : AllHex src) (heven : src.length = 2 * n) (tmpVal : U8) :
    (hexStores true tmpVal src).2 = decodeHex src := by
  induction n generalizing src tmpVal with
  | zero =>
    obtain rfl := List.eq_nil_of_length_eq_zero heven
    rfl
  | succ n ih =>
    obtain ⟨a, b, src, rfl, hlen⟩ := exists_pair heven
    obtain ⟨ha, hb, hsrc⟩ := h.cons_cons
    obtain ⟨d, hd, hvala, -⟩ := isHex_val ha
    obtain ⟨e, he, hvalb, -⟩ := isHex_val hb
    have hpair : hexNat 0 [a, b] = 16 * d + e := by simp [hexNat, hvala, hvalb]
    simp only [hexStores, hvala, hvalb, Bool.not_true, Bool.not_false, if_true,
      Bool.false_eq_true, if_false, nibbles_eq hd he, ih hsrc hlen, decodeHex, hpair]

theorem resetLoop_eq (h : dest.write bytesIdx (List.replicate n 0) = some dest')
    (hsize : bytesIdx + n = destSize) (hfuel : n ≤ fuel) :
    resetLoop destSize fuel dest bytesIdx = .ok dest' := by
  induction n generalizing dest bytesIdx fuel with
  | zero =>
    obtain rfl := Block.eq_of_write_nil h
    cases fuel <;> exact if_pos hsize
  | succ n ih =>
    obtain ⟨fuel, rfl⟩ := Nat.exists_eq_add_of_le' hfuel
    obtain ⟨dest₁, hfirst, hrest⟩ := Block.exists_write_cons h
    have hmore : bytesIdx ≠ destSize := by omega
    have hloop := ih hrest (by omega) (Nat.le_add_left n fuel)
    simp only [resetLoop, hmore, if_false, storeAt_bind hfirst]
    exact hloop

-- ---------------------------------------------------------------------------
-- The decoder
-- ---------------------------------------------------------------------------

theorem length_hexBytes (src : List U8) : (hexBytes src).length = (src.length + 1) / 2 := by
  simp only [hexBytes]
  split
  · exact length_decodeHex (by omega)
  · exact length_decodeHex (by simp only [List.length_cons]; omega)

theorem AllHex.cons_zero (h : AllHex src) : AllHex (0x30 :: src) := by
  intro c hc
  obtain rfl | hc := List.mem_cons.mp hc
  · rfl
  · exact h c hc

/-- The first digit of an odd number goes where a second one would. -/
theorem hexStores_odd (tmpVal : U8) (src : List U8) :
    hexStores true tmpVal (0x30 :: src) = hexStores false 0 src := rfl

theorem hexStores_bytes (h : AllHex src) :
    (hexStores (src.length % 2 == 0) 0 src).2 = hexBytes src := by
  by_cases heven : src.length % 2 = 0
  · have hlen : src.length = 2 * (src.length / 2) := by omega
    simpa only [heven, hexBytes, beq_self_eq_true, if_true] using hexStores_eq h hlen 0
  · have hlen : (0x30 :: src).length = 2 * (src.length / 2 + 1) := by
      simp only [List.length_cons]
      omega
    have hstate : (src.length % 2 == 0) = false := by simpa using heven
    rw [hexBytes, if_neg heven, hstate, ← hexStores_odd 0, hexStores_eq h.cons_zero hlen]

theorem exists_loop (signed : Bool) (hdest : destSize ≤ dest.length)
    (hfits : (src.length + 1) / 2 ≤ destSize) :
    ∃ dest₁ stores, hexStores (src.length % 2 == 0) 0 src = stores ∧
      dest.write 0 stores.2 = some dest₁ ∧ dest₁.drop destSize = dest.drop destSize ∧
      hexCharsLoopIn signed dest (src.length % 2 == 0) 0 0 src =
        .ok (stores.1, dest₁, 0 + stores.2.length) := by
  have hle := length_hexStores_le (src.length % 2 == 0) 0 src
  have hin : 0 + (hexStores (src.length % 2 == 0) 0 src).2.length ≤ dest.length := by omega
  have hwrite := Block.write_eq_some hin
  exact ⟨_, _, rfl, hwrite, Block.drop_write hwrite (by omega), hexCharsLoopIn_eq hwrite⟩

theorem sadHexCharsToBytesIn_ok (signed : Bool) (hdest : destSize ≤ dest.length)
    (hfits : (src.length + 1) / 2 ≤ destSize) (hhex : AllHex src) :
    sadHexCharsToBytesIn signed dest src destSize =
      .ok (.ok, ((hexBytes src).rightpad destSize 0).map some ++ dest.drop destSize) := by
  obtain ⟨dest₁, stores, hstores, hwrite, -, hloop⟩ := exists_loop signed hdest hfits
  have hret : stores.1 = .ok := by rw [← hstores, hexStores_ret, if_pos hhex]
  have hbytes : stores.2 = hexBytes src := by rw [← hstores, hexStores_bytes hhex]
  rw [hret, hbytes] at hloop
  rw [hbytes] at hwrite
  have hlen := length_hexBytes src
  have hpad : ((hexBytes src).rightpad destSize 0).length = destSize := by
    rw [List.rightpad, List.length_append, List.length_replicate]
    omega
  -- the bytes and the zeros after them as one write
  have hall : dest₁.write (0 + (hexBytes src).length)
      (List.replicate (destSize - (hexBytes src).length) 0) =
        some (((hexBytes src).rightpad destSize 0).map some ++ dest.drop destSize) := by
    rw [Block.write_append hwrite, ← List.rightpad, Block.write_eq_some (by omega), hpad]
    simp
  have hreset : resetLoop destSize destSize dest₁ (0 + (hexBytes src).length) = .ok _ :=
    resetLoop_eq hall (by omega) (by omega)
  rw [sadHexCharsToBytesIn, if_neg (by omega), hloop]
  show (resetLoop destSize destSize dest₁ (0 + (hexBytes src).length) >>= _) = _
  rw [hreset]
  rfl

theorem sadHexCharsToBytesIn_x (signed : Bool) (hdest : destSize ≤ dest.length)
    (hfits : (src.length + 1) / 2 ≤ destSize) (hhex : ¬ AllHex src) :
    ∃ dest', sadHexCharsToBytesIn signed dest src destSize = .ok (.x, dest') ∧
      dest'.length = dest.length ∧ dest'.drop destSize = dest.drop destSize := by
  obtain ⟨dest₁, stores, hstores, hwrite, hdrop, hloop⟩ := exists_loop signed hdest hfits
  have hret : stores.1 = .x := by rw [← hstores, hexStores_ret, if_neg hhex]
  refine ⟨dest₁, ?_, Block.length_write hwrite, hdrop⟩
  rw [sadHexCharsToBytesIn, if_neg (by omega), hloop, hret]
  rfl

theorem sadHexCharsToBytesIn_inside (signed : Bool) (hdest : destSize ≤ dest.length)
    (src : List U8) :
    ∃ ret dest', sadHexCharsToBytesIn signed dest src destSize = .ok (ret, dest') ∧
      dest'.length = dest.length ∧ dest'.drop destSize = dest.drop destSize := by
  by_cases hfits : (src.length + 1) / 2 ≤ destSize
  · by_cases hhex : AllHex src
    · refine ⟨_, _, sadHexCharsToBytesIn_ok signed hdest hfits hhex, ?_, ?_⟩
      · have hlen := length_hexBytes src
        simp [List.rightpad]
        omega
      · apply List.drop_left'
        have hlen := length_hexBytes src
        simp [List.rightpad]
        omega
    · obtain ⟨dest', hrun, hinside⟩ := sadHexCharsToBytesIn_x signed hdest hfits hhex
      exact ⟨_, dest', hrun, hinside⟩
  · exact ⟨.unexpected, dest, if_pos (by omega), rfl, rfl⟩

-- ---------------------------------------------------------------------------
-- The encoder
-- ---------------------------------------------------------------------------

theorem hexPairsLoop_eq {b : List U8} (h : dest.write (2 * i) (b.flatMap hexPair) = some dest') :
    hexPairsLoop dest i b = .ok dest' := by
  induction b generalizing dest i with
  | nil =>
    obtain rfl := Block.eq_of_write_nil h
    rfl
  | cons v b ih =>
    obtain ⟨dest₁, hfirst, hrest⟩ := Block.exists_write_cons h
    obtain ⟨dest₂, hsecond, hrest⟩ := Block.exists_write_cons hrest
    simp only [hexPairsLoop, storeAt_bind hfirst, storeAt_bind hsecond]
    exact ih hrest

theorem sadBytesToHexCharsIn_ok {b : List U8} (hdest : destSize ≤ dest.length)
    (hfits : 2 * b.length ≤ destSize) :
    sadBytesToHexCharsIn dest b destSize =
      .ok (.ok, (b.flatMap hexPair).map some ++ dest.drop (2 * b.length)) := by
  have hlen := length_flatMap_hexPair b
  have hwrite : dest.write (2 * 0) (b.flatMap hexPair) =
      some ((b.flatMap hexPair).map some ++ dest.drop (2 * b.length)) := by
    rw [Block.write_eq_some (by omega), hlen]
    simp
  rw [sadBytesToHexCharsIn, if_neg (by omega), hexPairsLoop_eq hwrite]
  rfl

theorem allHex_flatMap (b : List U8) : AllHex (b.flatMap hexPair) := by
  intro c hc
  obtain ⟨v, -, hc⟩ := List.mem_flatMap.mp hc
  have hv := v.isLt
  have hdigit {n : Nat} (hn : n < 16) : isHex (hexChar n) = true := by
    simp [isHex, hexVal_hexChar hn]
  simp only [hexPair_digits, List.mem_cons, List.not_mem_nil, or_false] at hc
  obtain rfl | rfl := hc
  · exact hdigit (by omega)
  · exact hdigit (by omega)

theorem decodeHex_flatMap (b : List U8) : decodeHex (b.flatMap hexPair) = b := by
  induction b with
  | nil => rfl
  | cons v b ih =>
    have hv := v.isLt
    have hhigh : hexVal (hexChar (v.toNat / 16)) = some (v.toNat / 16) :=
      hexVal_hexChar (by omega)
    have hlow : hexVal (hexChar (v.toNat % 16)) = some (v.toNat % 16) :=
      hexVal_hexChar (by omega)
    have hbyte : hexNat 0 [hexChar (v.toNat / 16), hexChar (v.toNat % 16)] = v.toNat := by
      simp only [hexNat, hhigh, hlow]
      omega
    rw [List.flatMap_cons, hexPair_digits]
    simp only [List.cons_append, List.nil_append, decodeHex, hbyte, ih, BitVec.ofNat_toNat,
      BitVec.setWidth_eq]

theorem hexBytes_flatMap (b : List U8) : hexBytes (b.flatMap hexPair) = b := by
  rw [hexBytes, if_pos (by rw [length_flatMap_hexPair]; omega), decodeHex_flatMap]

-- ---------------------------------------------------------------------------
-- Arrays
-- ---------------------------------------------------------------------------

theorem write_map_some {i : Nat} {v : U8} (h : i < l.length) :
    Block.write (l.map some) i [v] = some ((l.set i v).map some) := by
  have hin : i + [v].length ≤ (l.map some).length := by
    rw [List.length_map, List.length_singleton]
    exact h
  rw [Block.write_eq_some hin, List.set_eq_take_append_cons_drop, if_pos h]
  simp

theorem write_nil_map_some {i : Nat} (h : i ≤ l.length) :
    Block.write (l.map some) i [] = some (l.map some) := by
  rw [Block.write_eq_some (by simpa using h)]
  simp

theorem exists_hexCharsLoop
    (h : bytesIdx + (hexStores state tmpVal src).2.length ≤ l.length) :
    ∃ l', hexCharsLoop l state tmpVal bytesIdx src = ((hexStores state tmpVal src).1, l',
        bytesIdx + (hexStores state tmpVal src).2.length) ∧
      Block.write (l.map some) bytesIdx (hexStores state tmpVal src).2 = some (l'.map some) := by
  induction src generalizing l state tmpVal bytesIdx with
  | nil =>
    exact ⟨l, rfl, write_nil_map_some h⟩
  | cons c src ih =>
    cases hval : hexVal c with
    | none =>
      simp only [hexStores, hval] at h
      simp only [hexCharsLoop, hexStores, hval]
      exact ⟨l, rfl, write_nil_map_some h⟩
    | some d =>
      simp only [hexStores, hval] at h
      simp only [hexCharsLoop, hexStores, hval]
      cases state with
      | true => exact ih h
      | false =>
        simp only [Bool.false_eq_true, if_false, Bool.not_false, List.length_cons] at h ⊢
        have hin : bytesIdx < l.length := by omega
        have hrest : bytesIdx + 1 + (hexStores true (tmpVal + BitVec.ofNat 8 d) src).2.length ≤
            (l.set bytesIdx (tmpVal + BitVec.ofNat 8 d)).length := by
          rw [List.length_set]
          omega
        obtain ⟨l', hloop, hwrite⟩ := ih hrest
        refine ⟨l', ?_, ?_⟩
        · rw [hloop, Nat.add_assoc, Nat.add_comm 1]
        · exact (Block.write_append (write_map_some hin)).symm.trans hwrite

/-- On bytes that are all there, the block takes the ones that the array does. -/
theorem sadHexCharsToBytesIn_array (signed : Bool) (l src : List U8) :
    sadHexCharsToBytesIn signed (l.map some) src l.length =
      .ok ((sadHexCharsToBytes l src).1, (sadHexCharsToBytes l src).2.map some) := by
  have hdest : l.length ≤ (l.map some).length := Nat.le_of_eq (List.length_map some).symm
  by_cases hfits : l.length < (src.length + 1) / 2
  · rw [sadHexCharsToBytesIn, if_pos hfits, sadHexCharsToBytes, if_pos hfits]
  · have hle := length_hexStores_le (src.length % 2 == 0) 0 src
    have hin : 0 + (hexStores (src.length % 2 == 0) 0 src).2.length ≤ l.length := by omega
    obtain ⟨l', hloop, hwrite⟩ := exists_hexCharsLoop hin
    by_cases hhex : AllHex src
    · rw [sadHexCharsToBytesIn_ok signed hdest (by omega) hhex, sadHexCharsToBytes, if_neg hfits,
        hloop, hexStores_ret, if_pos hhex, hexStores_bytes hhex]
      rw [hexStores_bytes hhex] at hwrite
      have hlen := Block.length_write hwrite
      obtain ⟨-, hl'⟩ := Block.write_eq_some_iff.mp hwrite
      have htake : (l'.map some).take (hexBytes src).length = (hexBytes src).map some := by
        rw [hl']
        simp
      have hdrop : (l.map some).drop l.length = [] :=
        List.drop_eq_nil_of_le (Nat.le_of_eq (List.length_map some))
      rw [List.length_map, List.length_map] at hlen
      simp [htake, hdrop, hlen, List.rightpad]
    · rw [sadHexCharsToBytesIn, if_neg hfits, hexCharsLoopIn_eq hwrite, sadHexCharsToBytes,
        if_neg hfits, hloop, hexStores_ret, if_neg hhex]
      rfl

theorem sadBytesToHexCharsIn_array (l b : List U8) :
    sadBytesToHexCharsIn (l.map some) b l.length =
      .ok ((sadBytesToHexChars l b).1, (sadBytesToHexChars l b).2.map some) := by
  by_cases hfits : l.length < 2 * b.length
  · rw [sadBytesToHexCharsIn, if_pos hfits, sadBytesToHexChars, if_pos hfits]
  · rw [sadBytesToHexCharsIn_ok (by simp) (by omega), sadBytesToHexChars, if_neg hfits]
    simp

-- ---------------------------------------------------------------------------
-- The number
-- ---------------------------------------------------------------------------

theorem foldl_decodeHex (h : AllHex src) (heven : src.length = 2 * n) (k : Nat) :
    (decodeHex src).foldl (fun k b => 256 * k + b.toNat) k = hexNat k src := by
  induction n generalizing src k with
  | zero =>
    obtain rfl := List.eq_nil_of_length_eq_zero heven
    rfl
  | succ n ih =>
    obtain ⟨a, b, src, rfl, hlen⟩ := exists_pair heven
    obtain ⟨ha, hb, hsrc⟩ := h.cons_cons
    obtain ⟨d, hd, hvala, -⟩ := isHex_val ha
    obtain ⟨e, he, hvalb, -⟩ := isHex_val hb
    have hsum : 256 * k + (16 * d + e) = 16 * (16 * k + d) + e := by omega
    have hbyte : (16 * d + e) % 2 ^ 8 = 16 * d + e := Nat.mod_eq_of_lt (by omega)
    simp only [decodeHex, List.foldl_cons, ih hsrc hlen, hexNat, hvala, hvalb, Nat.mul_zero,
      Nat.zero_add, BitVec.toNat_ofNat, hbyte, hsum]

/-- The bytes are those of the number that the digits spell. -/
theorem foldl_hexBytes (h : AllHex src) :
    (hexBytes src).foldl (fun k b => 256 * k + b.toNat) 0 = hexNat 0 src := by
  rw [hexBytes]
  split
  · have hlen : src.length = 2 * (src.length / 2) := by omega
    exact foldl_decodeHex h hlen 0
  · have hlen : (0x30 :: src).length = 2 * (src.length / 2 + 1) := by
      simp only [List.length_cons]
      omega
    exact foldl_decodeHex h.cons_zero hlen 0

-- ---------------------------------------------------------------------------
-- Both
-- ---------------------------------------------------------------------------

/-- Digits become their bytes with zeros up to the size, another character ends the call, and
nothing behind the size changes. What the encoder makes of bytes is decoded to them. -/
theorem hex_chars_to_bytes (signed : Bool) (hdest : destSize ≤ dest.length) :
    (∀ src, (src.length + 1) / 2 ≤ destSize → AllHex src →
      sadHexCharsToBytesIn signed dest src destSize =
        .ok (.ok, ((hexBytes src).rightpad destSize 0).map some ++ dest.drop destSize)) ∧
    (∀ src, (src.length + 1) / 2 ≤ destSize → ¬ AllHex src →
      ∃ dest', sadHexCharsToBytesIn signed dest src destSize = .ok (.x, dest')) ∧
    (∀ src, ∃ ret dest', sadHexCharsToBytesIn signed dest src destSize = .ok (ret, dest') ∧
      dest'.length = dest.length ∧ dest'.drop destSize = dest.drop destSize) ∧
    (∀ b : List U8, b.length ≤ destSize →
      ∀ (out : Block U8) (outSize : Nat), outSize ≤ out.length → 2 * b.length ≤ outSize →
        ∃ digits : List U8, digits.length = 2 * b.length ∧
          sadBytesToHexCharsIn out b outSize =
            .ok (.ok, digits.map some ++ out.drop digits.length) ∧
          sadHexCharsToBytesIn signed dest digits destSize =
            .ok (.ok, (b.rightpad destSize 0).map some ++ dest.drop destSize)) := by
  refine ⟨?_, ?_, sadHexCharsToBytesIn_inside signed hdest, ?_⟩
  · intro src hfits hhex
    exact sadHexCharsToBytesIn_ok signed hdest hfits hhex
  · intro src hfits hhex
    obtain ⟨dest', hrun, -⟩ := sadHexCharsToBytesIn_x signed hdest hfits hhex
    exact ⟨dest', hrun⟩
  · intro b hb out outSize hout hfits
    have hlen := length_flatMap_hexPair b
    refine ⟨b.flatMap hexPair, hlen, ?_, ?_⟩
    · rw [sadBytesToHexCharsIn_ok hout hfits, hlen]
    · rw [sadHexCharsToBytesIn_ok signed hdest (by omega) (allHex_flatMap b), hexBytes_flatMap]

/-- Three digits in four bytes of which three are to be written. -/
theorem hex_chars_to_bytes_three :
    sadHexCharsToBytesIn true (Block.fresh 4) (ascii "aBc") 3 =
        .ok (.ok, [some 0x0a, some 0xbc, some 0, none]) ∧
      ∃ dest', sadHexCharsToBytesIn true (Block.fresh 4) (ascii "a-c") 3 = .ok (.x, dest') :=
  have hsize : 3 ≤ (Block.fresh 4 : Block U8).length := by decide
  have hboth := hex_chars_to_bytes true hsize
  ⟨hboth.1 (ascii "aBc") (by decide) (by decide), hboth.2.1 (ascii "a-c") (by decide) (by decide)⟩

end

end SwitchV32
