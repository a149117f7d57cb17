import SwitchV32.Stub.Buffer

/-!
# Characters, numbers and hex digits

What the stub uses of the C library, in the C locale, and `stubb_a_dub/src/utils.c`.
A `char` is the byte that holds it.
-/

namespace SwitchV32

def ascii (s : String) : List U8 := s.toList.map fun c => BitVec.ofNat 8 c.toNat

-- ---------------------------------------------------------------------------
-- The C library
-- ---------------------------------------------------------------------------

def isSpace (c : U8) : Bool := c = 0x20 || (0x09 ≤ c && c ≤ 0x0d)

def hexVal (c : U8) : Option Nat :=
  if 0x30 ≤ c ∧ c ≤ 0x39 then some (c.toNat - 0x30)
  else if 0x41 ≤ c ∧ c ≤ 0x46 then some (c.toNat - 0x41 + 10)
  else if 0x61 ≤ c ∧ c ≤ 0x66 then some (c.toNat - 0x61 + 10)
  else none

def isHex (c : U8) : Bool := (hexVal c).isSome

/-- The number that the hex digits in front go on to from `n`. -/
def hexNat (n : Nat) : List U8 → Nat
  | [] => n
  | c :: cs =>
    match hexVal c with
    | some d => hexNat (16 * n + d) cs
    | none => n

def skipSign : List U8 → Bool × List U8
  | c :: cs => if c = 0x2d then (true, cs) else if c = 0x2b then (false, cs) else (false, c :: cs)
  | [] => (false, [])

/-- `0x`, where a digit follows -/
def skipBase : List U8 → List U8
  | z :: x :: c :: cs =>
    if z = 0x30 ∧ (x = 0x78 ∨ x = 0x58) ∧ isHex c then c :: cs else z :: x :: c :: cs
  | cs => cs

abbrev longMax : Int := 2 ^ 63 - 1
abbrev longMin : Int := -2 ^ 63

/-- `strtol(str, NULL, 16)` -/
def strtol16 (str : List U8) : Int :=
  let (neg, str) := skipSign (str.dropWhile isSpace)
  let n : Int := hexNat 0 (skipBase str)
  if neg then max (-n) longMin else min n longMax

/-- `%u` -/
def printU (n : Nat) : List U8 := (Nat.toDigits 10 n).map fun c => BitVec.ofNat 8 c.toNat

/-- `%d` -/
def printD (v : U32) : List U8 :=
  if v.toInt < 0 then 0x2d :: printU v.toInt.natAbs else printU v.toNat

def hexChar (n : Nat) : U8 := BitVec.ofNat 8 (if n < 10 then 0x30 + n else 0x61 + (n - 10))

/-- `%02x` -/
def print02x (n : Nat) : List U8 :=
  if n < 256 then [hexChar (n / 16), hexChar (n % 16)]
  else (Nat.toDigits 16 n).map fun c => BitVec.ofNat 8 c.toNat

-- ---------------------------------------------------------------------------
-- The functions of `utils.c`
-- ---------------------------------------------------------------------------

inductive UtilRet
  | ok | unexpected | x
  deriving DecidableEq, Repr

/-- The loop over `src`: `state` holds before the first digit of a byte. -/
def hexCharsLoop (dest : List U8) (state : Bool) (tmpVal : U8) (bytesIdx : Nat) :
    List U8 → UtilRet × List U8 × Nat
  | [] => (.ok, dest, bytesIdx)
  | c :: src =>
    match hexVal c with
    | none => (.x, dest, bytesIdx)
    | some d =>
      if state then hexCharsLoop dest (!state) (BitVec.ofNat 8 d <<< 4) bytesIdx src
      else
        let tmpVal := tmpVal + BitVec.ofNat 8 d
        hexCharsLoop (dest.set bytesIdx tmpVal) (!state) tmpVal (bytesIdx + 1) src

/-- `dest` is what is there before. -/
def sadHexCharsToBytes (dest src : List U8) : UtilRet × List U8 :=
  if dest.length < (src.length + 1) / 2 then (.unexpected, dest)
  else
    -- based on the length of the src, the parsing changes
    match hexCharsLoop dest (src.length % 2 == 0) 0 0 src with
    | (.ok, dest, bytesIdx) =>
      -- reset the remaining bytes
      (.ok, dest.take bytesIdx ++ List.replicate (dest.length - bytesIdx) 0)
    | (ret, dest, _) => (ret, dest)

/-- `src` is the string up to its NUL. -/
def sadHexStrToBytes (dest src : List U8) : UtilRet × List U8 := sadHexCharsToBytes dest src

def hexPair (v : U8) : List U8 := [hexChar (v >>> 4).toNat, hexChar (v &&& 0xf).toNat]

def sadBytesToHexChars (dest src : List U8) : UtilRet × List U8 :=
  if dest.length < 2 * src.length then (.unexpected, dest)
  else (.ok, src.flatMap hexPair ++ dest.drop (2 * src.length))

-- ---------------------------------------------------------------------------
-- Digits
-- ---------------------------------------------------------------------------

/-- Neither `$` nor `#`. -/
def Plain (l : List U8) : Prop := ∀ b ∈ l, b ≠ 0x24 ∧ b ≠ 0x23

instance (l : List U8) : Decidable (Plain l) := inferInstanceAs (Decidable (∀ b ∈ l, _))

section
variable {l l' : List U8} {c : U8} {n : Nat}

@[simp] theorem plain_nil : Plain [] := by simp [Plain]

@[simp] theorem plain_append : Plain (l ++ l') ↔ Plain l ∧ Plain l' := by
  constructor
  · intro h
    exact ⟨fun b hb => h b (List.mem_append_left _ hb),
      fun b hb => h b (List.mem_append_right _ hb)⟩
  · rintro ⟨h, h'⟩ b hb
    obtain hb | hb := List.mem_append.mp hb
    · exact h b hb
    · exact h' b hb

theorem plain_of_all (h : (l.all fun b => b != 0x24 && b != 0x23) = true) : Plain l := by
  simpa [Plain] using h

theorem hexChar_plain (h : n < 16) : Plain [hexChar n] := by
  have hall : ∀ m < 16, hexChar m ≠ 0x24 ∧ hexChar m ≠ 0x23 := by decide
  simpa [Plain] using hall n h

theorem hexVal_hexChar (h : n < 16) : hexVal (hexChar n) = some n := by
  have hall : ∀ m < 16, hexVal (hexChar m) = some m := by decide
  exact hall n h

theorem hexPair_eq {v : U8} {a b : Nat} (hb : b < 16) (hv : v.toNat = 16 * a + b) :
    hexPair v = [hexChar a, hexChar b] := by
  have hhigh : (v >>> 4).toNat = a := by
    rw [BitVec.toNat_ushiftRight, Nat.shiftRight_eq_div_pow]
    omega
  have hlow : (v &&& 0xf).toNat = b := by
    have hmask : (0xf : U8).toNat = 2 ^ 4 - 1 := rfl
    rw [BitVec.toNat_and, hmask, Nat.and_two_pow_sub_one_eq_mod]
    omega
  rw [hexPair, hhigh, hlow]

theorem hexPair_digits (v : U8) :
    hexPair v = [hexChar (v.toNat / 16), hexChar (v.toNat % 16)] :=
  hexPair_eq (Nat.mod_lt _ (by decide)) (by omega)

theorem length_flatMap_hexPair (b : List U8) : (b.flatMap hexPair).length = 2 * b.length := by
  induction b with
  | nil => rfl
  | cons v b ih =>
    rw [List.flatMap_cons, List.length_append, ih, List.length_cons]
    simp only [hexPair, List.length_cons, List.length_nil]
    omega

theorem print02x_eq (h : n < 256) : print02x n = [hexChar (n / 16), hexChar (n % 16)] := if_pos h

end

end SwitchV32
