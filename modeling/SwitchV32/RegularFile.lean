import Mathlib.Algebra.Group.Nat.Defs

/-!
# An open regular file

What `read`, `write` and `lseek` of POSIX do to it. The position may be behind
the end. A read or a write moves as many bytes as the host is ready to move, up
to the number that is asked for, or fails.
-/

namespace SwitchV32

def offMax : Nat := 2 ^ 63 - 1

/-- What `read` and `write` move at most, however much they are asked for. -/
def transferMax : Nat := 0x7ffff000

structure RegularFile where
  content : List (BitVec 8)
  pos : Nat
  size_le : content.length ≤ offMax
  pos_le : pos ≤ offMax

namespace RegularFile

/-- A call on the open file. `SEEK_SET`, `SEEK_CUR` and `SEEK_END` are 0, 1 and 2. -/
inductive Op
  | read (count : Nat)
  | write (bytes : List (BitVec 8))
  | lseek (offset whence : Int)

def readAt (f : RegularFile) (n : Nat) : List (BitVec 8) × RegularFile :=
  let bytes := (f.content.drop f.pos).take n
  (bytes, { f with
    pos := f.pos + bytes.length
    pos_le := by
      have hsize := f.size_le
      have hpos := f.pos_le
      have hlength : bytes.length = min n (f.content.length - f.pos) := by simp [bytes]
      omega })

/-- The bytes over those from the position on, with zeros between the end and there. -/
def writeAt (f : RegularFile) (bytes : List (BitVec 8)) (h : f.pos + bytes.length ≤ offMax) :
    RegularFile where
  content :=
    if bytes = [] then f.content
    else (f.content.take f.pos).rightpad f.pos 0 ++ bytes ++
      f.content.drop (f.pos + bytes.length)
  pos := f.pos + bytes.length
  size_le := by
    have hsize := f.size_le
    split
    · exact hsize
    · simp only [List.length_append, List.length_rightpad, List.length_take, List.length_drop]
      omega
  pos_le := h

/-- `ready` is the number of bytes that the host is ready to move. -/
def read (f : RegularFile) (ready : Option Nat) (n : Nat) :
    Option (List (BitVec 8) × RegularFile) :=
  ready.map fun k => f.readAt (min (min n k) transferMax)

def write (f : RegularFile) (ready : Option Nat) (bytes : List (BitVec 8)) :
    Option (Nat × RegularFile) :=
  ready.map fun k =>
    let moved := bytes.take (min (min k transferMax) (offMax - f.pos))
    (moved.length, f.writeAt moved (by
      have hpos := f.pos_le
      have hlength : moved.length ≤ offMax - f.pos := by
        simp only [moved, List.length_take]
        omega
      omega))

def seekBase (f : RegularFile) (whence : Int) : Option Nat :=
  if whence = 0 then some 0
  else if whence = 1 then some f.pos
  else if whence = 2 then some f.content.length
  else none

def seekTo (f : RegularFile) (target : Int) : Option RegularFile :=
  if h : 0 ≤ target ∧ target ≤ offMax then
    some { f with pos := target.toNat, pos_le := by omega }
  else none

def lseek (f : RegularFile) (offset whence : Int) : Option RegularFile :=
  (f.seekBase whence).bind fun base => f.seekTo (base + offset)

/-- What a call returns, `none` for an error, and the file after it. -/
def perform (f : RegularFile) (ready : Option Nat) : Op → Option (Nat × RegularFile)
  | .read n => (f.read ready n).map fun r => (r.1.length, r.2)
  | .write bytes => f.write ready bytes
  | .lseek offset whence => (f.lseek offset whence).map fun f' => (f'.pos, f')

def answer (f : RegularFile) (ready : Option Nat) (op : Op) : Option Nat :=
  (f.perform ready op).map Prod.fst

/-- A call that fails leaves the file as it was. -/
def after (f : RegularFile) (ready : Option Nat) (op : Op) : RegularFile :=
  ((f.perform ready op).map Prod.snd).getD f

section
variable {f f' : RegularFile} {ready : Option Nat} {offset whence target : Int} {base n : Nat}
variable {bytes : List (BitVec 8)}

theorem ext_pos {g : RegularFile} (hcontent : f.content = g.content) (hpos : f.pos = g.pos) :
    f = g := by
  cases f
  cases g
  cases hcontent
  cases hpos
  rfl

theorem length_read (h : f.read ready n = some (bytes, f')) :
    bytes.length ≤ n ∧ bytes.length ≤ transferMax := by
  cases ready with
  | none => cases h
  | some k =>
    cases h
    simp only [List.length_take, List.length_drop]
    omega

theorem answer_lseek : f.answer ready (.lseek offset whence) = (f.lseek offset whence).map pos := by
  simp only [answer, perform, Option.map_map, Function.comp_def]

theorem after_lseek : f.after ready (.lseek offset whence) = (f.lseek offset whence).getD f := by
  simp only [after, perform, Option.map_map, Function.comp_def, Option.map_id']

theorem lseek_of_base (h : f.seekBase whence = some base) :
    f.lseek offset whence = f.seekTo (base + offset) := by
  rw [lseek, h, Option.bind_some]

theorem lseek_of_no_base (h : f.seekBase whence = none) : f.lseek offset whence = none := by
  rw [lseek, h, Option.bind_none]

theorem seekTo_cases (f : RegularFile) (target : Int) :
    (∃ f', f.seekTo target = some f' ∧ (f'.pos : Int) = target ∧ f'.content = f.content) ∨
      f.seekTo target = none ∧ ¬ (0 ≤ target ∧ target ≤ offMax) := by
  by_cases h : 0 ≤ target ∧ target ≤ offMax
  · exact .inl ⟨_, dif_pos h, Int.toNat_of_nonneg h.1, rfl⟩
  · exact .inr ⟨dif_neg h, h⟩

theorem content_after_lseek :
    (f.after ready (.lseek offset whence)).content = f.content := by
  rw [after_lseek]
  cases hbase : f.seekBase whence with
  | none => rw [lseek_of_no_base hbase, Option.getD_none]
  | some base =>
    rw [lseek_of_base hbase]
    obtain ⟨f', hseek, -, hcontent⟩ | ⟨hseek, -⟩ := f.seekTo_cases (base + offset)
    · rw [hseek, Option.getD_some, hcontent]
    · rw [hseek, Option.getD_none]

theorem seekBase_le (h : f.seekBase whence = some base) : base ≤ offMax := by
  have hsize := f.size_le
  have hpos := f.pos_le
  unfold seekBase at h
  split at h
  · cases h
    omega
  · split at h
    · cases h
      exact hpos
    · split at h
      · cases h
        exact hsize
      · cases h

end

end RegularFile

end SwitchV32
