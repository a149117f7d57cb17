import SwitchV32.Loader
import SwitchV32.Supervisor.Vm
import SwitchV32.User.Tokens

/-!
# The arguments of the program

`emu_args` of `user/emu.c`, which lays the arguments out in the last page of
guest memory: their number, the pointers to them, a null word, and the strings.
-/

namespace SwitchV32

open Effect
open Supervisor (pageSize)

-- ---------------------------------------------------------------------------
-- `emu_args`
-- ---------------------------------------------------------------------------

/-- `mem_wb_ptr_s` from a buffer of the host -/
def memWbPtr (addr : U32) (bytes : List U8) : LdM Unit := do
  modify fun s => s.write addr.toNat bytes.length
  ldPut addr.toNat bytes

def wordBytes (v : U32) : List U8 := (List.range 4).map fun i => (v >>> (8 * i)).setWidth 8

def ldWw (addr v : U32) : LdM Unit := memWbPtr addr (wordBytes v)

def strlen (str : List U8) : Option Nat := str.findIdx? (· == 0)

/-- What is left of the loop over the arguments: `str` is the buffer from the pointer on. -/
def emuArgsLoop (argStrStart argPtrStart : U32) : Nat → Nat → List U8 → U32 → LdM Unit
  | 0, _, _, _ => return
  | n + 1, i, str, strSizeInc =>
    match strlen str with
    | none => throw .fault
    | some len => do
      -- keep in mind the '\0'
      let strSize : U32 := BitVec.ofNat 32 len + 1
      memWbPtr (argStrStart + strSizeInc) (str.take strSize.toNat)
      ldWw (argPtrStart + BitVec.ofNat 32 (i * 4)) (argStrStart + strSizeInc)
      emuArgsLoop argStrStart argPtrStart n (i + 1) (str.drop strSize.toNat) (strSizeInc + strSize)

/-- `ctx.elf_args` is the string without its NUL. -/
def emuArgs (stackBase : U32) (elfArgs : List U8) : LdM Unit := do
  let tmpStrSz : U32 := BitVec.ofNat 32 elfArgs.length
  if pageSize ≤ tmpStrSz then throw .crash
  else
    -- the temp string, tokenized to count argc
    let (elfArgc, tmpStr) := tokenize (elfArgs.take tmpStrSz.toNat)
    let argc : U32 := BitVec.ofNat 32 elfArgc
    ldWw stackBase argc
    let argStrStart := stackBase + 4 + (argc + 1) * 4
    let argPtrStart := stackBase + 4
    emuArgsLoop argStrStart argPtrStart elfArgc 0 (tmpStr ++ [0]) 0
    ldWw (argPtrStart + argc * 4) 0

def stackBase (m : Mem) : U32 := BitVec.ofNat 32 (m.size - pageSize.toNat)

-- ---------------------------------------------------------------------------
-- A list of writes
-- ---------------------------------------------------------------------------

def writeAll (base : U32) (ws : List (Overlay U8)) : LdM Unit :=
  ws.forM fun o => memWbPtr (base + BitVec.ofNat 32 o.start) o.values

def LdState.written (s : LdState) (addr : U32) (bytes : List U8) : LdState :=
  (s.write addr.toNat bytes.length).put addr.toNat bytes

section
variable {s s' : LdState} {base addr : U32} {bytes : List U8} {o : Overlay U8}
variable {os ws : List (Overlay U8)} {P : Nat × Nat → Prop}

theorem memWbPtr_runs (h : addr.toNat + bytes.length ≤ s.mem.size) :
    Runs (memWbPtr addr bytes) s () (s.written addr bytes) :=
  Runs.bind (out_modify _ s) (ldPut_runs h)

theorem memWbPtr_writes (addr : U32) (bytes : List U8) (s : LdState) :
    (out (memWbPtr addr bytes) s).2.writes = (addr.toNat, bytes.length) :: s.writes := by
  rw [memWbPtr, out_bind_ok _ (out_modify _ s), ldPut, out_bind_ok _ (out_get _)]
  split
  · rfl
  · rfl

theorem memWbPtr_of_runs (h : Runs (memWbPtr addr bytes) s () s') :
    addr.toNat + bytes.length ≤ s.mem.size ∧ s' = s.written addr bytes := by
  rw [Runs, memWbPtr, out_bind_ok _ (out_modify _ s), ldPut, out_bind_ok _ (out_get _)] at h
  split at h
  · rename_i hin
    cases h
    exact ⟨hin, rfl⟩
  · cases h

theorem memWbPtr_keeps (w : Nat × Nat) (addr : U32) (bytes : List U8) :
    Keeps (fun s => w ∈ s.writes) (memWbPtr addr bytes) := by
  intro s hs
  rw [memWbPtr_writes]
  exact .tail _ hs

theorem writeAll_cons (base : U32) (o : Overlay U8) (ws : List (Overlay U8)) :
    writeAll base (o :: ws) =
      memWbPtr (base + BitVec.ofNat 32 o.start) o.values >>= fun _ => writeAll base ws := rfl

theorem writeAll_append (base : U32) (os ws : List (Overlay U8)) :
    writeAll base (os ++ ws) = writeAll base os >>= fun _ => writeAll base ws := by
  induction os with
  | nil => rfl
  | cons o os ih => rw [List.cons_append, writeAll_cons, writeAll_cons, ih, bind_assoc]

theorem writeAll_keeps (w : Nat × Nat) (base : U32) (ws : List (Overlay U8)) :
    Keeps (fun s => w ∈ s.writes) (writeAll base ws) :=
  Keeps.forM (fun _ => memWbPtr_keeps w _ _) ws

/-- Where all writes that are kept are inside memory, none has failed. -/
theorem writeAll_every (hP : ∀ w, P w → w.1 + w.2 ≤ s.mem.size) :
    (∀ w ∈ (out (writeAll base ws) s).2.writes, P w) ↔ (∀ w ∈ s.writes, P w) ∧
      ∀ o ∈ ws, P ((base + BitVec.ofNat 32 o.start).toNat, o.values.length) := by
  induction ws generalizing s with
  | nil => simp [writeAll, out_pure]
  | cons o ws ih =>
    rw [writeAll_cons, List.forall_mem_cons]
    by_cases hin : P ((base + BitVec.ofNat 32 o.start).toNat, o.values.length)
    · have hrun := memWbPtr_runs (s := s) (hP _ hin)
      have hsize : ∀ w, P w →
          w.1 + w.2 ≤ (s.written (base + BitVec.ofNat 32 o.start) o.values).mem.size := hP
      rw [out_bind_ok _ hrun, ih hsize]
      simp only [LdState.written, LdState.put, LdState.write, List.forall_mem_cons, hin, true_and]
    · -- it stays among the writes, however far the others get
      have hkept : ((base + BitVec.ofNat 32 o.start).toNat, o.values.length) ∈
          (out (memWbPtr (base + BitVec.ofNat 32 o.start) o.values >>= fun _ => writeAll base ws)
            s).2.writes := by
        refine Keeps.after (P := fun s : LdState => _ ∈ s.writes) ?_
          fun _ => writeAll_keeps _ base ws
        rw [memWbPtr_writes]
        exact .head _
      exact iff_of_false (fun h => hin (h _ hkept)) fun h => hin h.2.1

theorem writeAll_runs (h : ∀ o ∈ ws,
    (base + BitVec.ofNat 32 o.start).toNat + o.values.length ≤ s.mem.size) :
    ∃ s', Runs (writeAll base ws) s () s' := by
  induction ws generalizing s with
  | nil => exact ⟨s, rfl⟩
  | cons o ws ih =>
    rw [List.forall_mem_cons] at h
    obtain ⟨s', hs'⟩ := ih (s := s.written (base + BitVec.ofNat 32 o.start) o.values) h.2
    exact ⟨s', (memWbPtr_runs h.1).bind hs'⟩

theorem toNat_add_ofNat (base : U32) (n : Nat) :
    (base + BitVec.ofNat 32 n).toNat = (base.toNat + n) % 2 ^ 32 := by
  rw [BitVec.toNat_add, BitVec.toNat_ofNat, Nat.add_mod_mod]

theorem writeAll_of_runs (h : Runs (writeAll base ws) s () s')
    (hws : ∀ o ∈ ws, o.start + o.values.length ≤ 2 ^ 32) :
    s'.mem.size = s.mem.size ∧
      (∀ o ∈ ws, (base + BitVec.ofNat 32 o.start).toNat + o.values.length ≤ s.mem.size) ∧
      ∀ k < 2 ^ 32, Overlay.around (2 ^ 32) base.toNat s'.mem.byte k =
        Overlay.last ws (Overlay.around (2 ^ 32) base.toNat s.mem.byte) k := by
  induction ws generalizing s with
  | nil =>
    cases h
    exact ⟨rfl, by simp, fun _ _ => rfl⟩
  | cons o ws ih =>
    rw [List.forall_mem_cons] at hws
    obtain ⟨⟨⟩, s₁, hfirst, hrest⟩ := Runs.of_bind h
    obtain ⟨hin, rfl⟩ := memWbPtr_of_runs hfirst
    obtain ⟨hsize, hall, hbytes⟩ := ih hrest hws.2
    refine ⟨hsize, List.forall_mem_cons.mpr ⟨hin, hall⟩, fun k hk => ?_⟩
    have hfits := hin
    rw [toNat_add_ofNat] at hfits
    have hput := Overlay.put_around (f := s.mem.byte) base.toNat hk hws.1
      (Nat.le_trans hfits s.mem.size_le)
    rw [hbytes k hk, Overlay.last_cons]
    refine Overlay.last_congr (Eq.trans ?_ hput)
    simp only [LdState.written, LdState.put, LdState.write, toNat_add_ofNat, Overlay.placed]

end

-- ---------------------------------------------------------------------------
-- The layout
-- ---------------------------------------------------------------------------

/-- For each token from the `i`th on its string, the first one at distance `off`, and the pointer to
it. -/
def argStrings (base : U32) : List Piece → Nat → Nat → List (Overlay U8)
  | [], _, _ => []
  | p :: ps, i, off => ⟨off, p.text ++ [0]⟩ ::
      ⟨4 + 4 * i, wordBytes (base + BitVec.ofNat 32 off)⟩ ::
      argStrings base ps (i + 1) (off + (p.text.length + 1))

def argWrites (base : U32) (ps : List Piece) : List (Overlay U8) :=
  ⟨0, wordBytes (BitVec.ofNat 32 ps.length)⟩ ::
    (argStrings base ps 0 (8 + 4 * ps.length) ++ [⟨4 + 4 * ps.length, wordBytes 0⟩])

def stringsSize (ps : List Piece) : Nat := (ps.map fun p => p.text.length + 1).sum

section
variable {base argStrStart strSizeInc : U32} {p : Piece} {ps : List Piece} {i off : Nat}
variable {buf tail l args : List U8}

@[simp] theorem stringsSize_cons :
    stringsSize (p :: ps) = p.text.length + 1 + stringsSize ps := by simp [stringsSize]

@[simp] theorem length_wordBytes (v : U32) : (wordBytes v).length = 4 := by simp [wordBytes]

theorem strlen_append (h : (0 : U8) ∉ l) (rest : List U8) :
    strlen (l ++ 0 :: rest) = some l.length := by
  induction l with
  | nil => rfl
  | cons b l ih =>
    rw [List.mem_cons, not_or] at h
    have hb : (b == 0) = false := by simpa using Ne.symm h.1
    have hrest := ih h.2
    unfold strlen at hrest ⊢
    rw [List.cons_append, List.findIdx?_cons, hb, hrest]
    rfl

/-- The loop finds the tokens where `strtok` has ended them. -/
theorem emuArgsLoop_eq (hbuf : buf = (ps.flatMap fun p => p.text ++ [0]) ++ tail)
    (hzero : ∀ p ∈ ps, (0 : U8) ∉ p.text) (hsize : stringsSize ps < 2 ^ 32)
    (hstart : argStrStart + strSizeInc = base + BitVec.ofNat 32 off) :
    emuArgsLoop argStrStart (base + 4) ps.length i buf strSizeInc =
      writeAll base (argStrings base ps i off) := by
  induction ps generalizing i buf strSizeInc off with
  | nil => rfl
  | cons p ps ih =>
    rw [List.forall_mem_cons] at hzero
    rw [stringsSize_cons] at hsize
    have hcons : buf = p.text ++ 0 :: ((ps.flatMap fun p => p.text ++ [0]) ++ tail) := by
      simp [hbuf]
    have hlen : strlen buf = some p.text.length := hcons ▸ strlen_append hzero.1 _
    have hstrSize : (BitVec.ofNat 32 p.text.length + 1 : U32).toNat = p.text.length + 1 := by
      have hone : (1 : U32).toNat = 1 := rfl
      rw [BitVec.toNat_add, BitVec.toNat_ofNat]
      omega
    have hsplit : buf = (p.text ++ [0]) ++ ((ps.flatMap fun p => p.text ++ [0]) ++ tail) := by
      simp [hbuf]
    have htake : buf.take (p.text.length + 1) = p.text ++ [0] := by
      rw [hsplit, List.take_left' (by simp)]
    have hdrop : buf.drop (p.text.length + 1) = (ps.flatMap fun p => p.text ++ [0]) ++ tail := by
      rw [hsplit, List.drop_left' (by simp)]
    have hptr : base + 4 + BitVec.ofNat 32 (i * 4) = base + BitVec.ofNat 32 (4 + 4 * i) := by
      rw [Nat.mul_comm, BitVec.ofNat_add, BitVec.add_assoc]
      rfl
    have hnext : argStrStart + (strSizeInc + (BitVec.ofNat 32 p.text.length + 1)) =
        base + BitVec.ofNat 32 (off + (p.text.length + 1)) := by
      rw [← BitVec.add_assoc, hstart, BitVec.ofNat_add, BitVec.ofNat_add, BitVec.add_assoc]
      rfl
    rw [List.length_cons, emuArgsLoop, hlen]
    simp only [hstrSize, htake, hdrop, hptr, hstart]
    rw [ih rfl hzero.2 (by omega) hnext]
    rfl

theorem emuArgs_eq (h : Pieces args ps) (hzero : (0 : U8) ∉ args) (hlen : args.length < 4096)
    (hsize : stringsSize ps < 2 ^ 32) (base : U32) :
    emuArgs base args = writeAll base (argWrites base ps) := by
  obtain ⟨hargc, tail, hbuf⟩ := h.tokenize_eq
  have htmp : (BitVec.ofNat 32 args.length : U32).toNat = args.length := by
    rw [BitVec.toNat_ofNat]
    omega
  have haccepted : ¬ pageSize ≤ (BitVec.ofNat 32 args.length : U32) := by
    rw [BitVec.le_def, htmp]
    exact Nat.not_le_of_lt hlen
  have hstart : base + 4 + (BitVec.ofNat 32 ps.length + 1) * 4 + 0 =
      base + BitVec.ofNat 32 (8 + 4 * ps.length) := by
    have hoff : 8 + 4 * ps.length = 4 + (ps.length + 1) * 4 := by omega
    refine (BitVec.add_zero _).trans ?_
    rw [hoff, BitVec.ofNat_add, BitVec.ofNat_mul, BitVec.ofNat_add, BitVec.add_assoc]
    rfl
  have hnull : base + 4 + BitVec.ofNat 32 ps.length * 4 =
      base + BitVec.ofNat 32 (4 + 4 * ps.length) := by
    rw [Nat.mul_comm 4, BitVec.ofNat_add, BitVec.ofNat_mul, BitVec.add_assoc]
    rfl
  unfold emuArgs
  dsimp only
  rw [if_neg haccepted, htmp, List.take_length, hargc, hnull,
    emuArgsLoop_eq hbuf (h.not_mem hzero) hsize hstart, argWrites, writeAll_cons, writeAll_append]
  have hbase : base + BitVec.ofNat 32 0 = base := BitVec.add_zero base
  have hlast : writeAll base [⟨4 + 4 * ps.length, wordBytes 0⟩] =
      ldWw (base + BitVec.ofNat 32 (4 + 4 * ps.length)) 0 := bind_pure_unit
  rw [hbase, hlast]
  rfl

end

-- ---------------------------------------------------------------------------
-- The page
-- ---------------------------------------------------------------------------

def InPage (m : Mem) (w : Nat × Nat) : Prop := (stackBase m).toNat ≤ w.1 ∧ w.1 + w.2 ≤ m.size

/-- All that `emu_args` writes, to its end or up to where it stops. -/
def ArgsInPage (m : Mem) (args : List U8) : Prop :=
  ∀ w ∈ (out (emuArgs (stackBase m) args) (.start m)).2.writes, InPage m w

section
variable {m : Mem} {base : U32} {ps : List Piece} {i off n : Nat} {args : List U8}
variable {o : Overlay U8}

theorem toNat_stackBase (hmem : 4096 ≤ m.size) : (stackBase m).toNat = m.size - 4096 := by
  have hsize := m.size_le
  have hpage : pageSize.toNat = 4096 := rfl
  rw [stackBase, BitVec.toNat_ofNat, hpage]
  omega

/-- Addresses that have gone round are below the page. -/
theorem inPage_iff (hmem : 4096 ≤ m.size) (hoff : off < 2 ^ 32) (hn : 0 < n) :
    InPage m ((stackBase m + BitVec.ofNat 32 off).toNat, n) ↔ off + n ≤ 4096 := by
  have hsize := m.size_le
  simp only [InPage, toNat_add_ofNat, toNat_stackBase hmem]
  omega

theorem argStrings_within (base : U32) (ps : List Piece) (i off : Nat)
    (hoff : 4 + 4 * (i + ps.length) ≤ off) :
    ∀ o ∈ argStrings base ps i off, 0 < o.values.length ∧
      o.start + o.values.length ≤ off + stringsSize ps := by
  induction ps generalizing i off with
  | nil => simp [argStrings]
  | cons p ps ih =>
    rw [List.length_cons] at hoff
    have hrest := ih (i + 1) (off + (p.text.length + 1)) (by omega)
    simp only [argStrings, List.forall_mem_cons, length_wordBytes, List.length_append,
      List.length_cons, List.length_nil, stringsSize_cons]
    refine ⟨⟨by omega, by omega⟩, ⟨by omega, by omega⟩, fun o ho => ?_⟩
    obtain ⟨hpos, hle⟩ := hrest o ho
    exact ⟨hpos, by omega⟩

theorem argStrings_last (base : U32) (i off : Nat) (hne : ps ≠ []) :
    ∃ o ∈ argStrings base ps i off, o.start + o.values.length = off + stringsSize ps := by
  induction ps generalizing i off with
  | nil => exact absurd rfl hne
  | cons p ps ih =>
    cases ps with
    | nil => exact ⟨_, .head _, by simp [stringsSize]⟩
    | cons p' ps =>
      obtain ⟨o, ho, hend⟩ := ih (i + 1) (off + (p.text.length + 1)) (List.cons_ne_nil _ _)
      exact ⟨o, .tail _ (.tail _ ho), by rw [hend, stringsSize_cons (p := p)]; omega⟩

/-- The last string is what ends last. -/
theorem argWrites_within (base : U32) (ps : List Piece) :
    (∀ o ∈ argWrites base ps, 0 < o.values.length ∧
      o.start + o.values.length ≤ 8 + 4 * ps.length + stringsSize ps) ∧
    ∃ o ∈ argWrites base ps, o.start + o.values.length = 8 + 4 * ps.length + stringsSize ps := by
  constructor
  · have hstrings := argStrings_within base ps 0 (8 + 4 * ps.length) (by omega)
    simp only [argWrites, List.forall_mem_cons, List.mem_append, List.mem_singleton]
    refine ⟨⟨by simp, by simp; omega⟩, ?_⟩
    rintro o (ho | rfl)
    · exact hstrings o ho
    · exact ⟨by simp, by simp; omega⟩
  · by_cases hne : ps = []
    · subst hne
      exact ⟨_, .tail _ (.head _), rfl⟩
    · obtain ⟨o, ho, hend⟩ := argStrings_last base 0 (8 + 4 * ps.length) hne
      exact ⟨o, .tail _ (List.mem_append_left _ ho), hend⟩

theorem length_le_stringsSize (ps : List Piece) : ps.length ≤ stringsSize ps := by
  induction ps with
  | nil => exact Nat.zero_le _
  | cons p ps ih =>
    rw [List.length_cons, stringsSize_cons]
    omega

theorem Pieces.stringsSize_le (h : Pieces args ps) : stringsSize ps ≤ args.length + 1 := by
  by_cases hne : ps = []
  · simp [hne, stringsSize]
  · have htrimmed := h.length_trimmed hne
    have hle := (List.rdropWhile_prefix (· == space) args).length_le
    unfold trimmed at htrimmed
    rw [stringsSize, ← htrimmed]
    omega

theorem Pieces.in_page_iff (h : Pieces args ps) (hmem : 4096 ≤ m.size) (hzero : (0 : U8) ∉ args)
    (hlen : args.length < 4096) :
    ArgsInPage m args ↔ 8 + 4 * ps.length + stringsSize ps ≤ 4096 := by
  have hsize := h.stringsSize_le
  have hcount := length_le_stringsSize ps
  obtain ⟨hwithin, o, ho, hend⟩ := argWrites_within (stackBase m) ps
  rw [ArgsInPage, emuArgs_eq h hzero hlen (by omega), writeAll_every fun w hw => hw.2]
  constructor
  · rintro ⟨-, hall⟩
    obtain ⟨hpos, hle⟩ := hwithin o ho
    have hin := (inPage_iff hmem (by omega) hpos).mp (hall o ho)
    omega
  · intro hfits
    refine ⟨by rintro w ⟨⟩, fun o ho => ?_⟩
    obtain ⟨hpos, hle⟩ := hwithin o ho
    exact (inPage_iff hmem (by omega) hpos).mpr (by omega)

/-- Every byte is written to the last page exactly if there are no tokens, or it has room for four
bytes of each of them, the string up to the last one and nine bytes more. -/
theorem args_in_page_iff (hmem : pageSize.toNat ≤ m.size) (hzero : (0 : U8) ∉ args)
    (hlen : args.length < pageSize.toNat) :
    ArgsInPage m args ↔ tokens args = [] ∨
      4 * (tokens args).length + (trimmed args).length + 9 ≤ pageSize.toNat := by
  obtain ⟨ps, hps⟩ := exists_pieces args
  have hpage : pageSize.toNat = 4096 := rfl
  rw [hps.in_page_iff hmem hzero hlen, hps.tokens_eq, List.length_map, List.map_eq_nil_iff, hpage]
  by_cases hne : ps = []
  · subst hne
    exact iff_of_true (by decide) (.inl rfl)
  · have htrimmed := hps.length_trimmed hne
    rw [stringsSize, ← htrimmed]
    constructor
    · exact fun hfits => .inr (by omega)
    · rintro (hnil | hfits)
      · exact absurd hnil hne
      · omega

/-- A page of guest memory, and three tokens. -/
theorem args_in_page_iff_short : ArgsInPage (.ofWords []) (ascii "ls -l a") :=
  (args_in_page_iff (by decide) (by decide) (by decide)).mpr (.inr (by decide))

def Piece.one (c : U8) (h : c ≠ space) : Piece :=
  ⟨0, [c], List.cons_ne_nil _ _, by simpa using h.symm⟩

/-- Seven hundred arguments of one character, in 1400 bytes. -/
theorem args_in_page_fails :
    (0 : U8) ∉ (List.replicate 700 (ascii "a ")).flatten ∧
      (List.replicate 700 (ascii "a ")).flatten.length = 1400 ∧
      ¬ ArgsInPage (.ofWords []) (List.replicate 700 (ascii "a ")).flatten := by
  have hpieces (n : Nat) : Pieces (List.replicate n (ascii "a ")).flatten
      (List.replicate n (Piece.one 0x61 (by decide))) := by
    induction n with
    | zero => exact .blank 0
    | succ n ih => exact .cons (Piece.one 0x61 (by decide)) ih
  have hstrings (n : Nat) :
      stringsSize (List.replicate n (Piece.one 0x61 (by decide))) = 2 * n := by
    simp [stringsSize, Piece.text, Piece.one, Nat.mul_comm]
  have hlength (n : Nat) : (List.replicate n (ascii "a ")).flatten.length = 2 * n := by
    have hlen : (ascii "a ").length = 2 := rfl
    simp [hlen, Nat.mul_comm]
  have hzero : (0 : U8) ∉ (List.replicate 700 (ascii "a ")).flatten := by
    simp only [List.mem_flatten, List.mem_replicate, not_exists, not_and]
    rintro l ⟨-, rfl⟩
    decide
  refine ⟨hzero, hlength 700, fun h => ?_⟩
  have hlen := hlength 700
  have hfits := ((hpieces 700).in_page_iff (by decide) hzero (by omega)).mp h
  rw [hstrings, List.length_replicate] at hfits
  omega

end

-- ---------------------------------------------------------------------------
-- What the guest reads
-- ---------------------------------------------------------------------------

def StringAt (m : Mem) (ptr : U32) (token : List U8) : Prop :=
  ptr.toNat + (token.length + 1) ≤ m.size ∧
    ∀ k < token.length + 1, m.byte (ptr.toNat + k) = (token ++ [0]).getD k 0

/-- `n` bytes from the one address and `k` bytes from the other do not meet. -/
def Apart (a : U32) (n : Nat) (b : U32) (k : Nat) : Prop :=
  a.toNat + n ≤ b.toNat ∨ b.toNat + k ≤ a.toNat

/-- The number of the tokens, the pointers to them and a null word, and the tokens themselves. -/
structure LaidOut (m : Mem) (base : U32) (toks : List (List U8)) (ptr : Nat → U32) : Prop where
  argc : memRw m base = .ok (BitVec.ofNat 32 toks.length)
  argv : ∀ i < toks.length, memRw m (base + BitVec.ofNat 32 (4 + 4 * i)) = .ok (ptr i)
  null : memRw m (base + BitVec.ofNat 32 (4 + 4 * toks.length)) = .ok 0
  strings : ∀ i (h : i < toks.length), StringAt m (ptr i) toks[i]
  apart : ∀ i j (hi : i < toks.length) (hj : j < toks.length), i ≠ j →
    Apart (ptr i) (toks[i].length + 1) (ptr j) (toks[j].length + 1)
  clear : ∀ i (h : i < toks.length),
    Apart (ptr i) (toks[i].length + 1) (base + 4) (4 * (toks.length + 1))

/-- `emu_args` comes to its end, and the guest finds the tokens. -/
def ArgsReadable (m : Mem) (args : List U8) : Prop := ∃ s' ptr,
  Runs (emuArgs (stackBase m) args) (.start m) () s' ∧
    LaidOut s'.mem (stackBase m) (tokens args) ptr

def layoutSize (toks : List (List U8)) : Nat :=
  8 + 4 * toks.length + (toks.map fun t => t.length + 1).sum

section
variable {m : Mem} {s s' : LdState} {base a v : U32} {ps : List Piece} {i j off : Nat}
variable {ws : List (Overlay U8)} {o : Overlay U8} {args : List U8}

theorem memRw_of_bytes (hin : a.toNat + 4 ≤ m.size)
    (h : ∀ k < 4, m.byte (a.toNat + k) = (wordBytes v).getD k 0) : memRw m a = .ok v := by
  have hbyte (k : Nat) (hk : k < 4) :
      (m.byte (a.toNat + k)).toNat = v.toNat / 2 ^ (8 * k) % 256 := by
    rw [h k hk]
    simp [wordBytes, hk, BitVec.toNat_setWidth, BitVec.toNat_ushiftRight, Nat.shiftRight_eq_div_pow]
  have h₀ := hbyte 0 (by decide)
  have h₁ := hbyte 1 (by decide)
  have h₂ := hbyte 2 (by decide)
  have h₃ := hbyte 3 (by decide)
  rw [memRw, Mem.load, if_pos hin]
  refine congrArg Except.ok (BitVec.eq_of_toNat_eq ?_)
  rw [BitVec.toNat_ofNat]
  simp only [bytesLE, Nat.add_assoc, Nat.reduceAdd, Nat.add_zero] at h₀ h₁ h₂ h₃ ⊢
  omega

theorem written_of_runs (h : Runs (writeAll base ws) s () s')
    (hapart : ws.Pairwise fun o o' => ∀ k, ¬ (o.Covers k ∧ o'.Covers k))
    (hws : ∀ o ∈ ws, o.start + o.values.length ≤ 2 ^ 32) (ho : o ∈ ws) :
    (base + BitVec.ofNat 32 o.start).toNat + o.values.length ≤ s'.mem.size ∧
      ∀ k < o.values.length,
        s'.mem.byte ((base + BitVec.ofNat 32 o.start).toNat + k) = o.values.getD k 0 := by
  obtain ⟨hsize, hin, hbytes⟩ := writeAll_of_runs h hws
  refine ⟨hsize ▸ hin o ho, fun k hk => ?_⟩
  have hfits := Nat.le_trans (hin o ho) s.mem.size_le
  rw [toNat_add_ofNat] at hfits ⊢
  have hcovers : o.Covers (o.start + k) := ⟨Nat.le_add_right _ _, by omega⟩
  have hlast := hbytes (o.start + k) (by have := hws o ho; omega)
  rw [Overlay.last_of_pairwise hapart ho hcovers, Overlay.put, if_pos hcovers, Overlay.around,
    Overlay.add_mod_of_covers hfits hcovers, Nat.add_sub_cancel_left] at hlast
  rw [hlast]
  simp [hk]

theorem argStrings_mem (base : U32) (ps : List Piece) (i off : Nat) :
    ∀ o ∈ argStrings base ps i off, off ≤ o.start ∨
      (4 + 4 * i ≤ o.start ∧ o.start + o.values.length ≤ 4 + 4 * (i + ps.length)) := by
  induction ps generalizing i off with
  | nil => simp [argStrings]
  | cons p ps ih =>
    simp only [argStrings, List.forall_mem_cons, length_wordBytes, List.length_cons]
    refine ⟨.inl (Nat.le_refl _), .inr ⟨by omega, by omega⟩, fun o ho => ?_⟩
    obtain hstring | ⟨hptr, hend⟩ := ih _ _ o ho
    · exact .inl (by omega)
    · exact .inr ⟨by omega, by omega⟩

theorem argStrings_apart (hoff : 4 + 4 * (i + ps.length) ≤ off) :
    (argStrings base ps i off).Pairwise fun o o' => ∀ k, ¬ (o.Covers k ∧ o'.Covers k) := by
  induction ps generalizing i off with
  | nil => exact .nil
  | cons p ps ih =>
    rw [List.length_cons] at hoff
    simp only [argStrings, List.pairwise_cons, List.forall_mem_cons]
    refine ⟨⟨?_, fun o ho => ?_⟩, fun o ho => ?_, ih (by omega)⟩
    · rintro k ⟨⟨h₁, h₂⟩, h₃, h₄⟩
      simp only [length_wordBytes, List.length_append, List.length_singleton] at *
      omega
    · have hmem := argStrings_mem _ _ _ _ o ho
      rintro k ⟨⟨h₁, h₂⟩, h₃, h₄⟩
      simp only [List.length_append, List.length_singleton] at *
      omega
    · have hmem := argStrings_mem _ _ _ _ o ho
      rintro k ⟨⟨h₁, h₂⟩, h₃, h₄⟩
      simp only [length_wordBytes] at *
      omega

theorem argWrites_apart :
    (argWrites base ps).Pairwise fun o o' => ∀ k, ¬ (o.Covers k ∧ o'.Covers k) := by
  have hmem := argStrings_mem base ps 0 (8 + 4 * ps.length)
  rw [argWrites, List.pairwise_cons, List.pairwise_append]
  refine ⟨fun o ho => ?_, argStrings_apart (by omega), .cons (by simp) .nil, fun o ho o' ho' => ?_⟩
  · have hstart : 4 ≤ o.start := by
      obtain ho | ho := List.mem_append.mp ho
      · have := hmem o ho
        omega
      · obtain rfl := List.mem_singleton.mp ho
        exact Nat.le_add_right _ _
    rintro k ⟨⟨h₁, h₂⟩, h₃, h₄⟩
    simp only [length_wordBytes] at h₁ h₂
    omega
  · obtain rfl := List.mem_singleton.mp ho'
    have := hmem o ho
    rintro k ⟨⟨h₁, h₂⟩, h₃, h₄⟩
    simp only [length_wordBytes] at h₄
    dsimp only at h₃
    omega

def stringOff (ps : List Piece) (j : Nat) : Nat := 8 + 4 * ps.length + stringsSize (ps.take j)

theorem argStrings_get (base : U32) (i off : Nat) (hj : j < ps.length) :
    ⟨off + stringsSize (ps.take j), ps[j].text ++ [0]⟩ ∈ argStrings base ps i off ∧
    ⟨4 + 4 * (i + j), wordBytes (base + BitVec.ofNat 32 (off + stringsSize (ps.take j)))⟩ ∈
      argStrings base ps i off := by
  induction ps generalizing i j off with
  | nil => exact absurd hj (Nat.not_lt_zero _)
  | cons p ps ih =>
    cases j with
    | zero =>
      have hzero : off + stringsSize ((p :: ps).take 0) = off := rfl
      rw [hzero]
      exact ⟨.head _, .tail _ (.head _)⟩
    | succ j =>
      have hrest := ih (i + 1) (off + (p.text.length + 1)) (Nat.lt_of_succ_lt_succ hj)
      have hoff : off + stringsSize ((p :: ps).take (j + 1)) =
          off + (p.text.length + 1) + stringsSize (ps.take j) := by
        rw [List.take_succ_cons, stringsSize_cons]
        omega
      have hindex : i + (j + 1) = i + 1 + j := by omega
      rw [hoff, hindex]
      exact ⟨.tail _ (.tail _ hrest.1), .tail _ (.tail _ hrest.2)⟩

/-- What the guest finds after `emu_args`, whatever the string is. -/
theorem laidOut_of_runs (h : Runs (writeAll base (argWrites base ps)) s () s')
    (hsize : 8 + 4 * ps.length + stringsSize ps ≤ 2 ^ 32) :
    memRw s'.mem base = .ok (BitVec.ofNat 32 ps.length) ∧
    memRw s'.mem (base + BitVec.ofNat 32 (4 + 4 * ps.length)) = .ok 0 ∧
    ∀ j (hj : j < ps.length),
      memRw s'.mem (base + BitVec.ofNat 32 (4 + 4 * j)) =
        .ok (base + BitVec.ofNat 32 (stringOff ps j)) ∧
      StringAt s'.mem (base + BitVec.ofNat 32 (stringOff ps j)) ps[j].text := by
  have hwritten {o : Overlay U8} (ho : o ∈ argWrites base ps) := written_of_runs h argWrites_apart
    (fun o ho => Nat.le_trans ((argWrites_within base ps).1 o ho).2 hsize) ho
  have hword {off : Nat} {v : U32} (ho : ⟨off, wordBytes v⟩ ∈ argWrites base ps) :
      memRw s'.mem (base + BitVec.ofNat 32 off) = .ok v := by
    obtain ⟨hin, hbytes⟩ := hwritten ho
    rw [length_wordBytes] at hin hbytes
    exact memRw_of_bytes hin hbytes
  have hbase : base + BitVec.ofNat 32 0 = base := BitVec.add_zero base
  refine ⟨?_, ?_, fun j hj => ?_⟩
  · rw [← hbase]
    exact hword (.head _)
  · exact hword (.tail _ (List.mem_append_right _ (.head _)))
  · obtain ⟨hstring, hptr⟩ := argStrings_get base 0 (8 + 4 * ps.length) hj
    rw [Nat.zero_add] at hptr
    have hmem := hwritten (.tail _ (List.mem_append_left _ hstring))
    rw [List.length_append, List.length_singleton] at hmem
    exact ⟨hword (.tail _ (List.mem_append_left _ hptr)), hmem⟩

theorem ArgsReadable.spaces (h : ArgsReadable m args) (hps : Pieces args ps)
    (hzero : (0 : U8) ∉ args) (hlen : args.length < 4096) : ∀ p ∈ ps, p.spaces = 0 := by
  have hsize := hps.stringsSize_le
  have hcount := length_le_stringsSize ps
  obtain ⟨s', ptr, hrun, hlaid⟩ := h
  rw [emuArgs_eq hps hzero hlen (by omega)] at hrun
  obtain ⟨-, -, hfound⟩ := laidOut_of_runs hrun (by omega)
  rw [hps.tokens_eq] at hlaid
  intro p hp
  obtain ⟨j, hj, rfl⟩ := List.mem_iff_getElem.mp hp
  have hj' : j < (ps.map Piece.token).length := by rwa [List.length_map]
  obtain ⟨hptr, -, htext⟩ := hfound j hj
  obtain ⟨-, htoken⟩ := hlaid.strings j hj'
  have hsame : ptr j = stackBase m + BitVec.ofNat 32 (stringOff ps j) :=
    Except.ok.inj ((hlaid.argv j hj').symm.trans hptr)
  rw [hsame] at htoken
  have hfirst := (htext 0 (Nat.succ_pos _)).symm.trans (htoken 0 (Nat.succ_pos _))
  rw [List.getElem_map] at hfirst
  exact ps[j].spaces_eq hfirst

theorem stringOff_succ {j : Nat} (hj : j < ps.length) :
    stringOff ps (j + 1) = stringOff ps j + (ps[j].text.length + 1) := by
  simp only [stringOff, stringsSize, List.take_succ_eq_append_getElem hj, List.map_append,
    List.sum_append_nat, List.map_singleton, List.sum_singleton, Nat.add_assoc]

theorem stringOff_mono {i j : Nat} (hle : i ≤ j) (hj : j ≤ ps.length) :
    stringOff ps i ≤ stringOff ps j := by
  induction j, hle using Nat.le_induction with
  | base => exact Nat.le_refl _
  | succ j _ ih =>
    rw [stringOff_succ hj]
    exact Nat.le_trans (ih (Nat.le_of_succ_le hj)) (Nat.le_add_right _ _)

theorem stringOff_lt {i j : Nat} (hlt : i < j) (hj : j < ps.length) :
    stringOff ps i + (ps[i].text.length + 1) ≤ stringOff ps j := by
  rw [← stringOff_succ (Nat.lt_trans hlt hj)]
  exact stringOff_mono hlt (Nat.le_of_lt hj)

theorem stringOff_le {j : Nat} (hj : j < ps.length) :
    stringOff ps j + (ps[j].text.length + 1) ≤ 8 + 4 * ps.length + stringsSize ps := by
  have hlast : stringOff ps ps.length = 8 + 4 * ps.length + stringsSize ps := by
    rw [stringOff, List.take_length]
  rw [← stringOff_succ hj, ← hlast]
  exact stringOff_mono hj (Nat.le_refl _)

theorem toNat_stackBase_add (hmem : 4096 ≤ m.size) (hoff : off < 4096) :
    (stackBase m + BitVec.ofNat 32 off).toNat = (stackBase m).toNat + off := by
  have hsize := m.size_le
  rw [toNat_add_ofNat, toNat_stackBase hmem]
  omega

theorem Pieces.argsReadable (h : Pieces args ps) (hmem : 4096 ≤ m.size) (hzero : (0 : U8) ∉ args)
    (hlen : args.length < 4096) (hspaces : ∀ p ∈ ps, p.spaces = 0)
    (hfits : layoutSize (tokens args) ≤ 4096) : ArgsReadable m args := by
  have hsize : layoutSize (tokens args) = 8 + 4 * ps.length + stringsSize ps := by
    have hmap : (ps.map fun p => p.text.length + 1) = ps.map fun p => p.token.length + 1 :=
      List.map_congr_left fun p hp => by rw [p.text_eq (hspaces p hp)]
    rw [layoutSize, h.tokens_eq, List.length_map, List.map_map, stringsSize, hmap]
    rfl
  rw [hsize] at hfits
  have hin : ∀ o ∈ argWrites (stackBase m) ps,
      (stackBase m + BitVec.ofNat 32 o.start).toNat + o.values.length ≤ m.size := fun o ho => by
    obtain ⟨hpos, hend⟩ := (argWrites_within _ _).1 o ho
    exact ((inPage_iff hmem (by omega) hpos).mpr (by omega)).2
  obtain ⟨s', hrun⟩ := writeAll_runs (s := .start m) hin
  obtain ⟨hargc, hnull, hfound⟩ := laidOut_of_runs hrun (by omega)
  have htoNat {j : Nat} (hj : j < ps.length) :
      (stackBase m + BitVec.ofNat 32 (stringOff ps j)).toNat =
        (stackBase m).toNat + stringOff ps j :=
    toNat_stackBase_add hmem (by have := stringOff_le hj; omega)
  refine ⟨s', fun j => stackBase m + BitVec.ofNat 32 (stringOff ps j), ?_, ?_⟩
  · rwa [emuArgs_eq h hzero hlen (by omega)]
  · rw [h.tokens_eq]
    have htext {j : Nat} (hj : j < ps.length) : ps[j].text = ps[j].token :=
      ps[j].text_eq (hspaces _ (List.getElem_mem hj))
    have hfour : (stackBase m + BitVec.ofNat 32 4).toNat = (stackBase m).toNat + 4 :=
      toNat_stackBase_add hmem (by decide)
    constructor
    case argc =>
      rw [List.length_map]
      exact hargc
    case null =>
      rw [List.length_map]
      exact hnull
    all_goals simp only [List.length_map, List.getElem_map]
    case argv => exact fun j hj => (hfound j hj).1
    case strings => exact fun j hj => htext hj ▸ (hfound j hj).2
    case apart =>
      intro i j hi hj hne
      rw [Apart, htoNat hi, htoNat hj, ← htext hi, ← htext hj]
      obtain hlt | hlt := Nat.lt_or_gt_of_ne hne
      · have := stringOff_lt hlt hj
        exact .inl (by omega)
      · have := stringOff_lt hlt hi
        exact .inr (by omega)
    case clear =>
      intro j hj
      refine .inr ?_
      rw [htoNat hj, stringOff]
      exact (Nat.add_le_add_right hfour.le _).trans (by omega)

/-- Where the tokens fit in the page, the guest finds them exactly if the string is spaced once. -/
theorem args_readable_iff (hmem : pageSize.toNat ≤ m.size) (hzero : (0 : U8) ∉ args)
    (hlen : args.length < pageSize.toNat) (hfits : layoutSize (tokens args) ≤ pageSize.toNat) :
    ArgsReadable m args ↔ SpacedOnce args := by
  obtain ⟨ps, hps⟩ := exists_pieces args
  rw [hps.spacedOnce_iff]
  exact ⟨fun h => h.spaces hps hzero hlen, fun h => hps.argsReadable hmem hzero hlen h hfits⟩

/-- Three tokens, with spaces behind the last one. -/
theorem args_readable_iff_short : ArgsReadable (.ofWords []) (ascii "ls -l a  ") :=
  (args_readable_iff (by decide) (by decide) (by decide) (by decide)).mpr ⟨2, by decide⟩

/-- Two spaces between two tokens, of which the second one is in front of the second token. -/
theorem args_readable_fails : (0 : U8) ∉ ascii "a  b" ∧ layoutSize (tokens (ascii "a  b")) = 20 ∧
    ¬ ArgsReadable (.ofWords []) (ascii "a  b") := by
  refine ⟨by decide, by decide, fun h => ?_⟩
  have hpieces : Pieces (ascii "a  b")
      [Piece.one 0x61 (by decide), { Piece.one 0x62 (by decide) with spaces := 1 }] :=
    .cons (Piece.one 0x61 (by decide)) (.last { Piece.one 0x62 (by decide) with spaces := 1 })
  cases h.spaces hpieces (by decide) (by decide) _ (.tail _ (.head _))

end

end SwitchV32
