import SwitchV32.Ensures
import SwitchV32.Stub.Bounds
import SwitchV32.Stub.Session

/-!
# Accesses to guest memory over packets

`m`, `M` and `z` stay inside guest memory. `Z` looks at the address of its word
only, so that the last three addresses lead out of it.
-/

namespace SwitchV32

def MemoryRequest (input : Pkt) : Prop :=
  ∃ cmd l post, cmd ∈ ascii "mMZz" ∧ input.Holds (cmd :: l) post

def Stub.Fits {ρ : Type} (s : Stub ρ) : Prop := s.breakpoints.Within s.target.vmem

/-- An access to guest memory with an address that is not in `[0, memory_size)`. -/
abbrev outOfMemory : BuildFault := .sys .fault

-- ---------------------------------------------------------------------------
-- Fields
-- ---------------------------------------------------------------------------

section
variable {ρ : Type} {ops : SysOps ρ} {s : Stub ρ} {p : Pkt} {cursor start n idx : Nat}
variable {term : Term} {check : Int → Bool} {Q : Stub ρ → Prop}
variable {next : Int → Nat → Stub ρ → Except BuildFault (Stub ρ)}

theorem read_avoids (p : Pkt) (i : Nat) : Avoids outOfMemory (p.read i) fun _ => True := by
  unfold Pkt.read
  split
  · exact .pure trivial
  · exact .error (by rintro ⟨⟩)

theorem tokenLoop_avoids (p : Pkt) (term : Term) (start n idx : Nat) :
    Avoids outOfMemory (tokenLoop p term start n idx) fun _ => True := by
  induction n generalizing idx with
  | zero => exact .pure trivial
  | succ n ih =>
    cases term with
    | none => exact ih _
    | some c =>
      refine (read_avoids p _).bind fun b _ => .ite (fun _ => .pure trivial) fun _ => ih _

theorem sadCursorTokenizer_avoids (p : Pkt) (cursor : Nat) (term : Term) :
    Avoids outOfMemory (sadCursorTokenizer p cursor term) fun _ => True := by
  refine .ite (fun _ => .error (by rintro ⟨⟩)) fun _ => ?_
  refine (tokenLoop_avoids ..).bind fun idx _ => ?_
  refine .bind (P := fun _ => True) ?_ fun p _ => .pure trivial
  unfold Pkt.write
  exact .ite (fun _ => .pure trivial) fun _ => .error (by rintro ⟨⟩)

theorem str_avoids (p : Pkt) (i : Nat) : Avoids outOfMemory (p.str i) fun _ => True :=
  .ite (fun _ => .pure trivial) fun _ => .error (by rintro ⟨⟩)

theorem avoids_extractVal (hE : ∀ p, Q ((s.setInput p).appendStr "E"))
    (hnext : ∀ val cursor p, check val = true → val ≤ longMax →
      Avoids outOfMemory (next val cursor (s.setInput p)) Q) :
    Avoids outOfMemory (extractVal (sadExtract check) s cursor term next) Q := by
  have hextract : Avoids outOfMemory (sadExtract check s.input cursor term) fun r =>
      ∀ val, r.1 = some val → check val = true ∧ val ≤ longMax := by
    refine (sadCursorTokenizer_avoids ..).bind fun r _ => ?_
    refine (str_avoids ..).bind fun str _ => .pure fun val hval => ?_
    dsimp only at hval
    split at hval
    · rename_i hcheck
      cases hval
      exact ⟨hcheck, strtol16_le str⟩
    · cases hval
  refine hextract.bind fun r hr => ?_
  obtain ⟨val, cursor', p⟩ := r
  cases val with
  | none => exact .pure (hE p)
  | some val =>
    obtain ⟨hcheck, hle⟩ := hr val rfl
    exact hnext val cursor' p hcheck hle

end

-- ---------------------------------------------------------------------------
-- `m`, `M` and `z`
-- ---------------------------------------------------------------------------

section
variable {ρ : Type} {ops : SysOps ρ} {s : Stub ρ} {addr length : Int}

theorem toNat_lt_of_not_beyond (ha : checkUint64 addr = true) (hl : checkUint64 length = true)
    (ha' : addr ≤ longMax) (hl' : length ≤ longMax) (hin : s.beyond addr length ≠ true) :
    addr.toNat + length.toNat < s.target.vmem.size := by
  obtain ⟨hpos, hlt⟩ := sum_lt ha hl ha' hl'
  simp only [checkUint64] at ha hl
  simp only [Stub.beyond] at hin
  simp at ha hl hin
  omega

theorem allot_avoids (ops : SysOps ρ) (n : Nat) :
    Avoids outOfMemory (ops.allot n) fun _ => True :=
  .ite (fun _ => .pure trivial) fun _ => .error (by rintro ⟨⟩)

theorem buildm_avoids (ops : SysOps ρ) (hfits : s.Fits) :
    Avoids outOfMemory (buildm ops s) Stub.Fits := by
  refine avoids_extractVal (fun p => hfits) fun addr cursor p ha ha' => ?_
  refine avoids_extractVal (fun p => hfits) fun length cursor p hl hl' => ?_
  refine .ite (fun _ => .pure hfits) fun hin => ?_
  have hread := readMem_eq (toNat_lt_of_not_beyond ha hl ha' hl' hin)
  simp only [hread]
  exact (allot_avoids ops _).bind fun _ _ => .pure hfits

theorem writeMem_avoids {t : Target ρ} {data : List U8} {addr : Nat}
    (h : addr + data.length < t.vmem.size) :
    Avoids outOfMemory (sysCall (t.writeMem data addr)) fun t' => t'.vmem.size = t.vmem.size := by
  rw [writeMem_eq h]
  exact .pure rfl

theorem buildM_avoids (ops : SysOps ρ) (hfits : s.Fits) :
    Avoids outOfMemory (buildM ops s) Stub.Fits := by
  refine avoids_extractVal (fun p => hfits) fun addr cursor p ha ha' => ?_
  refine avoids_extractVal (fun p => hfits) fun length cursor p hl hl' => ?_
  refine .ite (fun _ => .pure hfits) fun hin => ?_
  have hlt := toNat_lt_of_not_beyond ha hl ha' hl' hin
  refine (sadCursorTokenizer_avoids ..).bind fun r _ => ?_
  refine (str_avoids ..).bind fun memStr _ => .ite (fun _ => .pure hfits) fun hlength => ?_
  have hchars : memStr.length = 2 * (ops.array length.toNat).length := by
    rw [length_array]
    exact not_not.mp hlength
  have hdata := length_sadHexStrToBytes hchars
  rw [length_array] at hdata
  generalize sadHexStrToBytes (ops.array length.toNat) memStr = d at hdata
  obtain ⟨ret, data⟩ := d
  dsimp only at hdata
  refine (allot_avoids ops _).bind fun _ _ => ?_
  exact (writeMem_avoids (by rwa [hdata])).bind fun t ht => .pure (hfits.of_size ht)

theorem sadRemoveBreakpoint_ok {vmem : Mem} {t : Breakpoints} (ht : t.Within vmem)
    (addr : BitVec 64) : ∃ r, sadRemoveBreakpoint vmem t addr = .ok r := by
  cases hfind : sadFindBreakpoint t addr with
  | none => exact ⟨_, sadRemoveBreakpoint_notFound (sadFindBreakpoint_none.mp hfind)⟩
  | some i =>
    have hfull : t.FullAt addr := ⟨i, sadFindBreakpoint_some hfind⟩
    exact ⟨_, sadRemoveBreakpoint_found hfind (ht addr hfull)⟩

theorem removeBreakpoint_avoids (hfits : s.Fits) (addr : BitVec 64) :
    Avoids outOfMemory (s.removeBreakpoint addr) fun r => r.2.Fits := by
  obtain ⟨⟨vmem, t, ret⟩, hremove⟩ := sadRemoveBreakpoint_ok hfits addr
  have hcall : s.removeBreakpoint addr = .ok _ := congrArg (fun x => sysCall x >>= _) hremove
  rw [hcall]
  exact .pure (sadRemoveBreakpoint_within hfits hremove).2

theorem breakpointReply_avoids {type kind : Int} {expected : BrkRet}
    {call : Stub ρ → BitVec 64 → Except BuildFault (BrkRet × Stub ρ)} (hfits : s.Fits)
    (hcall : addr < s.target.vmem.size → kind = brkptSize → type = 0 →
      Avoids outOfMemory (call s (BitVec.ofInt 64 addr)) fun r => r.2.Fits) :
    Avoids outOfMemory (breakpointReply s type addr kind expected call) Stub.Fits := by
  refine .ite (fun _ => .pure hfits) fun haddr => ?_
  refine .ite (fun _ => .pure hfits) fun hkind => ?_
  refine .ite (fun _ => .pure hfits) fun htype => ?_
  refine (hcall (not_le.mp haddr) (not_not.mp hkind) (not_not.mp htype)).bind fun r hr => ?_
  exact .ite (fun _ => .pure hr) fun _ => .pure hr

theorem buildz_avoids (hfits : s.Fits) : Avoids outOfMemory (buildz s) Stub.Fits := by
  refine avoids_extractVal (fun p => hfits) fun type cursor p _ _ => ?_
  refine avoids_extractVal (fun p => hfits) fun addr cursor p _ _ => ?_
  refine avoids_extractVal (fun p => hfits) fun kind cursor p _ _ => ?_
  refine breakpointReply_avoids hfits fun _ _ _ => ?_
  refine removeBreakpoint_avoids ?_ _
  exact hfits

end

-- ---------------------------------------------------------------------------
-- `Z`
-- ---------------------------------------------------------------------------

/-- The fields ask for a breakpoint of a word that begins in guest memory and ends behind it, and
there is a slot for it. -/
def PastEnd {ρ : Type} (s : Stub ρ) (l : List U8) : Prop :=
  ∃ l' l'' addr, (field (some 0x2c) l).2 = some l' ∧ (field (some 0x2c) l').2 = some l'' ∧
    fieldNumber (some 0x2c) l = 0 ∧ fieldNumber (some 0x2c) l' = (addr : Nat) ∧
    fieldNumber (some 0x3b) l'' = brkptSize ∧ addr < s.target.vmem.size ∧
    s.target.vmem.size < addr + brkptSize ∧ ∃ i, (s.breakpoints.slot i).status = .empty

section
variable {ρ : Type} {ops : SysOps ρ} {s s₁ : Stub ρ} {cursor : Nat} {l l' post : List U8}
variable {check : Int → Bool} {c : U8} {term : Term} {vmem : Mem} {t : Breakpoints} {P : Prop}
variable {next : Int → Nat → Stub ρ → Except BuildFault (Stub ρ)} {addr : BitVec 64}

theorem sadInsertBreakpoint_fault (hempty : ∃ i, (t.slot i).status = .empty)
    (hout : ¬ vmem.Inside (addr.setWidth 32) 4) :
    sadInsertBreakpoint vmem t addr = .error .fault := by
  have hload : memRw vmem (addr.setWidth 32) = .error .fault := if_neg hout
  unfold sadInsertBreakpoint
  split
  · rename_i hfind
    obtain ⟨i, hi⟩ := hempty
    exact absurd hi (of_decide_eq_false (Fin.eq_false_of_find?_eq_none hfind i))
  · rw [hload]
    rfl

theorem sadInsertBreakpoint_full (hfull : ¬ ∃ i, (t.slot i).status = .empty) :
    sadInsertBreakpoint vmem t addr = .ok (vmem, t, .error) := by
  unfold sadInsertBreakpoint
  split
  · rfl
  · rename_i i hfind
    exact absurd ⟨i, of_decide_eq_true (Fin.eq_true_of_find?_eq_some hfind)⟩ hfull

theorem insertBreakpoint_avoids (hfits : s.Fits)
    (h : s.target.vmem.Inside (addr.setWidth 32) 4 ∨
      ¬ ∃ i, (s.breakpoints.slot i).status = .empty) :
    Avoids outOfMemory (s.insertBreakpoint addr) fun r => r.2.Fits := by
  have hok : ∃ r, sadInsertBreakpoint s.target.vmem s.breakpoints addr = .ok r := by
    obtain hin | hfull := h
    · obtain ⟨vmem, t, ret, hinsert⟩ := sadInsertBreakpoint_ok s.breakpoints hin
      exact ⟨_, hinsert⟩
    · exact ⟨_, sadInsertBreakpoint_full hfull⟩
  obtain ⟨⟨vmem, t, ret⟩, hinsert⟩ := hok
  have hcall : s.insertBreakpoint addr = .ok _ := congrArg (fun x => sysCall x >>= _) hinsert
  rw [hcall]
  exact .pure (sadInsertBreakpoint_within hfits hinsert).2

theorem avoids_field (h : s.input.At cursor l) {Q : Stub ρ → Prop}
    (hE : ∀ p, Q ((s.setInput p).appendStr "E"))
    (hnext : ∀ cursor' p' l', p'.At cursor' l' → (field (some c) l).2 = some l' →
      check (fieldNumber (some c) l) = true →
      Avoids outOfMemory (next (fieldNumber (some c) l) cursor' (s.setInput p')) Q)
    (hpast : ∀ cursor' p', cursor' = p'.endPktData + 1 →
      Avoids outOfMemory (next (fieldNumber (some c) l) cursor' (s.setInput p')) Q) :
    Avoids outOfMemory (extractVal (sadExtract check) s cursor (some c) next) Q := by
  obtain ⟨cursor', p', hcut, hext⟩ := extractVal_at h check (some c)
  rw [hext]
  refine .ite (fun hcheck => ?_) fun _ => .pure (hE p')
  cases hrest : (field (some c) l).2 with
  | none => exact hpast cursor' p' (by rw [hcut.last hrest])
  | some l' => exact hnext cursor' p' l' (hcut.next l' hrest) hrest hcheck

theorem avoids_past (h : cursor = s.input.endPktData + 1) {Q : Stub ρ → Prop} :
    Avoids outOfMemory (extractVal (sadExtract check) s cursor term next) Q := by
  rw [extractVal_past h]
  exact .error (by rintro ⟨⟩)

theorem toNat_setWidth_ofNat {n : Nat} (h : n < 2 ^ 32) :
    ((BitVec.ofNat 64 n).setWidth 32).toNat = n := by
  simp only [BitVec.toNat_setWidth, BitVec.toNat_ofNat]
  omega

theorem buildZ_avoids (hfits : s.Fits) (h : s.input.At (s.input.startPktData + 1) l)
    (hclear : ¬ PastEnd s l) : Avoids outOfMemory (buildZ s) Stub.Fits := by
  refine avoids_field h (fun p => hfits) (fun cursor p l' hat hl' _ => ?_)
    fun cursor p hpast => avoids_past (s := s.setInput p) hpast
  refine avoids_field (s := s.setInput p) hat (fun p' => hfits)
    (fun cursor' p' l'' hat' hl'' ha => ?_)
    fun cursor p' hpast => avoids_past (s := (s.setInput p).setInput p') hpast
  obtain ⟨cursor'', p'', -, hext⟩ :=
    extractVal_at (s := (s.setInput p).setInput p') hat' checkUint32 (some 0x3b)
  rw [sadExtractUint32, hext]
  refine .ite (fun _ => ?_) fun _ => .pure hfits
  refine breakpointReply_avoids (s := ((s.setInput p).setInput p').setInput p'') hfits
    fun haddr hkind htype => ?_
  obtain ⟨addr, hnat⟩ : ∃ addr : Nat, fieldNumber (some 0x2c) l' = addr := by
    refine Int.eq_ofNat_of_zero_le ?_
    simp only [checkUint64] at ha
    simp at ha
    exact ha.2
  have hsize := s.target.vmem.size_le
  rw [hnat] at haddr ⊢
  have hlt : addr < s.target.vmem.size := Int.ofNat_lt.mp haddr
  rw [BitVec.ofInt_natCast]
  refine insertBreakpoint_avoids (s := ((s.setInput p).setInput p').setInput p'') hfits ?_
  by_cases hin : addr + 4 ≤ s.target.vmem.size
  · refine .inl ?_
    rw [Mem.Inside, toNat_setWidth_ofNat (by omega)]
    exact hin
  · refine .inr fun hempty => hclear ?_
    exact ⟨l', l'', addr, hl', hl'', htype, hnat, hkind, hlt, Nat.lt_of_not_le hin, hempty⟩

theorem buildZ_fault (h : s.input.At (s.input.startPktData + 1) l) (hpast : PastEnd s l) :
    buildZ s = .error outOfMemory := by
  obtain ⟨l', l'', addr, hl', hl'', htype, haddr, hkind, hlt, hend, hempty⟩ := hpast
  have hsize := s.target.vmem.size_le
  obtain ⟨cursor, p, hcut, hext⟩ := extractVal_at h checkUint32 (some 0x2c)
  obtain ⟨cursor', p', hcut', hext'⟩ := extractVal_at (s := s.setInput p) (hcut.next l' hl')
    checkUint64 (some 0x2c)
  obtain ⟨cursor'', p'', -, hext''⟩ := extractVal_at (s := (s.setInput p).setInput p')
    (hcut'.next l'' hl'') checkUint32 (some 0x3b)
  have hplace : ¬ s.target.vmem.Inside ((BitVec.ofNat 64 addr).setWidth 32) 4 := by
    rw [Mem.Inside, toNat_setWidth_ofNat (by omega)]
    exact Nat.not_le_of_lt hend
  have hinsert := sadInsertBreakpoint_fault hempty hplace
  have hcall : Stub.insertBreakpoint (((s.setInput p).setInput p').setInput p'')
      (BitVec.ofNat 64 addr) = .error outOfMemory := congrArg (fun x => sysCall x >>= _) hinsert
  have hcheck : checkUint64 addr = true := checkUint64_ofNat (by omega)
  rw [buildZ, sadExtractUint32, sadExtractUint64, hext, htype, if_pos (by decide), hext', haddr,
    if_pos hcheck, hext'', hkind, if_pos (by decide)]
  refine (breakpointReply_eq ..).trans ?_
  rw [if_pos ⟨hlt, rfl⟩, hcall]
  rfl

end

-- ---------------------------------------------------------------------------
-- Runs
-- ---------------------------------------------------------------------------

/-- The packet is no `Z` that leads out of memory. -/
def Clear {ρ : Type} (s : Stub ρ) (input : Pkt) : Prop :=
  ∀ l post, input.Holds (0x5a :: l) post → ¬ PastEnd s l

def ClearRun {ρ : Type} (ops : SysOps ρ) : Stub ρ → List Pkt → Prop
  | _, [] => True
  | s, input :: inputs => Clear s input ∧
    ∀ reply s', respond ops s input = .ok (reply, s') → ClearRun ops s' inputs

section
variable {ρ : Type} {s : Stub ρ} {input : Pkt} {inputs : List Pkt} {l post : List U8}

theorem respond_avoids (ops : SysOps ρ) (hfits : s.Fits) (h : MemoryRequest input)
    (hclear : Clear s input) : Avoids outOfMemory (respond ops s input) fun r => r.2.Fits := by
  obtain ⟨cmd, l, post, hcmd, hholds⟩ := h
  rw [respond_eq ops s hholds]
  have hasked : (s.asked input).Fits := hfits
  refine .bind (P := Stub.Fits) ?_ fun s' hs' => .pure hs'
  obtain rfl | rfl | rfl | rfl : cmd = 0x6d ∨ cmd = 0x4d ∨ cmd = 0x5a ∨ cmd = 0x7a := by
    simpa [ascii] using hcmd
  · exact buildm_avoids ops hasked
  · exact buildM_avoids ops hasked
  · exact buildZ_avoids hasked hholds.at_succ (hclear l post hholds)
  · exact buildz_avoids hasked

theorem respond_fault (ops : SysOps ρ) (h : input.Holds (0x5a :: l) post) (hpast : PastEnd s l) :
    respond ops s input = .error outOfMemory := by
  have hbuild : builder ops 0x5a (s.asked input) = .error outOfMemory :=
    buildZ_fault h.at_succ hpast
  rw [respond_eq ops s h, hbuild]
  rfl

theorem requests_fault_iff (ops : SysOps ρ) (hfits : s.Fits)
    (h : ∀ input ∈ inputs, MemoryRequest input) :
    requests ops s inputs ≠ .error outOfMemory ↔ ClearRun ops s inputs := by
  induction inputs generalizing s with
  | nil => exact iff_of_true (by rintro ⟨⟩) trivial
  | cons input inputs ih =>
    obtain ⟨hinput, hinputs⟩ := List.forall_mem_cons.mp h
    by_cases hclear : Clear s input
    · obtain ⟨hno, hkept⟩ := respond_avoids ops hfits hinput hclear
      cases hresp : respond ops s input with
      | error e =>
        have hreqs : requests ops s (input :: inputs) = .error e := by
          simp only [requests, hresp, error_bind]
        rw [hreqs]
        refine iff_of_true (fun heq => hno (hresp.trans (congrArg _ (Except.error.inj heq))))
          ⟨hclear, fun reply s' hok => ?_⟩
        cases hresp.symm.trans hok
      | ok r =>
        obtain ⟨reply, s'⟩ := r
        have hrest := ih (hkept _ hresp) hinputs
        have hreqs : requests ops s (input :: inputs) ≠ .error outOfMemory ↔
            requests ops s' inputs ≠ .error outOfMemory := by
          simp only [requests, hresp, ok_bind]
          cases requests ops s' inputs with
          | error e => rfl
          | ok r => exact iff_of_true (by rintro ⟨⟩) (by rintro ⟨⟩)
        rw [hreqs, hrest]
        constructor
        · intro hrun
          refine ⟨hclear, fun reply' s'' hok => ?_⟩
          cases hresp.symm.trans hok
          exact hrun
        · exact fun hrun => hrun.2 reply s' hresp
    · refine iff_of_false (fun hno => hno ?_) fun hrun => hclear hrun.1
      simp only [Clear, not_forall, not_not] at hclear
      obtain ⟨l, post, hholds, hpast⟩ := hclear
      simp only [requests, respond_fault ops hholds hpast, error_bind]

theorem fits_reset (hreset : s.breakpoints = .reset) : s.Fits := by
  intro addr hfull
  rw [hreset] at hfull
  exact absurd hfull Breakpoints.not_fullAt_reset

/-- No access of a run leaves guest memory exactly if no `Z` asks, with a slot left, for one of the
last three addresses. -/
theorem contained_iff (ops : SysOps ρ) (hreset : s.breakpoints = .reset)
    (h : ∀ input ∈ inputs, MemoryRequest input) :
    requests ops s inputs ≠ .error outOfMemory ↔ ClearRun ops s inputs :=
  requests_fault_iff ops (fits_reset hreset) h

/-- A breakpoint at address 4. -/
theorem contained_iff_Z :
    requests .idle (.init (.ofWords []) .reset) [packet (ascii "Z0,4,4")] ≠
      .error outOfMemory := by
  have hholds : (packet (ascii "Z0,4,4")).Holds (0x5a :: ascii "0,4,4") [] := packet_holds _
  refine (contained_iff .idle rfl fun input hinput => ?_).mpr ⟨?_, fun _ _ _ => trivial⟩
  · obtain rfl := List.mem_singleton.mp hinput
    exact ⟨_, _, _, by decide, hholds⟩
  · rintro l post hl ⟨l', l'', addr, hl', -, -, haddr, -, -, hend, -⟩
    obtain ⟨-, rfl⟩ := List.cons.inj (hl.payload.symm.trans hholds.payload)
    obtain rfl : ascii "4,4" = l' := Option.some.inj (Eq.trans (by decide) hl')
    have hfour : fieldNumber (some 0x2c) (ascii "4,4") = 4 := by decide
    have hsize : (Stub.init (.ofWords []) .reset).target.vmem.size = 4096 := rfl
    rw [hfour] at haddr
    rw [hsize] at hend
    simp only [brkptSize] at hend
    omega

/-- A breakpoint on the last three bytes of memory and the one behind it. -/
theorem contained_fails :
    (Stub.init (.ofWords []) .reset).breakpoints = .reset ∧
      MemoryRequest (packet (ascii "Z0,ffd,4")) ∧
      requests .idle (.init (.ofWords []) .reset) [packet (ascii "Z0,ffd,4")] =
        .error outOfMemory := by
  have hholds : (packet (ascii "Z0,ffd,4")).Holds (0x5a :: ascii "0,ffd,4") [] := packet_holds _
  have hpast : PastEnd (Stub.init (.ofWords []) .reset) (ascii "0,ffd,4") :=
    ⟨ascii "ffd,4", ascii "4", 0xffd, by decide, by decide, by decide, by decide, by decide,
      by decide, by decide, 0, rfl⟩
  refine ⟨rfl, ⟨_, _, _, by decide, hholds⟩, ?_⟩
  simp only [requests, respond_fault .idle hholds hpast, error_bind]

end

end SwitchV32
