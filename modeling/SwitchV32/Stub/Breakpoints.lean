import SwitchV32.Debug.Patched
import SwitchV32.Stub.Registers

/-!
# Breakpoints over packets

`Z0` swaps a word of guest memory for the breakpoint and `z0` swaps it back. A
word that is the breakpoint already stays, and no slot remembers it.
-/

namespace SwitchV32

-- ---------------------------------------------------------------------------
-- A removal behind an insertion
-- ---------------------------------------------------------------------------

section
variable {vmem vmem' : Mem} {t t' : Breakpoints} {addr : BitVec 64} {i : Fin maxBreakpoints}

theorem sadFindBreakpoint_fill {instr} {h : instr ≠ breakpointVal} (hfree : ¬ t.FullAt addr) :
    sadFindBreakpoint (t.fill i addr instr h) addr = some i := by
  have hself : (t.fill i addr instr h).slot i = ⟨addr, instr, .full⟩ := Function.update_self ..
  cases hfind : sadFindBreakpoint (t.fill i addr instr h) addr with
  | none =>
    refine absurd ⟨i, ?_⟩ (sadFindBreakpoint_none.mp hfind)
    rw [hself]
    exact ⟨rfl, rfl⟩
  | some j =>
    have hslot := sadFindBreakpoint_some hfind
    by_cases hji : j = i
    · rw [hji]
    · have hother : (t.fill i addr instr h).slot j = t.slot j := Function.update_of_ne hji ..
      rw [hother] at hslot
      exact absurd ⟨j, hslot⟩ hfree

theorem sadInsertBreakpoint_inserted (hin : vmem.Inside (addr.setWidth 32) 4)
    (hempty : (t.slot i).status = .empty) :
    ∃ vmem' t', sadInsertBreakpoint vmem t addr = .ok (vmem', t', .inserted) := by
  cases hfind : Fin.find? fun i => decide ((t.slot i).status = .empty) with
  | none =>
    have hnot := Fin.eq_false_of_find?_eq_none hfind i
    rw [hempty] at hnot
    cases hnot
  | some j =>
    unfold sadInsertBreakpoint
    rw [hfind]
    simp only [memRw, load_word hin, ok_bind, memWw, store_word hin]
    split
    · exact ⟨_, _, rfl⟩
    · exact ⟨_, _, rfl⟩

theorem sadInsertBreakpoint_size (h : sadInsertBreakpoint vmem t addr = .ok (vmem', t', ret)) :
    vmem'.size = vmem.size := by
  obtain ⟨-, rfl, -⟩ | ⟨-, -, -, rfl, -⟩ | ⟨-, -, i, hword, -, rfl, -⟩ :=
    sadInsertBreakpoint_cases h
  all_goals rfl

/-- The word is back in memory exactly if it is not the breakpoint. -/
theorem sadRemoveBreakpoint_inserted (hfree : ¬ t.FullAt addr)
    (h : sadInsertBreakpoint vmem t addr = .ok (vmem', t', .inserted)) :
    (vmem.word (addr.setWidth 32) ≠ breakpointVal ∧
      ∃ t'', sadRemoveBreakpoint vmem' t' addr = .ok (vmem, t'', .removed)) ∨
    (vmem.word (addr.setWidth 32) = breakpointVal ∧
      sadRemoveBreakpoint vmem' t' addr = .ok (vmem, t, .notFound)) := by
  obtain ⟨hret, -⟩ | ⟨-, -, hword, rfl, rfl⟩ | ⟨-, hin, i, hword, -, rfl, rfl⟩ :=
    sadInsertBreakpoint_cases h
  · cases hret
  · exact .inr ⟨hword, sadRemoveBreakpoint_notFound hfree⟩
  · have hself : ((t.fill i addr _ hword).slot i).instr = vmem.word (addr.setWidth 32) := by
      simp only [Breakpoints.fill, Function.update_self]
    refine .inl ⟨hword, (t.fill i addr _ hword).clear i, ?_⟩
    have hfind := sadFindBreakpoint_fill (i := i) (h := hword) hfree
    have hremove : sadRemoveBreakpoint (vmem.put (addr.setWidth 32).toNat breakpointVal) _ addr =
        _ := sadRemoveBreakpoint_found hfind hin
    rw [hremove, hself, put_put_word hin]

end

-- ---------------------------------------------------------------------------
-- The packets
-- ---------------------------------------------------------------------------

/-- The command with type 0, an address and a kind, and what is behind them. -/
def BrkPacket (cmd : U8) (opts : List U8) (addr kind : Nat) (input : Pkt) : Prop :=
  ∃ dt da dk post, Spells dt 0 ∧ Spells da addr ∧ Spells dk kind ∧
    input.Holds (cmd :: (dt ++ 0x2c :: (da ++ 0x2c :: (dk ++ opts)))) post

/-- `Z0,addr,kind`, with or without optional params. -/
def InsertPacket (addr kind : Nat) (input : Pkt) : Prop :=
  ∃ opts, (∀ b ∈ opts.head?, b = 0x3b) ∧ BrkPacket 0x5a opts addr kind input

/-- `z0,addr,kind` -/
def RemovePacket (addr kind : Nat) (input : Pkt) : Prop := BrkPacket 0x7a [] addr kind input

section
variable {ρ : Type} {ops : SysOps ρ} {s s₁ : Stub ρ} {input inputZ inputz : Pkt}
variable {addr kind n cursor : Nat} {digits dt da dk opts l : List U8} {term : Term}
variable {rest : Option (List U8)}
variable {check : Int → Bool} {expected : BrkRet}
variable {call : Stub ρ → BitVec 64 → Except BuildFault (BrkRet × Stub ρ)}

theorem extractVal_spells (check : Int → Bool) (hmax : check longMax = false)
    (h : s.input.At cursor l) (hd : Spells digits n) (hfield : field term l = (digits, rest)) :
    ∃ cursor' p', (∀ l', rest = some l' → p'.At cursor' l') ∧
      ∀ next : Int → Nat → Stub ρ → Except BuildFault (Stub ρ),
        extractVal (sadExtract check) s cursor term next =
          if n < 2 ^ 63 - 1 ∧ check n = true then next n cursor' (s.setInput p')
          else .ok ((s.setInput p').appendStr "E") := by
  obtain ⟨cursor', p', hcut, hext⟩ := extractVal_at h check term
  have hnum : fieldNumber term l = min (n : Int) longMax := by
    rw [fieldNumber, hfield, strtol16_digits hd.hex, hd.val]
  refine ⟨cursor', p', fun l' hl => hcut.next l' (by rw [hfield, hl]), fun next => ?_⟩
  rw [hext, hnum]
  by_cases hlt : n < 2 ^ 63 - 1
  · have hmin : min (n : Int) longMax = n := by
      simp only [longMax]
      omega
    simp only [hmin, hlt, true_and]
  · have hmin : min (n : Int) longMax = longMax := by
      simp only [longMax]
      omega
    simp only [hmin, hmax, hlt, false_and, if_false, Bool.false_eq_true]

theorem extractVal_breakpoint (next : Int → Int → Int → Stub ρ → Except BuildFault (Stub ρ))
    (h : s.input.At cursor (dt ++ 0x2c :: (da ++ 0x2c :: (dk ++ opts)))) (ht : Spells dt 0)
    (ha : Spells da addr) (hk : Spells dk kind) (hopts : field term (dk ++ opts) = (dk, rest)) :
    ∃ p, extractVal sadExtractUint32 s cursor (some 0x2c) (fun type cursor s =>
      extractVal sadExtractUint64 s cursor (some 0x2c) fun addr cursor s =>
        extractVal sadExtractUint32 s cursor term fun kind _ s => next type addr kind s) =
      if addr < 2 ^ 63 - 1 ∧ kind < 2 ^ 32 then next 0 addr kind (s.setInput p)
      else .ok ((s.setInput p).appendStr "E") := by
  obtain ⟨cursor₁, p₁, hat₁, htype⟩ := extractVal_number h checkUint32 ht (by decide) (by decide)
    (by decide)
  obtain ⟨cursor₂, p₂, hat₂, haddr⟩ := extractVal_spells (s := s.setInput p₁) checkUint64
    (by decide) hat₁ ha (field_append (c := 0x2c) ha.ne_nil (ha.not_mem (by decide)))
  obtain ⟨cursor₃, p₃, -, hkind⟩ := extractVal_spells (s := (s.setInput p₁).setInput p₂)
    checkUint32 (by decide) (hat₂ _ rfl) hk hopts
  have hadmits : addr < 2 ^ 63 - 1 ∧ checkUint64 addr = true ↔ addr < 2 ^ 63 - 1 :=
    ⟨And.left, fun hlt => ⟨hlt, checkUint64_ofNat hlt⟩⟩
  have hfits : kind < 2 ^ 63 - 1 ∧ checkUint32 kind = true ↔ kind < 2 ^ 32 := by
    refine ⟨fun hc => ?_, fun hlt => ⟨by omega, checkUint32_ofNat hlt⟩⟩
    have hcheck := hc.2
    simp only [checkUint32] at hcheck
    simp at hcheck
    omega
  simp only [sadExtractUint32, sadExtractUint64, htype, haddr, hkind, hadmits, hfits]
  by_cases hlt : addr < 2 ^ 63 - 1
  · by_cases hlt' : kind < 2 ^ 32
    · exact ⟨p₃, by simp only [hlt, hlt', and_self, if_true]; rfl⟩
    · exact ⟨p₃, by simp only [hlt, hlt', and_false, if_true, if_false]; rfl⟩
  · exact ⟨p₂, by simp only [hlt, false_and, if_false]; rfl⟩

theorem breakpointReply_eq :
    breakpointReply s 0 addr kind expected call =
      if addr < s.target.vmem.size ∧ kind = brkptSize then do
        let (ret, s) ← call s (BitVec.ofNat 64 addr)
        return s.appendStr (if ret = expected then "OK" else "E")
      else .ok (s.appendStr "E") := by
  have hfar : (addr : Int) ≥ s.target.vmem.size ↔ ¬ addr < s.target.vmem.size := by omega
  have hkind : (kind : Int) ≠ brkptSize ↔ kind ≠ brkptSize := by omega
  simp only [breakpointReply, hfar, hkind]
  by_cases hlt : addr < s.target.vmem.size
  · by_cases hsize : kind = brkptSize
    · simp only [hlt, hsize, not_true, ne_eq, if_false, and_self, if_true, BitVec.ofInt_natCast]
      congr 1
      funext r
      obtain ⟨ret, s⟩ := r
      by_cases hret : ret = expected
      · simp only [hret, not_true, if_false, if_true]
      · simp only [hret, not_false_eq_true, if_true, if_false]
    · simp only [hlt, hsize, not_true, not_false_eq_true, ne_eq, if_false, if_true, and_false]
      rfl
  · simp only [hlt, not_false_eq_true, if_true, if_false, false_and]
    rfl

theorem extractVal_breakpointReply (expected : BrkRet)
    (call : Stub ρ → BitVec 64 → Except BuildFault (BrkRet × Stub ρ))
    (h : s.input.At cursor (dt ++ 0x2c :: (da ++ 0x2c :: (dk ++ opts)))) (ht : Spells dt 0)
    (ha : Spells da addr) (hk : Spells dk kind) (hopts : field term (dk ++ opts) = (dk, rest)) :
    ∃ p, extractVal sadExtractUint32 s cursor (some 0x2c) (fun type cursor s =>
      extractVal sadExtractUint64 s cursor (some 0x2c) fun addr cursor s =>
        extractVal sadExtractUint32 s cursor term fun kind _ s =>
          breakpointReply s type addr kind expected call) =
      if addr < s.target.vmem.size ∧ kind = brkptSize then do
        let (ret, s) ← call (s.setInput p) (BitVec.ofNat 64 addr)
        return s.appendStr (if ret = expected then "OK" else "E")
      else .ok ((s.setInput p).appendStr "E") := by
  obtain ⟨p, hfields⟩ := extractVal_breakpoint (fun type addr kind s =>
    breakpointReply s type addr kind expected call) h ht ha hk hopts
  have hsize := s.target.vmem.size_le
  refine ⟨p, hfields.trans ?_⟩
  rw [breakpointReply_eq, Stub.target_setInput]
  by_cases hfits : addr < 2 ^ 63 - 1 ∧ kind < 2 ^ 32
  · rw [if_pos hfits]
  · have hnot : ¬ (addr < s.target.vmem.size ∧ kind = brkptSize) := by
      simp only [brkptSize]
      omega
    rw [if_neg hfits, if_neg hnot]

-- ---------------------------------------------------------------------------
-- `Z0` and the `z0` behind it
-- ---------------------------------------------------------------------------

theorem respond_breakpoint {cmd : U8} (ops : SysOps ρ) (s : Stub ρ)
    (hbuilder : ∀ s : Stub ρ, builder ops cmd s =
      extractVal sadExtractUint32 s (s.input.startPktData + 1) (some 0x2c) fun type cursor s =>
        extractVal sadExtractUint64 s cursor (some 0x2c) fun addr cursor s =>
          extractVal sadExtractUint32 s cursor term fun kind _ s =>
            breakpointReply s type addr kind expected call)
    (hopts : ∀ dk, Spells dk kind → ∃ rest, field term (dk ++ opts) = (dk, rest))
    (h : BrkPacket cmd opts addr kind input) :
    ∃ p, (¬ (addr < s.target.vmem.size ∧ kind = brkptSize) → respond ops s input =
        .ok (ascii "E", (((s.asked input).setInput p).appendStr "E").closeResp)) ∧
      (addr < s.target.vmem.size ∧ kind = brkptSize →
        (∀ e, call ((s.asked input).setInput p) (BitVec.ofNat 64 addr) = .error e →
          respond ops s input = .error e) ∧
        ∀ ret s₂, call ((s.asked input).setInput p) (BitVec.ofNat 64 addr) = .ok (ret, s₂) →
          s₂.output = (s.asked input).output →
          respond ops s input = .ok (ascii (if ret = expected then "OK" else "E"),
            (s₂.appendStr (if ret = expected then "OK" else "E")).closeResp)) := by
  obtain ⟨dt, da, dk, post, ht, ha, hk, hholds⟩ := h
  obtain ⟨rest, hfield⟩ := hopts dk hk
  obtain ⟨p, hfields⟩ := extractVal_breakpointReply (s := s.asked input) expected call
    hholds.at_succ ht ha hk hfield
  rw [← hbuilder] at hfields
  refine ⟨p, fun hnot => ?_, fun hfits => ⟨fun e hcall => ?_, fun ret s₂ hcall hout => ?_⟩⟩
  · exact respond_of_builder hholds (hfields.trans (if_neg hnot)) rfl
  · have hbuild := hfields.trans (if_pos hfits)
    rw [hcall] at hbuild
    rw [respond_eq ops s hholds, hbuild]
    rfl
  · have hbuild := hfields.trans (if_pos hfits)
    rw [hcall] at hbuild
    refine respond_of_builder hholds hbuild ?_
    rw [← hout]
    rfl

theorem field_params (hopts : ∀ b ∈ opts.head?, b = 0x3b) (dk : List U8) (hk : Spells dk kind) :
    ∃ rest, field (some 0x3b) (dk ++ opts) = (dk, rest) := by
  cases opts with
  | nil =>
    rw [List.append_nil]
    obtain ⟨hfield, -⟩ | ⟨c, b, tok, rest, hc, hdk, -, -⟩ := field_cases (some 0x3b) dk
    · exact ⟨_, hfield⟩
    · cases hc
      refine absurd ?_ (hk.not_mem (c := 0x3b) (by decide))
      rw [hdk]
      simp
  | cons b opts =>
    obtain rfl : b = 0x3b := hopts b rfl
    exact ⟨_, field_append hk.ne_nil (hk.not_mem (by decide))⟩

theorem respond_insert (h : InsertPacket addr kind input)
    (hok : respond ops s input = .ok (ascii "OK", s₁)) :
    addr < s.target.vmem.size ∧ kind = brkptSize ∧
      sadInsertBreakpoint s.target.vmem s.breakpoints (BitVec.ofNat 64 addr) =
        .ok (s₁.target.vmem, s₁.breakpoints, .inserted) := by
  obtain ⟨opts, hopts, hpacket⟩ := h
  obtain ⟨p, hrefused, hfields⟩ :=
    respond_breakpoint ops s (fun _ => rfl) (field_params hopts) hpacket
  by_cases hfits : addr < s.target.vmem.size ∧ kind = brkptSize
  · obtain ⟨hfault, hanswer⟩ := hfields hfits
    refine ⟨hfits.1, hfits.2, ?_⟩
    cases hinsert : sadInsertBreakpoint s.target.vmem s.breakpoints (BitVec.ofNat 64 addr) with
    | error e =>
      have hcall : ((s.asked input).setInput p).insertBreakpoint (BitVec.ofNat 64 addr) =
          .error (.sys e) :=
        congrArg (fun x => sysCall x >>= _) hinsert
      cases hok.symm.trans (hfault _ hcall)
    | ok r =>
      obtain ⟨vmem, t, ret⟩ := r
      have hcall : ((s.asked input).setInput p).insertBreakpoint (BitVec.ofNat 64 addr) =
          .ok (ret, _) := congrArg (fun x => sysCall x >>= _) hinsert
      have hresp := hok.symm.trans (hanswer _ _ hcall rfl)
      obtain ⟨hreply, rfl⟩ := Prod.mk.inj (Except.ok.inj hresp)
      cases ret with
      | inserted => rfl
      | removed => cases hreply
      | stepped => cases hreply
      | notFound => cases hreply
      | error => cases hreply
  · cases hok.symm.trans (hrefused hfits)

theorem respond_inserted {i : Fin maxBreakpoints} (ops : SysOps ρ)
    (h : InsertPacket addr kind input) (haddr : addr < s.target.vmem.size)
    (hkind : kind = brkptSize)
    (hin : s.target.vmem.Inside ((BitVec.ofNat 64 addr).setWidth 32) 4)
    (hempty : (s.breakpoints.slot i).status = .empty) :
    ∃ s₁, respond ops s input = .ok (ascii "OK", s₁) := by
  obtain ⟨opts, hopts, hpacket⟩ := h
  obtain ⟨p, -, hfields⟩ := respond_breakpoint ops s (fun _ => rfl) (field_params hopts) hpacket
  obtain ⟨vmem, t, hinsert⟩ := sadInsertBreakpoint_inserted hin hempty
  have hcall : ((s.asked input).setInput p).insertBreakpoint (BitVec.ofNat 64 addr) =
      .ok (.inserted, _) := congrArg (fun x => sysCall x >>= _) hinsert
  exact ⟨_, (hfields ⟨haddr, hkind⟩).2 _ _ hcall rfl⟩

theorem respond_remove {vmem : Mem} {t : Breakpoints} {ret : BrkRet} (ops : SysOps ρ)
    (h : RemovePacket addr kind input) (haddr : addr < s.target.vmem.size)
    (hkind : kind = brkptSize)
    (hremove : sadRemoveBreakpoint s.target.vmem s.breakpoints (BitVec.ofNat 64 addr) =
      .ok (vmem, t, ret)) :
    ∃ s₂, respond ops s input = .ok (ascii (if ret = .removed then "OK" else "E"), s₂) ∧
      s₂.target.vmem = vmem := by
  obtain ⟨p, -, hfields⟩ := respond_breakpoint ops s (fun _ => rfl)
    (fun dk _ => ⟨none, by rw [List.append_nil, field_eob]⟩) h
  have hcall : ((s.asked input).setInput p).removeBreakpoint (BitVec.ofNat 64 addr) =
      .ok (ret, _) := congrArg (fun x => sysCall x >>= _) hremove
  exact ⟨_, (hfields ⟨haddr, hkind⟩).2 _ _ hcall rfl, rfl⟩

/-- The `z0` is answered, and guest memory is what it was before the `Z0`. -/
def Undone (ops : SysOps ρ) (s s₁ : Stub ρ) (input : Pkt) : Prop :=
  ∃ s₂, respond ops s₁ input = .ok (ascii "OK", s₂) ∧ s₂.target.vmem = s.target.vmem

theorem undone_cases (hZ : InsertPacket addr kind inputZ) (hz : RemovePacket addr kind inputz)
    (hok : respond ops s inputZ = .ok (ascii "OK", s₁))
    (hfree : ¬ s.breakpoints.FullAt (BitVec.ofNat 64 addr)) :
    (s.target.vmem.word (BitVec.ofNat 32 addr) ≠ breakpointVal ∧ Undone ops s s₁ inputz) ∨
    (s.target.vmem.word (BitVec.ofNat 32 addr) = breakpointVal ∧ ¬ Undone ops s s₁ inputz) := by
  obtain ⟨haddr, hkind, hinsert⟩ := respond_insert hZ hok
  rw [← sadInsertBreakpoint_size hinsert] at haddr
  have hplace : (BitVec.ofNat 64 addr).setWidth 32 = BitVec.ofNat 32 addr := by simp
  have hremove := sadRemoveBreakpoint_inserted hfree hinsert
  rw [hplace] at hremove
  obtain ⟨hword, t, hremove⟩ | ⟨hword, hremove⟩ := hremove
  · exact .inl ⟨hword, respond_remove ops hz haddr hkind hremove⟩
  · obtain ⟨s₂, hresp, -⟩ := respond_remove ops hz haddr hkind hremove
    refine .inr ⟨hword, ?_⟩
    rintro ⟨s₃, hok', -⟩
    cases hok'.symm.trans hresp

/-- A `z0` undoes the `Z0` before it exactly if the word was not the breakpoint already. -/
theorem undone_iff (ops : SysOps ρ) (hZ : InsertPacket addr kind inputZ)
    (hz : RemovePacket addr kind inputz) (hok : respond ops s inputZ = .ok (ascii "OK", s₁))
    (hfree : ¬ s.breakpoints.FullAt (BitVec.ofNat 64 addr)) :
    Undone ops s s₁ inputz ↔ s.target.vmem.word (BitVec.ofNat 32 addr) ≠ breakpointVal := by
  obtain ⟨hword, hundone⟩ | ⟨hword, hnot⟩ := undone_cases hZ hz hok hfree
  · exact iff_of_true hundone hword
  · exact iff_of_false hnot (not_not.mpr hword)

/-- `Z0` and `z0` on a word of zeros. -/
theorem undone_iff_zeros :
    ∃ s₁, respond .idle (.init (.ofWords []) .reset) (packet (ascii "Z00,04,04")) =
        .ok (ascii "OK", s₁) ∧
      Undone .idle (.init (.ofWords []) .reset) s₁ (packet (ascii "z00,04,04")) := by
  have hZ : InsertPacket 4 4 (packet (ascii "Z00,04,04")) :=
    ⟨[], by simp, _, _, _, [], spells_pair (by decide), spells_pair (by decide),
      spells_pair (by decide), packet_holds _⟩
  have hz : RemovePacket 4 4 (packet (ascii "z00,04,04")) :=
    ⟨_, _, _, [], spells_pair (by decide), spells_pair (by decide), spells_pair (by decide),
      packet_holds _⟩
  obtain ⟨s₁, hok⟩ := respond_inserted .idle (s := .init (.ofWords []) .reset) hZ (by decide)
    rfl (by decide) (i := 0) rfl
  refine ⟨s₁, hok, ?_⟩
  exact (undone_iff .idle hZ hz hok Breakpoints.not_fullAt_reset).mpr (by decide)

/-- `Z0` and `z0` on a word that is `EBREAK`, with an empty table. -/
theorem undone_fails :
    ∃ s₁, ¬ (Stub.init (.ofWords [breakpointVal]) .reset).breakpoints.FullAt 0 ∧
      respond .idle (.init (.ofWords [breakpointVal]) .reset) (packet (ascii "Z00,00,04")) =
        .ok (ascii "OK", s₁) ∧
      ¬ Undone .idle (.init (.ofWords [breakpointVal]) .reset) s₁
        (packet (ascii "z00,00,04")) := by
  have hZ : InsertPacket 0 4 (packet (ascii "Z00,00,04")) :=
    ⟨[], by simp, _, _, _, [], spells_pair (by decide), spells_pair (by decide),
      spells_pair (by decide), packet_holds _⟩
  have hz : RemovePacket 0 4 (packet (ascii "z00,00,04")) :=
    ⟨_, _, _, [], spells_pair (by decide), spells_pair (by decide), spells_pair (by decide),
      packet_holds _⟩
  obtain ⟨s₁, hok⟩ := respond_inserted .idle
    (s := .init (.ofWords [breakpointVal]) .reset) hZ (by decide) rfl (by decide) (i := 0) rfl
  refine ⟨s₁, Breakpoints.not_fullAt_reset, hok, ?_⟩
  obtain ⟨hword, -⟩ | ⟨-, hnot⟩ := undone_cases hZ hz hok Breakpoints.not_fullAt_reset
  · exact absurd (by decide) hword
  · exact hnot

end

end SwitchV32
