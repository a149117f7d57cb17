import SwitchV32.Stub.Contained
import SwitchV32.Stub.Buffers
import Mathlib.Data.Fintype.Card

/-!
# Debugger writes beside breakpoints

To the debugger a session of `M`, `m`, `Z0` and `z0` packets is about a memory,
a set of breakpoints, and the memory that is left without them. The 128 slots of
the stub and the words that it swaps refine these. A write under a breakpoint
shows until the breakpoint is removed, and is lost then. The stub is the one
with its buffers, so requests that do not fit are left out.
-/

namespace SwitchV32

-- ---------------------------------------------------------------------------
-- What the debugger sees
-- ---------------------------------------------------------------------------

instance (addr : BitVec 64) (k : Nat) : Decidable (Covers addr k) :=
  inferInstanceAs (Decidable (_ ∧ _))

inductive DebugOp
  | write (w : MemWrite)
  | read (addr length : Nat)
  | insert (addr kind : Nat)
  | remove (addr kind : Nat)

def DebugOp.Packet (size : Nat) : DebugOp → Pkt → Prop
  | .write w, input => w.Packet size input
  | .read addr length, input => ReadPacket size addr length input
  | .insert addr kind, input => InsertPacket addr kind input
  | .remove addr kind, input => RemovePacket addr kind input

/-- Its arrays are no larger than the stack has room for, and a reply does not make the output
buffer grow to the limit. -/
def DebugOp.Fits {ρ : Type} (ops : SysOps ρ) : DebugOp → Prop
  | .write w => w.length ≤ ops.stackRoom
  | .read _ length => 3 * length ≤ ops.stackRoom ∧ 2 * length ≤ 2043
  | _ => True

structure Shadowed where
  /-- What the guest and `m` read. -/
  shown : Mem
  /-- What is left when the breakpoints are removed. -/
  free : Mem
  brks : Finset (BitVec 64)

namespace Shadowed

variable (d : Shadowed)

def start (vmem : Mem) : Shadowed := ⟨vmem, vmem, ∅⟩

def Hides (k : Nat) : Prop := ∃ a ∈ d.brks, Covers a k

instance (k : Nat) : Decidable (d.Hides k) := Finset.decidableExistsAndFinset

def Admits (addr kind : Nat) : Prop := addr < d.shown.size ∧ kind = brkptSize

instance (addr kind : Nat) : Decidable (d.Admits addr kind) :=
  inferInstanceAs (Decidable (_ ∧ _))

def write (w : MemWrite) : Shadowed where
  shown := { d.shown with byte := w.overlay.put d.shown.byte }
  free := { d.free with
    byte k := if d.Hides k then d.free.byte k else w.overlay.put d.free.byte k }
  brks := d.brks

def insert (a : BitVec 64) : Shadowed where
  shown := d.shown.put (a.setWidth 32).toNat breakpointVal
  free := d.free
  brks := Insert.insert a d.brks

def remove (a : BitVec 64) : Shadowed where
  shown := d.shown.put (a.setWidth 32).toNat (d.free.word (a.setWidth 32))
  free := d.free
  brks := d.brks.erase a

def after : DebugOp → Shadowed
  | .write w => d.write w
  | .read .. => d
  | .insert addr kind =>
    -- a word that is the breakpoint already is not remembered
    if d.Admits addr kind ∧ d.brks.card < maxBreakpoints ∧
        d.shown.word ((BitVec.ofNat 64 addr).setWidth 32) ≠ breakpointVal then
      d.insert (BitVec.ofNat 64 addr)
    else d
  | .remove addr kind =>
    if d.Admits addr kind ∧ BitVec.ofNat 64 addr ∈ d.brks then d.remove (BitVec.ofNat 64 addr)
    else d

def answer : DebugOp → List U8
  | .write _ => ascii "OK"
  | .read addr length => (List.range length).flatMap fun i =>
      let v := d.shown.byte (addr + i)
      [hexChar (v.toNat / 16), hexChar (v.toNat % 16)]
  | .insert addr kind =>
    ascii (if d.Admits addr kind ∧ d.brks.card < maxBreakpoints then "OK" else "E")
  | .remove addr kind =>
    ascii (if d.Admits addr kind ∧ BitVec.ofNat 64 addr ∈ d.brks then "OK" else "E")

def answers : Shadowed → List DebugOp → List (List U8)
  | _, [] => []
  | d, op :: ops => d.answer op :: (d.after op).answers ops

def run : Shadowed → List DebugOp → Shadowed
  | d, [] => d
  | d, op :: ops => (d.after op).run ops

def kept (k : Nat) : Shadowed → List DebugOp → List (Overlay U8)
  | _, [] => []
  | d, .write w :: ops => (if d.Hides k then [] else [w.overlay]) ++ (d.after (.write w)).kept k ops
  | d, op :: ops => (d.after op).kept k ops

/-- A breakpoint is set on a word of memory, and not a second time after a write to it. -/
def Proper : DebugOp → Prop
  | .insert addr kind => d.Admits addr kind → WordIn d.shown (BitVec.ofNat 64 addr) ∧
      (BitVec.ofNat 64 addr ∈ d.brks →
        d.shown.word ((BitVec.ofNat 64 addr).setWidth 32) = breakpointVal)
  | _ => True

def Orderly : Shadowed → List DebugOp → Prop
  | _, [] => True
  | d, op :: ops => d.Proper op ∧ (d.after op).Orderly ops

end Shadowed

-- ---------------------------------------------------------------------------
-- The table of the stub
-- ---------------------------------------------------------------------------

/-- Where no breakpoint lies, memory is the patched one. -/
structure Shadowed.Of (d : Shadowed) (vmem : Mem) (t : Breakpoints) : Prop where
  shown : vmem = d.shown
  brks : ∀ a, t.FullAt a ↔ a ∈ d.brks
  under : ∃ patched, Patched d.free patched t ∧ vmem.size = patched.size ∧
    ∀ k, ¬ d.Hides k → vmem.byte k = patched.byte k

namespace Shadowed

variable {d : Shadowed} {vmem : Mem} {t : Breakpoints} {a : BitVec 64} {i : Fin maxBreakpoints}

theorem Of.start (vmem : Mem) : (start vmem).Of vmem .reset where
  shown := rfl
  brks a := iff_of_false Breakpoints.not_fullAt_reset (Finset.notMem_empty a)
  under := ⟨vmem, .reset vmem, rfl, fun _ _ => rfl⟩

theorem Of.spares (h : d.Of vmem t) {w : Nat → Option U8} (hw : ∀ k, d.Hides k → w k = none) :
    Spares t w := fun a ha k hk => hw k ⟨a, (h.brks a).mp ha, hk⟩

theorem Of.eq_free (h : d.Of vmem t) (hnone : d.brks = ∅) : vmem = d.free := by
  obtain ⟨patched, hpatched, hsize, hbytes⟩ := h.under
  refine Mem.eq_of_byte (hsize.trans hpatched.size) fun k => ?_
  have hclear : ∀ a, ¬ t.FullAt a := fun a ha => by
    have hmem := (h.brks a).mp ha
    rw [hnone] at hmem
    exact absurd hmem (Finset.notMem_empty a)
  rw [hbytes k, hpatched.eq_free hclear]
  rintro ⟨a, ha, -⟩
  exact hclear a ((h.brks a).mpr ha)

theorem Of.card (h : d.Of vmem t) :
    d.brks.card < maxBreakpoints ↔ ∃ i, (t.slot i).status = .empty := by
  obtain ⟨patched, hpatched, -⟩ := h.under
  let full := Finset.univ.filter fun i => (t.slot i).status = .full
  have hbrks : d.brks = full.image fun i => (t.slot i).addr := by
    ext a
    rw [← h.brks]
    simp only [Finset.mem_image, full, Finset.mem_filter, Finset.mem_univ, true_and,
      Breakpoints.FullAt, and_comm]
  have hcard : d.brks.card = full.card := by
    rw [hbrks]
    refine Finset.card_image_of_injOn fun i hi j hj heq => ?_
    exact hpatched.distinct i j (Finset.mem_filter.mp hi).2 (Finset.mem_filter.mp hj).2 heq
  rw [hcard]
  constructor
  · intro hlt
    by_contra hnone
    have hall : full = Finset.univ := by
      refine Finset.filter_true_of_mem fun i _ => ?_
      cases hstatus : (t.slot i).status with
      | empty => exact absurd ⟨i, hstatus⟩ hnone
      | full => rfl
    rw [hall, Finset.card_univ, Fintype.card_fin] at hlt
    exact Nat.lt_irrefl _ hlt
  · rintro ⟨i, hi⟩
    have hlt : full.card < Fintype.card (Fin maxBreakpoints) := by
      refine Finset.card_lt_univ_of_notMem (x := i) fun hmem => ?_
      cases hi.symm.trans (Finset.mem_filter.mp hmem).2
    rwa [Fintype.card_fin] at hlt

-- ---------------------------------------------------------------------------
-- One operation
-- ---------------------------------------------------------------------------

theorem Of.write (h : d.Of vmem t) (w : MemWrite) :
    (d.write w).Of { vmem with byte := w.overlay.put vmem.byte } t := by
  obtain ⟨patched, hpatched, hsize, hbytes⟩ := h.under
  -- the bytes that reach the memory without breakpoints
  let bytes (k : Nat) : Option U8 :=
    if d.Hides k ∨ ¬ w.overlay.Covers k then none
    else some (w.overlay.values.getD (k - w.overlay.start) 0)
  have hspares : Spares t bytes := h.spares fun k hk => if_pos (.inl hk)
  have hfree : d.free.writeBytes bytes = (d.write w).free := by
    refine Mem.eq_of_byte rfl fun k => ?_
    simp only [Mem.writeBytes, bytes, Shadowed.write, Overlay.put]
    by_cases hhides : d.Hides k
    · simp only [hhides, true_or, if_true, Option.getD_none]
    · by_cases hcovers : w.overlay.Covers k
      · simp only [hhides, hcovers, not_true, or_self, if_false, if_true, Option.getD_some]
        exact hcovers.getD _ _
      · simp only [hhides, hcovers, not_false_eq_true, or_true, if_true, if_false,
          Option.getD_none]
  have hguest := hpatched.guest hspares
  rw [hfree] at hguest
  refine { shown := by rw [h.shown]; rfl, brks := h.brks, under := ⟨_, hguest, ?_, ?_⟩ }
  · rw [Mem.writeBytes]
    exact hsize
  · intro k hk
    have hhides : ¬ d.Hides k := hk
    simp only [Mem.writeBytes, bytes, Overlay.put, hhides, false_or]
    by_cases hcovers : w.overlay.Covers k
    · simp only [hcovers, not_true, if_false, if_true, Option.getD_some]
      exact hcovers.getD _ _
    · simp only [hcovers, not_false_eq_true, if_true, if_false, Option.getD_none]
      exact hbytes k hhides

theorem Of.word (h : d.Of vmem t) {patched : Mem} (hpatched : Patched d.free patched t)
    (hsize : vmem.size = patched.size) (hbytes : ∀ k, ¬ d.Hides k → vmem.byte k = patched.byte k)
    (hw : WordIn vmem a) (hnot : a ∉ d.brks) :
    vmem.word (a.setWidth 32) = patched.word (a.setWidth 32) := by
  refine (hw.of_size hsize.symm).word_congr hsize fun k hk => hbytes k ?_
  rintro ⟨a', ha', hk'⟩
  have hplace := hpatched.place a' ((h.brks a').mpr ha')
  exact hnot (covers_unique hw.aligned hplace.aligned hk hk' ▸ ha')

theorem Of.insert (h : d.Of vmem t) (hw : WordIn vmem a) (hnot : a ∉ d.brks)
    (hempty : (t.slot i).status = .empty) (hword : vmem.word (a.setWidth 32) ≠ breakpointVal) :
    (d.insert a).Of (vmem.put (a.setWidth 32).toNat breakpointVal)
      (t.fill i a (vmem.word (a.setWidth 32)) hword) := by
  obtain ⟨patched, hpatched, hsize, hbytes⟩ := h.under
  have heq := h.word hpatched hsize hbytes hw hnot
  have hfill := hpatched.fill (hw.of_size hsize.symm) hempty (heq ▸ hword)
  have htable : t.fill i a (patched.word (a.setWidth 32)) (heq ▸ hword) =
      t.fill i a (vmem.word (a.setWidth 32)) hword := by
    congr 1
    exact heq.symm
  rw [htable] at hfill
  refine { shown := by rw [h.shown]; rfl, brks := fun a' => ?_, under := ⟨_, hfill, hsize, ?_⟩ }
  · rw [Breakpoints.fullAt_fill hempty, h.brks, or_comm]
    exact Finset.mem_insert.symm
  · intro k hk
    have hhides : ¬ d.Hides k := by
      rintro ⟨a', ha', hk'⟩
      exact hk ⟨a', Finset.mem_insert_of_mem ha', hk'⟩
    have hcovers : ¬ Covers a k := fun hk' => hk ⟨a, Finset.mem_insert_self a _, hk'⟩
    rw [hw.byte_put hcovers, (hw.of_size hsize.symm).byte_put hcovers]
    exact hbytes k hhides

theorem Of.remove (h : d.Of vmem t) (hslot : (t.slot i).addr = a ∧ (t.slot i).status = .full) :
    (d.remove a).Of (vmem.put (a.setWidth 32).toNat (t.slot i).instr) (t.clear i) := by
  obtain ⟨patched, hpatched, hsize, hbytes⟩ := h.under
  have hinstr : (t.slot i).instr = d.free.word (a.setWidth 32) := by
    rw [hpatched.saved i hslot.2, hslot.1]
  have hw : WordIn patched a := hpatched.place a ⟨i, hslot⟩
  have hgone := hpatched.not_fullAt_clear hslot
  refine { shown := by rw [h.shown, hinstr]; rfl, brks := fun a' => ?_
           under := ⟨_, hpatched.clear hslot, hsize, ?_⟩ }
  · have hor := Breakpoints.fullAt_clear_or (a := a') hslot
    rw [h.brks] at hor
    simp only [Shadowed.remove, Finset.mem_erase, ← hor]
    constructor
    · intro ha'
      exact ⟨fun heq => hgone (heq ▸ ha'), .inl ha'⟩
    · rintro ⟨hne, ha' | rfl⟩
      · exact ha'
      · exact absurd rfl hne
  · intro k hk
    by_cases hcovers : Covers a k
    · have hrange : (a.setWidth 32).toNat ≤ k ∧ k < (a.setWidth 32).toNat + 4 := by
        rw [hw.toNat]
        exact hcovers
      exact (if_pos hrange).trans (if_pos hrange).symm
    · rw [(hw.of_size hsize).byte_put hcovers, hw.byte_put hcovers]
      refine hbytes k ?_
      rintro ⟨a', ha', hk'⟩
      exact hk ⟨a', Finset.mem_erase.mpr ⟨fun heq => hcovers (heq ▸ hk'), ha'⟩, hk'⟩

end Shadowed

-- ---------------------------------------------------------------------------
-- Packets
-- ---------------------------------------------------------------------------

section
variable {ρ : Type} {ops : SysOps ρ} {s s₁ : Stub ρ} {input : Pkt} {addr length kind : Nat}

@[simp] theorem Stub.breakpoints_closeResp (s : Stub ρ) :
    s.closeResp.breakpoints = s.breakpoints := rfl

/-- A `Z0` or `z0` is `swap` on memory and the table, or is refused. -/
theorem respond_swap {cmd : U8} {opts : List U8} {term : Term} {expected : BrkRet}
    {call : Stub ρ → BitVec 64 → Except BuildFault (BrkRet × Stub ρ)} (ops : SysOps ρ)
    (swap : Mem → Breakpoints → BitVec 64 → Except Stop (Mem × Breakpoints × BrkRet))
    (hcall : ∀ s addr, call s addr = (do
      let (vmem, breakpoints, ret) ← sysCall (swap s.target.vmem s.breakpoints addr)
      return (ret, { s with target := { s.target with vmem }, breakpoints })))
    (hbuilder : ∀ s : Stub ρ, builder ops cmd s =
      extractVal sadExtractUint32 s (s.input.startPktData + 1) (some 0x2c) fun type cursor s =>
        extractVal sadExtractUint64 s cursor (some 0x2c) fun addr cursor s =>
          extractVal sadExtractUint32 s cursor term fun kind _ s =>
            breakpointReply s type addr kind expected call)
    (hopts : ∀ dk, Spells dk kind → ∃ rest, field term (dk ++ opts) = (dk, rest))
    (h : BrkPacket cmd opts addr kind input) :
    (¬ (addr < s.target.vmem.size ∧ kind = brkptSize) →
      ∃ s₁, respond ops s input = .ok (ascii "E", s₁) ∧ s₁.target.vmem = s.target.vmem ∧
        s₁.breakpoints = s.breakpoints) ∧
    (addr < s.target.vmem.size ∧ kind = brkptSize → ∀ vmem t ret,
      swap s.target.vmem s.breakpoints (BitVec.ofNat 64 addr) = .ok (vmem, t, ret) →
      ∃ s₁, respond ops s input = .ok (ascii (if ret = expected then "OK" else "E"), s₁) ∧
        s₁.target.vmem = vmem ∧ s₁.breakpoints = t) := by
  obtain ⟨p, hrefused, hfields⟩ := respond_breakpoint ops s hbuilder hopts h
  refine ⟨fun hnot => ⟨_, hrefused hnot, ?_, ?_⟩, fun hfits vmem t ret hswap => ?_⟩
  · rw [Stub.target_closeResp]
    rfl
  · rw [Stub.breakpoints_closeResp]
    rfl
  have hcall : call ((s.asked input).setInput p) (BitVec.ofNat 64 addr) = .ok (ret, _) :=
    (hcall _ _).trans (congrArg (fun x => sysCall x >>= _) hswap)
  refine ⟨_, (hfields hfits).2 _ _ hcall rfl, ?_, ?_⟩
  · rw [Stub.target_closeResp]
    rfl
  · rw [Stub.breakpoints_closeResp]
    rfl

-- ---------------------------------------------------------------------------
-- One packet
-- ---------------------------------------------------------------------------

namespace Shadowed

variable {d : Shadowed} {op : DebugOp}

theorem size_after (d : Shadowed) (op : DebugOp) : (d.after op).shown.size = d.shown.size := by
  cases op with
  | write w => rfl
  | read addr length => rfl
  | insert addr kind =>
    rw [after]
    split <;> rfl
  | remove addr kind =>
    rw [after]
    split <;> rfl

theorem Of.unchanged {vmem vmem' : Mem} {t t' : Breakpoints} (h : d.Of vmem t)
    (hsame : d.after op = d) (hvmem : vmem' = vmem) (ht : t' = t) : (d.after op).Of vmem' t' := by
  rw [hsame, hvmem, ht]
  exact h

theorem Of.respond_insert (ops : SysOps ρ) (h : d.Of s.target.vmem s.breakpoints)
    (hinput : InsertPacket addr kind input) (hproper : d.Proper (.insert addr kind)) :
    ∃ s₁, respond ops s input = .ok (d.answer (.insert addr kind), s₁) ∧
      (d.after (.insert addr kind)).Of s₁.target.vmem s₁.breakpoints := by
  obtain ⟨opts, hopts, hpacket⟩ := hinput
  obtain ⟨hrefused, hfields⟩ := respond_swap (s := s) ops sadInsertBreakpoint
    (fun _ _ => rfl) (fun _ => rfl) (field_params hopts) hpacket
  have hshown := h.shown
  by_cases hadmits : d.Admits addr kind
  · obtain ⟨hw, hagain⟩ := hproper hadmits
    have hfits : addr < s.target.vmem.size ∧ kind = brkptSize := by
      rw [hshown]
      exact hadmits
    rw [← hshown] at hw hagain
    by_cases hcard : d.brks.card < maxBreakpoints
    · obtain ⟨i, hempty⟩ := h.card.mp hcard
      obtain ⟨vmem, t, hinsert⟩ := sadInsertBreakpoint_inserted hw.mem hempty
      obtain ⟨s₁, hresp, rfl, rfl⟩ := hfields hfits _ _ _ hinsert
      refine ⟨s₁, by simpa only [answer, hadmits, hcard, and_self, if_true] using hresp, ?_⟩
      obtain ⟨hret, -⟩ | ⟨-, -, hword, hvmem, ht⟩ | ⟨-, -, j, hword, hj, hvmem, ht⟩ :=
        sadInsertBreakpoint_cases hinsert
      · cases hret
      · exact h.unchanged (if_neg fun hif => hif.2.2 (hshown ▸ hword)) hvmem ht
      · have hnot : BitVec.ofNat 64 addr ∉ d.brks := fun hmem => hword (hagain hmem)
        have hnew : d.after (.insert addr kind) = d.insert (BitVec.ofNat 64 addr) :=
          if_pos ⟨hadmits, hcard, hshown ▸ hword⟩
        rw [hnew, hvmem, ht]
        exact h.insert hw hnot hj hword
    · have hfull : ¬ ∃ i, (s.breakpoints.slot i).status = .empty := fun he => hcard (h.card.mpr he)
      obtain ⟨s₁, hresp, hvmem, ht⟩ := hfields hfits _ _ _ (sadInsertBreakpoint_full hfull)
      refine ⟨s₁, by simpa only [answer, hcard, and_false, if_false, reduceCtorEq] using hresp, ?_⟩
      exact h.unchanged (if_neg fun hif => hcard hif.2.1) hvmem ht
  · have hnot : ¬ (addr < s.target.vmem.size ∧ kind = brkptSize) := by
      rw [hshown]
      exact hadmits
    obtain ⟨s₁, hresp, hvmem, ht⟩ := hrefused hnot
    refine ⟨s₁, by simpa only [answer, hadmits, false_and, if_false] using hresp, ?_⟩
    exact h.unchanged (if_neg fun hif => hadmits hif.1) hvmem ht

theorem Of.respond_remove (ops : SysOps ρ) (h : d.Of s.target.vmem s.breakpoints)
    (hinput : RemovePacket addr kind input) :
    ∃ s₁, respond ops s input = .ok (d.answer (.remove addr kind), s₁) ∧
      (d.after (.remove addr kind)).Of s₁.target.vmem s₁.breakpoints := by
  obtain ⟨hrefused, hfields⟩ := respond_swap (s := s) ops sadRemoveBreakpoint
    (fun _ _ => rfl) (fun _ => rfl) (fun dk _ => ⟨none, by rw [List.append_nil, field_eob]⟩) hinput
  have hshown := h.shown
  by_cases hadmits : d.Admits addr kind
  · have hfits : addr < s.target.vmem.size ∧ kind = brkptSize := by
      rw [hshown]
      exact hadmits
    by_cases hmem : BitVec.ofNat 64 addr ∈ d.brks
    · have hfull := (h.brks _).mpr hmem
      cases hfind : sadFindBreakpoint s.breakpoints (BitVec.ofNat 64 addr) with
      | none => exact absurd hfull (sadFindBreakpoint_none.mp hfind)
      | some i =>
        obtain ⟨patched, hpatched, hsize, -⟩ := h.under
        have hw := (hpatched.place _ hfull).of_size hsize
        have hremove := sadRemoveBreakpoint_found hfind hw.mem
        obtain ⟨s₁, hresp, hvmem, ht⟩ := hfields hfits _ _ _ hremove
        have hnew : d.after (.remove addr kind) = d.remove (BitVec.ofNat 64 addr) :=
          if_pos ⟨hadmits, hmem⟩
        refine ⟨s₁, by simpa only [answer, hadmits, hmem, and_self, if_true] using hresp, ?_⟩
        rw [hnew, hvmem, ht]
        exact h.remove (sadFindBreakpoint_some hfind)
    · have hnone : ¬ s.breakpoints.FullAt (BitVec.ofNat 64 addr) :=
        fun hfull => hmem ((h.brks _).mp hfull)
      obtain ⟨s₁, hresp, hvmem, ht⟩ := hfields hfits _ _ _ (sadRemoveBreakpoint_notFound hnone)
      refine ⟨s₁, by simpa only [answer, hmem, and_false, if_false, reduceCtorEq] using hresp, ?_⟩
      exact h.unchanged (if_neg fun hif => hmem hif.2) hvmem ht
  · have hnot : ¬ (addr < s.target.vmem.size ∧ kind = brkptSize) := by
      rw [hshown]
      exact hadmits
    obtain ⟨s₁, hresp, hvmem, ht⟩ := hrefused hnot
    refine ⟨s₁, by simpa only [answer, hadmits, false_and, if_false] using hresp, ?_⟩
    exact h.unchanged (if_neg fun hif => hadmits hif.1) hvmem ht

/-- The stub answers a packet as the debugger expects, and still is what the debugger sees. -/
theorem Of.respond (h : d.Of s.target.vmem s.breakpoints)
    (hinput : op.Packet d.shown.size input) (hproper : d.Proper op) (hfits : op.Fits ops) :
    ∃ s₁, respond ops s input = .ok (d.answer op, s₁) ∧
      (d.after op).Of s₁.target.vmem s₁.breakpoints := by
  have hshown := h.shown
  cases op with
  | write w =>
    rw [← hshown] at hinput
    obtain ⟨s₁, hresp, htarget, ht⟩ := (respond_M ops hinput).1 hfits
    refine ⟨s₁, hresp, ?_⟩
    rw [htarget, ht]
    exact h.write w
  | read addr length =>
    rw [← hshown] at hinput
    obtain ⟨s₁, hresp, htarget, ht⟩ := (respond_m ops hinput).1 hfits.1
    rw [hshown] at hresp
    refine ⟨s₁, hresp, ?_⟩
    rw [htarget, ht]
    exact h
  | insert addr kind => exact h.respond_insert ops hinput hproper
  | remove addr kind => exact h.respond_remove ops hinput

-- ---------------------------------------------------------------------------
-- Sessions
-- ---------------------------------------------------------------------------

theorem length_answer (hfits : op.Fits ops) : (d.answer op).length ≤ 2043 := by
  cases op with
  | write w => exact (by decide : (ascii "OK").length ≤ 2043)
  | read addr length =>
    have hlength : (d.answer (.read addr length)).length = 2 * length := by
      simp [answer, List.length_flatMap, Nat.mul_comm]
    rw [hlength]
    exact hfits.2
  | insert addr kind =>
    rw [answer]
    split <;> decide
  | remove addr kind =>
    rw [answer]
    split <;> decide

theorem length_answers {os : List DebugOp} (hfits : ∀ op ∈ os, op.Fits ops) :
    ∀ reply ∈ d.answers os, reply.length ≤ 2043 := by
  induction os generalizing d with
  | nil => simp [answers]
  | cons op os ih =>
    obtain ⟨hop, hos⟩ := List.forall_mem_cons.mp hfits
    exact List.forall_mem_cons.mpr ⟨length_answer hop, ih hos⟩

theorem Of.requests {ps : List (DebugOp × Arrival)} (h : d.Of s.target.vmem s.breakpoints)
    (hps : ∀ p ∈ ps, p.1.Packet d.shown.size p.2.input ∧ p.1.Fits ops)
    (horderly : d.Orderly (ps.map Prod.fst)) :
    ∃ s₁, requests ops s ((ps.map Prod.snd).map Arrival.input) =
        .ok (d.answers (ps.map Prod.fst), s₁) ∧
      (d.run (ps.map Prod.fst)).Of s₁.target.vmem s₁.breakpoints := by
  induction ps generalizing s d with
  | nil => exact ⟨s, rfl, h⟩
  | cons p ps ih =>
    obtain ⟨hproper, hrest⟩ := horderly
    obtain ⟨hpacket, hfits⟩ := hps p List.mem_cons_self
    obtain ⟨s₁, hresp, h₁⟩ := h.respond hpacket hproper hfits
    obtain ⟨s₂, hreqs, h₂⟩ := ih h₁ (fun q hq => by
      rw [size_after]
      exact hps q (List.mem_cons_of_mem _ hq)) hrest
    refine ⟨s₂, ?_, h₂⟩
    simp only [List.map_cons, SwitchV32.requests, hresp, ok_bind, hreqs]
    rfl

theorem free_run (d : Shadowed) (os : List DebugOp) (k : Nat) :
    (d.run os).free.byte k = Overlay.last (d.kept k os) d.free.byte k := by
  induction os generalizing d with
  | nil => rfl
  | cons op os ih =>
    rw [run, ih]
    cases op with
    | write w =>
      by_cases hhides : d.Hides k
      · have hbyte : (d.after (.write w)).free.byte k = d.free.byte k := by
          simp only [after, Shadowed.write, hhides, if_true]
        rw [kept, if_pos hhides, List.nil_append]
        exact Overlay.last_congr hbyte
      · have hbyte : (d.after (.write w)).free.byte k = w.overlay.put d.free.byte k := by
          simp only [after, Shadowed.write, hhides, if_false]
        rw [kept, if_neg hhides, List.singleton_append, Overlay.last_cons]
        exact Overlay.last_congr hbyte
    | read addr length => rfl
    | insert addr kind =>
      refine Overlay.last_congr ?_
      rw [after]
      split <;> rfl
    | remove addr kind =>
      refine Overlay.last_congr ?_
      rw [after]
      split <;> rfl

end Shadowed

/-- A session in which every breakpoint is set on a word of memory and not a second time after a
write to it, and in which what is asked fits: the stub answers as if it kept a set of breakpoints
beside the memory, and when the set is empty again each byte is the one last written while no
breakpoint was over it. -/
theorem debug_session (ops : SysOps ρ) (s : Stub ρ) (ps : List (DebugOp × Arrival))
    (hreset : s.breakpoints = .reset)
    (hps : ∀ p ∈ ps, p.1.Packet s.target.vmem.size p.2.input ∧ p.1.Fits ops)
    (hreads : (ps.map Prod.snd).Pairwise fun a a' => 1920 < a.front → a'.size ≤ stubBuffSize)
    (horderly : (Shadowed.start s.target.vmem).Orderly (ps.map Prod.fst)) :
    ∃ fuel v, serveAll ops fuel (.start s) (ps.map Prod.snd) =
        .ok ((Shadowed.start s.target.vmem).answers (ps.map Prod.fst), v) ∧
      v.stub.target.vmem = ((Shadowed.start s.target.vmem).run (ps.map Prod.fst)).shown ∧
      (∀ a, v.stub.breakpoints.FullAt a ↔
        a ∈ ((Shadowed.start s.target.vmem).run (ps.map Prod.fst)).brks) ∧
      (((Shadowed.start s.target.vmem).run (ps.map Prod.fst)).brks = ∅ →
        ∀ k, v.stub.target.vmem.byte k = Overlay.last
          ((Shadowed.start s.target.vmem).kept k (ps.map Prod.fst)) s.target.vmem.byte k) := by
  have hstart : (Shadowed.start s.target.vmem).Of s.target.vmem s.breakpoints := by
    rw [hreset]
    exact .start _
  obtain ⟨s₁, hreqs, h⟩ := hstart.requests hps horderly
  have hfits : ReadsFit False (ps.map Prod.snd) := readsFit_iff.mpr ⟨False.elim, hreads⟩
  have hops : ∀ op ∈ ps.map Prod.fst, op.Fits ops := fun op hop => by
    obtain ⟨p, hp, rfl⟩ := List.mem_map.mp hop
    exact (hps p hp).2
  have hshort : ∀ reply ∈ (Shadowed.start s.target.vmem).answers (ps.map Prod.fst),
      reply.length ≤ 2043 := Shadowed.length_answers hops
  obtain ⟨fuel, v, hserve⟩ := (Buffered.start_atRest s).serveAll_ok hreqs hfits hshort
  obtain ⟨hreqs', -, -⟩ := (Buffered.start_atRest s).serveAll_cases hserve hshort
  obtain ⟨-, rfl⟩ := Prod.mk.inj (Except.ok.inj (hreqs.symm.trans hreqs'))
  refine ⟨fuel, v, hserve, h.shown, h.brks, fun hnone k => ?_⟩
  rw [h.eq_free hnone]
  exact Shadowed.free_run ..

/-- A write under a breakpoint and one behind it, and the breakpoint is removed. -/
theorem debug_session_under :
    ∃ fuel v, serveAll .idle fuel (.start (.init (.ofWords []) .reset))
        [.whole (ascii "Z00,04,04") (by decide), .whole (ascii "M04,02:A1b2") (by decide),
          .whole (ascii "M08,01:fF") (by decide), .whole (ascii "z00,04,04") (by decide)] =
          .ok ([ascii "OK", ascii "OK", ascii "OK", ascii "OK"], v) ∧
      v.stub.target.vmem.byte 4 = 0 ∧ v.stub.target.vmem.byte 8 = 0xff := by
  obtain ⟨postZ, hZ⟩ := Arrival.whole_holds (ascii "Z00,04,04") (by decide)
  obtain ⟨postM, hM⟩ := Arrival.whole_holds (ascii "M04,02:A1b2") (by decide)
  obtain ⟨postN, hN⟩ := Arrival.whole_holds (ascii "M08,01:fF") (by decide)
  obtain ⟨postz, hz⟩ := Arrival.whole_holds (ascii "z00,04,04") (by decide)
  have hinsert : InsertPacket 4 4 (Arrival.whole (ascii "Z00,04,04") (by decide)).input :=
    ⟨[], by simp, _, _, _, postZ, spells_pair (by decide), spells_pair (by decide),
      spells_pair (by decide), hZ⟩
  have hunder : MemWrite.Packet 4096 ⟨4, 2, ascii "A1b2", by decide, rfl⟩
      (Arrival.whole (ascii "M04,02:A1b2") (by decide)).input :=
    ⟨by decide, _, _, postM, spells_pair (by decide), spells_pair (by decide), hM⟩
  have hbehind : MemWrite.Packet 4096 ⟨8, 1, ascii "fF", by decide, rfl⟩
      (Arrival.whole (ascii "M08,01:fF") (by decide)).input :=
    ⟨by decide, _, _, postN, spells_pair (by decide), spells_pair (by decide), hN⟩
  have hremove : RemovePacket 4 4 (Arrival.whole (ascii "z00,04,04") (by decide)).input :=
    ⟨_, _, _, postz, spells_pair (by decide), spells_pair (by decide), spells_pair (by decide), hz⟩
  have hread (payload : List U8) (h : payload.length ≤ 123) :
      ¬ 1920 < (Arrival.whole payload h).front := by
    rw [Arrival.front_whole]
    decide
  obtain ⟨fuel, v, hserve, -, -, hbytes⟩ := debug_session .idle (.init (.ofWords []) .reset)
    [(.insert 4 4, .whole (ascii "Z00,04,04") (by decide)),
      (.write ⟨4, 2, ascii "A1b2", by decide, rfl⟩, .whole (ascii "M04,02:A1b2") (by decide)),
      (.write ⟨8, 1, ascii "fF", by decide, rfl⟩, .whole (ascii "M08,01:fF") (by decide)),
      (.remove 4 4, .whole (ascii "z00,04,04") (by decide))] rfl
    (by
      rintro p (_ | ⟨_, _ | ⟨_, _ | ⟨_, _ | ⟨_, ⟨⟩⟩⟩⟩⟩)
      · exact ⟨hinsert, trivial⟩
      · exact ⟨hunder, (by decide : 2 ≤ 0x800000)⟩
      · exact ⟨hbehind, (by decide : 1 ≤ 0x800000)⟩
      · exact ⟨hremove, trivial⟩)
    (by simp [hread])
    ⟨fun _ => ⟨⟨by decide, by decide⟩, fun hmem => absurd hmem (by decide)⟩, trivial, trivial,
      trivial, trivial⟩
  have hbytes := hbytes (by decide)
  refine ⟨fuel, v, hserve.trans (congrArg (fun l => Except.ok (l, v)) (by decide)), ?_, ?_⟩
  · rw [hbytes 4]
    decide
  · rw [hbytes 8]
    decide

end

end SwitchV32
