import SwitchV32.Loader

/-!
# What `ld_elf_seg` leaves in guest memory

For each `PT_LOAD` header the code copies `p_memsz` bytes of the file, then puts
zeros over those behind the first `p_filesz`. The bytes that are only there to be
overwritten have to be in the file too.
-/

namespace SwitchV32

open Effect

-- ---------------------------------------------------------------------------
-- The segments of a file
-- ---------------------------------------------------------------------------

structure Seg where
  offset : Nat
  vaddr : Nat
  filesz : Nat
  memsz : Nat
  deriving DecidableEq

def Seg.Has (g : Seg) (a : Nat) : Prop := g.vaddr ≤ a ∧ a < g.vaddr + g.memsz

/-- The little-endian field of `w` bits at an offset of the file. -/
def MappedFile.field (f : MappedFile) (w off : Nat) : BitVec w :=
  BitVec.ofNat w (bytesLE f.byte off (w / 8))

def MappedFile.phoff (f : MappedFile) : Nat := (f.field 32 28).toNat
def MappedFile.phnum (f : MappedFile) : Nat := (f.field 16 44).toNat

def MappedFile.phdr (f : MappedFile) (i member : Nat) : U32 :=
  f.field 32 (f.phoff + Phdr.bytes * i + member)

def MappedFile.seg? (f : MappedFile) (i : Nat) : Option Seg :=
  if f.phdr i Phdr.type = ptLoad then
    some
      { offset := (f.phdr i Phdr.offset).toNat, vaddr := (f.phdr i Phdr.vaddr).toNat
        filesz := (f.phdr i Phdr.filesz).toNat, memsz := (f.phdr i Phdr.memsz).toNat }
  else none

def MappedFile.segs (f : MappedFile) : List Seg := (List.range f.phnum).filterMap f.seg?

structure MappedFile.WellFormed (f : MappedFile) (memorySize : Nat) : Prop where
  header : 52 ≤ f.size
  table : f.phoff + Phdr.bytes * f.phnum ≤ f.size
  filesz : ∀ g ∈ f.segs, g.filesz ≤ g.memsz
  inFile : ∀ g ∈ f.segs, g.offset + g.filesz ≤ f.size
  inMemory : ∀ g ∈ f.segs, g.vaddr + g.memsz ≤ memorySize
  disjoint : f.segs.Pairwise fun g g' => ∀ a, ¬ (g.Has a ∧ g'.Has a)

structure Loaded (f : MappedFile) (mem : Mem) (r : Except LdStop Unit × LdState) : Prop where
  done : r.1 = .ok ()
  reads : ∀ p ∈ r.2.reads, ∀ k, p.1 ≤ k → k < p.1 + p.2 → k < f.size
  file : ∀ g ∈ f.segs, ∀ k < g.filesz, r.2.mem.byte (g.vaddr + k) = f.byte (g.offset + k)
  zero : ∀ g ∈ f.segs, ∀ k, g.filesz ≤ k → k < g.memsz → r.2.mem.byte (g.vaddr + k) = 0
  others : ∀ a, (∀ g ∈ f.segs, ¬ g.Has a) → r.2.mem.byte a = mem.byte a

/-- The whole segment is in the file, and it ends before the end of guest memory. -/
def Seg.Fits (f : MappedFile) (memorySize : Nat) (g : Seg) : Prop :=
  g.vaddr + g.memsz < memorySize ∧ ∀ k < g.memsz, g.offset + k < f.size

-- ---------------------------------------------------------------------------
-- Fields
-- ---------------------------------------------------------------------------

variable {f : MappedFile} {elf : ElfFile} {s s' : LdState} {g : Seg} {off n i : Nat}

theorem bytesLE_congr {byte byte' : Nat → U8} {a b : Nat}
    (h : ∀ j < n, byte (a + j) = byte' (b + j)) :
    bytesLE byte a n = bytesLE byte' b n := by
  induction n generalizing a b with
  | zero => rfl
  | succ n ih =>
    have hfirst := h 0 (Nat.succ_pos n)
    have hrest : bytesLE byte (a + 1) n = bytesLE byte' (b + 1) n := by
      refine ih fun j hj => ?_
      have hbyte := h (j + 1) (Nat.succ_lt_succ hj)
      rwa [Nat.add_assoc, Nat.add_comm 1 j, Nat.add_assoc, Nat.add_comm 1 j]
    simp only [Nat.add_zero] at hfirst
    rw [bytesLE, bytesLE, hfirst, hrest]

theorem ldInt_runs {w : Nat} (h : off + w / 8 ≤ f.size) :
    Runs (ldInt f w off) s (f.field w off) (s.read off (w / 8)) := by
  refine (ldRead_runs fun j hj => by omega).bind ?_
  have hint : intAt w ((List.range (w / 8)).map fun j => f.byte (off + j)) 0 = f.field w off := by
    refine congrArg (BitVec.ofNat w) (bytesLE_congr fun j hj => ?_)
    simp [hj]
  rw [hint]
  rfl

-- ---------------------------------------------------------------------------
-- One segment
-- ---------------------------------------------------------------------------

def Seg.image (f : MappedFile) (g : Seg) : Overlay U8 where
  start := g.vaddr
  values := (List.range g.memsz).map fun k => if k < g.filesz then f.byte (g.offset + k) else 0

theorem Seg.covers_image (a : Nat) : (g.image f).Covers a ↔ g.Has a := by
  simp [Overlay.Covers, Seg.image, Seg.Has]

theorem Seg.image_put (a : Nat) (byte : Nat → U8) : (g.image f).put byte a =
    if g.vaddr ≤ a ∧ a < g.vaddr + g.memsz then
      if a - g.vaddr < g.filesz then f.byte (g.offset + (a - g.vaddr)) else 0
    else byte a := Overlay.put_map_range ..

theorem Seg.zeros_put_copy (hsize : g.filesz ≤ g.memsz) (byte : Nat → U8) :
    (Overlay.mk (g.vaddr + g.filesz) (List.replicate (g.memsz - g.filesz) 0)).put
      ((Overlay.mk g.vaddr ((List.range g.memsz).map fun k => f.byte (g.offset + k))).put byte) =
    (g.image f).put byte := by
  funext a
  rw [Overlay.put_replicate, Overlay.put_map_range, Seg.image_put]
  by_cases hhas : g.vaddr ≤ a ∧ a < g.vaddr + g.memsz
  · by_cases hfile : a - g.vaddr < g.filesz
    · rw [if_neg (by omega), if_pos hhas, if_pos hhas, if_pos hfile]
    · rw [if_pos (by omega), if_pos hhas, if_neg hfile]
  · rw [if_neg (by omega), if_neg hhas, if_neg hhas]

theorem Seg.copy_put (hsize : g.filesz = g.memsz) (byte : Nat → U8) :
    (Overlay.mk g.vaddr ((List.range g.memsz).map fun k => f.byte (g.offset + k))).put byte =
      (g.image f).put byte := by
  rw [← g.zeros_put_copy (Nat.le_of_eq hsize), hsize, Nat.sub_self]
  funext a
  rw [Overlay.put_replicate, if_neg (by omega)]

theorem memWbPtrS_runs {addr : U32} (hfile : ∀ j < n, off + j < f.size)
    (hmem : addr.toNat + n ≤ s.mem.size) :
    Runs (memWbPtrS f addr off n) s ()
      (((s.write addr.toNat n).read off n).put addr.toNat
        ((List.range n).map fun j => f.byte (off + j))) := by
  refine Runs.bind (out_modify _ s) (Runs.bind (ldRead_runs hfile) (ldPut_runs ?_))
  simpa [LdState.read, LdState.write] using hmem

theorem memWbS_runs {addr : U32} {input : U8} (hmem : addr.toNat + n ≤ s.mem.size) :
    Runs (memWbS addr input n) s ()
      ((s.write addr.toNat n).put addr.toNat (List.replicate n input)) := by
  refine Runs.bind (out_modify _ s) (ldPut_runs ?_)
  simpa [LdState.write] using hmem

def segOf (fsz memsz foff addr : U32) : Seg := ⟨foff.toNat, addr.toNat, fsz.toNat, memsz.toNat⟩

theorem ldElfLoad_valid {fsz memsz foff addr : U32}
    (hvalid : addr.toNat + memsz.toNat < s.mem.size) :
    out (ldElfLoad f fsz memsz foff addr) s =
      out (memWbPtrS f addr foff.toNat memsz.toNat >>= fun _ =>
        if fsz < memsz then memWbS (addr + fsz) 0 (memsz - fsz).toNat else pure ()) s := by
  have hcond : ¬ (!validAddr s.mem addr memsz) = true := by simpa [validAddr] using hvalid
  rw [ldElfLoad, out_bind_ok _ (out_get s), if_neg hcond]

theorem ldElfLoad_runs {fsz memsz foff addr : U32} (hsize : fsz.toNat ≤ memsz.toNat)
    (hfits : (segOf fsz memsz foff addr).Fits f s.mem.size) :
    ∃ s', Runs (ldElfLoad f fsz memsz foff addr) s () s' ∧ s'.mem.size = s.mem.size ∧
      s'.mem.byte = ((segOf fsz memsz foff addr).image f).put s.mem.byte ∧
      s'.reads = (foff.toNat, memsz.toNat) :: s.reads := by
  obtain ⟨hmem, hfile⟩ := hfits
  simp only [segOf] at hmem
  have hcopy := memWbPtrS_runs (s := s) hfile (Nat.le_of_lt hmem)
  simp only [Runs, ldElfLoad_valid hmem]
  by_cases hbss : fsz < memsz
  · have hle := s.mem.size_le
    have haddr : (addr + fsz).toNat = addr.toNat + fsz.toNat := by bv_omega
    have hlen : (memsz - fsz).toNat = memsz.toNat - fsz.toNat := by bv_omega
    have hin : (addr + fsz).toNat + (memsz - fsz).toNat ≤ s.mem.size := by omega
    simp only [if_pos hbss]
    refine ⟨_, hcopy.bind (memWbS_runs hin), rfl, ?_, rfl⟩
    simp only [haddr, hlen]
    exact Seg.zeros_put_copy (g := segOf fsz memsz foff addr) hsize _
  · have hsame : fsz.toNat = memsz.toNat := by bv_omega
    simp only [if_neg hbss]
    refine ⟨_, hcopy.bind (out_pure _ _), rfl, ?_, rfl⟩
    exact Seg.copy_put (g := segOf fsz memsz foff addr) hsame _

-- ---------------------------------------------------------------------------
-- One header
-- ---------------------------------------------------------------------------

def LdState.readPhdr (f : MappedFile) (i : Nat) (s : LdState) : LdState :=
  let phdr := f.phoff + Phdr.bytes * i
  ((((s.read (phdr + Phdr.type) 4).read (phdr + Phdr.filesz) 4).read (phdr + Phdr.memsz) 4).read
    (phdr + Phdr.offset) 4).read (phdr + Phdr.vaddr) 4

def Within (f : MappedFile) (p : Nat × Nat) : Prop := ∀ k, p.1 ≤ k → k < p.1 + p.2 → k < f.size

section
variable (helf : elf.programs = f.phoff) (hphdr : f.phoff + Phdr.bytes * i + Phdr.bytes ≤ f.size)
include helf hphdr

theorem phdr_runs {member : Nat} (s : LdState) (hmember : member + 4 ≤ Phdr.bytes) :
    Runs (ldInt f 32 (elf.programs + Phdr.bytes * i + member)) s (f.phdr i member)
      (s.read (f.phoff + Phdr.bytes * i + member) 4) := by
  rw [helf]
  exact ldInt_runs (by omega)

theorem out_ldElfSegAt_other (htype : f.phdr i Phdr.type ≠ ptLoad) :
    out (ldElfSegAt f elf i) s = (.ok (), s.read (f.phoff + Phdr.bytes * i + Phdr.type) 4) := by
  refine (out_bind_ok _ (phdr_runs helf hphdr s (by decide))).trans ?_
  rw [if_pos (by simpa using htype)]
  rfl

theorem out_ldElfSegAt_load (htype : f.phdr i Phdr.type = ptLoad) :
    out (ldElfSegAt f elf i) s =
      out (ldElfLoad f (f.phdr i Phdr.filesz) (f.phdr i Phdr.memsz) (f.phdr i Phdr.offset)
        (f.phdr i Phdr.vaddr)) (s.readPhdr f i) := by
  refine (out_bind_ok _ (phdr_runs helf hphdr _ (by decide))).trans ?_
  rw [if_neg (by simpa using htype)]
  refine (out_bind_ok _ (phdr_runs helf hphdr _ (by decide))).trans ?_
  refine (out_bind_ok _ (phdr_runs helf hphdr _ (by decide))).trans ?_
  refine (out_bind_ok _ (phdr_runs helf hphdr _ (by decide))).trans ?_
  exact out_bind_ok _ (phdr_runs helf hphdr _ (by decide))

omit helf in
theorem phdr_within {member : Nat} (hmember : member + 4 ≤ Phdr.bytes) :
    Within f (f.phoff + Phdr.bytes * i + member, 4) := fun k _ hk => by omega

omit helf in
theorem readPhdr_within {p : Nat × Nat} (hp : p ∈ (s.readPhdr f i).reads) :
    p ∈ s.reads ∨ Within f p := by
  simp only [LdState.readPhdr, LdState.read, List.mem_cons] at hp
  rcases hp with rfl | rfl | rfl | rfl | rfl | hp
  · exact .inr (phdr_within hphdr (by decide))
  · exact .inr (phdr_within hphdr (by decide))
  · exact .inr (phdr_within hphdr (by decide))
  · exact .inr (phdr_within hphdr (by decide))
  · exact .inr (phdr_within hphdr (by decide))
  · exact .inl hp

theorem ldElfSegAt_runs
    (hfits : ∀ g, f.seg? i = some g → g.filesz ≤ g.memsz ∧ g.Fits f s.mem.size) :
    ∃ s', Runs (ldElfSegAt f elf i) s () s' ∧ s'.mem.size = s.mem.size ∧
      s'.mem.byte = Overlay.last ((f.seg? i).toList.map (Seg.image f)) s.mem.byte ∧
      ∀ p ∈ s'.reads, p ∈ s.reads ∨ Within f p := by
  by_cases htype : f.phdr i Phdr.type = ptLoad
  · have hseg : f.seg? i = some (segOf (f.phdr i Phdr.filesz) (f.phdr i Phdr.memsz)
        (f.phdr i Phdr.offset) (f.phdr i Phdr.vaddr)) := if_pos htype
    obtain ⟨hsize, hfit⟩ := hfits _ hseg
    obtain ⟨s', hrun, hmem, hbyte, hreads⟩ := ldElfLoad_runs (s := s.readPhdr f i) hsize hfit
    refine ⟨s', (out_ldElfSegAt_load helf hphdr htype).trans hrun, hmem, ?_, fun p hp => ?_⟩
    · rw [hseg, hbyte, Option.toList_some, List.map_cons, List.map_nil, Overlay.last_cons,
        Overlay.last_nil]
      rfl
    · rw [hreads, List.mem_cons] at hp
      rcases hp with rfl | hp
      · refine .inr fun k hlow hhigh => ?_
        have hk := hfit.2 (k - (f.phdr i Phdr.offset).toNat) (by
          simp only [segOf]
          omega)
        simp only [segOf] at hk
        omega
      · exact readPhdr_within hphdr hp
  · have hseg : f.seg? i = none := if_neg htype
    refine ⟨_, out_ldElfSegAt_other helf hphdr htype, rfl, ?_, fun p hp => ?_⟩
    · rw [hseg]
      rfl
    · rw [LdState.read, List.mem_cons] at hp
      rcases hp with rfl | hp
      · exact .inr (phdr_within hphdr (by decide))
      · exact .inl hp

end

-- ---------------------------------------------------------------------------
-- The table
-- ---------------------------------------------------------------------------

theorem segs_runs (helf : elf.programs = f.phoff) {l : List Nat}
    (hl : ∀ i ∈ l, f.phoff + Phdr.bytes * i + Phdr.bytes ≤ f.size)
    (hfits : ∀ g ∈ l.filterMap f.seg?, g.filesz ≤ g.memsz ∧ g.Fits f s.mem.size) :
    ∃ s', Runs (l.forM (ldElfSegAt f elf)) s () s' ∧ s'.mem.size = s.mem.size ∧
      s'.mem.byte = Overlay.last ((l.filterMap f.seg?).map (Seg.image f)) s.mem.byte ∧
      ∀ p ∈ s'.reads, p ∈ s.reads ∨ Within f p := by
  induction l generalizing s with
  | nil => exact ⟨s, out_pure _ _, rfl, rfl, fun _ => .inl⟩
  | cons i l ih =>
    have hmem {g : Seg} : g ∈ (i :: l).filterMap f.seg? ↔
        f.seg? i = some g ∨ g ∈ l.filterMap f.seg? := by
      simp
    obtain ⟨s₁, hstep, hsize, hbyte, hreads⟩ := ldElfSegAt_runs helf (hl i (.head _))
      fun g hg => hfits g (hmem.mpr (.inl hg))
    obtain ⟨s', hrun, hsize', hbyte', hreads'⟩ := ih (fun j hj => hl j (.tail _ hj)) fun g hg => by
      rw [hsize]
      exact hfits g (hmem.mpr (.inr hg))
    refine ⟨s', hstep.bind hrun, hsize'.trans hsize, ?_, fun p hp => ?_⟩
    · rw [hbyte', hbyte]
      cases hseg : f.seg? i with
      | none => simp [hseg]
      | some g => simp [hseg, Overlay.last_cons]
    · rcases hreads' p hp with hp | hp
      · exact hreads p hp
      · exact .inr hp

-- ---------------------------------------------------------------------------
-- What a load that ends has done
-- ---------------------------------------------------------------------------

/-- The record of the reads only grows, and guest memory keeps its size. -/
structure LdState.Grows (s s' : LdState) : Prop where
  size : s'.mem.size = s.mem.size
  reads : ∀ p ∈ s.reads, p ∈ s'.reads

theorem LdState.Grows.refl (s : LdState) : s.Grows s := ⟨rfl, fun _ => id⟩

theorem LdState.Grows.trans {s₁ s₂ s₃ : LdState} (h : s₁.Grows s₂) (h' : s₂.Grows s₃) :
    s₁.Grows s₃ :=
  ⟨h'.size.trans h.size, fun p hp => h'.reads p (h.reads p hp)⟩

theorem ldRead_of_runs {bytes : List U8} (h : Runs (ldRead f off n) s bytes s') :
    s' = s.read off n := by
  obtain ⟨⟨⟩, s₁, hmodify, h⟩ := Runs.of_bind h
  cases hmodify
  cases hbytes : (List.range n).mapM fun j => f.host (off + j) with
  | none =>
    rw [hbytes] at h
    cases h
  | some bytes =>
    rw [hbytes] at h
    cases h
    rfl

theorem ldPut_of_runs {addr : Nat} {values : List U8} (h : Runs (ldPut addr values) s () s') :
    s' = s.put addr values := by
  rw [ldPut, runs_get_bind] at h
  split at h <;> cases h
  rfl

theorem memWbPtrS_of_runs {addr : U32} (h : Runs (memWbPtrS f addr off n) s () s') :
    s.Grows s' ∧ (off, n) ∈ s'.reads := by
  obtain ⟨⟨⟩, s₁, hmodify, h⟩ := Runs.of_bind h
  cases hmodify
  obtain ⟨bytes, s₂, hread, h⟩ := Runs.of_bind h
  rw [ldPut_of_runs h, ldRead_of_runs hread]
  exact ⟨⟨rfl, fun p hp => .tail _ hp⟩, .head _⟩

theorem memWbS_of_runs {addr : U32} {input : U8} (h : Runs (memWbS addr input n) s () s') :
    s.Grows s' := by
  obtain ⟨⟨⟩, s₁, hmodify, h⟩ := Runs.of_bind h
  cases hmodify
  rw [ldPut_of_runs h]
  exact ⟨rfl, fun p hp => hp⟩

theorem ldElfLoad_of_runs {fsz memsz foff addr : U32}
    (h : Runs (ldElfLoad f fsz memsz foff addr) s () s') :
    addr.toNat + memsz.toNat < s.mem.size ∧ s.Grows s' ∧
      (foff.toNat, memsz.toNat) ∈ s'.reads := by
  have hvalid : addr.toNat + memsz.toNat < s.mem.size := by
    by_contra hvalid
    have hcond : (!validAddr s.mem addr memsz) = true := by simpa [validAddr] using hvalid
    rw [ldElfLoad, runs_get_bind, if_pos hcond] at h
    cases h
  rw [Runs, ldElfLoad_valid hvalid] at h
  obtain ⟨⟨⟩, s₁, hcopy, hbss⟩ := Runs.of_bind h
  obtain ⟨hgrows, hmem⟩ := memWbPtrS_of_runs hcopy
  have hrest : s₁.Grows s' := by
    split at hbss
    · exact memWbS_of_runs hbss
    · cases hbss
      exact .refl _
  exact ⟨hvalid, hgrows.trans hrest, hrest.reads _ hmem⟩

theorem ldElfSegAt_of_runs (helf : elf.programs = f.phoff)
    (hphdr : f.phoff + Phdr.bytes * i + Phdr.bytes ≤ f.size)
    (h : Runs (ldElfSegAt f elf i) s () s') :
    s.Grows s' ∧ ∀ g, f.seg? i = some g →
      g.vaddr + g.memsz < s.mem.size ∧ (g.offset, g.memsz) ∈ s'.reads := by
  by_cases htype : f.phdr i Phdr.type = ptLoad
  · rw [Runs, out_ldElfSegAt_load helf hphdr htype] at h
    obtain ⟨hvalid, hgrows, hread⟩ := ldElfLoad_of_runs h
    have hphdr : s.Grows (s.readPhdr f i) := by
      refine ⟨rfl, fun p hp => ?_⟩
      simp [LdState.readPhdr, LdState.read, hp]
    refine ⟨hphdr.trans hgrows, fun g hg => ?_⟩
    rw [MappedFile.seg?, if_pos htype] at hg
    cases hg
    exact ⟨hvalid, hread⟩
  · rw [Runs, out_ldElfSegAt_other helf hphdr htype] at h
    cases h
    refine ⟨⟨rfl, fun p hp => .tail _ hp⟩, fun g hg => ?_⟩
    rw [MappedFile.seg?, if_neg htype] at hg
    cases hg

-- ---------------------------------------------------------------------------
-- The whole load
-- ---------------------------------------------------------------------------

variable {mem : Mem}

theorem MappedFile.WellFormed.phdr_le (hf : f.WellFormed n) (hi : i ∈ List.range f.phnum) :
    f.phoff + Phdr.bytes * i + Phdr.bytes ≤ f.size := by
  have htable := hf.table
  have hlt := List.mem_range.mp hi
  simp only [Phdr.bytes] at htable ⊢
  omega

theorem out_ldElfSeg (hf : f.WellFormed n) (s : LdState) :
    out (ldElfSeg f elf) s =
      out ((List.range f.phnum).forM (ldElfSegAt f elf)) (s.read 44 2) := by
  have hheader := hf.header
  exact out_bind_ok _ (ldInt_runs (by omega))

theorem loaded_of_fits (hf : f.WellFormed mem.size) (helf : elf.programs = f.phoff)
    (hfits : ∀ g ∈ f.segs, g.Fits f mem.size) :
    Loaded f mem (out (ldElfSeg f elf) (.start mem)) := by
  have hall : ∀ g ∈ f.segs, g.filesz ≤ g.memsz ∧ g.Fits f mem.size :=
    fun g hg => ⟨hf.filesz g hg, hfits g hg⟩
  obtain ⟨s', hrun, -, hbyte, hreads⟩ := segs_runs (s := (LdState.start mem).read 44 2) helf
    (fun _ => hf.phdr_le) hall
  rw [out_ldElfSeg hf, hrun]
  have hdisjoint : (f.segs.map (Seg.image f)).Pairwise
      fun o o' => ∀ k, ¬ (o.Covers k ∧ o'.Covers k) := by
    refine List.pairwise_map.mpr (hf.disjoint.imp fun hdisjoint k hk => ?_)
    exact hdisjoint k (by rwa [Seg.covers_image, Seg.covers_image] at hk)
  have himage {g : Seg} (hg : g ∈ f.segs) {k : Nat} (hk : k < g.memsz) :
      s'.mem.byte (g.vaddr + k) = if k < g.filesz then f.byte (g.offset + k) else 0 := by
    have hhas : g.vaddr ≤ g.vaddr + k ∧ g.vaddr + k < g.vaddr + g.memsz := ⟨by omega, by omega⟩
    rw [hbyte]
    refine (Overlay.last_of_pairwise hdisjoint (List.mem_map_of_mem hg)
      ((Seg.covers_image _).mpr hhas)).trans ?_
    rw [Seg.image_put, if_pos hhas, Nat.add_sub_cancel_left]
  refine
    { done := rfl
      reads := fun p hp => ?_
      file := fun g hg k hk => ?_
      zero := fun g hg k hlow hhigh => ?_
      others := fun a ha => ?_ }
  · rcases hreads p hp with hp | hp
    · have hheader := hf.header
      cases List.mem_singleton.mp hp
      exact fun k _ hk => by omega
    · exact hp
  · rw [himage hg (Nat.lt_of_lt_of_le hk (hf.filesz g hg)), if_pos hk]
  · rw [himage hg hhigh, if_neg (Nat.not_lt_of_le hlow)]
  · rw [hbyte]
    refine Overlay.last_of_not_covers fun o ho hcovers => ?_
    obtain ⟨g, hg, rfl⟩ := List.mem_map.mp ho
    exact ha g hg ((Seg.covers_image a).mp hcovers)

theorem Loaded.fits (hf : f.WellFormed mem.size) (helf : elf.programs = f.phoff)
    (h : Loaded f mem (out (ldElfSeg f elf) (.start mem))) : ∀ g ∈ f.segs, g.Fits f mem.size := by
  intro g hg
  rw [out_ldElfSeg hf] at h
  obtain ⟨i, hi, hseg⟩ := List.mem_filterMap.mp hg
  have hrun : Runs ((List.range f.phnum).forM (ldElfSegAt f elf)) ((LdState.start mem).read 44 2) ()
      (out ((List.range f.phnum).forM (ldElfSegAt f elf)) ((LdState.start mem).read 44 2)).2 :=
    Prod.ext h.done rfl
  obtain ⟨-, hmem⟩ := Runs.forM_mem LdState.Grows.refl LdState.Grows.trans
    (fun i hi s s' hstep => (ldElfSegAt_of_runs helf (hf.phdr_le hi) hstep).1) hrun
  obtain ⟨s₁, s₂, hbefore, hstep, hafter⟩ := hmem i hi
  obtain ⟨hvalid, hread⟩ := (ldElfSegAt_of_runs helf (hf.phdr_le hi) hstep).2 g hseg
  rw [hbefore.size] at hvalid
  refine ⟨hvalid, fun k hk => ?_⟩
  exact h.reads _ (hafter.reads _ hread) _ (Nat.le_add_right _ _) (Nat.add_lt_add_left hk _)

/-- A well-formed file is loaded as it has to be exactly if every segment ends before the last byte
of guest memory and all of its `p_memsz` bytes are in the file. -/
theorem loaded_iff (hf : f.WellFormed mem.size) (helf : elf.programs = f.phoff) :
    Loaded f mem (out (ldElfSeg f elf) (.start mem)) ↔ ∀ g ∈ f.segs, g.Fits f mem.size :=
  ⟨fun h => h.fits hf helf, loaded_of_fits hf helf⟩

/-- A file of one segment with four bytes of code, and an empty symbol table. -/
def bssFile (memsz : U32) : MappedFile where
  size := 228
  size_lt := by decide
  behind k := if k < 4096 then some 0 else none
  byte k :=
    (([0x464C457F, 0x00010101, 0, 0, 0x00F30002, 1, 0x1000, 52, 108, 0, 0x00200034, 0x00280001,
        0x00020003,
        -- the program header
        1, 84, 0x1000, 0x1000, 4, memsz, 7, 4,
        -- the code, then the names of the sections
        0x0000006F, 0x79732E00, 0x6261746D, 0x74732E00, 0x62617472, 0,
        -- the section headers
        0, 0, 0, 0, 0, 0, 0, 0, 0, 0,
        1, 2, 0, 0, 228, 0, 2, 0, 4, 16,
        9, 3, 0, 0, 88, 17, 0, 0, 1, 0] : List U32).getD (k / 4) 0 >>> (8 * (k % 4))).setWidth 8

def bssElf : ElfFile := ⟨32, 120, 0, 52, 108, 228, 88, 88⟩

def megabyte : Mem := ⟨2 ^ 20, by decide, fun _ => 0xFF⟩

theorem bssFile_wellFormed {memsz : U32} (hphoff : (bssFile memsz).phoff = 52)
    (hphnum : (bssFile memsz).phnum = 1)
    (hsegs : (bssFile memsz).segs = [⟨84, 0x1000, 4, memsz.toNat⟩])
    (hmin : 4 ≤ memsz.toNat) (hmax : memsz.toNat ≤ 0x1000) :
    (bssFile memsz).WellFormed megabyte.size where
  header := by simp [bssFile]
  table := by
    rw [hphoff, hphnum]
    simp [bssFile, Phdr.bytes]
  filesz := by simpa [hsegs] using hmin
  inFile := by
    rw [hsegs]
    simp [bssFile]
  inMemory := by
    rw [hsegs]
    simp only [List.mem_singleton, forall_eq, megabyte]
    omega
  disjoint := by
    rw [hsegs]
    exact List.pairwise_singleton ..

theorem loaded_iff_bss : Loaded (bssFile 8) megabyte
    (out (ldElfSeg (bssFile 8) bssElf) (.start megabyte)) := by
  have hsegs : (bssFile 8).segs = [⟨84, 0x1000, 4, 8⟩] := by decide
  refine (loaded_iff (bssFile_wellFormed (by decide) (by decide) hsegs (by decide) (by decide))
    (by decide)).mpr ?_
  rw [hsegs]
  simp [Seg.Fits, megabyte, bssFile]
  omega

/-- A bss section that reaches past the end of the file. -/
theorem loaded_fails : (bssFile 4096).WellFormed megabyte.size ∧
    ¬ Loaded (bssFile 4096) megabyte
      (out (ldElfSeg (bssFile 4096) bssElf) (.start megabyte)) := by
  have hsegs : (bssFile 4096).segs = [⟨84, 0x1000, 4, 4096⟩] := by decide
  have hf := bssFile_wellFormed (by decide) (by decide) hsegs (by decide) (by decide)
  refine ⟨hf, fun h => ?_⟩
  have hfits := h.fits hf (by decide) ⟨84, 0x1000, 4, 4096⟩ (by rw [hsegs]; exact .head _)
  exact absurd (hfits.2 4095 (by decide)) (by decide)

end SwitchV32
