import SwitchV32.Loader

/-!
# What a load writes

`ld_elf` compares every segment with the size of guest memory before it writes.
`ld_bin` copies the whole file without a look at the size.
-/

namespace SwitchV32

open Effect

variable {P : LdState → Prop} {f : MappedFile} {n : Nat}

-- ---------------------------------------------------------------------------
-- Functions that only read
-- ---------------------------------------------------------------------------

theorem ldReadAndMapFile_keeps (file : Option MappedFile) : Keeps P (ldReadAndMapFile file) := by
  cases file with
  | none => exact .throw _
  | some f => exact .ite (fun _ => .throw _) fun _ => .pure _

theorem validate_keeps (cond : Bool) : Keeps P (validate cond) := by
  cases cond with
  | true => exact .pure _
  | false => exact .throw _

section
variable (hread : ∀ s off n, P s → P (s.read off n))
include hread

theorem ldRead_keeps (off n : Nat) : Keeps P (ldRead f off n) := by
  refine .bind (.modify fun s => hread s off n) fun _ => ?_
  cases (List.range n).mapM fun j => f.host (off + j) with
  | none => exact .throw _
  | some bytes => exact .pure _

theorem ldInt_keeps (w off : Nat) : Keeps P (ldInt f w off) :=
  .bind (ldRead_keeps hread off _) fun _ => .pure _

theorem ldElfValidate_keeps : Keeps P (ldElfValidate f) := by
  unfold ldElfValidate Ehdr.ident Ehdr.type Ehdr.machine Ehdr.entry Ehdr.phoff Ehdr.shoff
    Ehdr.shstrndx
  iterate 14
    refine .bind (ldInt_keeps hread _ _) fun _ => .bind (validate_keeps _) fun _ => ?_
  exact .bind (ldInt_keeps hread _ _) fun _ => validate_keeps _

theorem ldStrcmp_keeps (name : List U8) (off : Nat) : Keeps P (ldStrcmp f name off) := by
  induction name generalizing off with
  | nil => exact .bind (ldInt_keeps hread _ _) fun _ => .pure _
  | cons c name ih =>
    exact .bind (ldInt_keeps hread _ _) fun _ => .ite (fun _ => ih _) fun _ => .pure _

theorem ldElfGetsect_keeps (elf : ElfFile) (name : List U8) :
    Keeps P (ldElfGetsect f elf name) := by
  refine .bind (ldInt_keeps hread _ _) fun _ => .bind (.findM (fun _ => ?_) _) fun _ => .pure _
  exact .bind (ldInt_keeps hread _ _) fun _ => ldStrcmp_keeps hread _ _

theorem ldElfGetsym_keeps (elf : ElfFile) (name : List U8) : Keeps P (ldElfGetsym f elf name) := by
  refine .bind (.findM (fun _ => ?_) _) fun _ => .pure _
  exact .bind (ldInt_keeps hread _ _) fun _ => ldStrcmp_keeps hread _ _

theorem ldElfShstrndx_keeps (elf : ElfFile) : Keeps P (ldElfShstrndx f elf) :=
  .bind (ldInt_keeps hread _ _) fun _ => .ite (fun _ => ldInt_keeps hread _ _) fun _ => .pure _

theorem ldElfSectionNames_keeps (elf : ElfFile) : Keeps P (ldElfSectionNames f elf) :=
  .bind (ldElfShstrndx_keeps hread elf) fun _ => .bind (ldRead_keeps hread _ _) fun _ => .pure _

theorem ldElfSymbols_keeps (elf : ElfFile) : Keeps P (ldElfSymbols f elf) := by
  refine .bind (ldElfGetsect_keeps hread elf _) fun symtab => ?_
  cases symtab with
  | none => exact .throw _
  | some symtab =>
    refine .bind (ldInt_keeps hread _ _) fun _ => .bind (ldInt_keeps hread _ _) fun _ => ?_
    refine .ite (fun _ => .throw _) fun _ => .bind (ldInt_keeps hread _ _) fun _ => ?_
    refine .bind (ldElfGetsect_keeps hread elf _) fun strtab => ?_
    cases strtab with
    | none => exact .throw _
    | some strtab => exact .bind (ldInt_keeps hread _ _) fun _ => .pure _

theorem ldElfGp_keeps (elf : ElfFile) (gp : U32) : Keeps P (ldElfGp f elf gp) := by
  refine .bind (ldElfGetsym_keeps hread elf _) fun sym => ?_
  cases sym with
  | none => exact .pure _
  | some sym => exact ldInt_keeps hread _ _

theorem ldElfBrk_keeps (elf : ElfFile) : Keeps P (ldElfBrk f elf) := by
  refine .bind (ldElfGetsym_keeps hread elf _) fun sym => ?_
  cases sym with
  | none => exact .bind (ldRead_keeps hread _ _) fun _ => .pure _
  | some sym => exact ldInt_keeps hread _ _

end

-- ---------------------------------------------------------------------------
-- Writes
-- ---------------------------------------------------------------------------

/-- Every byte written has an address below the size of guest memory. -/
def WritesBelow (n : Nat) (s : LdState) : Prop :=
  ∀ w ∈ s.writes, ∀ k, w.1 ≤ k → k < w.1 + w.2 → k < n

def Bounded (n : Nat) (s : LdState) : Prop := s.mem.size = n ∧ WritesBelow n s

theorem Bounded.read (s : LdState) (off len : Nat) (h : Bounded n s) :
    Bounded n (s.read off len) := h

theorem Bounded.write {s : LdState} {addr len : Nat} (h : Bounded n s) (hin : addr + len ≤ n) :
    Bounded n (s.write addr len) := by
  refine ⟨h.1, fun w hw k hlow hhigh => ?_⟩
  cases hw with
  | head => exact Nat.lt_of_lt_of_le hhigh hin
  | tail _ hw => exact h.2 w hw k hlow hhigh

theorem ldPut_keeps (addr : Nat) (values : List U8) : Keeps (Bounded n) (ldPut addr values) :=
  .get_bind fun _ hs => .ite (fun _ => .modify fun _ _ => hs) fun _ => .throw _

theorem memWbPtrS_keeps {addr : U32} {len : Nat} (off : Nat) (hin : addr.toNat + len ≤ n) :
    Keeps (Bounded n) (memWbPtrS f addr off len) :=
  .bind (.modify fun _ hs => hs.write hin) fun _ =>
    .bind (ldRead_keeps Bounded.read off len) fun _ => ldPut_keeps _ _

theorem memWbS_keeps {addr : U32} {len : Nat} (input : U8) (hin : addr.toNat + len ≤ n) :
    Keeps (Bounded n) (memWbS addr input len) :=
  .bind (.modify fun _ hs => hs.write hin) fun _ => ldPut_keeps _ _

theorem ldElfLoad_keeps (fsz memsz foff addr : U32) :
    Keeps (Bounded n) (ldElfLoad f fsz memsz foff addr) := by
  refine .get_bind fun s hs => .ite (fun _ => .throw _) fun hvalid => ?_
  have hlt : addr.toNat + memsz.toNat < n := by
    rw [← hs.1]
    simpa [validAddr] using hvalid
  refine .bind (memWbPtrS_keeps _ (Nat.le_of_lt hlt)) fun _ => ?_
  refine .ite (fun hbss => ?_) fun _ => .pure _
  refine memWbS_keeps 0 ?_
  bv_omega

theorem ldElfSegAt_keeps (elf : ElfFile) (i : Nat) : Keeps (Bounded n) (ldElfSegAt f elf i) := by
  have hint := ldInt_keeps (f := f) (P := Bounded n) Bounded.read
  refine .bind (hint _ _) fun type => .ite (fun _ => .pure _) fun _ => ?_
  refine .bind (hint _ _) fun fsz => .bind (hint _ _) fun memsz => ?_
  refine .bind (hint _ _) fun foff => .bind (hint _ _) fun addr => ?_
  exact ldElfLoad_keeps fsz memsz foff addr

theorem ldElfSeg_keeps (elf : ElfFile) : Keeps (Bounded n) (ldElfSeg f elf) :=
  .bind (ldInt_keeps Bounded.read _ _) fun _ => .forM (ldElfSegAt_keeps elf) _

theorem ldElf_keeps (build : Build) (file : Option MappedFile) (init : VCoreInit) :
    Keeps (Bounded n) (ldElf build file init) := by
  have hint := fun f => ldInt_keeps (f := f) (P := Bounded n) Bounded.read
  refine .bind (ldReadAndMapFile_keeps file) fun f => ?_
  refine .bind (ldElfValidate_keeps Bounded.read) fun _ => ?_
  iterate 6 refine .bind (hint f _ _) fun _ => ?_
  refine .bind (ldElfSectionNames_keeps Bounded.read _) fun elf => ?_
  refine .bind (ldElfSymbols_keeps Bounded.read elf) fun elf => ?_
  refine .bind (ldElfSeg_keeps elf) fun _ => .bind (hint f _ _) fun entry => ?_
  refine .bind (ldElfGp_keeps Bounded.read elf _) fun gp => ?_
  cases build with
  | supervisor => exact .pure _
  | user => exact .bind (ldElfBrk_keeps Bounded.read elf) fun _ => .pure _

-- ---------------------------------------------------------------------------
-- Loads
-- ---------------------------------------------------------------------------

/-- The load stops with `SV32_CRASH` or writes to guest memory only. -/
def SafeLoad (mem : Mem) (load : LdM VCoreInit) : Prop :=
  (out load (.start mem)).1 = .error .crash ∨ WritesBelow mem.size (out load (.start mem)).2

theorem ldElf_safe (mem : Mem) (build : Build) (file : Option MappedFile) (init : VCoreInit) :
    SafeLoad mem (ldElf build file init) :=
  .inr (ldElf_keeps build file init (.start mem) ⟨rfl, fun _ => by rintro ⟨⟩⟩).2

theorem out_ldBin (hsize : f.size ≠ 0) (init : VCoreInit) (s : LdState) :
    out (ldBin (some f) init) s =
      out (memWbPtrS f 0 0 f.size >>= fun _ => pure { init with pc := 0 }) s := by
  refine out_bind_ok _ ?_
  simp only [ldReadAndMapFile, if_neg hsize]
  rfl

theorem out_ldBin_empty (hsize : f.size = 0) (init : VCoreInit) (s : LdState) :
    out (ldBin (some f) init) s = (.error .crash, s) := by
  refine out_bind_error _ ?_
  simp only [ldReadAndMapFile, if_pos hsize]
  rfl

theorem out_memWbPtrS_big (hbig : mem.size < f.size) :
    out (memWbPtrS f 0 0 f.size) (.start mem) =
      (.error .fault, ((LdState.start mem).write 0 f.size).read 0 f.size) := by
  refine (out_bind_ok _ (out_modify _ _)).trans ?_
  refine (out_bind_ok _ (ldRead_runs (by simp))).trans ?_
  refine (out_bind_ok _ (out_get _)).trans ?_
  rw [if_neg]
  · rfl
  · simpa [LdState.read, LdState.write, LdState.start] using hbig

theorem ldBin_safe_iff (mem : Mem) (file : Option MappedFile) (init : VCoreInit) :
    SafeLoad mem (ldBin file init) ↔ ∀ f, file = some f → f.size ≤ mem.size := by
  cases file with
  | none => exact ⟨fun _ _ => by rintro ⟨⟩, fun _ => .inl rfl⟩
  | some f =>
    simp only [Option.some.injEq, forall_eq']
    by_cases hsize : f.size = 0
    · exact ⟨fun _ => by omega, fun _ => .inl (by rw [out_ldBin_empty hsize])⟩
    rw [SafeLoad, out_ldBin hsize]
    constructor
    · intro hsafe
      by_contra hbig
      rw [out_bind_error _ (out_memWbPtrS_big (Nat.lt_of_not_le hbig))] at hsafe
      rcases hsafe with hcrash | hbelow
      · cases hcrash
      · have hlt := hbelow (0, f.size) (.head _) mem.size (Nat.zero_le _) (by omega)
        exact Nat.lt_irrefl _ hlt
    · intro hfits
      have hcopy : Keeps (Bounded mem.size) (memWbPtrS f 0 0 f.size) :=
        memWbPtrS_keeps 0 (by simpa using hfits)
      exact .inr (Keeps.bind hcopy (fun _ => .pure _) _ ⟨rfl, fun _ => by rintro ⟨⟩⟩).2

/-- No load writes beyond guest memory if the file itself fits. -/
theorem loads_safe_iff (mem : Mem) (build : Build) (file : Option MappedFile) (init : VCoreInit) :
    SafeLoad mem (ldElf build file init) ∧ SafeLoad mem (ldBin file init) ↔
      ∀ f, file = some f → f.size ≤ mem.size := by
  rw [ldBin_safe_iff]
  exact and_iff_right (ldElf_safe mem build file init)

/-- A file of one byte more than a memory of one megabyte. -/
theorem loads_safe_fails :
    let f : MappedFile := ⟨2 ^ 20 + 1, by decide, fun _ => 0, fun _ => none⟩
    let mem : Mem := ⟨2 ^ 20, by decide, fun _ => 0⟩
    ¬ SafeLoad mem (ldBin (some f) ⟨0, 0, 0, 0, 0, 0⟩) := by
  intro f mem hsafe
  have hfits := (ldBin_safe_iff mem (some f) ⟨0, 0, 0, 0, 0, 0⟩).mp hsafe f rfl
  exact absurd hfits (by decide)

end SwitchV32
