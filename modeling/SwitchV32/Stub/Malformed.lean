import SwitchV32.Stub.Registers

/-!
# Requests that lack a separator

A cursor that has passed the end of the packet is not looked at before the next
field is cut, and `build_v` reads the buffer behind the packet. What a request
has to hold for its builder to stay clear of the assertion and of the bytes from
`filled` on, and for `build_m` and `build_M` to stay on the stack.
-/

namespace SwitchV32

/-- Neither the assertion of `sad_cursor_tokenizer`, nor a byte of the input buffer out of reach,
nor arrays that the stack has no room for. -/
def InBounds {α : Type} (x : Except BuildFault α) : Prop :=
  x ≠ .error .assertion ∧ x ≠ .error .outside ∧ x ≠ .error .stack

namespace InBounds

section
variable {α β : Type} {x : Except BuildFault α} {f : α → Except BuildFault β}

theorem ok (a : α) : InBounds (.ok a : Except BuildFault α) :=
  ⟨by rintro ⟨⟩, by rintro ⟨⟩, by rintro ⟨⟩⟩

theorem pure (a : α) : InBounds (Pure.pure a : Except BuildFault α) := ok a

theorem not_assertion : ¬ InBounds (.error .assertion : Except BuildFault α) := fun h => h.1 rfl

theorem not_outside : ¬ InBounds (.error .outside : Except BuildFault α) := fun h => h.2.1 rfl

theorem not_stack : ¬ InBounds (.error .stack : Except BuildFault α) := fun h => h.2.2 rfl

theorem bind (h : InBounds x) (hf : ∀ a, x = .ok a → InBounds (f a)) : InBounds (x >>= f) := by
  cases x with
  | ok a => exact hf a rfl
  | error fault =>
    refine ⟨?_, ?_, ?_⟩ <;> rintro ⟨⟩
    · exact h.1 rfl
    · exact h.2.1 rfl
    · exact h.2.2 rfl

theorem allot_iff {ρ : Type} {ops : SysOps ρ} {n : Nat} {f : Unit → Except BuildFault β} :
    InBounds (ops.allot n >>= f) ↔ n ≤ ops.stackRoom ∧ InBounds (f ()) := by
  by_cases hroom : n ≤ ops.stackRoom
  · rw [ops.allot_ok hroom, ok_bind]
    exact (and_iff_right hroom).symm
  · rw [ops.allot_stack hroom, error_bind]
    exact iff_of_false not_stack fun h => hroom h.1

theorem sysCall (x : Except Stop α) (hf : ∀ a, InBounds (f a)) :
    InBounds (SwitchV32.sysCall x >>= f) := by
  refine bind ?_ fun a _ => hf a
  cases x with
  | ok a => exact ok a
  | error stop => exact ⟨by rintro ⟨⟩, by rintro ⟨⟩, by rintro ⟨⟩⟩

theorem bind_pure_iff {g : α → β} : InBounds (x >>= fun a => Pure.pure (g a)) ↔ InBounds x := by
  refine ⟨fun h => ⟨?_, ?_, ?_⟩, fun h => bind h fun a _ => pure (g a)⟩ <;> rintro rfl
  · exact h.1 rfl
  · exact h.2.1 rfl
  · exact h.2.2 rfl

end

end InBounds

-- ---------------------------------------------------------------------------
-- The condition
-- ---------------------------------------------------------------------------

/-- If the number in front of a separator is accepted, the separator is there and `P` holds of what
is behind it. -/
def Meets (check : Int → Bool) (c : U8) (l : List U8) (P : List U8 → Prop) : Prop :=
  check (fieldNumber (some c) l) = true → ∃ l', (field (some c) l).2 = some l' ∧ P l'

/-- Of the bytes from the action of `vCont` on, two are there; where a `:` follows the action, and
the cursor is behind the packet, there is another one behind the next byte. -/
def ActionBehind (tail : List U8) : Prop :=
  2 ≤ tail.length ∧ (tail[1]? = some 0x3a → 0x3a ∈ tail.drop 3)

/-- What the request `cmd :: l` holds, `post` being what was read behind the packet. -/
def Separated {ρ : Type} (ops : SysOps ρ) (s : Stub ρ) (cmd : U8) (l post : List U8) : Prop :=
  -- `P n=r`
  if cmd = 0x50 then Meets checkUint32 0x3d l fun _ => True
  -- `m addr,length`
  else if cmd = 0x6d then Meets checkUint64 0x2c l fun l' =>
    checkUint64 (fieldNumber eob l') = true →
      s.beyond (fieldNumber (some 0x2c) l) (fieldNumber eob l') = false →
        3 * (fieldNumber eob l').toNat ≤ ops.stackRoom
  -- `M addr,length:XX`
  else if cmd = 0x4d then Meets checkUint64 0x2c l fun l' =>
    s.beyond (fieldNumber (some 0x2c) l) (fieldNumber (some 0x3a) l') = false →
      Meets checkUint64 0x3a l' fun l'' =>
        (cString l'').length = 2 * (fieldNumber (some 0x3a) l').toNat →
          (fieldNumber (some 0x3a) l').toNat ≤ ops.stackRoom
  -- `Z type,addr,kind` and `z type,addr,kind`
  else if cmd = 0x5a ∨ cmd = 0x7a then
    Meets checkUint32 0x2c l fun l' => Meets checkUint64 0x2c l' fun _ => True
  -- `qThreadExtraInfo,thread-id`
  else if cmd = 0x71 then ascii "qThreadExtraInfo" <+: cmd :: l → 0x2c ∈ l
  -- `vCont;action`
  else if cmd = 0x76 then
    let f := field (some 0x3b) (cmd :: l)
    cString f.1 = ascii "vCont" →
      (f.2 = none → ActionBehind post) ∧ (f.2 = some [] → ActionBehind (0x23 :: post))
  else True

-- ---------------------------------------------------------------------------
-- Fields
-- ---------------------------------------------------------------------------

section
variable {ρ : Type} {ops : SysOps ρ} {s : Stub ρ} {cursor : Nat} {l : List U8}
variable {check : Int → Bool} {c : U8} {term : Term} {P : List U8 → Prop}
variable {next : Int → Nat → Stub ρ → Except BuildFault (Stub ρ)}

theorem inBounds_extractVal (h : s.input.At cursor l) :
    ∃ cursor' p', s.input.Cut cursor (field term l) cursor' p' ∧
      (InBounds (extractVal (sadExtract check) s cursor term next) ↔
        (check (fieldNumber term l) = true →
          InBounds (next (fieldNumber term l) cursor' (s.setInput p')))) := by
  obtain ⟨cursor', p', hcut, hext⟩ := extractVal_at h check term
  refine ⟨cursor', p', hcut, ?_⟩
  rw [hext]
  split
  · rename_i hcheck
    exact ⟨fun h _ => h, fun h => h hcheck⟩
  · rename_i hcheck
    exact ⟨fun _ h => absurd h hcheck, fun _ => .ok _⟩

theorem inBounds_last (h : s.input.At cursor l)
    (hnext : ∀ val cursor p, InBounds (next val cursor (s.setInput p))) :
    InBounds (extractVal (sadExtract check) s cursor term next) := by
  obtain ⟨cursor', p', -, hiff⟩ := inBounds_extractVal h
  exact hiff.mpr fun _ => hnext _ _ _

theorem not_inBounds_past (h : cursor = s.input.endPktData + 1) :
    ¬ InBounds (extractVal (sadExtract check) s cursor term next) := by
  rw [extractVal_past h]
  exact InBounds.not_assertion

theorem inBounds_meets (h : s.input.At cursor l)
    (hnext : ∀ cursor' p' l', p'.At cursor' l' →
      (InBounds (next (fieldNumber (some c) l) cursor' (s.setInput p')) ↔ P l'))
    (hpast : ∀ cursor' p', cursor' = p'.endPktData + 1 →
      ¬ InBounds (next (fieldNumber (some c) l) cursor' (s.setInput p'))) :
    InBounds (extractVal (sadExtract check) s cursor (some c) next) ↔ Meets check c l P := by
  obtain ⟨cursor', p', hcut, hiff⟩ := inBounds_extractVal h
  refine hiff.trans (forall_congr' fun _ => ?_)
  cases hrest : (field (some c) l).2 with
  | none =>
    have hlast : cursor' = p'.endPktData + 1 := by rw [hcut.last hrest, hcut.finish]
    exact ⟨fun hin => absurd hin (hpast _ _ hlast), by rintro ⟨_, ⟨⟩, _⟩⟩
  | some l' =>
    rw [hnext _ _ l' (hcut.next l' hrest)]
    exact ⟨fun hP => ⟨l', rfl, hP⟩, by rintro ⟨_, ⟨⟩, hP⟩; exact hP⟩

-- ---------------------------------------------------------------------------
-- Numbers and memory
-- ---------------------------------------------------------------------------

theorem buildp_inBounds (h : s.input.At (s.input.startPktData + 1) l) :
    InBounds (buildp ops s) := by
  refine inBounds_last h fun regId cursor p => ?_
  split
  · exact .pure _
  · exact .pure _

theorem buildP_inBounds (h : s.input.At (s.input.startPktData + 1) l) :
    InBounds (buildP s) ↔ Meets checkUint32 0x3d l fun _ => True := by
  refine inBounds_meets h (fun cursor p l' hat => iff_true_intro ?_) fun cursor p hpast => ?_
  · refine inBounds_last (s := s.setInput p) hat fun reg cursor p => ?_
    split
    · exact .pure _
    · exact .pure _
  · exact not_inBounds_past (s := s.setInput p) hpast

theorem buildm_inBounds (h : s.input.At (s.input.startPktData + 1) l) :
    InBounds (buildm ops s) ↔ Meets checkUint64 0x2c l fun l' =>
      checkUint64 (fieldNumber eob l') = true →
        s.beyond (fieldNumber (some 0x2c) l) (fieldNumber eob l') = false →
          3 * (fieldNumber eob l').toNat ≤ ops.stackRoom := by
  refine inBounds_meets h (fun cursor p l' hat => ?_) fun cursor p hpast => ?_
  · obtain ⟨cursor', p', hcut, hiff⟩ := inBounds_extractVal (s := s.setInput p) hat
    refine hiff.trans (forall_congr' fun _ => ?_)
    have hbeyond (addr length) : ((s.setInput p).setInput p').beyond addr length =
        s.beyond addr length := rfl
    rw [hbeyond]
    cases hover : s.beyond (fieldNumber (some 0x2c) l) (fieldNumber eob l') with
    | true => exact ⟨fun _ => by rintro ⟨⟩, fun _ => .pure _⟩
    | false =>
      have hsum (n : Nat) : 2 * n + n = 3 * n := by omega
      simp only [Bool.false_eq_true, if_false, InBounds.allot_iff, hsum, forall_const]
      exact and_iff_left (.sysCall _ fun _ => .pure _)
  · exact not_inBounds_past (s := s.setInput p) hpast

theorem buildM_inBounds (h : s.input.At (s.input.startPktData + 1) l) :
    InBounds (buildM ops s) ↔ Meets checkUint64 0x2c l fun l' =>
      s.beyond (fieldNumber (some 0x2c) l) (fieldNumber (some 0x3a) l') = false →
        Meets checkUint64 0x3a l' fun l'' =>
          (cString l'').length = 2 * (fieldNumber (some 0x3a) l').toNat →
            (fieldNumber (some 0x3a) l').toNat ≤ ops.stackRoom := by
  refine inBounds_meets h (fun cursor p l' hat => ?_) fun cursor p hpast => ?_
  · obtain ⟨cursor', p', hcut, hiff⟩ := inBounds_extractVal (s := s.setInput p) hat
    refine hiff.trans ?_
    rw [Meets, imp.swap]
    refine forall_congr' fun _ => ?_
    have hbeyond (addr length) : ((s.setInput p).setInput p').beyond addr length =
        s.beyond addr length := rfl
    rw [hbeyond]
    cases hover : s.beyond (fieldNumber (some 0x2c) l) (fieldNumber (some 0x3a) l') with
    | true => exact ⟨fun _ => by rintro ⟨⟩, fun _ => .pure _⟩
    | false =>
      cases hrest : (field (some 0x3a) l').2 with
      | none =>
        have hlast : cursor' = p'.endPktData + 1 := by rw [hcut.last hrest, hcut.finish]
        have htoken : sadExtractStr ((s.setInput p).setInput p').input cursor' eob = _ :=
          sadCursorTokenizer_past hlast eob
        simp only [Bool.false_eq_true, if_false, htoken, error_bind, InBounds.not_assertion,
          false_iff]
        intro hfound
        obtain ⟨_, ⟨⟩, -⟩ := hfound trivial
      | some l'' =>
        obtain ⟨cursor'', p'', htoken, hcut'⟩ := sadCursorTokenizer_at (hcut.next l'' hrest) eob
        have hstr : sadExtractStr p' cursor' eob = _ := htoken
        simp only [Bool.false_eq_true, if_false, Stub.input_setInput, hstr, ok_bind, hcut'.str,
          field_eob, forall_const, Option.some.injEq, exists_eq_left']
        split
        · rename_i hlength
          exact iff_of_true (.pure _) fun heq => absurd heq hlength
        · rename_i hlength
          rw [InBounds.allot_iff, and_iff_left (.sysCall _ fun _ => .pure _)]
          exact ⟨fun hroom _ => hroom, fun h => h (not_not.mp hlength)⟩
  · exact not_inBounds_past (s := s.setInput p) hpast

-- ---------------------------------------------------------------------------
-- Breakpoints
-- ---------------------------------------------------------------------------

theorem removeBreakpoint_inBounds (s : Stub ρ) (addr : BitVec 64) :
    InBounds (s.removeBreakpoint addr) := by
  unfold Stub.removeBreakpoint
  generalize sadRemoveBreakpoint s.target.vmem s.breakpoints addr = x
  refine .sysCall x fun r => ?_
  obtain ⟨vmem, breakpoints, ret⟩ := r
  exact .pure _

theorem insertBreakpoint_inBounds (s : Stub ρ) (addr : BitVec 64) :
    InBounds (s.insertBreakpoint addr) := by
  unfold Stub.insertBreakpoint
  generalize sadInsertBreakpoint s.target.vmem s.breakpoints addr = x
  refine .sysCall x fun r => ?_
  obtain ⟨vmem, breakpoints, ret⟩ := r
  exact .pure _

theorem breakpointReply_inBounds {type addr kind : Int} {expected : BrkRet}
    {call : Stub ρ → BitVec 64 → Except BuildFault (BrkRet × Stub ρ)}
    (hcall : ∀ s addr, InBounds (call s addr)) :
    InBounds (breakpointReply s type addr kind expected call) := by
  unfold breakpointReply
  split
  · exact .pure _
  · split
    · exact .pure _
    · split
      · exact .pure _
      · refine (hcall s _).bind fun r _ => ?_
        obtain ⟨ret, s⟩ := r
        dsimp only
        split
        · exact .pure _
        · exact .pure _

theorem inBounds_breakpoint {expected : BrkRet}
    {call : Stub ρ → BitVec 64 → Except BuildFault (BrkRet × Stub ρ)} (h : s.input.At cursor l)
    (hcall : ∀ s addr, InBounds (call s addr)) :
    InBounds (extractVal sadExtractUint32 s cursor (some 0x2c) fun type cursor s =>
        extractVal sadExtractUint64 s cursor (some 0x2c) fun addr cursor s =>
          extractVal sadExtractUint32 s cursor term fun kind _ s =>
            breakpointReply s type addr kind expected call) ↔
      Meets checkUint32 0x2c l fun l' => Meets checkUint64 0x2c l' fun _ => True := by
  refine inBounds_meets h (fun cursor p l' hat => ?_) fun cursor p hpast => ?_
  · refine inBounds_meets (s := s.setInput p) hat (fun cursor' p' l'' hat' => ?_)
      fun cursor' p' hpast => ?_
    · refine iff_true_intro (inBounds_last (s := (s.setInput p).setInput p') hat' fun _ _ _ => ?_)
      exact breakpointReply_inBounds hcall
    · exact not_inBounds_past (s := (s.setInput p).setInput p') hpast
  · exact not_inBounds_past (s := s.setInput p) hpast

theorem buildZ_inBounds (h : s.input.At (s.input.startPktData + 1) l) :
    InBounds (buildZ s) ↔
      Meets checkUint32 0x2c l fun l' => Meets checkUint64 0x2c l' fun _ => True := by
  unfold buildZ
  exact inBounds_breakpoint h insertBreakpoint_inBounds

theorem buildz_inBounds (h : s.input.At (s.input.startPktData + 1) l) :
    InBounds (buildz s) ↔
      Meets checkUint32 0x2c l fun l' => Meets checkUint64 0x2c l' fun _ => True := by
  unfold buildz
  exact inBounds_breakpoint h removeBreakpoint_inBounds

-- ---------------------------------------------------------------------------
-- Strings
-- ---------------------------------------------------------------------------

theorem buildG_inBounds (h : s.input.At (s.input.startPktData + 1) l) :
    InBounds (buildG ops s) := by
  obtain ⟨cursor', p, htoken, hcut⟩ := sadCursorTokenizer_at h eob
  unfold buildG
  simp only [sadExtractStr, htoken, ok_bind, Stub.input_setInput, hcut.str]
  split
  · exact .pure _
  · exact .pure _

theorem buildQ_inBounds (h : s.input.At s.input.startPktData l) : InBounds (buildQ s) := by
  obtain ⟨cursor', p, htoken, hcut⟩ := sadCursorTokenizer_at h (some 0x3a)
  unfold buildQ
  simp only [sadExtractStr, htoken, ok_bind, Stub.input_setInput, hcut.str]
  split
  · exact .pure _
  · exact .pure _

theorem buildH_inBounds (h : s.input.At s.input.startPktData l) : InBounds (buildH s) := by
  obtain ⟨cursor', p, htoken, hcut⟩ := sadCursorTokenizer_at h eob
  have hkept : p.At s.input.startPktData l := by
    have hkept := hcut.kept
    rwa [field_eob] at hkept
  unfold buildH
  simp only [sadExtractStr, htoken, ok_bind, Stub.input_setInput, hcut.str, field_eob]
  split
  · rename_i hcommand
    have hprefix : ascii "Hg" <+: l :=
      (List.prefix_iff_eq_take.mpr hcommand.symm).trans (List.takeWhile_prefix _)
    obtain ⟨digits, rfl⟩ := hprefix
    have hdigits : (s.setInput p).input.At ((s.setInput p).input.startPktData + 2) digits := by
      rw [Stub.input_setInput, hcut.start]
      exact Pkt.At.drop (ascii "Hg") hkept
    refine inBounds_last hdigits fun threadId cursor p => ?_
    split
    · exact .pure _
    · split
      · exact .pure _
      · exact .pure _
  · exact .pure _

end

-- ---------------------------------------------------------------------------
-- Queries
-- ---------------------------------------------------------------------------

section
variable {c x : U8} {k t r l : List U8}

theorem prefix_append_cons (hc : c ∉ k) : k <+: t ++ c :: r ↔ k <+: t := by
  induction k generalizing t with
  | nil => exact iff_of_true List.nil_prefix List.nil_prefix
  | cons a k ih =>
    rw [List.mem_cons, not_or] at hc
    cases t with
    | nil =>
      refine iff_of_false ?_ (by rintro ⟨_, ⟨⟩⟩)
      intro h
      exact hc.1 (List.cons_prefix_cons.mp h).1.symm
    | cons b t =>
      rw [List.cons_append, List.cons_prefix_cons, List.cons_prefix_cons, ih hc.2]

theorem prefix_cString (h : (0 : U8) ∉ k) : k <+: cString l ↔ k <+: l := by
  refine ⟨fun hk => hk.trans (List.takeWhile_prefix _), fun hk => ?_⟩
  obtain ⟨r, rfl⟩ := hk
  have hall : ∀ b ∈ k, decide (b ≠ 0) = true := by
    intro b hb
    exact decide_eq_true fun heq => h (heq ▸ hb)
  rw [cString, List.takeWhile_append_of_pos hall]
  exact List.prefix_append _ _

theorem prefix_field (hc : c ∉ k) : k <+: (field (some c) l).1 ↔ k <+: l := by
  obtain ⟨hfield, -⟩ | ⟨_, b, tok, rest, ⟨⟩, rfl, -, hfield⟩ := field_cases (some c) l
  · rw [hfield]
  · rw [hfield, prefix_append_cons hc]

theorem prefix_blank (hc : c ∉ k) (h : (0 : U8) ∉ k) :
    k <+: blank (field (some c) l) ↔ k <+: l := by
  obtain ⟨hfield, -⟩ | ⟨_, b, tok, rest, ⟨⟩, rfl, -, hfield⟩ := field_cases (some c) l
  · rw [hfield]
    rfl
  · rw [hfield, blank, prefix_append_cons h, prefix_append_cons hc]

theorem mem_tail_blank (hx : x ≠ c) (h : x ≠ 0) :
    x ∈ (blank (field (some c) l)).tail ↔ x ∈ l.tail := by
  obtain ⟨hfield, -⟩ | ⟨_, b, tok, rest, ⟨⟩, rfl, -, hfield⟩ := field_cases (some c) l
  · rw [hfield]
    rfl
  · have hnul : x ≠ 0#8 := h
    rw [hfield]
    simp [blank, hx, hnul]

theorem field_eq_none : (field (some c) l).2 = none ↔ c ∉ l.tail := by
  obtain ⟨hfield, hstop⟩ | ⟨_, b, tok, rest, ⟨⟩, rfl, -, hfield⟩ := field_cases (some c) l
  · rw [hfield]
    exact iff_of_true rfl fun hmem => hstop c hmem rfl
  · rw [hfield]
    simp

end

section
variable {ρ : Type} {ops : SysOps ρ} {s : Stub ρ} {l : List U8}

theorem Pkt.str_of_le {p : Pkt} {i j : Nat} {str : List U8} (h : p.str j = .ok str) (hij : i ≤ j) :
    ∃ str', p.str i = .ok str' := by
  unfold Pkt.str at h ⊢
  split at h
  · rename_i hmem
    have hdrop : p.data.drop j <:+ p.data.drop i := List.drop_suffix_drop_left _ hij
    exact ⟨_, if_pos (hdrop.subset hmem)⟩
  · cases h

theorem buildq_inBounds (h : s.input.At s.input.startPktData l) :
    InBounds (buildq ops s) ↔ (ascii "qThreadExtraInfo" <+: l → 0x2c ∈ l.tail) := by
  obtain ⟨cursor, p, htoken, hcut⟩ := sadCursorTokenizer_at h (some 0x3a)
  obtain ⟨cursorExtra, p', htoken', hcut'⟩ := sadCursorTokenizer_at hcut.kept (some 0x2c)
  have hcommand : (cString (field (some 0x2c) (blank (field (some 0x3a) l))).1).take 16 =
      ascii "qThreadExtraInfo" ↔ ascii "qThreadExtraInfo" <+: l := by
    rw [eq_comm, ← prefix_blank (c := 0x3a) (by decide) (by decide), ← prefix_field (c := 0x2c)
      (by decide), ← prefix_cString (by decide), List.prefix_iff_eq_take]
    rfl
  have hsep : (field (some 0x2c) (blank (field (some 0x3a) l))).2 = none ↔ 0x2c ∉ l.tail := by
    rw [field_eq_none, mem_tail_blank (by decide) (by decide)]
  unfold buildq
  simp only [sadExtractStr, htoken, ok_bind, Stub.input_setInput, htoken', hcut'.str]
  split
  · rename_i hname
    have hprefix := hcommand.mp hname
    cases hrest : (field (some 0x2c) (blank (field (some 0x3a) l))).2 with
    | none =>
      have hlast : cursorExtra = ((s.setInput p).setInput p').input.endPktData + 1 := by
        rw [hcut'.last hrest, Stub.input_setInput, hcut'.finish]
      exact iff_of_false (not_inBounds_past hlast) fun h => hsep.mp hrest (h hprefix)
    | some rest =>
      have hmem : 0x2c ∈ l.tail := by
        by_contra hnot
        rw [hsep.mpr hnot] at hrest
        cases hrest
      refine iff_of_true ?_ fun _ => hmem
      obtain ⟨cursor₃, p₃, hcut₃, hiff⟩ :=
        inBounds_extractVal (s := (s.setInput p).setInput p') (hcut'.next rest hrest)
      refine hiff.mpr fun _ => ?_
      obtain ⟨str, hstr⟩ := Pkt.str_of_le hcut₃.str hcut'.le
      split
      · exact .pure _
      · have hinput (name : List U8) :
            ((((s.setInput p).setInput p').setInput p₃).append name).input = p₃ := rfl
        simp only [hinput, hstr, ok_bind]
        exact .pure _
  · rename_i hname
    exact iff_of_true (.pure _) fun h => absurd (hcommand.mpr h) hname

-- ---------------------------------------------------------------------------
-- `vCont`
-- ---------------------------------------------------------------------------

theorem stepTheBreakpoint_inBounds (s : Stub ρ) (coreIdx : Nat) :
    InBounds (s.stepTheBreakpoint ops coreIdx) := by
  refine (removeBreakpoint_inBounds s _).bind fun r _ => ?_
  obtain ⟨ret, s₁⟩ := r
  dsimp only
  split
  · refine .sysCall _ fun target => ?_
    refine (insertBreakpoint_inBounds _ _).bind fun r _ => ?_
    exact .pure _
  · exact .pure _

theorem stepBreakpoints_inBounds (s : Stub ρ) (cores : List Nat) :
    InBounds (stepBreakpoints ops s cores) := by
  induction cores generalizing s with
  | nil => exact .pure _
  | cons i cores ih =>
    refine InBounds.bind ?_ fun s₁ _ => ih s₁
    exact (stepTheBreakpoint_inBounds s i).bind fun r _ => .pure _

theorem vContAction_inBounds (s : Stub ρ) (action : U8) (threadId : Int) :
    InBounds (vContAction ops s action threadId) := by
  unfold vContAction
  split
  · split
    · refine (stepBreakpoints_inBounds s _).bind fun s₁ _ => ?_
      exact .sysCall _ fun target => .pure _
    · refine (stepTheBreakpoint_inBounds s _).bind fun r _ => ?_
      exact .sysCall _ fun target => .pure _
  · split
    · split
      · exact .pure _
      · refine (stepTheBreakpoint_inBounds s _).bind fun r _ => ?_
        dsimp only
        split
        · exact .sysCall _ fun target => .pure _
        · exact .pure _
    · exact .pure _

theorem waitForHalt_inBounds (h : s.input.data ≠ []) (socket : List ReadResult) :
    InBounds (waitForHalt ops s socket) := by
  induction socket generalizing s with
  | nil => exact ⟨by rintro ⟨⟩, by rintro ⟨⟩, by rintro ⟨⟩⟩
  | cons rd socket ih =>
    have hreceived : (s.received rd socket).input.data ≠ [] := by
      cases rd with
      | bytes rd =>
        intro hnil
        exact h (List.append_eq_nil_iff.mp hnil).1
      | eof | wouldBlock | error => exact h
    have hlast : (s.received rd socket).input.data.length - 1 <
        (s.received rd socket).input.data.length := by
      have hpos := List.length_pos_iff.mpr hreceived
      omega
    obtain ⟨last, hread⟩ : ∃ last, (s.received rd socket).input.read
        ((s.received rd socket).input.data.length - 1) = .ok last :=
      ⟨_, by rw [Pkt.read, List.getElem?_eq_getElem hlast]⟩
    simp only [waitForHalt, hread, ok_bind]
    split
    · exact .sysCall _ fun target => .pure _
    · split
      · exact .pure _
      · exact ih hreceived

theorem vContThread_inBounds (h : s.input.data ≠ []) (action : U8) (threadId : Int) :
    InBounds (vContThread ops s action threadId) := by
  unfold vContThread
  split
  · exact .pure _
  · refine (vContAction_inBounds s _ _).bind fun r hr => ?_
    cases r with
    | none => exact .pure _
    | some s₁ =>
      have hinput : s₁.input = s.input := congrArg Reader.input (vContAction_acts hr).reader
      refine (waitForHalt_inBounds (by rwa [hinput]) _).bind fun r _ => ?_
      dsimp only
      split
      · exact .pure _
      · exact .pure _

theorem tokenLoop_outside {p : Pkt} {front rest : List U8} {c : U8} {n idx : Nat}
    (hdata : p.data = front ++ rest) (hstop : ∀ x ∈ rest.drop (idx + 1), x ≠ c)
    (hn : rest.length ≤ idx + n) (hpos : n ≠ 0) :
    tokenLoop p (some c) front.length n idx = .error .outside := by
  induction n generalizing idx with
  | zero => exact absurd rfl hpos
  | succ n ih =>
    obtain hlt | hle := Nat.lt_or_ge (idx + 1) rest.length
    · have hread : p.read (front.length + (idx + 1)) = .ok rest[idx + 1] :=
        read_append_right hdata (List.getElem?_eq_getElem hlt)
      have hne : rest[idx + 1] ≠ c := by
        refine hstop _ ?_
        rw [List.drop_eq_getElem_cons hlt]
        exact List.mem_cons_self
      simp only [tokenLoop, hread, ok_bind, hne, if_false]
      refine ih (fun x hx => hstop x ?_) (by omega) (by omega)
      rw [List.drop_eq_getElem_cons hlt]
      exact List.mem_cons_of_mem _ hx
    · have hread : p.read (front.length + (idx + 1)) = .error .outside := by
        rw [Pkt.read, hdata, List.getElem?_eq_none (by rw [List.length_append]; omega)]
      simp only [tokenLoop, hread, error_bind]

theorem inBounds_beyond {front rest : List U8} {check : Int → Bool} {c : U8}
    {next : Int → Nat → Stub ρ → Except BuildFault (Stub ρ)}
    (hdata : s.input.data = front ++ rest) (hpast : s.input.endPktData + 1 < front.length)
    (hfilled : s.input.data.length < 2 ^ 64)
    (hnext : ∀ val cursor p, p.data ≠ [] → InBounds (next val cursor (s.setInput p))) :
    InBounds (extractVal (sadExtract check) s front.length (some c) next) ↔ c ∈ rest.tail := by
  have hcursor : ¬ front.length = s.input.endPktData + 1 := by omega
  have hlength : front.length + rest.length < 2 ^ 64 := by
    rw [← List.length_append, ← hdata]
    exact hfilled
  have hlen : tokenLen s.input front.length = 2 ^ 64 - (front.length - s.input.endPktData) :=
    if_neg (by omega)
  by_cases hmem : c ∈ rest.tail
  · refine iff_of_true ?_ hmem
    obtain ⟨b, rest, rfl⟩ : ∃ b l, rest = b :: l := by
      refine List.exists_cons_of_ne_nil ?_
      rintro rfl
      cases hmem
    obtain ⟨tok, back, hrest, htok⟩ := List.eq_append_cons_of_mem hmem
    obtain rfl : rest = tok ++ c :: back := hrest
    have hloop : tokenLoop s.input (some c) front.length (tokenLen s.input front.length) 0 =
        .ok (b :: tok).length := by
      refine tokenLoop_eq hdata ?_ (.inr ⟨?_, Nat.succ_pos _, rfl⟩)
      · rintro x hx ⟨⟩
        exact htok hx
      · simp only [List.length_cons, List.length_append] at hlength ⊢
        omega
    have htoken := sadCursorTokenizer_of_loop hdata hcursor hloop
    have hstr : Pkt.str { s.input with data := front ++ (b :: tok ++ 0 :: back) } front.length =
        .ok (cString (b :: tok)) := str_eq rfl
    simp only [extractVal, sadExtract, htoken, ok_bind, hstr, pure, Except.pure]
    cases check (strtol16 (cString (b :: tok))) with
    | true => exact hnext _ _ _ (List.append_ne_nil_of_right_ne_nil _ (List.cons_ne_nil _ _))
    | false => exact .ok _
  · refine iff_of_false ?_ hmem
    have hloop : tokenLoop s.input (some c) front.length (tokenLen s.input front.length) 0 =
        .error .outside := by
      refine tokenLoop_outside hdata ?_ (by omega) (by omega)
      rintro x hx rfl
      exact hmem (by rwa [List.drop_one] at hx)
    simp only [extractVal, sadExtract, sadCursorTokenizer, if_neg hcursor, hloop]
    exact InBounds.not_outside

theorem Pkt.At.ne_nil {p : Pkt} {cursor : Nat} (h : p.At cursor l) : p.data ≠ [] := by
  obtain ⟨front, back, hdata, hback, -⟩ := h
  rw [hdata]
  exact List.append_ne_nil_of_right_ne_nil _ (List.append_ne_nil_of_right_ne_nil _ hback)

theorem inBounds_action {front tail : List U8} {P : Prop} (hdata : s.input.data = front ++ tail)
    (hcolon : ∀ action r, tail = action :: 0x3a :: r →
      (InBounds (extractVal sadExtractLong s (front.length + 2) (some 0x3a)
        fun threadId _ s => vContThread ops s action threadId) ↔ P)) :
    InBounds (do
        let action ← s.input.read front.length
        let next ← s.input.read (front.length + 1)
        if next = 0x3a then
          extractVal sadExtractLong s (front.length + 2) (some 0x3a) fun threadId _ s =>
            vContThread ops s action threadId
        else vContThread ops s action (-1)) ↔
      2 ≤ tail.length ∧ (tail[1]? = some 0x3a → P) := by
  cases tail with
  | nil =>
    have hread : s.input.read front.length = .error .outside := by simp [Pkt.read, hdata]
    simp only [hread, error_bind]
    exact iff_of_false InBounds.not_outside fun h => absurd h.1 (by decide)
  | cons action tail =>
    have hread : s.input.read front.length = .ok action := read_append_right (i := 0) hdata rfl
    cases tail with
    | nil =>
      have hnext : s.input.read (front.length + 1) = .error .outside := by simp [Pkt.read, hdata]
      simp only [hread, hnext, ok_bind, error_bind]
      exact iff_of_false InBounds.not_outside fun h => absurd h.1 (by simp)
    | cons b r =>
      have hnext : s.input.read (front.length + 1) = .ok b := read_append_right hdata rfl
      have htwo : 2 ≤ (action :: b :: r).length := by simp
      simp only [hread, hnext, ok_bind]
      split
      · rename_i heq
        subst heq
        rw [hcolon action r rfl]
        exact ⟨fun hP => ⟨htwo, fun _ => hP⟩, fun h => h.2 rfl⟩
      · rename_i hne
        have hdata_ne : s.input.data ≠ [] := by
          rw [hdata]
          exact List.append_ne_nil_of_right_ne_nil _ (List.cons_ne_nil _ _)
        refine iff_of_true (vContThread_inBounds hdata_ne _ _) ⟨htwo, fun heq => ?_⟩
        exact absurd (Option.some.inj heq) hne

theorem inBounds_behind {front tail : List U8} (hdata : s.input.data = front ++ tail)
    (hend : s.input.endPktData ≤ front.length) (hfilled : s.input.data.length < 2 ^ 64) :
    InBounds (do
        let action ← s.input.read front.length
        let next ← s.input.read (front.length + 1)
        if next = 0x3a then
          extractVal sadExtractLong s (front.length + 2) (some 0x3a) fun threadId _ s =>
            vContThread ops s action threadId
        else vContThread ops s action (-1)) ↔ ActionBehind tail := by
  refine inBounds_action hdata fun action r htail => ?_
  have hdata' : s.input.data = (front ++ [action, 0x3a]) ++ r := by
    rw [hdata, htail, List.append_assoc]
    rfl
  have hlength : (front ++ [action, 0x3a]).length = front.length + 2 := List.length_append
  have hbehind : InBounds (extractVal sadExtractLong s (front ++ [action, 0x3a]).length (some 0x3a)
      fun threadId _ s => vContThread ops s action threadId) ↔ 0x3a ∈ r.tail :=
    inBounds_beyond hdata' (by omega) hfilled fun _ _ p hp =>
      vContThread_inBounds (s := s.setInput p) hp _ _
  rw [hlength] at hbehind
  rw [hbehind, htail, ← List.drop_one]
  rfl

theorem buildv_inBounds {payload post : List U8} (h : s.input.Holds payload post)
    (hfilled : s.input.data.length < 2 ^ 64) :
    InBounds (buildv ops s) ↔ (cString (field (some 0x3b) payload).1 = ascii "vCont" →
      ((field (some 0x3b) payload).2 = none → ActionBehind post) ∧
      ((field (some 0x3b) payload).2 = some [] → ActionBehind (0x23 :: post))) := by
  obtain ⟨pre, hdata, hstart, hend⟩ := h
  obtain ⟨p, htoken, hpdata, hpend⟩ : ∃ p,
      sadCursorTokenizer s.input pre.length (some 0x3b) =
        .ok (pre.length, pre.length + ((field (some 0x3b) payload).1.length + 1), p) ∧
      p.data = pre ++ (blank (field (some 0x3b) payload) ++
        blankEnd 0x23 (field (some 0x3b) payload) :: post) ∧
      p.endPktData = s.input.endPktData :=
    ⟨_, sadCursorTokenizer_blank hdata hend (some 0x3b), rfl, rfl⟩
  have hlength := length_blank (some 0x3b) payload
  generalize field (some 0x3b) payload = f at htoken hpdata hlength ⊢
  obtain ⟨tok, rest⟩ := f
  have hfront : (pre ++ (tok ++ [0])).length = pre.length + (tok.length + 1) := by simp
  have hpfilled : p.data.length < 2 ^ 64 := by
    rw [hdata] at hfilled
    rw [hpdata]
    simp only [List.length_append, List.length_cons, hlength] at hfilled ⊢
    omega
  -- what is behind the NUL of the command
  obtain ⟨tail, hsplit, htail⟩ : ∃ tail, p.data = (pre ++ (tok ++ [0])) ++ tail ∧
      tail = rest.elim post (· ++ 0x23 :: post) := by
    refine ⟨_, ?_, rfl⟩
    cases rest <;> simp [hpdata, blank, blankEnd]
  have hstr : p.str pre.length = .ok (cString tok) :=
    str_eq (by rw [hsplit, List.append_assoc, List.append_assoc]; rfl)
  unfold buildv
  simp only [hstart, sadExtractStr, htoken, ok_bind, Stub.input_setInput, hstr]
  split
  · rename_i hname
    refine iff_of_true (.pure _) fun h => ?_
    cases hname.symm.trans h
  · split
    · rename_i hname
      rw [forall_prop_of_true hname, ← hfront]
      cases rest with
      | none =>
        have hle : p.endPktData ≤ (pre ++ (tok ++ [0])).length := by
          rw [hpend, hend, hfront, ← hlength]
          exact Nat.add_le_add_left (Nat.le_succ _) _
        refine (inBounds_behind (s := s.setInput p) hsplit hle hpfilled).trans ?_
        simp [htail]
      | some l =>
        cases l with
        | nil =>
          have hle : p.endPktData ≤ (pre ++ (tok ++ [0])).length := by
            rw [hpend, hend, ← hlength]
            exact Nat.le_of_eq (List.length_append).symm
          refine (inBounds_behind (s := s.setInput p) hsplit hle hpfilled).trans ?_
          simp [htail]
        | cons b l =>
          refine (inBounds_action (s := s.setInput p) (P := True) hsplit ?_).trans ?_
          · intro action r haction
            have hcons : b :: (l ++ 0x23 :: post) = action :: 0x3a :: r := htail.symm.trans haction
            obtain ⟨rfl, hbehind⟩ := List.cons.inj hcons
            cases l with
            | nil => cases hbehind
            | cons c l =>
              obtain ⟨rfl, rfl⟩ := List.cons.inj hbehind
              have hat : p.At ((pre ++ (tok ++ [0])).length + 2) l := by
                refine ⟨(pre ++ (tok ++ [0])) ++ [b, 0x3a], 0x23 :: post, ?_, List.cons_ne_nil _ _,
                  ?_, ?_⟩
                · rw [hsplit, htail]
                  simp
                · simp only [List.length_append, List.length_cons, List.length_nil]
                · rw [hpend, hend, ← hlength]
                  simp [blank]
                  omega
              obtain ⟨cursor', p', hcut, hiff⟩ := inBounds_extractVal (s := s.setInput p) hat
              refine iff_true_intro (hiff.mpr fun _ => ?_)
              exact vContThread_inBounds (s := (s.setInput p).setInput p') hcut.kept.ne_nil _ _
          · refine iff_of_true ⟨?_, fun _ => trivial⟩ ⟨by rintro ⟨⟩, by rintro ⟨⟩⟩
            rw [htail]
            simp
            omega
    · rename_i hname
      exact iff_of_true (.pure _) fun h => absurd h hname

-- ---------------------------------------------------------------------------
-- All of them
-- ---------------------------------------------------------------------------

theorem supportedBuilders_inBounds {cmd : U8} {post : List U8} (h : s.input.Holds (cmd :: l) post)
    (hfilled : s.input.data.length < 2 ^ 64) :
    ∀ e ∈ supportedBuilders ops, e.1 = cmd → (InBounds (e.2 s) ↔ Separated ops s cmd l post) := by
  have hat : s.input.At s.input.startPktData (cmd :: l) := h.at
  have hfield : s.input.At (s.input.startPktData + 1) l := Pkt.At.drop [cmd] hat
  simp only [supportedBuilders, List.forall_mem_cons, List.not_mem_nil, false_imp_iff,
    implies_true, and_true]
  refine ⟨?buildp, ?buildP, ?buildq, ?buildQ, ?buildqstmrk, ?buildm, ?buildM, ?buildG, ?buildg,
    ?buildT, ?buildz, ?buildZ, ?buildH, ?buildv, ?buildUnsupported⟩
  all_goals rintro rfl
  case buildp => exact iff_of_true (buildp_inBounds hfield) trivial
  case buildP => exact buildP_inBounds hfield
  case buildq => exact buildq_inBounds hat
  case buildQ => exact iff_of_true (buildQ_inBounds hat) trivial
  case buildm => exact buildm_inBounds hfield
  case buildM => exact buildM_inBounds hfield
  case buildG => exact iff_of_true (buildG_inBounds hfield) trivial
  case buildz => exact buildz_inBounds hfield
  case buildZ => exact buildZ_inBounds hfield
  case buildH => exact iff_of_true (buildH_inBounds hat) trivial
  case buildv => exact buildv_inBounds h hfilled
  case buildqstmrk | buildg | buildT | buildUnsupported => exact iff_of_true (.pure _) trivial

theorem builder_inBounds {cmd : U8} {post : List U8} (h : s.input.Holds (cmd :: l) post)
    (hfilled : s.input.data.length < 2 ^ 64) :
    InBounds (builder ops cmd s) ↔ Separated ops s cmd l post := by
  unfold builder
  cases hfind : (supportedBuilders ops).find? fun e => e.1 = cmd with
  | none =>
    refine iff_of_true (.pure _) ?_
    have hne := List.find?_eq_none.mp hfind
    simp only [supportedBuilders, List.forall_mem_cons, decide_eq_true_eq] at hne
    obtain ⟨-, hP, hq, -, -, hm, hM, -, -, -, hz, hZ, -, hv, -⟩ := hne
    simp only [Separated, Ne.symm hP, Ne.symm hq, Ne.symm hm, Ne.symm hM, Ne.symm hz, Ne.symm hZ,
      Ne.symm hv, or_self, if_false]
  | some e =>
    have heq : e.1 = cmd := by simpa using List.find?_some hfind
    exact supportedBuilders_inBounds h hfilled e (List.mem_of_find?_eq_some hfind) heq

/-- A packet is answered without a failed assertion, within the buffer and on the stack exactly if
the request holds what its builder relies on. -/
theorem respond_inBounds_iff (ops : SysOps ρ) (s : Stub ρ) {input : Pkt} {cmd : U8} {post : List U8}
    (h : input.Holds (cmd :: l) post) (hfilled : input.data.length < 2 ^ 64) :
    InBounds (respond ops s input) ↔ Separated ops s cmd l post := by
  rw [respond_eq ops s h, InBounds.bind_pure_iff]
  exact builder_inBounds (s := s.asked input) h hfilled

/-- With its separator and without. -/
theorem respond_inBounds_iff_P :
    InBounds (respond .idle (.init (.ofWords []) .reset) (packet (ascii "P1=2"))) ∧
      ¬ InBounds (respond .idle (.init (.ofWords []) .reset) (packet (ascii "P1"))) := by
  refine ⟨(respond_inBounds_iff .idle _ (packet_holds _) (by decide)).mpr fun _ => ?_, fun h => ?_⟩
  · exact ⟨ascii "2", rfl, trivial⟩
  · have hsep := (respond_inBounds_iff .idle _ (packet_holds _) (by decide)).mp h
    obtain ⟨_, ⟨⟩, -⟩ := hsep (by decide)

/-- `P1` in acknowledgement mode fails the assertion; `vCont` reads on where nothing was
received. -/
theorem respond_inBounds_fails :
    (∃ r : Reader, feed true (Reader.mk .reset 0 0 0 .reset) [ascii "+$P1#81"] = r ∧
      r.state = .finished ∧ r.input.payload = ascii "P1" ∧
      ¬ InBounds (respond .idle (.init (.ofWords []) .reset) r.input)) ∧
    (∃ r : Reader, feed false (Reader.mk .reset 0 0 0 .reset) [ascii "$vCont#"] = r ∧
      r.state = .finished ∧ r.input.payload = ascii "vCont" ∧
      ¬ InBounds (respond .idle { Stub.init (.ofWords []) .reset with ackEnabled := false }
        r.input)) := by
  have hassert : respond .idle (.init (.ofWords []) .reset)
      (feed true (Reader.mk .reset 0 0 0 .reset) [ascii "+$P1#81"]).input = .error .assertion := rfl
  have houtside : respond .idle { Stub.init (.ofWords []) .reset with ackEnabled := false }
      (feed false (Reader.mk .reset 0 0 0 .reset) [ascii "$vCont#"]).input = .error .outside := rfl
  refine ⟨⟨_, rfl, rfl, rfl, ?_⟩, ⟨_, rfl, rfl, rfl, ?_⟩⟩
  · rw [hassert]
    exact InBounds.not_assertion
  · rw [houtside]
    exact InBounds.not_outside

end

end SwitchV32
