import SwitchV32.Stub.Fields

/-!
# Fields that are empty

`sad_cursor_tokenizer` of `stubb_a_dub/src/extract.c` beside a split at the
terminators. The byte at the cursor is passed before the first one is compared,
so that an empty field takes the terminator and the field behind it with it.
-/

namespace SwitchV32

def Pkt.ahead (p : Pkt) (cursor : Nat) : List U8 :=
  (p.data.drop cursor).take (p.endPktData - cursor)

def token (term : Term) (l : List U8) : List U8 :=
  match term with
  | none => l
  | some c => l.takeWhile (· ≠ c)

/-- The call cuts off the bytes from the cursor up to the first terminator, or up to the end of the
packet. Only the byte behind them is written, and the cursor goes behind that. -/
def Pkt.TakesToken (p : Pkt) (cursor : Nat) (term : Term) : Prop :=
  let k := (token term (p.ahead cursor)).length
  cursor + k ≤ p.endPktData ∧
    sadCursorTokenizer p cursor term =
      .ok (cursor, cursor + (k + 1), { p with data := p.data.set (cursor + k) 0 })

/-- What the calls cut off one after the other, up to behind the end of the packet. -/
inductive Splits (term : Term) : Pkt → Nat → List (List U8) → Prop
  | done {p cursor} : cursor = p.endPktData + 1 → Splits term p cursor []
  | next {p p' cursor start cursor' toks} :
    sadExtractStr p cursor term = .ok (start, cursor', p') → Splits term p' cursor' toks →
      Splits term p cursor ((p'.data.drop start).take (cursor' - 1 - start) :: toks)

section
variable {p p' : Pkt} {cursor cursor' start : Nat} {l tok : List U8} {toks : List (List U8)}
variable {term : Term} {b c : U8}

theorem Pkt.at_ahead (hcursor : cursor ≤ p.endPktData) (hend : p.endPktData < p.data.length) :
    p.At cursor (p.ahead cursor) := by
  have hlength : (p.ahead cursor).length = p.endPktData - cursor := by
    simp only [ahead, List.length_take, List.length_drop]
    omega
  refine ⟨p.data.take cursor, p.data.drop p.endPktData, ?_, ?_, ?_, ?_⟩
  · have hdrop : p.data.drop p.endPktData =
        (p.data.drop cursor).drop (p.endPktData - cursor) := by
      rw [List.drop_drop, Nat.add_sub_cancel' hcursor]
    rw [ahead, hdrop, List.take_append_drop, List.take_append_drop]
  · exact List.ne_nil_of_length_pos (by simpa using hend)
  · rw [List.length_take]
    omega
  · rw [hlength, List.length_take]
    omega

theorem Pkt.At.ahead_eq (h : p.At cursor l) : p.ahead cursor = l := by
  obtain ⟨front, back, hdata, -, rfl, hend⟩ := h
  rw [ahead, hdata, hend, List.drop_left, Nat.add_sub_cancel_left, List.take_left]

theorem Pkt.At.head (h : p.At cursor (b :: l)) :
    cursor < p.endPktData ∧ p.data[cursor]? = some b := by
  obtain ⟨front, back, hdata, -, rfl, hend⟩ := h
  refine ⟨?_, ?_⟩
  · rw [hend, List.length_cons]
    omega
  · rw [hdata, List.getElem?_append_right (Nat.le_refl _), Nat.sub_self]
    rfl

theorem field_cons_fst (term : Term) (b : U8) (l : List U8) :
    (field term (b :: l)).1 = b :: token term l := by
  obtain ⟨hfield, hstop⟩ | ⟨c, b', tok, rest, rfl, hl, hc, hfield⟩ := field_cases term (b :: l)
  · rw [hfield]
    cases term with
    | none => rfl
    | some c =>
      have hall : l.takeWhile (· ≠ c) = l := by
        rw [List.takeWhile_eq_self_iff]
        rintro x hx
        exact decide_eq_true fun heq => hstop x hx (congrArg some heq.symm)
      exact congrArg (b :: ·) hall.symm
  · rw [List.cons_append] at hl
    obtain ⟨rfl, rfl⟩ := List.cons.inj hl
    have hall : ∀ x ∈ tok, decide (x ≠ c) = true := by
      rintro x hx
      exact decide_eq_true fun heq => hc (heq ▸ hx)
    rw [hfield, token, List.takeWhile_append_of_pos hall]
    simp

theorem sadCursorTokenizer_ok (h : sadCursorTokenizer p cursor term = .ok (start, cursor', p')) :
    ∃ idx, start = cursor ∧ cursor' = cursor + (idx + 1) ∧
      p' = { p with data := p.data.set (cursor + idx) 0 } := by
  unfold sadCursorTokenizer at h
  split at h
  · cases h
  · obtain ⟨idx, -, h⟩ := bind_eq_ok.mp h
    obtain ⟨p₁, hwrite, h⟩ := bind_eq_ok.mp h
    cases h
    unfold Pkt.write at hwrite
    split at hwrite
    · cases hwrite
      exact ⟨idx, rfl, rfl, rfl⟩
    · cases hwrite

theorem sadCursorTokenizer_field (h : p.At cursor l) (term : Term) :
    sadCursorTokenizer p cursor term =
      .ok (cursor, cursor + ((field term l).1.length + 1),
        { p with data := p.data.set (cursor + (field term l).1.length) 0 }) := by
  obtain ⟨front, back, hdata, hback, rfl, hend⟩ := h
  obtain ⟨t, back, rfl⟩ := List.exists_cons_of_ne_nil hback
  have hok := sadCursorTokenizer_blank hdata hend term
  obtain ⟨idx, -, hidx, hp⟩ := sadCursorTokenizer_ok hok
  have hlength : (field term l).1.length = idx := by omega
  rw [hok, hp, hlength]

theorem length_token_le (term : Term) (l : List U8) : (token term l).length ≤ l.length := by
  cases term with
  | none => exact Nat.le_refl _
  | some c => exact (List.takeWhile_sublist _).length_le

/-- A field is as long as the token, unless it is empty and not the last one. -/
theorem length_field_iff (term : Term) (l : List U8) :
    (field term l).1.length = (token term l).length ↔ ∀ b, l.head? = some b → term ≠ some b := by
  cases l with
  | nil =>
    refine iff_of_true ?_ fun _ => by rintro ⟨⟩
    cases term <;> rfl
  | cons b l =>
    rw [field_cons_fst]
    cases term with
    | none => exact iff_of_true rfl fun _ _ => by rintro ⟨⟩
    | some c =>
      by_cases hc : b = c
      · refine iff_of_false ?_ fun hall => hall b rfl (congrArg some hc.symm)
        simp [token, hc]
      · refine iff_of_true ?_ ?_
        · simp [token, hc]
        · rintro b' ⟨⟩ ⟨⟩
          exact hc rfl

theorem takesToken_iff (h : p.At cursor l) :
    p.TakesToken cursor term ↔ ∀ b, l.head? = some b → term ≠ some b := by
  have hle := length_token_le term l
  have hend : cursor + l.length = p.endPktData := by
    obtain ⟨front, back, -, -, rfl, hend⟩ := h
    exact hend.symm
  rw [← length_field_iff, Pkt.TakesToken, h.ahead_eq, sadCursorTokenizer_field h]
  constructor
  · rintro ⟨-, htakes⟩
    obtain ⟨-, hrest⟩ := Prod.mk.inj (Except.ok.inj htakes)
    obtain ⟨hnext, -⟩ := Prod.mk.inj hrest
    omega
  · intro hlength
    rw [hlength]
    exact ⟨by omega, rfl⟩

-- ---------------------------------------------------------------------------
-- One call after the other
-- ---------------------------------------------------------------------------

theorem Pkt.At.end_eq (h : p.At cursor l) : p.endPktData = cursor + l.length := by
  obtain ⟨front, back, -, -, rfl, hend⟩ := h
  exact hend

theorem take_blank (f : List U8 × Option (List U8)) (back : List U8) :
    (blank f ++ back).take f.1.length = f.1 := by
  obtain ⟨tok, rest⟩ := f
  cases rest with
  | none => exact List.take_left
  | some rest =>
    simp only [blank, List.append_assoc]
    exact List.take_left

theorem splits_cons (h : p.At cursor l) (term : Term) : ∃ cursor' p',
    p.Cut cursor (field term l) cursor' p' ∧
      ∀ toks, Splits term p cursor toks ↔
        ∃ toks', toks = (field term l).1 :: toks' ∧ Splits term p' cursor' toks' := by
  obtain ⟨cursor', p', hok, hcut⟩ := sadCursorTokenizer_at h term
  have hnext : cursor' = cursor + ((field term l).1.length + 1) := by
    have hsame := Except.ok.inj (hok.symm.trans (sadCursorTokenizer_field h term))
    exact congrArg (fun r => r.2.1) hsame
  have htok : (p'.data.drop cursor).take (cursor' - 1 - cursor) = (field term l).1 := by
    obtain ⟨front, back, hdata, -, hcursor, -⟩ := hcut.kept
    have hlength : cursor' - 1 - cursor = (field term l).1.length := by omega
    rw [hlength, hdata, hcursor, List.drop_left, take_blank]
  refine ⟨cursor', p', hcut, fun toks => ⟨fun hsplits => ?_, ?_⟩⟩
  · cases hsplits with
    | done hpast =>
      rw [h.end_eq] at hpast
      omega
    | next hcall hsplits =>
      cases hok.symm.trans hcall
      exact ⟨_, congrArg (· :: _) htok, hsplits⟩
  · rintro ⟨toks', rfl, hsplits⟩
    rw [← htok]
    exact .next hok hsplits

theorem splits_past (h : cursor = p.endPktData + 1) (term : Term) (toks : List (List U8)) :
    Splits term p cursor toks ↔ toks = [] := by
  constructor
  · intro hsplits
    cases hsplits with
    | done => rfl
    | next hcall =>
      rw [sadExtractStr, sadCursorTokenizer_past h] at hcall
      cases hcall
  · rintro rfl
    exact .done h

/-- The calls give the fields of the packet exactly if only the last one may be empty. The induction
is on the bytes that are left. -/
theorem splits_splitOn_iff (h : p.At cursor l) (c : U8) :
    Splits (some c) p cursor (l.splitOn c) ↔ [] ∉ (l.splitOn c).dropLast := by
  induction hn : l.length using Nat.strongRecOn generalizing p cursor l with
  | ind n ih =>
    obtain ⟨cursor', p', hcut, hsplits⟩ := splits_cons h (some c)
    rw [hsplits]
    by_cases hhead : l.head? = some c
    · -- the first field is empty, and the first token is not
      obtain ⟨l, rfl⟩ := List.head?_eq_some_iff.mp hhead
      have hsplit : (c :: l).splitOn c = [] :: l.splitOn c :=
        List.splitOn_append_cons_self_of_not_mem List.not_mem_nil l
      rw [hsplit, field_cons_fst, List.dropLast_cons_of_ne_nil (List.splitOn_ne_nil c l)]
      refine iff_of_false ?_ fun hnot => hnot (.head _)
      rintro ⟨toks', heq, -⟩
      cases (List.cons.inj heq).1
    · obtain ⟨hfield, hstop⟩ | ⟨c', b, tok, rest, hterm, rfl, hc, hfield⟩ := field_cases (some c) l
      · have hnot : c ∉ l := by
          intro hmem
          cases l with
          | nil => cases hmem
          | cons b l =>
            obtain rfl | hmem := List.mem_cons.mp hmem
            · exact hhead rfl
            · exact hstop c hmem rfl
        rw [List.splitOn_eq_singleton hnot]
        refine iff_of_true ⟨[], by rw [hfield], ?_⟩ (by simp)
        exact (splits_past (hcut.last (by rw [hfield])) _ _).mpr rfl
      · cases hterm
        have hnot : c ∉ b :: tok := by
          intro hmem
          obtain rfl | hmem := List.mem_cons.mp hmem
          · exact hhead rfl
          · exact hc hmem
        have hlt : rest.length < n := by
          rw [← hn]
          simp only [List.length_append, List.length_cons]
          omega
        have hrest := ih rest.length hlt (hcut.next rest (by rw [hfield])) rfl
        rw [hfield, List.splitOn_append_cons_self_of_not_mem hnot,
          List.dropLast_cons_of_ne_nil (List.splitOn_ne_nil c rest)]
        simp only [List.cons.injEq, true_and, exists_eq_left', hrest, List.mem_cons, not_or]
        exact (and_iff_right (by rintro ⟨⟩)).symm

/-- For every buffer, cursor and terminator, a call cuts off the bytes up to the first terminator
exactly if there is none at the cursor, and the calls one after the other give the fields of what is
left of the packet exactly if none but the last of them is empty. -/
theorem cursor_tokenizer_iff (p : Pkt) (cursor : Nat) (term : Term) (c : U8)
    (hcursor : cursor ≤ p.endPktData) (hend : p.endPktData < p.data.length) :
    (p.TakesToken cursor term ↔ (cursor < p.endPktData → p.data[cursor]? ≠ term)) ∧
      (Splits (some c) p cursor ((p.ahead cursor).splitOn c) ↔
        [] ∉ ((p.ahead cursor).splitOn c).dropLast) := by
  have hat := Pkt.at_ahead hcursor hend
  refine ⟨(takesToken_iff hat).trans ?_, splits_splitOn_iff hat c⟩
  cases hahead : p.ahead cursor with
  | nil =>
    rw [hahead] at hat
    have hpast := hat.end_eq
    refine iff_of_true (fun b => by rintro ⟨⟩) fun hlt => ?_
    simp only [List.length_nil] at hpast
    omega
  | cons b l =>
    rw [hahead] at hat
    obtain ⟨hlt, hbyte⟩ := hat.head
    simp only [List.head?_cons, Option.some.injEq, forall_eq', hlt, forall_const, hbyte]
    exact ne_comm

end

/-- `$m1,#`, where the last field is empty. -/
def oneComma : Pkt := ⟨[0x24, 0x6d, 0x31, 0x2c, 0x23], 1, 4⟩

/-- `$m,1#`, where the first field is empty. -/
def commaOne : Pkt := ⟨[0x24, 0x6d, 0x2c, 0x31, 0x23], 1, 4⟩

theorem cursor_tokenizer_iff_last :
    oneComma.TakesToken 2 (some 0x2c) ∧ Splits (some 0x2c) oneComma 2 [[0x31], []] := by
  obtain ⟨htakes, hsplits⟩ := cursor_tokenizer_iff oneComma 2 (some 0x2c) 0x2c (by decide)
    (by decide)
  exact ⟨htakes.mpr fun _ => by decide, hsplits.mpr (by decide)⟩

/-- The terminator goes into the string, and the empty field is missing. -/
theorem cursor_tokenizer_fails :
    sadCursorTokenizer commaOne 2 (some 0x2c) =
      .ok (2, 5, ⟨[0x24, 0x6d, 0x2c, 0x31, 0x00], 1, 4⟩) ∧
    ¬ commaOne.TakesToken 2 (some 0x2c) ∧
    Splits (some 0x2c) commaOne 2 [[0x2c, 0x31]] ∧
    (commaOne.ahead 2).splitOn 0x2c = [[], [0x31]] := by
  have hcall : sadCursorTokenizer commaOne 2 (some 0x2c) =
      .ok (2, 5, ⟨[0x24, 0x6d, 0x2c, 0x31, 0x00], 1, 4⟩) := by rfl
  refine ⟨hcall, ?_, .next hcall (.done rfl), by decide⟩
  rintro ⟨-, htakes⟩
  rw [hcall] at htakes
  obtain ⟨-, hrest⟩ := Prod.mk.inj (Except.ok.inj htakes)
  exact absurd (Prod.mk.inj hrest).1 (by decide)

end SwitchV32
