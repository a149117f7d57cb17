import Mathlib.Data.List.TakeWhile
import SwitchV32.Stub.Builder
import SwitchV32.Stub.Frame

/-!
# The fields of a packet as lists

What the cursor of `extract.c` cuts off, said of the bytes between the cursor
and the end of the packet. The first of them is never taken for a terminator.
-/

namespace SwitchV32

/-- The field in front, and what is behind its terminator, if that is there. -/
def field (term : Term) : List U8 → List U8 × Option (List U8)
  | [] => ([], none)
  | b :: l =>
    match term with
    | none => (b :: l, none)
    | some c =>
      if l.contains c then (b :: l.takeWhile (· ≠ c), some (l.dropWhile (· ≠ c)).tail)
      else (b :: l, none)

def blank (f : List U8 × Option (List U8)) : List U8 :=
  match f.2 with
  | some rest => f.1 ++ 0 :: rest
  | none => f.1

/-- The byte behind the packet, which is the NUL of a last field. -/
def blankEnd (t : U8) (f : List U8 × Option (List U8)) : U8 :=
  match f.2 with
  | some _ => t
  | none => 0

/-- The bytes from the cursor to the end of the packet, where there is another byte. -/
def Pkt.At (p : Pkt) (cursor : Nat) (l : List U8) : Prop :=
  ∃ front back, p.data = front ++ (l ++ back) ∧ back ≠ [] ∧ cursor = front.length ∧
    p.endPktData = front.length + l.length

/-- The packet in the buffer, with what was read behind it. -/
def Pkt.Holds (p : Pkt) (payload post : List U8) : Prop :=
  ∃ pre, p.data = pre ++ (payload ++ 0x23 :: post) ∧ p.startPktData = pre.length ∧
    p.endPktData = pre.length + payload.length

structure Pkt.Cut (p : Pkt) (cursor : Nat) (f : List U8 × Option (List U8)) (cursor' : Nat)
    (p' : Pkt) : Prop where
  str : p'.str cursor = .ok (cString f.1)
  kept : p'.At cursor (blank f)
  le : cursor ≤ cursor'
  next : ∀ l, f.2 = some l → p'.At cursor' l
  last : f.2 = none → cursor' = p'.endPktData + 1
  start : p'.startPktData = p.startPktData
  finish : p'.endPktData = p.endPktData

section
variable {p p' : Pkt} {cursor cursor' : Nat} {l front tok back payload post : List U8} {t : U8}
variable {term : Term}

theorem cString_append_zero : cString (l ++ 0 :: back) = cString l := by
  induction l with
  | nil => simp [cString]
  | cons b l ih =>
    simp only [cString, List.cons_append, List.takeWhile_cons] at ih ⊢
    rw [ih]

theorem cString_of_not_mem (h : (0 : U8) ∉ l) : cString l = l := by
  have hall : ∀ b ∈ l, decide (b ≠ 0) = true := by
    rintro b hb
    exact decide_eq_true fun heq => h (heq ▸ hb)
  exact List.takeWhile_eq_self_iff.mpr hall

theorem field_cons_append {b c : U8} {tok rest : List U8} (hc : c ∉ tok) :
    field (some c) (b :: tok ++ c :: rest) = (b :: tok, some rest) := by
  have hall : ∀ x ∈ tok, decide (x ≠ c) = true := by
    intro x hx
    exact decide_eq_true fun heq => hc (heq ▸ hx)
  have hmem : (tok ++ c :: rest).contains c = true := by simp
  simp only [field, List.cons_append, hmem, if_true, List.takeWhile_append_of_pos hall,
    List.dropWhile_append_of_pos hall]
  simp

theorem field_cases (term : Term) (l : List U8) :
    (field term l = (l, none) ∧ ∀ x ∈ l.tail, term ≠ some x) ∨
    ∃ c b tok rest, term = some c ∧ l = b :: tok ++ c :: rest ∧ c ∉ tok ∧
      field term l = (b :: tok, some rest) := by
  cases l with
  | nil => exact .inl ⟨rfl, fun x hx => absurd hx List.not_mem_nil⟩
  | cons b l =>
    cases term with
    | none => exact .inl ⟨rfl, fun x _ => by rintro ⟨⟩⟩
    | some c =>
      by_cases hc : c ∈ l
      · obtain ⟨tok, rest, rfl, htok⟩ := List.eq_append_cons_of_mem hc
        exact .inr ⟨c, b, tok, rest, rfl, rfl, htok, field_cons_append htok⟩
      · have hnot : l.contains c = false := by simpa using hc
        refine .inl ⟨by simp only [field, hnot, Bool.false_eq_true, if_false], ?_⟩
        rintro x hx ⟨⟩
        exact hc hx

theorem read_append_right {i : Nat} {c : U8} (hdata : p.data = front ++ l) (hl : l[i]? = some c) :
    p.read (front.length + i) = .ok c := by
  rw [Pkt.read, hdata, List.getElem?_append_right (by omega), Nat.add_sub_cancel_left, hl]

theorem tokenLoop_eq {n idx : Nat} (hdata : p.data = front ++ (tok ++ t :: back))
    (hstop : ∀ x ∈ tok.drop (idx + 1), term ≠ some x)
    (hn : idx + n = tok.length ∨ (tok.length < idx + n ∧ idx < tok.length ∧ term = some t)) :
    tokenLoop p term front.length n idx = .ok tok.length := by
  induction n generalizing idx with
  | zero =>
    obtain heq | ⟨hlt, hidx, -⟩ := hn
    · rw [← heq]
      rfl
    · omega
  | succ n ih =>
    cases term with
    | none =>
      obtain heq | ⟨-, -, hterm⟩ := hn
      · exact ih (fun _ _ => by rintro ⟨⟩) (.inl (by omega))
      · cases hterm
    | some c =>
      obtain hlt | heq : idx + 1 < tok.length ∨ idx + 1 = tok.length := by omega
      · have hread : p.read (front.length + (idx + 1)) = .ok tok[idx + 1] :=
          read_append_right hdata (by rw [List.getElem?_append_left hlt, List.getElem?_eq_getElem])
        have hne : tok[idx + 1] ≠ c := by
          rintro rfl
          refine hstop _ ?_ rfl
          rw [List.drop_eq_getElem_cons hlt]
          exact List.mem_cons_self
        simp only [tokenLoop, hread, ok_bind, hne, if_false]
        refine ih (fun x hx => hstop x ?_) ?_
        · rw [List.drop_eq_getElem_cons hlt]
          exact List.mem_cons_of_mem _ hx
        · obtain hn | ⟨hpast, -, hterm⟩ := hn
          · exact .inl (by omega)
          · exact .inr ⟨by omega, hlt, hterm⟩
      · have hread : p.read (front.length + (idx + 1)) = .ok t :=
          read_append_right hdata (by rw [heq, List.getElem?_append_right (by omega)]; simp)
        simp only [tokenLoop, hread, ok_bind]
        split
        · rw [heq]
          rfl
        · rename_i hne
          obtain hn | ⟨-, -, hterm⟩ := hn
          · obtain rfl : n = 0 := by omega
            rw [← heq]
            rfl
          · exact absurd (Option.some.inj hterm).symm hne

theorem sadCursorTokenizer_of_loop (hdata : p.data = front ++ (tok ++ t :: back))
    (hcursor : front.length ≠ p.endPktData + 1)
    (hloop : tokenLoop p term front.length (tokenLen p front.length) 0 = .ok tok.length) :
    sadCursorTokenizer p front.length term =
      .ok (front.length, front.length + (tok.length + 1),
        { p with data := front ++ (tok ++ 0 :: back) }) := by
  have hin : front.length + tok.length < p.data.length := by
    rw [hdata]
    simp only [List.length_append, List.length_cons]
    omega
  have hset : p.data.set (front.length + tok.length) 0 = front ++ (tok ++ 0 :: back) := by
    rw [hdata, List.set_append_right _ _ (by omega), Nat.add_sub_cancel_left,
      List.set_append_right _ _ (by omega), Nat.sub_self]
    rfl
  simp only [sadCursorTokenizer, hcursor, if_false, hloop, ok_bind, Pkt.write, hin, if_true, hset]
  rfl

theorem sadCursorTokenizer_eq (hdata : p.data = front ++ (tok ++ t :: back))
    (hstop : ∀ x ∈ tok.tail, term ≠ some x)
    (hend : p.endPktData = front.length + tok.length ∨
      (front.length + tok.length < p.endPktData ∧ tok ≠ [] ∧ term = some t)) :
    sadCursorTokenizer p front.length term =
      .ok (front.length, front.length + (tok.length + 1),
        { p with data := front ++ (tok ++ 0 :: back) }) := by
  have hlen : tokenLen p front.length = p.endPktData - front.length := if_pos (by omega)
  refine sadCursorTokenizer_of_loop hdata (by omega)
    (tokenLoop_eq hdata (by rwa [List.drop_one]) ?_)
  obtain hend | ⟨hlt, hne, hterm⟩ := hend
  · exact .inl (by omega)
  · exact .inr ⟨by omega, List.length_pos_iff.mpr hne, hterm⟩

theorem str_eq (hdata : p.data = front ++ (tok ++ 0 :: back)) :
    p.str front.length = .ok (cString tok) := by
  have hmem : (0 : U8) ∈ p.data.drop front.length := by
    rw [hdata, List.drop_left]
    exact List.mem_append_right _ List.mem_cons_self
  rw [Pkt.str, if_pos hmem, hdata, List.drop_left, cString_append_zero]

theorem sadCursorTokenizer_blank (hdata : p.data = front ++ (l ++ t :: back))
    (hend : p.endPktData = front.length + l.length) (term : Term) :
    sadCursorTokenizer p front.length term =
      .ok (front.length, front.length + ((field term l).1.length + 1),
        { p with
          data := front ++ (blank (field term l) ++ blankEnd t (field term l) :: back) }) := by
  obtain ⟨hfield, hstop⟩ | ⟨c, b, tok, rest, rfl, rfl, hc, hfield⟩ := field_cases term l
  · rw [hfield]
    exact sadCursorTokenizer_eq hdata hstop (.inl hend)
  · have hdata' : p.data = front ++ ((b :: tok) ++ c :: (rest ++ t :: back)) := by
      rw [hdata]
      simp only [List.append_assoc, List.cons_append]
    have hstop : ∀ x ∈ (b :: tok).tail, some c ≠ some x := by
      rintro x hx ⟨⟩
      exact hc hx
    have hlt : front.length + (b :: tok).length < p.endPktData := by
      rw [hend]
      simp only [List.length_append, List.length_cons]
      omega
    rw [hfield, sadCursorTokenizer_eq hdata' hstop (.inr ⟨hlt, List.cons_ne_nil _ _, rfl⟩)]
    simp only [blank, blankEnd, List.append_assoc, List.cons_append]

theorem length_blank (term : Term) (l : List U8) : (blank (field term l)).length = l.length := by
  obtain ⟨hfield, -⟩ | ⟨c, b, tok, rest, rfl, rfl, -, hfield⟩ := field_cases term l
  · rw [hfield]
    rfl
  · rw [hfield]
    simp [blank]

theorem sadCursorTokenizer_at (h : p.At cursor l) (term : Term) :
    ∃ cursor' p', sadCursorTokenizer p cursor term = .ok (cursor, cursor', p') ∧
      p.Cut cursor (field term l) cursor' p' := by
  obtain ⟨front, back, hdata, hback, rfl, hend⟩ := h
  obtain ⟨t, back, rfl⟩ := List.exists_cons_of_ne_nil hback
  refine ⟨_, _, sadCursorTokenizer_blank hdata hend term, ?_⟩
  have hlength := length_blank term l
  generalize field term l = f at hlength ⊢
  have hkept : Pkt.At { p with data := front ++ (blank f ++ blankEnd t f :: back) } front.length
      (blank f) :=
    ⟨front, blankEnd t f :: back, rfl, List.cons_ne_nil _ _, rfl, by rw [hend, hlength]⟩
  obtain ⟨tok, rest⟩ := f
  cases rest with
  | none =>
    exact {
      str := str_eq rfl
      kept := hkept
      le := Nat.le_add_right _ _
      next := fun _ => by rintro ⟨⟩
      last := fun _ => by rw [hend, ← hlength]; rfl
      start := rfl
      finish := rfl }
  | some rest =>
    have hlast (hnone : some rest = none) : front.length + (tok.length + 1) =
        p.endPktData + 1 := by cases hnone
    refine ⟨?_, hkept, Nat.le_add_right _ _, ?_, hlast, rfl, rfl⟩
    · have hdata' : front ++ (blank (tok, some rest) ++ blankEnd t (tok, some rest) :: back) =
          front ++ (tok ++ 0 :: (rest ++ t :: back)) := by simp [blank, blankEnd]
      exact str_eq hdata'
    · rintro _ ⟨⟩
      refine ⟨front ++ (tok ++ [0]), t :: back, by simp [blank, blankEnd], hback, by simp, ?_⟩
      rw [hend, ← hlength]
      simp only [blank, List.length_append, List.length_cons, List.length_nil]
      omega

theorem sadCursorTokenizer_past (h : cursor = p.endPktData + 1) (term : Term) :
    sadCursorTokenizer p cursor term = .error .assertion := by
  rw [sadCursorTokenizer, if_pos h]
  rfl

theorem Pkt.At.drop (front : List U8) (h : p.At cursor (front ++ l)) :
    p.At (cursor + front.length) l := by
  obtain ⟨front₀, back, hdata, hback, rfl, hend⟩ := h
  refine ⟨front₀ ++ front, back, by rw [hdata]; simp, hback, by simp, ?_⟩
  rw [hend, List.length_append, List.length_append, Nat.add_assoc]

theorem Pkt.Holds.at (h : p.Holds payload post) : p.At p.startPktData payload := by
  obtain ⟨pre, hdata, hstart, hend⟩ := h
  exact ⟨pre, 0x23 :: post, hdata, List.cons_ne_nil _ _, hstart, hend⟩

end

-- ---------------------------------------------------------------------------
-- Numbers
-- ---------------------------------------------------------------------------

def fieldNumber (term : Term) (l : List U8) : Int := strtol16 (cString (field term l).1)

section
variable {ρ : Type} {s : Stub ρ} {cursor : Nat} {l l' digits : List U8} {term : Term} {c : U8}
variable {check : Int → Bool} {n : Nat}

theorem extractVal_at (h : s.input.At cursor l) (check : Int → Bool) (term : Term) :
    ∃ cursor' p', s.input.Cut cursor (field term l) cursor' p' ∧
      ∀ next : Int → Nat → Stub ρ → Except BuildFault (Stub ρ),
        extractVal (sadExtract check) s cursor term next =
          if check (fieldNumber term l) then next (fieldNumber term l) cursor' (s.setInput p')
          else .ok ((s.setInput p').appendStr "E") := by
  obtain ⟨cursor', p', htoken, hcut⟩ := sadCursorTokenizer_at h term
  refine ⟨cursor', p', hcut, fun next => ?_⟩
  simp only [extractVal, sadExtract, htoken, ok_bind, hcut.str, pure, Except.pure]
  rw [fieldNumber]
  cases hcheck : check (strtol16 (cString (field term l).1)) with
  | true => rfl
  | false => rfl

theorem extractVal_past (h : cursor = s.input.endPktData + 1)
    (next : Int → Nat → Stub ρ → Except BuildFault (Stub ρ)) :
    extractVal (sadExtract check) s cursor term next = .error .assertion := by
  simp only [extractVal, sadExtract, sadCursorTokenizer_past h, error_bind]

theorem field_append (hl : l ≠ []) (hc : c ∉ l) : field (some c) (l ++ c :: l') = (l, some l') := by
  obtain ⟨b, l, rfl⟩ := List.exists_cons_of_ne_nil hl
  exact field_cons_append fun hmem => hc (List.mem_cons_of_mem _ hmem)

theorem field_eob : field eob l = (l, none) := by
  cases l <;> rfl

theorem strtol16_digits (h : ∀ b ∈ digits, isHex b = true) :
    strtol16 (cString digits) = min (hexNat 0 digits : Int) longMax := by
  rw [cString_of_not_mem, strtol16_hex h]
  exact fun hmem => (isHex_cases (h 0 hmem)).2.2.2.2.2 rfl

structure Spells (digits : List U8) (n : Nat) : Prop where
  ne_nil : digits ≠ []
  hex : ∀ b ∈ digits, isHex b = true
  val : hexNat 0 digits = n

theorem Spells.number (h : Spells digits n) (hn : n < 2 ^ 63 - 1) :
    strtol16 (cString digits) = n := by
  rw [strtol16_digits h.hex, h.val]
  simp only [longMax]
  omega

theorem Spells.not_mem (h : Spells digits n) (hc : isHex c = false) : c ∉ digits := by
  intro hmem
  rw [h.hex c hmem] at hc
  cases hc

theorem checkUint32_ofNat (h : n < 2 ^ 32) : checkUint32 n = true := by
  simp [checkUint32]
  omega

theorem checkUint64_ofNat (h : n < 2 ^ 63 - 1) : checkUint64 n = true := by
  simp only [checkUint64, longMax]
  simp
  omega

theorem extractVal_number (h : s.input.At cursor (digits ++ c :: l)) (check : Int → Bool)
    (hd : Spells digits n) (hc : isHex c = false) (hn : n < 2 ^ 63 - 1)
    (hcheck : check n = true) :
    ∃ cursor' p', p'.At cursor' l ∧
      ∀ next : Int → Nat → Stub ρ → Except BuildFault (Stub ρ),
        extractVal (sadExtract check) s cursor (some c) next = next n cursor' (s.setInput p') := by
  obtain ⟨cursor', p', hcut, hext⟩ := extractVal_at h check (some c)
  have hfield : field (some c) (digits ++ c :: l) = (digits, some l) :=
    field_append hd.ne_nil (hd.not_mem hc)
  have hnum : fieldNumber (some c) (digits ++ c :: l) = n := by
    rw [fieldNumber, hfield]
    exact hd.number hn
  refine ⟨cursor', p', hcut.next l (by rw [hfield]), fun next => ?_⟩
  rw [hext, hnum, hcheck, if_pos rfl]

theorem extractVal_last (h : s.input.At cursor digits) (check : Int → Bool) (hd : Spells digits n)
    (hn : n < 2 ^ 63 - 1) (hcheck : check n = true) :
    ∃ cursor' p', ∀ next : Int → Nat → Stub ρ → Except BuildFault (Stub ρ),
      extractVal (sadExtract check) s cursor eob next = next n cursor' (s.setInput p') := by
  obtain ⟨cursor', p', -, hext⟩ := extractVal_at h check eob
  have hnum : fieldNumber eob digits = n := by
    rw [fieldNumber, field_eob]
    exact hd.number hn
  refine ⟨cursor', p', fun next => ?_⟩
  rw [hext, hnum, hcheck, if_pos rfl]

end

end SwitchV32
