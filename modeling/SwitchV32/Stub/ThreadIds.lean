import SwitchV32.Ensures
import SwitchV32.Stub.Breakpoints

/-!
# Thread ids

The stub counts the cores from 1 and prints their ids in decimal, which the
fields of a request spell in hex. A `vCont` for thread 0 takes the selected core
for an id and steps down once more.
-/

namespace SwitchV32

/-- The id that is printed for a core. -/
def idText (k : Nat) : List U8 := printU (k + 1)

-- ---------------------------------------------------------------------------
-- Ids as numbers
-- ---------------------------------------------------------------------------

section
variable {digits l rest : List U8} {c : U8} {n k smp : Nat} {term : Term}

/-- Up to the ninth core, both bases have the same digit. -/
theorem spells_idText (hk : k < 9) : Spells (idText k) (k + 1) := by
  have hdigit : ∀ m < 10, BitVec.ofNat 8 (Nat.digitChar m).toNat = hexChar m := by decide
  have hid : idText k = [hexChar (k + 1)] := by
    rw [idText, printU, Nat.toDigits_of_lt_base (by omega), List.map_singleton,
      hdigit _ (by omega)]
  have hval : hexVal (hexChar (k + 1)) = some (k + 1) := hexVal_hexChar (by omega)
  rw [hid]
  exact ⟨List.cons_ne_nil _ _, by simp [isHex, hval], by simp [hexNat, hval]⟩

theorem spells_tenth : Spells (idText 9) 16 := ⟨by decide, by decide, by decide⟩

end

-- ---------------------------------------------------------------------------
-- What an id names
-- ---------------------------------------------------------------------------

/-- The end of `vCont` once its core is known, -1 being all. -/
def vContOn {ρ : Type} (ops : SysOps ρ) (s : Stub ρ) (action : U8) (threadId : Int) :
    Except BuildFault (Stub ρ) := do
  match ← vContAction ops s action threadId with
  | none => return s.appendStr "E"
  | some s =>
    let (stop, s) ← waitForHalt ops s s.socket
    if !stop then return s.appendStr "S02"
    return haltReply ops s threadId

/-- `vCont;action:id`, with or without other actions behind it. -/
def VContPacket (action : U8) (txt : List U8) (input : Pkt) : Prop :=
  ∃ rest post, (∀ b ∈ rest.head?, b = 0x3b) ∧
    input.Holds (ascii "vCont;" ++ action :: 0x3a :: (txt ++ rest)) post

section
variable {ρ : Type} (ops : SysOps ρ) (s : Stub ρ)

def VContNames (txt : List U8) (k : Nat) : Prop :=
  ∀ action input, VContPacket action txt input → ∃ p, respond ops s input = (do
    let s ← vContOn ops ((s.asked input).setInput p) action k
    return (s.closeResp.output.payload, s.closeResp))

structure Names (txt : List U8) (k : Nat) : Prop where
  select : ∀ input post, input.Holds (ascii "Hg" ++ txt) post →
    ∃ s₁, respond ops s input = .ok (ascii "OK", s₁) ∧ s₁.selectedCore = k
  action : VContNames ops s txt k
  info : ∀ input post, input.Holds (ascii "qThreadExtraInfo," ++ txt) post →
    ∃ s₁, respond ops s input =
      .ok ((coreName (ops.hsmState s.target.mgr k)).flatMap hexPair, s₁)

def Refuses (input : Pkt) : Prop :=
  ∃ s₁, respond ops s input = .ok (ascii "E", s₁) ∧ s₁.selectedCore = s.selectedCore

/-- The text of an id that is above those of the cores, or below -1. -/
def NoCore (smp : Nat) (txt : List U8) : Prop :=
  ∃ digits n, Spells digits n ∧
    ((txt = digits ∧ smp < n) ∨ (txt = 0x2d :: digits ∧ 2 ≤ n))

structure IdsAgree : Prop where
  selected : s.selectedCore < s.smp
  current : ∀ input post, input.Holds (ascii "qC") post →
    ∃ s₁, respond ops s input = .ok (ascii "QC" ++ idText s.selectedCore, s₁)
  list : ∀ input post, input.Holds (ascii "qfThreadInfo") post →
    ∃ s₁, respond ops s input = .ok (ascii "m" ++
      List.intercalate (ascii ",") ((List.range s.smp).map idText), s₁)
  halted : ∀ (threadId : Int) (k : Nat), threadId = k ∨
      (threadId = -1 ∧ s.sadBreakpointHartid = some k) → k < s.smp →
    ∃ regs, haltReply ops s threadId = s.append (ascii "T05swbreak:;thread:" ++ idText k ++
      ascii ";core:" ++ idText k ++ ascii ";" ++ regs)
  names : ∀ k < s.smp, Names ops s (idText k) k
  refused : ∀ txt, NoCore s.smp txt →
    (∀ input post, input.Holds (ascii "Hg" ++ txt) post → Refuses ops s input) ∧
    (∀ action input, VContPacket action txt input → Refuses ops s input) ∧
    ∀ input post, input.Holds (ascii "qThreadExtraInfo," ++ txt) post → Refuses ops s input

def ZeroIsSelected : Prop := ∀ txt, Spells txt 0 → VContNames ops s txt s.selectedCore

end

-- ---------------------------------------------------------------------------
-- `Hg`
-- ---------------------------------------------------------------------------

section
variable {ρ : Type} {ops : SysOps ρ} {s s₁ : Stub ρ} {input : Pkt} {txt post : List U8}
variable {v : Int} {n k : Nat} {action : U8}

theorem buildH_eq (h : s.input.At s.input.startPktData (ascii "Hg" ++ txt))
    (hval : strtol16 (cString txt) = v) :
    ∃ p, buildH s = .ok (if checkUint32 v then
        if v = 0 then ({ s.setInput p with selectedCore := 0 } : Stub ρ).appendStr "OK"
        else if v - 1 ≥ s.smp then (s.setInput p).appendStr "E"
        else ({ s.setInput p with selectedCore := (v - 1).toNat } : Stub ρ).appendStr "OK"
      else (s.setInput p).appendStr "E") := by
  obtain ⟨cursor, p, htoken, hcut⟩ := sadCursorTokenizer_at h eob
  have hkept : p.At s.input.startPktData (ascii "Hg" ++ txt) := by
    have hkept := hcut.kept
    rwa [field_eob] at hkept
  have hcommand : (cString (ascii "Hg" ++ txt)).take 2 = ascii "Hg" := rfl
  have hid : (s.setInput p).input.At ((s.setInput p).input.startPktData + 2) txt := by
    rw [Stub.input_setInput, hcut.start]
    exact Pkt.At.drop (ascii "Hg") hkept
  obtain ⟨cursor', p', -, hext⟩ := extractVal_at hid checkUint32 eob
  have hnum : fieldNumber eob txt = v := by rw [fieldNumber, field_eob, hval]
  refine ⟨p', ?_⟩
  rw [buildH]
  simp only [sadExtractStr, htoken, ok_bind, Stub.input_setInput, hcut.str, field_eob, hcommand,
    if_true, sadExtractUint32]
  rw [Stub.input_setInput] at hext
  rw [hext, hnum]
  by_cases hcheck : checkUint32 v = true
  · rw [if_pos hcheck, if_pos hcheck]
    by_cases hzero : v = 0
    · rw [if_pos hzero, if_pos hzero]
      rfl
    · rw [if_neg hzero, if_neg hzero]
      have hsmp : ((s.setInput p).setInput p').smp = s.smp := rfl
      rw [hsmp]
      by_cases hbig : v - 1 ≥ s.smp
      · rw [if_pos hbig, if_pos hbig]
        rfl
      · rw [if_neg hbig, if_neg hbig]
        rfl
  · rw [if_neg hcheck, if_neg hcheck]
    rfl

def Outside (smp : Nat) (v : Int) : Prop := (smp : Int) < v ∨ v < -1

theorem NoCore.not_mem {c : U8} (h : NoCore n txt) (hc : isHex c = false) (hminus : c ≠ 0x2d) :
    c ∉ txt := by
  obtain ⟨digits, m, hd, ⟨rfl, -⟩ | ⟨rfl, -⟩⟩ := h
  · exact hd.not_mem hc
  · intro hmem
    obtain rfl | hmem := List.mem_cons.mp hmem
    · exact hminus rfl
    · exact hd.not_mem hc hmem

theorem NoCore.outside {rest : List U8} (h : NoCore n txt) (hn : n ≤ maxSmp)
    (hrest : ∀ b ∈ rest.head?, b = 0x3b) : Outside n (strtol16 (txt ++ rest)) := by
  obtain ⟨digits, m, hd, ⟨rfl, hm⟩ | ⟨rfl, hm⟩⟩ := h
  · rw [strtol16_append hd.ne_nil hd.hex hrest, hd.val]
    refine .inl ?_
    simp only [maxSmp, longMax] at hn ⊢
    omega
  · rw [strtol16_neg hd.ne_nil hd.hex hrest, hd.val]
    refine .inr ?_
    simp only [longMin]
    omega

theorem NoCore.value (h : NoCore n txt) (hn : n ≤ maxSmp) :
    Outside n (strtol16 (cString txt)) := by
  have hend : ∀ b ∈ ([] : List U8).head?, b = 0x3b := by simp
  have hout := h.outside hn hend
  rwa [List.append_nil, ← cString_of_not_mem (h.not_mem (c := 0) (by decide) (by decide))] at hout

theorem Stub.selectedCore_closeResp (s : Stub ρ) : s.closeResp.selectedCore = s.selectedCore := rfl

theorem Stub.selectedCore_append (s : Stub ρ) (l : List U8) :
    (s.append l).selectedCore = s.selectedCore := rfl

theorem refuses_of_builder {cmd : U8} {l : List U8} {p : Pkt} (h : input.Holds (cmd :: l) post)
    (hE : builder ops cmd (s.asked input) = .ok (((s.asked input).setInput p).appendStr "E")) :
    Refuses ops s input := by
  refine ⟨_, respond_of_append h hE (Stub.output_setInput _ _), ?_⟩
  rw [Stub.selectedCore_closeResp, Stub.selectedCore_append]
  rfl

theorem smp_le (s : Stub ρ) : (s.smp : Nat) ≤ maxSmp := Nat.le_of_lt_succ s.smp.isLt

theorem checkUint32_eq {v : Int} : checkUint32 v = true ↔ v ≤ 2 ^ 32 - 1 ∧ 0 ≤ v := by
  simp [checkUint32]

theorem respond_Hg (ops : SysOps ρ) (h : input.Holds (ascii "Hg" ++ txt) post)
    (hval : strtol16 (cString txt) = v) :
    (∀ k < (s.smp : Nat), v = k + 1 →
      ∃ s₁, respond ops s input = .ok (ascii "OK", s₁) ∧ s₁.selectedCore = k) ∧
    (Outside s.smp v → Refuses ops s input) := by
  have hholds : input.Holds (0x48 :: (ascii "g" ++ txt)) post := h
  have hat : (s.asked input).input.At (s.asked input).input.startPktData (ascii "Hg" ++ txt) :=
    h.at
  obtain ⟨p, hbuild⟩ := buildH_eq hat hval
  have hbuilder : builder ops 0x48 (s.asked input) = _ := hbuild
  have hle : (s.smp : Nat) ≤ 16 := smp_le s
  refine ⟨fun k hk hv => ?_, fun hout => ?_⟩
  · have hcheck : checkUint32 v = true := by
      rw [checkUint32_eq]
      omega
    have hsmp : ¬ v - 1 ≥ (s.asked input).smp := by
      have hsame : ((s.asked input).smp : Nat) = s.smp := rfl
      omega
    rw [if_pos hcheck, if_neg (by omega), if_neg hsmp] at hbuilder
    refine ⟨_, respond_of_builder hholds hbuilder rfl, ?_⟩
    have hselected : (v - 1).toNat = k := by omega
    exact hselected
  · have hE : builder ops 0x48 (s.asked input) =
        .ok (((s.asked input).setInput p).appendStr "E") := by
      by_cases hcheck : checkUint32 v = true
      · have hpos := checkUint32_eq.mp hcheck
        have hsmp : v - 1 ≥ (s.asked input).smp := by
          have hsame : ((s.asked input).smp : Nat) = s.smp := rfl
          unfold Outside at hout
          omega
        rw [hbuilder, if_pos hcheck, if_neg (by unfold Outside at hout; omega), if_pos hsmp]
      · rw [hbuilder, if_neg hcheck]
    exact refuses_of_builder hholds hE

end

-- ---------------------------------------------------------------------------
-- `vCont`
-- ---------------------------------------------------------------------------

section
variable {ρ : Type} {ops : SysOps ρ} {s s₁ : Stub ρ} {p input : Pkt} {l txt rest : List U8}
variable {v : Int} {k cursor : Nat} {action b c : U8}

theorem Pkt.At.read (h : p.At cursor (b :: l)) : p.read cursor = .ok b := by
  obtain ⟨front, back, hdata, -, rfl, -⟩ := h
  exact read_append_right (i := 0) hdata rfl

theorem field_rest (hc : c ∉ txt) (rest : List U8) :
    ∃ rest', rest' <+: rest ∧ (field (some c) (txt ++ rest)).1 = txt ++ rest' := by
  obtain ⟨hfield, -⟩ | ⟨c', b, tok, r, hterm, hl, -, hfield⟩ := field_cases (some c) (txt ++ rest)
  · exact ⟨rest, List.prefix_rfl, by rw [hfield]⟩
  · cases hterm
    rw [hfield]
    obtain ⟨a, htok, hrest⟩ | ⟨a, htxt, hr⟩ := List.append_eq_append_iff.mp hl
    · exact ⟨a, ⟨c :: r, hrest.symm⟩, htok⟩
    · cases a with
      | nil => exact ⟨[], List.nil_prefix, by simpa using htxt.symm⟩
      | cons x a =>
        obtain ⟨rfl, -⟩ := List.cons.inj hr
        refine absurd ?_ hc
        rw [htxt]
        simp

theorem head?_of_prefix {l' : List U8} (h : l <+: l') (hl : ∀ b ∈ l'.head?, b = c) :
    ∀ b ∈ l.head?, b = c := by
  obtain ⟨t, rfl⟩ := h
  cases l with
  | nil => simp
  | cons a l => exact hl

theorem fieldNumber_id (hzero : (0 : U8) ∉ txt) (hcolon : (0x3a : U8) ∉ txt)
    (hrest : ∀ b ∈ rest.head?, b = 0x3b) :
    ∃ rest', (∀ b ∈ rest'.head?, b = 0x3b) ∧
      fieldNumber (some 0x3a) (txt ++ rest) = strtol16 (txt ++ rest') := by
  obtain ⟨rest', hprefix, hfield⟩ := field_rest hcolon rest
  have hall : ∀ b ∈ txt, decide (b ≠ 0) = true := fun b hb =>
    decide_eq_true fun heq => hzero (heq ▸ hb)
  refine ⟨cString rest', ?_, ?_⟩
  · exact head?_of_prefix ((List.takeWhile_prefix _).trans hprefix) hrest
  · rw [fieldNumber, hfield, cString, List.takeWhile_append_of_pos hall]
    rfl

theorem buildv_eq (ops : SysOps ρ) (h : s.input.At s.input.startPktData
      (ascii "vCont;" ++ action :: 0x3a :: l)) (hval : fieldNumber (some 0x3a) l = v) :
    ∃ p, buildv ops s = if checkLong v then vContThread ops (s.setInput p) action v
      else .ok ((s.setInput p).appendStr "E") := by
  have hfield : field (some 0x3b) (ascii "vCont;" ++ action :: 0x3a :: l) =
      (ascii "vCont", some (action :: 0x3a :: l)) :=
    field_append (l := ascii "vCont") (by decide) (by decide)
  obtain ⟨cursor, p, htoken, hcut⟩ := sadCursorTokenizer_at h (some 0x3b)
  rw [hfield] at hcut
  have hat := hcut.next _ rfl
  have hstr : p.str s.input.startPktData = .ok (ascii "vCont") := hcut.str
  have hread : p.read cursor = .ok action := hat.read
  have hcolon : p.read (cursor + 1) = .ok 0x3a := (Pkt.At.drop [action] hat).read
  have hid : (s.setInput p).input.At (cursor + 2) l := Pkt.At.drop [action, 0x3a] hat
  obtain ⟨cursor', p', -, hext⟩ := extractVal_at hid checkLong (some 0x3a)
  have hquery : ¬ ascii "vCont" = ascii "vCont?" := by decide
  refine ⟨p', ?_⟩
  rw [buildv]
  simp only [sadExtractStr, htoken, ok_bind, Stub.input_setInput, hstr, hquery, if_false, if_true,
    hread, hcolon, sadExtractLong, hext, hval]
  rfl

theorem vContThread_core (ops : SysOps ρ) (action : U8) (hk : k < (s.smp : Nat)) :
    vContThread ops s action (k + 1) = vContOn ops s action k := by
  have hin : ¬ ((k : Int) + 1 - 1 ≥ s.smp ∨ (k : Int) + 1 < -1) := by omega
  have hzero : ¬ (k : Int) + 1 = 0 := by omega
  have hpos : 0 < (k : Int) + 1 := by omega
  have hcore : (k : Int) + 1 - 1 = k := by omega
  simp only [vContThread, hzero, hpos, hcore, if_false, if_true]
  rw [if_neg (by omega)]
  rfl

/-- Thread 0, for which the selected core is taken and stepped down from. -/
theorem vContThread_zero (ops : SysOps ρ) (action : U8) :
    vContThread ops s action 0 = vContOn ops s action (s.selectedCore - 1 : Nat) := by
  have hin : ¬ ((0 : Int) - 1 ≥ s.smp ∨ (0 : Int) < -1) := by omega
  have hid : (if 0 < (s.selectedCore : Int) then (s.selectedCore : Int) - 1
      else s.selectedCore) = (s.selectedCore - 1 : Nat) := by
    split <;> omega
  simp only [vContThread, hin, hid, if_false, if_true]
  rfl

theorem vContThread_outside (ops : SysOps ρ) (action : U8) (hout : Outside s.smp v) :
    vContThread ops s action v = .ok (s.appendStr "E") := by
  unfold Outside at hout
  have hno : v - 1 ≥ s.smp ∨ v < -1 := by omega
  rw [vContThread, if_pos hno]
  rfl

theorem respond_v (ops : SysOps ρ) (s : Stub ρ) (h : VContPacket action txt input)
    (hzero : (0 : U8) ∉ txt) (hcolon : (0x3a : U8) ∉ txt) :
    ∃ rest', (∀ b ∈ rest'.head?, b = 0x3b) ∧ ∃ p, ∀ v, strtol16 (txt ++ rest') = v →
      (∀ x, vContThread ops ((s.asked input).setInput p) action v = x → checkLong v = true →
        respond ops s input = (do
          let s ← x
          return (s.closeResp.output.payload, s.closeResp))) ∧
      (Outside s.smp v → Refuses ops s input) := by
  obtain ⟨rest, post, hrest, hholds⟩ := h
  have hpacket : input.Holds (0x76 :: (ascii "Cont;" ++ action :: 0x3a :: (txt ++ rest))) post :=
    hholds
  obtain ⟨rest', hrest', hnum⟩ := fieldNumber_id hzero hcolon hrest
  obtain ⟨p, hbuild⟩ := buildv_eq ops (s := s.asked input) hholds.at hnum
  have hbuilder : builder ops 0x76 (s.asked input) = _ := hbuild
  refine ⟨rest', hrest', p, ?_⟩
  rintro v rfl
  refine ⟨?_, fun hout => ?_⟩
  · rintro x rfl hcheck
    rw [respond_eq ops s hpacket, hbuilder, if_pos hcheck]
  · have hE : builder ops 0x76 (s.asked input) =
        .ok (((s.asked input).setInput p).appendStr "E") := by
      rw [hbuilder]
      split
      · exact vContThread_outside ops action (s := (s.asked input).setInput p) hout
      · rfl
    exact refuses_of_builder hpacket hE

theorem checkLong_ofNat {n : Nat} (h : n < 2 ^ 32) : checkLong n = true := by
  simp only [checkLong, longMax, longMin]
  simp
  omega

theorem vContNames_succ (ops : SysOps ρ) (h : Spells txt (k + 1)) (hk : k < (s.smp : Nat)) :
    VContNames ops s txt k := by
  intro action input hpacket
  have hle : (s.smp : Nat) ≤ 16 := smp_le s
  obtain ⟨rest', hrest', p, hresp⟩ := respond_v ops s hpacket (h.not_mem (by decide))
    (h.not_mem (by decide))
  have hval : strtol16 (txt ++ rest') = ((k : Int) + 1) := by
    rw [strtol16_append h.ne_nil h.hex hrest', h.val]
    simp only [longMax]
    omega
  exact ⟨p, (hresp _ hval).1 _ (vContThread_core ops action hk)
    (checkLong_ofNat (n := k + 1) (by omega))⟩

theorem vContNames_zero (ops : SysOps ρ) (h : Spells txt 0) :
    VContNames ops s txt (s.selectedCore - 1) := by
  intro action input hpacket
  obtain ⟨rest', hrest', p, hresp⟩ := respond_v ops s hpacket (h.not_mem (by decide))
    (h.not_mem (by decide))
  have hval : strtol16 (txt ++ rest') = 0 := by
    rw [strtol16_append h.ne_nil h.hex hrest', h.val]
    rfl
  exact ⟨p, (hresp _ hval).1 _ (vContThread_zero ops action) (by decide)⟩

end

-- ---------------------------------------------------------------------------
-- Queries
-- ---------------------------------------------------------------------------

section
variable {ρ : Type} {ops : SysOps ρ} {s s₁ : Stub ρ} {input : Pkt} {l txt post pre : List U8}
variable {v : Int} {k : Nat}

theorem buildq_plain (ops : SysOps ρ) (h : s.input.Holds l post) (hcolon : (0x3a : U8) ∉ l)
    (hcomma : (0x2c : U8) ∉ l) (hzero : (0 : U8) ∉ l)
    (hname : l.take 16 ≠ ascii "qThreadExtraInfo") :
    ∃ p, buildq ops s = .ok ((s.setInput p).append (queryReply s l)) := by
  obtain ⟨pre, hdata, hstart, hend⟩ := h
  have hstop {c : U8} (hc : c ∉ l) : ∀ x ∈ l.tail, some c ≠ some x := by
    rintro x hx ⟨⟩
    exact hc (List.mem_of_mem_tail hx)
  have htoken := sadCursorTokenizer_eq hdata (hstop hcolon) (.inl hend)
  obtain ⟨p, hp⟩ : ∃ p : Pkt, p = { s.input with data := pre ++ (l ++ 0 :: post) } := ⟨_, rfl⟩
  have hpdata : p.data = pre ++ (l ++ 0 :: post) := by rw [hp]
  have hpend : p.endPktData = pre.length + l.length := by rw [hp, ← hend]
  rw [← hp] at htoken
  have htoken' := sadCursorTokenizer_eq hpdata (hstop hcomma) (.inl hpend)
  obtain ⟨p', hp'⟩ : ∃ p' : Pkt, p' = { p with data := pre ++ (l ++ 0 :: post) } := ⟨_, rfl⟩
  rw [← hp'] at htoken'
  have hstr : p'.str pre.length = .ok l := by
    rw [← cString_of_not_mem hzero]
    exact str_eq (by rw [hp'])
  refine ⟨p', ?_⟩
  rw [buildq]
  simp only [hstart, sadExtractStr, htoken, ok_bind, Stub.input_setInput, htoken', hstr, hname,
    if_false]
  rfl

theorem query_tokens {p₀ : Pkt} {name : List U8} {n : Nat} (hlength : name.length = n + 1)
    (hdata : p₀.data = pre ++ (name ++ 0x2c :: txt ++ 0x23 :: post))
    (hend : p₀.endPktData = pre.length + (name ++ 0x2c :: txt).length)
    (hname : (0x3a : U8) ∉ name ∧ (0x2c : U8) ∉ name ∧ (0 : U8) ∉ name)
    (hcolon : (0x3a : U8) ∉ txt) :
    ∃ c₁ p₁ c₂ p₂ c₃ p₃, sadCursorTokenizer p₀ pre.length (some 0x3a) = .ok (pre.length, c₁, p₁) ∧
      sadCursorTokenizer p₁ pre.length (some 0x2c) = .ok (pre.length, c₂, p₂) ∧
      sadCursorTokenizer p₂ c₂ eob = .ok (c₂, c₃, p₃) ∧ p₂.str pre.length = .ok name ∧
      p₃.str c₂ = .ok (cString txt) ∧ p₃.str pre.length = .ok name := by
  obtain ⟨hname₁, hname₂, hzero⟩ := hname
  have hstop₁ : ∀ x ∈ (name ++ 0x2c :: txt).tail, some 0x3a ≠ some x := by
    rintro x hx ⟨⟩
    obtain hx | hx := List.mem_append.mp (List.mem_of_mem_tail hx)
    · exact hname₁ hx
    · obtain hx | hx := List.mem_cons.mp hx
      · cases hx
      · exact hcolon hx
  have htoken₁ := sadCursorTokenizer_eq hdata hstop₁ (.inl hend)
  obtain ⟨p₁, hp₁⟩ : ∃ p : Pkt,
      p = { p₀ with data := pre ++ (name ++ 0x2c :: txt ++ 0 :: post) } := ⟨_, rfl⟩
  rw [← hp₁] at htoken₁
  have hdata₁ : p₁.data = pre ++ (name ++ 0x2c :: (txt ++ 0 :: post)) := by simp [hp₁]
  have hend₁ : p₁.endPktData = pre.length + (name ++ 0x2c :: txt).length := by rw [hp₁, ← hend]
  have hstop₂ : ∀ x ∈ name.tail, some 0x2c ≠ some x := by
    rintro x hx ⟨⟩
    exact hname₂ (List.mem_of_mem_tail hx)
  have hlt : pre.length + name.length < p₁.endPktData := by
    rw [hend₁, List.length_append, List.length_cons]
    omega
  have hne : name ≠ [] := by
    rintro rfl
    cases hlength
  have htoken₂ := sadCursorTokenizer_eq hdata₁ hstop₂ (.inr ⟨hlt, hne, rfl⟩)
  obtain ⟨p₂, hp₂⟩ : ∃ p : Pkt, p = { p₁ with data := pre ++ (name ++ 0 :: (txt ++ 0 :: post)) } :=
    ⟨_, rfl⟩
  rw [← hp₂] at htoken₂
  have hfront : (pre ++ (name ++ [0])).length = pre.length + (name.length + 1) := by simp
  have hdata₂ : p₂.data = (pre ++ (name ++ [0])) ++ (txt ++ 0 :: post) := by simp [hp₂]
  have hend₂ : p₂.endPktData = (pre ++ (name ++ [0])).length + txt.length := by
    have hsame : p₂.endPktData = p₁.endPktData := by rw [hp₂]
    rw [hsame, hend₁, hfront, List.length_append, List.length_cons]
    omega
  have hstop₃ : ∀ x ∈ txt.tail, eob ≠ some x := fun _ _ => by rintro ⟨⟩
  have htoken₃ := sadCursorTokenizer_eq hdata₂ hstop₃ (.inl hend₂)
  rw [hfront] at htoken₃
  have hstr {p : Pkt} (hp : p.data = pre ++ (name ++ 0 :: (txt ++ 0 :: post))) :
      p.str pre.length = .ok name := by
    rw [← cString_of_not_mem hzero]
    exact str_eq hp
  refine ⟨_, p₁, _, p₂, _, _, htoken₁, htoken₂, htoken₃, hstr (by rw [hp₂]), ?_, hstr (by simp)⟩
  rw [← hfront]
  exact str_eq rfl

theorem buildq_info (ops : SysOps ρ) (h : s.input.Holds (ascii "qThreadExtraInfo," ++ txt) post)
    (hcolon : (0x3a : U8) ∉ txt) (hval : strtol16 (cString txt) = v) :
    ∃ p, buildq ops s = .ok (if checkUint32 v = true ∧ ¬ (v - 1) % 2 ^ 32 ≥ s.smp then
        (s.setInput p).append
          ((coreName (ops.hsmState s.target.mgr (v - 1).toNat)).flatMap hexPair)
      else (s.setInput p).appendStr "E") := by
  have hcomma : ascii "qThreadExtraInfo," = ascii "qThreadExtraInfo" ++ [0x2c] := rfl
  rw [hcomma, List.append_assoc, List.singleton_append] at h
  obtain ⟨pre, hdata, hstart, hend⟩ := h
  obtain ⟨c₁, p₁, c₂, p₂, c₃, p₃, htoken₁, htoken₂, htoken₃, hname, hid, hname'⟩ :=
    query_tokens (n := 15) rfl hdata hend (by decide) hcolon
  have htake : (ascii "qThreadExtraInfo").take 16 = ascii "qThreadExtraInfo" := rfl
  refine ⟨p₃, ?_⟩
  rw [buildq]
  simp only [hstart, sadExtractStr, htoken₁, ok_bind, Stub.input_setInput, htoken₂, hname, htake,
    if_true, extractVal, sadExtractUint32, sadExtract, htoken₃, hid, hval, pure, Except.pure]
  by_cases hcheck : checkUint32 v = true
  · simp only [hcheck, if_true, true_and]
    have hsmp : ((((s.setInput p₁).setInput p₂).setInput p₃).smp : Nat) = s.smp := rfl
    rw [hsmp]
    by_cases hbig : (v - 1) % 2 ^ 32 ≥ s.smp
    · rw [if_pos hbig, if_neg (not_not.mpr hbig)]
      rfl
    · have hinput (l : List U8) :
          ((((s.setInput p₁).setInput p₂).setInput p₃).append l).input = p₃ := rfl
      rw [if_neg hbig, if_pos hbig]
      have hquiet (s : Stub ρ) : queryReply s (ascii "qThreadExtraInfo") = [] := rfl
      have hnil (s : Stub ρ) : s.append [] = s := by simp [Stub.append, Pkt.append]
      simp only [hinput, hname', ok_bind, hquiet, hnil, hexChars_eq rfl]
      rfl
  · simp only [hcheck]
    rfl

theorem respond_info (ops : SysOps ρ) (h : input.Holds (ascii "qThreadExtraInfo," ++ txt) post)
    (hcolon : (0x3a : U8) ∉ txt) (hval : strtol16 (cString txt) = v) :
    (∀ k < (s.smp : Nat), v = k + 1 → ∃ s₁, respond ops s input =
      .ok ((coreName (ops.hsmState s.target.mgr k)).flatMap hexPair, s₁)) ∧
    (Outside s.smp v → Refuses ops s input) := by
  have hholds : input.Holds (0x71 :: (ascii "ThreadExtraInfo," ++ txt)) post := h
  have hasked : (s.asked input).input.Holds (ascii "qThreadExtraInfo," ++ txt) post := h
  obtain ⟨p, hbuild⟩ := buildq_info ops hasked hcolon hval
  have hbuilder : builder ops 0x71 (s.asked input) = _ := hbuild
  have hle : (s.smp : Nat) ≤ 16 := smp_le s
  have hsame : ((s.asked input).smp : Nat) = s.smp := rfl
  refine ⟨fun k hk hv => ?_, fun hout => ?_⟩
  · have hin : checkUint32 v = true ∧ ¬ (v - 1) % 2 ^ 32 ≥ (s.asked input).smp := by
      rw [checkUint32_eq, hsame]
      omega
    have hcore : (v - 1).toNat = k := by omega
    rw [if_pos hin, hcore] at hbuilder
    exact ⟨_, respond_of_append hholds hbuilder (Stub.output_setInput _ _)⟩
  · have hno : ¬ (checkUint32 v = true ∧ ¬ (v - 1) % 2 ^ 32 ≥ (s.asked input).smp) := by
      rw [checkUint32_eq, hsame]
      unfold Outside at hout
      omega
    rw [if_neg hno] at hbuilder
    exact refuses_of_builder hholds hbuilder

theorem respond_query (ops : SysOps ρ) (s : Stub ρ) (h : input.Holds (0x71 :: l) post)
    (hcolon : (0x3a : U8) ∉ 0x71 :: l) (hcomma : (0x2c : U8) ∉ 0x71 :: l)
    (hzero : (0 : U8) ∉ 0x71 :: l) (hname : (0x71 :: l).take 16 ≠ ascii "qThreadExtraInfo") :
    ∃ s₁, respond ops s input = .ok (queryReply s (0x71 :: l), s₁) := by
  have hasked : (s.asked input).input.Holds (0x71 :: l) post := h
  obtain ⟨p, hbuild⟩ := buildq_plain ops hasked hcolon hcomma hzero hname
  have hbuilder : builder ops 0x71 (s.asked input) = _ := hbuild
  exact ⟨_, respond_of_append h hbuilder (Stub.output_setInput _ _)⟩

-- ---------------------------------------------------------------------------
-- What is printed
-- ---------------------------------------------------------------------------

theorem flatMap_append_intercalate {α : Type} (f : α → List U8) (sep : List U8) (xs : List α)
    (y : α) : xs.flatMap (fun x => f x ++ sep) ++ f y =
      List.intercalate sep ((xs ++ [y]).map f) := by
  induction xs with
  | nil => simp [List.intercalate]
  | cons x xs ih =>
    rw [List.flatMap_cons, List.append_assoc, ih]
    cases xs with
    | nil => simp [List.intercalate]
    | cons x' xs => simp [List.intercalate]

theorem threadInfo_eq {smp : Nat} (h : 0 < smp) : threadInfo smp = ascii "m" ++
    List.intercalate (ascii ",") ((List.range smp).map idText) := by
  obtain ⟨n, rfl⟩ : ∃ n, smp = n + 1 := ⟨smp - 1, by omega⟩
  have hmax : max 1 (n + 1) = n + 1 := by omega
  have hrange : List.range' 1 (n + 1 - 1) = (List.range n).map (· + 1) := by
    rw [Nat.add_sub_cancel, List.range'_eq_map_range]
    simp [Nat.add_comm]
  rw [threadInfo, hmax, hrange, List.flatMap_map, List.append_assoc, List.range_succ,
    ← flatMap_append_intercalate]
  rfl

theorem queryReply_current (s : Stub ρ) :
    queryReply s (ascii "qC") = ascii "QC" ++ idText s.selectedCore := by
  unfold queryReply
  rw [if_neg (by decide), if_neg (by decide), if_neg (by decide), if_pos rfl, if_neg (by decide)]
  simp only [List.nil_append, List.append_nil, idText]

theorem queryReply_list (s : Stub ρ) : queryReply s (ascii "qfThreadInfo") = threadInfo s.smp := by
  unfold queryReply
  rw [if_neg (by decide), if_pos rfl, if_neg (by decide), if_neg (by decide), if_neg (by decide)]
  simp only [List.nil_append, List.append_nil]

theorem printD_id (hk : k < 16) : printD (BitVec.ofNat 32 (k + 1)) = idText k := by
  have hnat : (BitVec.ofNat 32 (k + 1)).toNat = k + 1 := by
    rw [BitVec.toNat_ofNat]
    omega
  have hint : (BitVec.ofNat 32 (k + 1)).toInt = (k + 1 : Nat) := by
    rw [BitVec.toInt_eq_toNat_of_lt (by omega), hnat]
  have hpos : ¬ (BitVec.ofNat 32 (k + 1)).toInt < 0 := by
    rw [hint]
    omega
  rw [printD, if_neg hpos, hnat, idText]

theorem append_append (s : Stub ρ) (l l' : List U8) :
    (s.append l).append l' = s.append (l ++ l') := by
  simp [Stub.append, Pkt.append]

theorem haltReply_eq (ops : SysOps ρ) (s : Stub ρ) {threadId : Int}
    (hid : threadId = k ∨ (threadId = -1 ∧ s.sadBreakpointHartid = some k)) (hk : k < 16) :
    ∃ regs, haltReply ops s threadId = s.append (ascii "T05swbreak:;thread:" ++ idText k ++
      ascii ";core:" ++ idText k ++ ascii ";" ++ regs) := by
  have hhalter : (if threadId = -1 then (s.append (ascii "T05swbreak:;")).sadBreakpointHartid
      else some threadId.toNat) = some k := by
    obtain rfl | ⟨rfl, hfind⟩ := hid
    · rw [if_neg (by omega), Int.toNat_natCast]
    · rw [if_pos rfl]
      exact hfind
  have hopen : ascii "T05swbreak:;" ++ ascii "thread:" = ascii "T05swbreak:;thread:" := rfl
  have hnext : ascii ";" ++ ascii "core:" = ascii ";core:" := rfl
  refine ⟨(List.range regsNum).flatMap fun regId => print02x regId ++ ascii ":" ++
    hexChars ops regStrBytes (bytesOf (s.target.readReg k regId) regBytes) ++ ascii ";", ?_⟩
  unfold haltReply
  simp only [Stub.appendStr, hhalter, printD_id hk, append_append]
  rw [← hopen, ← hnext]
  simp only [List.append_assoc]
  rfl

end

-- ---------------------------------------------------------------------------
-- Runs
-- ---------------------------------------------------------------------------

def Stub.SameCores {ρ : Type} (s s' : Stub ρ) : Prop :=
  s'.smp = s.smp ∧ s'.selectedCore = s.selectedCore

def Exchange {ρ : Type} (ops : SysOps ρ) (s : Stub ρ) (input : Pkt) (s' : Stub ρ) : Prop :=
  ∃ reply, respond ops s input = .ok (reply, s')

section
variable {ρ : Type} {ops : SysOps ρ} {s s₁ : Stub ρ} {Q : Stub ρ → Prop} {cursor : Nat}
variable {term : Term}

theorem ensures_extractVal {extract} {next}
    (hE : ∀ p, Q ((s.setInput p).appendStr "E"))
    (hnext : ∀ val cursor p, Ensures (next val cursor (s.setInput p)) Q) :
    Ensures (extractVal extract s cursor term next) Q := by
  refine Ensures.bind Ensures.trivial fun r _ => ?_
  obtain ⟨val, cursor', p⟩ := r
  cases val with
  | none => exact .pure (hE p)
  | some val => exact hnext val cursor' p

theorem Stub.Acts.sameCores (h : s.Acts s₁) : s.SameCores s₁ := by
  obtain ⟨target, breakpoints, rfl⟩ := h
  exact ⟨rfl, rfl⟩

namespace Stub.SameCores

variable {s₂ : Stub ρ} {p : Pkt} {l : List U8} {target : Target ρ}

theorem refl (s : Stub ρ) : s.SameCores s := ⟨rfl, rfl⟩

theorem trans (h : s.SameCores s₁) (h' : s₁.SameCores s₂) : s.SameCores s₂ :=
  ⟨h'.1.trans h.1, h'.2.trans h.2⟩

theorem setInput (h : s.SameCores s₁) : s.SameCores (s₁.setInput p) := h

theorem append (h : s.SameCores s₁) : s.SameCores (s₁.append l) := h

theorem written (h : s.SameCores s₁) : s.SameCores (({ s₁ with target } : Stub ρ).append l) := h

/-- What is left of a builder behind a number is proved of any state with the same cores. -/
theorem extractVal {extract} {next} (h : s.SameCores s₁)
    (hnext : ∀ val cursor s₂, s.SameCores s₂ → Ensures (next val cursor s₂) s.SameCores) :
    Ensures (SwitchV32.extractVal extract s₁ cursor term next) s.SameCores :=
  ensures_extractVal (fun _ => h.setInput.append) fun val cursor _ => hnext val cursor _ h.setInput

end Stub.SameCores

theorem buildp_cores : Ensures (buildp ops s) s.SameCores := by
  refine (Stub.SameCores.refl s).extractVal fun regId cursor s₁ h => ?_
  exact .ite (fun _ => .pure h.append) fun _ => .pure h.append

theorem buildP_cores : Ensures (buildP s) s.SameCores := by
  refine (Stub.SameCores.refl s).extractVal fun regId cursor s₁ h => ?_
  refine h.extractVal fun reg cursor' s₂ h => ?_
  exact .ite (fun _ => .pure h.append) fun _ => .pure h.written

theorem buildG_cores : Ensures (buildG ops s) s.SameCores := by
  refine Ensures.bind .trivial fun r _ => ?_
  obtain ⟨start, cursor, input⟩ := r
  have hinput : s.SameCores (s.setInput input) := (Stub.SameCores.refl s).setInput
  refine Ensures.bind .trivial fun regsStr _ => ?_
  exact .ite (fun _ => .pure hinput.append) fun _ => .pure hinput.written

theorem buildm_cores : Ensures (buildm ops s) s.SameCores := by
  refine (Stub.SameCores.refl s).extractVal fun addr cursor s₁ h => ?_
  refine h.extractVal fun length cursor' s₂ h => ?_
  refine .ite (fun _ => .pure h.append) fun _ => ?_
  refine Ensures.bind .trivial fun _ _ => ?_
  exact Ensures.bind .trivial fun mem _ => .pure h.append

theorem buildM_cores : Ensures (buildM ops s) s.SameCores := by
  refine (Stub.SameCores.refl s).extractVal fun addr cursor s₁ h => ?_
  refine h.extractVal fun length cursor' s₂ h => ?_
  refine .ite (fun _ => .pure h.append) fun _ => ?_
  refine Ensures.bind .trivial fun r _ => ?_
  obtain ⟨start, cursor, input⟩ := r
  have hinput := h.setInput (p := input)
  refine Ensures.bind .trivial fun memStr _ => ?_
  refine .ite (fun _ => .pure hinput.append) fun _ => ?_
  refine Ensures.bind .trivial fun _ _ => ?_
  exact Ensures.bind .trivial fun target _ => .pure hinput.written

theorem breakpointReply_cores {type addr kind : Int} {expected : BrkRet}
    {call : Stub ρ → BitVec 64 → Except BuildFault (BrkRet × Stub ρ)} (h : s.SameCores s₁)
    (hcall : ∀ addr ret s', call s₁ addr = .ok (ret, s') → s₁.Acts s') :
    Ensures (breakpointReply s₁ type addr kind expected call) s.SameCores := by
  refine .ite (fun _ => .pure h.append) fun _ => ?_
  refine .ite (fun _ => .pure h.append) fun _ => ?_
  refine .ite (fun _ => .pure h.append) fun _ => ?_
  refine Ensures.bind (P := fun r => s₁.Acts r.2) (fun r hr => hcall _ r.1 r.2 hr) fun r hr => ?_
  have hcores := h.trans hr.sameCores
  exact .ite (fun _ => .pure hcores.append) fun _ => .pure hcores.append

theorem buildZ_cores : Ensures (buildZ s) s.SameCores := by
  refine (Stub.SameCores.refl s).extractVal fun type cursor s₁ h => ?_
  refine h.extractVal fun addr cursor s₂ h => ?_
  refine h.extractVal fun kind cursor s₃ h => ?_
  exact breakpointReply_cores h fun _ _ _ => insertBreakpoint_acts

theorem buildz_cores : Ensures (buildz s) s.SameCores := by
  refine (Stub.SameCores.refl s).extractVal fun type cursor s₁ h => ?_
  refine h.extractVal fun addr cursor s₂ h => ?_
  refine h.extractVal fun kind cursor s₃ h => ?_
  exact breakpointReply_cores h fun _ _ _ => removeBreakpoint_acts

theorem buildQ_cores : Ensures (buildQ s) s.SameCores := by
  refine Ensures.bind .trivial fun r _ => ?_
  refine Ensures.bind .trivial fun command _ => ?_
  exact .ite (fun _ => .pure ⟨rfl, rfl⟩) fun _ => .pure ⟨rfl, rfl⟩

theorem buildq_cores : Ensures (buildq ops s) s.SameCores := by
  refine Ensures.bind .trivial fun r _ => ?_
  refine Ensures.bind .trivial fun r' _ => ?_
  have hinput := ((Stub.SameCores.refl s).setInput (p := r.2.2)).setInput (p := r'.2.2)
  refine Ensures.bind .trivial fun commandExtra _ => ?_
  refine .ite (fun _ => ?_) fun _ => ?_
  · refine hinput.extractVal fun threadId cursor s₁ h => ?_
    refine .ite (fun _ => .pure h.append) fun _ => ?_
    exact Ensures.bind .trivial fun command _ => .pure h.append.append
  · exact Ensures.bind .trivial fun command _ => .pure hinput.append

theorem received_cores (s : Stub ρ) (rd : ReadResult) (socket : List ReadResult) :
    s.SameCores (s.received rd socket) := by
  cases rd <;> exact ⟨rfl, rfl⟩

theorem waitForHalt_cores (s : Stub ρ) (socket : List ReadResult) :
    Ensures (waitForHalt ops s socket) fun r => s.SameCores r.2 := by
  induction socket generalizing s with
  | nil => exact .error
  | cons rd socket ih =>
    have hread := received_cores s rd socket
    refine Ensures.bind .trivial fun last _ => .ite (fun _ => ?_) fun _ => ?_
    · exact Ensures.bind .trivial fun target _ => .pure hread
    · split
      · exact .pure hread
      · exact (ih _).mono fun r hr => hread.trans hr

theorem haltReply_cores (threadId : Int) : s.SameCores (haltReply ops s threadId) := by
  unfold haltReply
  dsimp only
  have hstop : s.SameCores (s.appendStr "T05swbreak:;") := (Stub.SameCores.refl s).append
  split
  · exact hstop
  · exact hstop.append.append.append

theorem vContThread_cores {action : U8} {threadId : Int} :
    Ensures (vContThread ops s action threadId) s.SameCores := by
  refine .ite (fun _ => .pure ⟨rfl, rfl⟩) fun _ => ?_
  intro s' hs'
  obtain ⟨r, hr, hs'⟩ := bind_eq_ok.mp hs'
  cases r with
  | none =>
    cases hs'
    exact ⟨rfl, rfl⟩
  | some s₁ =>
    have hacts := (vContAction_acts hr).sameCores
    refine Ensures.bind (waitForHalt_cores s₁ s₁.socket) (fun r hr => ?_) s' hs'
    have hwait := hacts.trans hr
    exact .ite (fun _ => .pure hwait) fun _ => .pure (hwait.trans (haltReply_cores _))

theorem buildv_cores : Ensures (buildv ops s) s.SameCores := by
  refine Ensures.bind .trivial fun r _ => ?_
  obtain ⟨start, cursor, input⟩ := r
  have hinput : s.SameCores (s.setInput input) := (Stub.SameCores.refl s).setInput
  refine Ensures.bind .trivial fun command _ => ?_
  refine .ite (fun _ => .pure hinput.append) fun _ => .ite (fun _ => ?_) fun _ => .pure hinput
  refine Ensures.bind .trivial fun action _ => Ensures.bind .trivial fun next _ => ?_
  refine .ite (fun _ => ?_) fun _ => vContThread_cores.mono fun _ h => hinput.trans h
  refine hinput.extractVal fun threadId cursor' s₁ h => ?_
  exact vContThread_cores.mono fun _ h' => h.trans h'

def Stub.InCores (s s' : Stub ρ) : Prop :=
  s'.smp = s.smp ∧ (s.selectedCore < (s.smp : Nat) → s'.selectedCore < (s.smp : Nat))

theorem Stub.SameCores.inCores (h : s.SameCores s₁) : s.InCores s₁ :=
  ⟨h.1, fun hlt => h.2 ▸ hlt⟩

theorem buildH_cores : Ensures (buildH s) s.InCores := by
  refine Ensures.bind .trivial fun r _ => ?_
  refine Ensures.bind .trivial fun command _ => ?_
  refine .ite (fun _ => ?_) fun _ => .pure ⟨rfl, id⟩
  refine ensures_extractVal (fun _ => ⟨rfl, id⟩) fun threadId cursor p => ?_
  refine .ite (fun _ => .pure ⟨rfl, fun hlt => ?_⟩) fun hzero => ?_
  · exact Nat.zero_lt_of_lt hlt
  · refine .ite (fun _ => .pure ⟨rfl, id⟩) fun hsmp => .pure ⟨rfl, fun hlt => ?_⟩
    have hbelow : ¬ threadId - 1 ≥ s.smp := hsmp
    have hselected : (threadId - 1).toNat < (s.smp : Nat) := by omega
    exact hselected

theorem supportedBuilders_cores :
    ∀ e ∈ supportedBuilders ops, Ensures (e.2 s) s.InCores := by
  have hsame {x : Except BuildFault (Stub ρ)} (h : Ensures x s.SameCores) : Ensures x s.InCores :=
    h.mono fun _ h => h.inCores
  simp only [supportedBuilders, List.forall_mem_cons, List.not_mem_nil, false_imp_iff,
    implies_true, and_true]
  exact ⟨hsame buildp_cores, hsame buildP_cores, hsame buildq_cores, hsame buildQ_cores,
    .pure ⟨rfl, id⟩, hsame buildm_cores, hsame buildM_cores, hsame buildG_cores,
    .pure ⟨rfl, id⟩, .pure ⟨rfl, id⟩, hsame buildz_cores, hsame buildZ_cores, buildH_cores,
    hsame buildv_cores, .pure ⟨rfl, id⟩⟩

theorem builder_cores (cmd : U8) : Ensures (builder ops cmd s) s.InCores := by
  unfold builder
  cases hfind : (supportedBuilders ops).find? fun e => e.1 = cmd with
  | none => exact .pure ⟨rfl, id⟩
  | some e => exact supportedBuilders_cores e (List.mem_of_find?_eq_some hfind)

theorem exchange_inCores {input : Pkt} (h : Exchange ops s input s₁) : s.InCores s₁ := by
  obtain ⟨reply, h⟩ := h
  obtain ⟨s₂, hbuild, h⟩ := bind_eq_ok.mp h
  obtain ⟨cmd, -, hbuild⟩ := bind_eq_ok.mp hbuild
  obtain ⟨s₃, hbuilder, hclose⟩ := bind_eq_ok.mp hbuild
  cases h
  cases hclose
  have hcores := builder_cores cmd s₃ hbuilder
  exact hcores

theorem Stub.InCores.trans {s₀ : Stub ρ} (h : s₀.InCores s) (h' : s.InCores s₁) :
    s₀.InCores s₁ :=
  ⟨h'.1.trans h.1, fun hlt => h.1 ▸ h'.2 (h.1.symm ▸ h.2 hlt)⟩

theorem run_inCores {s₀ : Stub ρ} {t : List (Stub ρ × Pkt)} (h : Lts.Run (Exchange ops) s₀ t s) :
    s₀.InCores s :=
  h.inv_all s₀.InCores (fun _ _ _ hs hstep => hs.trans (exchange_inCores hstep)) ⟨rfl, id⟩

-- ---------------------------------------------------------------------------
-- When ids agree
-- ---------------------------------------------------------------------------

theorem names_of_spells (ops : SysOps ρ) {k : Nat} {txt : List U8} (h : Spells txt (k + 1))
    (hk : k < (s.smp : Nat)) : Names ops s txt k := by
  have hle : (s.smp : Nat) ≤ 16 := smp_le s
  have hval : strtol16 (cString txt) = (k + 1 : Nat) := h.number (by omega)
  exact {
    select := fun input post hholds => (respond_Hg ops hholds hval).1 k hk (by simp)
    action := vContNames_succ ops h hk
    info := fun input post hholds =>
      (respond_info ops hholds (h.not_mem (by decide)) hval).1 k hk (by simp) }

theorem refuses_of_noCore (ops : SysOps ρ) {txt : List U8} (h : NoCore s.smp txt) :
    (∀ input post, input.Holds (ascii "Hg" ++ txt) post → Refuses ops s input) ∧
    (∀ action input, VContPacket action txt input → Refuses ops s input) ∧
    ∀ input post, input.Holds (ascii "qThreadExtraInfo," ++ txt) post → Refuses ops s input := by
  have hcolon : (0x3a : U8) ∉ txt := h.not_mem (by decide) (by decide)
  have hzero : (0 : U8) ∉ txt := h.not_mem (by decide) (by decide)
  have hval := h.value (smp_le s)
  refine ⟨fun input post hholds => ?select, fun action input hpacket => ?action,
    fun input post hholds => ?info⟩
  case select => exact (respond_Hg ops hholds rfl).2 hval
  case action =>
    obtain ⟨rest', hrest', p, hresp⟩ := respond_v ops s hpacket hzero hcolon
    exact (hresp _ rfl).2 (h.outside (smp_le s) hrest')
  case info => exact (respond_info ops hholds hcolon rfl).2 hval

theorem idsAgree (ops : SysOps ρ) (hselected : s.selectedCore < (s.smp : Nat))
    (hsmp : (s.smp : Nat) ≤ 9) : IdsAgree ops s where
  selected := hselected
  current input post h := by
    rw [← queryReply_current]
    exact respond_query ops s h (by decide) (by decide) (by decide) (by decide)
  list input post h := by
    rw [← threadInfo_eq (by omega), ← queryReply_list]
    exact respond_query ops s h (by decide) (by decide) (by decide) (by decide)
  halted threadId k hid hk := haltReply_eq ops s hid (by omega)
  names k hk := names_of_spells ops (spells_idText (by omega)) hk
  refused txt h := refuses_of_noCore ops h

theorem not_names_tenth (ops : SysOps ρ) (s : Stub ρ) : ¬ Names ops s (idText 9) 9 := by
  intro hnames
  have hholds := packet_holds (ascii "Hg" ++ idText 9)
  obtain ⟨s₁, hresp, hselected⟩ := hnames.select _ _ hholds
  obtain ⟨hcore, hout⟩ := respond_Hg (s := s) ops hholds (spells_tenth.number (by decide))
  by_cases hsmp : (s.smp : Nat) < 16
  · obtain ⟨s₂, hresp', -⟩ := hout (.inl (by omega))
    cases hresp.symm.trans hresp'
  · obtain ⟨s₂, hresp', hselected'⟩ := hcore 15 (by omega) rfl
    cases hresp.symm.trans hresp'
    omega

theorem idsAgree_iff (ops : SysOps ρ) (hselected : 0 < (s.smp : Nat) → s.selectedCore < s.smp) :
    IdsAgree ops s ↔ 0 < (s.smp : Nat) ∧ (s.smp : Nat) ≤ 9 := by
  constructor
  · intro h
    refine ⟨Nat.zero_lt_of_lt h.selected, Nat.le_of_not_lt fun hsmp => ?_⟩
    exact not_names_tenth ops s (h.names 9 hsmp)
  · rintro ⟨hpos, hsmp⟩
    exact idsAgree ops (hselected hpos) hsmp

/-- Wherever packets lead, ids agree exactly if there are one to nine cores, and thread 0 is the
selected core if that is the first one, or else the core before it. -/
theorem thread_ids {s₀ : Stub ρ} {t : List (Stub ρ × Pkt)} (ops : SysOps ρ)
    (h0 : s₀.selectedCore = 0) (h : Lts.Run (Exchange ops) s₀ t s) :
    s.smp = s₀.smp ∧ (IdsAgree ops s ↔ 0 < (s.smp : Nat) ∧ (s.smp : Nat) ≤ 9) ∧
    (s.selectedCore = 0 → ZeroIsSelected ops s) ∧
    ∀ k, s.selectedCore = k + 1 → ∀ txt, Spells txt 0 → VContNames ops s txt k := by
  have hcores := run_inCores h
  refine ⟨hcores.1, idsAgree_iff ops fun hsmp => ?_, fun hfirst txt htxt => ?_,
    fun k hk txt htxt => ?_⟩
  · rw [hcores.1] at hsmp ⊢
    exact hcores.2 (h0 ▸ hsmp)
  · have hnames := vContNames_zero (s := s) ops htxt
    rw [hfirst] at hnames ⊢
    exact hnames
  · have hnames := vContNames_zero (s := s) ops htxt
    rwa [hk] at hnames

/-- Two cores, after `Hg2`. -/
theorem thread_ids_Hg2 : ∃ s, s.smp = 2 ∧ s.selectedCore = 1 ∧ IdsAgree .idle s ∧
    ∀ txt, Spells txt 0 → VContNames .idle s txt 0 := by
  have hholds : (packet (ascii "Hg2")).Holds (ascii "Hg" ++ ascii "2") [] := packet_holds _
  obtain ⟨s, hresp, hselected⟩ := (respond_Hg (s := .init (.ofWords []) .reset) .idle hholds
    (v := 2) (by decide)).1 1 (by decide) rfl
  obtain ⟨hsmp, hids, -, hzero⟩ := thread_ids .idle rfl (Lts.Run.one ⟨_, hresp⟩)
  have htwo : (s.smp : Nat) = 2 := congrArg _ hsmp
  exact ⟨s, hsmp, hselected, hids.mpr (by omega), hzero 0 hselected⟩

/-- A threads manager in which only the first core continues. -/
def SysOps.firstOnly : SysOps Unit :=
  { SysOps.idle with coreContinue := fun t i => if i = 0 then .ok t else .error .fault }

theorem vContOn_firstOnly {s : Stub Unit} (hreset : s.breakpoints = .reset)
    (hsocket : s.socket = []) (k : Nat) :
    vContOn .firstOnly s 0x63 k = .error (if k = 0 then .waiting else .sys .fault) := by
  have hstep : s.stepTheBreakpoint .firstOnly k = .ok (.notFound, s) := by
    have hfind : ¬ s.breakpoints.FullAt (s.target.readReg k Reg.pc) := by
      rw [hreset]
      exact Breakpoints.not_fullAt_reset
    simp only [Stub.stepTheBreakpoint, Stub.removeBreakpoint, sadRemoveBreakpoint_notFound hfind]
    rfl
  have hall : ¬ (k : Int) = -1 := by omega
  simp only [vContOn, vContAction, hall, if_false, if_true, Int.toNat_natCast, hstep, ok_bind]
  cases k with
  | zero =>
    simp only [SysOps.firstOnly, sysCall, if_true]
    rw [hsocket]
    rfl
  | succ k => rfl

/-- Sixteen cores, and then two of which the second is selected. -/
theorem thread_ids_fail :
    (∃ s₀ : Stub Unit, s₀.smp = 16 ∧ s₀.selectedCore = 0 ∧ ¬ IdsAgree .idle s₀) ∧
    ∃ (s₀ s : Stub Unit) (input : Pkt), s₀.smp = 2 ∧ s₀.selectedCore = 0 ∧
      Lts.Run (Exchange .firstOnly) s₀ [(s₀, input)] s ∧ ¬ ZeroIsSelected .firstOnly s := by
  constructor
  · refine ⟨{ Stub.init (.ofWords []) .reset with smp := 16 }, rfl, rfl, fun h => ?_⟩
    exact not_names_tenth _ _ (h.names 9 (by decide))
  · obtain ⟨s, hresp, hselected, hreset, hsocket⟩ : ∃ s,
        respond .firstOnly (.init (.ofWords []) .reset) (packet (ascii "Hg2")) =
          .ok (ascii "OK", s) ∧ s.selectedCore = 1 ∧ s.breakpoints = .reset ∧ s.socket = [] :=
      ⟨_, rfl, rfl, rfl, rfl⟩
    refine ⟨_, s, _, rfl, rfl, Lts.Run.one ⟨_, hresp⟩, fun hzero => ?_⟩
    have htxt : Spells (ascii "0") 0 := ⟨by decide, by decide, by decide⟩
    have hpacket : VContPacket 0x63 (ascii "0") (packet (ascii "vCont;c:0")) :=
      ⟨[], [], by simp, packet_holds _⟩
    obtain ⟨p, hfirst⟩ := vContNames_zero .firstOnly htxt _ _ hpacket
    obtain ⟨p', hsecond⟩ := hzero _ htxt _ _ hpacket
    have hcontinue (p : Pkt) (k : Nat) := vContOn_firstOnly
      (s := (s.asked (packet (ascii "vCont;c:0"))).setInput p) hreset hsocket k
    rw [hselected, hcontinue] at hfirst hsecond
    cases hfirst.symm.trans hsecond

end

end SwitchV32
