import SwitchV32.Stub.Session

/-!
# Retransmissions

A packet that arrives with a wrong checksum is answered with `-`, and the parser
waits for a `+` then. The client sends the packet alone.
-/

namespace SwitchV32

-- ---------------------------------------------------------------------------
-- What the client sends
-- ---------------------------------------------------------------------------

/-- A transmission with the wrong digits, with or without a `+` in front. -/
structure Corrupted (payload : List U8) where
  plus : Bool
  digit0 : U8
  digit1 : U8
  hex0 : isHex digit0 = true
  hex1 : isHex digit1 = true
  wrong : ¬ Matches payload digit0 digit1

def Corrupted.bytes {payload : List U8} (c : Corrupted payload) : List U8 :=
  (if c.plus then [0x2b] else []) ++ 0x24 :: (payload ++ [0x23, c.digit0, c.digit1])

def retransmission (payload : List U8) : List U8 := (frame payload).tail

/-- The corrupted transmissions and the good one. What is not sent again has the `+` that
acknowledges the reply before it. -/
def transmissions (payload : List U8) (cs : List (Corrupted payload)) : List (List U8) :=
  cs.map Corrupted.bytes ++ [if cs = [] then frame payload else retransmission payload]

/-- The reads of what is sent, each transmission after the answer to the one before. -/
def Delivers (sends : List (List U8)) (socket : List ReadResult) : Prop :=
  ∃ readss, List.Forall₂ Cut sends readss ∧ socket = readss.flatten.map .bytes

/-- Each corrupted transmission is answered with `-`, and the good one goes to the builder. -/
def Recovers {ρ : Type} (ops : SysOps ρ) (s : Stub ρ) (payload : List U8) (n : Nat) : Prop :=
  session ops s = List.replicate n .minus ++ [.accepted payload]

-- ---------------------------------------------------------------------------
-- A packet without a `+`
-- ---------------------------------------------------------------------------

/-- No part of the transmission is the packet with its `+` and the right digits. -/
structure Barren (payload T : List U8) : Prop where
  digits : ∃ front d₀ d₁, T = front ++ [0x23, d₀, d₁] ∧ isHex d₀ = true ∧ isHex d₁ = true
  barren : ∀ pre d₀ d₁ post, T = pre ++ 0x2b :: 0x24 :: (payload ++ 0x23 :: d₀ :: d₁ :: post) →
    ¬ Matches payload d₀ d₁

section
variable {payload T t l₀ l : List U8} {r : Reader}

theorem Corrupted.barren (c : Corrupted payload) : Barren payload c.bytes where
  digits := by
    refine ⟨(if c.plus then [0x2b] else []) ++ 0x24 :: payload, _, _, ?_, c.hex0, c.hex1⟩
    simp [Corrupted.bytes]
  barren pre d₀ d₁ post h := by
    unfold Corrupted.bytes at h
    cases hplus : c.plus with
    | false =>
      have hlen := congrArg List.length h
      simp [hplus] at hlen
      omega
    | true =>
      rw [hplus] at h
      have hlen := congrArg List.length h
      simp at hlen
      obtain rfl : pre = [] := List.length_eq_zero_iff.mp (by omega)
      obtain rfl : post = [] := List.length_eq_zero_iff.mp (by omega)
      simp only [List.nil_append, if_true, List.cons_append, List.cons.injEq,
        List.append_cancel_left_eq, true_and, and_true] at h
      obtain ⟨rfl, rfl⟩ := h
      exact c.wrong

theorem retransmission_barren (payload : List U8) : Barren payload (retransmission payload) where
  digits := by
    refine ⟨0x24 :: payload, _, _, rfl, isHex_hexChar (by omega), isHex_hexChar (by omega)⟩
  barren pre d₀ d₁ post h := by
    have hlen := congrArg List.length h
    simp [retransmission, frame] at hlen
    omega

/-- At the end of a transmission the parser waits for a `+`. -/
theorem Barren.state_reset (hT : Barren payload T) (h : T = l₀ ++ l) (hseen : Seen true l r)
    (hfinal : r.state.final = false) : r.state = .reset := by
  obtain ⟨front, d₀, d₁, hfront, hd₀, hd₁⟩ := hT.digits
  rw [hfront] at h
  unfold Seen at hseen
  cases hr : r.state with
  | reset => rfl
  | nack | error | finished =>
    rw [hr] at hfinal
    cases hfinal
  | start =>
    simp only [hr] at hseen
    obtain ⟨pre, rfl⟩ := List.getLast?_eq_some_iff.mp hseen
    have hlast : (front ++ [0x23, d₀]) ++ [d₁] = (l₀ ++ pre) ++ [0x2b] := by simpa using h
    obtain ⟨-, heq⟩ := List.append_inj' hlast rfl
    obtain rfl : d₁ = 0x2b := List.singleton_inj.mp heq
    cases hd₁
  | skip =>
    simp only [hr] at hseen
    obtain ⟨pre, q, -, hq, rfl, -⟩ := hseen
    have hsplit : front ++ [0x23, d₀, d₁] = (l₀ ++ pre) ++ 0x24 :: q := by simpa using h
    obtain ⟨a, -, htail⟩ | ⟨a, -, htail⟩ := List.append_eq_append_iff.mp hsplit
    · -- the `$` is among the last three bytes
      have hmem : (0x24 : U8) ∈ [0x23, d₀, d₁] := by
        rw [htail]
        simp
      simp only [List.mem_cons, List.not_mem_nil, or_false] at hmem
      obtain heq | rfl | rfl := hmem
      · cases heq
      · cases hd₀
      · cases hd₁
    · have hmem : (0x23 : U8) ∈ 0x24 :: q := by
        rw [htail]
        simp
      obtain heq | hmem := List.mem_cons.mp hmem
      · cases heq
      · exact absurd hmem hq
  | checksumDigit0 =>
    simp only [hr] at hseen
    obtain ⟨pre, q, -, -, rfl, -⟩ := hseen
    have hlast : (front ++ [0x23, d₀]) ++ [d₁] = (l₀ ++ pre ++ 0x24 :: q) ++ [0x23] := by
      simpa using h
    obtain ⟨-, heq⟩ := List.append_inj' hlast rfl
    obtain rfl : d₁ = 0x23 := List.singleton_inj.mp heq
    cases hd₁
  | checksumDigit1 =>
    simp only [hr] at hseen
    obtain ⟨pre, q, -, -, rfl, -⟩ := hseen
    have hlast : (front ++ [0x23]) ++ [d₀, d₁] =
        (l₀ ++ pre ++ 0x24 :: q) ++ [0x23, r.digit0] := by simpa using h
    obtain ⟨-, heq⟩ := List.append_inj' hlast rfl
    obtain rfl : d₀ = 0x23 := (List.cons.inj heq).1
    cases hd₀

theorem Barren.payload_ne (hT : Barren payload T) (h : T = l₀ ++ (l ++ t)) (hseen : Seen true l r)
    (hstate : r.state = .finished) : r.input.payload ≠ payload := by
  rintro rfl
  unfold Seen at hseen
  simp only [hstate] at hseen
  obtain ⟨pre, q, post, hopens, -, rfl, hholds, hsum⟩ := hseen
  obtain ⟨d₀, d₁, post', rfl, hmatches⟩ := hsum trivial
  obtain ⟨pre, rfl⟩ := List.getLast?_eq_some_iff.mp (hopens trivial)
  rw [hholds.payload] at hT
  refine hT.barren (l₀ ++ pre) d₀ d₁ (post' ++ t) ?_ hmatches
  rw [h]
  simp

end

-- ---------------------------------------------------------------------------
-- The session
-- ---------------------------------------------------------------------------

def firstAccepted (events : List Event) : Option (List U8) :=
  events.findSome? fun
    | .accepted payload => some payload
    | .minus => none

section
variable {ρ : Type} {ops : SysOps ρ} {s : Stub ρ} {payload T : List U8}
variable {cs : List (Corrupted payload)}

theorem firstAccepted_sent (output : Pkt) (events : List Event) :
    firstAccepted (shown (sadBuffToSocket output) ++ events) = firstAccepted events := by
  rw [shown_sadBuffToSocket]
  split
  · rfl
  · rfl

theorem firstAccepted_replicate (n : Nat) (payload : List U8) :
    firstAccepted (List.replicate n .minus ++ [.accepted payload]) = some payload := by
  induction n with
  | zero => rfl
  | succ n ih => exact ih

structure Stub.Waits (s : Stub ρ) : Prop where
  caughtUp : s.reader.CaughtUp
  state : s.reader.state = .reset
  ackEnabled : s.ackEnabled = true

/-- Wherever the reads of the transmission are cut, its payload is not the first that is
accepted. -/
theorem Barren.firstAccepted_ne (hT : Barren payload T) (more : List ReadResult)
    {reads : List (List U8)} {l₀ l : List U8} {fuel : Nat}
    (hsplit : T = l₀ ++ (l ++ reads.flatten)) (hread : s.reader.CaughtUp)
    (hseen : Seen true l s.reader) (hfinal : s.reader.state.final = false)
    (hack : s.ackEnabled = true) (hsocket : s.socket = reads.map .bytes ++ more)
    (hmore : ∀ (s' : Stub ρ) fuel, s'.Waits → s'.socket = more →
      firstAccepted (shown (cmdsLoop ops fuel s').1) ≠ some payload) :
    firstAccepted (shown (cmdsLoop ops fuel s).1) ≠ some payload := by
  induction reads generalizing s l₀ l fuel with
  | nil =>
    rw [List.flatten_nil, List.append_nil] at hsplit
    exact hmore s fuel ⟨hread, hT.state_reset hsplit hseen hfinal, hack⟩ hsocket
  | cons rd reads ih =>
    cases fuel with
    | zero => rintro ⟨⟩
    | succ fuel =>
      obtain ⟨events, next, hround, hloop⟩ := cmdsLoop_round ops hread hsocket
      rw [hack] at hround
      have hsplit' : T = l₀ ++ ((l ++ rd) ++ reads.flatten) := by
        rw [hsplit]
        simp
      have hread' : (rd.foldl (scan true) s.reader).CaughtUp := hread.foldl
      have hseen' := hseen.foldl hread rd
      -- after a verdict the rest of the transmission is read from a reset on
      have hreset : T = (l₀ ++ (l ++ rd)) ++ ([] ++ reads.flatten) := by
        rw [hsplit']
        simp
      rw [hloop]
      cases hround with
      | pending h => exact ih hsplit' hread' hseen' h hack rfl
      | error h => exact ih hreset caughtUp_reset (seen_reset _) rfl hack rfl
      | nack h =>
        rw [firstAccepted_sent]
        exact ih hreset caughtUp_reset (seen_reset _) rfl hack rfl
      | fault h hbuild =>
        exact fun heq => hT.payload_ne hsplit' hseen' h (Option.some.inj heq)
      | answered h hbuild =>
        exact fun heq => hT.payload_ne hsplit' hseen' h (Option.some.inj heq)

theorem firstAccepted_ne_all (ops : SysOps ρ) (fuel : Nat) {sends : List (List U8)}
    {readss : List (List (List U8))}
    (hbarren : ∀ T ∈ sends, Barren payload T) (hcut : List.Forall₂ Cut sends readss)
    (hwaits : s.Waits) (hsocket : s.socket = readss.flatten.map .bytes) :
    firstAccepted (shown (cmdsLoop ops fuel s).1) ≠ some payload := by
  induction hcut generalizing s fuel with
  | nil =>
    rw [cmdsLoop_nil hsocket]
    rintro ⟨⟩
  | @cons T reads sends readss hT hcut ih =>
    have hflat : T = [] ++ ([] ++ reads.flatten) := hT.flatten.symm
    refine (hbarren T List.mem_cons_self).firstAccepted_ne (readss.flatten.map .bytes) hflat
      hwaits.caughtUp ?_ ?_ hwaits.ackEnabled (by rw [hsocket]; simp) ?_
    · rw [Seen, hwaits.state]
      trivial
    · rw [hwaits.state]
      rfl
    · exact fun s' fuel hwaits' hsocket' =>
        ih fuel (fun T hmem => hbarren T (List.mem_cons_of_mem _ hmem)) hwaits' hsocket'

theorem foldl_frame_final {l l' : List U8} (r : Reader) (hpayload : (0x23 : U8) ∉ payload)
    (h : l ++ l' = frame payload) (hne : l' ≠ []) :
    (l.foldl (scan true) r.reset).state.final = false := by
  have hskip : ([0x2b, 0x24].foldl (scan true) r.reset).state = .skip := rfl
  have hframe : frame payload = 0x2b :: 0x24 :: (payload ++
      [0x23, hexChar (byteTotal payload % 256 / 16), hexChar (byteTotal payload % 16)]) := rfl
  rw [hframe] at h
  obtain _ | ⟨b, _ | ⟨c, l⟩⟩ := l
  · rfl
  · obtain ⟨rfl, -⟩ := List.cons.inj h
    rfl
  · simp only [List.cons_append, List.cons.injEq] at h
    obtain ⟨rfl, rfl, h⟩ := h
    have hfold : (0x2b :: 0x24 :: l).foldl (scan true) r.reset =
        l.foldl (scan true) ([0x2b, 0x24].foldl (scan true) r.reset) := rfl
    rw [hfold]
    generalize [0x2b, 0x24].foldl (scan true) r.reset = r' at hskip
    obtain ⟨a, rfl, -⟩ | ⟨a, rfl, hdigits⟩ := List.append_eq_append_iff.mp h
    · rw [foldl_scan_skip hskip fun hmem => hpayload (List.mem_append_left _ hmem)]
      exact congrArg ParsState.final hskip
    · -- at most two of the last three bytes
      rw [List.foldl_append, foldl_scan_skip hskip hpayload]
      have hpass : (r'.pass payload).state = .skip := hskip
      generalize r'.pass payload = r'' at hpass
      have hhash : (scan true r'' 0x23).state = .checksumDigit0 := by
        have hstate : (r''.read [0x23]).state = .skip := hpass
        simp only [scan, parseByte, parseState, hstate, if_true]
      obtain _ | ⟨b, _ | ⟨c, _ | ⟨d, a⟩⟩⟩ := a
      · exact congrArg ParsState.final hpass
      · obtain ⟨rfl, -⟩ := List.cons.inj hdigits
        exact congrArg ParsState.final hhash
      · obtain ⟨rfl, -⟩ := List.cons.inj hdigits
        have hdigit : (scan true (scan true r'' 0x23) c).state = .checksumDigit1 := by
          have hstate : ((scan true r'' 0x23).read [c]).state = .checksumDigit0 := hhash
          simp only [scan, parseByte, parseState] at hstate ⊢
          rw [hstate]
        exact congrArg ParsState.final hdigit
      · simp only [List.cons_append, List.cons.injEq] at hdigits
        exact absurd (List.append_eq_nil_iff.mp hdigits.2.2.2.symm).2 hne

theorem frame_events {reads : List (List U8)} {l : List U8} {r : Reader} {fuel : Nat}
    (hpayload : (0x23 : U8) ∉ payload) (hreader : s.reader = l.foldl (scan true) r.reset)
    (hack : s.ackEnabled = true) (hne : ∀ rd ∈ reads, rd ≠ []) (hreads : reads ≠ [])
    (h : l ++ reads.flatten = frame payload) (hsocket : s.socket = reads.map .bytes)
    (hfuel : reads.length < fuel) :
    shown (cmdsLoop ops fuel s).1 = [.accepted payload] := by
  induction reads generalizing s l fuel with
  | nil => exact absurd rfl hreads
  | cons rd reads ih =>
    obtain ⟨fuel, rfl⟩ := Nat.exists_eq_add_one_of_ne_zero (Nat.ne_of_gt (Nat.zero_lt_of_lt hfuel))
    have hread : s.reader.CaughtUp := by
      rw [hreader]
      exact caughtUp_reset.foldl
    obtain ⟨events, next, hround, hloop⟩ := cmdsLoop_round ops hread hsocket
    rw [hack, hreader, ← List.foldl_append] at hround
    rw [hloop]
    have hsplit : (l ++ rd) ++ reads.flatten = frame payload := by
      rw [← h]
      simp
    by_cases hlast : reads = []
    · -- the parser is at the end of the frame, and the client sends nothing more
      subst hlast
      rw [List.flatten_nil, List.append_nil] at hsplit
      have hacc := foldl_scan_accepted r hpayload
      rw [hsplit] at hround
      cases hround with
      | pending hfinal =>
        rw [hacc.state] at hfinal
        cases hfinal
      | error hstate | nack hstate =>
        rw [hacc.state] at hstate
        cases hstate
      | fault => rw [hacc.payload, Option.elim_none, List.append_nil]
      | answered _ hbuild =>
        rename_i s'
        have hnil : s'.resetInput.socket = [] :=
          List.suffix_nil.mp (sadBuilderBuildResp_socket hbuild)
        rw [hacc.payload, Option.elim_some, cmdsLoop_nil hnil, List.append_nil]
    · have hne' : ∀ rd ∈ reads, rd ≠ [] := fun rd' hmem => hne rd' (List.mem_cons_of_mem _ hmem)
      have hrest : reads.flatten ≠ [] := by
        obtain ⟨rd', hmem⟩ := List.exists_mem_of_ne_nil reads hlast
        exact fun hnil => hne' rd' hmem (List.flatten_eq_nil_iff.mp hnil rd' hmem)
      have hfinal := foldl_frame_final r hpayload hsplit hrest
      cases hround with
      | pending _ => exact ih rfl hack hne' hlast hsplit rfl (by simpa using hfuel)
      | error hstate | nack hstate | fault hstate | answered hstate =>
        rw [hstate] at hfinal
        cases hfinal

/-- The packet reaches the builder exactly if it has not been corrupted before. -/
theorem recovers_iff (ops : SysOps ρ) (s : Stub ρ) (hreader : s.reader = s.reader.reset)
    (hack : s.ackEnabled = true) (hhalted : (ops.isHalted s.target).1 = true)
    (hpayload : (0x23 : U8) ∉ payload)
    (hdelivers : Delivers (transmissions payload cs) s.socket) :
    Recovers ops s payload cs.length ↔ cs = [] := by
  obtain ⟨readss, hcut, hsocket⟩ := hdelivers
  rw [Recovers, session_eq hhalted]
  generalize (ops.isHalted s.target).2 = target
  constructor
  · intro h
    by_contra hne
    have hbarren : ∀ T ∈ transmissions payload cs, Barren payload T := by
      intro T hT
      rw [transmissions, if_neg hne, List.mem_append, List.mem_singleton, List.mem_map] at hT
      obtain ⟨c, -, rfl⟩ | rfl := hT
      · exact c.barren
      · exact retransmission_barren payload
    have hwaits : Stub.Waits { s with target } := by
      refine ⟨?_, ?_, hack⟩
      · change s.reader.CaughtUp
        rw [hreader]
        exact caughtUp_reset
      · change s.reader.state = _
        rw [hreader]
        rfl
    refine firstAccepted_ne_all ops (s.socket.length + 1) hbarren hcut hwaits hsocket ?_
    rw [h]
    exact firstAccepted_replicate _ _
  · rintro rfl
    obtain ⟨reads, rfl, hreads⟩ : ∃ reads, readss = [reads] ∧ Cut (frame payload) reads := by
      cases hcut with
      | cons hframe hnil =>
        cases hnil
        exact ⟨_, rfl, hframe⟩
    have hsocket' : s.socket = reads.map .bytes := by simpa using hsocket
    have hne : reads ≠ [] := by
      rintro rfl
      cases hreads.flatten
    refine frame_events (l := []) hpayload (r := s.reader) hreader hack hreads.ne_nil hne
      hreads.flatten hsocket' ?_
    rw [hsocket', List.length_map]
    exact Nat.lt_succ_self _

/-- A `?` that arrives in two reads; and one that arrives with the digits of a `>` first, in two
reads again. -/
theorem recovers_iff_qstmrk :
    Recovers .idle (.connected [ascii "+$?", ascii "#3f"]) (ascii "?") 0 ∧
      ¬ Recovers .idle (.connected [ascii "+$?#", ascii "3e", ascii "$?#3f"]) (ascii "?") 1 := by
  have hcut : Cut (frame (ascii "?")) [ascii "+$?", ascii "#3f"] := ⟨by decide, by decide⟩
  have hdelivers : Delivers (transmissions (ascii "?") [])
      [.bytes (ascii "+$?"), .bytes (ascii "#3f")] := ⟨[[ascii "+$?", ascii "#3f"]],
    .cons hcut .nil, rfl⟩
  have hwrong : ¬ Matches (ascii "?") 0x33 0x65 := by
    unfold Matches
    decide
  have hbad : Cut (ascii "+$?#3e") [ascii "+$?#", ascii "3e"] := ⟨by decide, by decide⟩
  have hagain : Cut (retransmission (ascii "?")) [ascii "$?#3f"] := ⟨by decide, by decide⟩
  have hresends : Delivers
      (transmissions (ascii "?") [⟨true, 0x33, 0x65, by decide, by decide, hwrong⟩])
      [.bytes (ascii "+$?#"), .bytes (ascii "3e"), .bytes (ascii "$?#3f")] :=
    ⟨[[ascii "+$?#", ascii "3e"], [ascii "$?#3f"]], .cons hbad (.cons hagain .nil), rfl⟩
  refine ⟨?_, fun hrecovers => ?_⟩
  · exact (recovers_iff .idle (.connected [ascii "+$?", ascii "#3f"]) rfl rfl rfl (by decide)
      hdelivers).mpr rfl
  · have hnone := (recovers_iff .idle (.connected [ascii "+$?#", ascii "3e", ascii "$?#3f"]) rfl
      rfl rfl (by decide) hresends).mp hrecovers
    cases hnone

/-- A `?` with the digits of a `>`, answered with `-`, and the `?` again. -/
theorem recovers_fails :
    ∃ (c : Corrupted (ascii "?")) (reads : List (List U8)),
      Delivers (transmissions (ascii "?") [c]) (reads.map .bytes) ∧
      session .idle (.connected reads) = [.minus] ∧
      ¬ Recovers .idle (.connected reads) (ascii "?") 1 := by
  have hwrong : ¬ Matches (ascii "?") 0x33 0x65 := by
    unfold Matches
    decide
  have hcut : Cut (ascii "+$?#3e") [ascii "+$?#3e"] := ⟨by decide, by decide⟩
  have hcut' : Cut (retransmission (ascii "?")) [ascii "$?#3f"] := ⟨by decide, by decide⟩
  have hsession : session .idle (.connected [ascii "+$?#3e", ascii "$?#3f"]) = [.minus] := by decide
  refine ⟨⟨true, 0x33, 0x65, by decide, by decide, hwrong⟩, [ascii "+$?#3e", ascii "$?#3f"],
    ⟨_, .cons hcut (.cons hcut' .nil), rfl⟩, hsession, ?_⟩
  rw [Recovers, hsession]
  decide

end

end SwitchV32
