import SwitchV32.Stub.Fields
import SwitchV32.Stub.Reply

/-!
# The loop over the packets of the client

`sad_stub_handle_cmds` of `stub.c`: each read is parsed, and a verdict of the
parser is answered and forgets the read. What the stub writes arrives.
-/

namespace SwitchV32

-- ---------------------------------------------------------------------------
-- The loop
-- ---------------------------------------------------------------------------

/-- What the loop does: a payload goes to the builder, or bytes to the client. -/
inductive CmdsEffect
  | accepted (payload : List U8)
  | wrote (bytes : List U8)
  deriving DecidableEq, Repr

/-- What a session shows: the payloads, and of what is written each `-`. -/
inductive Event
  | accepted (payload : List U8)
  | minus
  deriving DecidableEq, Repr

def CmdsEffect.shown : CmdsEffect → List Event
  | .accepted payload => [.accepted payload]
  | .wrote bytes => if bytes = ascii "-" then [.minus] else []

def shown (effects : List CmdsEffect) : List Event := effects.flatMap CmdsEffect.shown

theorem shown_append (effects effects' : List CmdsEffect) :
    shown (effects ++ effects') = shown effects ++ shown effects' := List.flatMap_append

/-- `STUB_HALTED`, `STUB_SOCKET` and `STUB_CLOSED` -/
inductive CmdsRet
  | halted | socket | closed
  deriving DecidableEq, Repr

inductive CmdsEnd (ρ : Type)
  | returned (ret : CmdsRet) (s : Stub ρ)
  /-- the builder ended without a reply -/
  | fault (e : BuildFault)
  /-- in the read, when the client sends nothing more -/
  | reading (s : Stub ρ)
  /-- still in the loop when the fuel runs out -/
  | looping

def sadBuffToSocket (output : Pkt) : List CmdsEffect := [.wrote output.data]

theorem shown_sadBuffToSocket (output : Pkt) :
    shown (sadBuffToSocket output) = if output.data = ascii "-" then [.minus] else [] :=
  List.append_nil _

variable {ρ : Type}

namespace Stub

def resetInput (s : Stub ρ) : Stub ρ := { s with reader := s.reader.reset }

def resetOutput (s : Stub ρ) : Stub ρ := { s with output := .reset }

def parsed (s : Stub ρ) : Stub ρ := { s with reader := sadParserPkt s.ackEnabled s.reader }

end Stub

section
variable (ops : SysOps ρ)

/-- The branches on the state of the parser. -/
def verdict (s : Stub ρ) : List CmdsEffect × Except BuildFault (Stub ρ) :=
  match s.reader.state with
  | .error =>
    let s := s.resetOutput.appendStr "-"
    (sadBuffToSocket s.output, .ok s.resetInput)
  -- resend
  | .nack => (sadBuffToSocket s.output, .ok s.resetInput)
  | .finished =>
    match sadBuilderBuildResp ops s.resetOutput with
    | .error e => ([.accepted s.input.payload], .error e)
    | .ok s' => (.accepted s.input.payload :: sadBuffToSocket s'.output, .ok s'.resetInput)
  | _ => ([], .ok s)

def cmdsLoop : Nat → Stub ρ → List CmdsEffect × CmdsEnd ρ
  | 0, _ => ([], .looping)
  | fuel + 1, s =>
    match s.socket with
    | [] => ([], .reading s)
    | .error :: socket => ([], .returned .socket { s with socket })
    | .eof :: socket => ([], .returned .closed { s with socket })
    | rd :: socket =>
      match verdict ops (s.received rd socket).parsed with
      | (effects, .error e) => (effects, .fault e)
      | (effects, .ok s) =>
        let (effects', last) := cmdsLoop fuel s
        (effects ++ effects', last)

def sadStubHandleCmds (fuel : Nat) (s : Stub ρ) : List CmdsEffect × CmdsEnd ρ :=
  -- check that all cores are halted before running
  match ops.isHalted s.target with
  | (false, target) => ([], .returned .halted { s with target })
  | (true, target) => cmdsLoop ops fuel { s with target }

/-- The events up to the end of what the client sends. -/
def session (s : Stub ρ) : List Event :=
  shown (sadStubHandleCmds ops (s.socket.length + 1) s).1

end

def Stub.connected (reads : List (List U8)) : Stub Unit :=
  { Stub.init (.ofWords []) .reset with
    reader := ⟨.reset, 0, 0, 0, .reset⟩
    socket := reads.map .bytes }

structure Cut (l : List U8) (reads : List (List U8)) : Prop where
  flatten : reads.flatten = l
  ne_nil : ∀ rd ∈ reads, rd ≠ []

-- ---------------------------------------------------------------------------
-- The verdict on a packet
-- ---------------------------------------------------------------------------

def ParsState.final : ParsState → Bool
  | .nack | .error | .finished => true
  | _ => false

section
variable {ops : SysOps ρ} {s s' : Stub ρ} {ackEnabled : Bool} {r : Reader} {b : U8}
variable {l rd : List U8} {socket : List ReadResult}

theorem scan_final (h : r.state.final = true) : scan ackEnabled r b = r.pass [b] := by
  have hstate : (r.read [b]).state = r.state := rfl
  simp only [scan, parseByte, parseState, hstate]
  cases hr : r.state with
  | nack | error | finished => rfl
  | reset | start | skip | checksumDigit0 | checksumDigit1 =>
    rw [hr] at h
    cases h

theorem pass_pass (l l' : List U8) : (r.pass l).pass l' = r.pass (l ++ l') := by
  simp [Reader.pass, Reader.read, Pkt.append, Nat.add_assoc]

theorem foldl_scan_final (h : r.state.final = true) : l.foldl (scan ackEnabled) r = r.pass l := by
  induction l generalizing r with
  | nil => simp [Reader.pass, Reader.read, Pkt.append]
  | cons b l ih =>
    have hpass : (r.pass [b]).state.final = true := h
    rw [List.foldl_cons, scan_final h, ih hpass, pass_pass]
    rfl

theorem received_parsed (h : s.reader.CaughtUp) (rd : List U8) (socket : List ReadResult) :
    (s.received (.bytes rd) socket).parsed =
      { s with reader := rd.foldl (scan s.ackEnabled) s.reader, socket } := by
  have hparse : sadParserPkt s.ackEnabled (s.reader.read rd) =
      rd.foldl (scan s.ackEnabled) s.reader := sadParserPkt_read h
  simp only [Stub.received, Stub.parsed, hparse]

theorem sadBuffToSocket_resp (h : sadBuilderBuildResp ops s.resetOutput = .ok s') :
    shown (sadBuffToSocket s'.output) = [] := by
  obtain ⟨cmd, -, h⟩ := bind_eq_ok.mp h
  obtain ⟨s₁, hbuild, h⟩ := bind_eq_ok.mp h
  obtain ⟨payload, -, hout⟩ := (builder_answers hbuild).output
  cases h
  have hopen : s₁.output.data = ascii (if s.ackEnabled then "+$" else "$") ++ payload :=
    congrArg Pkt.data hout
  have hclose : s₁.output.data <+: s₁.closeResp.output.data :=
    (List.prefix_append _ _).trans (List.prefix_append _ _)
  obtain ⟨tail, hdata⟩ := hclose
  rw [hopen, List.append_assoc] at hdata
  rw [shown_sadBuffToSocket]
  refine if_neg ?_
  rw [← hdata]
  cases s.ackEnabled with
  | true => rintro ⟨⟩
  | false => rintro ⟨⟩

variable (ops s r socket) in
/-- What a read comes to that leaves the parser as `r`: the events, and the stub with which the
loop goes on. -/
inductive Round : List Event → Option (Stub ρ) → Prop
  | pending (h : r.state.final = false) : Round [] (some { s with reader := r, socket })
  | error (h : r.state = .error) :
    Round [.minus]
      (some { s with reader := r.reset, output := Pkt.reset.append (ascii "-"), socket })
  | nack (h : r.state = .nack) :
    Round (shown (sadBuffToSocket s.output)) (some { s with reader := r.reset, socket })
  | fault (h : r.state = .finished) {e} (hbuild : sadBuilderBuildResp ops
      { s with reader := r, output := .reset, socket } = .error e) :
    Round [.accepted r.input.payload] none
  | answered (h : r.state = .finished) {s' : Stub ρ} (hbuild : sadBuilderBuildResp ops
      { s with reader := r, output := .reset, socket } = .ok s') :
    Round [.accepted r.input.payload] (some s'.resetInput)

theorem verdict_round (ops : SysOps ρ) (s : Stub ρ) (r : Reader) (socket : List ReadResult) :
    Round ops s r socket (shown (verdict ops { s with reader := r, socket }).1)
      (verdict ops { s with reader := r, socket }).2.toOption := by
  unfold verdict
  cases hr : r.state with
  | error => exact .error hr
  | nack => exact .nack hr
  | finished =>
    dsimp only
    split
    · rename_i hbuild
      exact .fault hr hbuild
    · rename_i s' hbuild
      have hshown : shown (.accepted r.input.payload :: sadBuffToSocket s'.output) =
          [.accepted r.input.payload] :=
        congrArg (Event.accepted r.input.payload :: ·) (sadBuffToSocket_resp hbuild)
      exact hshown ▸ .answered hr hbuild
  | reset | start | skip | checksumDigit0 | checksumDigit1 => exact .pending (by rw [hr]; rfl)

theorem cmdsLoop_round (ops : SysOps ρ) (hread : s.reader.CaughtUp)
    (hsocket : s.socket = .bytes rd :: socket) :
    ∃ events next, Round ops s (rd.foldl (scan s.ackEnabled) s.reader) socket events next ∧
      ∀ fuel, shown (cmdsLoop ops (fuel + 1) s).1 =
        events ++ next.elim [] fun s' => shown (cmdsLoop ops fuel s').1 := by
  refine ⟨_, _, verdict_round ops s _ socket, fun fuel => ?_⟩
  rw [cmdsLoop, hsocket]
  simp only [received_parsed hread rd socket]
  obtain ⟨effects, next⟩ :=
    verdict ops { s with reader := rd.foldl (scan s.ackEnabled) s.reader, socket }
  cases next with
  | error e => exact (List.append_nil (shown effects)).symm
  | ok s' => exact shown_append effects _

theorem sadBuilderBuildResp_socket (h : sadBuilderBuildResp ops s = .ok s') :
    s'.socket <:+ s.socket := by
  obtain ⟨cmd, -, h⟩ := bind_eq_ok.mp h
  obtain ⟨s₁, hbuild, h⟩ := bind_eq_ok.mp h
  cases h
  exact (builder_answers hbuild).socket

theorem verdict_socket (h : (verdict ops s).2 = .ok s') : s'.socket <:+ s.socket := by
  unfold verdict at h
  split at h
  · cases h
    exact List.suffix_rfl
  · cases h
    exact List.suffix_rfl
  · split at h
    · cases h
    · rename_i s₁ hbuild
      cases h
      have hsocket : s₁.socket <:+ s.resetOutput.socket := sadBuilderBuildResp_socket hbuild
      exact hsocket
  · cases h
    exact List.suffix_rfl

theorem session_eq (hhalted : (ops.isHalted s.target).1 = true) :
    session ops s = shown (cmdsLoop ops (s.socket.length + 1)
      { s with target := (ops.isHalted s.target).2 }).1 := by
  unfold session sadStubHandleCmds
  split
  · rename_i hrun
    rw [hrun] at hhalted
    cases hhalted
  · rename_i hrun
    rw [hrun]

theorem session_running (hrun : (ops.isHalted s.target).1 = false) : session ops s = [] := by
  unfold session sadStubHandleCmds
  split
  · rfl
  · rename_i hhalted
    rw [hhalted] at hrun
    cases hrun

theorem cmdsLoop_nil {fuel : Nat} (h : s.socket = []) :
    shown (cmdsLoop ops fuel s).1 = [] := by
  cases fuel with
  | zero => rfl
  | succ fuel =>
    rw [cmdsLoop, h]
    rfl

/-- The loop ends for each client: it goes round at most once for each read. -/
theorem cmdsLoop_ends {fuel : Nat} (h : s.socket.length < fuel) :
    (cmdsLoop ops fuel s).2 ≠ .looping := by
  induction fuel generalizing s with
  | zero => cases h
  | succ fuel ih =>
    unfold cmdsLoop
    split
    · rintro ⟨⟩
    · rintro ⟨⟩
    · rintro ⟨⟩
    · rename_i rd socket _ _ hsocket
      rw [hsocket, List.length_cons] at h
      split
      · rintro ⟨⟩
      · rename_i events s₁ hverdict
        refine ih ?_
        have hsuffix : s₁.socket <:+ (s.received rd socket).parsed.socket :=
          verdict_socket (congrArg Prod.snd hverdict)
        have hlen : (s.received rd socket).parsed.socket.length = socket.length :=
          congrArg List.length (socket_received s rd socket)
        have hle := hsuffix.length_le
        omega

theorem sadStubHandleCmds_ends (ops : SysOps ρ) (s : Stub ρ) :
    (sadStubHandleCmds ops (s.socket.length + 1) s).2 ≠ .looping := by
  unfold sadStubHandleCmds
  split
  · rintro ⟨⟩
  · exact cmdsLoop_ends (Nat.lt_succ_self _)

end

-- ---------------------------------------------------------------------------
-- What the parser has seen
-- ---------------------------------------------------------------------------

def Pkt.Opened (p : Pkt) (payload : List U8) : Prop :=
  ∃ pre, p.data = pre ++ payload ∧ p.startPktData = pre.length

def Matches (payload : List U8) (d₀ d₁ : U8) : Prop :=
  (BitVec.ofInt 8 (strtol16 [d₀, d₁]) : U8) = checksum payload

/-- What the bytes since the last reset are, by the state of the parser. In acknowledgement mode
each packet has a `+` in front. -/
def Seen (ackEnabled : Bool) (l : List U8) (r : Reader) : Prop :=
  let opens (pre : List U8) := ackEnabled = true → pre.getLast? = some 0x2b
  match r.state with
  | .reset | .nack | .error => True
  | .start => l.getLast? = some 0x2b
  | .skip => ∃ pre payload, opens pre ∧ (0x23 : U8) ∉ payload ∧ l = pre ++ 0x24 :: payload ∧
      r.input.Opened payload
  | .checksumDigit0 => ∃ pre payload, opens pre ∧ (0x23 : U8) ∉ payload ∧
      l = pre ++ 0x24 :: (payload ++ [0x23]) ∧ r.input.Holds payload []
  | .checksumDigit1 => ∃ pre payload, opens pre ∧ (0x23 : U8) ∉ payload ∧
      l = pre ++ 0x24 :: (payload ++ [0x23, r.digit0]) ∧ r.input.Holds payload [r.digit0]
  | .finished => ∃ pre payload post, opens pre ∧ (0x23 : U8) ∉ payload ∧
      l = pre ++ 0x24 :: (payload ++ 0x23 :: post) ∧ r.input.Holds payload post ∧
      (ackEnabled = true → ∃ d₀ d₁ post', post = d₀ :: d₁ :: post' ∧ Matches payload d₀ d₁)

section
variable {ackEnabled : Bool} {r : Reader} {l q post : List U8} {b : U8}

theorem Pkt.Holds.payload {p : Pkt} (h : p.Holds q post) : p.payload = q := by
  obtain ⟨pre, hdata, hstart, hend⟩ := h
  rw [Pkt.payload, hdata, hstart, hend, ← List.append_assoc, ← List.length_append,
    List.take_left, List.drop_left]

theorem Pkt.Holds.append {p : Pkt} (h : p.Holds q post) (l : List U8) :
    (p.append l).Holds q (post ++ l) := by
  obtain ⟨pre, hdata, hstart, hend⟩ := h
  exact ⟨pre, by simp [Pkt.append, hdata], hstart, hend⟩

theorem Pkt.Opened.append {p : Pkt} (h : p.Opened q) (l : List U8) :
    (p.append l).Opened (q ++ l) := by
  obtain ⟨pre, hdata, hstart⟩ := h
  exact ⟨pre, by simp [Pkt.append, hdata], hstart⟩

theorem seen_parseStart (hopens : ackEnabled = true → l.getLast? = some 0x2b)
    (hidx : r.parseIdx = r.input.data.length) (n : Nat) :
    Seen ackEnabled (l ++ [b]) { parseStart (r.read [b]) b with parseIdx := n } := by
  unfold parseStart
  split
  · rename_i hb
    subst hb
    refine ⟨l, [], hopens, List.not_mem_nil, rfl, r.input.data ++ [0x24], ?_, ?_⟩
    · simp [Reader.read, Pkt.append]
    · simp [Reader.read, hidx]
  · trivial

theorem Seen.scan_final (h : Seen ackEnabled l r) (hfinal : r.state.final = true) :
    Seen ackEnabled (l ++ [b]) (scan ackEnabled r b) := by
  rw [SwitchV32.scan_final hfinal]
  have hstate : (r.pass [b]).state = r.state := rfl
  unfold Seen at h ⊢
  rw [hstate]
  cases hr : r.state with
  | finished =>
    simp only [hr] at h ⊢
    obtain ⟨pre, q, post, hopens, hq, rfl, hholds, hsum⟩ := h
    refine ⟨pre, q, post ++ [b], hopens, hq, by simp, hholds.append [b], fun hack => ?_⟩
    obtain ⟨d₀, d₁, post', rfl, hmatches⟩ := hsum hack
    exact ⟨d₀, d₁, post' ++ [b], rfl, hmatches⟩
  | nack | error => trivial
  | reset | start | skip | checksumDigit0 | checksumDigit1 =>
    rw [hr] at hfinal
    cases hfinal

theorem Seen.scan (h : Seen ackEnabled l r) (hread : r.CaughtUp) :
    Seen ackEnabled (l ++ [b]) (scan ackEnabled r b) := by
  have hstate : (r.read [b]).state = r.state := rfl
  cases hr : r.state with
  | nack | error | finished => exact h.scan_final (by rw [hr]; rfl)
  | reset =>
    cases ackEnabled with
    | true =>
      simp only [SwitchV32.scan, parseByte, parseState, hstate, hr, if_true]
      split
      · rename_i hb
        subst hb
        exact List.getLast?_concat
      · split
        · trivial
        · unfold Seen
          rw [hstate, hr]
          trivial
    | false =>
      simp only [SwitchV32.scan, parseByte, parseState, hstate, hr, Bool.false_eq_true, if_false]
      split
      · rename_i hb
        subst hb
        exact List.getLast?_concat
      · exact seen_parseStart (r := { r with state := .start }) (by rintro ⟨⟩) hread.parseIdx _
  | start =>
    simp only [SwitchV32.scan, parseByte, parseState, hstate, hr]
    rw [Seen, hr] at h
    exact seen_parseStart (fun _ => h) hread.parseIdx _
  | skip =>
    rw [Seen, hr] at h
    obtain ⟨pre, q, hopens, hq, rfl, hopened⟩ := h
    simp only [SwitchV32.scan, parseByte, parseState, hstate, hr]
    split
    · rename_i hb
      subst hb
      obtain ⟨front, hdata, hstart⟩ := hopened
      have hholds : Pkt.Holds { (r.read [0x23]).input with endPktData := r.parseIdx } q [] :=
        ⟨front, by simp [Reader.read, Pkt.append, hdata], hstart,
          by simp [hread.parseIdx, hdata]⟩
      cases ackEnabled with
      | true => exact ⟨pre, q, hopens, hq, by simp, hholds⟩
      | false => exact ⟨pre, q, [], hopens, hq, by simp, hholds, by rintro ⟨⟩⟩
    · rename_i hb
      have hq' : (0x23 : U8) ∉ q ++ [b] := by
        simp only [List.mem_append, List.mem_singleton, not_or]
        exact ⟨hq, Ne.symm hb⟩
      rw [Seen, hstate, hr]
      exact ⟨pre, q ++ [b], hopens, hq', by simp, hopened.append [b]⟩
  | checksumDigit0 =>
    rw [Seen, hr] at h
    obtain ⟨pre, q, hopens, hq, rfl, hholds⟩ := h
    simp only [SwitchV32.scan, parseByte, parseState, hstate, hr]
    exact ⟨pre, q, hopens, hq, by simp, hholds.append [b]⟩
  | checksumDigit1 =>
    rw [Seen, hr] at h
    obtain ⟨pre, q, hopens, hq, rfl, hholds⟩ := h
    simp only [SwitchV32.scan, parseByte, parseState, hstate, hr]
    have hholds' : (r.read [b]).input.Holds q [r.digit0, b] := hholds.append [b]
    split
    · trivial
    · rename_i hmatches
      rw [sadBuffChecksum, hholds'.payload, ne_eq, not_not] at hmatches
      exact ⟨pre, q, [r.digit0, b], hopens, hq, by simp, hholds', fun _ =>
        ⟨_, _, [], rfl, hmatches⟩⟩

theorem Seen.foldl (h : Seen ackEnabled l r) (hread : r.CaughtUp) (rd : List U8) :
    Seen ackEnabled (l ++ rd) (rd.foldl (SwitchV32.scan ackEnabled) r) := by
  induction rd generalizing l r with
  | nil => rwa [List.append_nil]
  | cons b rd ih =>
    have hrest := ih (h.scan (b := b) hread) hread.scan
    rwa [List.append_assoc] at hrest

theorem seen_reset (r : Reader) : Seen ackEnabled [] r.reset := trivial

end

end SwitchV32
