import SwitchV32.Stub.Text

/-!
# The packet parser of the stub

`stubb_a_dub/src/parser.c`, with the checksum of `buffer.c`. The parser takes up
where the last read ended, so that it comes to the same state however the bytes
are cut into reads.
-/

namespace SwitchV32

/-- What a buffer holds; `filled` is the number of bytes. -/
structure Pkt where
  data : List U8
  startPktData : Nat
  endPktData : Nat
  deriving DecidableEq

namespace Pkt

def reset : Pkt := ⟨[], 0, 0⟩

def append (p : Pkt) (l : List U8) : Pkt := { p with data := p.data ++ l }

def payload (p : Pkt) : List U8 := (p.data.take p.endPktData).drop p.startPktData

end Pkt

def byteSum (l : List U8) : U32 := l.foldl (fun sum b => sum + b.setWidth 32) 0

def checksum (l : List U8) : U8 := (byteSum l &&& 255).setWidth 8

def sadBuffChecksum (p : Pkt) : U8 := checksum p.payload

inductive ParsState
  | reset | start | skip | checksumDigit0 | checksumDigit1 | nack | error | finished
  deriving DecidableEq, Repr

/-- `parser_g` and `input_buffer_g` -/
structure Reader where
  state : ParsState
  parseIdx : Nat
  /-- the two digits, static in `sad_parser_pkt` -/
  digit0 : U8
  digit1 : U8
  input : Pkt
  deriving DecidableEq

/-- `sad_parser_reset` and `sad_buff_reset` -/
def Reader.reset (r : Reader) : Reader :=
  { r with state := .reset, parseIdx := 0, input := .reset }

def Reader.read (r : Reader) (rd : List U8) : Reader := { r with input := r.input.append rd }

def parseStart (r : Reader) (b : U8) : Reader :=
  if b = 0x24 then
    -- first data byte
    { r with state := .skip, input := { r.input with startPktData := r.parseIdx + 1 } }
  else { r with state := .error }

def parseState (ackEnabled : Bool) (r : Reader) (b : U8) : Reader :=
  match r.state with
  | .reset =>
    if ackEnabled then
      if b = 0x2b then { r with state := .start }
      else if b = 0x2d then { r with state := .nack }
      else r
    else if b = 0x2b then { r with state := .start }
    -- `continue`: the same byte again
    else parseStart { r with state := .start } b
  | .start => parseStart r b
  | .skip =>
    if b = 0x23 then
      { r with
        state := if ackEnabled then .checksumDigit0 else .finished
        input := { r.input with endPktData := r.parseIdx } }
    else r
  | .checksumDigit0 => { r with state := .checksumDigit1, digit0 := b }
  | .checksumDigit1 =>
    let value : U8 := BitVec.ofInt 8 (strtol16 [r.digit0, b])
    { r with
      state := if value ≠ sadBuffChecksum r.input then .error else .finished, digit1 := b }
  | .error | .nack | .finished => r

def parseByte (ackEnabled : Bool) (r : Reader) (b : U8) : Reader :=
  let r := parseState ackEnabled r b
  { r with parseIdx := r.parseIdx + 1 }

def sadParserPkt (ackEnabled : Bool) (r : Reader) : Reader :=
  (r.input.data.drop r.parseIdx).foldl (parseByte ackEnabled) r

-- ---------------------------------------------------------------------------
-- One byte after the other
-- ---------------------------------------------------------------------------

def scan (ackEnabled : Bool) (r : Reader) (b : U8) : Reader := parseByte ackEnabled (r.read [b]) b

structure Reader.CaughtUp (r : Reader) : Prop where
  parseIdx : r.parseIdx = r.input.data.length
  endPktData : r.input.endPktData ≤ r.input.data.length

section
variable {ackEnabled : Bool} {r : Reader} {b : U8} {l l' : List U8}

@[simp] theorem read_nil : r.read [] = r := by
  simp [Reader.read, Pkt.append]

theorem read_append : r.read (l ++ l') = (r.read l).read l' := by
  simp [Reader.read, Pkt.append]

theorem payload_append {p : Pkt} (h : p.endPktData ≤ p.data.length) :
    (p.append l).payload = p.payload := by
  simp only [Pkt.payload, Pkt.append, List.take_append_of_le_length h]

@[simp] theorem parseStart_read : parseStart (r.read l) b = (parseStart r b).read l := by
  unfold parseStart
  split <;> rfl

/-- What is read later makes no difference to a byte. -/
theorem parseState_read (h : r.input.endPktData ≤ r.input.data.length) :
    parseState ackEnabled (r.read l) b = (parseState ackEnabled r b).read l := by
  have hsum : sadBuffChecksum (r.read l).input = sadBuffChecksum r.input := by
    simp only [sadBuffChecksum, Reader.read, payload_append h]
  have hstate : (r.read l).state = r.state := rfl
  unfold parseState
  rw [hstate, hsum]
  cases r.state with
  | reset =>
    have hstart := parseStart_read (r := { r with state := .start }) (l := l) (b := b)
    dsimp only
    split_ifs
    · rfl
    · rfl
    · rfl
    · rfl
    · exact hstart
  | start => exact parseStart_read
  | skip =>
    dsimp only
    split <;> rfl
  | checksumDigit0 | checksumDigit1 | error | nack | finished => rfl

theorem endPktData_parseState :
    (parseState ackEnabled r b).input.endPktData = r.input.endPktData ∨
      (parseState ackEnabled r b).input.endPktData = r.parseIdx := by
  unfold parseState parseStart
  split
  all_goals
    try split_ifs
  all_goals first | exact .inl rfl | exact .inr rfl

theorem data_parseState : (parseState ackEnabled r b).input.data = r.input.data := by
  unfold parseState parseStart
  split
  all_goals
    try split_ifs
  all_goals rfl

theorem parseIdx_parseState : (parseState ackEnabled r b).parseIdx = r.parseIdx := by
  unfold parseState parseStart
  split
  all_goals
    try split_ifs
  all_goals rfl

theorem Reader.CaughtUp.scan (h : r.CaughtUp) : (scan ackEnabled r b).CaughtUp where
  parseIdx := by
    simp only [SwitchV32.scan, parseByte, parseIdx_parseState, data_parseState]
    simp [Reader.read, Pkt.append, h.parseIdx]
  endPktData := by
    have hend := h.endPktData
    have hidx := h.parseIdx
    have hset : (parseState ackEnabled (r.read [b]) b).input.endPktData =
        (r.read [b]).input.endPktData ∨
      (parseState ackEnabled (r.read [b]) b).input.endPktData = (r.read [b]).parseIdx :=
      endPktData_parseState
    simp only [SwitchV32.scan, parseByte, data_parseState]
    simp only [Reader.read, Pkt.append, List.length_append] at hset ⊢
    omega

theorem caughtUp_reset : r.reset.CaughtUp := ⟨rfl, Nat.le_refl 0⟩

theorem Reader.CaughtUp.foldl (h : r.CaughtUp) :
    (l.foldl (SwitchV32.scan ackEnabled) r).CaughtUp := by
  induction l generalizing r with
  | nil => exact h
  | cons b l ih => exact ih h.scan

/-- A read is parsed one byte after the other. -/
theorem sadParserPkt_read (h : r.CaughtUp) :
    sadParserPkt ackEnabled (r.read l) = l.foldl (scan ackEnabled) r := by
  have hdrop : (r.read l).input.data.drop (r.read l).parseIdx = l := by
    have hlen : r.parseIdx = r.input.data.length := h.parseIdx
    simp [Reader.read, Pkt.append, hlen]
  rw [sadParserPkt, hdrop]
  clear hdrop
  induction l generalizing r with
  | nil => rw [read_nil]; rfl
  | cons b l ih =>
    rw [List.foldl_cons, List.foldl_cons, ← ih h.scan]
    congr 1
    have hend : (r.read [b]).input.endPktData ≤ (r.read [b]).input.data.length := by
      have := h.endPktData
      simp only [Reader.read, Pkt.append, List.length_append]
      omega
    rw [show b :: l = [b] ++ l from rfl, read_append]
    simp only [parseByte, parseState_read hend]
    rfl

def feed (ackEnabled : Bool) (r : Reader) (reads : List (List U8)) : Reader :=
  reads.foldl (fun r rd => sadParserPkt ackEnabled (r.read rd)) r

/-- The cuts between the reads make no difference. -/
theorem feed_eq (h : r.CaughtUp) (reads : List (List U8)) :
    feed ackEnabled r reads = reads.flatten.foldl (scan ackEnabled) r := by
  induction reads generalizing r with
  | nil => rfl
  | cons rd reads ih =>
    rw [List.flatten_cons, List.foldl_append, ← ih h.foldl, ← sadParserPkt_read h]
    rfl

end

end SwitchV32
