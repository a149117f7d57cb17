import Mathlib.Data.List.Infix
import SwitchV32.Stub.Frame
import SwitchV32.Stub.GuestMemory

/-!
# Packets through the buffers of the stub

The blocks behind `input_buffer_g` and `output_buffer_g` while one packet after
the other is served: a packet comes in reads of up to `STUB_BUFF_SIZE` bytes,
its reply is appended behind the first delimiter, and each buffer is reset
between two packets. A block that has grown to `MAX_BUFF_DATA_SIZE` is swapped
for a small one by the reset, and from then on only short packets fit. Every
allocation succeeds.
-/

namespace SwitchV32

abbrev stubBuffSize : Nat := 128

/-- As `sad_stub_init` creates both buffers. -/
def stubBuffer : PktBuffer where
  initialSize := stubBuffSize
  startPktData := 0
  endPktData := 0
  filled := 0
  dataSize := stubBuffSize
  data := .fresh stubBuffSize

abbrev granted : Nat → Bool := fun _ => true

theorem granted_eq (n : Nat) : granted n = true := rfl

theorem sadBuffCreate_stubBuffer : sadBuffCreate granted stubBuffSize = some stubBuffer := rfl

/-- An accepted packet, and what the reads gave that it came in. -/
structure Arrival where
  input : Pkt
  reads : List {rd : List U8 // 0 < rd.length ∧ rd.length ≤ stubBuffSize}
  data : reads.flatMap Subtype.val = input.data

namespace Arrival

def size (a : Arrival) : Nat := a.input.data.length

/-- The bytes in front of the last read. -/
def front (a : Arrival) : Nat := (a.reads.dropLast.flatMap Subtype.val).length

def readOps (a : Arrival) : List (BuffOp stubBuffSize) :=
  a.reads.map fun rd => .fromSocket rd.1 rd.2

theorem length_frame_le (payload : List U8) (h : payload.length ≤ 123) :
    0 < (frame payload).length ∧ (frame payload).length ≤ stubBuffSize := by
  simp only [frame, List.length_append, List.length_cons, List.length_nil, stubBuffSize]
  omega

def whole (payload : List U8) (h : payload.length ≤ 123) : Arrival where
  input := ⟨frame payload, 2, 2 + payload.length⟩
  reads := [⟨frame payload, length_frame_le payload h⟩]
  data := List.append_nil _

theorem whole_holds (payload : List U8) (h : payload.length ≤ 123) :
    ∃ post, (whole payload h).input.Holds payload post :=
  ⟨_, [0x2b, 0x24], by simp [whole, frame]; rfl, rfl, rfl⟩

theorem front_whole (payload : List U8) (h : payload.length ≤ 123) :
    (whole payload h).front = 0 := rfl

end Arrival

def openChars (ackEnabled : Bool) : List U8 := ascii (if ackEnabled then "+$" else "$")

/-- What `sad_builder_build_resp` does to the output buffer, when the builder appends its reply in
one piece. -/
def replyOps (ackEnabled : Bool) (reply : List U8) : List (BuffOp stubBuffSize) :=
  [.reset, .appendStr (openChars ackEnabled), .append reply, .appendStr (ascii "#"),
    .appendStr (print02x (checksum reply).toNat)]

def response (ackEnabled : Bool) (reply : List U8) : List U8 :=
  openChars ackEnabled ++ reply ++ ascii "#" ++ print02x (checksum reply).toNat

structure Buffered (ρ : Type) where
  stub : Stub ρ
  input : PktBuffer
  output : PktBuffer

def Buffered.start {ρ : Type} (stub : Stub ρ) : Buffered ρ := ⟨stub, stubBuffer, stubBuffer⟩

inductive ServeFault
  | build (e : BuildFault)
  | buff (e : BuffFault)

section
variable {ρ : Type} (ops : SysOps ρ)

/-- A packet is read and answered, and the input is reset. -/
def serve (fuel : Nat) (v : Buffered ρ) (a : Arrival) :
    Except ServeFault (List U8 × Buffered ρ) := do
  let input ← (BuffOp.run granted fuel v.input a.readOps).mapError .buff
  let (reply, stub) ← (respond ops v.stub a.input).mapError .build
  let output ←
    (BuffOp.run granted fuel v.output (replyOps v.stub.ackEnabled reply)).mapError .buff
  return (reply, ⟨stub, sadBuffReset granted input, output⟩)

def serveAll (fuel : Nat) (v : Buffered ρ) :
    List Arrival → Except ServeFault (List (List U8) × Buffered ρ)
  | [] => return ([], v)
  | a :: as => do
    let (reply, v) ← serve ops fuel v a
    let (replies, v) ← serveAll fuel v as
    return (reply :: replies, v)

end

-- ---------------------------------------------------------------------------
-- The sizes of a block
-- ---------------------------------------------------------------------------

def StubSize (n : Nat) : Prop :=
  n = 128 ∨ n = 256 ∨ n = 512 ∨ n = 1024 ∨ n = 2048 ∨ maxBuffDataSize ≤ n

namespace PktBuffer

variable {b : PktBuffer} {l : List U8} {n m need : Nat}

theorem Grown.stubSize (h : Grown need n m) (hn : StubSize n) : StubSize m := by
  induction h with
  | same => exact hn
  | double _ _ ih =>
    refine ih ?_
    simp only [StubSize, maxBuffDataSize] at hn ⊢
    omega

theorem Grown.small (h : Grown need n m) (hn : StubSize n) (hlt : n < maxBuffDataSize)
    (hneed : need ≤ 2048) : m < maxBuffDataSize := by
  induction h with
  | same => exact hlt
  | double hless _ ih =>
    simp only [StubSize, maxBuffDataSize] at hn ih ⊢
    exact ih (by omega) (by omega)

structure Sized (b : PktBuffer) (l : List U8) : Prop extends b.Inv stubBuffSize l where
  size : StubSize b.dataSize

/-- Holds `n` bytes, in the block that a reset took for the one that had grown. -/
structure Shrunk (b : PktBuffer) (n : Nat) : Prop where
  initialSize : b.initialSize = stubBuffSize
  filled : b.filled = n
  block : b.data.length = stubBuffSize
  size : maxBuffDataSize ≤ b.dataSize

structure AtRest (b : PktBuffer) (grown : Prop) : Prop where
  sized : ¬ grown → b.Sized [] ∧ b.dataSize < maxBuffDataSize
  shrunk : grown → b.Shrunk 0

theorem stubBuffer_sized : stubBuffer.Sized [] where
  block := rfl
  filled_le := Nat.zero_le _
  bytes := rfl
  pos := Nat.succ_pos _
  dataSize_pos := Nat.succ_pos _
  initialSize_eq := rfl
  size := .inl rfl

theorem Sized.reset (h : b.Sized l) (hlt : b.dataSize < maxBuffDataSize) :
    (sadBuffReset granted b).Sized [] ∧
      (sadBuffReset granted b).dataSize < maxBuffDataSize := by
  have hsize : (sadBuffReset granted b).dataSize = b.dataSize := BuffOp.dataSize_reset
  exact ⟨⟨sadBuffReset_ok granted_eq h.toInv (.inl hlt), hsize ▸ h.size⟩, hsize ▸ hlt⟩

theorem shrunk_reset (hinit : b.initialSize = stubBuffSize) (hle : maxBuffDataSize ≤ b.dataSize) :
    (sadBuffReset granted b).Shrunk 0 := by
  have hlength := BuffOp.length_reset granted_eq hle
  refine ⟨?_, rfl, hlength.trans hinit, ?_⟩
  · simp only [sadBuffReset]
    split <;> exact hinit
  · rw [BuffOp.dataSize_reset]
    exact hle

-- ---------------------------------------------------------------------------
-- Reads
-- ---------------------------------------------------------------------------

variable {rd : List U8} (hrd : 0 < rd.length ∧ rd.length ≤ stubBuffSize)
variable (reads : List {rd : List U8 // 0 < rd.length ∧ rd.length ≤ stubBuffSize})

theorem Sized.fromSocket (h : b.Sized l) : ∃ fuel b',
    (BuffOp.fromSocket rd hrd).exec granted fuel b = .ok (.ok, b') ∧ b'.Sized (l ++ rd) ∧
      (b'.dataSize < maxBuffDataSize ↔ b.dataSize < maxBuffDataSize ∧ l.length ≤ 1920) := by
  obtain ⟨fuel, b', hrun, h', hfit, hgrown⟩ :=
    sadBuffFromSocket_ok granted_eq h.toInv hrd.2
  have hsize := hgrown.stubSize h.size
  have hle := hgrown.le
  rw [h.filled_eq] at hfit hgrown
  refine ⟨fuel, b', hrun, ⟨h', hsize⟩, fun hlt => ?_, fun ⟨hlt, hshort⟩ => ?_⟩
  · simp only [StubSize, maxBuffDataSize, stubBuffSize] at hsize hlt hfit ⊢
    omega
  · exact hgrown.small h.size hlt (by simp only [stubBuffSize]; omega)

theorem Sized.run_reads (h : b.Sized []) (hlt : b.dataSize < maxBuffDataSize) :
    ∃ fuel b', BuffOp.run granted fuel b (reads.map fun rd => .fromSocket rd.1 rd.2) = .ok b' ∧
      b'.Sized (reads.flatMap Subtype.val) ∧
      (b'.dataSize < maxBuffDataSize ↔ (reads.dropLast.flatMap Subtype.val).length ≤ 1920) := by
  induction reads using List.reverseRecOn with
  | nil => exact ⟨0, b, rfl, h, iff_of_true hlt (Nat.zero_le _)⟩
  | append_singleton pre rd ih =>
    obtain ⟨fuel, b₁, hpre, h₁, hsmall⟩ := ih
    obtain ⟨fuel', b', hrd, h', hiff⟩ := h₁.fromSocket rd.2
    refine ⟨max fuel fuel', b', ?_, ?_, ?_⟩
    · rw [List.map_append, List.map_singleton, BuffOp.run_snoc]
      exact ⟨b₁, .ok, BuffOp.run_mono hpre (Nat.le_max_left _ _),
        BuffOp.exec_mono hrd (Nat.le_max_right _ _)⟩
    · simpa using h'
    · rw [List.dropLast_concat, hiff, hsmall, and_iff_right_iff_imp]
      intro hshort
      have hprefix : (pre.dropLast.flatMap Subtype.val).length ≤
          (pre.flatMap Subtype.val).length :=
        (List.IsPrefix.flatMap (List.dropLast_prefix pre) _).length_le
      omega

theorem Shrunk.fromSocket (h : b.Shrunk n) (hn : n ≤ stubBuffSize) (fuel : Nat) :
    (n + rd.length ≤ stubBuffSize → ∃ b',
      (BuffOp.fromSocket rd hrd).exec granted fuel b = .ok (.ok, b') ∧ b'.Shrunk (n + rd.length)) ∧
    (stubBuffSize < n + rd.length →
      (BuffOp.fromSocket rd hrd).exec granted fuel b = .error .outside) := by
  obtain ⟨hinit, hfilled, hblock, hsize⟩ := h
  have hfit : ¬ b.filled + b.initialSize > b.dataSize := by
    simp only [maxBuffDataSize, stubBuffSize] at *
    omega
  have hloop : expandFor granted b.initialSize fuel b = .ok (.ok, b) := by
    cases fuel <;> simp only [expandFor, if_neg hfit]
  have hexec : (BuffOp.fromSocket rd hrd).exec granted fuel b =
      (b.push rd >>= fun b => .ok (.ok, b)) := by
    simp only [BuffOp.exec, sadBuffFromSocket, hloop]
    rfl
  refine ⟨fun hle => ?_, fun hlt => ?_⟩
  · obtain ⟨data, hwrite⟩ : ∃ data, b.data.write b.filled rd = some data :=
      ⟨_, Block.write_eq_some (by omega)⟩
    refine ⟨{ b with data, filled := b.filled + rd.length }, ?_, hinit, ?_, ?_, hsize⟩
    · simp only [hexec, push, hwrite]
      rfl
    · rw [← hfilled]
    · exact (Block.length_write hwrite).trans hblock
  · have hwrite : b.data.write b.filled rd = none := if_neg (by omega)
    simp only [hexec, push, hwrite]
    rfl

theorem Shrunk.run_reads (h : b.Shrunk 0) (fuel : Nat) :
    ((reads.flatMap Subtype.val).length ≤ stubBuffSize → ∃ b',
      BuffOp.run granted fuel b (reads.map fun rd => .fromSocket rd.1 rd.2) = .ok b' ∧
        b'.Shrunk (reads.flatMap Subtype.val).length) ∧
    (stubBuffSize < (reads.flatMap Subtype.val).length →
      BuffOp.run granted fuel b (reads.map fun rd => .fromSocket rd.1 rd.2) =
        .error .outside) := by
  induction reads using List.reverseRecOn with
  | nil => exact ⟨fun _ => ⟨b, rfl, h⟩, fun hlt => absurd hlt (by decide)⟩
  | append_singleton pre rd ih =>
    obtain ⟨hok, hfault⟩ := ih
    have hlength : ((pre ++ [rd]).flatMap Subtype.val).length =
        (pre.flatMap Subtype.val).length + rd.1.length := by simp
    have hrun : BuffOp.run granted fuel b
          ((pre ++ [rd]).map fun rd => BuffOp.fromSocket rd.1 rd.2) =
        (BuffOp.run granted fuel b (pre.map fun rd => .fromSocket rd.1 rd.2) >>= fun b =>
          ((BuffOp.fromSocket rd.1 rd.2).exec granted fuel b).map Prod.snd) := by
      simp [BuffOp.run]
    rw [hlength, hrun]
    by_cases hpre : (pre.flatMap Subtype.val).length ≤ stubBuffSize
    · obtain ⟨b₁, hrun₁, h₁⟩ := hok hpre
      obtain ⟨hnext, hout⟩ := h₁.fromSocket rd.2 hpre fuel
      rw [hrun₁]
      refine ⟨fun hle => ?_, fun hlt => ?_⟩
      · obtain ⟨b', hexec, h'⟩ := hnext hle
        exact ⟨b', congrArg (Except.map Prod.snd) hexec, h'⟩
      · exact congrArg (Except.map Prod.snd) (hout hlt)
    · rw [hfault (by omega)]
      exact ⟨fun hle => absurd hle (by omega), fun _ => rfl⟩

variable {grown : Prop} {a : Arrival} {fuel : Nat}

/-- A packet fits, unless it is too long for a block that has been swapped. -/
theorem AtRest.read (h : b.AtRest grown) (a : Arrival) :
    ((grown → a.size ≤ stubBuffSize) → ∃ fuel b', BuffOp.run granted fuel b a.readOps = .ok b' ∧
      (sadBuffReset granted b').AtRest (grown ∨ 1920 < a.front)) ∧
    (¬ (grown → a.size ≤ stubBuffSize) → ∀ fuel,
      BuffOp.run granted fuel b a.readOps = .error .outside) := by
  have hsize : a.size = (a.reads.flatMap Subtype.val).length := by rw [a.data, Arrival.size]
  by_cases hgrown : grown
  · have hrun (fuel : Nat) := (h.shrunk hgrown).run_reads a.reads fuel
    rw [← hsize] at hrun
    refine ⟨fun hle => ?_, fun hnot fuel => ?_⟩
    · obtain ⟨b', hreads, h'⟩ := (hrun 0).1 (hle hgrown)
      exact ⟨0, b', hreads, fun hnot => absurd (.inl hgrown) hnot,
        fun _ => shrunk_reset h'.initialSize h'.size⟩
    · have hlt : stubBuffSize < a.size := Nat.lt_of_not_le fun hle => hnot fun _ => hle
      exact (hrun fuel).2 hlt
  · refine ⟨fun _ => ?_, fun hnot => absurd (fun hg => absurd hg hgrown) hnot⟩
    obtain ⟨hsized, hlt⟩ := h.sized hgrown
    obtain ⟨fuel, b', hreads, h', hiff⟩ := hsized.run_reads a.reads hlt
    have hfront : b'.dataSize < maxBuffDataSize ↔ ¬ (grown ∨ 1920 < a.front) := by
      rw [hiff, or_iff_right hgrown, Nat.not_lt, Arrival.front]
    refine ⟨fuel, b', hreads, fun hnot => h'.reset (hfront.mpr hnot), fun hfar => ?_⟩
    exact shrunk_reset h'.initialSize_eq (Nat.le_of_not_lt fun hlt => hfront.mp hlt hfar)

-- ---------------------------------------------------------------------------
-- Replies
-- ---------------------------------------------------------------------------

theorem Sized.append (h : b.Sized l) (data : List U8) : ∃ fuel b',
    sadBuffAppend granted fuel b data = .ok (.ok, b') ∧ b'.Sized (l ++ data) ∧
      (b.dataSize < maxBuffDataSize → (l ++ data).length ≤ 2048 →
        b'.dataSize < maxBuffDataSize) := by
  obtain ⟨fuel, b', hrun, h', hgrown⟩ :=
    sadBuffAppend_ok granted_eq h.toInv data
  refine ⟨fuel, b', hrun, ⟨h', hgrown.stubSize h.size⟩, fun hlt hshort => ?_⟩
  rw [h.filled_eq, ← List.length_append] at hgrown
  exact hgrown.small h.size hlt hshort

theorem Sized.run_appends (h : b.Sized l) (datas : List (List U8)) : ∃ fuel b',
    BuffOp.run granted fuel b (datas.map (@BuffOp.append stubBuffSize)) = .ok b' ∧
      b'.Sized (l ++ datas.flatten) ∧
      (b.dataSize < maxBuffDataSize → (l ++ datas.flatten).length ≤ 2048 →
        b'.dataSize < maxBuffDataSize) := by
  induction datas using List.reverseRecOn with
  | nil => exact ⟨0, b, rfl, by simpa using h, fun hlt _ => hlt⟩
  | append_singleton pre data ih =>
    obtain ⟨fuel, b₁, hpre, h₁, hsmall⟩ := ih
    obtain ⟨fuel', b', hrun, h', hsmall'⟩ := h₁.append data
    have hflat : l ++ (pre ++ [data]).flatten = l ++ pre.flatten ++ data := by simp
    rw [hflat]
    refine ⟨max fuel fuel', b', ?_, h', fun hlt hshort => hsmall' (hsmall hlt ?_) hshort⟩
    · have hexec : (BuffOp.append data : BuffOp stubBuffSize).exec granted fuel' b₁ =
          .ok (.ok, b') := hrun
      rw [List.map_append, List.map_singleton, BuffOp.run_snoc]
      exact ⟨b₁, .ok, BuffOp.run_mono hpre (Nat.le_max_left _ _),
        BuffOp.exec_mono hexec (Nat.le_max_right _ _)⟩
    · rw [List.length_append] at hshort
      omega

theorem cString_print02x (n : Nat) (hn : n < 256) : cString (print02x n) = print02x n := by
  have hall : ∀ m < 256, cString (print02x m) = print02x m := by decide +kernel
  exact hall n hn

theorem Sized.respond (h : b.Sized l) (hlt : b.dataSize < maxBuffDataSize) (ackEnabled : Bool)
    (reply : List U8) : ∃ fuel b',
      BuffOp.run granted fuel b (replyOps ackEnabled reply) = .ok b' ∧
      b'.Sized (response ackEnabled reply) ∧
      ((response ackEnabled reply).length ≤ 2048 → b'.dataSize < maxBuffDataSize) := by
  obtain ⟨hreset, hsmall⟩ := h.reset hlt
  obtain ⟨fuel, b', hrun, h', hshort⟩ := hreset.run_appends [openChars ackEnabled, reply,
    ascii "#", print02x (checksum reply).toNat]
  have hopen : cString (openChars ackEnabled) = openChars ackEnabled := by
    cases ackEnabled <;> rfl
  have hsum := cString_print02x (checksum reply).toNat (checksum reply).isLt
  have hresponse : [] ++ [openChars ackEnabled, reply, ascii "#",
      print02x (checksum reply).toNat].flatten = response ackEnabled reply := by
    simp [response]
  rw [hresponse] at h' hshort
  refine ⟨fuel, b', ?_, h', hshort hsmall⟩
  have hops : BuffOp.run granted fuel b (replyOps ackEnabled reply) =
      BuffOp.run granted fuel (sadBuffReset granted b) ([openChars ackEnabled, reply, ascii "#",
        print02x (checksum reply).toNat].map (@BuffOp.append stubBuffSize)) := by
    simp only [BuffOp.run, replyOps, List.map_cons, List.map_nil, List.foldlM_cons, BuffOp.exec,
      sadBuffAppendStr, hopen, hsum]
    rfl
  rw [hops, hrun]

end PktBuffer

-- ---------------------------------------------------------------------------
-- One packet
-- ---------------------------------------------------------------------------

/-- Once a packet was read that the input buffer grew to the limit for, the packets are short. -/
def ReadsFit : Prop → List Arrival → Prop
  | _, [] => True
  | grown, a :: as => (grown → a.size ≤ stubBuffSize) ∧ ReadsFit (grown ∨ 1920 < a.front) as

def GrownAfter (grown : Prop) (as : List Arrival) : Prop := grown ∨ ∃ a ∈ as, 1920 < a.front

theorem grownAfter_cons {grown : Prop} {a : Arrival} {as : List Arrival} :
    GrownAfter grown (a :: as) ↔ GrownAfter (grown ∨ 1920 < a.front) as := by
  simp [GrownAfter, or_assoc]

theorem readsFit_iff {grown : Prop} {as : List Arrival} :
    ReadsFit grown as ↔ (grown → ∀ a ∈ as, a.size ≤ stubBuffSize) ∧
      as.Pairwise fun a a' => 1920 < a.front → a'.size ≤ stubBuffSize := by
  induction as generalizing grown with
  | nil => simp [ReadsFit]
  | cons a as ih =>
    rw [ReadsFit, ih, List.pairwise_cons]
    constructor
    · rintro ⟨ha, hrest, hpair⟩
      refine ⟨fun hg => ?_, fun a' ha' hfar => hrest (.inr hfar) a' ha', hpair⟩
      exact List.forall_mem_cons.mpr ⟨ha hg, hrest (.inl hg)⟩
    · rintro ⟨hall, hfirst, hpair⟩
      refine ⟨fun hg => (List.forall_mem_cons.mp (hall hg)).1, fun hg a' ha' => ?_, hpair⟩
      obtain hg | hfar := hg
      · exact (List.forall_mem_cons.mp (hall hg)).2 a' ha'
      · exact hfirst a' ha' hfar

theorem readsFit_append {grown : Prop} {as : List Arrival} {a : Arrival} :
    ReadsFit grown (as ++ [a]) ↔
      ReadsFit grown as ∧ (GrownAfter grown as → a.size ≤ stubBuffSize) := by
  induction as generalizing grown with
  | nil => simp [ReadsFit, GrownAfter]
  | cons a' as ih => simp only [List.cons_append, ReadsFit, ih, grownAfter_cons, and_assoc]

section
variable {ρ : Type} {ops : SysOps ρ} {v v' : Buffered ρ} {a : Arrival} {as : List Arrival}
variable {fuel fuel' : Nat} {grown : Prop} {reply : List U8} {replies : List (List U8)}
variable {s : Stub ρ}

theorem mapError_eq_ok {α ε ε' : Type} {x : Except ε α} {f : ε → ε'} {a : α} :
    x.mapError f = .ok a ↔ x = .ok a := by
  cases x <;> simp [Except.mapError]

theorem serve_eq_ok : serve ops fuel v a = .ok (reply, v') ↔ ∃ input output s,
    BuffOp.run granted fuel v.input a.readOps = .ok input ∧
    respond ops v.stub a.input = .ok (reply, s) ∧
    BuffOp.run granted fuel v.output (replyOps v.stub.ackEnabled reply) = .ok output ∧
    v' = ⟨s, sadBuffReset granted input, output⟩ := by
  simp only [serve, bind_eq_ok, mapError_eq_ok, Prod.exists]
  constructor
  · rintro ⟨input, hread, reply', s, hresp, output, hrun, hpure⟩
    cases hpure
    exact ⟨input, output, s, hread, hresp, hrun, rfl⟩
  · rintro ⟨input, output, s, hread, hresp, hrun, rfl⟩
    exact ⟨input, hread, reply, s, hresp, output, hrun, rfl⟩

theorem serve_mono (h : serve ops fuel v a = .ok (reply, v')) (hf : fuel ≤ fuel') :
    serve ops fuel' v a = .ok (reply, v') := by
  obtain ⟨input, output, s, hread, hresp, hrun, hv⟩ := serve_eq_ok.mp h
  exact serve_eq_ok.mpr
    ⟨input, output, s, BuffOp.run_mono hread hf, hresp, BuffOp.run_mono hrun hf, hv⟩

theorem serveAll_cons_eq_ok : serveAll ops fuel v (a :: as) = .ok (replies, v') ↔
    ∃ reply rest v₁, serve ops fuel v a = .ok (reply, v₁) ∧
      serveAll ops fuel v₁ as = .ok (rest, v') ∧ replies = reply :: rest := by
  simp only [serveAll, bind_eq_ok, Prod.exists]
  constructor
  · rintro ⟨reply, v₁, hone, rest, v₂, hrest, hpure⟩
    cases hpure
    exact ⟨reply, rest, v₁, hone, hrest, rfl⟩
  · rintro ⟨reply, rest, v₁, hone, hrest, rfl⟩
    exact ⟨reply, v₁, hone, rest, v', hrest, rfl⟩

theorem serveAll_mono (h : serveAll ops fuel v as = .ok (replies, v')) (hf : fuel ≤ fuel') :
    serveAll ops fuel' v as = .ok (replies, v') := by
  induction as generalizing v replies with
  | nil => exact h
  | cons a as ih =>
    obtain ⟨reply, rest, v₁, hone, hrest, rfl⟩ := serveAll_cons_eq_ok.mp h
    exact serveAll_cons_eq_ok.mpr ⟨reply, rest, v₁, serve_mono hone hf, ih hrest, rfl⟩

/-- Between two packets, with an output buffer that has not grown to the limit. -/
structure Buffered.AtRest (v : Buffered ρ) (grown : Prop) : Prop where
  input : v.input.AtRest grown
  output : ∃ l, v.output.Sized l ∧ v.output.dataSize < maxBuffDataSize

theorem Buffered.start_atRest (s : Stub ρ) : (Buffered.start s).AtRest False := by
  have hlt : stubBuffer.dataSize < maxBuffDataSize := by decide
  exact ⟨⟨fun _ => ⟨PktBuffer.stubBuffer_sized, hlt⟩, False.elim⟩,
    [], PktBuffer.stubBuffer_sized, hlt⟩

namespace Buffered.AtRest

/-- A packet is served if its builder answers it and it fits into the input buffer. -/
theorem serve_ok (h : v.AtRest grown) (hresp : respond ops v.stub a.input = .ok (reply, s))
    (hfits : grown → a.size ≤ stubBuffSize) :
    ∃ fuel v', serve ops fuel v a = .ok (reply, v') := by
  obtain ⟨fuel, input, hread, -⟩ := (h.input.read a).1 hfits
  obtain ⟨l, hsized, hlt⟩ := h.output
  obtain ⟨fuel', output, hrun, -⟩ := hsized.respond hlt v.stub.ackEnabled reply
  exact ⟨max fuel fuel', _, serve_eq_ok.mpr ⟨input, output, s,
    BuffOp.run_mono hread (Nat.le_max_left _ _), hresp,
    BuffOp.run_mono hrun (Nat.le_max_right _ _), rfl⟩⟩

theorem serve_cases (h : v.AtRest grown) (hserve : serve ops fuel v a = .ok (reply, v')) :
    respond ops v.stub a.input = .ok (reply, v'.stub) ∧ (grown → a.size ≤ stubBuffSize) ∧
      v'.output.Sized (response v.stub.ackEnabled reply) ∧
      ((response v.stub.ackEnabled reply).length ≤ 2048 →
        v'.AtRest (grown ∨ 1920 < a.front)) := by
  obtain ⟨input, output, s, hread, hresp, hrun, rfl⟩ := serve_eq_ok.mp hserve
  have hfits : grown → a.size ≤ stubBuffSize := by
    by_contra hlong
    cases hread.symm.trans ((h.input.read a).2 hlong fuel)
  obtain ⟨fuel₁, input', hread', hrest⟩ := (h.input.read a).1 hfits
  obtain rfl := BuffOp.run_unique hread hread'
  obtain ⟨l, hsized, hlt⟩ := h.output
  obtain ⟨fuel₂, output', hrun', hout, hshort⟩ := hsized.respond hlt v.stub.ackEnabled reply
  obtain rfl := BuffOp.run_unique hrun hrun'
  exact ⟨hresp, hfits, hout, fun hle => ⟨hrest, _, hout, hshort hle⟩⟩

-- ---------------------------------------------------------------------------
-- A sequence of packets
-- ---------------------------------------------------------------------------

theorem length_response (ackEnabled : Bool) (reply : List U8) :
    (response ackEnabled reply).length ≤ reply.length + 5 := by
  have hsum : (print02x (checksum reply).toNat).length = 2 := by
    rw [print02x_eq (checksum reply).isLt]
    rfl
  have hopen : (openChars ackEnabled).length ≤ 2 := by cases ackEnabled <;> decide
  have hhash : (ascii "#").length = 1 := rfl
  simp only [response, List.length_append]
  omega

theorem serveAll_ok (h : v.AtRest grown)
    (hreq : requests ops v.stub (as.map Arrival.input) = .ok (replies, s))
    (hfits : ReadsFit grown as) (hshort : ∀ reply ∈ replies, reply.length ≤ 2043) :
    ∃ fuel v', serveAll ops fuel v as = .ok (replies, v') := by
  induction as generalizing v grown replies with
  | nil =>
    cases hreq
    exact ⟨0, v, rfl⟩
  | cons a as ih =>
    obtain ⟨⟨reply, s₁⟩, hresp, hreq⟩ := bind_eq_ok.mp hreq
    obtain ⟨⟨rest, s₂⟩, hreq, hpure⟩ := bind_eq_ok.mp hreq
    cases hpure
    obtain ⟨fuel₁, v₁, hserve⟩ := h.serve_ok hresp hfits.1
    obtain ⟨hresp', -, -, hrest⟩ := h.serve_cases hserve
    obtain ⟨-, rfl⟩ := Prod.mk.inj (Except.ok.inj (hresp.symm.trans hresp'))
    have hle := hshort reply List.mem_cons_self
    have hlength := length_response v.stub.ackEnabled reply
    obtain ⟨fuel₂, v₂, hserveAll⟩ := ih (hrest (by omega)) hreq hfits.2 fun r hr =>
      hshort r (List.mem_cons_of_mem _ hr)
    exact ⟨max fuel₁ fuel₂, v₂, serveAll_cons_eq_ok.mpr
      ⟨reply, rest, v₁, serve_mono hserve (Nat.le_max_left _ _),
        serveAll_mono hserveAll (Nat.le_max_right _ _), rfl⟩⟩

theorem serveAll_cases (h : v.AtRest grown) (hserve : serveAll ops fuel v as = .ok (replies, v'))
    (hshort : ∀ reply ∈ replies, reply.length ≤ 2043) :
    requests ops v.stub (as.map Arrival.input) = .ok (replies, v'.stub) ∧ ReadsFit grown as ∧
      v'.AtRest (GrownAfter grown as) := by
  induction as generalizing v grown replies with
  | nil =>
    cases hserve
    refine ⟨rfl, trivial, ?_⟩
    simpa [GrownAfter] using h
  | cons a as ih =>
    obtain ⟨reply, rest, v₁, hone, htail, rfl⟩ := serveAll_cons_eq_ok.mp hserve
    obtain ⟨hresp, hfits, -, hrest⟩ := h.serve_cases hone
    have hle := hshort reply List.mem_cons_self
    have hlength := length_response v.stub.ackEnabled reply
    obtain ⟨hreq, hfits', hrest'⟩ := ih (hrest (by omega)) htail fun r hr =>
      hshort r (List.mem_cons_of_mem _ hr)
    refine ⟨?_, ⟨hfits, hfits'⟩, by rwa [grownAfter_cons]⟩
    simp only [List.map_cons, requests, hresp, ok_bind, hreq]
    rfl

end Buffered.AtRest

end

end SwitchV32
