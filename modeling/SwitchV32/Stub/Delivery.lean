import SwitchV32.Stub.Session

/-!
# How the bytes are delivered

A verdict of the parser forgets the rest of its read. A session is the same for
every delivery if nothing would have come of what may be forgotten.
-/

namespace SwitchV32

-- ---------------------------------------------------------------------------
-- Settled streams
-- ---------------------------------------------------------------------------

/-- A parser that was reset, after the bytes. -/
def parse (ackEnabled : Bool) (l : List U8) : Reader :=
  l.foldl (scan ackEnabled) ⟨.reset, 0, 0, 0, .reset⟩

/-- Whether a packet needs a `+` after the verdict. -/
def ackAfter (ackEnabled : Bool) (r : Reader) : Bool :=
  if r.state = .finished ∧
    cString (field (some 0x3a) r.input.payload).1 = ascii "QStartNoAckMode" then false
  else ackEnabled

/-- A `-` is what a resend after the verdict would send. -/
def MinusLast (output : Pkt) (r : Reader) : Prop :=
  r.state = .error ∨ (r.state = .nack ∧ output.data = ascii "-")

/-- Nothing comes of the bytes: no packet is accepted, and no `-` is sent. -/
def Calm (ackEnabled : Bool) (minusLast : Prop) (l : List U8) : Prop :=
  (parse ackEnabled l).state ≠ .error ∧ (parse ackEnabled l).state ≠ .finished ∧
    ((parse ackEnabled l).state = .nack → ¬ minusLast)

/-- Behind the first verdict, nothing comes of the rest of the stream from any byte on. -/
def Settled (ackEnabled : Bool) (output : Pkt) (bytes : List U8) : Prop :=
  ∀ i ≤ bytes.length, (parse ackEnabled (bytes.take i)).state.final = true →
    Calm (ackAfter ackEnabled (parse ackEnabled (bytes.take i)))
      (MinusLast output (parse ackEnabled (bytes.take i))) (bytes.drop i)

instance {output : Pkt} {r : Reader} : Decidable (MinusLast output r) :=
  inferInstanceAs (Decidable (_ ∨ _))

instance {ackEnabled : Bool} {minusLast : Prop} [Decidable minusLast] {l : List U8} :
    Decidable (Calm ackEnabled minusLast l) := inferInstanceAs (Decidable (_ ∧ _ ∧ (_ → _)))

instance {ackEnabled : Bool} {output : Pkt} {bytes : List U8} :
    Decidable (Settled ackEnabled output bytes) :=
  inferInstanceAs (Decidable (∀ i ≤ _, _))

-- ---------------------------------------------------------------------------
-- Deliveries
-- ---------------------------------------------------------------------------

def handed (events : List Event) : List (List U8) :=
  events.filterMap fun
    | .accepted payload => some payload
    | .minus => none

def Stub.delivers {ρ : Type} (s : Stub ρ) (reads : List (List U8)) : Stub ρ :=
  { s with socket := reads.map .bytes }

/-- Each delivery of the bytes in reads of up to `n` has the same packets for the builder and the
same `-` for the client. -/
def SplitFree {ρ : Type} (ops : SysOps ρ) (s : Stub ρ) (n : Nat) (bytes : List U8) : Prop :=
  ∀ reads reads', Cut bytes reads → (∀ rd ∈ reads, rd.length ≤ n) →
    Cut bytes reads' → (∀ rd ∈ reads', rd.length ≤ n) →
    handed (session ops (s.delivers reads)) = handed (session ops (s.delivers reads')) ∧
      (session ops (s.delivers reads)).count .minus = (session ops (s.delivers reads')).count .minus

/-- Once a packet of the stream is accepted, the builder answers and leaves the socket alone. -/
def BuilderAnswers {ρ : Type} (ops : SysOps ρ) (s : Stub ρ) (bytes : List U8) : Prop :=
  ∀ i ≤ bytes.length, (parse s.ackEnabled (bytes.take i)).state = .finished → ∀ socket,
    ∃ s', sadBuilderBuildResp ops { s with
      target := (ops.isHalted s.target).2
      reader := (bytes.take i).foldl (scan s.ackEnabled) s.reader
      output := .reset
      socket } = .ok s' ∧ s'.socket = socket

-- ---------------------------------------------------------------------------
-- The bytes before a verdict
-- ---------------------------------------------------------------------------

/-- The readers differ in digits of a packet that is gone. -/
structure Reader.Like (r r' : Reader) : Prop where
  state : r.state = r'.state
  parseIdx : r.parseIdx = r'.parseIdx
  input : r.input = r'.input
  digit0 : r.state = .checksumDigit1 → r.digit0 = r'.digit0

section
variable {ackEnabled : Bool} {r r' : Reader} {b : U8} {l l' : List U8}

theorem Reader.Like.scan (h : r.Like r') :
    (scan ackEnabled r b).Like (scan ackEnabled r' b) := by
  obtain ⟨state, parseIdx, digit0, digit1, input⟩ := r
  obtain ⟨state', parseIdx', digit0', digit1', input'⟩ := r'
  obtain ⟨hstate, hidx, hinput, hdigit⟩ := h
  dsimp only at hstate hidx hinput hdigit
  subst hstate hidx hinput
  have hkeep (state : ParsState) (parseIdx : Nat) (input : Pkt) (h : state ≠ .checksumDigit1) :
      Reader.Like ⟨state, parseIdx, digit0, digit1, input⟩
        ⟨state, parseIdx, digit0', digit1', input⟩ := ⟨rfl, rfl, rfl, fun heq => absurd heq h⟩
  have hstart (input : Pkt) :
      let r := parseStart ⟨.start, parseIdx, digit0, digit1, input⟩ b
      let r' := parseStart ⟨.start, parseIdx, digit0', digit1', input⟩ b
      Reader.Like { r with parseIdx := r.parseIdx + 1 }
        { r' with parseIdx := r'.parseIdx + 1 } := by
    unfold parseStart
    split
    · exact hkeep _ _ _ (by rintro ⟨⟩)
    · exact hkeep _ _ _ (by rintro ⟨⟩)
  unfold SwitchV32.scan parseByte parseState
  cases state with
  | checksumDigit0 => exact ⟨rfl, rfl, rfl, fun _ => rfl⟩
  | checksumDigit1 =>
    obtain rfl := hdigit rfl
    exact ⟨rfl, rfl, rfl, fun _ => rfl⟩
  | nack | error | finished => exact hkeep _ _ _ (by rintro ⟨⟩)
  | start => exact hstart (input.append [b])
  | skip =>
    dsimp only [Reader.read]
    split
    · cases ackEnabled with
      | true => exact hkeep _ _ _ (by rintro ⟨⟩)
      | false => exact hkeep _ _ _ (by rintro ⟨⟩)
    · exact hkeep _ _ _ (by rintro ⟨⟩)
  | reset =>
    cases ackEnabled with
    | true =>
      dsimp only [Reader.read]
      simp only [if_true]
      split
      · exact hkeep _ _ _ (by rintro ⟨⟩)
      · split
        · exact hkeep _ _ _ (by rintro ⟨⟩)
        · exact hkeep _ _ _ (by rintro ⟨⟩)
    | false =>
      dsimp only [Reader.read]
      simp only [Bool.false_eq_true, if_false]
      split
      · exact hkeep _ _ _ (by rintro ⟨⟩)
      · exact hstart (input.append [b])

theorem foldl_like (h : r.Like r') (l : List U8) :
    (l.foldl (scan ackEnabled) r).Like (l.foldl (scan ackEnabled) r') := by
  induction l generalizing r r' with
  | nil => exact h
  | cons b l ih => exact ih h.scan

theorem parse_like (ackEnabled : Bool) (r : Reader) (l : List U8) :
    (l.foldl (scan ackEnabled) r.reset).Like (parse ackEnabled l) := by
  have hreset : r.reset.Like ⟨.reset, 0, 0, 0, .reset⟩ :=
    { state := rfl, parseIdx := rfl, input := rfl, digit0 := by rintro ⟨⟩ }
  exact foldl_like hreset l

theorem parse_append (l l' : List U8) :
    parse ackEnabled (l ++ l') = l'.foldl (scan ackEnabled) (parse ackEnabled l) :=
  List.foldl_append

theorem parse_caughtUp (l : List U8) : (parse ackEnabled l).CaughtUp :=
  Reader.CaughtUp.foldl ⟨rfl, Nat.le_refl 0⟩

theorem parse_final (h : (parse ackEnabled l).state.final = true) (l' : List U8) :
    (parse ackEnabled (l ++ l')).state = (parse ackEnabled l).state ∧
      (parse ackEnabled (l ++ l')).input.payload = (parse ackEnabled l).input.payload := by
  rw [parse_append, foldl_scan_final h]
  exact ⟨rfl, payload_append (parse_caughtUp l).endPktData⟩

end

-- ---------------------------------------------------------------------------
-- The acknowledgements after a response
-- ---------------------------------------------------------------------------

section
variable {ρ : Type} {ops : SysOps ρ} {s s' : Stub ρ} {q post : List U8} {cmd : U8}

theorem read_of_field {c : U8} {name : List U8} (hholds : s.input.Holds q post)
    (hread : s.input.read s.input.startPktData = .ok cmd)
    (hname : cString (field (some 0x3a) q).1 = c :: name) : cmd = c := by
  cases q with
  | nil => cases hname
  | cons b q =>
    obtain ⟨pre, hdata, hstart, -⟩ := hholds
    have hfirst : s.input.read s.input.startPktData = .ok b := by
      rw [hstart]
      exact read_append_right (i := 0) hdata rfl
    obtain ⟨tok, htok⟩ : ∃ tok, (field (some 0x3a) (b :: q)).1 = b :: tok := by
      unfold field
      dsimp only
      split
      · exact ⟨_, rfl⟩
      · exact ⟨_, rfl⟩
    have hzero : b ≠ 0 := by
      rintro rfl
      rw [htok] at hname
      cases hname
    simp only [htok, cString, List.takeWhile_cons, ne_eq, hzero, not_false_eq_true, decide_true,
      if_true] at hname
    cases hread.symm.trans hfirst
    exact (List.cons.inj hname).1

/-- Only `QStartNoAckMode` makes a difference. -/
theorem sadBuilderBuildResp_ack (hholds : s.input.Holds q post)
    (h : sadBuilderBuildResp ops s = .ok s') :
    s'.ackEnabled = if cString (field (some 0x3a) q).1 = ascii "QStartNoAckMode" then false
      else s.ackEnabled := by
  obtain ⟨cmd, hread, h⟩ := bind_eq_ok.mp h
  obtain ⟨s₁, hbuild, h⟩ := bind_eq_ok.mp h
  cases h
  by_cases hcmd : cmd = 0x51
  · subst hcmd
    obtain ⟨cursor, p, htoken, hcut⟩ := sadCursorTokenizer_at hholds.at (some 0x3a)
    have hinput : s.openResp.input = s.input := rfl
    have hbuildQ : buildQ s.openResp = .ok s₁ := hbuild
    unfold buildQ at hbuildQ
    simp only [hinput, sadExtractStr, htoken, ok_bind, Stub.input_setInput, hcut.str] at hbuildQ
    split at hbuildQ
    · rename_i hname
      cases hbuildQ
      rw [if_pos hname]
      rfl
    · rename_i hname
      cases hbuildQ
      rw [if_neg hname]
      rfl
  · have hname : cString (field (some 0x3a) q).1 ≠ ascii "QStartNoAckMode" :=
      fun hname => hcmd (read_of_field hholds hread hname)
    rw [if_neg hname]
    exact (builder_builds hcmd _ hbuild).ackEnabled

end

-- ---------------------------------------------------------------------------
-- The rest of a settled stream
-- ---------------------------------------------------------------------------

section
variable {ρ : Type} {ops : SysOps ρ} {s : Stub ρ} {bytes l t : List U8} {minusLast : Prop}
variable {ackEnabled : Bool} {output : Pkt} {fuel : Nat}

theorem Settled.calm (h : Settled ackEnabled output (l ++ t))
    (hfinal : (parse ackEnabled l).state.final = true) {u : List U8} (hu : u <:+ t) :
    Calm (ackAfter ackEnabled (parse ackEnabled l)) (MinusLast output (parse ackEnabled l)) u := by
  obtain ⟨v, rfl⟩ := hu
  obtain ⟨hstate, hpayload⟩ := parse_final hfinal v
  have hle : (l ++ v).length ≤ (l ++ (v ++ u)).length := by simp
  have hcalm := h (l ++ v).length hle
  rw [← List.append_assoc, List.take_left, List.drop_left, hstate] at hcalm
  have hack : ackAfter ackEnabled (parse ackEnabled (l ++ v)) =
      ackAfter ackEnabled (parse ackEnabled l) := by
    simp only [ackAfter, hstate, hpayload]
  have hminus : MinusLast output (parse ackEnabled (l ++ v)) =
      MinusLast output (parse ackEnabled l) := by
    simp only [MinusLast, hstate]
  rw [hack, hminus] at hcalm
  exact hcalm hfinal

theorem calm_events (ops : SysOps ρ) (fuel : Nat) {reads : List (List U8)} {r : Reader}
    {v : List U8}
    (hcalm : ∀ u, u <:+ t → Calm ackEnabled minusLast u) (hack : s.ackEnabled = ackEnabled)
    (hreader : s.reader = v.foldl (scan ackEnabled) r.reset)
    (hminus : s.output.data = ascii "-" → minusLast) (hrest : v ++ reads.flatten <:+ t)
    (hsocket : s.socket = reads.map .bytes) : shown (cmdsLoop ops fuel s).1 = [] := by
  induction reads generalizing s r v fuel with
  | nil => exact cmdsLoop_nil hsocket
  | cons rd reads ih =>
    cases fuel with
    | zero => rfl
    | succ fuel =>
      have hread : s.reader.CaughtUp := by
        rw [hreader]
        exact caughtUp_reset.foldl
      obtain ⟨events, next, hround, hloop⟩ := cmdsLoop_round ops hread hsocket
      rw [hack, hreader, ← List.foldl_append] at hround
      have hsplit : v ++ (rd :: reads).flatten = (v ++ rd) ++ reads.flatten := by simp
      rw [hsplit] at hrest
      have hlike := parse_like ackEnabled r (v ++ rd)
      obtain ⟨herror, hfinished, hnack⟩ := hcalm _ hrest
      have hfinal (hf : ((v ++ rd).foldl (scan ackEnabled) r.reset).state.final = true) :
          (parse ackEnabled ((v ++ rd) ++ reads.flatten)).state =
            ((v ++ rd).foldl (scan ackEnabled) r.reset).state := by
        rw [hlike.state] at hf ⊢
        exact (parse_final hf _).1
      have htail : [] ++ reads.flatten <:+ t := (List.suffix_append _ _).trans hrest
      rw [hloop]
      cases hround with
      | pending h => exact ih fuel hack rfl hminus hrest rfl
      | error h => exact absurd ((hfinal (by rw [h]; rfl)).trans h) herror
      | nack h =>
        have hsent : shown (sadBuffToSocket s.output) = [] := by
          rw [shown_sadBuffToSocket]
          exact if_neg fun heq => hnack ((hfinal (by rw [h]; rfl)).trans h) (hminus heq)
        rw [hsent]
        exact ih fuel hack (v := []) rfl hminus htail rfl
      | fault h => exact absurd ((hfinal (by rw [h]; rfl)).trans h) hfinished
      | answered h => exact absurd ((hfinal (by rw [h]; rfl)).trans h) hfinished

def verdictEvents (output : Pkt) (r : Reader) : List Event :=
  match r.state with
  | .error => [.minus]
  | .nack => shown (sadBuffToSocket output)
  | .finished => [.accepted r.input.payload]
  | _ => []

/-- The parser is reset, and what follows is up to the acknowledgements and to the last `-`. -/
structure Answered (s : Stub ρ) (r : Reader) (socket : List ReadResult) (s' : Stub ρ) : Prop where
  ackEnabled : s'.ackEnabled = ackAfter s.ackEnabled r
  output : s'.output.data = ascii "-" ↔ MinusLast s.output r
  reader : ∃ r' : Reader, s'.reader = r'.reset
  socket : s'.socket <:+ socket

theorem Round.final {r : Reader} {socket : List ReadResult} {events : List Event}
    {next : Option (Stub ρ)} (h : Round ops s r socket events next)
    (hfinal : r.state.final = true) (hseen : Seen s.ackEnabled l r) :
    events = verdictEvents s.output r ∧ ∀ s' ∈ next, Answered s r socket s' := by
  have hack (hstate : r.state ≠ .finished) : s.ackEnabled = ackAfter s.ackEnabled r := by
    rw [ackAfter, if_neg fun h => hstate h.1]
  cases h with
  | pending h =>
    rw [hfinal] at h
    cases h
  | error h =>
    refine ⟨by simp only [verdictEvents, h], ?_⟩
    rintro _ ⟨⟩
    exact ⟨hack (by rw [h]; rintro ⟨⟩), iff_of_true rfl (.inl h), ⟨r, rfl⟩, List.suffix_rfl⟩
  | nack h =>
    refine ⟨by simp only [verdictEvents, h], ?_⟩
    rintro _ ⟨⟩
    refine ⟨hack (by rw [h]; rintro ⟨⟩), ?_, ⟨r, rfl⟩, List.suffix_rfl⟩
    simp only [MinusLast, h, true_and, reduceCtorEq, false_or]
  | fault h =>
    refine ⟨by simp only [verdictEvents, h], ?_⟩
    rintro _ ⟨⟩
  | answered h hbuild =>
    rename_i s₁
    refine ⟨by simp only [verdictEvents, h], ?_⟩
    rintro _ ⟨⟩
    unfold Seen at hseen
    simp only [h] at hseen
    obtain ⟨pre, q, post, -, -, -, hholds, -⟩ := hseen
    have hq : ackAfter s.ackEnabled r =
        if cString (field (some 0x3a) q).1 = ascii "QStartNoAckMode" then false
        else s.ackEnabled := by
      simp only [ackAfter, h, hholds.payload, true_and]
    have hsent : shown (sadBuffToSocket s₁.output) = [] :=
      sadBuffToSocket_resp (s := { s with reader := r, socket }) hbuild
    refine ⟨?_, iff_of_false (fun hout => ?_) ?_, ⟨_, rfl⟩, sadBuilderBuildResp_socket hbuild⟩
    · have hresp := sadBuilderBuildResp_ack
        (s := { s with reader := r, output := .reset, socket }) hholds hbuild
      exact hresp.trans hq.symm
    · have hminus : s₁.output.data = ascii "-" := hout
      rw [shown_sadBuffToSocket, if_pos hminus] at hsent
      cases hsent
    · simp only [MinusLast, h, reduceCtorEq, false_and, or_self, not_false_eq_true]

theorem verdictEvents_pending {r : Reader} (h : r.state.final = false) :
    verdictEvents output r = [] := by
  unfold verdictEvents
  cases hr : r.state with
  | nack | error | finished =>
    rw [hr] at h
    cases h
  | reset | start | skip | checksumDigit0 | checksumDigit1 => rfl

theorem verdictEvents_like (output : Pkt) {r r' : Reader} (hstate : r.state = r'.state)
    (hpayload : r.input.payload = r'.input.payload) :
    verdictEvents output r = verdictEvents output r' := by
  simp only [verdictEvents, hstate, hpayload]

/-- A settled stream shows its first verdict, wherever it is cut. -/
theorem settled_events (ops : SysOps ρ) {fuel : Nat} {reads : List (List U8)} {r : Reader}
    (h : Settled ackEnabled output (l ++ reads.flatten)) (hack : s.ackEnabled = ackEnabled)
    (hout : s.output = output) (hreader : s.reader = l.foldl (scan ackEnabled) r.reset)
    (hfinal : s.reader.state.final = false) (hsocket : s.socket = reads.map .bytes)
    (hfuel : reads.length < fuel) :
    shown (cmdsLoop ops fuel s).1 =
      verdictEvents output (parse ackEnabled (l ++ reads.flatten)) := by
  induction reads generalizing s l fuel with
  | nil =>
    rw [hreader, (parse_like ackEnabled r l).state] at hfinal
    rw [cmdsLoop_nil hsocket, List.flatten_nil, List.append_nil, verdictEvents_pending hfinal]
  | cons rd reads ih =>
    obtain ⟨fuel, rfl⟩ := Nat.exists_eq_add_one_of_ne_zero (Nat.ne_of_gt (Nat.zero_lt_of_lt hfuel))
    have hread : s.reader.CaughtUp := by
      rw [hreader]
      exact caughtUp_reset.foldl
    obtain ⟨events, next, hround, hloop⟩ := cmdsLoop_round ops hread hsocket
    rw [hack, hreader, ← List.foldl_append] at hround
    have hsplit : l ++ (rd :: reads).flatten = (l ++ rd) ++ reads.flatten := by simp
    rw [hsplit] at h ⊢
    rw [hloop]
    have hlike := parse_like ackEnabled r (l ++ rd)
    cases hrf : ((l ++ rd).foldl (scan ackEnabled) r.reset).state.final with
    | false =>
      cases hround with
      | pending => exact ih h hack hout rfl hrf rfl (by simpa using hfuel)
      | error hstate | nack hstate | fault hstate | answered hstate =>
        rw [hstate] at hrf
        cases hrf
    | true =>
      have hseen : Seen s.ackEnabled (l ++ rd) ((l ++ rd).foldl (scan ackEnabled) r.reset) := by
        rw [hack]
        exact (seen_reset r).foldl caughtUp_reset (l ++ rd)
      obtain ⟨rfl, hnext⟩ := hround.final hrf hseen
      have hpf : (parse ackEnabled (l ++ rd)).state.final = true := by rwa [← hlike.state]
      obtain ⟨hstate, hpayload⟩ := parse_final hpf reads.flatten
      rw [hout, verdictEvents_like output (hlike.state.trans hstate.symm)
        ((congrArg Pkt.payload hlike.input).trans hpayload.symm)]
      cases next with
      | none => exact List.append_nil _
      | some s' =>
        obtain ⟨hack', hout', ⟨r', hreader'⟩, hsuffix⟩ := hnext s' rfl
        obtain ⟨reads', ⟨front, rfl⟩, hsocket'⟩ := List.suffix_map_iff.mp hsuffix
        have hafter : ackAfter s.ackEnabled ((l ++ rd).foldl (scan ackEnabled) r.reset) =
            ackAfter ackEnabled (parse ackEnabled (l ++ rd)) := by
          simp only [ackAfter, hack, hlike.state, hlike.input]
        have hminus : MinusLast s.output ((l ++ rd).foldl (scan ackEnabled) r.reset) =
            MinusLast output (parse ackEnabled (l ++ rd)) := by
          simp only [MinusLast, hout, hlike.state]
        have hquiet := calm_events ops fuel (v := []) (fun u hu => h.calm hpf hu)
          (hack'.trans hafter) hreader' (hminus ▸ hout'.mp) (by simp) hsocket'
        rw [Option.elim_some, hquiet, List.append_nil]

theorem Round.answers {r : Reader} {socket : List ReadResult} {events : List Event}
    {next : Option (Stub ρ)} (h : Round ops s r socket events next)
    (hbuilder : r.state = .finished → ∃ s', sadBuilderBuildResp ops
      { s with reader := r, output := .reset, socket } = .ok s' ∧ s'.socket = socket) :
    ∃ s' ∈ next, s'.socket = socket := by
  cases h with
  | pending | error | nack => exact ⟨_, rfl, rfl⟩
  | fault h hbuild =>
    obtain ⟨s', hok, -⟩ := hbuilder h
    cases hok.symm.trans hbuild
  | answered h hbuild =>
    obtain ⟨s', hok, hsocket⟩ := hbuilder h
    cases hok.symm.trans hbuild
    exact ⟨_, rfl, hsocket⟩

-- ---------------------------------------------------------------------------
-- All deliveries
-- ---------------------------------------------------------------------------

theorem length_handed (events : List Event) :
    (handed events).length + events.count .minus = events.length := by
  induction events with
  | nil => rfl
  | cons e events ih =>
    cases e with
    | accepted payload =>
      have hhanded : handed (.accepted payload :: events) = payload :: handed events := rfl
      rw [hhanded, List.count_cons_of_ne (by rintro ⟨⟩), List.length_cons, List.length_cons, ← ih]
      omega
    | minus =>
      have hhanded : handed (.minus :: events) = handed events := rfl
      rw [hhanded, List.count_cons_self, List.length_cons, ← ih]
      omega

theorem Settled.splitFree (ops : SysOps ρ) (hreader : s.reader = s.reader.reset)
    (h : Settled s.ackEnabled s.output bytes) (n : Nat) : SplitFree ops s n bytes := by
  have hsession (reads) (hcut : Cut bytes reads) : session ops (s.delivers reads) =
      if (ops.isHalted s.target).1 then verdictEvents s.output (parse s.ackEnabled bytes)
      else [] := by
    cases hhalted : (ops.isHalted s.target).1 with
    | false => exact session_running hhalted
    | true =>
      have hsettled : Settled s.ackEnabled s.output ([] ++ reads.flatten) := by rwa [hcut.flatten]
      have hstate : s.reader.state.final = false := by
        rw [hreader]
        rfl
      have hfuel : reads.length < (s.delivers reads).socket.length + 1 := by
        simp [Stub.delivers]
      have hevents := settled_events ops
        (s := { s.delivers reads with target := (ops.isHalted s.target).2 })
        hsettled rfl rfl hreader hstate rfl hfuel
      rw [session_eq (s := s.delivers reads) hhalted, if_pos rfl, ← hcut.flatten]
      exact hevents
  intro reads reads' hcut _ hcut' _
  rw [hsession reads hcut, hsession reads' hcut']
  exact ⟨rfl, rfl⟩

theorem cmdsLoop_verdict (ops : SysOps ρ) {r : Reader} (rd : List U8) (socket : List ReadResult)
    (hreader : s.reader = r.reset) (hsocket : s.socket = .bytes rd :: socket)
    (hfinal : (parse s.ackEnabled rd).state.final = true) :
    ∃ next, Round ops s (rd.foldl (scan s.ackEnabled) r.reset) socket
        (verdictEvents s.output (parse s.ackEnabled rd)) next ∧
      (∀ s' ∈ next, Answered s (parse s.ackEnabled rd) socket s') ∧
      ∀ fuel, shown (cmdsLoop ops (fuel + 1) s).1 =
        verdictEvents s.output (parse s.ackEnabled rd) ++
          next.elim [] fun s' => shown (cmdsLoop ops fuel s').1 := by
  have hread : s.reader.CaughtUp := by
    rw [hreader]
    exact caughtUp_reset
  obtain ⟨events, next, hround, hloop⟩ := cmdsLoop_round ops hread hsocket
  rw [hreader] at hround
  have hlike := parse_like s.ackEnabled r rd
  rw [← hlike.state] at hfinal
  obtain ⟨rfl, hnext⟩ := hround.final hfinal ((seen_reset r).foldl caughtUp_reset rd)
  have hevents := verdictEvents_like s.output hlike.state
    (congrArg Pkt.payload hlike.input)
  rw [hevents] at hround hloop
  refine ⟨next, hround, fun s' hs' => ?_, hloop⟩
  obtain ⟨hack, hout, hreset, hsuffix⟩ := hnext s' hs'
  refine ⟨?_, ?_, hreset, hsuffix⟩
  · rw [hack]
    simp only [ackAfter, hlike.state, hlike.input]
  · rw [hout]
    simp only [MinusLast, hlike.state]

theorem verdict_of_not_calm (h : ¬ Calm ackEnabled minusLast t)
    (hout : output.data = ascii "-" ↔ minusLast) :
    (parse ackEnabled t).state.final = true ∧
      verdictEvents output (parse ackEnabled t) ≠ [] := by
  unfold Calm at h
  unfold verdictEvents
  cases hr : (parse ackEnabled t).state with
  | error | finished => exact ⟨rfl, List.cons_ne_nil _ _⟩
  | nack =>
    refine ⟨rfl, fun hnil => h ⟨by rw [hr]; rintro ⟨⟩, by rw [hr]; rintro ⟨⟩, fun _ hm => ?_⟩⟩
    simp only [shown_sadBuffToSocket, if_pos (hout.mpr hm)] at hnil
    cases hnil
  | reset | start | skip | checksumDigit0 | checksumDigit1 =>
    exact absurd ⟨by rw [hr]; rintro ⟨⟩, by rw [hr]; rintro ⟨⟩, by rw [hr]; rintro ⟨⟩⟩ h

theorem SplitFree.settled {n : Nat} (h : SplitFree ops s n bytes)
    (hreader : s.reader = s.reader.reset) (hhalted : (ops.isHalted s.target).1 = true)
    (hn : bytes.length ≤ n) (hanswers : BuilderAnswers ops s bytes) :
    Settled s.ackEnabled s.output bytes := by
  intro i hle hfinal
  by_contra hnot
  have hbuilder := hanswers i hle
  generalize hl : bytes.take i = l at hfinal hnot hbuilder
  generalize ht : bytes.drop i = t at hnot
  obtain rfl : l ++ t = bytes := by rw [← hl, ← ht, List.take_append_drop]
  clear hl ht hanswers hle
  have hl_ne : l ≠ [] := by
    rintro rfl
    cases hfinal
  have ht_ne : t ≠ [] := by
    rintro rfl
    exact hnot ⟨by rintro ⟨⟩, by rintro ⟨⟩, by rintro ⟨⟩⟩
  -- one read for all of it, and one for each part
  have hone : session ops (s.delivers [l ++ t]) =
      verdictEvents s.output (parse s.ackEnabled l) := by
    obtain ⟨hstate, hpayload⟩ := parse_final hfinal t
    obtain ⟨next, -, hnext, hloop⟩ := cmdsLoop_verdict ops (l ++ t) []
      (s := { s.delivers [l ++ t] with target := (ops.isHalted s.target).2 }) hreader rfl
      ((congrArg ParsState.final hstate).trans hfinal)
    rw [session_eq (s := s.delivers [l ++ t]) hhalted,
      ← verdictEvents_like s.output hstate hpayload]
    refine (hloop _).trans ?_
    cases next with
    | none => exact List.append_nil _
    | some s' =>
      rw [Option.elim_some, cmdsLoop_nil (List.suffix_nil.mp (hnext s' rfl).socket),
        List.append_nil]
      rfl
  obtain ⟨events, htwo, hsome⟩ : ∃ events, session ops (s.delivers [l, t]) =
      verdictEvents s.output (parse s.ackEnabled l) ++ events ∧ events ≠ [] := by
    obtain ⟨next, hround, hnext, hloop⟩ := cmdsLoop_verdict ops l [.bytes t]
      (s := { s.delivers [l, t] with target := (ops.isHalted s.target).2 }) hreader rfl hfinal
    have hanswered (hstate : (l.foldl (scan s.ackEnabled) s.reader.reset).state = .finished) :
        ∃ s', sadBuilderBuildResp ops { s with
          target := (ops.isHalted s.target).2
          reader := l.foldl (scan s.ackEnabled) s.reader.reset
          output := .reset
          socket := [.bytes t] } = .ok s' ∧ s'.socket = [.bytes t] := by
      rw [(parse_like s.ackEnabled s.reader l).state] at hstate
      have hresp := hbuilder hstate [.bytes t]
      rwa [hreader] at hresp
    obtain ⟨s', hs', hsocket⟩ := hround.answers hanswered
    obtain rfl : next = some s' := hs'
    obtain ⟨hack, hout, ⟨r', hreader'⟩, -⟩ := hnext s' rfl
    have hnot' : ¬ Calm s'.ackEnabled _ t := hack ▸ hnot
    obtain ⟨hfinal', hshown⟩ := verdict_of_not_calm hnot' hout
    obtain ⟨next', -, -, hloop'⟩ := cmdsLoop_verdict ops t [] hreader' hsocket hfinal'
    refine ⟨shown (cmdsLoop ops 2 s').1, ?_, ?_⟩
    · rw [session_eq (s := s.delivers [l, t]) hhalted]
      exact hloop 2
    · rw [hloop' 1]
      exact List.append_ne_nil_of_left_ne_nil hshown _
  have hcut₁ : Cut (l ++ t) [l ++ t] := ⟨List.append_nil _, by simpa using fun _ => ht_ne⟩
  have hcut₂ : Cut (l ++ t) [l, t] := ⟨by simp, by simpa using ⟨hl_ne, ht_ne⟩⟩
  rw [List.length_append] at hn
  obtain ⟨hhanded, hcount⟩ := h _ _ hcut₁ (by simpa using hn) hcut₂ (by simp; omega)
  have hlength := length_handed (session ops (s.delivers [l, t]))
  rw [← hhanded, ← hcount, length_handed, hone, htwo, List.length_append] at hlength
  exact hsome (List.length_eq_zero_iff.mp (by omega))

/-- A settled stream has the same session however it is delivered; and where all of it fits into
one read and its packets are answered, no other stream has. -/
theorem splitFree_iff (ops : SysOps ρ) (s : Stub ρ) (bytes : List U8)
    (hreader : s.reader = s.reader.reset) :
    (Settled s.ackEnabled s.output bytes → ∀ n, SplitFree ops s n bytes) ∧
    ((ops.isHalted s.target).1 = true → BuilderAnswers ops s bytes → ∀ n, bytes.length ≤ n →
      (SplitFree ops s n bytes ↔ Settled s.ackEnabled s.output bytes)) := by
  refine ⟨fun h n => h.splitFree ops hreader n, fun hhalted hanswers n hn => ⟨fun h => ?_, ?_⟩⟩
  · exact h.settled hreader hhalted hn hanswers
  · exact fun h => h.splitFree ops hreader n

theorem answers_qstmrk (h : s.input.data[s.input.startPktData]? = some 0x3f) :
    ∃ s', sadBuilderBuildResp ops s = .ok s' ∧ s'.socket = s.socket := by
  have hread : s.input.read s.input.startPktData = .ok 0x3f := by rw [Pkt.read, h]
  simp only [sadBuilderBuildResp, hread, ok_bind]
  exact ⟨_, rfl, rfl⟩

/-- One `?`, and two of them. -/
theorem splitFree_iff_qstmrk :
    SplitFree .idle (.connected []) 4096 (ascii "+$?#3f") ∧
      ¬ SplitFree .idle (.connected []) 4096 (ascii "+$?#3f+$?#3f") := by
  refine ⟨(splitFree_iff .idle (.connected []) _ rfl).1 (by decide) _, fun h => ?_⟩
  have hanswers : BuilderAnswers .idle (.connected []) (ascii "+$?#3f+$?#3f") := by
    intro i hi hstate socket
    have hall : ∀ i ≤ (ascii "+$?#3f+$?#3f").length,
        (parse true ((ascii "+$?#3f+$?#3f").take i)).state = .finished →
          (parse true ((ascii "+$?#3f+$?#3f").take i)).input.data[
            (parse true ((ascii "+$?#3f+$?#3f").take i)).input.startPktData]? = some 0x3f := by
      decide
    exact answers_qstmrk (s := { Stub.connected [] with
      reader := parse true ((ascii "+$?#3f+$?#3f").take i), output := .reset, socket })
      (hall i hi hstate)
  have hsettled :=
    ((splitFree_iff .idle (.connected []) _ rfl).2 rfl hanswers 4096 (by decide)).mp h
  revert hsettled
  decide

/-- Two packets in one read or in two, and the checksum digits in a read of their own when there
are no acknowledgements. -/
theorem splitFree_fails :
    ¬ SplitFree .idle (.connected []) 4096 (ascii "+$?#3f+$?#3f") ∧
      ¬ SplitFree .idle { Stub.connected [] with ackEnabled := false } 4096 (ascii "$?#3f") := by
  constructor
  · intro h
    have hsame := (h [ascii "+$?#3f+$?#3f"] [ascii "+$?#3f", ascii "+$?#3f"] ⟨rfl, by decide⟩
      (by decide) ⟨rfl, by decide⟩ (by decide)).1
    revert hsame
    decide
  · intro h
    have hsame := (h [ascii "$?#3f"] [ascii "$?#", ascii "3f"] ⟨rfl, by decide⟩
      (by decide) ⟨rfl, by decide⟩ (by decide)).2
    revert hsame
    decide

end

end SwitchV32
