import SwitchV32.Stub.Builder
import SwitchV32.Stub.Frame

/-!
# What the builders write

Every builder appends bytes that are no delimiters of a packet, so that the
response is a frame of its payload, and the parser of the other side accepts it.
-/

namespace SwitchV32

/-- The second buffer is the first with plain bytes behind. -/
def Pkt.AppendsPlain (o o' : Pkt) : Prop := ∃ l, Plain l ∧ o' = o.append l

namespace Pkt.AppendsPlain

variable {o o' o'' : Pkt} {l : List U8}

theorem refl (o : Pkt) : o.AppendsPlain o := ⟨[], plain_nil, by simp [append]⟩

theorem trans (h : o.AppendsPlain o') (h' : o'.AppendsPlain o'') : o.AppendsPlain o'' := by
  obtain ⟨l, hl, rfl⟩ := h
  obtain ⟨l', hl', rfl⟩ := h'
  exact ⟨l ++ l', plain_append.mpr ⟨hl, hl'⟩, by simp [append]⟩

theorem of_plain (h : Plain l) : o.AppendsPlain (o.append l) := ⟨l, h, rfl⟩

end Pkt.AppendsPlain

-- ---------------------------------------------------------------------------
-- What is printed
-- ---------------------------------------------------------------------------

section
variable {l src : List U8} {n : Nat}

theorem plain_flatMap {α : Type} {l : List α} {f : α → List U8} (h : ∀ a ∈ l, Plain (f a)) :
    Plain (l.flatMap f) := by
  intro b hb
  obtain ⟨a, ha, hb⟩ := List.mem_flatMap.mp hb
  exact h a ha b hb

theorem hexPair_plain (v : U8) : Plain (hexPair v) := by
  have hv := v.isLt
  rw [hexPair_digits]
  exact plain_append.mpr ⟨hexChar_plain (by omega), hexChar_plain (by omega)⟩

theorem printU_plain (n : Nat) : Plain (printU n) := by
  intro b hb
  obtain ⟨c, hc, rfl⟩ := List.mem_map.mp hb
  have hdigit : 48 ≤ c.toNat ∧ c.toNat ≤ 57 :=
    Char.isDigit_iff_toNat.mp (Nat.isDigit_of_mem_toDigits (by decide) (by decide) hc)
  have hne (k : Nat) (hk : k < 48) : BitVec.ofNat 8 c.toNat ≠ BitVec.ofNat 8 k := by
    intro heq
    have hnat := congrArg BitVec.toNat heq
    simp only [BitVec.toNat_ofNat] at hnat
    omega
  exact ⟨hne 0x24 (by decide), hne 0x23 (by decide)⟩

theorem printD_plain (v : U32) : Plain (printD v) := by
  unfold printD
  split
  · exact plain_append.mpr ⟨(by decide : Plain [0x2d]), printU_plain _⟩
  · exact printU_plain _

theorem print02x_plain (h : n < 256) : Plain (print02x n) := by
  rw [print02x_eq h]
  exact plain_append.mpr ⟨hexChar_plain (by omega), hexChar_plain (by omega)⟩

variable {ρ : Type} {ops : SysOps ρ}

@[simp] theorem length_array : (ops.array n).length = n := by simp [SysOps.array]

theorem hexChars_eq (h : n = 2 * src.length) : hexChars ops n src = src.flatMap hexPair := by
  subst h
  simp [hexChars, sadBytesToHexChars, SysOps.array]

theorem hexChars_plain (h : n = 2 * src.length) : Plain (hexChars ops n src) := by
  rw [hexChars_eq h]
  exact plain_flatMap fun v _ => hexPair_plain v

@[simp] theorem length_bytesOf {v : BitVec 64} : (bytesOf v n).length = n := by simp [bytesOf]

end

-- ---------------------------------------------------------------------------
-- The builders
-- ---------------------------------------------------------------------------

/-- Only guest memory, the registers, the threads and the breakpoints are different. -/
def Stub.Acts {ρ : Type} (s s' : Stub ρ) : Prop :=
  ∃ target breakpoints, s' = { s with target, breakpoints }

namespace Stub.Acts

variable {ρ : Type} {s s' s'' : Stub ρ}

theorem refl (s : Stub ρ) : s.Acts s := ⟨_, _, rfl⟩

theorem trans (h : s.Acts s') (h' : s'.Acts s'') : s.Acts s'' := by
  obtain ⟨target, breakpoints, rfl⟩ := h
  obtain ⟨target', breakpoints', rfl⟩ := h'
  exact ⟨_, _, rfl⟩

theorem setTarget (h : s.Acts s') (target : Target ρ) : s.Acts { s' with target } := by
  obtain ⟨target', breakpoints, rfl⟩ := h
  exact ⟨_, _, rfl⟩

theorem output (h : s.Acts s') : s'.output = s.output := by
  obtain ⟨target, breakpoints, rfl⟩ := h
  rfl

theorem reader (h : s.Acts s') : s'.reader = s.reader := by
  obtain ⟨target, breakpoints, rfl⟩ := h
  rfl

end Stub.Acts

/-- Plain bytes have been appended to the output, and the socket may have been read. -/
structure Stub.Answers {ρ : Type} (s s' : Stub ρ) : Prop where
  output : s.output.AppendsPlain s'.output
  socket : s'.socket <:+ s.socket
  ackEnabled : s'.ackEnabled = s.ackEnabled

namespace Stub.Answers

variable {ρ : Type} {s s' s'' : Stub ρ} {l : List U8}

theorem of_eq (hout : s'.output = s.output) (hsocket : s'.socket <:+ s.socket)
    (hack : s'.ackEnabled = s.ackEnabled) : s.Answers s' where
  output := hout ▸ .refl _
  socket := hsocket
  ackEnabled := hack

theorem of_io (hout : s'.output = s.output) (hsocket : s'.socket = s.socket)
    (hack : s'.ackEnabled = s.ackEnabled) : s.Answers s' :=
  .of_eq hout (hsocket ▸ List.suffix_rfl) hack

theorem trans (h : s.Answers s') (h' : s'.Answers s'') : s.Answers s'' where
  output := h.output.trans h'.output
  socket := h'.socket.trans h.socket
  ackEnabled := h'.ackEnabled.trans h.ackEnabled

theorem append (h : Plain l) : s.Answers (s.append l) := ⟨.of_plain h, List.suffix_rfl, rfl⟩

end Stub.Answers

theorem Stub.Acts.answers {ρ : Type} {s s' : Stub ρ} (h : s.Acts s') : s.Answers s' := by
  obtain ⟨target, breakpoints, rfl⟩ := h
  exact .of_io rfl rfl rfl

section
variable {ρ : Type} {ops : SysOps ρ} {s s' : Stub ρ}

abbrev Builds (s : Stub ρ) (x : Except BuildFault (Stub ρ)) : Prop :=
  ∀ s', x = .ok s' → s.Answers s'

theorem builds_pure (h : s.Answers s') : Builds s (.ok s') := by
  rintro _ ⟨⟩
  exact h

theorem builds_append {l : List U8} (h : Plain l) : Builds s (.ok (s.append l)) :=
  builds_pure (.append h)

theorem builds_E : Builds s (.ok (s.appendStr "E")) := builds_append (plain_of_all (by decide))

theorem builds_OK : Builds s (.ok (s.appendStr "OK")) := builds_append (plain_of_all (by decide))

theorem Builds.bind {α : Type} {x : Except BuildFault α} {f : α → Except BuildFault (Stub ρ)}
    (h : ∀ a, x = .ok a → Builds s (f a)) : Builds s (x >>= f) := by
  intro s' hs'
  obtain ⟨a, hx, hf⟩ := bind_eq_ok.mp hs'
  exact h a hx s' hf

theorem Builds.after {x : Except BuildFault (Stub ρ)} (h : Builds s x) (hs : s'.Answers s) :
    Builds s' x := fun s'' hs'' => hs.trans (h s'' hs'')

theorem builds_extractVal {extract} {cursor : Nat} {term : Term} {next}
    (h : ∀ val cursor input, Builds (s.setInput input) (next val cursor (s.setInput input))) :
    Builds s (extractVal extract s cursor term next) := by
  refine Builds.bind fun r _ => ?_
  obtain ⟨val, cursor, input⟩ := r
  cases val with
  | none => exact builds_E.after (.of_io rfl rfl rfl)
  | some val => exact (h val cursor input).after (.of_io rfl rfl rfl)

theorem buildp_builds : Builds s (buildp ops s) := by
  refine builds_extractVal fun regId cursor input => ?_
  split
  · exact builds_E
  · exact builds_append (hexChars_plain (by rw [length_bytesOf]; rfl))

theorem buildP_builds : Builds s (buildP s) := by
  refine builds_extractVal fun regId cursor input => ?_
  refine builds_extractVal fun reg cursor input => ?_
  split
  · exact builds_E
  · exact builds_OK.after (.of_io rfl rfl rfl)

theorem length_sadTargetReadRegs (t : Target ρ) (coreId : Nat) :
    (sadTargetReadRegs t coreId).length = regsBytes := by
  simp [sadTargetReadRegs, List.length_flatMap]
  rfl

theorem buildg_builds : Builds s (buildg ops s) :=
  builds_append (hexChars_plain (by rw [length_sadTargetReadRegs]; rfl))

theorem buildG_builds : Builds s (buildG ops s) := by
  refine Builds.bind fun r _ => ?_
  obtain ⟨start, cursor, input⟩ := r
  refine Builds.bind fun regsStr _ => ?_
  split
  · exact builds_E.after (.of_io rfl rfl rfl)
  · exact builds_OK.after (.of_io rfl rfl rfl)

theorem length_readMem {t : Target ρ} {n addr : Nat} {mem : List U8}
    (h : sysCall (t.readMem n addr) = .ok mem) : mem.length = n := by
  unfold Target.readMem at h
  dsimp only at h
  split at h
  · cases h
    rw [List.length_map, List.length_range]
  · cases h

theorem buildm_builds : Builds s (buildm ops s) := by
  refine builds_extractVal fun addr cursor input => ?_
  refine builds_extractVal fun length cursor input => ?_
  split
  · exact builds_E
  · refine Builds.bind fun _ _ => Builds.bind fun mem hmem => ?_
    exact builds_append (hexChars_plain (by rw [length_readMem hmem]))

theorem buildM_builds : Builds s (buildM ops s) := by
  refine builds_extractVal fun addr cursor input => ?_
  refine builds_extractVal fun length cursor input => ?_
  split
  · exact builds_E
  · refine Builds.bind fun r _ => ?_
    obtain ⟨start, cursor, input⟩ := r
    refine Builds.bind fun memStr _ => ?_
    split
    · exact builds_E.after (.of_io rfl rfl rfl)
    · refine Builds.bind fun _ _ => Builds.bind fun target _ => ?_
      exact builds_OK.after (.of_io rfl rfl rfl)

theorem insertBreakpoint_acts {addr : BitVec 64} {ret : BrkRet}
    (h : s.insertBreakpoint addr = .ok (ret, s')) : s.Acts s' := by
  obtain ⟨⟨vmem, breakpoints, ret'⟩, -, h⟩ := bind_eq_ok.mp h
  cases h
  exact ⟨_, _, rfl⟩

theorem removeBreakpoint_acts {addr : BitVec 64} {ret : BrkRet}
    (h : s.removeBreakpoint addr = .ok (ret, s')) : s.Acts s' := by
  obtain ⟨⟨vmem, breakpoints, ret'⟩, -, h⟩ := bind_eq_ok.mp h
  cases h
  exact ⟨_, _, rfl⟩

theorem breakpointReply_builds {type addr kind : Int} {expected : BrkRet}
    {call : Stub ρ → BitVec 64 → Except BuildFault (BrkRet × Stub ρ)}
    (hcall : ∀ addr ret s', call s addr = .ok (ret, s') → s.Acts s') :
    Builds s (breakpointReply s type addr kind expected call) := by
  unfold breakpointReply
  split
  · exact builds_E
  · split
    · exact builds_E
    · split
      · exact builds_E
      · refine Builds.bind fun r hr => ?_
        obtain ⟨ret, s₁⟩ := r
        have hacts := (hcall _ _ _ hr).answers
        dsimp only
        split
        · exact builds_E.after hacts
        · exact builds_OK.after hacts

theorem buildZ_builds : Builds s (buildZ s) := by
  refine builds_extractVal fun type cursor input => ?_
  refine builds_extractVal fun addr cursor input => ?_
  refine builds_extractVal fun kind cursor input => ?_
  exact breakpointReply_builds fun _ _ _ => insertBreakpoint_acts

theorem buildz_builds : Builds s (buildz s) := by
  refine builds_extractVal fun type cursor input => ?_
  refine builds_extractVal fun addr cursor input => ?_
  refine builds_extractVal fun kind cursor input => ?_
  exact breakpointReply_builds fun _ _ _ => removeBreakpoint_acts

theorem buildH_builds : Builds s (buildH s) := by
  refine Builds.bind fun r _ => ?_
  obtain ⟨start, cursor, input⟩ := r
  refine Builds.bind fun command _ => ?_
  split
  · refine Builds.after (s := s.setInput input) ?_ (.of_io rfl rfl rfl)
    refine builds_extractVal fun threadId cursor input => ?_
    split
    · exact builds_OK.after (.of_io rfl rfl rfl)
    · split
      · exact builds_E
      · exact builds_OK.after (.of_io rfl rfl rfl)
  · exact builds_pure (.of_io rfl rfl rfl)

theorem buildQ_builds (h : buildQ s = .ok s') :
    s.Answers { s' with ackEnabled := s.ackEnabled } := by
  obtain ⟨⟨start, cursor, input⟩, -, h⟩ := bind_eq_ok.mp h
  obtain ⟨command, -, h⟩ := bind_eq_ok.mp h
  split at h
  · cases h
    have happend : s.Answers (s.appendStr "OK") := .append (plain_of_all (by decide))
    exact happend.trans (.of_io rfl rfl rfl)
  · cases h
    exact .of_io rfl rfl rfl

theorem threadInfo_plain (smp : Nat) : Plain (threadInfo smp) := by
  simp only [threadInfo, plain_append]
  refine ⟨⟨plain_of_all (by decide), plain_flatMap fun i _ => ?_⟩, printU_plain _⟩
  exact plain_append.mpr ⟨printU_plain i, plain_of_all (by decide)⟩

theorem queryReply_plain (command : List U8) : Plain (queryReply s command) := by
  have hif {p : Prop} [Decidable p] {l : List U8} (hl : Plain l) : Plain (if p then l else []) := by
    split
    · exact hl
    · exact plain_nil
  simp only [queryReply, plain_append]
  have hsupported : Plain (ascii "swbreak+;vCont+;QStartNoAckMode+") := plain_of_all (by decide)
  refine ⟨⟨⟨⟨hif hsupported, hif (threadInfo_plain _)⟩, hif ?_⟩, hif ?_⟩, hif ?_⟩
  · exact plain_of_all (by decide)
  · exact plain_append.mpr ⟨plain_of_all (by decide), printU_plain _⟩
  · exact plain_of_all (by decide)

theorem buildq_builds : Builds s (buildq ops s) := by
  refine Builds.bind fun r _ => ?_
  obtain ⟨start, cursor, input⟩ := r
  refine Builds.bind fun r _ => ?_
  obtain ⟨startExtra, cursorExtra, inputExtra⟩ := r
  refine Builds.bind fun commandExtra _ => ?_
  have hrest (s₁ : Stub ρ) : Builds s₁ (do
      let command ← s₁.input.str start
      return s₁.append (queryReply s₁ command)) :=
    Builds.bind fun command _ => builds_append (queryReply_plain command)
  split
  · refine Builds.after (s := s.setInput inputExtra) ?_ (.of_io rfl rfl rfl)
    refine builds_extractVal fun threadId cursor input => ?_
    dsimp only
    split
    · exact builds_E
    · intro s' hs'
      exact (Stub.Answers.append (hexChars_plain rfl)).trans (hrest _ s' hs')
  · exact (hrest _).after (.of_io rfl rfl rfl)

theorem stepTheBreakpoint_acts {coreIdx : Nat} {ret : BrkRet}
    (h : s.stepTheBreakpoint ops coreIdx = .ok (ret, s')) : s.Acts s' := by
  obtain ⟨⟨ret₁, s₁⟩, hremove, h⟩ := bind_eq_ok.mp h
  have h₁ := removeBreakpoint_acts hremove
  dsimp only at h
  split at h
  · obtain ⟨target, -, h⟩ := bind_eq_ok.mp h
    obtain ⟨⟨ret₂, s₂⟩, hinsert, h⟩ := bind_eq_ok.mp h
    cases h
    exact (h₁.setTarget target).trans (insertBreakpoint_acts hinsert)
  · cases h
    exact h₁

theorem stepBreakpoints_acts {cores : List Nat} (h : stepBreakpoints ops s cores = .ok s') :
    s.Acts s' := by
  induction cores generalizing s with
  | nil =>
    cases h
    exact .refl _
  | cons i cores ih =>
    obtain ⟨s₁, h₁, h⟩ := bind_eq_ok.mp h
    obtain ⟨⟨ret, s₂⟩, hstep, h₁⟩ := bind_eq_ok.mp h₁
    cases h₁
    exact (stepTheBreakpoint_acts hstep).trans (ih h)

theorem vContAction_acts {action : U8} {threadId : Int}
    (h : vContAction ops s action threadId = .ok (some s')) : s.Acts s' := by
  unfold vContAction at h
  split at h
  · split at h
    · obtain ⟨s₁, h₁, h⟩ := bind_eq_ok.mp h
      obtain ⟨target, -, h⟩ := bind_eq_ok.mp h
      cases h
      exact (stepBreakpoints_acts h₁).setTarget target
    · obtain ⟨⟨ret, s₁⟩, h₁, h⟩ := bind_eq_ok.mp h
      obtain ⟨target, -, h⟩ := bind_eq_ok.mp h
      cases h
      exact (stepTheBreakpoint_acts h₁).setTarget target
  · split at h
    · split at h
      · cases h
      · obtain ⟨⟨ret, s₁⟩, h₁, h⟩ := bind_eq_ok.mp h
        have hacts := stepTheBreakpoint_acts h₁
        dsimp only at h
        split at h
        · obtain ⟨target, -, h⟩ := bind_eq_ok.mp h
          cases h
          exact hacts.setTarget target
        · cases h
          exact hacts
    · cases h

theorem received_answers (s : Stub ρ) (rd : ReadResult) (socket : List ReadResult) :
    ({ s with socket := rd :: socket } : Stub ρ).Answers (s.received rd socket) := by
  cases rd with
  | bytes rd => exact .of_eq rfl (List.suffix_cons _ _) rfl
  | eof => exact .of_eq rfl (List.suffix_cons _ _) rfl
  | wouldBlock => exact .of_eq rfl (List.suffix_cons _ _) rfl
  | error => exact .of_eq rfl (List.suffix_cons _ _) rfl

theorem socket_received (s : Stub ρ) (rd : ReadResult) (socket : List ReadResult) :
    (s.received rd socket).socket = socket := by
  cases rd <;> rfl

theorem waitForHalt_answers {socket : List ReadResult} {stop : Bool}
    (h : waitForHalt ops s socket = .ok (stop, s')) :
    ({ s with socket } : Stub ρ).Answers s' := by
  induction socket generalizing s with
  | nil => cases h
  | cons rd socket ih =>
    have hread := received_answers s rd socket
    obtain ⟨last, -, h⟩ := bind_eq_ok.mp h
    split at h
    · obtain ⟨target, -, h⟩ := bind_eq_ok.mp h
      cases h
      exact hread.trans (.of_io rfl rfl rfl)
    · split at h
      · cases h
        exact hread.trans (.of_io rfl rfl rfl)
      · have hrest := ih h
        have hsocket : socket <:+ (s.received rd socket).socket :=
          ⟨[], (socket_received s rd socket).symm⟩
        exact hread.trans ⟨hrest.output, hrest.socket.trans hsocket, hrest.ackEnabled⟩

theorem haltReply_answers (threadId : Int) : s.Answers (haltReply ops s threadId) := by
  have hstart : s.Answers (s.appendStr "T05swbreak:;") := .append (plain_of_all (by decide))
  unfold haltReply
  dsimp only
  split
  · exact hstart
  · rename_i halterId _
    have hid : Plain (printD (BitVec.ofNat 32 (halterId + 1))) := printD_plain _
    have hend : Plain (ascii ";") := plain_of_all (by decide)
    refine ((hstart.trans (.append ?_)).trans (.append ?_)).trans (.append ?_)
    · exact plain_append.mpr ⟨plain_append.mpr ⟨plain_of_all (by decide), hid⟩, hend⟩
    · exact plain_append.mpr ⟨plain_append.mpr ⟨plain_of_all (by decide), hid⟩, hend⟩
    · refine plain_flatMap fun regId hreg => ?_
      have hlt : regId < 33 := List.mem_range.mp hreg
      simp only [plain_append]
      exact ⟨⟨⟨print02x_plain (by omega), plain_of_all (by decide)⟩,
        hexChars_plain (by rw [length_bytesOf]; rfl)⟩, hend⟩

theorem vContThread_builds {action : U8} {threadId : Int} :
    Builds s (vContThread ops s action threadId) := by
  unfold vContThread
  split
  · exact builds_E
  · refine Builds.bind fun r hr => ?_
    cases r with
    | none => exact builds_E
    | some s₁ =>
      have h₁ := (vContAction_acts hr).answers
      refine Builds.bind fun r hr => ?_
      obtain ⟨stop, s₂⟩ := r
      have h₂ := h₁.trans (waitForHalt_answers hr)
      dsimp only
      split
      · exact (builds_append (plain_of_all (by decide))).after h₂
      · exact (builds_pure (haltReply_answers _)).after h₂

theorem buildv_builds : Builds s (buildv ops s) := by
  refine Builds.bind fun r _ => ?_
  obtain ⟨start, cursor, input⟩ := r
  refine Builds.bind fun command _ => ?_
  refine Builds.after (s := s.setInput input) ?_ (.of_io rfl rfl rfl)
  split
  · exact builds_append (plain_of_all (by decide))
  · split
    · refine Builds.bind fun action _ => ?_
      refine Builds.bind fun next _ => ?_
      split
      · exact builds_extractVal fun threadId cursor input => vContThread_builds
      · exact vContThread_builds
    · exact builds_pure (.of_io rfl rfl rfl)

theorem Builds.answers {x : Except BuildFault (Stub ρ)} (h : Builds s x) (hx : x = .ok s') :
    s.Answers { s' with ackEnabled := s.ackEnabled } := by
  have hanswers := h s' hx
  rwa [← hanswers.ackEnabled]

theorem supportedBuilders_builds :
    ∀ e ∈ supportedBuilders ops, e.1 ≠ 0x51 → Builds s (e.2 s) := by
  simp only [supportedBuilders, List.forall_mem_cons, List.not_mem_nil, false_imp_iff,
    implies_true, and_true]
  exact ⟨fun _ => buildp_builds, fun _ => buildP_builds, fun _ => buildq_builds,
    fun h => absurd rfl h, fun _ => builds_append (plain_of_all (by decide)),
    fun _ => buildm_builds, fun _ => buildM_builds, fun _ => buildG_builds, fun _ => buildg_builds,
    fun _ => builds_OK, fun _ => buildz_builds, fun _ => buildZ_builds, fun _ => buildH_builds,
    fun _ => buildv_builds, fun _ => builds_pure (.of_io rfl rfl rfl)⟩

theorem builder_builds {cmd : U8} (hcmd : cmd ≠ 0x51) : Builds s (builder ops cmd s) := by
  unfold builder
  cases hfind : (supportedBuilders ops).find? fun e => e.1 = cmd with
  | none => exact builds_pure (.of_io rfl rfl rfl)
  | some e =>
    have hname : e.1 = cmd := by simpa using List.find?_some hfind
    exact supportedBuilders_builds e (List.mem_of_find?_eq_some hfind) (hname ▸ hcmd)

theorem builder_answers {cmd : U8} (h : builder ops cmd s = .ok s') :
    s.Answers { s' with ackEnabled := s.ackEnabled } := by
  by_cases hcmd : cmd = 0x51
  · subst hcmd
    exact buildQ_builds h
  · exact (builder_builds hcmd).answers h

-- ---------------------------------------------------------------------------
-- The response
-- ---------------------------------------------------------------------------

theorem closeResp_data (s : Stub ρ) {payload : List U8} {k : Nat}
    (hpayload : s.output.data.drop k = payload) (hstart : s.output.startPktData = k) :
    s.closeResp.output.data = s.output.data ++ [0x23, hexChar (byteTotal payload % 256 / 16),
      hexChar (byteTotal payload % 16)] := by
  -- the checksum is taken when the `#` is there already
  have hsum : sadBuffChecksum ⟨s.output.data ++ ascii "#", s.output.startPktData,
      s.output.data.length⟩ = checksum payload := by
    rw [sadBuffChecksum, Pkt.payload, List.take_left, hstart, hpayload]
  have hdigits : print02x (checksum payload).toNat = [hexChar (byteTotal payload % 256 / 16),
      hexChar (byteTotal payload % 16)] := by
    have hlow : byteTotal payload % 256 % 16 = byteTotal payload % 16 := by omega
    rw [checksum_eq, print02x_eq (by omega), hlow]
  have hdata : s.closeResp.output.data = s.output.data ++ ascii "#" ++ print02x (sadBuffChecksum
      ⟨s.output.data ++ ascii "#", s.output.startPktData, s.output.data.length⟩).toNat := rfl
  rw [hdata, hsum, hdigits, List.append_assoc]
  rfl

/-- What a builder leaves in the output buffer is a frame, with a payload that has no delimiter.
Without acknowledgements it has no `+`. -/
theorem sadBuilderBuildResp_reply (h : sadBuilderBuildResp ops s = .ok s') :
    ∃ payload, Plain payload ∧ s'.output.data =
      s.output.data ++ if s.ackEnabled then frame payload else (frame payload).tail := by
  obtain ⟨cmd, -, h⟩ := bind_eq_ok.mp h
  obtain ⟨s₁, hbuild, h⟩ := bind_eq_ok.mp h
  obtain ⟨payload, hplain, hout⟩ := (builder_answers hbuild).output
  cases h
  have hopen : s.openResp.output.data =
      s.output.data ++ if s.ackEnabled then [0x2b, 0x24] else [0x24] := by
    cases hack : s.ackEnabled <;>
      · simp only [Stub.openResp, hack]
        rfl
  have hdata : s₁.output.data = s.openResp.output.data ++ payload := by
    rw [hout]
    rfl
  have hstart : s₁.output.startPktData = s.openResp.output.data.length := by
    rw [hout]
    rfl
  refine ⟨payload, hplain, ?_⟩
  rw [closeResp_data s₁ (by rw [hdata, List.drop_left]) hstart, hdata, hopen, frame]
  cases s.ackEnabled <;> simp

theorem sadBuilderBuildResp_frame (hack : s.ackEnabled = true)
    (h : sadBuilderBuildResp ops s = .ok s') :
    ∃ payload, Plain payload ∧ s'.output.data = s.output.data ++ frame payload := by
  have hreply := sadBuilderBuildResp_reply h
  rwa [hack] at hreply

/-- What the stub answers is a frame, and the parser accepts frames: those of the stub and those
of any payload without a `#`. -/
theorem frames_accepted (ops : SysOps ρ) :
    (∀ s s' : Stub ρ, s.ackEnabled = true → sadBuilderBuildResp ops s = .ok s' →
      ∃ payload, Plain payload ∧ s'.output.data = s.output.data ++ frame payload ∧
        ∀ (r : Reader) (reads : List (List U8)), reads.flatten = frame payload →
          (feed true r.reset reads).Accepted payload) ∧
    ∀ payload : List U8, (0x23 : U8) ∉ payload →
      ∀ (r : Reader) (reads : List (List U8)), reads.flatten = frame payload →
        (feed true r.reset reads).Accepted payload := by
  refine ⟨fun s s' hack h => ?_, fun payload hl r reads => feed_frame r hl⟩
  obtain ⟨payload, hplain, hdata⟩ := sadBuilderBuildResp_frame hack h
  exact ⟨payload, hplain, hdata, fun r reads => feed_frame r fun hmem => (hplain _ hmem).2 rfl⟩

theorem frame_inj {payload payload' : List U8} (h : frame payload = frame payload') :
    payload = payload' := by
  have htail : payload ++ (frame payload).drop (payload.length + 2) =
      payload' ++ (frame payload').drop (payload'.length + 2) := by
    simpa [frame] using h
  refine (List.append_inj' htail ?_).1
  simp [frame]

/-- The answer to `?`, which the parser gets in two reads. -/
theorem frames_accepted_qstmrk :
    ∃ s', sadBuilderBuildResp .idle (.init (.ofWords []) ⟨ascii "+$?#3f", 2, 3⟩) = .ok s' ∧
      s'.output.data = ascii "+$S05#b8" ∧
      (feed true (Reader.mk .finished 6 0 0 .reset).reset [ascii "+$S0", ascii "5#b8"]).Accepted
        (ascii "S05") := by
  obtain ⟨s', hbuild, hreply⟩ : ∃ s', sadBuilderBuildResp .idle
      (.init (.ofWords []) ⟨ascii "+$?#3f", 2, 3⟩) = .ok s' ∧
        s'.output.data = ascii "+$S05#b8" := ⟨_, rfl, by decide⟩
  obtain ⟨payload, -, hdata, hfeed⟩ := (frames_accepted .idle).1 _ s' rfl hbuild
  have hframe : frame payload = ascii "+$S05#b8" := hdata.symm.trans hreply
  have hpayload : payload = ascii "S05" := frame_inj (hframe.trans (by decide))
  exact ⟨s', hbuild, hreply, hpayload ▸ hfeed _ _ (hframe ▸ rfl)⟩

end

end SwitchV32
