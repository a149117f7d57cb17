import SwitchV32.Lts
import SwitchV32.Stub.Session

/-!
# What the stub writes

Whatever the client sends, the loop is a server with one reply: an accepted
packet is executed once and answered with one frame, a `-` of the client gets
the last reply again, and anything else is refused.
-/

namespace SwitchV32

-- ---------------------------------------------------------------------------
-- The server
-- ---------------------------------------------------------------------------

inductive Act
  | refused
  /-- after a `-` of the client -/
  | resent (bytes : List U8)
  | served (payload reply : List U8)

def Act.written : Act → List U8
  | .refused => ascii "-"
  | .resent bytes => bytes
  | .served _ reply => reply

def Act.effects : Act → List CmdsEffect
  | .refused => [.wrote (ascii "-")]
  | .resent bytes => [.wrote bytes]
  | .served payload reply => [.accepted payload, .wrote reply]

/-- What the client can tell of the stub between two packets. -/
structure Server (ρ : Type) where
  target : Target ρ
  breakpoints : Breakpoints
  smp : Fin (maxSmp + 1)
  selectedCore : Nat
  ackEnabled : Bool
  /-- what was written last -/
  last : List U8

section
variable {ρ : Type} (ops : SysOps ρ)

def Stub.server (s : Stub ρ) : Server ρ :=
  ⟨s.target, s.breakpoints, s.smp, s.selectedCore, s.ackEnabled, s.output.data⟩

inductive Server.Step : Server ρ → Act → Server ρ → Prop
  | refused {v : Server ρ} : Step v .refused { v with last := ascii "-" }
  | resent {v : Server ρ} : Step v (.resent v.last) v
  | served {v : Server ρ} {s s' : Stub ρ} (hs : s.server = { v with last := [] })
    (hbuild : sadBuilderBuildResp ops s = .ok s') :
    Step v (.served s.input.payload s'.output.data) s'.server

def act (s : Stub ρ) : Option Act :=
  match s.reader.state with
  | .error => some .refused
  | .nack => some (.resent s.output.data)
  | .finished =>
    match sadBuilderBuildResp ops s.resetOutput with
    | .ok s' => some (.served s.input.payload s'.output.data)
    | .error _ => none
  | _ => none

-- ---------------------------------------------------------------------------
-- The loop is the server
-- ---------------------------------------------------------------------------

variable {ops} {s s' : Stub ρ}

/-- What was written last, with `first` in the buffer before the first write. -/
def lastWritten (first : List U8) (acts : List Act) : List U8 :=
  (acts.getLast?.map Act.written).getD first

theorem lastWritten_snoc (first : List U8) (acts : List Act) (a : Act) :
    lastWritten first (acts ++ [a]) = a.written := by
  simp [lastWritten]

/-- A reply is a frame, without the `+` once the acknowledgements are off. -/
def IsReply (reply : List U8) : Prop :=
  ∃ payload, Plain payload ∧ (reply = frame payload ∨ 0x2b :: reply = frame payload)

/-- A server in state `v` has done this, and is in state `v'`. -/
structure Served (ops : SysOps ρ) (v : Server ρ) (acts : List Act) (v' : Server ρ) : Prop where
  run : ∃ t, Lts.Run (Server.Step ops) v t v' ∧ t.map Prod.snd = acts
  last : v'.last = lastWritten v.last acts
  /-- a `-` is answered with a copy -/
  copies : ∀ pre bytes post, acts = pre ++ .resent bytes :: post → bytes = lastWritten v.last pre
  /-- every other write is a `-` or one frame -/
  replies : ∀ payload reply, .served payload reply ∈ acts → IsReply reply

theorem Server.Step.last {v v' : Server ρ} {a : Act} (h : Server.Step ops v a v') :
    v'.last = a.written := by
  cases h <;> rfl

theorem Server.Step.reply {v v' : Server ρ} {payload reply : List U8}
    (h : Server.Step ops v (.served payload reply) v') : IsReply reply := by
  generalize ha : Act.served payload reply = a at h
  cases h with
  | refused | resent => cases ha
  | @served s s' hs hbuild =>
    cases ha
    have hempty : s.output.data = [] := congrArg Server.last hs
    obtain ⟨q, hplain, hdata⟩ := sadBuilderBuildResp_reply hbuild
    refine ⟨q, hplain, ?_⟩
    rw [hdata, hempty, List.nil_append]
    cases s.ackEnabled with
    | true => exact .inl rfl
    | false => exact .inr rfl

theorem Served.refl (ops : SysOps ρ) (v : Server ρ) : Served ops v [] v where
  run := ⟨[], .nil, rfl⟩
  last := rfl
  copies pre bytes post h := by simp at h
  replies payload reply h := by simp at h

theorem Served.snoc {v v' v'' : Server ρ} {acts : List Act} {a : Act} (h : Served ops v acts v')
    (hs : Server.Step ops v' a v'') : Served ops v (acts ++ [a]) v'' where
  run := by
    obtain ⟨t, hrun, rfl⟩ := h.run
    exact ⟨t ++ [(v', a)], hrun.snoc hs, by simp⟩
  last := by rw [lastWritten_snoc, hs.last]
  copies pre bytes post heq := by
    rcases Lts.snoc_eq_append_cons heq with ⟨rfl, rfl, -⟩ | ⟨post', -, hpre⟩
    · rw [← h.last]
      cases hs
      rfl
    · exact h.copies pre bytes post' hpre
  replies payload reply hmem := by
    rcases List.mem_append.mp hmem with hmem | hmem
    · exact h.replies payload reply hmem
    · rw [← List.mem_singleton.mp hmem] at hs
      exact hs.reply

-- ---------------------------------------------------------------------------
-- The loop
-- ---------------------------------------------------------------------------

inductive Ends (ops : SysOps ρ) (s : Stub ρ) : List CmdsEffect → CmdsEnd ρ → Prop
  | reading : Ends ops s [] (.reading s)
  | returned (ret socket) : Ends ops s [] (.returned ret { s with socket })
  /-- the builder of one more packet does not come back -/
  | fault {p : Stub ρ} {e} (hp : p.server = { s.server with last := [] })
    (hbuild : sadBuilderBuildResp ops p = .error e) :
    Ends ops s [.accepted p.input.payload] (.fault e)
  | looping : Ends ops s [] .looping

end

end SwitchV32
