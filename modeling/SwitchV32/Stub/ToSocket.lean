import SwitchV32.Stub.Buffer

/-!
# Sending a packet buffer

`sad_buff_to_socket` of `stubb_a_dub/src/buffer.c`, for whatever `write` makes of
each call: it may take a part of the bytes only, be interrupted, or fail.
-/

namespace SwitchV32

inductive WriteResult
  /-- the socket takes up to so many bytes of those that it is offered -/
  | bytes (n : Nat)
  /-- `EINTR` -/
  | interrupted
  | wouldBlock
  | error
  deriving DecidableEq, Repr

structure ToSocket where
  ret : BuffRet
  buff : PktBuffer
  /-- what has gone to the socket -/
  sent : Block U8
  /-- what `write` comes to later on -/
  writes : List WriteResult

namespace PktBuffer

/-- Both loops, where `tot` bytes are written and `left` are not. -/
def toSocketLoop (b : PktBuffer) (bytesToWt : Nat) :
    List WriteResult → Nat → Nat → Block U8 → Except BuffFault ToSocket
  | [], tot, _, sent => if tot = bytesToWt then .ok ⟨.ok, b, sent, []⟩ else .error .looping
  | w :: writes, tot, left, sent =>
    if tot = bytesToWt then .ok ⟨.ok, b, sent, w :: writes⟩
    else if b.data.length < tot + left then .error .outside
    else
      match w with
      -- the inner loop: the same bytes are offered again
      | .interrupted => toSocketLoop b bytesToWt writes tot left sent
      | .wouldBlock => .ok ⟨.wouldBlock, b, sent, writes⟩
      | .error => .ok ⟨.fdErr, b, sent, writes⟩
      | .bytes n =>
        let wtBytes := min n left
        let sent := sent ++ (b.data.drop tot).take wtBytes
        if wtBytes = 0 then .ok ⟨.fdErr, b, sent, writes⟩
        else toSocketLoop b bytesToWt writes (tot + wtBytes) (left - wtBytes) sent

def sadBuffToSocket (b : PktBuffer) (writes : List WriteResult) : Except BuffFault ToSocket :=
  b.toSocketLoop b.filled writes 0 b.filled []

/-- How many bytes the calls of `write` would take before the first one that fails. -/
def taken : List WriteResult → Nat
  | .bytes n :: writes => if n = 0 then 0 else n + taken writes
  | .interrupted :: writes => taken writes
  | _ => 0

/-- What the first call of `write` that fails makes of a send; a call that takes nothing fails. -/
def failure : List WriteResult → Option BuffRet
  | .bytes n :: writes => if n = 0 then some .fdErr else failure writes
  | .interrupted :: writes => failure writes
  | .wouldBlock :: _ => some .wouldBlock
  | .error :: _ => some .fdErr
  | [] => none

/-- What has to become of a buffer that holds `l`: of its bytes those are sent that `write` takes
before it fails, in order, and the buffer is as it was. All of them are sent and the call says so
when `write` does not fail before; else the call ends with that failure. -/
structure Sends (b : PktBuffer) (l : List U8) (writes : List WriteResult) (res : ToSocket) :
    Prop where
  buff : res.buff = b
  sent : res.sent = (l.take (taken writes)).map some
  all : l.length ≤ taken writes → res.ret = .ok
  failed : taken writes < l.length → failure writes = some res.ret
  ok : res.ret = .ok ↔ res.sent = l.map some

variable {b : PktBuffer} {l : List U8} {writes : List WriteResult} {res : ToSocket}
variable {tot left : Nat}

theorem failure_ne_ok {ret : BuffRet} (h : failure writes = some ret) : ret ≠ .ok := by
  induction writes with
  | nil => cases h
  | cons w writes ih =>
    cases w with
    | interrupted => exact ih h
    | wouldBlock | error =>
      cases h
      rintro ⟨⟩
    | bytes n =>
      rw [failure] at h
      split at h
      · cases h
        rintro ⟨⟩
      · exact ih h

/-- The two counters add up, and what is sent is as long as the first one says. -/
structure Sending (b : PktBuffer) (l : List U8) (tot left : Nat) : Prop where
  keeps : b.Keeps l
  counters : tot + left = l.length

theorem Sending.inside (h : b.Sending l tot left) : ¬ b.data.length < tot + left := by
  have hle := h.keeps.holds.length_le
  rw [h.counters]
  omega

theorem Sending.next (h : b.Sending l tot left) {n : Nat} (hn : n ≤ left) :
    (b.data.drop tot).take n = ((l.drop tot).take n).map some := by
  have hsum := h.counters
  have hbytes := h.keeps.holds
  rw [Block.Holds] at hbytes
  have hdrop := congrArg (List.drop tot) hbytes
  rw [List.drop_take, ← List.map_drop] at hdrop
  have htake := congrArg (List.take n) hdrop
  rw [List.take_take, Nat.min_eq_left (by omega), ← List.map_take] at htake
  exact htake

theorem Sending.advance (h : b.Sending l tot left) {n : Nat} (hn : n ≤ left) :
    b.Sending l (tot + n) (left - n) where
  keeps := h.keeps
  counters := by
    have hsum := h.counters
    omega

theorem Sending.sent_next (h : b.Sending l tot left) {n : Nat} (hn : n ≤ left) :
    (l.take tot).map some ++ (b.data.drop tot).take n = (l.take (tot + n)).map some := by
  rw [h.next hn, ← List.map_append, ← List.take_add]

/-- What the loop has come to, when `n` more bytes are taken from `tot` on before `write` fails as
`fails` says. -/
structure Reached (b : PktBuffer) (l : List U8) (tot n : Nat) (fails : Option BuffRet)
    (res : ToSocket) : Prop where
  buff : res.buff = b
  sent : res.sent = (l.take (tot + n)).map some
  all : l.length ≤ tot + n → res.ret = .ok
  failed : tot + n < l.length → fails = some res.ret

theorem reached_all (h : tot = l.length) (n : Nat) (fails : Option BuffRet) :
    b.Reached l tot n fails ⟨.ok, b, (l.take tot).map some, writes⟩ := by
  refine ⟨rfl, ?_, fun _ => rfl, fun hlt => by omega⟩
  rw [List.take_of_length_le (by omega), List.take_of_length_le (by omega)]

theorem Sending.reached_failure (h : b.Sending l tot left) (hne : tot ≠ l.length)
    (ret : BuffRet) : b.Reached l tot 0 (some ret) ⟨ret, b, (l.take tot).map some, writes⟩ := by
  have hsum := h.counters
  exact ⟨rfl, rfl, fun hle => by omega, fun _ => rfl⟩

/-- A call that takes the rest, or a part of it, counts for all that it would take. -/
theorem Reached.bytes {n m : Nat} {fails : Option BuffRet} (hsum : tot + left = l.length)
    (h : b.Reached l (tot + min n left) m fails res) : b.Reached l tot (n + m) fails res := by
  refine ⟨h.buff, h.sent.trans ?_, fun hle => h.all (by omega), fun hlt => h.failed (by omega)⟩
  by_cases hall : n ≤ left
  · rw [Nat.min_eq_left hall, Nat.add_assoc]
  · rw [List.take_of_length_le (by omega), List.take_of_length_le (by omega)]

/-- The induction is on what `write` comes to; at each call the bytes up to `tot` are sent. -/
theorem toSocketLoop_reached (h : b.Sending l tot left)
    (hres : b.toSocketLoop b.filled writes tot left ((l.take tot).map some) = .ok res) :
    b.Reached l tot (taken writes) (failure writes) res := by
  have hfilled := h.keeps.filled_eq
  induction writes generalizing tot left with
  | nil =>
    simp only [toSocketLoop, hfilled] at hres
    split at hres
    · rename_i hall
      cases hres
      exact reached_all hall _ _
    · cases hres
  | cons w writes ih =>
    simp only [toSocketLoop, hfilled, if_neg h.inside] at hres
    split at hres
    · rename_i hall
      cases hres
      exact reached_all hall _ _
    · rename_i hne
      cases w with
      | interrupted => exact ih h (by rwa [hfilled])
      | wouldBlock | error =>
        cases hres
        exact h.reached_failure hne _
      | bytes n =>
        have hle := Nat.min_le_right n left
        have hsum := h.counters
        dsimp only at hres
        rw [h.sent_next hle] at hres
        split at hres
        · rename_i hzero
          cases hres
          have hn : n = 0 := by omega
          rw [hzero, Nat.add_zero, taken, failure, if_pos hn, if_pos hn]
          exact h.reached_failure hne _
        · rename_i hpos
          have hn : n ≠ 0 := by omega
          rw [taken, failure, if_neg hn, if_neg hn]
          exact (ih (h.advance hle) (by rwa [hfilled])).bytes hsum

theorem Reached.sends (h : b.Reached l 0 (taken writes) (failure writes) res) :
    b.Sends l writes res := by
  obtain ⟨hbuff, hsent, hall, hfailed⟩ := h
  rw [Nat.zero_add] at hsent hall hfailed
  refine ⟨hbuff, hsent, hall, hfailed, fun hok => ?_, fun heq => hall ?_⟩
  · by_cases hle : l.length ≤ taken writes
    · rw [hsent, List.take_of_length_le hle]
    · exact absurd hok (failure_ne_ok (hfailed (by omega)))
  · have hlength := congrArg List.length (hsent.symm.trans heq)
    simp only [List.length_map, List.length_take] at hlength
    omega

/-- What `write` comes to when it is not interrupted. -/
def settled (writes : List WriteResult) : List WriteResult := writes.filter (· ≠ .interrupted)

/-- The call never reads outside the block, and each time that `write` is not interrupted it gets on
or ends. -/
theorem toSocketLoop_ends (h : b.Sending l tot left) (writes : List WriteResult)
    (sent : Block U8) :
    b.toSocketLoop b.filled writes tot left sent ≠ .error .outside ∧
      (left ≤ (settled writes).length →
        ∃ res, b.toSocketLoop b.filled writes tot left sent = .ok res) := by
  have hfilled := h.keeps.filled_eq
  have hsum := h.counters
  induction writes generalizing tot left sent with
  | nil =>
    simp only [toSocketLoop, hfilled]
    split
    · exact ⟨by rintro ⟨⟩, fun _ => ⟨_, rfl⟩⟩
    · refine ⟨by rintro ⟨⟩, fun hleft => ?_⟩
      have hzero : (settled []).length = 0 := rfl
      omega
  | cons w writes ih =>
    simp only [toSocketLoop, if_neg h.inside]
    rw [hfilled] at ih ⊢
    split
    · exact ⟨by rintro ⟨⟩, fun _ => ⟨_, rfl⟩⟩
    · rename_i hne
      cases w with
      | interrupted => exact ih h sent hsum
      | wouldBlock | error => exact ⟨by rintro ⟨⟩, fun _ => ⟨_, rfl⟩⟩
      | bytes n =>
        have hle := Nat.min_le_right n left
        dsimp only
        split
        · exact ⟨by rintro ⟨⟩, fun _ => ⟨_, rfl⟩⟩
        · obtain ⟨hinside, hends⟩ := ih (h.advance hle)
            (sent ++ (b.data.drop tot).take (min n left)) (h.advance hle).counters
          refine ⟨hinside, fun hleft => hends ?_⟩
          have hsettled : (settled (.bytes n :: writes)).length = (settled writes).length + 1 := by
            simp [settled]
          omega

theorem Keeps.sending (h : b.Keeps l) : b.Sending l 0 b.filled :=
  ⟨h, (Nat.zero_add _).trans h.filled_eq⟩

/-- For every buffer, and whatever `write` comes to, with as many settled calls as there are bytes
the call ends, and a call that ends has sent, in order and once, the bytes that `write` took before
it failed: all of them exactly if it returns `BUFF_OK`. It does not read behind the block or change
the buffer. -/
theorem to_socket_sends (h : b.Keeps l) (writes : List WriteResult) :
    (∀ res, b.sadBuffToSocket writes = .ok res → b.Sends l writes res) ∧
      b.sadBuffToSocket writes ≠ .error .outside ∧
      (l.length ≤ (settled writes).length → ∃ res, b.sadBuffToSocket writes = .ok res) := by
  obtain ⟨hinside, hends⟩ := toSocketLoop_ends h.sending writes []
  refine ⟨fun res hres => (toSocketLoop_reached h.sending hres).sends, hinside,
    fun hlength => hends ?_⟩
  rw [h.filled_eq]
  exact hlength

def threeBytes : PktBuffer where
  initialSize := 4
  startPktData := 0
  endPktData := 0
  filled := 3
  dataSize := 4
  data := [some 1, some 2, some 3, none]

/-- Two bytes are taken; then a call takes the last one, or fails. -/
theorem to_socket_sends_three :
    (∃ res, threeBytes.sadBuffToSocket [.interrupted, .bytes 2, .interrupted, .bytes 7, .error] =
        .ok res ∧ res.ret = .ok ∧ res.sent = [some 1, some 2, some 3]) ∧
      ∃ res, threeBytes.sadBuffToSocket [.bytes 2, .interrupted, .wouldBlock, .bytes 7] =
        .ok res ∧ res.ret = .wouldBlock ∧ res.sent = [some 1, some 2] ∧ res.buff = threeBytes := by
  have hkeeps : threeBytes.Keeps [1, 2, 3] := ⟨rfl, by decide, rfl⟩
  constructor
  · obtain ⟨hsends, -, hends⟩ := to_socket_sends hkeeps
      [.interrupted, .bytes 2, .interrupted, .bytes 7, .error]
    obtain ⟨res, hres⟩ := hends (by decide)
    have hok := (hsends res hres).all (by decide)
    exact ⟨res, hres, hok, (hsends res hres).ok.mp hok⟩
  · obtain ⟨hsends, -, hends⟩ := to_socket_sends hkeeps
      [.bytes 2, .interrupted, .wouldBlock, .bytes 7]
    obtain ⟨res, hres⟩ := hends (by decide)
    have hs := hsends res hres
    exact ⟨res, hres, (Option.some.inj (hs.failed (by decide))).symm, hs.sent, hs.buff⟩

end PktBuffer

end SwitchV32
