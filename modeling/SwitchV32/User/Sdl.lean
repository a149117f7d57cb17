import SwitchV32.Lts
import SwitchV32.Ring
import SwitchV32.Cpu

/-!
# Events for the guest

`sdl_init` and `sdl_pull_events` of `sdl.c`, and a guest that takes the events from
the ring buffer that it shares with them. `SDL_PollEvent` takes the event at the
head of SDL's queue away; the loop does so before it looks for room.
-/

namespace SwitchV32

namespace Sdl

-- ---------------------------------------------------------------------------
-- The source
-- ---------------------------------------------------------------------------

/-- `sdl_err`; the first of them is also what success looks like. -/
inductive SdlErr
  | buffSzPowOf2 | notPosH | notPosW | buffSzZero
  deriving DecidableEq, Repr

/-- `s_event_buff_size` and `s_event_buff_size_mask` -/
structure SdlState where
  eventBuffSize : U32
  eventBuffSizeMask : U32
  deriving DecidableEq

/-- The size is looked at before anything else. `created` is whether SDL comes up. -/
def sdlInit (st : SdlState) (w h evBuffSz : U32) (created : Bool) :
    Except Stop (SdlErr × SdlState) :=
  if evBuffSz = 0 then .ok (.buffSzZero, st)
  else if evBuffSz &&& (evBuffSz - 1) ≠ 0 then .ok (.buffSzPowOf2, st)
  else if w.toInt ≤ 0 then .ok (.notPosW, st)
  else if h.toInt ≤ 0 then .ok (.notPosH, st)
  else if !created then .error (.exit exitFailure)
  else .ok (.buffSzPowOf2, ⟨evBuffSz, evBuffSz - 1⟩)

structure SdlEvent where
  type : U32
  data : List U8
  deriving DecidableEq

/-- `SDL_KEYDOWN`, `SDL_KEYUP`, `SDL_MOUSEMOTION`, `SDL_MOUSEBUTTONDOWN`, `SDL_MOUSEBUTTONUP` -/
def SdlEvent.relevant (e : SdlEvent) : Bool :=
  e.type == 0x300 || e.type == 0x301 || e.type == 0x400 || e.type == 0x401 || e.type == 0x402

/-- What is left of SDL's queue, the slots, `*head` and what is returned. -/
structure PullResult where
  queue : List SdlEvent
  events : Nat → SdlEvent
  head : U32
  count : U32

/-- The loop, from where it has stored `i` events and `idx` is the slot for the next one. -/
def sdlPullLoop (mask tail : U32) :
    List SdlEvent → (Nat → SdlEvent) → U32 → U32 → PullResult
  | [], events, idx, i => ⟨[], events, idx, i⟩
  | e :: queue, events, idx, i =>
    if (idx + 1) &&& mask ≠ tail then
      if e.relevant then
        sdlPullLoop mask tail queue (Function.update events idx.toNat e) ((idx + 1) &&& mask)
          (i + 1)
      else sdlPullLoop mask tail queue events idx i
    -- `e` has left the queue
    else ⟨queue, events, idx, i⟩

def sdlPullEvents (st : SdlState) (queue : List SdlEvent) (events : Nat → SdlEvent)
    (head tail : U32) : PullResult :=
  sdlPullLoop st.eventBuffSizeMask tail queue events head 0

-- ---------------------------------------------------------------------------
-- The buffer
-- ---------------------------------------------------------------------------

structure SdlState.Initialized (st : SdlState) : Prop where
  isPowerOfTwo : st.eventBuffSize.toNat.isPowerOfTwo
  mask : st.eventBuffSizeMask = st.eventBuffSize - 1

structure EventBuff where
  st : SdlState
  events : Nat → SdlEvent
  head : U32
  tail : U32
  initialized : st.Initialized
  head_lt : head.toNat < st.eventBuffSize.toNat
  tail_lt : tail.toNat < st.eventBuffSize.toNat

def EventBuff.ring (b : EventBuff) : Ring SdlEvent where
  size := b.st.eventBuffSize.toNat
  slot := b.events
  head := b.head.toNat
  tail := b.tail.toNat
  head_lt := b.head_lt
  tail_lt := b.tail_lt

def EventBuff.pull (b : EventBuff) (queue : List SdlEvent) : PullResult :=
  sdlPullEvents b.st queue b.events b.head b.tail

/-- The least that takes as many relevant events as there is room for. -/
def Fills (room : Nat) (taken : List SdlEvent) : Prop :=
  (taken.filter SdlEvent.relevant).length = room ∧
    ∀ e, taken.getLast? = some e → e.relevant = true

def EventBuff.Overruns (b : EventBuff) (queue : List SdlEvent) : Prop :=
  ∃ taken e rest, queue = taken ++ e :: rest ∧ Fills b.ring.room taken ∧ e.relevant = true

/-- The slots that are yet to be read are kept, and relevant events of the queue are stored in order
from `head` on, as many as the call says. -/
structure EventBuff.SafePull (b : EventBuff) (queue : List SdlEvent) : Prop where
  unread : ∀ k < b.ring.count, (b.pull queue).events (b.ring.place b.tail.toNat k) =
    b.events (b.ring.place b.tail.toNat k)
  stored : ∃ stored, stored <+: queue.filter SdlEvent.relevant ∧
    (∀ k (hk : k < stored.length),
      (b.pull queue).events (b.ring.place b.head.toNat k) = stored[k]) ∧
    (b.pull queue).count.toNat = stored.length
  count : (b.pull queue).count.toNat =
    ((b.pull queue).head.toNat + b.ring.size - b.head.toNat) % b.ring.size

/-- Of what has left the queue, all that is relevant is stored. -/
def EventBuff.LosesNothing (b : EventBuff) (queue : List SdlEvent) : Prop :=
  ∃ taken, queue = taken ++ (b.pull queue).queue ∧
    (taken.filter SdlEvent.relevant).length = (b.pull queue).count.toNat

-- ---------------------------------------------------------------------------
-- Sizes and indices
-- ---------------------------------------------------------------------------

section
variable {st st' : SdlState} {w h evBuffSz idx tail i : U32} {created : Bool} {code : SdlErr}
variable {queue taken : List SdlEvent} {e : SdlEvent} {b : EventBuff} {r : Ring SdlEvent}

theorem and_sub_one_eq_zero_iff (hne : evBuffSz ≠ 0) :
    evBuffSz &&& (evBuffSz - 1) = 0 ↔ evBuffSz.toNat.isPowerOfTwo := by
  have hpos : evBuffSz.toNat ≠ 0 := by bv_omega
  have hpred : (evBuffSz - 1).toNat = evBuffSz.toNat - 1 := by bv_omega
  rw [← Nat.and_sub_one_eq_zero_iff_isPowerOfTwo hpos, ← BitVec.toNat_inj, BitVec.toNat_and, hpred]
  exact Iff.rfl

/-- The two variables are only ever set to a size that is a power of two, and its mask. -/
theorem sdlInit_initialized (hinit : sdlInit st w h evBuffSz created = .ok (code, st')) :
    st' = st ∨ st'.Initialized ∧ st'.eventBuffSize = evBuffSz := by
  unfold sdlInit at hinit
  split at hinit
  · cases hinit
    exact .inl rfl
  · rename_i hne
    split at hinit
    · cases hinit
      exact .inl rfl
    · rename_i hpow
      split at hinit
      · cases hinit
        exact .inl rfl
      · split at hinit
        · cases hinit
          exact .inl rfl
        · split at hinit
          · cases hinit
          · cases hinit
            exact .inr ⟨⟨(and_sub_one_eq_zero_iff hne).mp (not_not.mp hpow), rfl⟩, rfl⟩

theorem SdlState.Initialized.next (hst : st.Initialized) (idx : U32) :
    ((idx + 1) &&& st.eventBuffSizeMask).toNat = (idx.toNat + 1) % st.eventBuffSize.toNat := by
  obtain ⟨k, hk⟩ := hst.isPowerOfTwo
  have hlt := st.eventBuffSize.isLt
  have hpos : 0 < 2 ^ k := Nat.two_pow_pos k
  have hpred : (st.eventBuffSize - 1).toNat = 2 ^ k - 1 := by bv_omega
  have hdvd : 2 ^ k ∣ 2 ^ 32 := by
    refine Nat.pow_dvd_pow 2 (Nat.le_of_lt ?_)
    rw [hk] at hlt
    exact (Nat.pow_lt_pow_iff_right (by decide)).mp hlt
  have hone : (1 : U32).toNat = 1 := rfl
  rw [hst.mask, BitVec.toNat_and, hpred, Nat.and_two_pow_sub_one_eq_mod, BitVec.toNat_add, hone,
    Nat.mod_mod_of_dvd _ hdvd, hk]

/-- The test of the loop is for room. -/
theorem next_eq_tail_iff (hst : st.Initialized) (hsize : r.size = st.eventBuffSize.toNat)
    (hhead : r.head = idx.toNat) (htail : r.tail = tail.toNat) :
    (idx + 1) &&& st.eventBuffSizeMask = tail ↔ r.room = 0 := by
  rw [← BitVec.toNat_inj, hst.next, Ring.room_eq_zero, Ring.place, hsize, hhead, htail]

-- ---------------------------------------------------------------------------
-- One call
-- ---------------------------------------------------------------------------

/-- What the loop has done when it ends: `taken` is looked at, `lost` only polled. -/
structure LoopEnds (r : Ring SdlEvent) (queue taken lost : List SdlEvent) (i : U32)
    (res : PullResult) : Prop where
  queue : queue = taken ++ lost ++ res.queue
  room : (taken.filter SdlEvent.relevant).length ≤ r.room
  lost : lost = [] ∧ res.queue = [] ∨ ∃ e, lost = [e] ∧ Fills r.room taken
  events : res.events = (r.pushAll (taken.filter SdlEvent.relevant)).slot
  head : res.head.toNat = (r.pushAll (taken.filter SdlEvent.relevant)).head
  count : res.count.toNat = i.toNat + (taken.filter SdlEvent.relevant).length

theorem Fills.cons_irrelevant {n : Nat} (hfills : Fills n taken) (he : e.relevant = false)
    (hn : n ≠ 0) : Fills n (e :: taken) := by
  obtain ⟨hlength, hlast⟩ := hfills
  refine ⟨by simpa [he] using hlength, ?_⟩
  cases taken with
  | nil => exact absurd hlength (by simpa using Ne.symm hn)
  | cons e' taken => simpa using hlast

theorem Fills.cons_relevant {n : Nat} (hfills : Fills (n - 1) taken) (he : e.relevant = true)
    (hn : n ≠ 0) : Fills n (e :: taken) := by
  obtain ⟨hlength, hlast⟩ := hfills
  refine ⟨?_, ?_⟩
  · simp only [List.filter_cons, he, if_true, List.length_cons]
    omega
  · cases taken with
    | nil =>
      rintro e' he'
      cases he'
      exact he
    | cons e' taken => simpa using hlast

theorem LoopEnds.cons_irrelevant {lost : List SdlEvent} {res : PullResult}
    (hends : LoopEnds r queue taken lost i res) (he : e.relevant = false) (hroom : r.room ≠ 0) :
    LoopEnds r (e :: queue) (e :: taken) lost i res := by
  have hfilter : (e :: taken).filter SdlEvent.relevant = taken.filter SdlEvent.relevant := by
    simp [he]
  refine ⟨congrArg (e :: ·) hends.queue, ?_, ?_, ?_, ?_, ?_⟩
  · exact hfilter ▸ hends.room
  · refine hends.lost.imp id ?_
    rintro ⟨e', hlost, hfills⟩
    exact ⟨e', hlost, hfills.cons_irrelevant he hroom⟩
  · exact hfilter ▸ hends.events
  · exact hfilter ▸ hends.head
  · exact hfilter ▸ hends.count

theorem LoopEnds.cons_relevant {lost : List SdlEvent} {res : PullResult}
    (hends : LoopEnds (r.push e) queue taken lost (i + 1) res) (he : e.relevant = true)
    (hroom : r.room ≠ 0) (hi : i.toNat + 1 < 2 ^ 32) :
    LoopEnds r (e :: queue) (e :: taken) lost i res := by
  have hfilter : (e :: taken).filter SdlEvent.relevant =
      e :: taken.filter SdlEvent.relevant := by
    simp [he]
  have hpush := Ring.room_push (a := e) hroom
  have hnext : (i + 1).toNat = i.toNat + 1 := by bv_omega
  refine ⟨congrArg (e :: ·) hends.queue, ?_, ?_, ?_, ?_, ?_⟩
  · have hle := hends.room
    rw [hfilter, List.length_cons]
    omega
  · refine hends.lost.imp id ?_
    rintro ⟨e', hlost, hfills⟩
    rw [hpush] at hfills
    exact ⟨e', hlost, hfills.cons_relevant he hroom⟩
  · rw [hfilter, Ring.pushAll_cons]
    exact hends.events
  · rw [hfilter, Ring.pushAll_cons]
    exact hends.head
  · rw [hends.count, hnext, hfilter, List.length_cons]
    omega

/-- The induction is on the queue; each turn has the buffer with what is stored so far. -/
theorem sdlPullLoop_ends (hst : st.Initialized) (hsize : r.size = st.eventBuffSize.toNat)
    (hhead : r.head = idx.toNat) (htail : r.tail = tail.toNat)
    (hi : i.toNat + r.room < 2 ^ 32) :
    ∃ taken lost, LoopEnds r queue taken lost i
      (sdlPullLoop st.eventBuffSizeMask tail queue r.slot idx i) := by
  induction queue generalizing r idx i with
  | nil => exact ⟨[], [], rfl, Nat.zero_le _, .inl ⟨rfl, rfl⟩, rfl, hhead.symm, rfl⟩
  | cons e queue ih =>
    have htest := next_eq_tail_iff hst hsize hhead htail
    unfold sdlPullLoop
    by_cases hroom : r.room = 0
    · rw [if_neg (not_not.mpr (htest.mpr hroom))]
      refine ⟨[], [e], rfl, Nat.zero_le _, .inr ⟨e, rfl, hroom.symm, ?_⟩, rfl, hhead.symm, rfl⟩
      rintro e' ⟨⟩
    · rw [if_pos (mt htest.mp hroom)]
      cases he : e.relevant with
      | true =>
        have hpush := Ring.room_push (a := e) hroom
        have hnext : (i + 1).toNat = i.toNat + 1 := by bv_omega
        have hhead' : (r.push e).head = ((idx + 1) &&& st.eventBuffSizeMask).toNat := by
          rw [hst.next, ← hhead, ← hsize]
          rfl
        obtain ⟨taken, lost, hends⟩ := ih (r := r.push e) (i := i + 1) hsize hhead' htail
          (by omega)
        have hslot : (r.push e).slot = Function.update r.slot idx.toNat e := by
          rw [← hhead]
          rfl
        rw [hslot] at hends
        exact ⟨e :: taken, lost, hends.cons_relevant he hroom (by omega)⟩
      | false =>
        obtain ⟨taken, lost, hends⟩ := ih hsize hhead htail hi
        exact ⟨e :: taken, lost, hends.cons_irrelevant he hroom⟩

theorem EventBuff.pull_ends (b : EventBuff) (queue : List SdlEvent) :
    ∃ taken lost, LoopEnds b.ring queue taken lost 0 (b.pull queue) := by
  have hroom : b.ring.room ≤ b.st.eventBuffSize.toNat - 1 := Nat.sub_le _ _
  have hsize := b.st.eventBuffSize.isLt
  have hzero : (0 : U32).toNat = 0 := rfl
  exact sdlPullLoop_ends b.initialized rfl rfl rfl (by omega)

/-- Full or not, a call only ever writes to free slots, and says what it has stored. -/
theorem EventBuff.safePull (b : EventBuff) (queue : List SdlEvent) : b.SafePull queue := by
  obtain ⟨taken, lost, hends⟩ := b.pull_ends queue
  have hzero : (0 : U32).toNat = 0 := rfl
  have hcount := hends.count
  rw [hzero, Nat.zero_add] at hcount
  refine ⟨fun k hk => ?_, ⟨taken.filter SdlEvent.relevant, ?_, fun k hk => ?_, hcount⟩, ?_⟩
  · rw [hends.events]
    exact Ring.slot_pushAll_unread hends.room hk
  · rw [hends.queue, List.append_assoc, List.filter_append]
    exact List.prefix_append _ _
  · rw [hends.events]
    exact Ring.slot_pushAll_new hends.room hk
  · rw [hcount, hends.head]
    exact (Ring.distance_pushAll hends.room).symm

theorem Fills.append_eq_nil {n : Nat} {more : List SdlEvent} (h : Fills n taken)
    (h' : Fills n (taken ++ more)) : more = [] := by
  obtain rfl | ⟨more, e, rfl⟩ := List.eq_nil_or_concat more
  · rfl
  · have he : e.relevant = true := h'.2 e (by simp)
    have hlength := h'.1
    have htaken := h.1
    simp only [List.concat_eq_append, List.filter_append, List.length_append,
      List.filter_cons_of_pos he, List.filter_nil, List.length_singleton] at hlength
    omega

/-- Only one event can be right behind what fills the buffer up. -/
theorem Fills.unique {n : Nat} {taken' rest rest' : List SdlEvent} {e' : SdlEvent}
    (h : Fills n taken) (h' : Fills n taken')
    (heq : taken ++ e :: rest = taken' ++ e' :: rest') : e = e' := by
  obtain ⟨more, rfl, hrest⟩ | ⟨more, rfl, hrest⟩ := List.append_eq_append_iff.mp heq
  · rw [h.append_eq_nil h', List.nil_append] at hrest
    exact (List.cons.inj hrest).1
  · rw [h'.append_eq_nil h, List.nil_append] at hrest
    exact (List.cons.inj hrest).1.symm

theorem LoopEnds.losesNothing_iff {lost : List SdlEvent}
    (hends : LoopEnds b.ring queue taken lost 0 (b.pull queue)) :
    b.LosesNothing queue ↔ lost.filter SdlEvent.relevant = [] := by
  have hzero : (0 : U32).toNat = 0 := rfl
  have hcount := hends.count
  rw [hzero, Nat.zero_add] at hcount
  constructor
  · rintro ⟨taken', hqueue, hlength⟩
    have htaken : taken ++ lost = taken' := List.append_cancel_right (hends.queue.symm.trans hqueue)
    rw [← htaken, hcount, List.filter_append, List.length_append] at hlength
    exact List.eq_nil_of_length_eq_zero (by omega)
  · intro hlost
    refine ⟨taken ++ lost, hends.queue, ?_⟩
    rw [List.filter_append, hlost, List.append_nil, hcount]

theorem EventBuff.losesNothing_iff (b : EventBuff) (queue : List SdlEvent) :
    b.LosesNothing queue ↔ ¬ b.Overruns queue := by
  obtain ⟨taken, lost, hends⟩ := b.pull_ends queue
  rw [hends.losesNothing_iff]
  obtain ⟨rfl, hqueue⟩ | ⟨e, rfl, hfills⟩ := hends.lost
  · refine iff_of_true rfl ?_
    rintro ⟨taken', e, rest, heq, ⟨hlength, -⟩, he⟩
    have hroom := hends.room
    have htaken := hends.queue
    rw [hqueue, List.append_nil, List.append_nil] at htaken
    rw [← htaken, heq, List.filter_append, List.filter_cons_of_pos he, List.length_append,
      List.length_cons] at hroom
    omega
  · have hqueue : queue = taken ++ e :: (b.pull queue).queue := by simpa using hends.queue
    constructor
    · rintro hnone ⟨taken', e', rest, heq, hfills', he'⟩
      cases hfills.unique hfills' (hqueue.symm.trans heq)
      rw [List.filter_cons_of_pos he'] at hnone
      cases hnone
    · intro hover
      refine List.filter_eq_nil_iff.mpr fun e' he' hrelevant => ?_
      cases List.mem_singleton.mp he'
      exact hover ⟨taken, e, _, hqueue, hfills, hrelevant⟩

end

-- ---------------------------------------------------------------------------
-- The guest, and SDL
-- ---------------------------------------------------------------------------

inductive EventAction
  | arrive (e : SdlEvent)
  | pull
  | consume

def EventBuff.afterPull (b : EventBuff) (queue : List SdlEvent) : EventBuff :=
  { b with
    events := (b.pull queue).events
    head := (b.pull queue).head
    head_lt := by
      obtain ⟨taken, lost, hends⟩ := b.pull_ends queue
      have hlt := (b.ring.pushAll (taken.filter SdlEvent.relevant)).head_lt
      rw [Ring.size_pushAll] at hlt
      rw [hends.head]
      exact hlt }

def EventBuff.afterConsume (b : EventBuff) : EventBuff :=
  { b with
    tail := (b.tail + 1) &&& b.st.eventBuffSizeMask
    tail_lt := by
      rw [b.initialized.next]
      exact Nat.mod_lt _ (Nat.zero_lt_of_lt b.tail_lt) }

/-- SDL's queue, what has ever come into it, and what the guest has read. -/
structure EventSystem where
  buff : EventBuff
  queue : List SdlEvent
  arrived : List SdlEvent
  delivered : List SdlEvent

def EventStep (s : EventSystem) (action : EventAction) (s' : EventSystem) : Prop :=
  match action with
  | .arrive e => s' = { s with queue := s.queue ++ [e], arrived := s.arrived ++ [e] }
  | .pull =>
    s' = { s with buff := s.buff.afterPull s.queue, queue := (s.buff.pull s.queue).queue }
  | .consume =>
    s.buff.head ≠ s.buff.tail ∧
      s' =
        { s with
          buff := s.buff.afterConsume
          delivered := s.delivered ++ [s.buff.events s.buff.tail.toNat] }

def EventSystem.told (s : EventSystem) : List SdlEvent :=
  s.delivered ++ s.buff.ring.unread ++ s.queue.filter SdlEvent.relevant

def EventSystem.ExactlyOnce (s : EventSystem) : Prop :=
  s.told = s.arrived.filter SdlEvent.relevant

instance (s : EventSystem) : Decidable s.ExactlyOnce := inferInstanceAs (Decidable (_ = _))

def AtPull (P : EventBuff → List SdlEvent → Prop) (s : EventSystem) (action : EventAction) : Prop :=
  action = .pull → P s.buff s.queue

section
variable {s₀ s s' : EventSystem} {action : EventAction} {b : EventBuff}
variable {queue taken lost : List SdlEvent} {t : List (EventSystem × EventAction)}

theorem EventBuff.ring_afterPull (hends : LoopEnds b.ring queue taken lost 0 (b.pull queue)) :
    (b.afterPull queue).ring = b.ring.pushAll (taken.filter SdlEvent.relevant) := by
  refine Ring.ext ?_ hends.events hends.head ?_
  · exact (Ring.size_pushAll b.ring _).symm
  · exact (Ring.tail_pushAll b.ring _).symm

theorem EventBuff.ring_afterConsume (b : EventBuff) : b.afterConsume.ring = b.ring.pop :=
  Ring.ext rfl rfl rfl (b.initialized.next b.tail)

theorem pull_told (s : EventSystem) (hstep : EventStep s .pull s') :
    (s.buff.LosesNothing s.queue → s'.told = s.told) ∧
      (¬ s.buff.LosesNothing s.queue → s'.told.length < s.told.length) := by
  obtain ⟨taken, lost, hends⟩ := s.buff.pull_ends s.queue
  cases hstep
  rw [hends.losesNothing_iff]
  simp only [EventSystem.told, EventBuff.ring_afterPull hends, Ring.unread_pushAll hends.room]
  have hqueue := congrArg (List.filter SdlEvent.relevant) hends.queue
  simp only [List.filter_append] at hqueue
  rw [hqueue]
  refine ⟨fun hlost => by simp [hlost], fun hlost => ?_⟩
  have hpos := List.length_pos_iff.mpr hlost
  simp only [List.length_append]
  omega

theorem consume_told (hstep : EventStep s .consume s') : s'.told = s.told := by
  obtain ⟨hne, rfl⟩ := hstep
  have hring : s.buff.ring.head ≠ s.buff.ring.tail := fun heq => hne (BitVec.eq_of_toNat_eq heq)
  simp only [EventSystem.told, EventBuff.ring_afterConsume, Ring.unread_pop hring]
  simp [EventBuff.ring]

theorem arrive_told {e : SdlEvent} (hstep : EventStep s (.arrive e) s') :
    s'.told = s.told ++ [e].filter SdlEvent.relevant := by
  cases hstep
  simp only [EventSystem.told, List.filter_append, List.append_assoc]

def EventSystem.Lacks (s : EventSystem) : Prop :=
  s.told.length < (s.arrived.filter SdlEvent.relevant).length

theorem EventSystem.Lacks.step (hlacks : s.Lacks) (hstep : EventStep s action s') : s'.Lacks := by
  unfold Lacks at hlacks ⊢
  cases action with
  | arrive e =>
    rw [arrive_told hstep]
    cases hstep
    simp only [List.filter_append, List.length_append]
    omega
  | pull =>
    have hle : s'.told.length ≤ s.told.length := by
      obtain ⟨hkeeps, hloses⟩ := pull_told s hstep
      by_cases hnothing : s.buff.LosesNothing s.queue
      · rw [hkeeps hnothing]
      · exact Nat.le_of_lt (hloses hnothing)
    cases hstep
    exact Nat.lt_of_le_of_lt hle hlacks
  | consume =>
    rw [consume_told hstep]
    obtain ⟨-, rfl⟩ := hstep
    exact hlacks

theorem EventSystem.ExactlyOnce.step (h : s.ExactlyOnce) (hstep : EventStep s action s') :
    (AtPull EventBuff.LosesNothing s action → s'.ExactlyOnce) ∧
      (¬ AtPull EventBuff.LosesNothing s action → s'.Lacks) := by
  unfold ExactlyOnce at h ⊢
  cases action with
  | arrive e =>
    refine ⟨fun _ => ?_, fun hnot => absurd (by rintro ⟨⟩) hnot⟩
    rw [arrive_told hstep, h]
    cases hstep
    simp only [List.filter_append]
  | pull =>
    obtain ⟨hkeeps, hloses⟩ := pull_told s hstep
    have harrived : s'.arrived = s.arrived := by
      cases hstep
      rfl
    refine ⟨fun hat => ?_, fun hnot => ?_⟩
    · rw [hkeeps (hat rfl), h, harrived]
    · have hlt := hloses fun hnothing => hnot fun _ => hnothing
      rwa [h, ← harrived] at hlt
  | consume =>
    refine ⟨fun _ => ?_, fun hnot => absurd (by rintro ⟨⟩) hnot⟩
    rw [consume_told hstep, h]
    obtain ⟨-, rfl⟩ := hstep
    rfl

theorem run_exactlyOnce (h₀ : s₀.ExactlyOnce) (hrun : Lts.Run EventStep s₀ t s) :
    (Lts.Every (AtPull EventBuff.LosesNothing) t → s.ExactlyOnce) ∧
      (¬ Lts.Every (AtPull EventBuff.LosesNothing) t → s.Lacks) := by
  induction hrun with
  | nil => exact ⟨fun _ => h₀, fun hnot => absurd Lts.every_nil hnot⟩
  | @snoc t s action s' _ hstep ih =>
    obtain ⟨honce, hlacks⟩ := ih
    simp only [Lts.every_append, Lts.every_cons, Lts.every_nil, and_true]
    by_cases hevery : Lts.Every (AtPull EventBuff.LosesNothing) t
    · obtain ⟨hkeeps, hloses⟩ := (honce hevery).step hstep
      exact ⟨fun hall => hkeeps hall.2, fun hnot => hloses fun hat => hnot ⟨hevery, hat⟩⟩
    · exact ⟨fun hall => absurd hall.1 hevery, fun _ => (hlacks hevery).step hstep⟩

/-- In every run, every call keeps to the free slots and stores what it says. No call loses a
relevant event, and the guest gets each exactly once, exactly if no call finds a relevant event
right behind what fills the buffer up. -/
theorem events_delivered_iff (h₀ : s₀.ExactlyOnce) (hrun : Lts.Run EventStep s₀ t s) :
    Lts.Every (AtPull EventBuff.SafePull) t ∧
      (Lts.Every (AtPull EventBuff.LosesNothing) t ↔
        Lts.Every (AtPull fun b queue => ¬ b.Overruns queue) t) ∧
      (s.ExactlyOnce ↔ Lts.Every (AtPull fun b queue => ¬ b.Overruns queue) t) := by
  have hsame : AtPull (fun b queue => ¬ b.Overruns queue) = AtPull EventBuff.LosesNothing := by
    funext s action
    simp only [AtPull, EventBuff.losesNothing_iff]
  obtain ⟨honce, hlacks⟩ := run_exactlyOnce h₀ hrun
  rw [hsame]
  refine ⟨fun _ _ _ => EventBuff.safePull _ _, Iff.rfl, fun hexact => ?_, honce⟩
  by_contra hnot
  have hlt := hlacks hnot
  rw [EventSystem.Lacks, hexact] at hlt
  exact Nat.lt_irrefl _ hlt

end

def twoSlots : EventBuff where
  st := ⟨2, 1⟩
  events _ := ⟨0, []⟩
  head := 0
  tail := 0
  initialized := ⟨⟨1, rfl⟩, rfl⟩
  head_lt := by decide
  tail_lt := by decide

def keydown (data : List U8) : SdlEvent := ⟨0x300, data⟩

def twoSlotsWith (queue : List SdlEvent) : EventSystem := ⟨twoSlots, queue, queue, []⟩

theorem twoSlotsWith_run (queue : List SdlEvent) : Lts.Run EventStep (twoSlotsWith queue)
    [(twoSlotsWith queue, .pull)]
    { twoSlotsWith queue with
      buff := twoSlots.afterPull queue, queue := (twoSlots.pull queue).queue } :=
  .one rfl

def EventSystem.keyRead (s : EventSystem) (e : SdlEvent) : EventSystem :=
  let buff := s.buff.afterPull (s.queue ++ [e])
  { buff := buff.afterConsume
    queue := (s.buff.pull (s.queue ++ [e])).queue
    arrived := s.arrived ++ [e]
    delivered := s.delivered ++ [buff.events buff.tail.toNat] }

theorem EventSystem.keyRead_run {s : EventSystem} {e : SdlEvent}
    (hne : (s.buff.afterPull (s.queue ++ [e])).head ≠ (s.buff.afterPull (s.queue ++ [e])).tail)
    (hover : ¬ s.buff.Overruns (s.queue ++ [e])) :
    ∃ t, Lts.Run EventStep s t (s.keyRead e) ∧
      Lts.Every (AtPull fun b queue => ¬ b.Overruns queue) t := by
  let s₁ : EventSystem := { s with queue := s.queue ++ [e], arrived := s.arrived ++ [e] }
  let s₂ : EventSystem := { s₁ with
    buff := s₁.buff.afterPull s₁.queue
    queue := (s₁.buff.pull s₁.queue).queue }
  have harrive : EventStep s (.arrive e) s₁ := rfl
  have hpull : EventStep s₁ .pull s₂ := rfl
  have hconsume : EventStep s₂ .consume (s.keyRead e) := ⟨hne, rfl⟩
  refine ⟨_, ((Lts.Run.one harrive).snoc hpull).snoc hconsume, ?_⟩
  simp only [Lts.every_append, Lts.every_cons, Lts.every_nil, and_true]
  exact ⟨⟨EventAction.noConfusion, fun _ => hover⟩, EventAction.noConfusion⟩

/-- Three keys, one after the other: the third one is in the slot of the first. -/
theorem events_delivered_keys : ∃ t s, Lts.Run EventStep (twoSlotsWith []) t s ∧
    s.delivered = [keydown [1], keydown [2], keydown [3]] ∧ s.buff.tail = 1 ∧ s.ExactlyOnce := by
  have hlose (s : EventSystem) (e : SdlEvent) (h : s.buff.LosesNothing (s.queue ++ [e])) :
      ¬ s.buff.Overruns (s.queue ++ [e]) := (EventBuff.losesNothing_iff _ _).mp h
  obtain ⟨t₁, hrun₁, ht₁⟩ := EventSystem.keyRead_run (s := twoSlotsWith []) (e := keydown [1])
    (by decide) (hlose _ _ ⟨[keydown [1]], by decide, by decide⟩)
  obtain ⟨t₂, hrun₂, ht₂⟩ := EventSystem.keyRead_run
    (s := (twoSlotsWith []).keyRead (keydown [1])) (e := keydown [2])
    (by decide) (hlose _ _ ⟨[keydown [2]], by decide, by decide⟩)
  obtain ⟨t₃, hrun₃, ht₃⟩ := EventSystem.keyRead_run
    (s := ((twoSlotsWith []).keyRead (keydown [1])).keyRead (keydown [2])) (e := keydown [3])
    (by decide) (hlose _ _ ⟨[keydown [3]], by decide, by decide⟩)
  have hrun := (hrun₁.append hrun₂).append hrun₃
  have ht := Lts.every_append.mpr ⟨Lts.every_append.mpr ⟨ht₁, ht₂⟩, ht₃⟩
  exact ⟨_, _, hrun, by decide, by decide, (events_delivered_iff (by decide) hrun).2.2.mpr ht⟩

/-- Of two events the second one is lost: it is neither stored nor left in the queue. -/
theorem events_delivered_fails :
    (twoSlots.pull [keydown [1], keydown [2]]).queue = [] ∧
    (twoSlots.pull [keydown [1], keydown [2]]).count = 1 ∧
    (∃ s, Lts.Run EventStep (twoSlotsWith [keydown [1], keydown [2]])
        [(twoSlotsWith [keydown [1], keydown [2]], .pull)] s ∧ ¬ s.ExactlyOnce) ∧
    ¬ twoSlots.LosesNothing [keydown [1], keydown [2]] := by
  have hqueue : (twoSlots.pull [keydown [1], keydown [2]]).queue = [] := by decide
  have hcount : (twoSlots.pull [keydown [1], keydown [2]]).count = 1 := by decide
  refine ⟨hqueue, hcount, ⟨_, twoSlotsWith_run _, by decide⟩, ?_⟩
  rintro ⟨taken, heq, hlength⟩
  rw [hqueue, List.append_nil] at heq
  rw [← heq, hcount] at hlength
  exact absurd hlength (by decide)

end Sdl

end SwitchV32
