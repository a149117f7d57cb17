import SwitchV32.Stub.Buffers

/-!
# Writes of guest memory and a read

Any number of `M` packets and then an `m`, from the start of the stub. The reply
is right, and the rest of memory is as it was, exactly if every array that the
client asks for fits on the stack and no packet comes to an input buffer that is
smaller than it thinks.
-/

namespace SwitchV32

section
variable {ρ : Type} {ops : SysOps ρ} {s s₁ : Stub ρ} {addr length : Nat}
variable {ps : List (MemWrite × Arrival)} {replies : List (List U8)}

theorem requests_M_ok (hps : ∀ p ∈ ps, p.1.Packet s.target.vmem.size p.2.input)
    (hroom : ∀ p ∈ ps, p.1.length ≤ ops.stackRoom) :
    ∃ s₁, requests ops s ((ps.map Prod.snd).map Arrival.input) =
      .ok (ps.map fun _ => ascii "OK", s₁) := by
  induction ps generalizing s with
  | nil => exact ⟨s, rfl⟩
  | cons p ps ih =>
    obtain ⟨s₁, hresp, htarget, -⟩ :=
      (respond_M ops (hps p List.mem_cons_self)).1 (hroom p List.mem_cons_self)
    obtain ⟨s₂, hreqs⟩ := ih (s := s₁)
      (fun q hq => by rw [htarget]; exact hps q (List.mem_cons_of_mem _ hq))
      fun q hq => hroom q (List.mem_cons_of_mem _ hq)
    refine ⟨s₂, ?_⟩
    simp only [List.map_cons, requests, hresp, ok_bind, hreqs]
    rfl

theorem requests_M_cases (hps : ∀ p ∈ ps, p.1.Packet s.target.vmem.size p.2.input)
    (hreqs : requests ops s ((ps.map Prod.snd).map Arrival.input) = .ok (replies, s₁)) :
    (∀ p ∈ ps, p.1.length ≤ ops.stackRoom) ∧ s₁.target.vmem.size = s.target.vmem.size ∧
      s₁.target.vmem.byte = Overlay.last (ps.map fun p => p.1.overlay) s.target.vmem.byte := by
  induction ps generalizing s replies with
  | nil =>
    cases hreqs
    exact ⟨by simp, rfl, rfl⟩
  | cons p ps ih =>
    obtain ⟨hok, hstack⟩ := respond_M ops (hps p List.mem_cons_self)
    obtain ⟨⟨reply, s₂⟩, hresp, hreqs⟩ := bind_eq_ok.mp hreqs
    obtain ⟨⟨rest, s₃⟩, hreqs, hpure⟩ := bind_eq_ok.mp hreqs
    cases hpure
    have hroom : p.1.length ≤ ops.stackRoom := by
      by_contra hnot
      cases hresp.symm.trans (hstack hnot)
    obtain ⟨s', hresp', htarget, -⟩ := hok hroom
    obtain ⟨-, rfl⟩ := Prod.mk.inj (Except.ok.inj (hresp.symm.trans hresp'))
    obtain ⟨hrooms, hsize, hbyte⟩ := ih (fun q hq => by
      rw [htarget]
      exact hps q (List.mem_cons_of_mem _ hq)) hreqs
    refine ⟨List.forall_mem_cons.mpr ⟨hroom, hrooms⟩, by rw [hsize, htarget], ?_⟩
    rw [hbyte, htarget, List.map_cons, Overlay.last_cons]

/-- The `M` packets are answered `OK`; the reply to the `m`, which is in the output buffer, has the
bytes that were last written or were there before, and the rest of memory is as it was. -/
def MemoryReplies (ops : SysOps ρ) (s : Stub ρ) (ps : List (MemWrite × Arrival))
    (addr length : Nat) (m : Arrival) : Prop :=
  ∃ fuel v₁ v₂ reply,
    serveAll ops fuel (.start s) (ps.map Prod.snd) = .ok (ps.map fun _ => ascii "OK", v₁) ∧
    serve ops fuel v₁ m = .ok (reply, v₂) ∧
    reply = (List.range length).flatMap (fun i =>
      let v := Overlay.last (ps.map fun p => p.1.overlay) s.target.vmem.byte (addr + i)
      [hexChar (v.toNat / 16), hexChar (v.toNat % 16)]) ∧
    v₂.output.Keeps (response v₁.stub.ackEnabled reply) ∧
    ∀ k, (∀ p ∈ ps, ¬ p.1.overlay.Covers k) →
      v₁.stub.target.vmem.byte k = s.target.vmem.byte k ∧
      v₂.stub.target.vmem.byte k = s.target.vmem.byte k

/-- It is so exactly if the stack has room for the arrays of all packets, and no packet of more
than `STUB_BUFF_SIZE` bytes comes after one with more than 1920 bytes in front of its last read. -/
theorem memory_replies_iff (ops : SysOps ρ) (s : Stub ρ) (ps : List (MemWrite × Arrival))
    (m : Arrival) (hps : ∀ p ∈ ps, p.1.Packet s.target.vmem.size p.2.input)
    (hm : ReadPacket s.target.vmem.size addr length m.input) :
    MemoryReplies ops s ps addr length m ↔
      (∀ p ∈ ps, p.1.length ≤ ops.stackRoom) ∧ 3 * length ≤ ops.stackRoom ∧
        (ps.map Prod.snd ++ [m]).Pairwise fun a a' => 1920 < a.front → a'.size ≤ stubBuffSize := by
  have hstart := Buffered.start_atRest s
  have hshort : ∀ reply ∈ ps.map fun _ => ascii "OK", reply.length ≤ 2043 := by
    intro reply hreply
    obtain ⟨-, -, rfl⟩ := List.mem_map.mp hreply
    decide
  have hpair : ReadsFit False (ps.map Prod.snd ++ [m]) ↔ _ := readsFit_iff
  rw [and_iff_right False.elim, readsFit_append] at hpair
  rw [← hpair]
  constructor
  · rintro ⟨fuel, v₁, v₂, reply, hall, hserve, -⟩
    obtain ⟨hreqs, hfits, hrest⟩ := hstart.serveAll_cases hall hshort
    obtain ⟨hrooms, hsize, -⟩ := requests_M_cases hps hreqs
    obtain ⟨hresp, hfit, -⟩ := hrest.serve_cases hserve
    refine ⟨hrooms, ?_, hfits, hfit⟩
    by_contra hnot
    cases hresp.symm.trans ((respond_m ops (hsize ▸ hm)).2 hnot)
  · rintro ⟨hrooms, hroom, hfits, hfit⟩
    obtain ⟨s₁, hreqs⟩ := requests_M_ok hps hrooms
    obtain ⟨fuel, v₁, hall⟩ := hstart.serveAll_ok hreqs hfits hshort
    obtain ⟨hreqs', -, hrest⟩ := hstart.serveAll_cases hall hshort
    obtain ⟨-, hsize, hbyte⟩ := requests_M_cases hps hreqs'
    obtain ⟨s₂, hresp, htarget, -⟩ := (respond_m ops (hsize ▸ hm)).1 hroom
    obtain ⟨fuel', v₂, hserve⟩ := hrest.serve_ok hresp hfit
    obtain ⟨hresp', -, hout, -⟩ := hrest.serve_cases hserve
    obtain ⟨-, rfl⟩ := Prod.mk.inj (Except.ok.inj (hresp.symm.trans hresp'))
    refine ⟨max fuel fuel', v₁, v₂, _, serveAll_mono hall (Nat.le_max_left _ _),
      serve_mono hserve (Nat.le_max_right _ _), by rw [hbyte], hout.toKeeps, fun k hk => ?_⟩
    have hkeep : v₁.stub.target.vmem.byte k = s.target.vmem.byte k := by
      rw [hbyte]
      refine Overlay.last_of_not_covers fun o ho => ?_
      obtain ⟨p, hp, rfl⟩ := List.mem_map.mp ho
      exact hk p hp
    exact ⟨hkeep, htarget ▸ hkeep⟩

/-- The second of two packets writes over a byte of the first. -/
theorem memory_replies_iff_overlap :
    MemoryReplies .idle (.init (.ofWords []) .reset)
      [(⟨4, 2, ascii "A1b2", by decide, rfl⟩, .whole (ascii "M04,02:A1b2") (by decide)),
        (⟨5, 1, ascii "fF", by decide, rfl⟩, .whole (ascii "M05,01:fF") (by decide))]
      4 3 (.whole (ascii "m04,03") (by decide)) := by
  obtain ⟨post, hfirst⟩ := Arrival.whole_holds (ascii "M04,02:A1b2") (by decide)
  obtain ⟨post', hsecond⟩ := Arrival.whole_holds (ascii "M05,01:fF") (by decide)
  obtain ⟨post'', hlast⟩ := Arrival.whole_holds (ascii "m04,03") (by decide)
  refine (memory_replies_iff .idle _ _ _ ?_ ?_).mpr ⟨by decide, by decide, ?_⟩
  · rintro p (_ | ⟨_, _ | ⟨_, ⟨⟩⟩⟩)
    · exact ⟨(by decide : 4 + 2 < 4096), _, _, post, spells_pair (by decide),
        spells_pair (by decide), hfirst⟩
    · exact ⟨(by decide : 5 + 1 < 4096), _, _, post', spells_pair (by decide),
        spells_pair (by decide), hsecond⟩
  · exact ⟨(by decide : 4 + 3 < 4096), _, _, post'', spells_pair (by decide),
      spells_pair (by decide), hlast⟩
  · simp [Arrival.front_whole]

/-- A quarter of a memory of 16 MB is asked for: 12 MB of arrays on a stack of 8 MB. -/
theorem memory_replies_fails :
    let vmem : Mem := { Mem.ofWords [] with size := 0x1000000, size_le := by decide }
    let m : Arrival := .whole (ascii "m0,400000") (by decide)
    ReadPacket 0x1000000 0 0x400000 m.input ∧
      ¬ MemoryReplies .idle (.init vmem .reset) [] 0 0x400000 m := by
  intro vmem m
  have haddr : Spells (ascii "0") 0 := ⟨by decide, by decide, rfl⟩
  have hlength : Spells (ascii "400000") 0x400000 := ⟨by decide, by decide, by decide⟩
  obtain ⟨post, hholds⟩ := Arrival.whole_holds (ascii "m0,400000") (by decide)
  have hm : ReadPacket vmem.size 0 0x400000 m.input :=
    ⟨by decide, _, _, post, haddr, hlength, hholds⟩
  refine ⟨hm, ?_⟩
  rintro ⟨fuel, v₁, v₂, reply, hall, hserve, -⟩
  cases hall
  -- the builder does not come to the reply
  have hstack : respond SysOps.idle (.init vmem .reset) m.input = .error .stack :=
    (respond_m .idle (s := .init vmem .reset) hm).2 (by decide)
  obtain ⟨input, output, s, -, hresp, -⟩ := serve_eq_ok.mp hserve
  cases hresp.symm.trans hstack

end

end SwitchV32
