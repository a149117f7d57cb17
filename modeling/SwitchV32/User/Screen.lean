import SwitchV32.User.Sdl

/-!
# The guest's screen

`sdl_write_palette` and `sdl_write_fb` of `sdl.c`, with what `sdl_init` makes for
them. A call reads guest memory as it is then. What is shown is the picture of
the guest's pixels in the colours of the last palette.
-/

namespace SwitchV32

namespace Sdl

-- ---------------------------------------------------------------------------
-- The source
-- ---------------------------------------------------------------------------

/-- The variables of `sdl.c`, and what the window shows. -/
structure Video where
  st : SdlState
  /-- `s_palette`, of `s_palette_size` words -/
  palette : Option (List U32)
  frameBuffer : Option (List U32)
  texture : Bool
  width : U32
  height : U32
  screen : Option (List U32)

def Video.start : Video where
  st := ⟨0, 0⟩
  palette := none
  frameBuffer := none
  texture := false
  width := 0
  height := 0
  screen := none

def initAccepts (w h evBuffSz : U32) : Bool :=
  evBuffSz ≠ 0 && evBuffSz &&& (evBuffSz - 1) = 0 && 0 < w.toInt && 0 < h.toInt

/-- `sdl_init`; `fill` is what `malloc` has left in the frame buffer. -/
def sdlInitVideo (v : Video) (w h evBuffSz : U32) (created : Bool) (fill : Nat → U32) :
    Except Stop Video := do
  let (_, st) ← sdlInit v.st w h evBuffSz created
  if initAccepts w h evBuffSz then
    return { v with
      st := st, texture := true, width := w, height := h, screen := none
      frameBuffer := some ((List.range (w.toNat * h.toNat)).map fill) }
  else return { v with st := st }

def paletteWords (mem : Mem) (p pSize : U32) : List U32 :=
  (List.range pSize.toNat).map fun i => BitVec.ofNat 32 (bytesLE mem.byte (p.toNat + 4 * i) 4)

/-- `p` is not a null pointer, as it points into guest memory. -/
def sdlWritePalette (v : Video) (mem : Mem) (p pSize : U32) : Except Stop Video :=
  if pSize = 0 then .ok v
  else if p.toNat + 4 * pSize.toNat ≤ mem.size then
    .ok { v with palette := some (paletteWords mem p pSize) }
  else .error .fault

/-- `pix_idx[offset]` -/
def pixel (mem : Mem) (pixIdx : U32) (offset : Nat) : Option U8 :=
  if pixIdx.toNat + offset < mem.size then some (mem.byte (pixIdx.toNat + offset)) else none

def color (palette : List U32) (mem : Mem) (pixIdx : U32) (offset : Nat) : Option U32 :=
  (pixel mem pixIdx offset).bind fun idx => palette[idx.toNat]?

/-- The body of the two loops; an `offset` that is not an `int` is undefined. -/
def sdlPixel (palette : List U32) (mem : Mem) (pixIdx : U32) (frame : List U32) (offset : Nat) :
    Except Stop (List U32) :=
  match color palette mem pixIdx offset with
  | some c =>
    if offset < 2 ^ 31 ∧ offset < frame.length then .ok (frame.set offset c) else .error .fault
  | none => .error .fault

def sdlWriteFb (v : Video) (mem : Mem) (pixIdx : U32) : Except Stop (U32 × Video) :=
  match v.palette, v.frameBuffer with
  | some palette, some frame =>
    if !v.texture then .ok (-1, v)
    else if v.width.toInt ≤ 0 ∨ v.height.toInt ≤ 0 then .ok (-1, v)
    else do
      let frame ← (List.range v.height.toNat).foldlM (fun frame y =>
        (List.range v.width.toNat).foldlM (fun frame x =>
          sdlPixel palette mem pixIdx frame (y * v.width.toNat + x)) frame) frame
      return (0, { v with frameBuffer := some frame, screen := some frame })
  | _, _ => .ok (-1, v)

/-- The calls of the guest; `sdl_shutdown` ends the process. -/
inductive VideoCall
  | init (w h evBuffSz : U32) (created : Bool) (fill : Nat → U32)
  | writePalette (mem : Mem) (p pSize : U32)
  | writeFb (mem : Mem) (pixIdx : U32)

def videoCall (v : Video) : VideoCall → Except Stop Video
  | .init w h evBuffSz created fill => sdlInitVideo v w h evBuffSz created fill
  | .writePalette mem p pSize => sdlWritePalette v mem p pSize
  | .writeFb mem pixIdx => (sdlWriteFb v mem pixIdx).map Prod.snd

def VideoStep (v : Video) (call : VideoCall) (v' : Video) : Prop := videoCall v call = .ok v'

-- ---------------------------------------------------------------------------
-- The loops
-- ---------------------------------------------------------------------------

section
variable {palette frame : List U32} {mem : Mem} {pixIdx : U32} {n w : Nat}

theorem foldlM_rows {σ : Type} (put : σ → Nat → Except Stop σ) (s : σ) (w h : Nat) :
    (List.range h).foldlM (fun s y => (List.range w).foldlM (fun s x => put s (y * w + x)) s) s =
      (List.range (h * w)).foldlM put s := by
  induction h with
  | zero => simp
  | succ h ih =>
    rw [List.range_succ, List.foldlM_append, ih, Nat.succ_mul, List.range_add, List.foldlM_append]
    simp [List.foldlM_map]

def picture (palette : List U32) (mem : Mem) (pixIdx : U32) (n : Nat) : Option (List U32) :=
  (List.range n).mapM (color palette mem pixIdx)

theorem picture_succ (palette : List U32) (mem : Mem) (pixIdx : U32) (n : Nat) :
    picture palette mem pixIdx (n + 1) = (picture palette mem pixIdx n).bind fun img =>
      (color palette mem pixIdx n).map fun c => img ++ [c] := by
  rw [picture, List.range_succ, List.mapM_append, picture]
  cases (List.range n).mapM (color palette mem pixIdx) with
  | none => rfl
  | some img =>
    cases h : color palette mem pixIdx n with
    | none => simp [h]
    | some c => simp [h]

theorem length_picture {img : List U32} (h : picture palette mem pixIdx n = some img) :
    img.length = n := by
  induction n generalizing img with
  | zero =>
    cases h
    rfl
  | succ n ih =>
    rw [picture_succ] at h
    obtain ⟨img', hpicture, h⟩ := Option.bind_eq_some_iff.mp h
    obtain ⟨c, -, rfl⟩ := Option.map_eq_some_iff.mp h
    simp [ih hpicture]

def drawn (palette : List U32) (mem : Mem) (pixIdx : U32) (n : Nat) : Option (List U32) :=
  if n ≤ 2 ^ 31 then picture palette mem pixIdx n else none

theorem drawn_succ (palette : List U32) (mem : Mem) (pixIdx : U32) (n : Nat) :
    drawn palette mem pixIdx (n + 1) = (drawn palette mem pixIdx n).bind fun img =>
      if n < 2 ^ 31 then (color palette mem pixIdx n).map fun c => img ++ [c] else none := by
  by_cases hn : n < 2 ^ 31
  · simp only [drawn, if_pos hn, if_pos (Nat.le_of_lt hn), if_pos (Nat.succ_le_of_lt hn),
      picture_succ]
  · simp only [drawn, if_neg hn, if_neg (fun h => hn (Nat.lt_of_succ_le h)), Option.bind_fun_none]

theorem length_drawn {img : List U32} (h : drawn palette mem pixIdx n = some img) :
    img.length = n := by
  unfold drawn at h
  split at h
  · exact length_picture h
  · cases h

/-- The pixels are drawn in order, and the rest of the frame buffer is as it was. -/
theorem foldlM_sdlPixel (hn : n ≤ frame.length) :
    (List.range n).foldlM (sdlPixel palette mem pixIdx) frame =
      match drawn palette mem pixIdx n with
      | some img => .ok (img ++ frame.drop n)
      | none => .error .fault := by
  induction n with
  | zero => simp [drawn, picture, pure, Except.pure]
  | succ n ih =>
    rw [List.range_succ, List.foldlM_append, ih (Nat.le_of_succ_le hn), drawn_succ]
    cases himg : drawn palette mem pixIdx n with
    | none => rfl
    | some img =>
      have hlen : img.length = n := length_drawn himg
      have hlt : n < (img ++ frame.drop n).length := by
        rw [List.length_append, List.length_drop, hlen]
        omega
      have hset (c : U32) : (img ++ frame.drop n).set n c = img ++ [c] ++ frame.drop (n + 1) := by
        rw [List.set_append_right _ _ (Nat.le_of_eq hlen), hlen, Nat.sub_self,
          List.drop_eq_getElem_cons hn, List.set_cons_zero, List.append_assoc]
        rfl
      simp only [ok_bind, List.foldlM_cons, List.foldlM_nil, bind_pure, sdlPixel, hset, hlt,
        and_true, Option.bind_some]
      cases color palette mem pixIdx n with
      | none => simp only [Option.map_none, ite_self]
      | some c =>
        by_cases hint : n < 2 ^ 31
        · simp only [if_pos hint, Option.map_some]
        · simp only [if_neg hint]

-- ---------------------------------------------------------------------------
-- What the calls before have left
-- ---------------------------------------------------------------------------

namespace VideoCall

def size? : VideoCall → Option (U32 × U32)
  | .init w h evBuffSz _ _ => if initAccepts w h evBuffSz then some (w, h) else none
  | _ => none

def palette? : VideoCall → Option (List U32)
  | .writePalette mem p pSize => if pSize = 0 then none else some (paletteWords mem p pSize)
  | _ => none

end VideoCall

def lastWindow (calls : List VideoCall) : Option (U32 × U32) :=
  (calls.filterMap VideoCall.size?).getLast?

def lastPalette (calls : List VideoCall) : Option (List U32) :=
  (calls.filterMap VideoCall.palette?).getLast?

structure Video.After (calls : List VideoCall) (v : Video) : Prop where
  palette : v.palette = lastPalette calls
  frame : match lastWindow calls with
    | none => v.frameBuffer = none
    | some (w, h) => v.texture = true ∧ v.width = w ∧ v.height = h ∧ 0 < w.toInt ∧ 0 < h.toInt ∧
      ∃ frame, v.frameBuffer = some frame ∧ frame.length = h.toNat * w.toNat

theorem after_start : Video.start.After [] := ⟨rfl, rfl⟩

def showsAfter (calls : List VideoCall) (mem : Mem) (pixIdx : U32) (v : Video) :
    Except Stop (U32 × Video) :=
  match lastPalette calls, lastWindow calls with
  | some palette, some (w, h) =>
    match drawn palette mem pixIdx (h.toNat * w.toNat) with
    | some img => .ok (0, { v with frameBuffer := some img, screen := some img })
    | none => .error .fault
  | _, _ => .ok (-1, v)

theorem Video.After.writeFb {calls : List VideoCall} {v : Video} (h : v.After calls) (mem : Mem)
    (pixIdx : U32) : sdlWriteFb v mem pixIdx = showsAfter calls mem pixIdx v := by
  obtain ⟨hp, hf⟩ := h
  unfold sdlWriteFb showsAfter
  rw [hp]
  cases hpalette : lastPalette calls with
  | none => simp only
  | some palette =>
    cases hwindow : lastWindow calls with
    | none =>
      simp only [hwindow] at hf
      simp only [hf]
    | some size =>
      obtain ⟨w, h⟩ := size
      simp only [hwindow] at hf
      obtain ⟨htexture, rfl, rfl, hw, hh, frame, hframe, hlen⟩ := hf
      have hpos : ¬ (v.width.toInt ≤ 0 ∨ v.height.toInt ≤ 0) := by omega
      simp only [hframe, htexture, Bool.not_true, Bool.false_eq_true, if_false, if_neg hpos,
        foldlM_rows, foldlM_sdlPixel (Nat.le_of_eq hlen.symm)]
      cases himg : drawn palette mem pixIdx (v.height.toNat * v.width.toNat) with
      | none => rfl
      | some img =>
        simp only [ok_bind, ← hlen, List.drop_length, List.append_nil]
        rfl

theorem showsAfter_ok {calls : List VideoCall} {v : Video} {r : U32 × Video}
    (h : showsAfter calls mem pixIdx v = .ok r) : r.2 = v ∨
      ∃ w h img, lastWindow calls = some (w, h) ∧ img.length = h.toNat * w.toNat ∧
        r.2 = { v with frameBuffer := some img, screen := some img } := by
  unfold showsAfter at h
  cases hpalette : lastPalette calls with
  | none =>
    rw [hpalette] at h
    cases h
    exact .inl rfl
  | some palette =>
    cases hwindow : lastWindow calls with
    | none =>
      rw [hpalette, hwindow] at h
      cases h
      exact .inl rfl
    | some size =>
      obtain ⟨w, height⟩ := size
      simp only [hpalette, hwindow] at h
      cases himg : drawn palette mem pixIdx (height.toNat * w.toNat) with
      | none =>
        rw [himg] at h
        cases h
      | some img =>
        rw [himg] at h
        cases h
        exact .inr ⟨w, height, img, rfl, length_drawn himg, rfl⟩

theorem Video.After.step {calls : List VideoCall} {v v' : Video} {call : VideoCall}
    (h : v.After calls) (hstep : VideoStep v call v') : v'.After (calls ++ [call]) := by
  have hsize : lastWindow (calls ++ [call]) = call.size?.or (lastWindow calls) := by
    rw [lastWindow, List.filterMap_append, List.getLast?_append]
    cases h : call.size? <;> simp [h, lastWindow]
  have hpalette : lastPalette (calls ++ [call]) = call.palette?.or (lastPalette calls) := by
    rw [lastPalette, List.filterMap_append, List.getLast?_append]
    cases h : call.palette? <;> simp [h, lastPalette]
  have hfb := h.writeFb
  obtain ⟨hp, hf⟩ := h
  cases call with
  | init w h evBuffSz created fill =>
    simp only [VideoStep, videoCall, sdlInitVideo] at hstep
    obtain ⟨⟨code, st⟩, hinit, hstep⟩ := bind_eq_ok.mp hstep
    simp only [VideoCall.size?, VideoCall.palette?, Option.none_or] at hsize hpalette
    by_cases haccept : initAccepts w h evBuffSz = true
    · simp only [haccept, if_true, Option.some_or] at hstep hsize
      cases hstep
      have hpos : 0 < w.toInt ∧ 0 < h.toInt := by
        simp only [initAccepts, Bool.and_eq_true, decide_eq_true_eq] at haccept
        exact ⟨haccept.1.2, haccept.2⟩
      refine ⟨hp.trans hpalette.symm, ?_⟩
      rw [hsize]
      exact ⟨rfl, rfl, rfl, hpos.1, hpos.2, _, rfl, by simp [Nat.mul_comm]⟩
    · simp only [haccept] at hstep hsize
      cases hstep
      refine ⟨hp.trans hpalette.symm, ?_⟩
      rw [hsize]
      exact hf
  | writePalette mem p pSize =>
    simp only [VideoStep, videoCall, sdlWritePalette] at hstep
    simp only [VideoCall.size?, VideoCall.palette?, Option.none_or] at hsize hpalette
    by_cases hzero : pSize = 0
    · rw [if_pos hzero] at hstep hpalette
      cases hstep
      exact ⟨hp.trans hpalette.symm, by rwa [hsize]⟩
    · rw [if_neg hzero] at hstep hpalette
      split at hstep
      · cases hstep
        exact ⟨hpalette.symm, by rwa [hsize]⟩
      · cases hstep
  | writeFb mem pixIdx =>
    simp only [VideoCall.size?, VideoCall.palette?, Option.none_or] at hsize hpalette
    simp only [VideoStep, videoCall, hfb] at hstep
    cases hshow : showsAfter calls mem pixIdx v with
    | error e =>
      rw [hshow] at hstep
      cases hstep
    | ok r =>
      rw [hshow] at hstep
      cases hstep
      obtain hsame | ⟨w, h, img, hwindow, hlen, hdrawn⟩ := showsAfter_ok hshow
      · rw [hsame]
        exact ⟨hp.trans hpalette.symm, by rwa [hsize]⟩
      · rw [hdrawn]
        refine ⟨hp.trans hpalette.symm, ?_⟩
        rw [hsize]
        simp only [hwindow] at hf ⊢
        obtain ⟨htexture, hw, hh, hpos, hpos', -⟩ := hf
        exact ⟨htexture, hw, hh, hpos, hpos', img, rfl, hlen⟩

theorem run_after {t : List (Video × VideoCall)} {v : Video}
    (h : Lts.Run VideoStep Video.start t v) : v.After (t.map Prod.snd) := by
  induction h with
  | nil => exact after_start
  | snoc _ hstep ih =>
    rw [List.map_append]
    exact ih.step hstep

/-- After any calls, `sdl_write_fb` shows the guest's pixels in the colours of the last palette, at
the size of the last window; it is refused exactly if there is no window or no palette yet. -/
theorem writeFb_shows {t : List (Video × VideoCall)} {v : Video}
    (h : Lts.Run VideoStep Video.start t v) (mem : Mem) (pixIdx : U32) :
    sdlWriteFb v mem pixIdx = showsAfter (t.map Prod.snd) mem pixIdx v :=
  (run_after h).writeFb mem pixIdx

end

def twoPixels : Mem := .ofWords [0xFF0000, 0x00FF00, 0x0001]

/-- The second pixel is of the first colour. -/
theorem writeFb_shows_two : ∃ t v, t.map Prod.snd =
      [.writePalette twoPixels 0 2, .init 2 1 16 true fun _ => 0] ∧
    Lts.Run VideoStep Video.start t v ∧
    (sdlWriteFb v twoPixels 8).map (fun r => (r.1, r.2.screen)) =
      .ok (0, some [0x00FF00, 0xFF0000]) := by
  have hpalette : VideoStep Video.start (.writePalette twoPixels 0 2) _ := rfl
  have hinit (v : Video) : VideoStep v (.init 2 1 16 true fun _ => 0)
      { v with
        st := ⟨16, 15⟩, texture := true, width := 2, height := 1, screen := none
        frameBuffer := some [0, 0] } := rfl
  have hrun := (Lts.Run.one hpalette).snoc (hinit _)
  refine ⟨_, _, rfl, hrun, ?_⟩
  rw [writeFb_shows hrun]
  rfl

end Sdl

end SwitchV32
