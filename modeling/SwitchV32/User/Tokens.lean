import SwitchV32.Stub.Text
import Mathlib.Data.List.DropRight
import Mathlib.Data.List.TakeWhile

/-!
# Tokens of the argument string

`strtok(.., " ")` as `emu_args` of `user/emu.c` calls it. The spaces in front of
a token stay in the buffer, and the one behind it becomes the NUL that ends it.
-/

namespace SwitchV32

-- ---------------------------------------------------------------------------
-- `strtok`
-- ---------------------------------------------------------------------------

def space : U8 := 0x20

/-- A call on what is left of the string: what the buffer holds then up to where the next call takes
up, and what is left for it. -/
def strtok (str : List U8) : Option (List U8 × List U8) :=
  let spaces := str.takeWhile (· == space)
  let str := str.dropWhile (· == space)
  if str = [] then none
  else
    let token := str.takeWhile (· != space)
    match str.dropWhile (· != space) with
    | [] => some (spaces ++ token, [])
    | _ :: rest => some (spaces ++ token ++ [0], rest)

theorem strtok_lt {str passed rest : List U8} (h : strtok str = some (passed, rest)) :
    rest.length < str.length := by
  have hle := (str.dropWhile_sublist (· == space)).length_le
  unfold strtok at h
  dsimp only at h
  generalize str.dropWhile (· == space) = str' at h hle
  split at h
  · cases h
  · rename_i hne
    have hpos := List.length_pos_iff.mpr hne
    have hle' := (str'.dropWhile_sublist (· != space)).length_le
    split at h
    · cases h
      simp only [List.length_nil]
      omega
    · rename_i hdrop
      cases h
      rw [hdrop, List.length_cons] at hle'
      omega

/-- The tokens are counted; the buffer is what the calls have left in it. -/
def tokenize (str : List U8) : Nat × List U8 :=
  match h : strtok str with
  | none => (0, str)
  | some (passed, rest) =>
    have := strtok_lt h
    let (argc, buf) := tokenize rest
    (argc + 1, passed ++ buf)
termination_by str.length

def tokens (str : List U8) : List (List U8) := (str.splitOn space).filter (· ≠ [])

def trimmed (str : List U8) : List U8 := str.rdropWhile (· == space)

/-- One space between the tokens and none in front, whatever is behind. -/
def SpacedOnce (str : List U8) : Prop :=
  ∃ k, str = List.intercalate [space] (tokens str) ++ List.replicate k space

-- ---------------------------------------------------------------------------
-- Tokens and the spaces in front of them
-- ---------------------------------------------------------------------------

structure Piece where
  spaces : Nat
  token : List U8
  ne_nil : token ≠ []
  not_mem : space ∉ token

def Piece.text (p : Piece) : List U8 := List.replicate p.spaces space ++ p.token

/-- The string is these tokens, one space behind each, and what is left are spaces. -/
inductive Pieces : List U8 → List Piece → Prop
  | blank (k : Nat) : Pieces (List.replicate k space) []
  | last (p : Piece) : Pieces p.text [p]
  | cons (p : Piece) {rest : List U8} {ps : List Piece} (h : Pieces rest ps) :
    Pieces (p.text ++ space :: rest) (p :: ps)

section
variable {str : List U8} {p : Piece} {ps : List Piece}

theorem strtok_blank (k : Nat) : strtok (List.replicate k space) = none := by
  simp [strtok]

theorem Piece.spaces_text (p : Piece) (rest : List U8) :
    (p.text ++ rest).takeWhile (· == space) = List.replicate p.spaces space ∧
      (p.text ++ rest).dropWhile (· == space) = p.token ++ rest := by
  have hall : ∀ b ∈ List.replicate p.spaces space, (b == space) = true := by simp
  obtain ⟨b, token, htoken⟩ := List.exists_cons_of_ne_nil p.ne_nil
  have hb : ¬ (b == space) = true := by
    have hmem : b ∈ p.token := by simp [htoken]
    simpa using fun heq : b = space => p.not_mem (heq ▸ hmem)
  rw [Piece.text, List.append_assoc, List.takeWhile_append_of_pos hall,
    List.dropWhile_append_of_pos hall, htoken, List.cons_append,
    List.takeWhile_cons_of_neg (p := (· == space)) hb,
    List.dropWhile_cons_of_neg (p := (· == space)) hb, List.append_nil]
  exact ⟨rfl, rfl⟩

theorem Piece.all_token (p : Piece) : ∀ b ∈ p.token, (b != space) = true := fun b hb => by
  simpa using fun heq : b = space => p.not_mem (heq ▸ hb)

theorem strtok_last (p : Piece) : strtok p.text = some (p.text, []) := by
  obtain ⟨htake, hdrop⟩ := p.spaces_text []
  rw [List.append_nil] at htake hdrop
  have htoken : p.token.takeWhile (· != space) = p.token :=
    List.takeWhile_eq_self_iff.mpr p.all_token
  have hrest : p.token.dropWhile (· != space) = [] := List.dropWhile_eq_nil_iff.mpr p.all_token
  unfold strtok
  rw [htake, hdrop, List.append_nil]
  dsimp only
  rw [if_neg p.ne_nil, htoken, hrest]
  rfl

theorem strtok_cons (p : Piece) (rest : List U8) :
    strtok (p.text ++ space :: rest) = some (p.text ++ [0], rest) := by
  obtain ⟨htake, hdrop⟩ := p.spaces_text (space :: rest)
  have hspace : ¬ (space != space) = true := by simp
  have htoken : (p.token ++ space :: rest).takeWhile (· != space) = p.token := by
    rw [List.takeWhile_append_of_pos p.all_token,
      List.takeWhile_cons_of_neg (p := (· != space)) hspace, List.append_nil]
  have hrest : (p.token ++ space :: rest).dropWhile (· != space) = space :: rest := by
    rw [List.dropWhile_append_of_pos p.all_token,
      List.dropWhile_cons_of_neg (p := (· != space)) hspace]
  unfold strtok
  rw [htake, hdrop]
  dsimp only
  rw [if_neg (by simp), htoken, hrest]
  rfl

theorem Piece.cons_text (p : Piece) :
    space :: p.text = ({ p with spaces := p.spaces + 1 } : Piece).text := rfl

theorem exists_piece (str : List U8) :
    (∃ k, str = List.replicate k space) ∨ (∃ p : Piece, str = p.text) ∨
      ∃ (p : Piece) (rest : List U8), str = p.text ++ space :: rest := by
  induction str with
  | nil => exact .inl ⟨0, rfl⟩
  | cons b str ih =>
    by_cases hb : b = space
    · subst hb
      obtain ⟨k, rfl⟩ | ⟨p, rfl⟩ | ⟨p, rest, rfl⟩ := ih
      · exact .inl ⟨k + 1, rfl⟩
      · exact .inr (.inl ⟨_, p.cons_text⟩)
      · exact .inr (.inr ⟨_, rest, congrArg (· ++ space :: rest) p.cons_text⟩)
    · by_cases hmem : space ∈ b :: str
      · obtain ⟨token, rest, heq, hnot⟩ := List.eq_append_cons_of_mem hmem
        have hne : token ≠ [] := by
          rintro rfl
          exact hb (List.cons.inj heq).1
        exact .inr (.inr ⟨⟨0, token, hne, hnot⟩, rest, heq⟩)
      · exact .inr (.inl ⟨⟨0, b :: str, List.cons_ne_nil _ _, hmem⟩, rfl⟩)

theorem tokenize_none (h : strtok str = none) : tokenize str = (0, str) := by
  rw [tokenize]
  split
  · rfl
  · rename_i heq
    cases h.symm.trans heq

theorem tokenize_some {passed rest : List U8} (h : strtok str = some (passed, rest)) :
    tokenize str = ((tokenize rest).1 + 1, passed ++ (tokenize rest).2) := by
  rw [tokenize]
  split
  · rename_i heq
    cases h.symm.trans heq
  · rename_i heq
    cases h.symm.trans heq
    rfl

theorem tokenize_blank (k : Nat) :
    tokenize (List.replicate k space) = (0, List.replicate k space) :=
  tokenize_none (strtok_blank k)

theorem tokenize_last (p : Piece) : tokenize p.text = (1, p.text) := by
  have hnil : tokenize [] = (0, []) := tokenize_blank 0
  rw [tokenize_some (strtok_last p), hnil, List.append_nil]

theorem tokenize_cons (p : Piece) (rest : List U8) : tokenize (p.text ++ space :: rest) =
    ((tokenize rest).1 + 1, p.text ++ 0 :: (tokenize rest).2) := by
  rw [tokenize_some (strtok_cons p rest), List.append_assoc]
  rfl

theorem exists_pieces (str : List U8) : ∃ ps, Pieces str ps := by
  obtain ⟨k, rfl⟩ | ⟨p, rfl⟩ | ⟨p, rest, rfl⟩ := exists_piece str
  · exact ⟨[], .blank k⟩
  · exact ⟨[p], .last p⟩
  · obtain ⟨ps, hps⟩ := exists_pieces rest
    exact ⟨p :: ps, .cons p hps⟩
termination_by str.length

/-- The buffer holds the tokens with the spaces in front of them, each ended by a NUL. -/
theorem Pieces.tokenize_eq (h : Pieces str ps) : (tokenize str).1 = ps.length ∧
    ∃ tail, (tokenize str).2 ++ [0] = (ps.flatMap fun p => p.text ++ [0]) ++ tail := by
  induction h with
  | blank k =>
    rw [tokenize_blank]
    exact ⟨rfl, _, rfl⟩
  | last p =>
    rw [tokenize_last]
    exact ⟨rfl, [], by simp⟩
  | cons p h ih =>
    obtain ⟨hargc, tail, hbuf⟩ := ih
    rw [tokenize_cons]
    refine ⟨by simp [hargc], tail, ?_⟩
    simp only [List.flatMap_cons, List.append_assoc, List.cons_append, List.nil_append]
    rw [hbuf]

theorem tokens_replicate_append (k : Nat) (str : List U8) :
    tokens (List.replicate k space ++ str) = tokens str := by
  induction k with
  | zero => rfl
  | succ k ih =>
    have hsplit := List.splitOn_append_cons_self_of_not_mem (a := space) List.not_mem_nil
      (List.replicate k space ++ str)
    rw [List.nil_append] at hsplit
    rw [List.replicate_succ, List.cons_append, tokens, hsplit, ← ih]
    rfl

theorem Pieces.tokens_eq (h : Pieces str ps) : tokens str = ps.map Piece.token := by
  induction h with
  | blank k =>
    have hblank := tokens_replicate_append k []
    rw [List.append_nil] at hblank
    rw [hblank]
    rfl
  | last p =>
    rw [Piece.text, tokens_replicate_append, tokens, List.splitOn_eq_singleton p.not_mem]
    simp [p.ne_nil]
  | cons p h ih =>
    rw [Piece.text, List.append_assoc, tokens_replicate_append, tokens,
      List.splitOn_append_cons_self_of_not_mem p.not_mem]
    simp [p.ne_nil, ← ih, tokens]

-- ---------------------------------------------------------------------------
-- Lengths
-- ---------------------------------------------------------------------------

theorem length_intercalate {ls : List (List U8)} (h : ls ≠ []) :
    (List.intercalate [space] ls).length + 1 = (ls.map fun l => l.length + 1).sum := by
  induction ls with
  | nil => exact absurd rfl h
  | cons l ls ih =>
    cases ls with
    | nil => simp
    | cons l' ls =>
      have hrest := ih (List.cons_ne_nil _ _)
      rw [List.intercalate_cons_cons, List.map_cons, List.sum_cons, ← hrest]
      simp only [List.length_append, List.length_cons, List.length_nil]
      omega

theorem trimmed_append_replicate (str : List U8) (k : Nat) :
    trimmed (str ++ List.replicate k space) = trimmed str := by
  induction k with
  | zero => rw [List.replicate_zero, List.append_nil]
  | succ k ih =>
    rw [List.replicate_succ', ← List.append_assoc, trimmed,
      List.rdropWhile_concat_pos (· == space) _ _ (by simp)]
    exact ih

theorem trimmed_text (p : Piece) : trimmed p.text = p.text := by
  refine (List.rdropWhile_eq_self_iff ..).mpr fun hne => ?_
  have hlast : p.text.getLast hne = p.token.getLast p.ne_nil := by
    simp [Piece.text, p.ne_nil]
  rw [hlast]
  simpa using fun heq : p.token.getLast p.ne_nil = space =>
    p.not_mem (heq ▸ List.getLast_mem p.ne_nil)

theorem trimmed_append (str rest : List U8) :
    trimmed (str ++ rest) = if trimmed rest = [] then trimmed str else str ++ trimmed rest := by
  simp only [trimmed, List.rdropWhile, List.reverse_append, List.dropWhile_append]
  split <;> simp_all

theorem Piece.length_text (p : Piece) : p.text.length = p.spaces + p.token.length := by
  simp [Piece.text]

theorem Pieces.length_trimmed (h : Pieces str ps) (hne : ps ≠ []) :
    (trimmed str).length + 1 = (ps.map fun p => p.text.length + 1).sum := by
  induction h with
  | blank k => exact absurd rfl hne
  | last p => simp [trimmed_text]
  | @cons p rest ps h ih =>
    cases ps with
    | nil =>
      cases h with
      | blank k =>
        have hblank := trimmed_append_replicate p.text (k + 1)
        rw [List.replicate_succ] at hblank
        simp [hblank, trimmed_text]
    | cons p' ps =>
      have hrest := ih (List.cons_ne_nil _ _)
      have hp' := List.length_pos_iff.mpr p'.ne_nil
      have hsome : trimmed rest ≠ [] := by
        intro hnil
        rw [hnil, List.map_cons, List.sum_cons, p'.length_text, List.length_nil] at hrest
        omega
      have hstr : p.text ++ space :: rest = p.text ++ [space] ++ rest := by simp
      rw [hstr, trimmed_append, if_neg hsome, List.map_cons, List.sum_cons, ← hrest]
      simp only [List.length_append, List.length_cons, List.length_nil]
      omega

theorem sum_text (ps : List Piece) : (ps.map fun p => p.text.length + 1).sum =
    (ps.map Piece.spaces).sum + (ps.map fun p => p.token.length + 1).sum := by
  induction ps with
  | nil => rfl
  | cons p ps ih =>
    simp only [List.map_cons, List.sum_cons, ih, p.length_text]
    omega

theorem Piece.text_eq (p : Piece) (hp : p.spaces = 0) : p.text = p.token := by
  simp [Piece.text, hp]

theorem Piece.spaces_eq (p : Piece) (h : (p.text ++ [0]).getD 0 0 = (p.token ++ [0]).getD 0 0) :
    p.spaces = 0 := by
  by_contra hne
  obtain ⟨k, hk⟩ := Nat.exists_eq_succ_of_ne_zero hne
  obtain ⟨b, token, htoken⟩ := List.exists_cons_of_ne_nil p.ne_nil
  have hspace : space = b := by simpa [Piece.text, hk, htoken, List.replicate_succ] using h
  exact p.not_mem (by simp [htoken, hspace])

theorem Pieces.joined (h : Pieces str ps) (hall : ∀ p ∈ ps, p.spaces = 0) :
    ∃ k, str = List.intercalate [space] (ps.map Piece.token) ++ List.replicate k space := by
  induction h with
  | blank k => exact ⟨k, rfl⟩
  | last p => exact ⟨0, by simp [p.text_eq (hall p (by simp))]⟩
  | @cons p rest ps h ih =>
    obtain ⟨k, hrest⟩ := ih fun p hp => hall p (.tail _ hp)
    rw [p.text_eq (hall p (.head _)), hrest]
    by_cases hnil : ps = []
    · subst hnil
      exact ⟨k + 1, by simp [List.replicate_succ]⟩
    · refine ⟨k, ?_⟩
      rw [List.map_cons, List.intercalate_cons_of_ne_nil (by simpa using hnil)]
      simp

/-- Where the string is spaced once, the tokens are all that is between the NULs. -/
theorem Pieces.spacedOnce_iff (h : Pieces str ps) : SpacedOnce str ↔ ∀ p ∈ ps, p.spaces = 0 := by
  constructor
  · rintro ⟨k, hstr⟩
    by_cases hnil : ps = []
    · simp [hnil]
    · -- the spaces in front of the tokens would make the string longer
      have hlen := h.length_trimmed hnil
      have htokens : tokens str ≠ [] := by
        rw [h.tokens_eq]
        simpa using hnil
      have hjoin := length_intercalate htokens
      have hle : (trimmed str).length ≤ (List.intercalate [space] (tokens str)).length := by
        generalize tokens str = toks at hstr
        rw [hstr, trimmed_append_replicate]
        exact (List.rdropWhile_prefix (· == space) _).length_le
      have hmap : ((tokens str).map fun l => l.length + 1) =
          ps.map fun p => p.token.length + 1 := by
        rw [h.tokens_eq, List.map_map]
        rfl
      rw [sum_text] at hlen
      rw [hmap] at hjoin
      have hspaces : (ps.map Piece.spaces).sum = 0 := by omega
      simpa using List.sum_eq_zero_iff_forall_eq_nat.mp hspaces
  · intro hall
    rw [SpacedOnce, h.tokens_eq]
    exact h.joined hall

theorem Pieces.not_mem {c : U8} (h : Pieces str ps) (hc : c ∉ str) : ∀ p ∈ ps, c ∉ p.text := by
  induction h with
  | blank k => simp
  | last p => simpa using hc
  | cons p h ih =>
    simp only [List.mem_append, List.mem_cons, not_or] at hc
    exact List.forall_mem_cons.mpr ⟨hc.1, ih hc.2.2⟩

end

end SwitchV32
