import Mathlib.Data.List.Basic
import Mathlib.Data.List.Flatten

/-!
# Reading a stream line by line in bounded pieces

{lit}`fgets` returns at most a fixed number of elements of a stream and stops behind the first
newline.  Reading a whole stream that way cuts it into pieces; with a bound that no line
reaches, the pieces are the lines.

Main results:

- Theorem {lit}`pieces_flatten`: a list of pieces that could have been read is read back from
  its concatenation.
- Theorem {lit}`Readable.sublist`: leaving out pieces keeps a list readable.
- Theorem {lit}`pieces_lines`: reading a stream in pieces is reading its lines in pieces.
- Theorem {lit}`filter_pieces_eq_iff`: when a choice of pieces is a choice of lines.
-/

namespace ZyxelRouter
namespace Lib

variable {α : Type} [DecidableEq α]

/-- At most {lit}`n` elements up to and including the first newline, and what is left. -/
def fgets (nl : α) : Nat → List α → List α × List α
  | 0, rest => ([], rest)
  | _ + 1, [] => ([], [])
  | n + 1, c :: rest =>
      if c = nl then ([c], rest)
      else (c :: (fgets nl n rest).1, (fgets nl n rest).2)

/-- The loop that reads a stream to its end; a round takes at least one element. -/
def readPieces (nl : α) (n : Nat) : Nat → List α → List (List α)
  | 0, _ => []
  | fuel + 1, stream =>
      if stream = [] then []
      else (fgets nl n stream).1 :: readPieces nl n fuel (fgets nl n stream).2

/-- The pieces of a stream. -/
def pieces (nl : α) (n : Nat) (stream : List α) : List (List α) :=
  readPieces nl n stream.length stream

/-- The lines of a stream, each with its newline. -/
def lines (nl : α) (stream : List α) : List (List α) :=
  pieces nl stream.length stream

variable {nl : α} {n : Nat}

/-! ## Pieces -/

/-- A piece that more can follow: it ends with a newline or has full length. -/
structure Complete (nl : α) (n : Nat) (p : List α) : Prop where
  nonempty : p ≠ []
  length_le : p.length ≤ n
  inner : nl ∉ p.dropLast
  full : p.getLast? = some nl ∨ p.length = n

/-- A piece, complete or at the end of the stream. -/
structure Piece (nl : α) (n : Nat) (p : List α) : Prop where
  nonempty : p ≠ []
  length_le : p.length ≤ n
  inner : nl ∉ p.dropLast

/-- Pieces of which all but the last are complete. -/
structure Readable (nl : α) (n : Nat) (ps : List (List α)) : Prop where
  piece : ∀ p ∈ ps, Piece nl n p
  complete : ps.Pairwise (fun p _ => Complete nl n p)

omit [DecidableEq α] in
theorem Complete.piece {p : List α} (h : Complete nl n p) : Piece nl n p :=
  ⟨h.nonempty, h.length_le, h.inner⟩

omit [DecidableEq α] in
/-- Leaving out pieces keeps the others readable. -/
theorem Readable.sublist {ps qs : List (List α)} (h : Readable nl n ps) (hsub : qs.Sublist ps) :
    Readable nl n qs :=
  ⟨fun p hp => h.piece p (hsub.subset hp), h.complete.sublist hsub⟩

theorem fgets_append (nl : α) (n : Nat) (s : List α) : (fgets nl n s).1 ++ (fgets nl n s).2 = s := by
  induction n generalizing s with
  | zero => rfl
  | succ n ih =>
      cases s with
      | nil => rfl
      | cons c rest =>
          simp only [fgets]
          split_ifs
          · rfl
          · rw [List.cons_append, ih]

/-- What {lit}`fgets` returns is a piece, and complete if something is left. -/
theorem fgets_piece (hn : 0 < n) {s : List α} (hs : s ≠ []) :
    Piece nl n (fgets nl n s).1 ∧ ((fgets nl n s).2 ≠ [] → Complete nl n (fgets nl n s).1) := by
  induction n generalizing s with
  | zero => omega
  | succ n ih =>
      obtain ⟨c, rest, rfl⟩ := List.exists_cons_of_ne_nil hs
      simp only [fgets]
      split_ifs with hc
      · subst hc
        exact ⟨⟨by simp, by simp, by simp⟩, fun _ => ⟨by simp, by simp, by simp, .inl rfl⟩⟩
      · by_cases hrest : rest = []
        · subst hrest
          have hnil : fgets nl n ([] : List α) = ([], []) := by cases n <;> rfl
          simp only [hnil]
          exact ⟨⟨by simp, by simp, by simp⟩, fun h => absurd rfl h⟩
        · by_cases hzero : n = 0
          · subst hzero
            exact ⟨⟨by simp, by simp [fgets], by simp [fgets]⟩,
              fun _ => ⟨by simp, by simp [fgets], by simp [fgets], .inr (by simp [fgets])⟩⟩
          · obtain ⟨hpiece, hcomplete⟩ := ih (by omega) hrest
            have hinner : nl ∉ (c :: (fgets nl n rest).1).dropLast := by
              rw [List.dropLast_cons_of_ne_nil hpiece.nonempty]
              intro hmem
              rcases List.mem_cons.mp hmem with heq | hmem
              · exact hc heq.symm
              · exact hpiece.inner hmem
            have hlen : (c :: (fgets nl n rest).1).length ≤ n + 1 :=
              Nat.succ_le_succ hpiece.length_le
            refine ⟨⟨by simp, hlen, hinner⟩, fun hleft => ⟨by simp, hlen, hinner, ?_⟩⟩
            rcases (hcomplete hleft).full with hlast | hfull
            · left
              rw [List.getLast?_cons, hlast]
              rfl
            · right
              rw [List.length_cons, hfull]

/-- A complete piece is read again whatever follows. -/
theorem fgets_complete {p : List α} (h : Complete nl n p) (rest : List α) :
    fgets nl n (p ++ rest) = (p, rest) := by
  induction n generalizing p with
  | zero => exact absurd (List.length_eq_zero_iff.mp (Nat.le_zero.mp h.length_le)) h.nonempty
  | succ n ih =>
      obtain ⟨c, p', rfl⟩ := List.exists_cons_of_ne_nil h.nonempty
      by_cases hp' : p' = []
      · subst hp'
        rcases h.full with hlast | hfull
        · have hc : c = nl := by simpa using hlast
          simp [fgets, hc]
        · have hzero : n = 0 := by simpa using hfull.symm
          subst hzero
          by_cases hc : c = nl <;> simp [fgets, hc]
      · have hinner := h.inner
        rw [List.dropLast_cons_of_ne_nil hp', List.mem_cons, not_or] at hinner
        have hc : ¬ c = nl := fun heq => hinner.1 heq.symm
        have hrest : Complete nl n p' := by
          refine ⟨hp', Nat.le_of_succ_le_succ h.length_le, hinner.2, ?_⟩
          rcases h.full with hlast | hfull
          · left
            rwa [List.getLast?_cons_of_ne_nil hp'] at hlast
          · right
            simpa using hfull
        simp only [List.cons_append, fgets, if_neg hc, ih hrest]

/-- The last piece is read again at the end of the stream. -/
theorem fgets_piece_end {p : List α} (h : Piece nl n p) : fgets nl n p = (p, []) := by
  induction n generalizing p with
  | zero => exact absurd (List.length_eq_zero_iff.mp (Nat.le_zero.mp h.length_le)) h.nonempty
  | succ n ih =>
      obtain ⟨c, p', rfl⟩ := List.exists_cons_of_ne_nil h.nonempty
      by_cases hp' : p' = []
      · subst hp'
        have hnil : fgets nl n ([] : List α) = ([], []) := by cases n <;> rfl
        by_cases hc : c = nl <;> simp [fgets, hc, hnil]
      · have hinner := h.inner
        rw [List.dropLast_cons_of_ne_nil hp', List.mem_cons, not_or] at hinner
        have hc : ¬ c = nl := fun heq => hinner.1 heq.symm
        have hrest : Piece nl n p' := ⟨hp', Nat.le_of_succ_le_succ h.length_le, hinner.2⟩
        simp only [fgets, if_neg hc, ih hrest]

/-- The first piece of a line is what fits of it. -/
theorem fgets_line {l : List α} (hl : nl ∉ l.dropLast) : (fgets nl n l).1 = l.take n := by
  induction n generalizing l with
  | zero => rfl
  | succ n ih =>
      cases l with
      | nil => rfl
      | cons c rest =>
          by_cases hrest : rest = []
          · subst hrest
            have hnil : fgets nl n ([] : List α) = ([], []) := by cases n <;> rfl
            by_cases hc : c = nl <;> simp [fgets, hc, hnil]
          · rw [List.dropLast_cons_of_ne_nil hrest, List.mem_cons, not_or] at hl
            have hc : ¬ c = nl := fun heq => hl.1 heq.symm
            simp only [fgets, if_neg hc, ih hl.2, List.take_succ_cons]

/-! ## Whole streams -/

theorem readPieces_spec (hn : 0 < n) :
    ∀ (fuel : Nat) (s : List α),
      s.length ≤ fuel →
      (readPieces nl n fuel s).flatten = s ∧ Readable nl n (readPieces nl n fuel s) := by
  intro fuel
  induction fuel with
  | zero =>
      intro s hs
      have hnil : s = [] := List.length_eq_zero_iff.mp (Nat.le_zero.mp hs)
      subst hnil
      exact ⟨rfl, by simp [readPieces], by simp [readPieces]⟩
  | succ fuel ih =>
      intro s hs
      by_cases hnil : s = []
      · subst hnil
        exact ⟨rfl, by simp [readPieces], by simp [readPieces]⟩
      · obtain ⟨hpiece, hcomplete⟩ := @fgets_piece α _ nl n hn s hnil
        have happ := fgets_append nl n s
        have hpos : 0 < (fgets nl n s).1.length := List.length_pos_iff.mpr hpiece.nonempty
        have hlen : (fgets nl n s).2.length ≤ fuel := by
          have := congrArg List.length happ
          rw [List.length_append] at this
          omega
        obtain ⟨hflat, hread⟩ := ih _ hlen
        simp only [readPieces, if_neg hnil]
        refine ⟨by rw [List.flatten_cons, hflat, happ], fun p hp => ?_,
          List.pairwise_cons.mpr ⟨fun q hq => ?_, hread.complete⟩⟩
        · rcases List.mem_cons.mp hp with rfl | hp
          · exact hpiece
          · exact hread.piece p hp
        · apply hcomplete
          intro hleft
          rw [hleft] at hq
          cases fuel <;> simp [readPieces] at hq

theorem flatten_pieces (hn : 0 < n) (s : List α) : (pieces nl n s).flatten = s :=
  (readPieces_spec hn _ s (Nat.le_refl _)).1

theorem readable_pieces (hn : 0 < n) (s : List α) : Readable nl n (pieces nl n s) :=
  (readPieces_spec hn _ s (Nat.le_refl _)).2

theorem readPieces_flatten :
    ∀ (ps : List (List α)) (fuel : Nat),
      Readable nl n ps →
      ps.flatten.length ≤ fuel →
      readPieces nl n fuel ps.flatten = ps := by
  intro ps
  induction ps with
  | nil =>
      intro fuel _ _
      cases fuel <;> rfl
  | cons p ps ih =>
      intro fuel h hfuel
      have hp := h.piece p List.mem_cons_self
      have hpos : 0 < p.length := List.length_pos_iff.mpr hp.nonempty
      have hlen : (p :: ps).flatten.length = p.length + ps.flatten.length := by simp
      obtain ⟨m, rfl⟩ : ∃ m, fuel = m + 1 := ⟨fuel - 1, by omega⟩
      have hne : p ++ ps.flatten ≠ [] := by
        intro hnil
        exact hp.nonempty (List.append_eq_nil_iff.mp hnil).1
      have hget : fgets nl n (p ++ ps.flatten) = (p, ps.flatten) := by
        cases ps with
        | nil =>
            rw [List.flatten_nil, List.append_nil]
            exact fgets_piece_end hp
        | cons q qs =>
            exact fgets_complete ((List.pairwise_cons.mp h.complete).1 q List.mem_cons_self) _
      rw [List.flatten_cons]
      simp only [readPieces, if_neg hne, hget]
      rw [ih m (h.sublist (List.sublist_cons_self p ps)) (by omega)]

/-- Pieces that could have been read are read back from their concatenation. -/
theorem pieces_flatten {ps : List (List α)} (h : Readable nl n ps) :
    pieces nl n ps.flatten = ps :=
  readPieces_flatten ps _ h (Nat.le_refl _)

/-- The lines of a stream. -/
theorem flatten_lines (s : List α) : (lines nl s).flatten = s := by
  cases s with
  | nil => rfl
  | cons c rest => exact flatten_pieces (Nat.succ_pos _) _

/-- Every piece of a line that ends with a newline is complete. -/
theorem complete_of_terminated (hn : 0 < n) {l : List α} (hlast : l.getLast? = some nl)
    {p : List α} (hp : p ∈ pieces nl n l) : Complete nl n p := by
  have h : Readable nl n (pieces nl n l) := readable_pieces hn l
  obtain ⟨front, back, hsplit⟩ := List.append_of_mem hp
  rw [hsplit] at h
  cases back with
  | cons q qs =>
      have hback := (List.pairwise_append.mp h.complete).2.1
      exact (List.pairwise_cons.mp hback).1 q List.mem_cons_self
  | nil =>
      have hpiece := h.piece p (by simp)
      refine ⟨hpiece.nonempty, hpiece.length_le, hpiece.inner, .inl ?_⟩
      have hflat : (pieces nl n l).flatten = l := flatten_pieces hn l
      rw [hsplit] at hflat
      rw [← hflat, List.flatten_append, List.flatten_singleton,
        List.getLast?_append_of_ne_nil _ hpiece.nonempty] at hlast
      exact hlast

/-- A line that another one follows ends with a newline. -/
theorem lines_terminated (s : List α) :
    (lines nl s).Pairwise (fun l _ => l.getLast? = some nl) := by
  cases s with
  | nil => exact List.Pairwise.nil
  | cons c rest =>
      have hpos : 0 < (c :: rest).length := Nat.succ_pos _
      have hread : Readable nl (c :: rest).length (lines nl (c :: rest)) := readable_pieces hpos _
      have hread' := hread.complete
      rw [List.pairwise_iff_forall_sublist] at hread' ⊢
      intro l m hsub
      have hcomplete := hread' hsub
      rcases hcomplete.full with hlast | hfull
      · exact hlast
      · -- a line of the length of the whole stream leaves nothing for another one
        have hm : Piece nl (c :: rest).length m := hread.piece m (hsub.subset (by simp))
        have hsum : [l, m].flatten.length ≤ (lines nl (c :: rest)).flatten.length :=
          hsub.flatten.length_le
        have hpos' : 0 < m.length := List.length_pos_iff.mpr hm.nonempty
        rw [flatten_lines] at hsum
        simp only [List.flatten_cons, List.flatten_nil, List.length_append, List.length_nil] at hsum
        omega

/-- Reading a stream in pieces is reading its lines in pieces. -/
theorem pieces_lines (hn : 0 < n) (s : List α) :
    pieces nl n s = ((lines nl s).map (pieces nl n)).flatten := by
  have hflat : (((lines nl s).map (pieces nl n)).flatten).flatten = s := by
    rw [List.flatten_flatten, List.map_map]
    have hid : (List.flatten ∘ pieces nl n) = (id : List α → List α) := by
      funext l
      exact flatten_pieces hn l
    rw [hid, List.map_id, flatten_lines]
  have hread : Readable nl n ((lines nl s).map (pieces nl n)).flatten := by
    constructor
    · intro p hp
      obtain ⟨ps, hps, hmem⟩ := List.mem_flatten.mp hp
      obtain ⟨l, _, rfl⟩ := List.mem_map.mp hps
      exact (readable_pieces hn l).piece p hmem
    · rw [List.pairwise_flatten]
      constructor
      · intro ps hps
        obtain ⟨l, _, rfl⟩ := List.mem_map.mp hps
        exact (readable_pieces hn l).complete
      · rw [List.pairwise_map]
        refine (lines_terminated s).imp ?_
        intro l m hlast p hp q hq
        exact complete_of_terminated hn hlast hp
  calc pieces nl n s = pieces nl n (((lines nl s).map (pieces nl n)).flatten).flatten := by rw [hflat]
    _ = ((lines nl s).map (pieces nl n)).flatten := pieces_flatten hread

/-! ## Filtering pieces and filtering lines -/

omit [DecidableEq α] in
/-- Sublists one by one make a sublist of the concatenation. -/
theorem sublist_flatten_map {β γ : Type} {f g : β → List γ} :
    ∀ (ls : List β),
      (∀ l ∈ ls, (g l).Sublist (f l)) →
      ((ls.map g).flatten).Sublist ((ls.map f).flatten) := by
  intro ls
  induction ls with
  | nil => simp
  | cons l ls ih =>
      intro hsub
      rw [List.map_cons, List.map_cons, List.flatten_cons, List.flatten_cons]
      exact (hsub l List.mem_cons_self).append (ih (fun m hm => hsub m (List.mem_cons_of_mem l hm)))

omit [DecidableEq α] in
/-- Lists that are longer one by one and have the same concatenation are the same. -/
theorem eq_of_flatten_map_eq {β γ : Type} {f g : β → List γ} :
    ∀ (ls : List β),
      (∀ l ∈ ls, (g l).Sublist (f l)) →
      (ls.map f).flatten = (ls.map g).flatten →
      ∀ l ∈ ls, f l = g l := by
  intro ls
  induction ls with
  | nil => simp
  | cons l ls ih =>
      intro hsub heq
      have hhead := hsub l List.mem_cons_self
      have htail : ∀ m ∈ ls, (g m).Sublist (f m) := fun m hm => hsub m (List.mem_cons_of_mem l hm)
      have hle := (sublist_flatten_map ls htail).length_le
      rw [List.map_cons, List.map_cons, List.flatten_cons, List.flatten_cons] at heq
      have hlen := congrArg List.length heq
      rw [List.length_append, List.length_append] at hlen
      have hsame : f l = g l := (hhead.eq_of_length_le (by omega)).symm
      rw [hsame] at heq
      intro m hm
      rcases List.mem_cons.mp hm with rfl | hm
      · exact hsame
      · exact ih htail (List.append_cancel_left heq) m hm

/-- The chosen lines are the pieces of the chosen lines. -/
theorem flatten_chosen (hn : 0 < n) (keepLine : List α → Bool) (ls : List (List α)) :
    (ls.filter keepLine).flatten =
      ((ls.map (fun l => if keepLine l then pieces nl n l else [])).flatten).flatten := by
  induction ls with
  | nil => rfl
  | cons l ls ih =>
      cases hkeep : keepLine l with
      | true => simp [hkeep, ih, flatten_pieces hn]
      | false => simp [hkeep, ih]

/-- Keeping some of the pieces of a stream keeps exactly the chosen lines if and only if the
two choices agree on every piece of every line. -/
theorem filter_pieces_eq_iff (hn : 0 < n) (s : List α) (keep keepLine : List α → Bool) :
    ((pieces nl n s).filter keep).flatten = ((lines nl s).filter keepLine).flatten ↔
      ∀ l ∈ lines nl s, ∀ p ∈ pieces nl n l, keep p = keepLine l := by
  have hread : Readable nl n (pieces nl n s) := readable_pieces hn s
  have hpieces : pieces nl n s = ((lines nl s).map (pieces nl n)).flatten := pieces_lines hn s
  have hleft : (pieces nl n s).filter keep =
      ((lines nl s).map (fun l => (pieces nl n l).filter keep)).flatten := by
    rw [hpieces, List.filter_flatten, List.map_map]
    rfl
  have hright := @flatten_chosen α _ nl n hn keepLine (lines nl s)
  constructor
  · intro heq
    have hsub : (((lines nl s).map (fun l => if keepLine l then pieces nl n l else [])).flatten).Sublist
        (pieces nl n s) := by
      rw [hpieces]
      apply sublist_flatten_map
      intro l _
      split
      · exact List.Sublist.refl _
      · exact List.nil_sublist _
    -- both sides are read back in the same pieces
    have hsame : ((lines nl s).map (fun l => (pieces nl n l).filter keep)).flatten =
        ((lines nl s).map (fun l => if keepLine l then pieces nl n l else [])).flatten := by
      rw [← hleft, ← pieces_flatten (hread.sublist List.filter_sublist),
        ← pieces_flatten (hread.sublist hsub), heq, hright]
    have hkept : ∀ l ∈ lines nl s, keepLine l = true → ∀ p ∈ pieces nl n l, keep p = true := by
      intro l hl hkeep p hp
      have hmem : p ∈ (pieces nl n s).filter keep := by
        rw [hleft, hsame, List.mem_flatten]
        exact ⟨_, List.mem_map_of_mem hl, by rw [if_pos hkeep]; exact hp⟩
      exact (List.mem_filter.mp hmem).2
    have hterm := eq_of_flatten_map_eq (lines nl s) ?_ hsame
    · intro l hl p hp
      have hl' := hterm l hl
      cases hkeep : keepLine l with
      | true => exact hkept l hl hkeep p hp
      | false =>
          rw [hkeep, if_neg (by simp), List.filter_eq_nil_iff] at hl'
          simpa using hl' p hp
    · intro l hl
      cases hkeep : keepLine l with
      | true =>
          rw [if_pos rfl, List.filter_eq_self.mpr (hkept l hl hkeep)]
      | false => exact List.nil_sublist _
  · intro hagree
    rw [hleft, hright]
    congr 2
    apply List.map_congr_left
    intro l hl
    cases hkeep : keepLine l with
    | true =>
        rw [if_pos rfl]
        exact List.filter_eq_self.mpr (fun p hp => (hagree l hl p hp).trans hkeep)
    | false =>
        rw [if_neg (by simp)]
        refine List.filter_eq_nil_iff.mpr (fun p hp => ?_)
        rw [hagree l hl p hp, hkeep]
        simp

end Lib
end ZyxelRouter
