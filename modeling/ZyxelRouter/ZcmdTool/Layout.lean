import Mathlib.Tactic.SplitIfs
import ZyxelRouter.ZcmdTool.Model

/-!
# Cursor layout against the natural struct layout

The cursor of {lit}`zcmd_tool.c` pads to four-byte boundaries, a compiler aligns
each member to its own width.  This module compares the two.

Main results:

- Theorem {lit}`place_tight`: the cursor always records the distance to the next
  four-byte boundary.
- Theorem {lit}`place_offset`: every placement is the natural one, except for a
  two-byte integer behind a running offset of the form 4k+1.
- Theorem {lit}`offsets_natural_iff`: the exact schemas on which both loops use the
  natural offsets.
- Theorem {lit}`endPos_le_endOffset`: the cursor never runs past the natural struct.
-/

namespace ZyxelRouter
namespace ZcmdTool

open Lib StructLayout

/-! ## The cursor invariant -/

/-- {lit}`redundantSpace` is the distance from {lit}`pos` to the next boundary. -/
def Cursor.Tight (c : Cursor) : Prop :=
  c.redundantSpace < boundary ∧ (c.pos + c.redundantSpace) % boundary = 0

theorem Cursor.start_tight : Cursor.start.Tight := by
  unfold Cursor.Tight
  decide

/-- The two switches of a well-typed parameter, by kind of member. -/
theorem place_cases {p : ParameterInfo} (hp : p.WellTyped) (target64 : Bool)
    (c : Cursor) :
    (p.isInteger = false ∧ p.len = 1 ∧
      jStringToStructPlace target64 c p = placeBoolean c 1) ∨
    (p.isInteger = true ∧ (p.len = 1 ∨ p.len = 2 ∨ p.len = 4 ∨ p.len = 8) ∧
      jStringToStructPlace target64 c p = placeInteger target64 c p.len) ∨
    (p.isInteger = false ∧ 1 ≤ p.len ∧
      jStringToStructPlace target64 c p = placeText c p.len) := by
  obtain ⟨name, type, len⟩ := p
  rcases hp with ⟨htype, hlen⟩ | ⟨hint, hlen⟩ | ⟨htext, hlen⟩
  · left
    simp only at htype hlen
    subst htype hlen
    exact ⟨rfl, rfl, rfl⟩
  · right; left
    refine ⟨hint, hlen, ?_⟩
    cases type <;> first | rfl | simp [ParameterInfo.isInteger, ParamType.isUnsigned] at hint
  · right; right
    cases type <;> first
      | exact ⟨rfl, hlen, rfl⟩
      | simp [ParamType.isText] at htext

/-- The integer branch on a tight cursor: an integer that does not fit the space
left starts at the next boundary, an eight-byte one on a 64-bit target at the next
multiple of eight. -/
theorem placeInteger_eq {c : Cursor} (hc : c.Tight) (target64 : Bool) {len : Nat}
    (hlen : len = 1 ∨ len = 2 ∨ len = 4 ∨ len = 8) :
    ∃ pos, (pos = if len ≤ c.redundantSpace then c.pos
        else if len = 8 ∧ target64 = true then (c.pos + c.redundantSpace + 7) / 8 * 8
        else c.pos + c.redundantSpace) ∧
      placeInteger target64 c len =
        (pos, ⟨pos + len,
          if len ≤ c.redundantSpace then c.redundantSpace - len else (8 - len) % 4⟩) := by
  obtain ⟨hlt, hmod⟩ := hc
  unfold boundary at hlt hmod
  refine ⟨_, rfl, ?_⟩
  unfold placeInteger padInteger boundary
  by_cases hfit : len ≤ c.redundantSpace
  · have hlen8 : len ≠ 8 := by omega
    simp [hfit, hlen8, Nat.not_lt.mpr hfit]
  · have hgt : len > c.redundantSpace := by omega
    by_cases h8 : len = 8 ∧ target64 = true
    · obtain ⟨rfl, rfl⟩ := h8
      by_cases hpad : (c.pos + c.redundantSpace) % 8 = 0
      · have hpos : (c.pos + c.redundantSpace + 7) / 8 * 8 = c.pos + c.redundantSpace := by omega
        simp [hfit, hgt, hpad, hpos]
      · have hpos : (c.pos + c.redundantSpace + 7) / 8 * 8 = c.pos + c.redundantSpace + 4 := by
          omega
        simp [hfit, hgt, hpad, hpos]
    · have hskip : ¬ (len = 8 ∧ target64 = true ∧ (c.pos + c.redundantSpace) % 8 ≠ 0) :=
        fun h => h8 ⟨h.1, h.2.1⟩
      have hspace : (if len > 4 then 4 * 2 - len else 4 - len) = (8 - len) % 4 := by
        rcases hlen with rfl | rfl | rfl | rfl <;> rfl
      simp only [hgt, if_true, hskip, if_false, hspace, hfit, h8]

/-- One placement keeps the cursor tight. -/
theorem place_tight {p : ParameterInfo} (hp : p.WellTyped) (target64 : Bool)
    {c : Cursor} (hc : c.Tight) : (jStringToStructPlace target64 c p).2.Tight := by
  have ⟨hlt, hmod⟩ := hc
  unfold boundary at hlt hmod
  rcases place_cases hp target64 c with ⟨-, -, hplace⟩ | ⟨-, hlen, hplace⟩ | ⟨-, -, hplace⟩
  · rw [hplace]
    unfold placeBoolean Cursor.Tight boundary
    split <;> simp only <;> omega
  · obtain ⟨pos, hpos, hint⟩ := placeInteger_eq hc target64 hlen
    rw [hplace, hint]
    unfold Cursor.Tight boundary
    dsimp only
    split_ifs at hpos ⊢ <;> omega
  · rw [hplace]
    unfold placeText Cursor.Tight boundary
    dsimp only
    split_ifs <;> omega

/-- A placement starts at or after {lit}`pos` and ends {lit}`len` bytes later. -/
theorem place_bounds {p : ParameterInfo} (hp : p.WellTyped) (target64 : Bool)
    (c : Cursor) :
    c.pos ≤ (jStringToStructPlace target64 c p).1 ∧
      (jStringToStructPlace target64 c p).2.pos =
        (jStringToStructPlace target64 c p).1 + p.len := by
  rcases place_cases hp target64 c with ⟨-, hlen, hplace⟩ | ⟨-, -, hplace⟩ | ⟨-, -, hplace⟩ <;>
    rw [hplace]
  · unfold placeBoolean
    split <;> simp only <;> omega
  · unfold placeInteger padInteger
    dsimp only
    refine ⟨?_, rfl⟩
    split_ifs <;> dsimp only <;> omega
  · exact ⟨le_rfl, rfl⟩

/-! ## Natural placement -/

/-- The members the cursor misplaces: a two-byte integer while one byte of the
current four-byte unit is taken. -/
def misplacedShort (pos : Nat) (p : ParameterInfo) : Prop :=
  p.isInteger = true ∧ p.len = 2 ∧ pos % 4 = 1

/-- Away from a misplaced short the cursor uses the natural offset. -/
theorem place_offset {p : ParameterInfo} (hp : p.WellTyped) {c : Cursor}
    (hc : c.Tight) (hshort : ¬ misplacedShort c.pos p) :
    (jStringToStructPlace true c p).1 = alignUp p.member.align c.pos := by
  have ⟨hlt, hmod⟩ := hc
  unfold boundary at hlt hmod
  rcases place_cases hp true c with
    ⟨hint, hlen, hplace⟩ | ⟨hint, hlen, hplace⟩ | ⟨hint, hlen, hplace⟩
  · simp only [hplace, ParameterInfo.member, hint, alignUp, Bool.false_eq_true, if_false]
    unfold placeBoolean
    split <;> simp only <;> omega
  · obtain ⟨pos, hpos, hinteger⟩ := placeInteger_eq hc true hlen
    simp only [misplacedShort, hint, true_and, not_and] at hshort
    simp only [hplace, hinteger, ParameterInfo.member, hint, alignUp, if_true, and_true] at hpos ⊢
    rcases hlen with hlen | hlen | hlen | hlen <;> rw [hlen] at hpos hshort ⊢ <;>
      split_ifs at hpos <;> omega
  · simp only [hplace, placeText, ParameterInfo.member, hint, alignUp, Bool.false_eq_true,
      if_false]
    omega

/-- A misplaced short is never at its natural offset. -/
theorem place_offset_ne {p : ParameterInfo} (hp : p.WellTyped) {c : Cursor}
    (hc : c.Tight) (hshort : misplacedShort c.pos p) :
    (jStringToStructPlace true c p).1 ≠ alignUp p.member.align c.pos := by
  have ⟨hlt, hmod⟩ := hc
  obtain ⟨hint, hlen, hmod4⟩ := hshort
  unfold boundary at hlt hmod
  rcases place_cases hp true c with ⟨hno, -, -⟩ | ⟨-, hlens, hplace⟩ | ⟨hno, -, -⟩
  · simp [hint] at hno
  · obtain ⟨pos, hpos, hinteger⟩ := placeInteger_eq hc true hlens
    rw [hplace, hinteger]
    simp only [ParameterInfo.member, hint, alignUp, if_true]
    rw [hlen] at hpos ⊢
    split_ifs at hpos <;> omega
  · simp [hint] at hno

/-- On any target a placement is at most the natural one. -/
theorem place_offset_le {p : ParameterInfo} (hp : p.WellTyped) (target64 : Bool)
    {c : Cursor} (hc : c.Tight) :
    (jStringToStructPlace target64 c p).1 ≤ alignUp p.member.align c.pos := by
  have ⟨hlt, hmod⟩ := hc
  unfold boundary at hlt hmod
  rcases place_cases hp target64 c with
    ⟨hint, hlen, hplace⟩ | ⟨hint, hlen, hplace⟩ | ⟨hint, hlen, hplace⟩
  · simp only [hplace, ParameterInfo.member, hint, alignUp, Bool.false_eq_true, if_false]
    unfold placeBoolean
    split <;> simp only <;> omega
  · obtain ⟨pos, hpos, hinteger⟩ := placeInteger_eq hc target64 hlen
    simp only [hplace, hinteger, ParameterInfo.member, hint, alignUp, if_true]
    rcases hlen with hlen | hlen | hlen | hlen <;> rw [hlen] at hpos ⊢ <;>
      split_ifs at hpos <;> omega
  · simp only [hplace, placeText, ParameterInfo.member, hint, alignUp, Bool.false_eq_true,
      if_false]
    omega

/-! ## Whole schemas -/

/-- The position of the cursor after a parameter list. -/
def endPos (target64 : Bool) : Cursor → List ParameterInfo → Nat
  | c, [] => c.pos
  | c, p :: ps => endPos target64 (jStringToStructPlace target64 c p).2 ps

/-- The cursor never runs past the end of the natural struct. -/
theorem endPos_le_endOffset (target64 : Bool) {ps : List ParameterInfo}
    (hps : ∀ p ∈ ps, p.WellTyped) {c : Cursor} (hc : c.Tight) {pos : Nat}
    (hpos : c.pos ≤ pos) :
    endPos target64 c ps ≤ endOffset pos (ps.map (·.member)) := by
  induction ps generalizing c pos with
  | nil => exact hpos
  | cons p ps ih =>
      have hp := hps p List.mem_cons_self
      refine ih (fun q hq => hps q (List.mem_cons_of_mem p hq)) (place_tight hp target64 hc) ?_
      rw [(place_bounds hp target64 c).2]
      exact Nat.add_le_add_right
        ((place_offset_le hp target64 hc).trans (alignUp_mono hpos)) p.len

/-- Reading and writing use the same offsets. -/
theorem readOffsets_eq (target64 : Bool) (c : Cursor) (ps : List ParameterInfo) :
    readOffsets target64 c ps = writtenOffsets target64 c ps := by
  induction ps generalizing c with
  | nil => rfl
  | cons p ps ih =>
      simp only [readOffsets, writtenOffsets, structToJStringPlace_eq, ih]

/-- No parameter is a short placed behind a natural running offset 4k+1. -/
def NoMisplacedShort (pos : Nat) (ps : List ParameterInfo) : Prop :=
  ∀ pre p post, ps = pre ++ p :: post →
    ¬ misplacedShort (endOffset pos (pre.map (·.member))) p

theorem noMisplacedShort_cons {pos : Nat} {p : ParameterInfo} {ps : List ParameterInfo} :
    NoMisplacedShort pos (p :: ps) ↔
      ¬ misplacedShort pos p ∧
        NoMisplacedShort (alignUp p.member.align pos + p.member.size) ps := by
  constructor
  · intro h
    refine ⟨h [] p ps rfl, ?_⟩
    intro pre q post hsplit
    exact h (p :: pre) q post (by rw [hsplit]; rfl)
  · rintro ⟨hhead, htail⟩ pre q post hsplit
    cases pre with
    | nil =>
        obtain ⟨rfl, rfl⟩ := List.cons.inj hsplit
        exact hhead
    | cons r pre =>
        obtain ⟨rfl, hrest⟩ := List.cons.inj hsplit
        exact htail pre q post hrest

/-- The written offsets are natural exactly when no short is misplaced. -/
theorem writtenOffsets_natural_iff {ps : List ParameterInfo}
    (hps : ∀ p ∈ ps, p.WellTyped) {c : Cursor} (hc : c.Tight) :
    writtenOffsets true c ps = offsets c.pos (ps.map (·.member)) ↔
      NoMisplacedShort c.pos ps := by
  induction ps generalizing c with
  | nil =>
      refine ⟨fun _ pre p post h => ?_, fun _ => rfl⟩
      simp at h
  | cons p ps ih =>
      have hp := hps p List.mem_cons_self
      have hrest := fun q hq => hps q (List.mem_cons_of_mem p hq)
      rw [noMisplacedShort_cons]
      by_cases hshort : misplacedShort c.pos p
      · -- The head already differs, whatever follows.
        refine ⟨fun h => ?_, fun h => absurd hshort h.1⟩
        exact absurd (List.cons.inj h).1 (place_offset_ne hp hc hshort)
      · have hoff := place_offset hp hc hshort
        have hend : (jStringToStructPlace true c p).2.pos =
            alignUp p.member.align c.pos + p.member.size := by
          rw [(place_bounds hp true c).2, hoff]
          rfl
        have htail := ih hrest (place_tight hp true hc)
        rw [hend] at htail
        simp only [writtenOffsets, List.map_cons, offsets, hoff, List.cons.injEq, true_and,
          hshort, not_false_eq_true]
        exact htail

/-- With 64-bit padding, the offsets both loops use are the offsets of the generated
struct exactly when no two-byte integer follows members that end at 4k+1. -/
theorem offsets_natural_iff (obj : ObjInfo) :
    (writtenOffsets true .start obj.params = offsets 0 (obj.params.map (·.member)) ∧
      readOffsets true .start obj.params = offsets 0 (obj.params.map (·.member))) ↔
    ∀ pre p post, obj.params = pre ++ p :: post → p.isInteger = true → p.len = 2 →
      endOffset 0 (pre.map (·.member)) % 4 ≠ 1 := by
  have hiff := writtenOffsets_natural_iff obj.wellTyped Cursor.start_tight
  rw [readOffsets_eq, and_self]
  refine hiff.trans ⟨fun h pre p post hsplit hint hlen hmod => ?_, fun h pre p post hsplit hshort => ?_⟩
  · exact h pre p post hsplit ⟨hint, hlen, hmod⟩
  · exact h pre p post hsplit hshort.1 hshort.2.1 hshort.2.2

/-- A port number behind an enable flag. -/
def shortAfterBoolean : ObjInfo where
  params := [⟨"Enable", .boolean, 1⟩, ⟨"Port", .uint16, 2⟩]
  size := 4
  namesNodup := by decide
  wellTyped := by
    intro p hp
    rcases List.mem_cons.mp hp with rfl | hp
    · exact .inl ⟨rfl, rfl⟩
    · rw [List.mem_singleton] at hp
      subst hp
      exact .inr (.inl ⟨rfl, .inr (.inl rfl)⟩)
  structFits := by decide

/-- The port is written and read at offset 1, the struct has it at offset 2. -/
theorem shortAfterBoolean_offsets :
    writtenOffsets true .start shortAfterBoolean.params = [0, 1] ∧
      readOffsets true .start shortAfterBoolean.params = [0, 1] ∧
      offsets 0 (shortAfterBoolean.params.map (·.member)) = [0, 2] ∧
      ¬ ∀ obj : ObjInfo,
        writtenOffsets true .start obj.params = offsets 0 (obj.params.map (·.member)) ∧
          readOffsets true .start obj.params = offsets 0 (obj.params.map (·.member)) := by
  refine ⟨by decide, by decide, by decide, fun h => ?_⟩
  exact absurd (h shortAfterBoolean).1 (by decide)

end ZcmdTool
end ZyxelRouter
