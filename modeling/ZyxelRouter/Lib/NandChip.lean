import Mathlib.Data.Set.Basic
import Mathlib.Logic.Function.Basic

/-!
# A NAND chip whose operations may fail

Flash memory of blocks, pages and columns, with a bad-block mark for each block.  Every
operation consults the chip's behaviour at the current time: it may fail, and whether or
not it reports a failure it may leave arbitrary contents in the block it addresses.
Other blocks never change.

Main results:

- Theorems {lit}`Touches.refl`, {lit}`Touches.trans`, {lit}`Touches.mono`: runs of
  operations that stay inside a set of blocks.
- Theorems {lit}`touches_writePage`, {lit}`touches_eraseBlock`,
  {lit}`touches_markBadBlock`: an operation touches its block only.
-/

namespace ZyxelRouter
namespace Lib

/-- One page: the byte at every column, spare area included. -/
abbrev Page := Nat → UInt8

/-- The pages of a block. -/
abbrev Block := Nat → Page

/-- An erased block. -/
def blankBlock : Block :=
  fun _ _ => 0xff

/-- What persists without power. -/
structure Flash where
  cells : Nat → Block
  marks : Nat → Bool

/-- What an operation does to the block it addresses: its job, nothing, or any other
change, which may depend on the addressed page and the contents. -/
inductive Effect where
  | done
  | nothing
  | garbled (change : Nat → Block → Block)

/-- The return value and the effect of one operation. -/
structure Fate where
  ret : Int
  effect : Effect

/-- The operations of a chip. -/
inductive OpKind where
  | read
  | write
  | erase
  | check
  | mark
deriving DecidableEq, Repr

/-- The behaviour of a chip: the fate of an operation at every time. -/
abbrev Fates := Nat → OpKind → Fate

/-- Programming a page changes no other page, not even when it fails. -/
def Fates.PageLocal (fates : Fates) : Prop :=
  ∀ t change, (fates t .write).effect = .garbled change →
    ∀ p old q, q ≠ p → change p old q = old q

/-- A powered chip: its memory, the operations so far, and the memory after each
operation that could change it, latest first. -/
structure Chip where
  flash : Flash
  clock : Nat
  history : List Flash

namespace Chip

/-- Put an operation's outcome on record. -/
def advance (c : Chip) (flash : Flash) : Chip where
  flash := flash
  clock := c.clock + 1
  history := flash :: c.history

/-- Replace one block. -/
def setBlock (flash : Flash) (b : Nat) (content : Block) : Flash :=
  { flash with cells := Function.update flash.cells b content }

/-- Read a page: the result and the columns.  Only a failed read may return other bytes
than the stored ones. -/
def readPage (fates : Fates) (b p : Nat) (c : Chip) : (Int × Page) × Chip :=
  let fate := fates c.clock .read
  let columns :=
    match fate.effect with
    | .garbled change =>
        if 0 ≤ fate.ret then c.flash.cells b p else change p (c.flash.cells b) p
    | _ => c.flash.cells b p
  ((fate.ret, columns), { c with clock := c.clock + 1 })

/-- Program the given columns of a page. -/
def writePage (fates : Fates) (b p : Nat) (columns : Nat → Option UInt8) (c : Chip) :
    Int × Chip :=
  let fate := fates c.clock .write
  let old := c.flash.cells b
  let content :=
    match fate.effect with
    | .done => Function.update old p (fun col => (columns col).getD (old p col))
    | .nothing => old
    | .garbled change => change p old
  (fate.ret, c.advance (setBlock c.flash b content))

/-- Erase a block. -/
def eraseBlock (fates : Fates) (b : Nat) (c : Chip) : Int × Chip :=
  let fate := fates c.clock .erase
  let content :=
    match fate.effect with
    | .done => blankBlock
    | .nothing => c.flash.cells b
    | .garbled change => change 0 (c.flash.cells b)
  (fate.ret, c.advance (setBlock c.flash b content))

/-- Ask whether a block is marked bad.  A failing check reports a bad block. -/
def isBadBlock (fates : Fates) (b : Nat) (c : Chip) : Bool × Chip :=
  let fate := fates c.clock .check
  (if fate.ret = 0 then c.flash.marks b else true, { c with clock := c.clock + 1 })

/-- Mark a block bad, which may destroy its contents. -/
def markBadBlock (fates : Fates) (b : Nat) (c : Chip) : Int × Chip :=
  let fate := fates c.clock .mark
  let flash :=
    match fate.effect with
    | .done => { c.flash with marks := Function.update c.flash.marks b true }
    | .nothing => c.flash
    | .garbled change =>
        { setBlock c.flash b (change 0 (c.flash.cells b)) with
          marks := Function.update c.flash.marks b true }
  (fate.ret, c.advance flash)

/-! ## Frames -/

/-- {lit}`f'` agrees with {lit}`f` outside {lit}`S` and keeps the marks of {lit}`f`. -/
structure Follows (S : Set Nat) (f f' : Flash) : Prop where
  cells : ∀ b, b ∉ S → f'.cells b = f.cells b
  marks : ∀ b, b ∉ S → f'.marks b = f.marks b
  marked : ∀ b, f.marks b = true → f'.marks b = true

/-- All operations between {lit}`c` and {lit}`c'` addressed blocks of {lit}`S`. -/
structure Touches (S : Set Nat) (c c' : Chip) : Prop where
  flash : Follows S c.flash c'.flash
  history : ∃ hs, c'.history = hs ++ c.history ∧ ∀ f ∈ hs, Follows S c.flash f

variable {S T : Set Nat} {f f' f'' : Flash} {c c' c'' : Chip} {b : Nat}

theorem Follows.refl (S : Set Nat) (f : Flash) : Follows S f f :=
  ⟨fun _ _ => rfl, fun _ _ => rfl, fun _ h => h⟩

theorem Follows.trans (h : Follows S f f') (h' : Follows S f' f'') : Follows S f f'' where
  cells := fun b hb => (h'.cells b hb).trans (h.cells b hb)
  marks := fun b hb => (h'.marks b hb).trans (h.marks b hb)
  marked := fun b hb => h'.marked b (h.marked b hb)

theorem Follows.mono (h : Follows S f f') (hST : S ⊆ T) : Follows T f f' where
  cells := fun b hb => h.cells b (fun hS => hb (hST hS))
  marks := fun b hb => h.marks b (fun hS => hb (hST hS))
  marked := h.marked

theorem Touches.refl (S : Set Nat) (c : Chip) : Touches S c c :=
  ⟨Follows.refl S _, [], rfl, by simp⟩

theorem Touches.trans (h : Touches S c c') (h' : Touches S c' c'') : Touches S c c'' := by
  obtain ⟨hs, hhist, hall⟩ := h.history
  obtain ⟨hs', hhist', hall'⟩ := h'.history
  refine ⟨h.flash.trans h'.flash, hs' ++ hs, ?_, ?_⟩
  · rw [hhist', hhist, List.append_assoc]
  · intro f hf
    rcases List.mem_append.mp hf with hnew | hold
    · exact h.flash.trans (hall' f hnew)
    · exact hall f hold

theorem Touches.mono (h : Touches S c c') (hST : S ⊆ T) : Touches T c c' := by
  obtain ⟨hs, hhist, hall⟩ := h.history
  exact ⟨h.flash.mono hST, hs, hhist, fun f hf => (hall f hf).mono hST⟩

/-- A record of one operation whose outcome follows the memory before it. -/
theorem touches_advance (h : Follows S c.flash f) : Touches S c (c.advance f) := by
  refine ⟨h, [f], rfl, ?_⟩
  intro f' hf'
  rw [List.mem_singleton.mp hf']
  exact h

/-- Replacing a block of {lit}`S`. -/
theorem follows_setBlock (hb : b ∈ S) (content : Block) :
    Follows S f (setBlock f b content) := by
  refine ⟨fun b' hb' => ?_, fun _ _ => rfl, fun _ h => h⟩
  have hne : b' ≠ b := by
    rintro rfl
    exact hb' hb
  exact Function.update_of_ne hne _ _

theorem touches_writePage (fates : Fates) (p : Nat) (columns : Nat → Option UInt8) (c : Chip)
    (hb : b ∈ S) : Touches S c (writePage fates b p columns c).2 :=
  touches_advance (follows_setBlock hb _)

theorem touches_eraseBlock (fates : Fates) (c : Chip) (hb : b ∈ S) :
    Touches S c (eraseBlock fates b c).2 :=
  touches_advance (follows_setBlock hb _)

/-- Checking touches nothing. -/
theorem touches_isBadBlock (S : Set Nat) (fates : Fates) (b : Nat) (c : Chip) :
    Touches S c (isBadBlock fates b c).2 :=
  ⟨Follows.refl S _, [], rfl, by simp⟩

/-- Setting the mark of a block of {lit}`S`. -/
theorem follows_mark (hb : b ∈ S) (h : Follows S f f') :
    Follows S f { f' with marks := Function.update f'.marks b true } := by
  refine ⟨h.cells, fun b' hb' => ?_, fun b' hb' => ?_⟩
  · have hne : b' ≠ b := by
      rintro rfl
      exact hb' hb
    exact (Function.update_of_ne hne _ _).trans (h.marks b' hb')
  · by_cases hb'' : b' = b
    · subst hb''
      exact Function.update_self _ _ _
    · exact (Function.update_of_ne hb'' _ _).trans (h.marked b' hb')

theorem touches_markBadBlock (fates : Fates) (c : Chip) (hb : b ∈ S) :
    Touches S c (markBadBlock fates b c).2 := by
  refine touches_advance ?_
  split
  · exact follows_mark hb (Follows.refl S _)
  · exact Follows.refl S _
  · exact follows_mark hb (follows_setBlock hb _)

end Chip

end Lib
end ZyxelRouter
