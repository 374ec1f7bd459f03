import ZyxelRouter.Lib.NandChip

/-!
# What the user of a NAND device knows

A device is seen as the blocks that can be read.  Its operations are told by their outcomes: a block
was erased, columns of a page were programmed, or an operation failed and left anything in the page
or the block it named.  From the outcomes alone the user knows some of the bytes.

Main results:

- Theorem {lit}`Known.Holds.learn`: what is learnt from one outcome is true.
- Theorem {lit}`NandTrace.holds`: so is what is known after a run of outcomes.
- Theorem {lit}`foldl_learn_of_not_touches`: outcomes elsewhere leave what is known of a page alone.
- Theorem {lit}`foldl_learn_programmed`: a page that is programmed once has the columns it was given.
-/

namespace ZyxelRouter
namespace Lib

/-- The blocks of a device that can be read, with their contents. -/
abbrev NandView := Nat → Option Block

/-- What one operation did to a device. -/
inductive NandOutcome where
  /-- The block was erased. -/
  | erased (b : Nat)
  /-- The given columns of the page were programmed. -/
  | programmed (b p : Nat) (columns : Nat → Option UInt8)
  /-- The page may hold anything. -/
  | lostPage (b p : Nat)
  /-- The block may hold anything, and may not be readable any more. -/
  | lostBlock (b : Nat)

namespace NandOutcome

/-- The block that an outcome is about. -/
def block : NandOutcome → Nat
  | erased b => b
  | programmed b _ _ => b
  | lostPage b _ => b
  | lostBlock b => b

/-- What becomes of the block that an outcome is about. -/
def Changes : NandOutcome → Option Block → Option Block → Prop
  | erased _, _, new => new = some blankBlock
  | programmed _ p columns, old, new => ∃ content content', old = some content ∧
      new = some content' ∧ (∀ q, q ≠ p → content' q = content q) ∧
        ∀ c byte, columns c = some byte → content' p c = byte
  | lostPage _ p, old, new => ∀ content, old = some content → ∃ content', new = some content' ∧
      ∀ q, q ≠ p → content' q = content q
  | lostBlock _, _, _ => True

/-- The device before and after an operation with this outcome. -/
structure Step (o : NandOutcome) (view view' : NandView) : Prop where
  other : ∀ b, b ≠ o.block → view' b = view b
  changes : o.Changes (view o.block) (view' o.block)

variable {view view' : NandView} {b p : Nat} {columns : Nat → Option UInt8}

/-- Nothing is said of the block. -/
theorem Step.lostBlock {o : NandOutcome} (h : o.Step view view') (hb : o.block = b) :
    (NandOutcome.lostBlock b).Step view view' :=
  ⟨hb ▸ h.other, trivial⟩

/-- Nothing is said of the page. -/
theorem Step.lostPage (h : (programmed b p columns).Step view view') :
    (NandOutcome.lostPage b p).Step view view' := by
  obtain ⟨content, content', hold, hnew, hpages, -⟩ := h.changes
  refine ⟨h.other, fun old hold' => ⟨content', hnew, ?_⟩⟩
  obtain rfl : content = old := Option.some.inj (hold.symm.trans hold')
  exact hpages

theorem step_lostBlock_refl (b : Nat) (view : NandView) : (NandOutcome.lostBlock b).Step view view :=
  ⟨fun _ _ => rfl, trivial⟩

theorem step_lostPage_refl (b p : Nat) (view : NandView) :
    (NandOutcome.lostPage b p).Step view view :=
  ⟨fun _ _ => rfl, fun content hold => ⟨content, hold, fun _ _ => rfl⟩⟩

/-- An outcome is about this page. -/
def Touches (b p : Nat) : NandOutcome → Prop
  | erased b' => b' = b
  | programmed b' p' _ => b' = b ∧ p' = p
  | lostPage b' p' => b' = b ∧ p' = p
  | lostBlock b' => b' = b

end NandOutcome

/-! ## Runs -/

/-- A device passes through operations with these outcomes. -/
def NandTrace : List NandOutcome → NandView → NandView → Prop
  | [], view, view' => view' = view
  | o :: os, view, view' => ∃ view₁, o.Step view view₁ ∧ NandTrace os view₁ view'

section Traces

variable {view view' : NandView} {os : List NandOutcome}

/-- A run in which nothing has to happen. -/
theorem nandTrace_refl {os : List NandOutcome} (h : ∀ o ∈ os, o.Step view view) :
    NandTrace os view view := by
  induction os with
  | nil => rfl
  | cons o os ih =>
      rw [List.forall_mem_cons] at h
      exact ⟨view, h.1, ih h.2⟩

end Traces

/-! ## Knowledge -/

/-- The bytes that are known, by block, page and column. -/
abbrev Known := Nat → Nat → Nat → Option UInt8

namespace Known

/-- What is known of one block after an operation with this outcome. -/
def learnBlock (known : Nat → Nat → Option UInt8) : NandOutcome → Nat → Nat → Option UInt8
  | .erased _ => fun _ _ => some 0xff
  | .programmed _ p columns => Function.update known p columns
  | .lostPage _ p => Function.update known p (fun _ => none)
  | .lostBlock _ => fun _ _ => none

/-- What is known after an operation with this outcome. -/
def learn (k : Known) (o : NandOutcome) : Known :=
  Function.update k o.block (learnBlock (k o.block) o)

/-- What is known is so. -/
def Holds (k : Known) (view : NandView) : Prop :=
  ∀ b p c byte, k b p c = some byte → ∃ content, view b = some content ∧ content p c = byte

/-- Nothing is known. -/
def nothing : Known :=
  fun _ _ _ => none

theorem holds_nothing (view : NandView) : nothing.Holds view := by
  intro b p c byte h
  cases h

variable {k : Known} {view view' : NandView} {o : NandOutcome}

/-- The page that an outcome is about changes, and others of its block stay. -/
theorem learnBlock_page {known : Nat → Nat → Option UInt8} {content content' : Block} {p : Nat}
    {columns : Nat → Option UInt8}
    (hknown : ∀ q c byte, known q c = some byte → content q c = byte)
    (hpages : ∀ q, q ≠ p → content' q = content q)
    (hcolumns : ∀ c byte, columns c = some byte → content' p c = byte) {q c : Nat} {byte : UInt8}
    (h : Function.update known p columns q c = some byte) : content' q c = byte := by
  by_cases hq : q = p
  · subst hq
    rw [Function.update_self] at h
    exact hcolumns c byte h
  · rw [Function.update_of_ne hq] at h
    rw [hpages q hq]
    exact hknown q c byte h

/-- What is learnt from an outcome is true. -/
theorem Holds.learn (hk : k.Holds view) (h : o.Step view view') : (k.learn o).Holds view' := by
  intro b p c byte hbyte
  by_cases hb : b = o.block
  · subst hb
    rw [Known.learn, Function.update_self] at hbyte
    have hchanges := h.changes
    have hold : ∀ content, view o.block = some content →
        ∀ q c byte, k o.block q c = some byte → content q c = byte := by
      intro content hview q c byte hq
      obtain ⟨content', hview', heq⟩ := hk _ q c byte hq
      rw [hview] at hview'
      obtain rfl := Option.some.inj hview'
      exact heq
    cases o with
    | erased b =>
        refine ⟨blankBlock, hchanges, ?_⟩
        simp only [learnBlock, Option.some.injEq] at hbyte
        exact hbyte
    | programmed b q columns =>
        obtain ⟨content, content', hview, hview', hpages, hcolumns⟩ := hchanges
        exact ⟨content', hview', learnBlock_page (hold content hview) hpages hcolumns hbyte⟩
    | lostPage b q =>
        -- Something is known of another page, so the block could be read before.
        by_cases hpq : p = q
        · subst hpq
          simp only [learnBlock, Function.update_self] at hbyte
          cases hbyte
        · simp only [learnBlock, Function.update_of_ne hpq] at hbyte
          obtain ⟨content, hview, heq⟩ := hk _ p c byte hbyte
          obtain ⟨content', hview', hpages⟩ := hchanges content hview
          exact ⟨content', hview', by rw [hpages p hpq]; exact heq⟩
    | lostBlock b =>
        simp only [learnBlock] at hbyte
        cases hbyte
  · rw [Known.learn, Function.update_of_ne hb] at hbyte
    rw [h.other b hb]
    exact hk b p c byte hbyte

end Known

/-- What is known after a run is true. -/
theorem NandTrace.holds {os : List NandOutcome} {view view' : NandView} {k : Known}
    (h : NandTrace os view view') (hk : k.Holds view) : (os.foldl Known.learn k).Holds view' := by
  induction os generalizing view k with
  | nil =>
      obtain rfl : view' = view := h
      exact hk
  | cons o os ih =>
      obtain ⟨view₁, hstep, hrest⟩ := h
      exact ih hrest (hk.learn hstep)

/-- An outcome elsewhere. -/
theorem learn_of_not_touches {o : NandOutcome} {k : Known} {b p : Nat} (h : ¬ o.Touches b p) :
    k.learn o b p = k b p := by
  by_cases hb : b = o.block
  · subst hb
    rw [Known.learn, Function.update_self]
    cases o with
    | erased b => exact absurd rfl h
    | programmed b q columns => exact Function.update_of_ne (fun hpq => h ⟨rfl, hpq.symm⟩) _ _
    | lostPage b q => exact Function.update_of_ne (fun hpq => h ⟨rfl, hpq.symm⟩) _ _
    | lostBlock b => exact absurd rfl h
  · rw [Known.learn, Function.update_of_ne hb]

/-- Outcomes elsewhere leave what is known of a page alone. -/
theorem foldl_learn_of_not_touches {os : List NandOutcome} {k : Known} {b p : Nat}
    (h : ∀ o ∈ os, ¬ o.Touches b p) : os.foldl Known.learn k b p = k b p := by
  induction os generalizing k with
  | nil => rfl
  | cons o os ih =>
      rw [List.forall_mem_cons] at h
      rw [List.foldl_cons, ih h.2, learn_of_not_touches h.1]

/-- If one outcome alone is about a page, and programs it, the page has these columns. -/
theorem foldl_learn_programmed {os : List NandOutcome} {k : Known} {b p : Nat}
    {columns : Nat → Option UInt8}
    (hone : ∀ o ∈ os, o.Touches b p → o = .programmed b p columns)
    (h : NandOutcome.programmed b p columns ∈ os ∨ k b p = columns) :
    os.foldl Known.learn k b p = columns := by
  induction os generalizing k with
  | nil => exact h.resolve_left List.not_mem_nil
  | cons o os ih =>
      rw [List.forall_mem_cons] at hone
      refine ih hone.2 ?_
      by_cases ho : o = .programmed b p columns
      · right
        rw [ho]
        simp only [Known.learn, NandOutcome.block, Function.update_self, Known.learnBlock]
      · rcases h with hmem | hk
        · exact .inl ((List.mem_cons.mp hmem).resolve_left (fun heq => ho heq.symm))
        · right
          rw [learn_of_not_touches (fun ht => ho (hone.1 ht))]
          exact hk

end Lib
end ZyxelRouter
