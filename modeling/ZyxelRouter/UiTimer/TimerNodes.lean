import Mathlib.Data.List.InsertIdx
import ZyxelRouter.Lib.Bytes
import ZyxelRouter.Lib.LinkedNodes
import ZyxelRouter.Lib.StepRuns
import ZyxelRouter.UiTimer.DelLoop

/-!
# The nodes of a timer list

The functions of {lit}`timer_list.c` on the nodes that they link, with the iterator, which keeps the address
of a link.  The pointers to the list and to the iterator are not null.

Main results:

- Theorem {lit}`timerListAdd_eq`: the four cases of an insertion are one.
- Theorem {lit}`call_represents`: each call acts as the corresponding one on a sequence.
- Theorems {lit}`getFirst_represents`, {lit}`getNext_represents` and {lit}`iteratorRemove_represents`: the
  iterator of a deletion is that of the nodes.
- Theorem {lit}`timerList_refines`: every run acts as that on the sequence, and an iteration visits each
  element once.
-/

namespace ZyxelRouter
namespace UiTimer
namespace Nodes

open Lib

/-! ## The functions -/

/-- {lit}`timer_list_iterator_t`: {lit}`actual` and {lit}`prev` may be null. -/
structure Iterator where
  actual : Option Nat
  prev : Option Link
  pos : Int
deriving DecidableEq, Repr

/-- A list with its nodes and an iterator: {lit}`li->node` is the root of {lit}`mem`.  Elements are pointers,
of which {lit}`none` is the null pointer. -/
structure ListMemory (E : Type) where
  mem : LinkedMemory (Option E)
  nbElt : Int
  iterator : Iterator

variable {E : Type}

/-- {lit}`timer_list_init`. -/
def timerListInit (w : ListMemory E) : Int × ListMemory E :=
  (0, { w with mem := { w.mem with root := none }, nbElt := 0 })

/-- {lit}`li->nb_elt++` and the return of it; {lit}`none` if it leaves the range of an {lit}`int`. -/
def countUp (w : ListMemory E) : Option (Int × ListMemory E) :=
  if intMax < w.nbElt + 1 then none
  else some (w.nbElt + 1, { w with nbElt := w.nbElt + 1 })

/-- {lit}`timer_list_add`.  The node is allocated at an address that the allocator chooses, or
{lit}`timer_malloc` returns a null pointer. -/
def timerListAdd (malloc : Option Nat) (el : Option E) (pos : Int) (w : ListMemory E) :
    Option (Int × ListMemory E) :=
  if w.nbElt = 0 then
    match malloc with
    | none => some (-1, { w with mem := { w.mem with root := none } })
    | some choice =>
        let node := w.mem.heap.address choice
        let heap := w.mem.heap.put node { next := none, value := el }
        countUp { w with mem := { heap := heap, root := some node } }
  else
    let pos := if pos = -1 ∨ pos ≥ w.nbElt then w.nbElt else pos
    if pos = 0 then
      match malloc with
      | none => some (-1, w)
      | some choice =>
          let node := w.mem.heap.address choice
          let heap := w.mem.heap.put node { next := w.mem.root, value := el }
          countUp { w with mem := { heap := heap, root := some node } }
    else do
      let ntmp ← (← w.mem.heap.advance (pos - 1).toNat w.mem.root)
      if pos = w.nbElt then
        match malloc with
        | none => do
            let mem ← w.mem.writeLink (.next ntmp) none
            some (-1, { w with mem := mem })
        | some choice => do
            let node := w.mem.heap.address choice
            let heap := w.mem.heap.put node { next := none, value := el }
            let mem ← LinkedMemory.writeLink { w.mem with heap := heap } (.next ntmp) (some node)
            countUp { w with mem := mem }
      else do
        let nextnode ← w.mem.readLink (.next ntmp)
        match malloc with
        | none => do
            let mem ← w.mem.writeLink (.next ntmp) nextnode
            some (-1, { w with mem := mem })
        | some choice => do
            let node := w.mem.heap.address choice
            let heap := w.mem.heap.put node { next := nextnode, value := el }
            let mem ← LinkedMemory.writeLink { w.mem with heap := heap } (.next ntmp) (some node)
            countUp { w with mem := mem }

/-- {lit}`timer_list_get`. -/
def timerListGet (pos : Int) (w : ListMemory E) : Option (Option E) :=
  if pos < 0 ∨ pos ≥ w.nbElt then some none
  else do
    let ntmp ← (← w.mem.heap.advance pos.toNat w.mem.root)
    let node ← w.mem.heap.cell ntmp
    some node.value

/-- {lit}`timer_list_remove`. -/
def timerListRemove (pos : Int) (w : ListMemory E) : Option (Int × ListMemory E) :=
  if pos < 0 ∨ pos ≥ w.nbElt then some (-1, w)
  else if pos = 0 then do
    let ntmp ← w.mem.root
    let node ← w.mem.heap.cell ntmp
    let heap ← w.mem.heap.free ntmp
    some (w.nbElt - 1, { w with mem := { heap := heap, root := node.next }, nbElt := w.nbElt - 1 })
  else do
    let ntmp ← (← w.mem.heap.advance (pos - 1).toNat w.mem.root)
    let remnode ← (← w.mem.readLink (.next ntmp))
    let node ← w.mem.heap.cell remnode
    let mem ← w.mem.writeLink (.next ntmp) node.next
    let heap ← mem.heap.free remnode
    some (w.nbElt - 1, { w with mem := { mem with heap := heap }, nbElt := w.nbElt - 1 })

/-- {lit}`timer_list_iterator_has_elem`. -/
def iteratorHasElem (w : ListMemory E) : Bool :=
  w.iterator.actual.isSome && w.iterator.pos < w.nbElt

/-- {lit}`timer_list_get_first`. -/
def timerListGetFirst (w : ListMemory E) : Option (Option E × ListMemory E) :=
  if 0 ≥ w.nbElt then some (none, { w with iterator := { w.iterator with actual := none } })
  else do
    let node ← w.mem.heap.cell (← w.mem.root)
    some (node.value,
      { w with iterator := { actual := w.mem.root, prev := some .root, pos := 0 } })

/-- {lit}`timer_list_get_next`. -/
def timerListGetNext (w : ListMemory E) : Option (Option E × ListMemory E) := do
  let actual ← w.iterator.actual
  let node ← w.mem.heap.cell actual
  let w := { w with iterator :=
    { actual := node.next, prev := some (.next actual), pos := w.iterator.pos + 1 } }
  if iteratorHasElem w then do
    let node ← w.mem.heap.cell (← w.iterator.actual)
    some (node.value, w)
  else some (none, { w with iterator := { w.iterator with actual := none } })

/-- The end of {lit}`timer_list_iterator_remove`: the element at the iterator. -/
def iteratorElement (w : ListMemory E) : Option (Option E × ListMemory E) :=
  if iteratorHasElem w then do
    let node ← w.mem.heap.cell (← w.iterator.actual)
    some (node.value, w)
  else some (none, w)

/-- {lit}`timer_list_iterator_remove`. -/
def timerListIteratorRemove (w : ListMemory E) : Option (Option E × ListMemory E) :=
  if iteratorHasElem w then do
    let actual ← w.iterator.actual
    let prev ← w.iterator.prev
    let node ← w.mem.heap.cell actual
    let mem ← w.mem.writeLink prev node.next
    let heap ← mem.heap.free actual
    let mem := { mem with heap := heap }
    let actual ← mem.readLink prev
    iteratorElement
      { mem := mem, nbElt := w.nbElt - 1, iterator := { w.iterator with actual := actual } }
  else iteratorElement w

/-! ## Calls -/

/-- The calls of the functions.  An addition has the address that the allocator chooses, if it succeeds. -/
inductive Call (E : Type) where
  | init
  | add (malloc : Option Nat) (el : Option E) (pos : Int)
  | remove (pos : Int)
  | get (pos : Int)
  | getFirst
  | getNext
  | iteratorRemove
deriving DecidableEq, Repr

/-- What a caller sees: a number, an element, or for the iterator also {lit}`timer_list_iterator_has_elem`. -/
inductive Result (E : Type) where
  | number (n : Int)
  | element (e : Option E)
  | visit (hasElem : Bool) (e : Option E)
deriving DecidableEq, Repr

/-- What a call of the iterator has returned. -/
def visitResult (returned : Option E × ListMemory E) : Result E × ListMemory E :=
  (.visit (iteratorHasElem returned.2) returned.1, returned.2)

/-- A call. -/
def Call.apply (w : ListMemory E) : Call E → Option (Result E × ListMemory E)
  | .init => some (.number (timerListInit w).1, (timerListInit w).2)
  | .add malloc el pos =>
      (timerListAdd malloc el pos w).map (fun returned => (.number returned.1, returned.2))
  | .remove pos => (timerListRemove pos w).map (fun returned => (.number returned.1, returned.2))
  | .get pos => (timerListGet pos w).map (fun e => (.element e, w))
  | .getFirst => (timerListGetFirst w).map visitResult
  | .getNext => (timerListGetNext w).map visitResult
  | .iteratorRemove => (timerListIteratorRemove w).map visitResult

/-- Calls one after the other, and what they return. -/
def runCalls : ListMemory E → List (Call E) → Option (List (Result E) × ListMemory E)
  | w, [] => some ([], w)
  | w, call :: calls =>
      match call.apply w with
      | none => none
      | some (result, w) => (runCalls w calls).map (fun rest => (result :: rest.1, rest.2))

/-! ## Sequences -/

/-- A sequence, and where an iteration stands that no other change has overlapped. -/
structure Sequence (E : Type) where
  elements : List (Option E)
  cursor : Option Nat
deriving DecidableEq, Repr

/-- The empty sequence. -/
def Sequence.empty : Sequence E where
  elements := []
  cursor := none

/-- The position of an insertion. -/
def insertPos (length : Nat) (pos : Int) : Nat :=
  if pos = -1 then length else min pos.toNat length

/-- The element at a position, or a null pointer. -/
def elementAt (elements : List (Option E)) (pos : Int) : Option E :=
  if pos < 0 then none else elements[pos.toNat]?.join

/-- An iteration stands at a position. -/
def Sequence.visit (s : Sequence E) (k : Nat) : Result E × Sequence E :=
  (.visit (decide (k < s.elements.length)) s.elements[k]?.join, { s with cursor := some k })

/-- What a call does to a sequence. -/
def Sequence.call (s : Sequence E) : Call E → Result E × Sequence E
  | .init => (.number 0, Sequence.empty)
  | .add none _ _ => (.number (-1), s)
  | .add (some _) el pos =>
      (.number (s.elements.length + 1),
        { elements := s.elements.insertIdx (insertPos s.elements.length pos) el, cursor := none })
  | .remove pos =>
      if pos < 0 ∨ pos ≥ s.elements.length then (.number (-1), s)
      else (.number (s.elements.length - 1),
        { elements := s.elements.eraseIdx pos.toNat, cursor := none })
  | .get pos => (.element (elementAt s.elements pos), s)
  | .getFirst => s.visit 0
  | .getNext => s.visit (s.cursor.getD 0 + 1)
  | .iteratorRemove =>
      Sequence.visit { s with elements := s.elements.eraseIdx (s.cursor.getD 0) } (s.cursor.getD 0)

/-- A position is at least -1, and an iterator is used in its iteration, {lit}`timer_list_get_next` only at an
element. -/
def Sequence.Orderly (s : Sequence E) : Call E → Prop
  | .add _ _ pos => -1 ≤ pos
  | .getNext => ∃ k, s.cursor = some k ∧ k < s.elements.length
  | .iteratorRemove => s.cursor.isSome = true
  | _ => True

/-- The number of elements stays an {lit}`int`. -/
def Sequence.Fits (s : Sequence E) : Call E → Prop
  | .add (some _) _ _ => s.elements.length < intMax
  | _ => True

/-- Calls one after the other on a sequence. -/
def Sequence.run : Sequence E → List (Call E) → List (Result E) × Sequence E
  | s, [] => ([], s)
  | s, call :: calls =>
      let (result, s) := s.call call
      let (results, s) := s.run calls
      (result :: results, s)

/-! ## What the nodes stand for -/

/-- The iterator stands at the position {lit}`k`. -/
structure StandsAt (it : Iterator) (nodes : List (Nat × Option E)) (k : Nat) : Prop where
  actual : it.actual = nodes[k]?.map Prod.fst
  link : k < nodes.length → it.pos = k ∧ it.prev = some (linkBehind (nodes.take k))

/-- The linked nodes have the elements of a sequence, {lit}`nb_elt` is their number, and the iterator stands where
the iteration does. -/
structure Holds (w : ListMemory E) (nodes : List (Nat × Option E)) (s : Sequence E) : Prop where
  chain : Chain w.mem nodes
  count : w.nbElt = nodes.length
  elements : s.elements = nodes.map Prod.snd
  cursor : ∀ k ∈ s.cursor, StandsAt w.iterator nodes k

/-- The list is represented by the nodes it links. -/
def Represents (w : ListMemory E) (s : Sequence E) : Prop :=
  ∃ nodes, Holds w nodes s

/-! ## Insertion -/

section Functions

variable {w : ListMemory E} {nodes : List (Nat × Option E)} {el : Option E} {pos : Int}

theorem insertIdx_eq {α : Type} {l : List α} {k : Nat} (hk : k ≤ l.length) (a : α) :
    l.insertIdx k a = l.take k ++ a :: l.drop k := by
  induction l generalizing k with
  | nil =>
      obtain rfl : k = 0 := Nat.le_zero.mp hk
      rfl
  | cons b l ih =>
      cases k with
      | zero => rfl
      | succ k =>
          rw [List.insertIdx_succ_cons, ih (Nat.le_of_succ_le_succ hk)]
          rfl

theorem insertPos_le (length : Nat) (pos : Int) : insertPos length pos ≤ length := by
  rw [insertPos]
  split
  · exact Nat.le_refl length
  · exact Nat.min_le_right _ _

/-- The position that {lit}`timer_list_add` goes on with. -/
theorem clampedPos {length : Nat} (hpos : -1 ≤ pos) :
    (if pos = -1 ∨ pos ≥ length then (length : Int) else pos) = insertPos length pos := by
  rw [insertPos]
  by_cases hend : pos = -1
  · rw [if_pos (.inl hend), if_pos hend]
  · rw [if_neg hend]
    by_cases hbig : pos ≥ length
    · rw [if_pos (.inr hbig), Nat.min_eq_right (by omega)]
    · rw [if_neg (by omega), Nat.min_eq_left (by omega)]
      omega

/-- The four cases of an insertion are one: the link behind the nodes in front of its position is written. -/
theorem timerListAdd_eq (hchain : Chain w.mem nodes) (hcount : w.nbElt = nodes.length)
    (hpos : -1 ≤ pos) (malloc : Option Nat) {k : Nat} (hk : insertPos nodes.length pos = k) :
    timerListAdd malloc el pos w =
      match malloc with
      | none =>
          (w.mem.writeLink (linkBehind (nodes.take k)) (nodes[k]?.map Prod.fst)).bind
            (fun mem => some (-1, { w with mem := mem }))
      | some choice =>
          (LinkedMemory.writeLink
            { w.mem with
              heap := w.mem.heap.put (w.mem.heap.address choice)
                { next := nodes[k]?.map Prod.fst, value := el } }
            (linkBehind (nodes.take k)) (some (w.mem.heap.address choice))).bind
              (fun mem => countUp { w with mem := mem }) := by
  have hle : k ≤ nodes.length := hk ▸ insertPos_le nodes.length pos
  have hclamp := @clampedPos pos nodes.length hpos
  have hlink := hchain.link_at k
  rw [hk] at hclamp
  unfold timerListAdd
  by_cases hempty : w.nbElt = 0
  · -- the first node
    obtain rfl : nodes = [] := List.eq_nil_of_length_eq_zero (by omega)
    obtain rfl : k = 0 := Nat.le_zero.mp hle
    rw [if_pos hempty]
    rfl
  · rw [if_neg hempty]
    simp only [hcount, hclamp]
    cases k with
    | zero =>
        have hroot : nodes[0]?.map Prod.fst = w.mem.root := (Option.some.inj hlink).symm
        rw [if_pos Int.natCast_zero, hroot]
        cases malloc with
        | none =>
            rw [← hcount]
            rfl
        | some choice => rfl
    | succ j =>
        have hprev : ((j + 1 : Nat) : Int) - 1 = j := by omega
        have hne : ¬ ((j + 1 : Nat) : Int) = 0 := by omega
        rw [linkBehind_take_succ hle] at hlink ⊢
        rw [if_neg hne, hprev, Int.toNat_natCast, (hchain.node_at hle).1]
        simp only [Option.bind_eq_bind, Option.bind_some]
        by_cases hend : ((j + 1 : Nat) : Int) = nodes.length
        · -- behind the last node
          have hnone : nodes[j + 1]? = none := List.getElem?_eq_none (by omega)
          rw [if_pos hend, hnone, Option.map_none]
        · rw [if_neg hend, hlink]
          cases malloc with
          | none => rfl
          | some choice => rfl

/-- An insertion links one node in, in front of the node at its position. -/
theorem timerListAdd_chain (hchain : Chain w.mem nodes) (hcount : w.nbElt = nodes.length)
    (hpos : -1 ≤ pos) (choice : Nat) :
    ∃ mem, timerListAdd (some choice) el pos w = countUp { w with mem := mem } ∧
      Chain mem (nodes.insertIdx (insertPos nodes.length pos) (w.mem.heap.address choice, el)) := by
  have hsplit := hchain
  rw [← List.take_append_drop (insertPos nodes.length pos) nodes] at hsplit
  obtain ⟨mem, hwrite, hnew⟩ :=
    hsplit.insert (w.mem.heap.cell_address choice) (hchain.link_at (insertPos nodes.length pos)) el
  refine ⟨mem, ?_, ?_⟩
  · rw [timerListAdd_eq hchain hcount hpos (some choice) rfl]
    simp only [hwrite, Option.bind_some]
  · rw [insertIdx_eq (insertPos_le nodes.length pos)]
    exact hnew

/-- Without memory the nodes stay as they are. -/
theorem timerListAdd_none (hchain : Chain w.mem nodes) (hcount : w.nbElt = nodes.length)
    (hpos : -1 ≤ pos) :
    ∃ mem, timerListAdd none el pos w = some (-1, { w with mem := mem }) ∧ Chain mem nodes := by
  have hsplit := hchain
  rw [← List.take_append_drop (insertPos nodes.length pos) nodes] at hsplit
  obtain ⟨mem, hwrite, hnew⟩ := hsplit.relink (hchain.link_at (insertPos nodes.length pos))
  refine ⟨mem, ?_, ?_⟩
  · rw [timerListAdd_eq hchain hcount hpos none rfl]
    simp only [hwrite, Option.bind_some]
  · rw [List.take_append_drop] at hnew
    exact hnew

/-! ## Removal and access -/

/-- A node is linked out at its position. -/
theorem timerListRemove_chain (hchain : Chain w.mem nodes) (hcount : w.nbElt = nodes.length)
    {k : Nat} (hk : k < nodes.length) :
    ∃ mem, timerListRemove k w = some ((nodes.length : Int) - 1,
        { w with mem := mem, nbElt := (nodes.length : Int) - 1 }) ∧
      Chain mem (nodes.eraseIdx k) := by
  have hsplit := hchain
  obtain ⟨⟨a, v⟩, hnode⟩ : ∃ node, nodes[k] = node := ⟨_, rfl⟩
  rw [← List.take_append_drop k nodes, List.drop_eq_getElem_cons hk, hnode] at hsplit
  rw [List.eraseIdx_eq_take_drop_succ]
  obtain ⟨next, mem, heap, hread, hcell, hwrite, hfree, hnew⟩ := hsplit.remove
  refine ⟨{ mem with heap := heap }, ?_, hnew⟩
  rw [timerListRemove]
  simp only [hcount]
  rw [if_neg (by omega)]
  cases k with
  | zero =>
      have hroot : w.mem.root = some a := Option.some.inj hread
      obtain rfl := Option.some.inj hwrite
      rw [if_pos Int.natCast_zero]
      simp only [Option.bind_eq_bind, hroot, Option.bind_some, hcell, hfree]
  | succ j =>
      have hprev : ((j + 1 : Nat) : Int) - 1 = j := by omega
      have hne : ¬ ((j + 1 : Nat) : Int) = 0 := by omega
      rw [linkBehind_take_succ (Nat.lt_of_succ_lt hk)] at hread hwrite
      rw [if_neg hne, hprev, Int.toNat_natCast, (hchain.node_at (Nat.lt_of_succ_lt hk)).1]
      simp only [Option.bind_eq_bind, Option.bind_some, hread, hcell, hwrite, hfree]

/-- The element at a position. -/
theorem timerListGet_eq (hchain : Chain w.mem nodes) (hcount : w.nbElt = nodes.length) (pos : Int) :
    timerListGet pos w = some (elementAt (nodes.map Prod.snd) pos) := by
  rw [timerListGet, elementAt, hcount]
  by_cases hneg : pos < 0
  · rw [if_pos (.inl hneg), if_pos hneg]
  · rw [if_neg hneg]
    by_cases hout : pos ≥ nodes.length
    · have hnone : nodes[pos.toNat]? = none := List.getElem?_eq_none (by omega)
      rw [if_pos (.inr hout), List.getElem?_map, hnone]
      rfl
    · have hk : pos.toNat < nodes.length := by omega
      obtain ⟨hwalk, hcell⟩ := hchain.node_at hk
      rw [if_neg (by omega), hwalk, List.getElem?_map, List.getElem?_eq_getElem hk]
      simp only [Option.bind_eq_bind, Option.bind_some, hcell]
      rfl

/-! ## Iteration -/

variable {k : Nat}

theorem iteratorHasElem_eq (h : StandsAt w.iterator nodes k) (hcount : w.nbElt = nodes.length) :
    iteratorHasElem w = decide (k < nodes.length) := by
  rw [iteratorHasElem, h.actual, hcount]
  by_cases hk : k < nodes.length
  · rw [List.getElem?_eq_getElem hk, (h.link hk).1]
    simp [hk]
  · rw [List.getElem?_eq_none (by omega)]
    simp [hk]

theorem iteratorElement_eq (hchain : Chain w.mem nodes) (hcount : w.nbElt = nodes.length)
    (h : StandsAt w.iterator nodes k) :
    iteratorElement w = some ((nodes.map Prod.snd)[k]?.join, w) := by
  rw [iteratorElement, iteratorHasElem_eq h hcount, List.getElem?_map]
  by_cases hk : k < nodes.length
  · rw [if_pos (decide_eq_true hk), h.actual, List.getElem?_eq_getElem hk]
    simp only [Option.map_some, Option.bind_eq_bind, Option.bind_some, (hchain.node_at hk).2]
    rfl
  · rw [if_neg (by simpa using hk), List.getElem?_eq_none (by omega)]
    rfl

/-- An iteration begins at the first element. -/
theorem timerListGetFirst_eq (hchain : Chain w.mem nodes) (hcount : w.nbElt = nodes.length) :
    ∃ it, timerListGetFirst w =
        some ((nodes.map Prod.snd)[0]?.join, { w with iterator := it }) ∧ StandsAt it nodes 0 := by
  have hroot : w.mem.root = nodes[0]?.map Prod.fst := Option.some.inj (hchain.link_at 0)
  rw [timerListGetFirst, List.getElem?_map]
  by_cases hk : 0 < nodes.length
  · have hcell := (hchain.node_at hk).2
    rw [List.getElem?_eq_getElem hk] at hroot ⊢
    rw [if_neg (by omega), hroot]
    simp only [Option.map_some, Option.bind_eq_bind, Option.bind_some, hcell]
    refine ⟨_, rfl, ?_, fun _ => ⟨rfl, rfl⟩⟩
    rw [List.getElem?_eq_getElem hk, Option.map_some]
  · have hnone : nodes[0]? = none := List.getElem?_eq_none (by omega)
    rw [if_pos (by omega), hnone]
    refine ⟨_, rfl, ?_, fun hpos => absurd hpos hk⟩
    rw [hnone, Option.map_none]

/-- From an element an iteration goes on to the next one. -/
theorem timerListGetNext_eq (hchain : Chain w.mem nodes) (hcount : w.nbElt = nodes.length)
    (h : StandsAt w.iterator nodes k) (hk : k < nodes.length) :
    ∃ it, timerListGetNext w =
        some ((nodes.map Prod.snd)[k + 1]?.join, { w with iterator := it }) ∧
      StandsAt it nodes (k + 1) := by
  have hactual := h.actual
  rw [List.getElem?_eq_getElem hk, Option.map_some] at hactual
  obtain ⟨hpos, -⟩ := h.link hk
  have hstands : StandsAt
      { actual := nodes[k + 1]?.map Prod.fst, prev := some (.next nodes[k].1), pos := k + 1 }
      nodes (k + 1) := by
    refine ⟨rfl, fun _ => ⟨by rw [Int.natCast_add, Int.natCast_one], ?_⟩⟩
    rw [linkBehind_take_succ hk]
  have helem := @iteratorHasElem_eq _ { w with iterator := _ } nodes (k + 1) hstands hcount
  rw [timerListGetNext, hactual, List.getElem?_map]
  simp only [Option.bind_eq_bind, Option.bind_some, (hchain.node_at hk).2, hpos, helem]
  by_cases hnext : k + 1 < nodes.length
  · refine ⟨_, ?_, hstands⟩
    rw [if_pos (decide_eq_true hnext), List.getElem?_eq_getElem hnext]
    simp only [Option.map_some, Option.bind_some, (hchain.node_at hnext).2]
    rfl
  · have hnone : nodes[k + 1]? = none := List.getElem?_eq_none (by omega)
    rw [if_neg (by simpa using hnext), hnone]
    refine ⟨_, rfl, ?_, fun hpos => absurd hpos hnext⟩
    rw [hnone, Option.map_none]

/-- The element at the iterator is removed, and the iteration goes on at its position. -/
theorem timerListIteratorRemove_eq (hchain : Chain w.mem nodes) (hcount : w.nbElt = nodes.length)
    (h : StandsAt w.iterator nodes k) :
    ∃ w', timerListIteratorRemove w =
        some (((nodes.eraseIdx k).map Prod.snd)[k]?.join, w') ∧
      Chain w'.mem (nodes.eraseIdx k) ∧ w'.nbElt = (nodes.eraseIdx k).length ∧
      StandsAt w'.iterator (nodes.eraseIdx k) k := by
  rw [timerListIteratorRemove, iteratorHasElem_eq h hcount]
  by_cases hk : k < nodes.length
  · have hactual := h.actual
    rw [List.getElem?_eq_getElem hk, Option.map_some] at hactual
    obtain ⟨hpos, hprev⟩ := h.link hk
    have hsplit := hchain
    obtain ⟨⟨a, v⟩, hnode⟩ : ∃ node, nodes[k] = node := ⟨_, rfl⟩
    rw [← List.take_append_drop k nodes, List.drop_eq_getElem_cons hk, hnode] at hsplit
    obtain ⟨next, mem, heap, -, hcell, hwrite, hfree, hnew⟩ := hsplit.remove
    rw [← List.eraseIdx_eq_take_drop_succ] at hnew
    have hfront : (nodes.eraseIdx k).take k = nodes.take k :=
      List.take_eraseIdx_eq_take_of_le nodes k k (Nat.le_refl k)
    have hlink := hnew.link_at k
    rw [hfront] at hlink
    have hlen : ((nodes.length : Int) - 1) = (nodes.eraseIdx k).length := by
      rw [List.length_eraseIdx_of_lt hk]
      omega
    rw [if_pos (decide_eq_true hk), hactual, hprev, hnode, hcount, hlen]
    simp only [Option.bind_eq_bind, Option.bind_some, hcell, hwrite, hfree, hlink]
    have hstands : StandsAt
        { actual := (nodes.eraseIdx k)[k]?.map Prod.fst
          prev := w.iterator.prev
          pos := w.iterator.pos } (nodes.eraseIdx k) k := by
      refine ⟨rfl, fun _ => ⟨hpos, ?_⟩⟩
      rw [hfront]
      exact hprev
    exact ⟨_, iteratorElement_eq hnew rfl hstands, hnew, rfl, hstands⟩
  · have hsame : nodes.eraseIdx k = nodes := List.eraseIdx_of_length_le (by omega)
    rw [if_neg (by simpa using hk), hsame]
    exact ⟨w, iteratorElement_eq hchain hcount h, hchain, hcount, h⟩

end Functions

/-! ## Each call -/

section Calls

variable {w : ListMemory E} {nodes : List (Nat × Option E)} {s : Sequence E}

theorem Holds.length_eq (h : Holds w nodes s) : s.elements.length = nodes.length := by
  rw [h.elements, List.length_map]

/-- Where the iterator stands behind a call of it, an iteration does. -/
theorem represents_visit (hchain : Chain w.mem nodes) (hcount : w.nbElt = nodes.length) {k : Nat}
    (hstands : StandsAt w.iterator nodes k) (helements : s.elements = nodes.map Prod.snd) :
    visitResult ((nodes.map Prod.snd)[k]?.join, w) = ((s.visit k).1, w) ∧
      Represents w (s.visit k).2 := by
  constructor
  · rw [visitResult, Sequence.visit, iteratorHasElem_eq hstands hcount, helements, List.length_map]
  · refine ⟨nodes, hchain, hcount, helements, fun k' hk' => ?_⟩
    obtain rfl : k = k' := Option.some.inj hk'
    exact hstands

theorem represents_init (w : ListMemory E) : Represents (timerListInit w).2 Sequence.empty :=
  ⟨[], ⟨.nil, List.nodup_nil⟩, rfl, rfl, fun _ hk => nomatch hk⟩

theorem represents_add (h : Holds w nodes s) (malloc : Option Nat) (el : Option E) {pos : Int}
    (hpos : -1 ≤ pos) (hfits : s.Fits (.add malloc el pos)) :
    ∃ w', Call.apply w (.add malloc el pos) = some ((s.call (.add malloc el pos)).1, w') ∧
      Represents w' (s.call (.add malloc el pos)).2 := by
  cases malloc with
  | none =>
      obtain ⟨mem, hadd, hchain⟩ := @timerListAdd_none _ w nodes el pos h.chain h.count hpos
      refine ⟨{ w with mem := mem }, ?_, nodes, hchain, h.count, h.elements, h.cursor⟩
      rw [Call.apply, hadd]
      rfl
  | some choice =>
      obtain ⟨mem, hadd, hchain⟩ := @timerListAdd_chain _ w nodes el pos h.chain h.count hpos choice
      have hle := insertPos_le nodes.length pos
      have hroom : ¬ intMax < w.nbElt + 1 := by
        have hlt : (s.elements.length : Int) < intMax := hfits
        rw [h.length_eq] at hlt
        rw [h.count]
        omega
      refine ⟨{ w with mem := mem, nbElt := w.nbElt + 1 }, ?_, _, hchain, ?_, ?_, fun _ hk => nomatch hk⟩
      · rw [Call.apply, hadd, countUp, if_neg hroom, Sequence.call, h.length_eq, ← h.count]
        rfl
      · rw [List.length_insertIdx_of_le_length hle, h.count, Int.natCast_add, Int.natCast_one]
      · rw [Sequence.call, h.length_eq, h.elements, List.map_insertIdx]

theorem represents_remove (h : Holds w nodes s) (pos : Int) :
    ∃ w', Call.apply w (.remove pos) = some ((s.call (.remove pos)).1, w') ∧
      Represents w' (s.call (.remove pos)).2 := by
  rw [Sequence.call, h.length_eq]
  by_cases hout : pos < 0 ∨ pos ≥ nodes.length
  · refine ⟨w, ?_, ?_⟩
    · rw [Call.apply, timerListRemove, h.count, if_pos hout, if_pos hout]
      rfl
    · rw [if_pos hout]
      exact ⟨nodes, h⟩
  · obtain ⟨k, rfl⟩ : ∃ k : Nat, pos = k := ⟨pos.toNat, by omega⟩
    have hk : k < nodes.length := by omega
    obtain ⟨mem, hremove, hchain⟩ := timerListRemove_chain h.chain h.count hk
    rw [if_neg hout]
    refine ⟨{ w with mem := mem, nbElt := (nodes.length : Int) - 1 }, ?_, _, hchain, ?_, ?_,
      fun _ hk => nomatch hk⟩
    · rw [Call.apply, hremove]
      rfl
    · rw [List.length_eraseIdx_of_lt hk]
      simp only
      omega
    · rw [Int.toNat_natCast, h.elements, List.eraseIdx_map]

/-- Each call acts as the corresponding one on the sequence. -/
theorem call_represents (h : Represents w s) (call : Call E) (horderly : s.Orderly call)
    (hfits : s.Fits call) :
    ∃ w', call.apply w = some ((s.call call).1, w') ∧ Represents w' (s.call call).2 := by
  obtain ⟨nodes, h⟩ := h
  cases call with
  | init => exact ⟨_, rfl, represents_init w⟩
  | add malloc el pos => exact represents_add h malloc el horderly hfits
  | remove pos => exact represents_remove h pos
  | get pos =>
      refine ⟨w, ?_, nodes, h⟩
      rw [Call.apply, timerListGet_eq h.chain h.count, Sequence.call, h.elements]
      rfl
  | getFirst =>
      obtain ⟨it, hfirst, hstands⟩ := timerListGetFirst_eq h.chain h.count
      obtain ⟨hvisit, hrep⟩ := @represents_visit _ { w with iterator := it } nodes s h.chain h.count 0
        hstands h.elements
      refine ⟨_, ?_, hrep⟩
      rw [Call.apply, hfirst, Option.map_some, hvisit]
      rfl
  | getNext =>
      obtain ⟨k, hcursor, hk⟩ := horderly
      rw [h.length_eq] at hk
      obtain ⟨it, hnext, hstands⟩ := timerListGetNext_eq h.chain h.count (h.cursor k hcursor) hk
      obtain ⟨hvisit, hrep⟩ := @represents_visit _ { w with iterator := it } nodes s h.chain h.count
        (k + 1) hstands h.elements
      simp only [Sequence.call, hcursor, Option.getD_some]
      refine ⟨_, ?_, hrep⟩
      rw [Call.apply, hnext, Option.map_some, hvisit]
  | iteratorRemove =>
      obtain ⟨k, hcursor⟩ := Option.isSome_iff_exists.mp horderly
      obtain ⟨w', hremove, hchain, hcount, hstands⟩ :=
        timerListIteratorRemove_eq h.chain h.count (h.cursor k hcursor)
      have helements : s.elements.eraseIdx k = (nodes.eraseIdx k).map Prod.snd := by
        rw [h.elements, List.eraseIdx_map]
      obtain ⟨hvisit, hrep⟩ := @represents_visit _ w' _
        { s with elements := s.elements.eraseIdx k } hchain hcount k hstands helements
      simp only [Sequence.call, hcursor, Option.getD_some]
      refine ⟨_, ?_, hrep⟩
      rw [Call.apply, hremove, Option.map_some, hvisit]
      rfl

end Calls

/-! ## The iterator of a deletion -/

section Deletion

variable {w : ListMemory E} {s : Sequence E}

/-- The list as a deletion walks through it. -/
def Sequence.timerList (s : Sequence E) : TimerList (Option E) where
  nbElt := s.elements.length
  node := s.elements

/-- The iterator of a deletion. -/
def Sequence.iterator (s : Sequence E) : ListIterator (Option E) where
  before := s.elements.take (s.cursor.getD 0)
  actual := s.elements.drop (s.cursor.getD 0)
  pos := s.cursor.getD 0

theorem hasElem_iterator (s : Sequence E) :
    hasElem s.iterator s.timerList = decide (s.cursor.getD 0 < s.elements.length) := by
  rw [hasElem, Sequence.iterator, Sequence.timerList]
  by_cases hk : s.cursor.getD 0 < s.elements.length
  · rw [List.drop_eq_getElem_cons hk]
    simp [hk]
  · simp [hk]

theorem getFirst_iterator (s : Sequence E) :
    UiTimer.timerListGetFirst s.timerList = (s.elements[0]?, (s.call .getFirst).2.iterator) := by
  rw [UiTimer.timerListGetFirst_eq rfl, ← List.head?_eq_getElem?]
  rfl

theorem getNext_iterator (horderly : s.Orderly .getNext) :
    UiTimer.timerListGetNext s.timerList s.iterator =
      (s.elements[s.cursor.getD 0 + 1]?, (s.call .getNext).2.iterator) := by
  obtain ⟨k, hcursor, hk⟩ := horderly
  have hnext : (s.call .getNext).2.iterator =
      { before := s.elements.take k ++ [s.elements[k]]
        actual := s.elements.drop (k + 1)
        pos := (k : Int) + 1 } := by
    rw [Sequence.call, hcursor, ← List.take_succ_eq_append_getElem hk]
    rfl
  have hhas : hasElem (s.call .getNext).2.iterator s.timerList =
      decide (s.cursor.getD 0 + 1 < s.elements.length) := hasElem_iterator (s.call .getNext).2
  rw [hnext, hcursor, Option.getD_some] at hhas
  rw [hnext, UiTimer.timerListGetNext, Sequence.iterator, hcursor, Option.getD_some,
    List.drop_eq_getElem_cons hk]
  simp only [hhas]
  by_cases hmore : k + 1 < s.elements.length
  · rw [if_pos (decide_eq_true hmore), List.head?_drop]
  · have hend : s.elements.length ≤ k + 1 := Nat.le_of_not_lt hmore
    rw [if_neg (by simpa using hmore), List.drop_eq_nil_of_le hend, List.getElem?_eq_none hend]

theorem iteratorRemove_iterator (s : Sequence E) :
    UiTimer.timerListIteratorRemove s.timerList s.iterator =
      ((s.call .iteratorRemove).2.timerList, (s.call .iteratorRemove).2.iterator) := by
  have hcall : (s.call .iteratorRemove).2 =
      { elements := s.elements.eraseIdx (s.cursor.getD 0), cursor := some (s.cursor.getD 0) } := rfl
  rw [UiTimer.timerListIteratorRemove, hasElem_iterator, hcall]
  simp only [Sequence.timerList, Sequence.iterator, Option.getD_some]
  by_cases hk : s.cursor.getD 0 < s.elements.length
  · have hlength : ((s.elements.eraseIdx (s.cursor.getD 0)).length : Int) = s.elements.length - 1 := by
      rw [List.length_eraseIdx_of_lt hk]
      omega
    have hdrop : (s.elements.eraseIdx (s.cursor.getD 0)).drop (s.cursor.getD 0) =
        s.elements.drop (s.cursor.getD 0 + 1) := by
      rw [List.eraseIdx_eq_take_drop_succ, List.drop_left' (List.length_take_of_le (Nat.le_of_lt hk))]
    rw [if_pos (decide_eq_true hk), List.tail_drop, ← List.eraseIdx_eq_take_drop_succ, hlength, hdrop,
      List.take_eraseIdx_eq_take_of_le _ _ _ (Nat.le_refl _)]
  · have hsame : s.elements.eraseIdx (s.cursor.getD 0) = s.elements :=
      List.eraseIdx_of_length_le (Nat.le_of_not_lt hk)
    rw [if_neg (by simpa using hk), hsame]

/-- The nodes' iterator returns what that of a deletion does. -/
theorem getFirst_represents (h : Represents w s) :
    ∃ w', Call.apply w .getFirst =
        some (.visit (hasElem (UiTimer.timerListGetFirst s.timerList).2 s.timerList)
          (UiTimer.timerListGetFirst s.timerList).1.join, w') ∧
      Represents w' (s.call .getFirst).2 := by
  have hhas : hasElem (s.call .getFirst).2.iterator s.timerList = decide (0 < s.elements.length) :=
    hasElem_iterator (s.call .getFirst).2
  rw [getFirst_iterator, hhas]
  exact call_represents h .getFirst trivial trivial

theorem getNext_represents (h : Represents w s) (horderly : s.Orderly .getNext) :
    ∃ w', Call.apply w .getNext =
        some (.visit (hasElem (UiTimer.timerListGetNext s.timerList s.iterator).2 s.timerList)
          (UiTimer.timerListGetNext s.timerList s.iterator).1.join, w') ∧
      Represents w' (s.call .getNext).2 := by
  have hhas : hasElem (s.call .getNext).2.iterator s.timerList =
      decide (s.cursor.getD 0 + 1 < s.elements.length) := hasElem_iterator (s.call .getNext).2
  rw [getNext_iterator horderly, hhas]
  exact call_represents h .getNext horderly trivial

theorem iteratorRemove_represents (h : Represents w s) (horderly : s.Orderly .iteratorRemove) :
    ∃ result w' s', Call.apply w .iteratorRemove = some (result, w') ∧ Represents w' s' ∧
      UiTimer.timerListIteratorRemove s.timerList s.iterator = (s'.timerList, s'.iterator) := by
  obtain ⟨w', hcall, hrep⟩ := call_represents h .iteratorRemove horderly trivial
  exact ⟨_, w', _, hcall, hrep, iteratorRemove_iterator s⟩

end Deletion

/-! ## Runs -/

/-- A call that can be made in an iteration, and leaves the number of elements an {lit}`int`. -/
def Allowed (s : Sequence E) (call : Call E) : Prop :=
  s.Orderly call ∧ s.Fits call

/-- The calls of a run are all allowed. -/
def AllowedRun (s : Sequence E) (calls : List (Call E)) : Prop :=
  EveryStep (fun s call => (s.call call).2) Allowed s calls

theorem runCalls_represents :
    ∀ {calls : List (Call E)} {w : ListMemory E} {s : Sequence E}, Represents w s →
      AllowedRun s calls →
      ∃ w', runCalls w calls = some ((s.run calls).1, w') ∧ Represents w' (s.run calls).2 := by
  intro calls
  induction calls with
  | nil =>
      intro w s h _
      exact ⟨w, rfl, h⟩
  | cons call calls ih =>
      intro w s h hrun
      obtain ⟨⟨horderly, hfits⟩, hrest⟩ := everyStep_cons.mp hrun
      obtain ⟨w₁, hcall, h₁⟩ := call_represents h call horderly hfits
      obtain ⟨w₂, hcalls, h₂⟩ := ih h₁ hrest
      refine ⟨w₂, ?_, h₂⟩
      rw [runCalls, hcall]
      simp only [hcalls, Option.map_some, Sequence.run]

/-- The calls of an iteration behind the first: {lit}`chosen` tells for each element in its order whether it is
removed. -/
def turns (chosen : Nat → Bool) : Nat → List (Call E)
  | 0 => []
  | n + 1 =>
      (if chosen 0 then .iteratorRemove else .getNext) :: turns (fun i => chosen (i + 1)) n

/-- An iteration over a number of elements. -/
def iteration (chosen : Nat → Bool) (length : Nat) : List (Call E) :=
  .getFirst :: turns chosen length

/-- Each element is visited once, in their order. -/
def visits (elements : List (Option E)) : List (Result E) :=
  elements.map (fun e => .visit true e) ++ [.visit false none]

/-- The elements that are not chosen. -/
def kept (chosen : Nat → Bool) : List (Option E) → List (Option E)
  | [] => []
  | e :: rest =>
      if chosen 0 then kept (fun i => chosen (i + 1)) rest
      else e :: kept (fun i => chosen (i + 1)) rest

/-- What the visit at the beginning of the last elements shows. -/
theorem visit_behind (done back : List (Option E)) (cursor : Option Nat) :
    (Sequence.visit { elements := done ++ back, cursor := cursor } done.length) =
      (.visit (decide (back ≠ [])) back.head?.join,
        { elements := done ++ back, cursor := some done.length }) := by
  have hlt : done.length < (done ++ back).length ↔ back ≠ [] := by
    rw [List.length_append, Nat.lt_add_right_iff_pos, List.length_pos_iff]
  have hat : (done ++ back)[done.length]? = back.head? := by
    rw [List.getElem?_append_right (Nat.le_refl _), Nat.sub_self, List.head?_eq_getElem?]
  rw [Sequence.visit]
  simp only [hat, hlt]

/-- The element in front of the last ones is removed. -/
theorem iteratorRemove_behind (done back : List (Option E)) (e : Option E) :
    Sequence.call { elements := done ++ e :: back, cursor := some done.length } .iteratorRemove =
      (.visit (decide (back ≠ [])) back.head?.join,
        { elements := done ++ back, cursor := some done.length }) := by
  rw [Sequence.call, Option.getD_some]
  simp only
  rw [List.eraseIdx_append_of_length_le (Nat.le_refl _), Nat.sub_self, List.eraseIdx_cons_zero,
    visit_behind]

/-- The element in front of the last ones is left where it is. -/
theorem getNext_behind (done back : List (Option E)) (e : Option E) :
    Sequence.call { elements := done ++ e :: back, cursor := some done.length } .getNext =
      (.visit (decide (back ≠ [])) back.head?.join,
        { elements := (done ++ [e]) ++ back, cursor := some (done ++ [e]).length }) := by
  have hdone : done ++ e :: back = (done ++ [e]) ++ back := by simp
  have hnext : done.length + 1 = (done ++ [e]).length := by simp
  rw [Sequence.call, Option.getD_some, hnext, hdone, visit_behind]

theorem visit_cons_tail (back : List (Option E)) :
    .visit (decide (back ≠ [])) back.head?.join :: (visits back).tail = visits back := by
  cases back with
  | nil => rfl
  | cons e back => rfl

/-- The turns of an iteration that has kept {lit}`done` and stands in front of {lit}`back`. -/
theorem turns_run (back : List (Option E)) :
    ∀ (chosen : Nat → Bool) (done : List (Option E)),
      AllowedRun { elements := done ++ back, cursor := some done.length }
        (turns chosen back.length) ∧
      Sequence.run { elements := done ++ back, cursor := some done.length }
          (turns chosen back.length) =
        ((visits back).tail,
          { elements := done ++ kept chosen back, cursor := some (done ++ kept chosen back).length }) := by
  induction back with
  | nil =>
      intro chosen done
      refine ⟨everyStep_nil, ?_⟩
      rw [kept, List.append_nil]
      rfl
  | cons e back ih =>
      intro chosen done
      rw [List.length_cons, turns, kept, AllowedRun, everyStep_cons, Sequence.run]
      by_cases hchosen : chosen 0 = true
      · rw [if_pos hchosen, if_pos hchosen]
        obtain ⟨hrest, hrun⟩ := ih (fun i => chosen (i + 1)) done
        rw [iteratorRemove_behind]
        simp only
        refine ⟨⟨⟨rfl, trivial⟩, hrest⟩, ?_⟩
        rw [hrun]
        simp only
        rw [visit_cons_tail]
        rfl
      · rw [if_neg hchosen, if_neg hchosen]
        obtain ⟨hrest, hrun⟩ := ih (fun i => chosen (i + 1)) (done ++ [e])
        have hlt : done.length < (done ++ e :: back).length := by simp
        rw [getNext_behind]
        simp only
        refine ⟨⟨⟨⟨done.length, rfl, hlt⟩, trivial⟩, hrest⟩, ?_⟩
        rw [hrun]
        simp only
        rw [visit_cons_tail, List.append_assoc, List.singleton_append]
        rfl

/-- An iteration visits each element once, in their order, and leaves those that are not chosen. -/
theorem iteration_run (s : Sequence E) (chosen : Nat → Bool) :
    AllowedRun s (iteration chosen s.elements.length) ∧
      s.run (iteration chosen s.elements.length) =
        (visits s.elements,
          { elements := kept chosen s.elements, cursor := some (kept chosen s.elements).length }) := by
  have hfirst := visit_behind [] s.elements s.cursor
  rw [List.nil_append, List.length_nil] at hfirst
  have hcall : s.call .getFirst = (.visit (decide (s.elements ≠ [])) s.elements.head?.join,
      { elements := s.elements, cursor := some 0 }) := hfirst
  obtain ⟨hrest, hrun⟩ := turns_run s.elements chosen []
  rw [List.nil_append, List.length_nil] at hrest hrun
  rw [iteration, AllowedRun, everyStep_cons, Sequence.run, hcall]
  simp only
  refine ⟨⟨⟨trivial, trivial⟩, hrest⟩, ?_⟩
  rw [hrun]
  simp only
  rw [visit_cons_tail]
  rfl

/-- Every run acts as that on the sequence, and {lit}`nb_elt` is the number of linked nodes behind it; an
iteration from there visits each element once, in their order, and removes the chosen ones. -/
theorem timerList_refines (w : ListMemory E) {calls : List (Call E)}
    (hcalls : AllowedRun Sequence.empty calls) :
    ∃ w', runCalls (timerListInit w).2 calls = some ((Sequence.empty.run calls).1, w') ∧
      Represents w' (Sequence.empty.run calls).2 ∧
      ∀ chosen : Nat → Bool, ∃ w'',
        runCalls w' (iteration chosen (Sequence.empty.run calls).2.elements.length) =
          some (visits (Sequence.empty.run calls).2.elements, w'') ∧
        Represents w''
          { elements := kept chosen (Sequence.empty.run calls).2.elements
            cursor := some (kept chosen (Sequence.empty.run calls).2.elements).length } := by
  obtain ⟨w', hrun, hrep⟩ := runCalls_represents (represents_init w) hcalls
  refine ⟨w', hrun, hrep, fun chosen => ?_⟩
  obtain ⟨hallowed, hsequence⟩ := iteration_run (Sequence.empty.run calls).2 chosen
  obtain ⟨w'', hiterate, hrep'⟩ := runCalls_represents hrep hallowed
  rw [hsequence] at hiterate hrep'
  exact ⟨w'', hiterate, hrep'⟩

/-- The additions of two elements, a visit of the first of them, and its removal. -/
theorem timerList_refines_removal :
    ∃ w', runCalls (timerListInit (ListMemory.mk (E := Nat) ⟨.empty, none⟩ 0 ⟨none, none, 0⟩)).2
        [.add (some 5) (some 1) (-1), .add (some 5) (some 2) 0, .getFirst, .iteratorRemove] =
          some ([.number 1, .number 2, .visit true (some 2), .visit true (some 1)], w') ∧
      Represents w' { elements := [some 1], cursor := some 0 } := by
  have hallowed : AllowedRun Sequence.empty
      [.add (some 5) (some 1) (-1), .add (some 5) (some 2) 0, .getFirst, .iteratorRemove] := by
    simp only [AllowedRun, everyStep_cons]
    exact ⟨⟨Int.le_refl (-1), show (0 : Int) < intMax by decide⟩,
      ⟨show (-1 : Int) ≤ 0 by decide, show (1 : Int) < intMax by decide⟩,
      ⟨trivial, trivial⟩, ⟨rfl, trivial⟩, everyStep_nil⟩
  obtain ⟨w', hrun, hrep, -⟩ := timerList_refines
    (ListMemory.mk (E := Nat) ⟨.empty, none⟩ 0 ⟨none, none, 0⟩) hallowed
  exact ⟨w', hrun, hrep⟩

/-- Additions at the end, one after the other. -/
def additions (n : Nat) : List (Call Nat) :=
  List.replicate n (.add (some 0) none (-1))

theorem additions_orderly (n : Nat) :
    ∀ s : Sequence Nat, EveryStep (fun s call => (s.call call).2) Sequence.Orderly s (additions n) := by
  induction n with
  | zero => exact fun _ => everyStep_nil
  | succ n ih =>
      intro s
      rw [additions, List.replicate_succ]
      exact everyStep_cons.mpr ⟨Int.le_refl (-1), ih _⟩

/-- The addition that finds as many elements as an {lit}`int` counts leaves its range. -/
theorem additions_none (n : Nat) :
    ∀ {w : ListMemory Nat} {s : Sequence Nat}, Represents w s →
      ((s.elements.length + n : Nat) : Int) = intMax → runCalls w (additions (n + 1)) = none := by
  induction n with
  | zero =>
      rintro w s ⟨nodes, h⟩ hfull
      obtain ⟨mem, hadd, -⟩ :=
        @timerListAdd_chain _ w nodes none (-1) h.chain h.count (Int.le_refl (-1)) 0
      have hover : intMax < w.nbElt + 1 := by
        rw [h.length_eq] at hfull
        rw [h.count]
        omega
      rw [additions, List.replicate_succ, runCalls, Call.apply, hadd, countUp, if_pos hover]
      rfl
  | succ n ih =>
      intro w s h hfull
      have hfits : s.Fits (.add (some 0) none (-1)) := by
        rw [Sequence.Fits]
        omega
      obtain ⟨w', hcall, h'⟩ := call_represents h (.add (some 0) none (-1)) (Int.le_refl (-1)) hfits
      have hlength : (s.call (.add (some 0) none (-1))).2.elements.length = s.elements.length + 1 :=
        List.length_insertIdx_of_le_length (insertPos_le _ _) none
      have hrest := ih h' (by rw [hlength]; omega)
      rw [additions] at hrest
      rw [additions, List.replicate_succ, runCalls, hcall]
      simp only
      rw [hrest]
      rfl

/-- More elements than an {lit}`int` counts: {lit}`nb_elt` overflows. -/
theorem nbElt_overflows :
    EveryStep (fun s call => (s.call call).2) Sequence.Orderly Sequence.empty (additions 2147483648) ∧
      runCalls (timerListInit (ListMemory.mk (E := Nat) ⟨.empty, none⟩ 0 ⟨none, none, 0⟩)).2
        (additions 2147483648) = none :=
  ⟨additions_orderly 2147483648 Sequence.empty,
    additions_none 2147483647 (represents_init _) (by rw [Sequence.empty, intMax]; rfl)⟩

end Nodes
end UiTimer
end ZyxelRouter
