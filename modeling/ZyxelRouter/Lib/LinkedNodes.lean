import Mathlib.Data.List.Nodup

/-!
# Linked nodes

Nodes at addresses, each with a value and the address of the next one.  An allocator may give out any
address that is not in use, also one that was released before.  A read, write or release of an address
that is not in use has no result.

Main results:

- Theorem {lit}`segment_append`: nodes in two parts.
- Theorem {lit}`Segment.advance`: following links from node to node.
- Theorem {lit}`Segment.writeLink`: the link behind the first part of the nodes is changed.
- Theorems {lit}`Chain.insert` and {lit}`Chain.remove`: a node is linked in and out.
- Theorem {lit}`Chain.node_at`: the node at a position.
-/

namespace ZyxelRouter
namespace Lib

/-- A node: the address of the next one, and a value. -/
structure LinkedNode (V : Type) where
  next : Option Nat
  value : V
deriving DecidableEq, Repr

/-- The nodes by address; from {lit}`bound` on no address is in use. -/
structure NodeHeap (V : Type) where
  cell : Nat → Option (LinkedNode V)
  bound : Nat
  cell_of_le : ∀ a, bound ≤ a → cell a = none

namespace NodeHeap

variable {V : Type}

/-- No address is in use. -/
def empty : NodeHeap V where
  cell := fun _ => none
  bound := 0
  cell_of_le := fun _ _ => rfl

/-- The address that is given out: the one that is chosen, if it is not in use. -/
def address (h : NodeHeap V) (choice : Nat) : Nat :=
  if (h.cell choice).isNone then choice else h.bound

theorem cell_address (h : NodeHeap V) (choice : Nat) : h.cell (h.address choice) = none := by
  rw [address]
  split
  · rename_i hnone
    exact Option.isNone_iff_eq_none.mp hnone
  · exact h.cell_of_le h.bound (Nat.le_refl _)

/-- Stores a node. -/
def put (h : NodeHeap V) (a : Nat) (node : LinkedNode V) : NodeHeap V where
  cell := fun b => if b = a then some node else h.cell b
  bound := max h.bound (a + 1)
  cell_of_le := by
    intro b hb
    rw [if_neg (by omega)]
    exact h.cell_of_le b (by omega)

/-- Changes the link of a node. -/
def setNext (h : NodeHeap V) (a : Nat) (q : Option Nat) : Option (NodeHeap V) :=
  (h.cell a).map (fun node => h.put a { node with next := q })

/-- Releases a node. -/
def free (h : NodeHeap V) (a : Nat) : Option (NodeHeap V) :=
  if (h.cell a).isSome then
    some {
      cell := fun b => if b = a then none else h.cell b
      bound := h.bound
      cell_of_le := by
        intro b hb
        split
        · rfl
        · exact h.cell_of_le b hb }
  else none

/-- Follows a number of links. -/
def advance (h : NodeHeap V) : Nat → Option Nat → Option (Option Nat)
  | 0, p => some p
  | _ + 1, none => none
  | n + 1, some a =>
      match h.cell a with
      | none => none
      | some node => h.advance n node.next

variable {h h' : NodeHeap V} {a b : Nat} {node : LinkedNode V}

@[simp]
theorem cell_put_self : (h.put a node).cell a = some node := if_pos rfl

theorem cell_put_of_ne (hb : b ≠ a) : (h.put a node).cell b = h.cell b := if_neg hb

theorem cell_free_of_ne (hfree : h.free a = some h') (hb : b ≠ a) : h'.cell b = h.cell b := by
  rw [free] at hfree
  split at hfree
  · obtain rfl := Option.some.inj hfree
    exact if_neg hb
  · cases hfree

theorem exists_free (hcell : h.cell a = some node) : ∃ h', h.free a = some h' := by
  rw [free, hcell]
  exact ⟨_, rfl⟩

end NodeHeap

/-! ## Nodes between two links -/

section Segments

variable {V : Type}

/-- The nodes from a link to another, with their addresses. -/
inductive Segment (h : NodeHeap V) : Option Nat → List (Nat × V) → Option Nat → Prop where
  | nil {p : Option Nat} : Segment h p [] p
  | cons {a : Nat} {v : V} {next q : Option Nat} {rest : List (Nat × V)}
      (cell : h.cell a = some { next := next, value := v }) (tail : Segment h next rest q) :
      Segment h (some a) ((a, v) :: rest) q

variable {h h' : NodeHeap V} {p q r : Option Nat} {front back nodes : List (Nat × V)} {a : Nat} {v : V}

theorem segment_nil_iff : Segment h p [] q ↔ p = q := by
  constructor
  · intro hseg
    cases hseg
    rfl
  · rintro rfl
    exact .nil

theorem segment_cons_iff : Segment h p ((a, v) :: back) q ↔
    p = some a ∧ ∃ next, h.cell a = some { next := next, value := v } ∧ Segment h next back q := by
  constructor
  · intro hseg
    cases hseg with
    | cons cell tail => exact ⟨rfl, _, cell, tail⟩
  · rintro ⟨rfl, next, hcell, htail⟩
    exact .cons hcell htail

/-- Nodes in two parts. -/
theorem segment_append :
    Segment h p (front ++ back) q ↔ ∃ r, Segment h p front r ∧ Segment h r back q := by
  induction front generalizing p with
  | nil => simp [segment_nil_iff]
  | cons node front ih =>
      obtain ⟨a, v⟩ := node
      simp only [List.cons_append, segment_cons_iff, ih]
      constructor
      · rintro ⟨rfl, next, hcell, r, hfront, hback⟩
        exact ⟨r, ⟨rfl, next, hcell, hfront⟩, hback⟩
      · rintro ⟨r, ⟨rfl, next, hcell, hfront⟩, hback⟩
        exact ⟨rfl, next, hcell, r, hfront, hback⟩

/-- Only the nodes themselves matter. -/
theorem Segment.congr (hseg : Segment h p nodes q)
    (hsame : ∀ b ∈ nodes.map Prod.fst, h'.cell b = h.cell b) : Segment h' p nodes q := by
  induction hseg with
  | nil => exact .nil
  | cons cell tail ih =>
      rw [List.map_cons, List.forall_mem_cons] at hsame
      exact .cons (hsame.1.trans cell) (ih hsame.2)

theorem Segment.cell_isSome (hseg : Segment h p nodes q) :
    ∀ b ∈ nodes.map Prod.fst, (h.cell b).isSome = true := by
  induction hseg with
  | nil => simp
  | cons cell tail ih =>
      rw [List.map_cons, List.forall_mem_cons]
      exact ⟨by rw [cell]; rfl, ih⟩

/-- An address that is not in use is that of no node. -/
theorem Segment.notMem (hseg : Segment h p nodes q) (hfresh : h.cell a = none) :
    a ∉ nodes.map Prod.fst := by
  intro hmem
  have hsome := hseg.cell_isSome a hmem
  rw [hfresh] at hsome
  cases hsome

/-- Following as many links as there are nodes. -/
theorem Segment.advance (hseg : Segment h p nodes q) : h.advance nodes.length p = some q := by
  induction hseg with
  | nil => rfl
  | cons cell tail ih =>
      rw [List.length_cons, NodeHeap.advance, cell]
      exact ih

/-- The first link leads to the first node. -/
theorem Segment.start (hseg : Segment h p nodes none) : p = nodes.head?.map Prod.fst := by
  cases hseg with
  | nil => rfl
  | cons cell tail => rfl

end Segments

/-! ## Links -/

/-- Where the address of a node is stored: in the root or in a node. -/
inductive Link where
  | root
  | next (a : Nat)
deriving DecidableEq, Repr

/-- Nodes and the address of the first of them. -/
structure LinkedMemory (V : Type) where
  heap : NodeHeap V
  root : Option Nat

section Links

variable {V : Type}

/-- Reads a link. -/
def LinkedMemory.readLink (m : LinkedMemory V) : Link → Option (Option Nat)
  | .root => some m.root
  | .next a => (m.heap.cell a).map LinkedNode.next

/-- Writes a link. -/
def LinkedMemory.writeLink (m : LinkedMemory V) (link : Link) (q : Option Nat) :
    Option (LinkedMemory V) :=
  match link with
  | .root => some { m with root := q }
  | .next a => (m.heap.setNext a q).map (fun heap => { m with heap := heap })

/-- The link behind the first nodes. -/
def linkBehind (front : List (Nat × V)) : Link :=
  match front.getLast? with
  | none => .root
  | some node => .next node.1

/-- The nodes from the root on, at addresses of their own. -/
structure Chain (m : LinkedMemory V) (nodes : List (Nat × V)) : Prop where
  segment : Segment m.heap m.root nodes none
  nodup : (nodes.map Prod.fst).Nodup

variable {m : LinkedMemory V} {q r : Option Nat} {front back nodes : List (Nat × V)} {a : Nat} {v : V}

theorem linkBehind_concat (front : List (Nat × V)) (node : Nat × V) :
    linkBehind (front ++ [node]) = .next node.1 := by
  rw [linkBehind, List.getLast?_concat]

theorem segment_concat_iff {h : NodeHeap V} {p : Option Nat} :
    Segment h p (front ++ [(a, v)]) q ↔
      Segment h p front (some a) ∧ h.cell a = some { next := q, value := v } := by
  rw [segment_append]
  constructor
  · rintro ⟨r, hfront, hlast⟩
    obtain ⟨rfl, next, hcell, htail⟩ := segment_cons_iff.mp hlast
    rw [segment_nil_iff] at htail
    exact ⟨hfront, htail ▸ hcell⟩
  · rintro ⟨hfront, hcell⟩
    exact ⟨some a, hfront, .cons hcell .nil⟩

/-- What the link behind the first nodes leads to. -/
theorem Segment.readLink (hseg : Segment m.heap m.root front r) :
    m.readLink (linkBehind front) = some r := by
  rcases List.eq_nil_or_concat front with rfl | ⟨front, ⟨a, v⟩, rfl⟩
  · rw [segment_nil_iff] at hseg
    exact congrArg some hseg
  · rw [List.concat_eq_append] at hseg ⊢
    rw [linkBehind_concat, LinkedMemory.readLink, (segment_concat_iff.mp hseg).2]
    rfl

/-- The link behind the first nodes is changed, and nothing behind them. -/
theorem Segment.writeLink (hseg : Segment m.heap m.root front r)
    (hnodup : (front.map Prod.fst).Nodup) (q : Option Nat) :
    ∃ m', m.writeLink (linkBehind front) q = some m' ∧ Segment m'.heap m'.root front q ∧
      ∀ b, b ∉ front.map Prod.fst → m'.heap.cell b = m.heap.cell b := by
  rcases List.eq_nil_or_concat front with rfl | ⟨front, ⟨a, v⟩, rfl⟩
  · exact ⟨{ m with root := q }, rfl, .nil, fun _ _ => rfl⟩
  · rw [List.concat_eq_append] at hseg hnodup ⊢
    obtain ⟨hfront, hcell⟩ := segment_concat_iff.mp hseg
    rw [List.map_append, List.nodup_append] at hnodup
    have hlast : ∀ b ∈ front.map Prod.fst, b ≠ a := by
      intro b hb
      exact hnodup.2.2 b hb a (by simp)
    refine ⟨{ m with heap := m.heap.put a { next := q, value := v } }, ?_, ?_, ?_⟩
    · rw [linkBehind_concat, LinkedMemory.writeLink, NodeHeap.setNext, hcell]
      rfl
    · refine segment_concat_iff.mpr ⟨hfront.congr fun b hb => ?_, NodeHeap.cell_put_self⟩
      exact NodeHeap.cell_put_of_ne (hlast b hb)
    · intro b hb
      refine NodeHeap.cell_put_of_ne ?_
      rintro rfl
      exact hb (by simp)

theorem nodup_append_cons {p : Nat} (hnodup : ((front ++ back).map Prod.fst).Nodup)
    (hfresh : p ∉ (front ++ back).map Prod.fst) :
    ((front ++ (p, v) :: back).map Prod.fst).Nodup := by
  have hperm : ((front ++ (p, v) :: back).map Prod.fst).Perm (p :: (front ++ back).map Prod.fst) :=
    List.perm_middle.map Prod.fst
  exact hperm.nodup_iff.mpr (List.nodup_cons.mpr ⟨hfresh, hnodup⟩)

/-- A node that leads to what was behind a link is linked in there. -/
theorem Chain.insert {p : Nat} (hchain : Chain m (front ++ back)) (hfresh : m.heap.cell p = none)
    (hlink : m.readLink (linkBehind front) = some r) (v : V) :
    ∃ m', LinkedMemory.writeLink { m with heap := m.heap.put p { next := r, value := v } }
        (linkBehind front) (some p) = some m' ∧ Chain m' (front ++ (p, v) :: back) := by
  have hnew := hchain.segment.notMem hfresh
  obtain ⟨r', hfront, hback⟩ := segment_append.mp hchain.segment
  obtain rfl : r' = r := by
    rw [hfront.readLink] at hlink
    exact Option.some.inj hlink
  have hnodup := hchain.nodup
  rw [List.map_append, List.mem_append, not_or] at hnew
  rw [List.map_append, List.nodup_append] at hnodup
  have hput : ∀ nodes : List (Nat × V), p ∉ nodes.map Prod.fst → ∀ b ∈ nodes.map Prod.fst,
      (m.heap.put p { next := r', value := v }).cell b = m.heap.cell b := by
    intro nodes hp b hb
    refine NodeHeap.cell_put_of_ne ?_
    rintro rfl
    exact hp hb
  obtain ⟨m', hwrite, hfront', hsame⟩ := Segment.writeLink
    (m := { m with heap := m.heap.put p { next := r', value := v } })
    (hfront.congr (hput front hnew.1)) hnodup.1 (some p)
  refine ⟨m', hwrite, segment_append.mpr ⟨some p, hfront', .cons ?_ (hback.congr fun b hb => ?_)⟩,
    nodup_append_cons hchain.nodup (by simpa using hnew)⟩
  · rw [hsame p hnew.1]
    exact NodeHeap.cell_put_self
  · have hb' : b ∉ front.map Prod.fst := fun hmem => hnodup.2.2 b hmem b hb rfl
    rw [hsame b hb']
    exact hput back hnew.2 b hb

/-- A node is linked out and released. -/
theorem Chain.remove (hchain : Chain m (front ++ (a, v) :: back)) :
    ∃ next m' heap, m.readLink (linkBehind front) = some (some a) ∧
      m.heap.cell a = some { next := next, value := v } ∧
      m.writeLink (linkBehind front) next = some m' ∧ m'.heap.free a = some heap ∧
      Chain { m' with heap := heap } (front ++ back) := by
  obtain ⟨r, hfront, hrest⟩ := segment_append.mp hchain.segment
  obtain ⟨rfl, next, hcell, hback⟩ := segment_cons_iff.mp hrest
  have hnodup := hchain.nodup
  have hperm : ((front ++ (a, v) :: back).map Prod.fst).Perm (a :: (front ++ back).map Prod.fst) :=
    List.perm_middle.map Prod.fst
  obtain ⟨hnew, hall⟩ := List.nodup_cons.mp (hperm.nodup_iff.mp hnodup)
  rw [List.map_append, List.mem_append, not_or] at hnew
  have hparts := hall
  rw [List.map_append, List.nodup_append] at hparts
  obtain ⟨m', hwrite, hfront', hsame⟩ := hfront.writeLink hparts.1 next
  obtain ⟨heap, hfree⟩ := NodeHeap.exists_free ((hsame a hnew.1).trans hcell)
  have hkept : ∀ nodes : List (Nat × V), a ∉ nodes.map Prod.fst → ∀ b ∈ nodes.map Prod.fst,
      heap.cell b = m'.heap.cell b := by
    intro nodes ha b hb
    refine NodeHeap.cell_free_of_ne hfree ?_
    rintro rfl
    exact ha hb
  refine ⟨next, m', heap, hfront.readLink, hcell, hwrite, hfree,
    segment_append.mpr ⟨next, hfront'.congr (hkept front hnew.1), hback.congr fun b hb => ?_⟩, hall⟩
  have hb' : b ∉ front.map Prod.fst := fun hmem => hparts.2.2 b hmem b hb rfl
  rw [hkept back hnew.2 b hb, hsame b hb']

/-- Writing what a link leads to changes nothing. -/
theorem Chain.relink (hchain : Chain m (front ++ back))
    (hlink : m.readLink (linkBehind front) = some r) :
    ∃ m', m.writeLink (linkBehind front) r = some m' ∧ Chain m' (front ++ back) := by
  obtain ⟨r', hfront, hback⟩ := segment_append.mp hchain.segment
  obtain rfl : r' = r := by
    rw [hfront.readLink] at hlink
    exact Option.some.inj hlink
  have hnodup := hchain.nodup
  rw [List.map_append, List.nodup_append] at hnodup
  obtain ⟨m', hwrite, hfront', hsame⟩ := hfront.writeLink hnodup.1 r'
  refine ⟨m', hwrite, segment_append.mpr ⟨r', hfront', hback.congr fun b hb => ?_⟩, hchain.nodup⟩
  exact hsame b fun hmem => hnodup.2.2 b hmem b hb rfl

/-! ## Positions -/

variable {k : Nat}

/-- The link at a position leads to the node there. -/
theorem Chain.link_at (hchain : Chain m nodes) (k : Nat) :
    m.readLink (linkBehind (nodes.take k)) = some (nodes[k]?.map Prod.fst) := by
  have hseg := hchain.segment
  rw [← List.take_append_drop k nodes] at hseg
  obtain ⟨r, hfront, hback⟩ := segment_append.mp hseg
  rw [hfront.readLink, hback.start, List.head?_drop]

/-- The node at a position, which is reached by as many links. -/
theorem Chain.node_at (hchain : Chain m nodes) (hk : k < nodes.length) :
    m.heap.advance k m.root = some (some nodes[k].1) ∧
      m.heap.cell nodes[k].1 =
        some { next := nodes[k + 1]?.map Prod.fst, value := nodes[k].2 } := by
  have hseg := hchain.segment
  rw [← List.take_append_drop k nodes, List.drop_eq_getElem_cons hk] at hseg
  obtain ⟨r, hfront, hrest⟩ := segment_append.mp hseg
  obtain ⟨rfl, next, hcell, hback⟩ := segment_cons_iff.mp hrest
  have hwalk := hfront.advance
  rw [List.length_take, Nat.min_eq_left (Nat.le_of_lt hk)] at hwalk
  rw [← List.head?_drop, ← hback.start]
  exact ⟨hwalk, hcell⟩

theorem linkBehind_take_succ (hk : k < nodes.length) :
    linkBehind (nodes.take (k + 1)) = .next nodes[k].1 := by
  rw [List.take_succ_eq_append_getElem hk, linkBehind_concat]

end Links

end Lib
end ZyxelRouter
