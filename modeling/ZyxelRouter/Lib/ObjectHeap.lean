import Mathlib.Data.List.Basic

/-!
# Objects that are allocated and released

A heap of objects named by numbers.  Every allocation gives a new name, so a name stands for one
object for ever and not for an address.  A heap remembers whether an object was released twice
and whether the observed reader read an object that is not live.

Main results:

- Theorem {lit}`foldl_induction`: an invariant of a loop over a list that knows what is left.
-/

namespace ZyxelRouter
namespace Lib

variable {α : Type}

/-- A heap: contents by name, which names are live, and the two faults. -/
structure ObjectHeap (α : Type) where
  get : Nat → α
  live : Nat → Bool
  next : Nat
  doubleFree : Bool
  staleRead : Bool
  live_lt : ∀ r, live r = true → r < next

namespace ObjectHeap

variable {h : ObjectHeap α} {r q : Nat}

/-- No object was ever allocated; {lit}`blank` is what the unused names hold. -/
def empty (blank : α) : ObjectHeap α where
  get := fun _ => blank
  live := fun _ => false
  next := 0
  doubleFree := false
  staleRead := false
  live_lt := by
    intro r hr
    cases hr

/-- Allocate an object under the name {lit}`h.next`. -/
def alloc (h : ObjectHeap α) (v : α) : ObjectHeap α where
  get := fun q => if q = h.next then v else h.get q
  live := fun q => if q = h.next then true else h.live q
  next := h.next + 1
  doubleFree := h.doubleFree
  staleRead := h.staleRead
  live_lt := by
    intro q hq
    by_cases hnext : q = h.next
    · omega
    · rw [if_neg hnext] at hq
      have := h.live_lt q hq
      omega

/-- Release an object. -/
def free (h : ObjectHeap α) (r : Nat) : ObjectHeap α where
  get := h.get
  live := fun q => if q = r then false else h.live q
  next := h.next
  doubleFree := h.doubleFree || !h.live r
  staleRead := h.staleRead
  live_lt := by
    intro q hq
    by_cases hr : q = r
    · simp [hr] at hq
    · rw [if_neg hr] at hq
      exact h.live_lt q hq

/-- The observed reader reads an object. -/
def touch (h : ObjectHeap α) (r : Nat) : ObjectHeap α :=
  { h with staleRead := h.staleRead || !h.live r }

/-- Change the contents of an object. -/
def modify (h : ObjectHeap α) (r : Nat) (f : α → α) : ObjectHeap α :=
  { h with get := fun q => if q = r then f (h.get r) else h.get q }

/-- Neither fault has happened. -/
def NoFault (h : ObjectHeap α) : Prop :=
  h.doubleFree = false ∧ h.staleRead = false

@[simp]
theorem get_alloc_self (v : α) : (h.alloc v).get h.next = v := by
  simp [alloc]

theorem get_alloc_of_ne (v : α) (hq : q ≠ h.next) : (h.alloc v).get q = h.get q := by
  simp [alloc, hq]

@[simp]
theorem live_alloc_self (v : α) : (h.alloc v).live h.next = true := by
  simp [alloc]

theorem live_alloc (v : α) (hq : h.live q = true) : (h.alloc v).live q = true := by
  simp [alloc, hq]

theorem ne_next_of_live (hq : h.live q = true) : q ≠ h.next :=
  Nat.ne_of_lt (h.live_lt q hq)

@[simp]
theorem next_alloc (v : α) : (h.alloc v).next = h.next + 1 := rfl

@[simp]
theorem get_free : (h.free r).get = h.get := rfl

@[simp]
theorem next_free : (h.free r).next = h.next := rfl

theorem live_free_of_ne (hq : q ≠ r) : (h.free r).live q = h.live q := by
  simp [free, hq]

@[simp]
theorem live_free_self : (h.free r).live r = false := by
  simp [free]

@[simp]
theorem get_touch : (h.touch r).get = h.get := rfl

@[simp]
theorem next_touch : (h.touch r).next = h.next := rfl

/-- Reading a live object is no fault. -/
theorem touch_of_live (hr : h.live r = true) : h.touch r = h := by
  cases h
  simp_all [touch]

@[simp]
theorem get_modify_self (f : α → α) : (h.modify r f).get r = f (h.get r) := by
  simp [modify]

theorem get_modify_of_ne (f : α → α) (hq : q ≠ r) : (h.modify r f).get q = h.get q := by
  simp [modify, hq]

@[simp]
theorem live_modify (f : α → α) : (h.modify r f).live = h.live := rfl

@[simp]
theorem next_modify (f : α → α) : (h.modify r f).next = h.next := rfl

theorem NoFault.alloc (hn : h.NoFault) (v : α) : (h.alloc v).NoFault := hn

theorem NoFault.modify (hn : h.NoFault) (r : Nat) (f : α → α) : (h.modify r f).NoFault := hn

theorem NoFault.free (hn : h.NoFault) (hr : h.live r = true) : (h.free r).NoFault :=
  ⟨by simp [ObjectHeap.free, hn.1, hr], hn.2⟩

end ObjectHeap

/-- An invariant of a loop over a list that knows which elements are left. -/
theorem foldl_induction {σ β : Type} {f : σ → β → σ} {P : σ → List β → Prop}
    (step : ∀ s a rest, P s (a :: rest) → P (f s a) rest) :
    ∀ (l : List β) (s : σ), P s l → P (l.foldl f s) [] := by
  intro l
  induction l with
  | nil =>
      intro s hs
      exact hs
  | cons a rest ih =>
      intro s hs
      exact ih (f s a) (step s a rest hs)

end Lib
end ZyxelRouter
