import Mathlib.Data.List.Basic
import Mathlib.Logic.Function.Basic

/-!
# Undo logs replayed in order

A store maps targets to values.  While a list of assignments is carried out, an
undo log records the value each target had just before its assignment.  Replaying
the log in the order it was written is a rollback only as long as no target was
assigned twice with a change in between; this module says exactly when.

Main results:

- Theorem {lit}`replay_of_split`: after the replay a target has the value it had
  before its last assignment.
- Theorem {lit}`replay_eq_iff`: the replay restores a target exactly when no earlier
  assignment to it had changed it.
-/

namespace ZyxelRouter
namespace Lib
namespace UndoLog

variable {T V : Type} [DecidableEq T] {f : T → V} {t : T} {v w : V}
  {l pre mid post : List (T × V)}

/-- Carry out a list of assignments from left to right. -/
def assign (f : T → V) (l : List (T × V)) : T → V :=
  l.foldl (fun g s => Function.update g s.1 s.2) f

/-- The values the targets had just before their assignments, in the same order. -/
def undo : (T → V) → List (T × V) → List (T × V)
  | _, [] => []
  | f, s :: l => (s.1, f s.1) :: undo (Function.update f s.1 s.2) l

/-- The store after the assignments and the in-order replay of their undo log. -/
def replay (f : T → V) (l : List (T × V)) : T → V :=
  assign (assign f l) (undo f l)

theorem assign_append (f : T → V) (l m : List (T × V)) :
    assign f (l ++ m) = assign (assign f l) m :=
  List.foldl_append

theorem undo_append (f : T → V) (l m : List (T × V)) :
    undo f (l ++ m) = undo f l ++ undo (assign f l) m := by
  induction l generalizing f with
  | nil => rfl
  | cons s l ih => simp only [List.cons_append, undo, ih, assign, List.foldl_cons]

@[simp]
theorem undo_targets (f : T → V) (l : List (T × V)) :
    (undo f l).map (·.1) = l.map (·.1) := by
  induction l generalizing f with
  | nil => rfl
  | cons s l ih => simp [undo, ih]

/-- A target that is not assigned keeps its value. -/
theorem assign_of_notMem (h : t ∉ l.map (·.1)) : assign f l t = f t := by
  induction l generalizing f with
  | nil => rfl
  | cons s l ih =>
      rw [List.map_cons, List.mem_cons, not_or] at h
      have hrest : assign f (s :: l) t = assign (Function.update f s.1 s.2) l t := rfl
      rw [hrest, ih h.2, Function.update_of_ne h.1]

/-- The last assignment to a target decides its value. -/
theorem assign_of_split (h : t ∉ post.map (·.1)) :
    assign f (pre ++ (t, v) :: post) t = v := by
  have hsplit : assign f (pre ++ (t, v) :: post) =
      assign (Function.update (assign f pre) t v) post := assign_append f pre _
  rw [hsplit, assign_of_notMem h, Function.update_self]

/-- The value of an assigned target is one that it was assigned. -/
theorem assign_mem (h : t ∈ l.map (·.1)) : (t, assign f l t) ∈ l := by
  induction l generalizing f with
  | nil => simp at h
  | cons s l ih =>
      have hrest : assign f (s :: l) t = assign (Function.update f s.1 s.2) l t := rfl
      rw [hrest]
      by_cases hl : t ∈ l.map (·.1)
      · exact List.mem_cons_of_mem s (ih hl)
      · obtain rfl : t = s.1 := (List.mem_cons.mp h).resolve_right hl
        rw [assign_of_notMem hl, Function.update_self]
        exact List.mem_cons_self

/-- The value of an assigned target does not depend on the store before. -/
theorem assign_congr_of_mem {g : T → V} (h : t ∈ l.map (·.1)) :
    assign f l t = assign g l t := by
  induction l generalizing f g with
  | nil => simp at h
  | cons s l ih =>
      by_cases hl : t ∈ l.map (·.1)
      · exact ih hl
      · have hs : t = s.1 := by
          rw [List.map_cons, List.mem_cons] at h
          exact h.resolve_right hl
        have hstep : ∀ k : T → V, assign k (s :: l) t = s.2 := by
          intro k
          have hcons : assign k (s :: l) t = assign (Function.update k s.1 s.2) l t := rfl
          rw [hcons, assign_of_notMem hl, hs, Function.update_self]
        rw [hstep, hstep]

/-- An assigned target has a last assignment. -/
theorem exists_last_split (h : t ∈ l.map (·.1)) :
    ∃ pre v post, l = pre ++ (t, v) :: post ∧ t ∉ post.map (·.1) := by
  induction l with
  | nil => simp at h
  | cons s l ih =>
      by_cases hl : t ∈ l.map (·.1)
      · obtain ⟨pre, v, post, rfl, hpost⟩ := ih hl
        exact ⟨s :: pre, v, post, rfl, hpost⟩
      · have hs : t = s.1 := by
          rw [List.map_cons, List.mem_cons] at h
          exact h.resolve_right hl
        exact ⟨[], s.2, l, by rw [hs]; rfl, hl⟩

/-- The replay gives a target the value it had before its last assignment. -/
theorem replay_of_split (h : t ∉ post.map (·.1)) :
    replay f (pre ++ (t, w) :: post) t = assign f pre t := by
  have hundo : undo f (pre ++ (t, w) :: post) =
      undo f pre ++ (t, assign f pre t) ::
        undo (Function.update (assign f pre) t w) post := undo_append f pre _
  rw [replay, hundo]
  exact assign_of_split (by rwa [undo_targets])

/-- A target assigned at least twice whose last-but-one assignment changed it. -/
def Clobbered (f : T → V) (l : List (T × V)) (t : T) : Prop :=
  ∃ pre v mid w post, l = pre ++ (t, v) :: (mid ++ (t, w) :: post) ∧
    t ∉ mid.map (·.1) ∧ t ∉ post.map (·.1) ∧ v ≠ f t

omit [DecidableEq T] in
/-- Only assigned targets are clobbered. -/
theorem Clobbered.mem (h : Clobbered f l t) : t ∈ l.map (·.1) := by
  obtain ⟨pre, v, mid, w, post, rfl, -⟩ := h
  simp

/-- The replay restores a target exactly when it is not clobbered. -/
theorem replay_eq_iff : replay f l t = f t ↔ ¬ Clobbered f l t := by
  constructor
  · rintro heq ⟨pre, v, mid, w, post, rfl, hmid, hpost, hne⟩
    have hsplit : pre ++ (t, v) :: (mid ++ (t, w) :: post) =
        (pre ++ (t, v) :: mid) ++ (t, w) :: post := by simp
    rw [hsplit, replay_of_split hpost, assign_of_split hmid] at heq
    exact hne heq
  · intro hclob
    by_cases hl : t ∈ l.map (·.1)
    · obtain ⟨pre, w, post, rfl, hpost⟩ := exists_last_split hl
      rw [replay_of_split hpost]
      by_cases hpre : t ∈ pre.map (·.1)
      · obtain ⟨pre', v, mid, rfl, hmid⟩ := exists_last_split hpre
        rw [assign_of_split hmid]
        by_contra hne
        exact hclob ⟨pre', v, mid, w, post, by simp, hmid, hpost, hne⟩
      · exact assign_of_notMem hpre
    · rw [replay, assign_of_notMem (by rwa [undo_targets]), assign_of_notMem hl]

end UndoLog
end Lib
end ZyxelRouter
