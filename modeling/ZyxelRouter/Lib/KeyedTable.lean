import Mathlib.Data.List.Nodup
import Mathlib.Data.List.Basic

/-!
# Tables with keys

Rows with distinct keys, in an order of their own, with the operations of a store: read, replace,
remove and add a row.

Main results:

- Theorem {lit}`KeyedTable.get_eq_some_iff`: a key is read as the value of its row.
- Theorems {lit}`KeyedTable.mem_put_iff`, {lit}`KeyedTable.mem_del_iff`, {lit}`KeyedTable.mem_add_iff`: the
  rows after an operation.
- Theorems {lit}`KeyedTable.allPairs_put_iff`, {lit}`KeyedTable.AllPairs.add`: relations between rows.
- Theorem {lit}`KeyedTable.countP_put`: how many values there are of a kind.
- Theorem {lit}`KeyedTable.mem_relocate_iff`: rows that are moved to keys of their own are all there.
- Theorems {lit}`KeyedTable.count_contents_put`, {lit}`KeyedTable.count_contents_del`: how often something is
  contained in the values.
-/

namespace ZyxelRouter
namespace Lib

/-- Rows with distinct keys. -/
structure KeyedTable (K α : Type) where
  rows : List (K × α)
  nodup : (rows.map Prod.fst).Nodup

namespace KeyedTable

variable {K α : Type}

@[ext]
theorem ext {s t : KeyedTable K α} (h : s.rows = t.rows) : s = t := by
  cases s
  cases t
  simpa using h

variable [DecidableEq K]

/-- The value of a key. -/
def get (t : KeyedTable K α) (k : K) : Option α :=
  (t.rows.find? (fun row => row.1 = k)).map Prod.snd

/-- Replaces the value of a key that is there. -/
def put (t : KeyedTable K α) (k : K) (a : α) : KeyedTable K α where
  rows := t.rows.map (fun row => if row.1 = k then (row.1, a) else row)
  nodup := by
    have hfst : Prod.fst ∘ (fun row : K × α => if row.1 = k then (row.1, a) else row) = Prod.fst := by
      funext row
      by_cases h : row.1 = k <;> simp [h]
    rw [List.map_map, hfst]
    exact t.nodup

/-- Removes a row. -/
def del (t : KeyedTable K α) (k : K) : KeyedTable K α where
  rows := t.rows.filter (fun row => row.1 ≠ k)
  nodup := (List.filter_sublist.map Prod.fst).nodup t.nodup

omit [DecidableEq K] in
theorem fresh_nodup {t : KeyedTable K α} {k : K} (hk : k ∉ t.rows.map Prod.fst) (a : α) :
    ((t.rows ++ [(k, a)]).map Prod.fst).Nodup := by
  rw [List.map_append, List.nodup_append]
  refine ⟨t.nodup, by simp, ?_⟩
  intro k' hk' k'' hk'' heq
  obtain rfl : k'' = k := by simpa using hk''
  exact hk (heq ▸ hk')

/-- Adds a row with a key of its own. -/
def add (t : KeyedTable K α) (k : K) (a : α) (hk : k ∉ t.rows.map Prod.fst) : KeyedTable K α where
  rows := t.rows ++ [(k, a)]
  nodup := fresh_nodup hk a

/-- Adds a row with a key of its own in front of the last rows. -/
def insert (t : KeyedTable K α) (behind : Nat) (k : K) (a : α) (hk : k ∉ t.rows.map Prod.fst) :
    KeyedTable K α where
  rows := t.rows.take (t.rows.length - behind) ++ (k, a) :: t.rows.drop (t.rows.length - behind)
  nodup := by
    have hperm : (t.rows.take (t.rows.length - behind) ++
        (k, a) :: t.rows.drop (t.rows.length - behind)).Perm ((k, a) :: t.rows) := by
      conv_rhs => rw [← List.take_append_drop (t.rows.length - behind) t.rows]
      exact List.perm_middle
    exact (hperm.map Prod.fst).nodup_iff.mpr (List.nodup_cons.mpr ⟨hk, t.nodup⟩)

omit [DecidableEq K] in
theorem insert_zero {t : KeyedTable K α} {k : K} (a : α) (hk : k ∉ t.rows.map Prod.fst) :
    t.insert 0 k a hk = t.add k a hk := by
  apply ext
  change t.rows.take (t.rows.length - 0) ++ (k, a) :: t.rows.drop (t.rows.length - 0) =
    t.rows ++ [(k, a)]
  rw [Nat.sub_zero, List.take_length, List.drop_length]

/-! ## The rows after an operation -/

omit [DecidableEq K] in
/-- Rows with one key are one row. -/
theorem eq_of_mem {t : KeyedTable K α} {k : K} {a b : α} (ha : (k, a) ∈ t.rows)
    (hb : (k, b) ∈ t.rows) : a = b := by
  have heq := List.inj_on_of_nodup_map t.nodup ha hb rfl
  simpa using heq

theorem get_eq_some_iff {t : KeyedTable K α} {k : K} {a : α} :
    t.get k = some a ↔ (k, a) ∈ t.rows := by
  rw [get]
  constructor
  · intro h
    obtain ⟨row, hrow, rfl⟩ := Option.map_eq_some_iff.mp h
    have hkey : row.1 = k := by simpa using List.find?_some hrow
    exact hkey ▸ List.mem_of_find?_eq_some hrow
  · intro h
    cases hfind : t.rows.find? (fun row => row.1 = k) with
    | none => exact absurd (List.find?_eq_none.mp hfind (k, a) h) (by simp)
    | some row =>
        have hkey : row.1 = k := by simpa using List.find?_some hfind
        have hmem : (k, row.2) ∈ t.rows := hkey ▸ List.mem_of_find?_eq_some hfind
        rw [Option.map_some, eq_of_mem hmem h]

theorem mem_put_iff {t : KeyedTable K α} {k : K} {a : α} {row : K × α} :
    row ∈ (t.put k a).rows ↔
      (row ∈ t.rows ∧ row.1 ≠ k) ∨ (row = (k, a) ∧ ∃ b, (k, b) ∈ t.rows) := by
  rw [put, List.mem_map]
  constructor
  · rintro ⟨old, hold, rfl⟩
    by_cases hkey : old.1 = k
    · right
      simp only [hkey, if_true, true_and]
      exact ⟨old.2, hkey ▸ hold⟩
    · left
      simpa [hkey] using hold
  · rintro (⟨hrow, hkey⟩ | ⟨rfl, b, hb⟩)
    · exact ⟨row, hrow, by simp [hkey]⟩
    · exact ⟨(k, b), hb, by simp⟩

theorem mem_del_iff {t : KeyedTable K α} {k : K} {row : K × α} :
    row ∈ (t.del k).rows ↔ row ∈ t.rows ∧ row.1 ≠ k := by
  simp [del]

omit [DecidableEq K] in
theorem mem_add_iff {t : KeyedTable K α} {k : K} {a : α} {hk : k ∉ t.rows.map Prod.fst}
    {row : K × α} : row ∈ (t.add k a hk).rows ↔ row ∈ t.rows ∨ row = (k, a) := by
  simp [add]

omit [DecidableEq K] in
theorem key_ne_of_fresh {t : KeyedTable K α} {k : K} (hk : k ∉ t.rows.map Prod.fst) {row : K × α}
    (hrow : row ∈ t.rows) : row.1 ≠ k := by
  intro heq
  exact hk (heq ▸ List.mem_map_of_mem hrow)

/-- A row that is added and removed again leaves no trace. -/
theorem del_add {t : KeyedTable K α} {k : K} {a : α} (hk : k ∉ t.rows.map Prod.fst) :
    (t.add k a hk).del k = t := by
  apply ext
  change (t.rows ++ [(k, a)]).filter (fun row => row.1 ≠ k) = t.rows
  rw [List.filter_append]
  have hkeep : t.rows.filter (fun row => row.1 ≠ k) = t.rows := by
    rw [List.filter_eq_self]
    intro row hrow
    simpa using key_ne_of_fresh hk hrow
  rw [hkeep]
  simp

/-- A row that is added and replaced. -/
theorem put_add {t : KeyedTable K α} {k : K} {a b : α} (hk : k ∉ t.rows.map Prod.fst) :
    (t.add k a hk).put k b = t.add k b hk := by
  apply ext
  change (t.rows ++ [(k, a)]).map (fun row => if row.1 = k then (row.1, b) else row) =
    t.rows ++ [(k, b)]
  rw [List.map_append]
  have hkeep : t.rows.map (fun row => if row.1 = k then (row.1, b) else row) = t.rows := by
    conv_rhs => rw [← List.map_id t.rows]
    apply List.map_congr_left
    intro row hrow
    simp [key_ne_of_fresh hk hrow]
  rw [hkeep]
  simp

theorem get_add {t : KeyedTable K α} {k : K} {a : α} (hk : k ∉ t.rows.map Prod.fst) :
    (t.add k a hk).get k = some a :=
  get_eq_some_iff.mpr (mem_add_iff.mpr (Or.inr rfl))

/-! ## Relations between rows -/

/-- A relation between the values of any two rows. -/
def AllPairs (t : KeyedTable K α) (R : α → α → Prop) : Prop :=
  ∀ r ∈ t.rows, ∀ s ∈ t.rows, r.1 ≠ s.1 → R r.2 s.2

variable {R : α → α → Prop}

theorem AllPairs.del {t : KeyedTable K α} (h : t.AllPairs R) (k : K) : (t.del k).AllPairs R := by
  intro r hr s hs hne
  exact h r (mem_del_iff.mp hr).1 s (mem_del_iff.mp hs).1 hne

omit [DecidableEq K] in
theorem AllPairs.add {t : KeyedTable K α} (h : t.AllPairs R) (hsymm : ∀ a b, R a b → R b a) {k : K}
    {a : α} (hk : k ∉ t.rows.map Prod.fst) (hnew : ∀ row ∈ t.rows, R a row.2) :
    (t.add k a hk).AllPairs R := by
  intro r hr s hs hne
  rcases mem_add_iff.mp hr with hr | rfl
  · rcases mem_add_iff.mp hs with hs | rfl
    · exact h r hr s hs hne
    · exact hsymm _ _ (hnew r hr)
  · rcases mem_add_iff.mp hs with hs | rfl
    · exact hnew s hs
    · exact absurd rfl hne

/-- Only the pairs with the new value matter. -/
theorem allPairs_put_iff {t : KeyedTable K α} (h : t.AllPairs R) (hsymm : ∀ a b, R a b → R b a)
    {k : K} {a b : α} (hb : (k, b) ∈ t.rows) :
    (t.put k a).AllPairs R ↔ ∀ row ∈ t.rows, row.1 ≠ k → R a row.2 := by
  constructor
  · intro hall row hrow hne
    exact hall (k, a) (mem_put_iff.mpr (Or.inr ⟨rfl, b, hb⟩)) row
      (mem_put_iff.mpr (Or.inl ⟨hrow, hne⟩)) hne.symm
  · intro hnew r hr s hs hne
    rcases mem_put_iff.mp hr with ⟨hr, hrk⟩ | ⟨rfl, -⟩
    · rcases mem_put_iff.mp hs with ⟨hs, -⟩ | ⟨rfl, -⟩
      · exact h r hr s hs hne
      · exact hsymm _ _ (hnew r hr hrk)
    · rcases mem_put_iff.mp hs with ⟨hs, hsk⟩ | ⟨rfl, -⟩
      · exact hnew s hs hsk
      · exact absurd rfl hne

omit [DecidableEq K] in
theorem allPairs_add_iff {t : KeyedTable K α} (h : t.AllPairs R) (hsymm : ∀ a b, R a b → R b a)
    {k : K} {a : α} (hk : k ∉ t.rows.map Prod.fst) :
    (t.add k a hk).AllPairs R ↔ ∀ row ∈ t.rows, R a row.2 := by
  constructor
  · intro hall row hrow
    exact hall (k, a) (mem_add_iff.mpr (Or.inr rfl)) row (mem_add_iff.mpr (Or.inl hrow))
      (key_ne_of_fresh hk hrow).symm
  · exact h.add hsymm hk

omit [DecidableEq K] in
/-- The order of the rows does not matter. -/
theorem AllPairs.congr {s t : KeyedTable K α} (h : ∀ row, row ∈ s.rows ↔ row ∈ t.rows) :
    s.AllPairs R ↔ t.AllPairs R := by
  simp only [AllPairs, h]

/-! ## Counting rows -/

/-- The row of a key is replaced where it is. -/
theorem put_rows {t : KeyedTable K α} {k : K} {b : α} (hb : (k, b) ∈ t.rows) (a : α) :
    ∃ front back, t.rows = front ++ (k, b) :: back ∧
      (t.put k a).rows = front ++ (k, a) :: back := by
  obtain ⟨front, back, hrows⟩ := List.append_of_mem hb
  refine ⟨front, back, hrows, ?_⟩
  have hnodup := t.nodup
  rw [hrows, List.map_append, List.map_cons, List.nodup_append] at hnodup
  obtain ⟨-, hback, hfront⟩ := hnodup
  have hkeep : ∀ rows : List (K × α), (∀ row ∈ rows, row.1 ≠ k) →
      rows.map (fun row => if row.1 = k then (row.1, a) else row) = rows := by
    intro rows hne
    conv_rhs => rw [← List.map_id rows]
    apply List.map_congr_left
    intro row hrow
    simp [hne row hrow]
  change t.rows.map (fun row => if row.1 = k then (row.1, a) else row) = _
  rw [hrows, List.map_append, List.map_cons, if_pos rfl, hkeep front, hkeep back]
  · intro row hrow heq
    have hmem : row.1 ∈ back.map Prod.fst := List.mem_map_of_mem hrow
    rw [heq] at hmem
    exact (List.nodup_cons.mp hback).1 hmem
  · intro row hrow
    exact hfront row.1 (List.mem_map_of_mem hrow) k List.mem_cons_self

/-- Replacing a value changes how many values there are of a kind only by the two values. -/
theorem countP_put {t : KeyedTable K α} {k : K} {b : α} (hb : (k, b) ∈ t.rows) (a : α)
    (p : α → Bool) :
    (t.put k a).rows.countP (fun row => p row.2) + (if p b then 1 else 0) =
      t.rows.countP (fun row => p row.2) + (if p a then 1 else 0) := by
  obtain ⟨front, back, hrows, hput⟩ := put_rows hb a
  rw [hput, hrows, List.countP_append, List.countP_append, List.countP_cons, List.countP_cons]
  simp only
  omega

theorem countP_del_le {t : KeyedTable K α} {k : K} (p : K × α → Bool) :
    (t.del k).rows.countP p ≤ t.rows.countP p :=
  List.filter_sublist.countP_le

/-! ## Changing all values -/

/-- The table with a function applied to each value. -/
def map {β : Type} (f : α → β) (t : KeyedTable K α) : KeyedTable K β where
  rows := t.rows.map (fun row => (row.1, f row.2))
  nodup := by
    rw [List.map_map]
    exact t.nodup

/-! ## Moving rows to other keys -/

/-- No rows. -/
def empty : KeyedTable K α where
  rows := []
  nodup := List.nodup_nil

/-- Sets the value of a key, whether it is there or not. -/
def set (t : KeyedTable K α) (k : K) (a : α) : KeyedTable K α :=
  if hk : k ∈ t.rows.map Prod.fst then t.put k a else t.add k a hk

theorem mem_set_iff {t : KeyedTable K α} {k : K} {a : α} {row : K × α} :
    row ∈ (t.set k a).rows ↔ (row ∈ t.rows ∧ row.1 ≠ k) ∨ row = (k, a) := by
  unfold set
  by_cases hk : k ∈ t.rows.map Prod.fst
  · obtain ⟨old, hold, rfl⟩ := List.mem_map.mp hk
    rw [dif_pos hk, mem_put_iff]
    have hthere : ∃ b, (old.1, b) ∈ t.rows := ⟨old.2, hold⟩
    simp only [hthere, and_true]
  · rw [dif_neg hk, mem_add_iff]
    constructor
    · rintro (hrow | rfl)
      · exact Or.inl ⟨hrow, key_ne_of_fresh hk hrow⟩
      · exact Or.inr rfl
    · rintro (⟨hrow, -⟩ | rfl)
      · exact Or.inl hrow
      · exact Or.inr rfl

/-- Sets each row under the key it is moved to, one after the other; rows without such a key are left
out. -/
def relocate {J : Type} (dest : J → Option K) :
    List (J × α) → KeyedTable K α → KeyedTable K α
  | [], t => t
  | (j, a) :: rows, t =>
      match dest j with
      | none => relocate dest rows t
      | some k => relocate dest rows (t.set k a)

/-- If no two rows are moved to one key, none is lost. -/
theorem mem_relocate_iff {J : Type} {dest : J → Option K} {row : K × α} :
    ∀ {rows : List (J × α)} {t : KeyedTable K α},
      rows.Pairwise (fun r s => ∀ k, dest r.1 = some k → dest s.1 ≠ some k) →
      (∀ r ∈ rows, ∀ s ∈ t.rows, dest r.1 ≠ some s.1) →
      (row ∈ (relocate dest rows t).rows ↔
        row ∈ t.rows ∨ ∃ j, (j, row.2) ∈ rows ∧ dest j = some row.1) := by
  intro rows
  induction rows with
  | nil =>
      intro t _ _
      simp [relocate]
  | cons first rows ih =>
      intro t hpair hfresh
      obtain ⟨j, a⟩ := first
      have hhead := (List.pairwise_cons.mp hpair).1
      have htail := (List.pairwise_cons.mp hpair).2
      have hrest := fun r hr => hfresh r (List.mem_cons_of_mem _ hr)
      cases hdest : dest j with
      | none =>
          rw [relocate]
          simp only [hdest]
          rw [ih htail hrest]
          constructor
          · rintro (hrow | ⟨i, hi, hto⟩)
            · exact Or.inl hrow
            · exact Or.inr ⟨i, List.mem_cons_of_mem _ hi, hto⟩
          · rintro (hrow | ⟨i, hi, hto⟩)
            · exact Or.inl hrow
            · rcases List.mem_cons.mp hi with heq | hi
              · rw [(Prod.mk.inj heq).1, hdest] at hto
                exact absurd hto (by simp)
              · exact Or.inr ⟨i, hi, hto⟩
      | some k =>
          have hfree : ∀ s ∈ t.rows, s.1 ≠ k := by
            intro s hs heq
            exact hfresh (j, a) List.mem_cons_self s hs (by rw [hdest, heq])
          have hnext : ∀ r ∈ rows, ∀ s ∈ (t.set k a).rows, dest r.1 ≠ some s.1 := by
            intro r hr s hs
            rcases mem_set_iff.mp hs with ⟨hs, -⟩ | rfl
            · exact hrest r hr s hs
            · exact hhead r hr k hdest
          rw [relocate]
          simp only [hdest]
          rw [ih htail hnext, mem_set_iff]
          constructor
          · rintro ((⟨hrow, -⟩ | rfl) | ⟨i, hi, hto⟩)
            · exact Or.inl hrow
            · exact Or.inr ⟨j, List.mem_cons_self, hdest⟩
            · exact Or.inr ⟨i, List.mem_cons_of_mem _ hi, hto⟩
          · rintro (hrow | ⟨i, hi, hto⟩)
            · exact Or.inl (Or.inl ⟨hrow, hfree row hrow⟩)
            · rcases List.mem_cons.mp hi with heq | hi
              · obtain ⟨rfl, hvalue⟩ := Prod.mk.inj heq
                rw [hdest] at hto
                exact Or.inl (Or.inr (Prod.ext (Option.some.inj hto).symm hvalue))
              · exact Or.inr ⟨i, hi, hto⟩

/-! ## Reading behind an operation -/

theorem get_set (t : KeyedTable K α) (k : K) (a : α) (k' : K) :
    (t.set k a).get k' = if k' = k then some a else t.get k' := by
  ext b
  rw [get_eq_some_iff, mem_set_iff, Prod.mk.injEq]
  by_cases hk : k' = k
  · rw [if_pos hk, Option.some.injEq]
    constructor
    · rintro (⟨-, hne⟩ | ⟨-, rfl⟩)
      · exact absurd hk hne
      · rfl
    · rintro rfl
      exact Or.inr ⟨hk, rfl⟩
  · rw [if_neg hk, get_eq_some_iff, or_iff_left (fun h => hk h.1), and_iff_left hk]

theorem get_del (t : KeyedTable K α) (k k' : K) :
    (t.del k).get k' = if k' = k then none else t.get k' := by
  ext b
  rw [get_eq_some_iff, mem_del_iff]
  by_cases hk : k' = k
  · rw [if_pos hk]
    exact iff_of_false (fun h => h.2 hk) (by simp)
  · rw [if_neg hk, get_eq_some_iff, and_iff_left hk]

/-- Without its row nothing is removed. -/
theorem del_of_get_eq_none {t : KeyedTable K α} {k : K} (h : t.get k = none) : t.del k = t := by
  apply ext
  change t.rows.filter (fun row => row.1 ≠ k) = t.rows
  rw [List.filter_eq_self]
  intro row hrow
  have hne : row.1 ≠ k := by
    rintro rfl
    have hget : t.get row.1 = some row.2 := get_eq_some_iff.mpr hrow
    rw [h] at hget
    cases hget
  simpa using hne

/-! ## What the values contain -/

section Contents

variable {β : Type} [BEq β]

/-- The lists of all values. -/
def contents (f : α → List β) (t : KeyedTable K α) : List β :=
  t.rows.flatMap (fun row => f row.2)

omit [DecidableEq K] in
theorem count_contents_add {t : KeyedTable K α} {k : K} {a : α} (hk : k ∉ t.rows.map Prod.fst)
    (f : α → List β) (x : β) :
    ((t.add k a hk).contents f).count x = (t.contents f).count x + (f a).count x := by
  rw [contents, add, List.flatMap_append, List.count_append, contents]
  simp

/-- A value that is replaced takes its list away. -/
theorem count_contents_put {t : KeyedTable K α} {k : K} {a b : α} (hb : t.get k = some b)
    (f : α → List β) (x : β) :
    ((t.put k a).contents f).count x + (f b).count x = (t.contents f).count x + (f a).count x := by
  obtain ⟨front, back, hrows, hput⟩ := put_rows (get_eq_some_iff.mp hb) a
  rw [contents, contents, hput, hrows]
  simp only [List.flatMap_append, List.flatMap_cons, List.count_append]
  omega

/-- A value that is removed takes its list away. -/
theorem count_contents_del {t : KeyedTable K α} {k : K} {b : α} (hb : t.get k = some b)
    (f : α → List β) (x : β) :
    ((t.del k).contents f).count x + (f b).count x = (t.contents f).count x := by
  obtain ⟨front, back, hrows⟩ := List.append_of_mem (get_eq_some_iff.mp hb)
  have hdel : (t.del k).rows = front ++ back := by
    have hnodup := t.nodup
    rw [hrows, List.map_append, List.map_cons, List.nodup_append] at hnodup
    obtain ⟨-, hback, hfront⟩ := hnodup
    change t.rows.filter (fun row => row.1 ≠ k) = front ++ back
    rw [hrows, List.filter_append, List.filter_cons_of_neg (by simp), List.filter_eq_self.mpr,
      List.filter_eq_self.mpr]
    · intro row hrow
      have hmem : row.1 ∈ back.map Prod.fst := List.mem_map_of_mem hrow
      have hne : row.1 ≠ k := by
        rintro rfl
        exact (List.nodup_cons.mp hback).1 hmem
      simpa using hne
    · intro row hrow
      simpa using hfront row.1 (List.mem_map_of_mem hrow) k List.mem_cons_self
  rw [contents, contents, hdel, hrows]
  simp only [List.flatMap_append, List.flatMap_cons, List.count_append]
  omega

end Contents

end KeyedTable
end Lib
end ZyxelRouter
