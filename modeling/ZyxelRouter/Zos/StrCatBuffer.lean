import ZyxelRouter.Zos.StrCat

/-!
# Appending a text in its buffer

{lit}`zos_strcat` byte for byte: it walks to the end of what stands in the destination and copies from there
on.  Every read and write is checked against the memory at the pointer, of which the array is the
first part.

Main results:

- Theorem {lit}`strcatFind_eq`: both loops write what the function on texts says, and nothing behind it.
- Theorem {lit}`zosStrcatAt_eq`: the memory behind the array is left alone.
- Theorem {lit}`appendsRight_iff`: the result is wrong only for an empty source and a destination that fills
  its array.
-/

namespace ZyxelRouter
namespace Zos

/-! ## The function -/

/-- Stores a byte; {lit}`none` is a write outside of the memory. -/
def storeByte (mem : List UInt8) (p : Nat) (c : UInt8) : Option (List UInt8) :=
  if p < mem.length then some (mem.set p c) else none

/-- The second loop of {lit}`zos_strcat` and what follows it. -/
def strcatStore (source : List UInt8) : Nat → Nat → Nat → List UInt8 → Option (Int × List UInt8)
  | bufferSize + 2, dst, src, mem =>
      match source[src]? with
      | none => none
      | some c =>
          match storeByte mem dst c with
          | none => none
          | some mem =>
              if c = 0 then some (zosSuccess, mem)
              else strcatStore source (bufferSize + 1) (dst + 1) (src + 1) mem
  | _, dst, src, mem =>
      match storeByte mem dst 0 with
      | none => none
      | some mem =>
          match source[src]? with
          | none => none
          | some c => some (if c ≠ 0 then zosFail else zosSuccess, mem)

/-- The first loop of {lit}`zos_strcat`; a size that is counted down is never zero here. -/
def strcatFind (source : List UInt8) : Nat → Nat → List UInt8 → Option (Int × List UInt8)
  | 0, _, _ => none
  | bufferSize + 1, dst, mem =>
      match mem[dst]? with
      | none => none
      | some c =>
          if c = 0 then strcatStore source (bufferSize + 1) dst 0 mem
          else if bufferSize ≤ 1 then some (zosFail, mem)
          else strcatFind source bufferSize (dst + 1) mem

/-- {lit}`zos_strcat`: the result, and the memory at {lit}`destination`.  Either pointer may be null. -/
def zosStrcatAt (destination source : Option (List UInt8)) (bufferSize : Nat) :
    Option (Int × List UInt8) :=
  match destination, source with
  | some mem, some source =>
      if bufferSize = 0 then some (zosFail, mem) else strcatFind source bufferSize 0 mem
  | mem, _ => some (zosFail, mem.getD [])

/-! ## What it is for -/

/-- An array begins with a text and its terminator. -/
def HoldsText (array text : List UInt8) : Prop :=
  0 ∉ text ∧ ∃ rest, array = text ++ 0 :: rest

/-- The call reports whether both texts fit, leaves both of them or the first part in the array, and touches
nothing behind it. -/
def AppendsRight (array behind source d s : List UInt8) (bufferSize : Nat) : Prop :=
  ∃ ret array', zosStrcatAt (some (array ++ behind)) (some source) bufferSize =
      some (ret, array' ++ behind) ∧
    array'.length = bufferSize ∧
    (ret = zosSuccess ∨ ret = zosFail) ∧
    (ret = zosSuccess ↔ d.length + s.length < bufferSize) ∧
    (ret = zosSuccess → HoldsText array' (d ++ s)) ∧
    (ret ≠ zosSuccess → HoldsText array' ((d ++ s).take (bufferSize - 1)))

/-! ## The loops -/

variable {source s d more front room behind array : List UInt8} {bufferSize : Nat} {b c : UInt8}

theorem storeByte_eq : storeByte (front ++ b :: room) front.length c = some (front ++ c :: room) := by
  rw [storeByte, if_pos (by simp), List.set_append_right _ _ (Nat.le_refl _), Nat.sub_self,
    List.set_cons_zero]

theorem getElem?_behind (front rest : List UInt8) (c : UInt8) :
    (front ++ c :: rest)[front.length]? = some c := by
  rw [List.getElem?_append_right (Nat.le_refl _), Nat.sub_self, List.getElem?_cons_zero]

/-- A buffer has room for more than one byte or for the terminator alone. -/
theorem size_cases (hsize : 0 < bufferSize) : (∃ k, bufferSize = k + 2) ∨ bufferSize = 1 := by
  rcases Nat.lt_or_ge 1 bufferSize with hmore | hlast
  · exact .inl ⟨bufferSize - 2, by omega⟩
  · exact .inr (by omega)

/-- The second loop writes what is appended and a terminator. -/
theorem strcatStore_eq (hs : 0 ∉ s) {done : List UInt8} (hsource : source = done ++ (s ++ 0 :: more))
    (hsize : 0 < bufferSize) (hroom : bufferSize ≤ room.length) :
    strcatStore source bufferSize front.length done.length (front ++ room) =
      some ((strcatCopy s bufferSize).1,
        front ++ (strcatCopy s bufferSize).2 ++
          0 :: room.drop ((strcatCopy s bufferSize).2.length + 1)) := by
  induction s generalizing bufferSize front room done with
  | nil =>
      have hread : source[done.length]? = some 0 := by
        rw [hsource, List.nil_append, getElem?_behind]
      obtain ⟨b, room, rfl⟩ := List.exists_cons_of_length_pos (Nat.lt_of_lt_of_le hsize hroom)
      -- the terminator is copied by the loop, or written behind it
      rcases size_cases hsize with ⟨k, rfl⟩ | rfl
      · simp [strcatStore, hread, storeByte_eq, strcatCopy]
      · simp [strcatStore, hread, storeByte_eq, strcatCopy]
  | cons c s ih =>
      rw [List.mem_cons, not_or] at hs
      have hc : c ≠ 0 := Ne.symm hs.1
      have hread : source[done.length]? = some c := by
        rw [hsource, List.cons_append, getElem?_behind]
      obtain ⟨b, room, rfl⟩ := List.exists_cons_of_length_pos (Nat.lt_of_lt_of_le hsize hroom)
      rw [List.length_cons] at hroom
      rcases size_cases hsize with ⟨k, rfl⟩ | rfl
      · have hfront : front ++ c :: room = (front ++ [c]) ++ room := by simp
        have hdst : front.length + 1 = (front ++ [c]).length := by simp
        have hsrc : done.length + 1 = (done ++ [c]).length := by simp
        rw [strcatStore, hread]
        simp only
        rw [storeByte_eq]
        simp only
        rw [if_neg hc, hfront, hdst, hsrc, ih hs.2 (by rw [hsource]; simp) (Nat.succ_pos k) (by omega)]
        simp [strcatCopy]
      · simp [strcatStore, hread, storeByte_eq, strcatCopy, hc]

/-- Both loops write what the function on texts says, and leave what is behind it. -/
theorem strcatFind_eq (hd : 0 ∉ d) (hs : 0 ∉ s) {rest : List UInt8}
    (hroom : bufferSize ≤ (d ++ 0 :: rest).length) (hlt : d.length < bufferSize) :
    strcatFind (s ++ 0 :: more) bufferSize front.length (front ++ (d ++ 0 :: rest)) =
      some ((strcatSkip d s bufferSize).1,
        front ++ (strcatSkip d s bufferSize).2 ++
          0 :: (d ++ 0 :: rest).drop ((strcatSkip d s bufferSize).2.length + 1)) := by
  obtain ⟨size, rfl⟩ : ∃ size, bufferSize = size + 1 := ⟨bufferSize - 1, by omega⟩
  induction d generalizing size front with
  | nil =>
      have hread := getElem?_behind front rest 0
      have hstart : s ++ 0 :: more = [] ++ (s ++ 0 :: more) := rfl
      rw [strcatFind, List.nil_append, hread]
      simp only [if_true]
      exact strcatStore_eq hs hstart (Nat.succ_pos size) hroom
  | cons c d ih =>
      rw [List.mem_cons, not_or] at hd
      rw [List.length_cons] at hlt
      rw [List.cons_append, List.length_cons] at hroom
      rw [strcatFind, List.cons_append, getElem?_behind]
      simp only
      rw [if_neg (Ne.symm hd.1), strcatSkip, Nat.add_sub_cancel]
      by_cases hfull : size ≤ 1
      · obtain rfl : d = [] := List.eq_nil_of_length_eq_zero (by omega)
        rw [if_pos hfull, if_pos hfull]
        simp
      · obtain ⟨k, rfl⟩ : ∃ k, size = k + 1 := ⟨size - 1, by omega⟩
        have hfront : front ++ c :: (d ++ 0 :: rest) = (front ++ [c]) ++ (d ++ 0 :: rest) := by simp
        have hdst : front.length + 1 = (front ++ [c]).length := by simp
        rw [if_neg hfull, if_neg hfull, hfront, hdst, ih hd.2 k (by omega) (by omega)]
        simp

/-! ## The function -/

theorem HoldsText.length_lt (h : HoldsText array d) : d.length < array.length := by
  obtain ⟨-, rest, rfl⟩ := h
  rw [List.length_append, List.length_cons]
  omega

/-- What is in the buffer leaves room for its terminator. -/
theorem length_zosStrcat_lt (h : d.length < bufferSize) :
    (zosStrcat d s bufferSize).2.length < bufferSize := by
  rw [zosStrcat_eq_take h, List.length_take]
  omega

/-- In an array with other memory behind it the call writes what the function on texts says. -/
theorem zosStrcatAt_eq (hd : HoldsText array d) (hs : HoldsText source s) (behind : List UInt8) :
    zosStrcatAt (some (array ++ behind)) (some source) array.length =
      some ((zosStrcat d s array.length).1,
        ((zosStrcat d s array.length).2 ++
          0 :: array.drop ((zosStrcat d s array.length).2.length + 1)) ++ behind) := by
  have hlt := hd.length_lt
  have htext := length_zosStrcat_lt (s := s) hlt
  obtain ⟨hd, rest, rfl⟩ := hd
  obtain ⟨hs, more, rfl⟩ := hs
  have hne : (d ++ 0 :: rest).length ≠ 0 := by omega
  have hskip : zosStrcat d s (d ++ 0 :: rest).length = strcatSkip d s (d ++ 0 :: rest).length := by
    rw [zosStrcat, if_neg hne]
  have hbehind : d ++ 0 :: rest ++ behind = [] ++ (d ++ 0 :: (rest ++ behind)) := by simp
  have hroom : (d ++ 0 :: rest).length ≤ (d ++ 0 :: (rest ++ behind)).length := by
    simp only [List.length_append, List.length_cons]
    omega
  rw [hskip] at htext ⊢
  rw [zosStrcatAt, if_neg hne, hbehind]
  have hloops := @strcatFind_eq s d more [] _ hd hs _ hroom hlt
  refine hloops.trans ?_
  have hdrop : d ++ 0 :: (rest ++ behind) = (d ++ 0 :: rest) ++ behind := by simp
  rw [hdrop, List.drop_append_of_le_length htext]
  simp

/-! ## When the result is right -/

/-- The array is always left as it should be, so only what is reported matters. -/
theorem appendsRight_iff_reports (hd : HoldsText array d) (hs : HoldsText source s) :
    AppendsRight array behind source d s array.length ↔
      ((zosStrcat d s array.length).1 = zosSuccess ↔ d.length + s.length < array.length) := by
  have hlt := hd.length_lt
  have hcall := zosStrcatAt_eq hd hs behind
  have hlen := length_zosStrcat_lt (s := s) hlt
  have hzero : 0 ∉ d ++ s := by
    rw [List.mem_append, not_or]
    exact ⟨hd.1, hs.1⟩
  constructor
  · rintro ⟨ret, array', hsame, -, -, hreports, -⟩
    rw [hcall, Option.some.injEq, Prod.mk.injEq] at hsame
    rw [hsame.1]
    exact hreports
  · intro hreports
    refine ⟨_, _, hcall, ?_, zosStrcat_reports d s _, hreports, fun hok => ?_, fun _ => ?_⟩
    · rw [List.length_append, List.length_cons, List.length_drop]
      omega
    · rw [zosStrcat_of_fits (hreports.mp hok)]
      exact ⟨hzero, _, rfl⟩
    · rw [zosStrcat_eq_take hlt]
      exact ⟨fun hmem => hzero (List.mem_of_mem_take hmem), _, rfl⟩

/-- The call does what it should exactly if not an empty text is appended to one that fills its array. -/
theorem appendsRight_iff (hd : HoldsText array d) (hs : HoldsText source s)
    (hsize : array.length = bufferSize) :
    AppendsRight array behind source d s bufferSize ↔
      ¬ (d ≠ [] ∧ d.length + 1 = bufferSize ∧ s = []) := by
  subst hsize
  have hlt := hd.length_lt
  rw [appendsRight_iff_reports hd hs, zosStrcat_success_iff hlt]
  constructor
  · rintro hreports ⟨hne, hfull, rfl⟩
    obtain ⟨hnil | hroom, -⟩ := hreports.mpr (by simpa using hlt)
    · exact hne hnil
    · omega
  · intro hroom
    refine and_iff_right_of_imp fun hfits => ?_
    by_contra hfull
    rw [not_or] at hfull
    exact hroom ⟨hfull.1, by omega, List.eq_nil_of_length_eq_zero (by omega)⟩

/-- A text in an array with room for another byte. -/
theorem appendsRight_room :
    AppendsRight [97, 0, 7] [1, 2] [98, 0] [97] [98] 3 :=
  have hd : HoldsText [97, 0, 7] [97] := ⟨by decide, [7], rfl⟩
  have hs : HoldsText [98, 0] [98] := ⟨by decide, [], rfl⟩
  (appendsRight_iff hd hs rfl).mpr (by decide)

/-- Nothing is appended to a full array, and reported as a failure. -/
theorem nothing_appended_fails :
    HoldsText [97, 0] [97] ∧ HoldsText [0] [] ∧ ¬ AppendsRight [97, 0] [] [0] [97] [] 2 := by
  have hd : HoldsText [97, 0] [97] := ⟨by decide, [], rfl⟩
  have hs : HoldsText [0] [] := ⟨by decide, [], rfl⟩
  refine ⟨hd, hs, ?_⟩
  rintro ⟨ret, array', hcall, -, -, hreports, -⟩
  have hret : ret = zosFail := by
    have hrun : zosStrcatAt (some [97, 0]) (some [0]) 2 = some (zosFail, [97, 0]) := by decide
    have hsame := hrun.symm.trans hcall
    rw [Option.some.injEq, Prod.mk.injEq] at hsame
    exact hsame.1.symm
  exact zosFail_ne_zosSuccess (hret.symm.trans (hreports.mpr (by decide)))

end Zos
end ZyxelRouter
