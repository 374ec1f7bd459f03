import ZyxelRouter.FeDal.RdmAcl

/-!
# The indices of a query

The handler of queries cuts the text between the brackets of a request out into a buffer, with a terminator
that is set where the closing bracket stood, and {lit}`iidStr2ObjIid` stores its numbers until one of them is
zero.

Main results:

- Theorem {lit}`iidLoop_eq_none_iff`: a number is stored behind the indices if there are seven and the first
  six are not zero.
- Theorem {lit}`HasIndices.loop`: the indices are the numbers in front of the first zero.
- Theorem {lit}`iidRight_iff`: when a request stays inside of the buffers and its numbers become the indices.
-/

namespace ZyxelRouter
namespace FeDal

open Lib FeString

variable {V : Type}

/-! ## Numbers and indices -/

/-- The numbers of a text. -/
def iidNumbers (iid : List Char) : List Int :=
  (commaTokens iid).map atoi

/-- The indices of an object, and their number. -/
structure HasIndices (objIid : ObjIndex) (numbers : List Int) : Prop where
  level : objIid.level.toNat = numbers.length
  idx : objIid.idx.map (fun i => (i.toNat : Int)) =
    numbers ++ List.replicate (supportedIndexLevel - numbers.length) 0

/-- There are more than six numbers, and none of the first six is stored as zero. -/
def SevenIndices (iid : List Char) : Prop :=
  supportedIndexLevel < (commaTokens iid).length ∧
    ∀ p ∈ (commaTokens iid).take supportedIndexLevel, idxOf p ≠ 0

theorem HasIndices.zero : HasIndices ObjIndex.zero [] where
  level := rfl
  idx := rfl

/-- A byte is stored as it is. -/
theorem toNat_idxOf {p : List Char} (hlo : 0 ≤ atoi p) (hhi : atoi p ≤ 255) :
    ((idxOf p).toNat : Int) = atoi p := by
  rw [idxOf, UInt8.toNat_ofNat']
  omega

/-! ## The loop -/

/-- One more index is stored. -/
theorem HasIndices.store {objIid : ObjIndex} {numbers : List Int} {p : List Char}
    (h : HasIndices objIid numbers) (hroom : numbers.length < supportedIndexLevel)
    (hlo : 0 ≤ atoi p) (hhi : atoi p ≤ 255) (hne : atoi p ≠ 0) :
    HasIndices (storeIdx objIid numbers.length (idxOf p)) (numbers ++ [atoi p]) := by
  have hvalue := toNat_idxOf hlo hhi
  have hidx : idxOf p ≠ 0 := by
    intro hzero
    rw [hzero] at hvalue
    exact hne hvalue.symm
  obtain ⟨k, hk⟩ : ∃ k, supportedIndexLevel - numbers.length = k + 1 :=
    Nat.exists_eq_succ_of_ne_zero (by omega)
  constructor
  · rw [storeIdx, if_pos hidx, List.length_append, List.length_singleton, UInt8.toNat_ofNat']
    rw [supportedIndexLevel] at hroom
    omega
  · have hrest : supportedIndexLevel - (numbers ++ [atoi p]).length = k := by
      rw [List.length_append, List.length_singleton]
      omega
    rw [storeIdx, List.map_set, h.idx, List.set_append_right _ _ (Nat.le_refl _), Nat.sub_self, hk,
      List.replicate_succ, List.set_cons_zero, hvalue, hrest]
    simp

/-- A zero changes nothing. -/
theorem HasIndices.store_zero {objIid : ObjIndex} {numbers : List Int} {p : List Char}
    (h : HasIndices objIid numbers) (hroom : numbers.length < supportedIndexLevel)
    (hzero : idxOf p = 0) :
    HasIndices (storeIdx objIid numbers.length (idxOf p)) numbers := by
  obtain ⟨k, hk⟩ : ∃ k, supportedIndexLevel - numbers.length = k + 1 :=
    Nat.exists_eq_succ_of_ne_zero (by omega)
  constructor
  · rw [storeIdx, if_neg (by simp [hzero])]
    exact h.level
  · rw [storeIdx, List.map_set, h.idx, List.set_append_right _ _ (Nat.le_refl _), Nat.sub_self, hk,
      List.replicate_succ, List.set_cons_zero, hzero]
    rfl

/-- The indices are the numbers in front of the first zero. -/
theorem HasIndices.loop {tokens : List (List Char)} {objIid objIid' : ObjIndex}
    {numbers : List Int} (h : HasIndices objIid numbers)
    (hrange : ∀ p ∈ tokens, 0 ≤ atoi p ∧ atoi p ≤ 255)
    (hloop : iidLoop numbers.length objIid tokens = some objIid') :
    HasIndices objIid' (numbers ++ (tokens.map atoi).takeWhile (· ≠ 0)) := by
  induction tokens generalizing objIid numbers with
  | nil =>
      rw [iidLoop, Option.some.injEq] at hloop
      subst hloop
      simpa using h
  | cons p rest ih =>
      have hp := hrange p List.mem_cons_self
      have hvalue := toNat_idxOf hp.1 hp.2
      rw [iidLoop] at hloop
      split at hloop
      · cases hloop
      · rename_i hroom
        have hroom : numbers.length < supportedIndexLevel := by omega
        by_cases hpos : 0 < idxOf p
        · rw [if_pos hpos] at hloop
          have hne : atoi p ≠ 0 := by
            intro hzero
            rw [hzero] at hvalue
            have hidx : idxOf p = 0 := UInt8.toNat_inj.mp (by simpa using hvalue)
            rw [hidx] at hpos
            exact absurd hpos (by decide)
          have hstore := h.store hroom hp.1 hp.2 hne
          have hrest := ih hstore (fun q hq => hrange q (List.mem_cons_of_mem p hq))
            (by rwa [List.length_append, List.length_singleton])
          rw [List.map_cons, List.takeWhile_cons_of_pos (by simpa using hne)]
          simpa using hrest
        · rw [if_neg hpos, Option.some.injEq] at hloop
          have hidx : idxOf p = 0 := by
            by_contra hne
            exact hpos (UInt8.pos_iff_ne_zero.mpr hne)
          have hzero : atoi p = 0 := by
            rw [hidx] at hvalue
            simpa using hvalue.symm
          rw [List.map_cons, List.takeWhile_cons_of_neg (by simp [hzero]), List.append_nil, ← hloop]
          exact h.store_zero hroom hidx

/-- A number is stored behind the indices exactly if there is a seventh one and all in front of it are stored
as others than zero. -/
theorem iidLoop_eq_none_iff {tokens : List (List Char)} {n : Nat} (objIid : ObjIndex)
    (hn : n ≤ supportedIndexLevel) :
    iidLoop n objIid tokens = none ↔ supportedIndexLevel < n + tokens.length ∧
      ∀ p ∈ tokens.take (supportedIndexLevel - n), idxOf p ≠ 0 := by
  induction tokens generalizing n objIid with
  | nil =>
      apply iff_of_false
      · simp [iidLoop]
      · intro h
        rw [List.length_nil] at h
        omega
  | cons p rest ih =>
      rw [iidLoop]
      by_cases hfull : supportedIndexLevel ≤ n
      · rw [if_pos hfull, Nat.sub_eq_zero_of_le hfull, List.take_zero, List.length_cons]
        apply iff_of_true rfl
        constructor
        · omega
        · exact fun q hq => absurd hq List.not_mem_nil
      · obtain ⟨k, hk⟩ : ∃ k, supportedIndexLevel - n = k + 1 :=
          Nat.exists_eq_succ_of_ne_zero (by omega)
        have hk' : supportedIndexLevel - (n + 1) = k := by omega
        rw [if_neg hfull, hk, List.take_succ_cons, List.forall_mem_cons, List.length_cons]
        by_cases hpos : 0 < idxOf p
        · rw [if_pos hpos, ih (storeIdx objIid n (idxOf p)) (by omega), hk',
            Nat.add_assoc, Nat.add_comm 1]
          have hne := UInt8.pos_iff_ne_zero.mp hpos
          simp [hne]
        · have hidx : idxOf p = 0 := by
            by_contra hne
            exact hpos (UInt8.pos_iff_ne_zero.mpr hne)
          rw [if_neg hpos]
          apply iff_of_false
          · simp
          · rintro ⟨-, hne, -⟩
            exact hne hidx

theorem iidStr2ObjIid_eq_none_iff {iid : List Char} (hlen : iid.length ≤ 30) :
    iidStr2ObjIid iid = none ↔ SevenIndices iid := by
  rw [iidStr2ObjIid, List.take_of_length_le hlen, iidLoop_eq_none_iff _ (Nat.zero_le _), SevenIndices,
    Nat.zero_add, Nat.sub_zero]

/-! ## Requests -/

/-- The indices of a request are read: there are some, and the table allows them. -/
def ReadsIid (rdmObjectACList : List RdmObjectACL) (oid : Nat) (iid : List Char) : Prop :=
  iid ≠ [] ∧ ∃ objACL, retrieveRdmObjectACL rdmObjectACList oid = some objACL ∧
    ∀ list, objACL.iid = some list → zcfgFeDalACLIidAuth list iid = true

/-- A request stays inside of the buffers, and its numbers become the indices. -/
structure IidRight (rdmObjectACList : List RdmObjectACL) (data : RdmData V) (oid : Nat)
    (iidStr : Option (List Char)) : Prop where
  inBounds : zcfgFeDalQueryRdmObjHandler rdmObjectACList data oid iidStr ≠ none
  indices : ReadsIid rdmObjectACList oid (bracketText iidStr) →
    ∃ objIid, iidStr2ObjIid (bracketText iidStr) = some objIid ∧
      ((∀ v ∈ iidNumbers (bracketText iidStr), 0 ≤ v ∧ v ≤ 255) →
        HasIndices objIid ((iidNumbers (bracketText iidStr)).takeWhile (· ≠ 0)))

variable {rdmObjectACList : List RdmObjectACL} {data : RdmData V} {oid : Nat}
  {iidStr : Option (List Char)}

/-- The handler leaves the buffers if the text does not fit, or where the indices are read. -/
theorem handler_eq_none_iff (hlen : (bracketText iidStr).length ≤ 30) :
    zcfgFeDalQueryRdmObjHandler rdmObjectACList data oid iidStr = none ↔
      ReadsIid rdmObjectACList oid (bracketText iidStr) ∧
        iidStr2ObjIid (bracketText iidStr) = none := by
  rw [zcfgFeDalQueryRdmObjHandler, if_neg (by omega), ReadsIid]
  cases hacl : retrieveRdmObjectACL rdmObjectACList oid with
  | none => simp
  | some objACL =>
      by_cases hnil : bracketText iidStr = []
      · simp only [hnil, if_true, ne_eq, not_true, false_and, iff_false]
        split <;> simp
      · have hany : objACL.iid.any (fun iid => !zcfgFeDalACLIidAuth iid (bracketText iidStr)) = true ↔
            ¬ ∀ list, objACL.iid = some list →
              zcfgFeDalACLIidAuth list (bracketText iidStr) = true := by
          cases objACL.iid with
          | none => simp
          | some list => simp
        by_cases hauth : ∀ list, objACL.iid = some list →
            zcfgFeDalACLIidAuth list (bracketText iidStr) = true
        · have hallowed : ¬ objACL.iid.any
              (fun iid => !zcfgFeDalACLIidAuth iid (bracketText iidStr)) = true :=
            fun h => hany.mp h hauth
          simp only [if_neg hnil, if_neg hallowed]
          cases hiid : iidStr2ObjIid (bracketText iidStr) with
          | none =>
              apply iff_of_true rfl
              exact ⟨⟨hnil, objACL, rfl, hauth⟩, rfl⟩
          | some objIid => simp
        · simp only [if_neg hnil, if_pos (hany.mpr hauth)]
          apply iff_of_false
          · simp
          · rintro ⟨⟨-, objACL', hsome, hauth'⟩, -⟩
            rw [Option.some.injEq] at hsome
            exact hauth (hsome ▸ hauth')

/-- A request is right exactly if the text between its brackets fits into the buffer and, where it is read,
does not have a seventh index. -/
theorem iidRight_iff (rdmObjectACList : List RdmObjectACL) (data : RdmData V) (oid : Nat)
    (iidStr : Option (List Char)) :
    IidRight rdmObjectACList data oid iidStr ↔
      (bracketText iidStr).length ≤ 30 ∧
        (ReadsIid rdmObjectACList oid (bracketText iidStr) → ¬ SevenIndices (bracketText iidStr)) := by
  by_cases hlen : (bracketText iidStr).length ≤ 30
  · have hnone := iidStr2ObjIid_eq_none_iff hlen
    have hhandler : zcfgFeDalQueryRdmObjHandler rdmObjectACList data oid iidStr = none ↔
        ReadsIid rdmObjectACList oid (bracketText iidStr) ∧
          iidStr2ObjIid (bracketText iidStr) = none := handler_eq_none_iff hlen
    constructor
    · intro h
      refine ⟨hlen, fun hreads hseven => ?_⟩
      exact h.inBounds (hhandler.mpr ⟨hreads, hnone.mpr hseven⟩)
    · rintro ⟨-, hfew⟩
      constructor
      · intro hout
        obtain ⟨hreads, hiid⟩ := hhandler.mp hout
        exact hfew hreads (hnone.mp hiid)
      · intro hreads
        obtain ⟨objIid, hiid⟩ := Option.ne_none_iff_exists'.mp
          (fun hiid => hfew hreads (hnone.mp hiid))
        refine ⟨objIid, hiid, fun hrange => ?_⟩
        rw [iidStr2ObjIid, List.take_of_length_le hlen] at hiid
        have htokens : ∀ p ∈ commaTokens (bracketText iidStr), 0 ≤ atoi p ∧ atoi p ≤ 255 :=
          fun p hp => hrange (atoi p) (List.mem_map_of_mem hp)
        exact HasIndices.zero.loop htokens hiid
  · apply iff_of_false
    · intro h
      apply h.inBounds
      rw [zcfgFeDalQueryRdmObjHandler, if_pos (by omega)]
    · exact fun h => hlen h.1

/-- A table that allows all instances of an object. -/
def allInstances : List RdmObjectACL :=
  [{ oid := 5, method := 1, iid := none, params := none }]

/-- Seven indices, and a text of 31 characters, are written outside of the buffers. -/
theorem seventh_index :
    zcfgFeDalQueryRdmObjHandler allInstances everyInstance 5 (some "[1,2,3,4,5,6,7]".toList) = none ∧
      zcfgFeDalQueryRdmObjHandler allInstances everyInstance 5
        (some "[1,0,0,0,0,0,0,0,0,0,0,0,0,0,0,0]".toList) = none := by
  decide +kernel

end FeDal
end ZyxelRouter
