import Mathlib.Data.List.TakeWhile
import ZyxelRouter.ZcmdTool.Layout

/-!
# JSON to struct and back

A request accepted by {lit}`zcmdJStringToStruct` comes out of
{lit}`zcmdStructToJString` unchanged wherever the schema can represent it.  The
members never overlap, because the cursor only moves forward, so each value is
read from the bytes that were stored for it.

Main results:

- Theorem {lit}`loadedValue_storedBytes`: one stored value reads back.
- Theorem {lit}`fillStruct_collectMembers`: the two loops, run one after the other
  over the same parameters.
- Theorem {lit}`zcmdStructToJString_zcmdJStringToStruct`: the whole round trip.
-/

namespace ZyxelRouter
namespace ZcmdTool

open Lib StructLayout

variable {jc : JsonC} {p : ParameterInfo} {v : JValue} {bytes : List UInt8}

/-! ## One value -/

/-- The values a parameter can hold: booleans, integers of its width and sign below
2^63, and NUL-free strings that fit its array. -/
def Representable (p : ParameterInfo) : JValue → Prop
  | .boolean _ => p.type = .boolean
  | .int i =>
      (p.type = .int ∧ -(2 ^ (8 * p.len - 1)) ≤ i ∧ i < 2 ^ (8 * p.len - 1)) ∨
      (p.type.isUnsigned = true ∧ 0 ≤ i ∧ i < 2 ^ (8 * p.len) ∧ i < 2 ^ 63)
  | .string s => p.type.isText = true ∧ (0 : UInt8) ∉ s ∧ s.length ≤ p.len
  | _ => False

theorem cstr_length_le (s : List UInt8) : (cstr s).length ≤ s.length :=
  (List.takeWhile_sublist _).length_le

/-- A string without NUL is its own C string. -/
theorem cstr_append_zero {s t : List UInt8} (h : (0 : UInt8) ∉ s) :
    cstr (s ++ 0 :: t) = s := by
  have hall : ∀ b ∈ s, decide (b ≠ 0) = true := by
    intro b hb
    have : b ≠ 0 := fun h0 => h (h0 ▸ hb)
    simpa using this
  rw [cstr, List.takeWhile_append_of_pos hall]
  simp

theorem cstr_self {s : List UInt8} (h : (0 : UInt8) ∉ s) : cstr s = s := by
  have hall : ∀ b ∈ s, decide (b ≠ 0) = true := by
    intro b hb
    have : b ≠ 0 := fun h0 => h (h0 ▸ hb)
    simpa using this
  exact List.takeWhile_eq_self_iff.mpr hall

/-- The widths of integer members. -/
abbrev IntegerLen (len : Nat) : Prop :=
  len = 1 ∨ len = 2 ∨ len = 4 ∨ len = 8

theorem storedInteger_eq (i : Int) {len : Nat} (hlen : IntegerLen len) :
    storedInteger i len = leBytes len (wordOf len i) := by
  rcases hlen with rfl | rfl | rfl | rfl <;> rfl

theorem leNat_storedInteger (i : Int) {len : Nat} (hlen : IntegerLen len) :
    leNat (storedInteger i len) = wordOf len i := by
  rw [storedInteger_eq i hlen, leNat_leBytes]
  exact Nat.mod_eq_of_lt (wordOf_lt len i)

/-- The bounds of a member width in bits and in bytes. -/
theorem integerLen_bounds {len : Nat} (hlen : IntegerLen len) :
    (256 : Int) ^ len = 2 * 2 ^ (8 * len - 1) ∧ (256 : Int) ^ len = 2 ^ (8 * len) ∧
      (2 : Int) ^ (8 * len - 1) ≤ 2 ^ 63 := by
  rcases hlen with rfl | rfl | rfl | rfl <;> norm_num

/-- A value in the {lit}`int64_t` range is kept by {lit}`json_object_new_int`. -/
theorem jsonObjectNewInt_of_range {i : Int} (hlo : -(2 ^ 63) ≤ i) (hhi : i < 2 ^ 63) :
    jsonObjectNewInt i = .int i := by
  have hw : signedOf 8 (wordOf 8 i) = i := by
    apply signedOf_wordOf
    · norm_num at hlo ⊢
      omega
    · norm_num at hhi ⊢
      omega
  rw [jsonObjectNewInt, hw]

/-- A value in the {lit}`int64_t` range is returned by {lit}`json_object_get_int`. -/
theorem jsonObjectGetInt_of_lt {i : Int} (hhi : i < 2 ^ 63) :
    jsonObjectGetInt jc (.int i) = i := by
  show (if i ≥ int64Max then int64Max else i) = i
  have hmax : int64Max = 2 ^ 63 - 1 := rfl
  split_ifs <;> omega

/-- The stored bytes fill the member exactly. -/
theorem length_storedBytes (hp : p.WellTyped) (h : storedBytes jc p v = .ok bytes) :
    bytes.length = p.len := by
  obtain ⟨name, type, len⟩ := p
  rcases hp with ⟨htype, hlen⟩ | ⟨hint, hlen⟩ | ⟨htext, -⟩
  · simp only at htype hlen
    subst htype hlen
    cases h
    rfl
  · have hstored : storedBytes jc ⟨name, type, len⟩ v =
        .ok (storedInteger (jsonObjectGetInt jc v) len) := by
      cases type <;> first
        | rfl
        | simp [ParameterInfo.isInteger, ParamType.isUnsigned] at hint
    rw [hstored] at h
    cases h
    rw [storedInteger_eq _ hlen, length_leBytes]
  · have hstored : storedBytes jc ⟨name, type, len⟩ v =
        if (cstr (jsonObjectGetString jc v)).length ≤ len then
          .ok (storedText (jsonObjectGetString jc v) len)
        else .error .invalidParamValueLength := by
      cases type <;> first | rfl | simp [ParamType.isText] at htext
    rw [hstored] at h
    split at h
    · cases h
      simp only [storedText, List.length_take, List.length_append, List.length_replicate]
      omega
    · cases h

/-- Storing a signed integer of the parameter's width and reading it back. -/
theorem readSigned_storedInteger {buf : List UInt8} {pos len : Nat} {i : Int}
    (hlen : IntegerLen len) (hread : readAt buf pos len = storedInteger i len)
    (hlo : -(2 ^ (8 * len - 1)) ≤ i) (hhi : i < 2 ^ (8 * len - 1)) :
    readSigned buf pos len = .int i := by
  obtain ⟨hwidth, -, hmax⟩ := integerLen_bounds hlen
  have hword : signedOf len (leNat (storedInteger i len)) = i := by
    rw [leNat_storedInteger i hlen]
    exact signedOf_wordOf (by omega) (by omega)
  have hcase : readSigned buf pos len =
      jsonObjectNewInt (signedOf len (leNat (readAt buf pos len))) := by
    rcases hlen with rfl | rfl | rfl | rfl <;> rfl
  rw [hcase, hread, hword]
  exact jsonObjectNewInt_of_range (by omega) (by omega)

/-- Storing an unsigned integer of the parameter's width and reading it back. -/
theorem readUnsigned_storedInteger {buf : List UInt8} {pos len : Nat} {i : Int}
    (hlen : IntegerLen len) (hread : readAt buf pos len = storedInteger i len)
    (hlo : 0 ≤ i) (hhi : i < 2 ^ (8 * len)) (hmax : i < 2 ^ 63) :
    readUnsigned buf pos len = .int i := by
  obtain ⟨-, hwidth, -⟩ := integerLen_bounds hlen
  have hword : (leNat (storedInteger i len) : Int) = i := by
    rw [leNat_storedInteger i hlen]
    exact wordOf_of_nonneg hlo (by omega)
  have hcase : readUnsigned buf pos len =
      jsonObjectNewInt (leNat (readAt buf pos len)) := by
    rcases hlen with rfl | rfl | rfl | rfl <;> rfl
  rw [hcase, hread, hword]
  exact jsonObjectNewInt_of_range (by omega) hmax

/-- A stored NUL-free string that fits its array reads back. -/
theorem cstr_storedText {s : List UInt8} {len : Nat} (hnul : (0 : UInt8) ∉ s)
    (hlen : s.length ≤ len) : cstr (storedText s len ++ [0]) = s := by
  have hfull : (s ++ List.replicate (len - s.length) 0).length = len := by
    simp only [List.length_append, List.length_replicate]
    omega
  have htext : storedText s len = s ++ List.replicate (len - s.length) 0 := by
    rw [storedText, cstr_self hnul]
    exact List.take_of_length_le hfull.le
  have hzeros : List.replicate (len - s.length) (0 : UInt8) ++ [0] =
      0 :: List.replicate (len - s.length) 0 := by
    rw [← List.replicate_succ', List.replicate_succ]
  rw [htext, List.append_assoc, hzeros, cstr_append_zero hnul]

/-- Integer parameters have an integer width. -/
theorem integerLen_of_isInteger (hp : p.WellTyped) (hint : p.isInteger = true) :
    IntegerLen p.len := by
  obtain ⟨name, type, len⟩ := p
  rcases hp with ⟨h, -⟩ | ⟨-, h⟩ | ⟨h, -⟩
  · simp only at h
    subst h
    simp [ParameterInfo.isInteger, ParamType.isUnsigned] at hint
  · exact h
  · cases type <;> simp [ParamType.isText] at h <;>
      simp [ParameterInfo.isInteger, ParamType.isUnsigned] at hint

/-- A representable value reads back from the bytes stored for it. -/
theorem loadedValue_storedBytes {buf : List UInt8} {pos : Nat} (hp : p.WellTyped)
    (hstored : storedBytes jc p v = .ok bytes) (hread : readAt buf pos p.len = bytes)
    (hv : Representable p v) : loadedValue p buf pos = some v := by
  obtain ⟨name, type, len⟩ := p
  cases v with
  | boolean b =>
      have htype : type = .boolean := hv
      subst htype
      cases hstored
      have hlen : len = 1 := by
        rcases hp with h | ⟨h, -⟩ | ⟨h, -⟩
        · exact h.2
        · simp [ParameterInfo.isInteger, ParamType.isUnsigned] at h
        · simp [ParamType.isText] at h
      subst hlen
      simp only [loadedValue, hread]
      cases b <;> rfl
  | int i =>
      rcases hv with ⟨htype, hlo, hhi⟩ | ⟨htype, hlo, hhi, hmax⟩
      · simp only at htype
        subst htype
        have hl := integerLen_of_isInteger hp rfl
        have hsmall := (integerLen_bounds hl).2.2
        cases hstored
        dsimp only at hl hlo hhi hsmall hread
        rw [jsonObjectGetInt_of_lt (by omega)] at hread
        exact congrArg some (readSigned_storedInteger hl hread hlo hhi)
      · have hl := integerLen_of_isInteger hp (by simp [ParameterInfo.isInteger, htype])
        have hbytes : bytes = storedInteger i len := by
          have hget : jsonObjectGetInt jc (.int i) = i := jsonObjectGetInt_of_lt hmax
          rw [← hget]
          cases type <;> simp [ParamType.isUnsigned] at htype <;> cases hstored <;> rfl
        rw [hbytes] at hread
        have hval := readUnsigned_storedInteger hl hread hlo hhi hmax
        cases type <;> simp [ParamType.isUnsigned] at htype <;> exact congrArg some hval
  | string s =>
      obtain ⟨htype, hnul, hlen⟩ := hv
      have hbytes : bytes = storedText s len := by
        have hfit : (cstr s).length ≤ len := (cstr_length_le s).trans hlen
        cases type <;> simp [ParamType.isText] at htype <;>
          simp only [storedBytes, jsonObjectGetString, hfit, if_true] at hstored <;>
          cases hstored <;> rfl
      rw [hbytes] at hread
      have hval : cstr (readAt buf pos len ++ [0]) = s := by
        rw [hread]
        exact cstr_storedText hnul hlen
      cases type <;> simp [ParamType.isText] at htype <;>
        exact congrArg (some ∘ JValue.string) hval
  | null => cases hv
  | object members => cases hv
  | other b i => cases hv

/-! ## The two loops -/

/-- The members collected for a parameter list, without the accumulator. -/
def loadedMembers (target64 : Bool) (objStruct : List UInt8) :
    Cursor → List ParameterInfo → List (String × JValue)
  | _, [] => []
  | c, p :: ps =>
      ((loadedValue p objStruct (jStringToStructPlace target64 c p).1).map (p.name, ·)).toList ++
        loadedMembers target64 objStruct (jStringToStructPlace target64 c p).2 ps

/-- A well-typed parameter always yields a member, never a null one. -/
theorem loadedValue_isSome (hp : p.WellTyped) (objStruct : List UInt8) (pos : Nat) :
    ∃ w, loadedValue p objStruct pos = some w ∧ w ≠ .null := by
  obtain ⟨name, type, len⟩ := p
  have hnew : ∀ i, jsonObjectNewInt i ≠ .null := fun _ h => JValue.noConfusion h
  cases type with
  | boolean => exact ⟨_, rfl, by simp⟩
  | int =>
      refine ⟨_, rfl, ?_⟩
      unfold readSigned
      split_ifs <;> exact hnew _
  | ulong | uint32 | uint16 | uint8 =>
      refine ⟨_, rfl, ?_⟩
      unfold readUnsigned
      split_ifs <;> exact hnew _
  | string | time | base64 | hex => exact ⟨_, rfl, by simp⟩
  | other =>
      simp [ParameterInfo.WellTyped, ParameterInfo.isInteger, ParamType.isUnsigned,
        ParamType.isText] at hp

theorem loadedMembers_names {ps : List ParameterInfo} (hps : ∀ p ∈ ps, p.WellTyped)
    (target64 : Bool) (objStruct : List UInt8) (c : Cursor) :
    (loadedMembers target64 objStruct c ps).map (·.1) = ps.map (·.name) := by
  induction ps generalizing c with
  | nil => rfl
  | cons p ps ih =>
      obtain ⟨w, hw, -⟩ := loadedValue_isSome (hps p List.mem_cons_self) objStruct
        (jStringToStructPlace target64 c p).1
      have hrest := ih (fun q hq => hps q (List.mem_cons_of_mem p hq))
        (jStringToStructPlace target64 c p).2
      simp [loadedMembers, hw, hrest]

/-- With distinct names every {lit}`json_object_object_add` appends. -/
theorem collectMembers_eq {ps : List ParameterInfo} (hps : ∀ p ∈ ps, p.WellTyped)
    (target64 : Bool) (objStruct : List UInt8) (c : Cursor)
    (members : List (String × JValue))
    (hnodup : (members.map (·.1) ++ ps.map (·.name)).Nodup) :
    collectMembers target64 objStruct c ps members =
      members ++ loadedMembers target64 objStruct c ps := by
  induction ps generalizing c members with
  | nil => simp [collectMembers, loadedMembers]
  | cons p ps ih =>
      obtain ⟨w, hw, -⟩ := loadedValue_isSome (hps p List.mem_cons_self) objStruct
        (jStringToStructPlace target64 c p).1
      have hfresh : members.any (fun m => m.1 = p.name) = false := by
        rw [List.nodup_append] at hnodup
        rw [List.any_eq_false]
        intro m hm
        have hne := hnodup.2.2 m.1 (List.mem_map_of_mem hm) p.name (by simp)
        simpa using hne
      have hadd : jsonObjectObjectAdd members p.name w = members ++ [(p.name, w)] := by
        simp [jsonObjectObjectAdd, hfresh]
      have hnext := ih (fun q hq => hps q (List.mem_cons_of_mem p hq))
        (jStringToStructPlace target64 c p).2 (members ++ [(p.name, w)])
        (by simpa using hnodup)
      simp only [collectMembers, loadedMembers, structToJStringPlace_eq, hw, hadd, hnext,
        Option.map_some, Option.toList_some, List.append_assoc]

/-- Every parameter finds its value, and what is read back equals it if the
parameter can represent it. -/
def Kept (jobj : JValue) (objStruct : List UInt8) (pos : Nat) (p : ParameterInfo) : Prop :=
  ∃ v, jsonObjectObjectGet jobj p.name = some v ∧
    (Representable p v → loadedValue p objStruct pos = some v)

/-- The parameters at the offsets of a cursor are all kept. -/
def AllKept (target64 : Bool) (jobj : JValue) (objStruct : List UInt8) :
    Cursor → List ParameterInfo → Prop
  | _, [] => True
  | c, p :: ps =>
      Kept jobj objStruct (jStringToStructPlace target64 c p).1 p ∧
        AllKept target64 jobj objStruct (jStringToStructPlace target64 c p).2 ps

theorem pos_le_endPos {ps : List ParameterInfo} (hps : ∀ p ∈ ps, p.WellTyped)
    (target64 : Bool) (c : Cursor) : c.pos ≤ endPos target64 c ps := by
  induction ps generalizing c with
  | nil => exact le_rfl
  | cons p ps ih =>
      have hbounds := place_bounds (hps p List.mem_cons_self) target64 c
      have hrest := ih (fun q hq => hps q (List.mem_cons_of_mem p hq))
        (jStringToStructPlace target64 c p).2
      simp only [endPos]
      omega

/-- Filling keeps what lies below the cursor and every value it stores. -/
theorem fillStruct_collectMembers {ps : List ParameterInfo}
    (hps : ∀ p ∈ ps, p.WellTyped) {target64 : Bool} {jobj : JValue} {c : Cursor}
    {buf objStruct : List UInt8} (hfits : endPos target64 c ps ≤ buf.length)
    (hfill : fillStruct target64 jc jobj c ps buf = .ok objStruct) :
    objStruct.take c.pos = buf.take c.pos ∧ AllKept target64 jobj objStruct c ps := by
  induction ps generalizing c buf with
  | nil =>
      cases hfill
      exact ⟨rfl, trivial⟩
  | cons p ps ih =>
      have hp := hps p List.mem_cons_self
      have hrest := fun q hq => hps q (List.mem_cons_of_mem p hq)
      obtain ⟨hstart, hend⟩ := place_bounds hp target64 c
      have hroom := pos_le_endPos hrest target64 (jStringToStructPlace target64 c p).2
      simp only [endPos] at hfits
      simp only [fillStruct] at hfill
      split at hfill
      · cases hfill
      · rename_i v hget
        split at hfill
        · cases hfill
        · rename_i bytes hstored
          have hlen := length_storedBytes hp hstored
          have hin : (jStringToStructPlace target64 c p).1 + bytes.length ≤ buf.length := by
            omega
          obtain ⟨htake, hkept⟩ := ih hrest (by rw [length_writeAt hin]; exact hfits) hfill
          refine ⟨?_, ⟨v, hget, fun hv => ?_⟩, hkept⟩
          · -- The prefix below the cursor survives both this copy and the rest.
            have hcut := congrArg (List.take c.pos) htake
            rw [List.take_take, List.take_take, Nat.min_eq_left (by omega)] at hcut
            rw [hcut]
            exact take_writeAt hstart (by omega)
          · refine loadedValue_storedBytes hp hstored ?_ hv
            have hsame : readAt _ (jStringToStructPlace target64 c p).1 p.len = readAt _ _ _ :=
              readAt_congr_of_take htake (by omega)
            rw [hsame, ← hlen]
            exact readAt_writeAt_self (by omega)

/-- Kept values are found in the collected object. -/
theorem lookup_loadedMembers {ps : List ParameterInfo} (hps : ∀ p ∈ ps, p.WellTyped)
    (hnodup : (ps.map (·.name)).Nodup) {target64 : Bool} {jobj : JValue}
    {objStruct : List UInt8} {c : Cursor} (hkept : AllKept target64 jobj objStruct c ps) :
    ∀ p ∈ ps, ∃ v, jsonObjectObjectGet jobj p.name = some v ∧
      (Representable p v →
        (loadedMembers target64 objStruct c ps).lookup p.name = some v) := by
  induction ps generalizing c with
  | nil => simp
  | cons q ps ih =>
      obtain ⟨⟨v, hget, hload⟩, hrest⟩ := hkept
      obtain ⟨w, hw, -⟩ := loadedValue_isSome (hps q List.mem_cons_self) objStruct
        (jStringToStructPlace target64 c q).1
      rw [List.map_cons, List.nodup_cons] at hnodup
      have htail := ih (fun r hr => hps r (List.mem_cons_of_mem q hr)) hnodup.2 hrest
      intro p hp
      rcases List.mem_cons.mp hp with rfl | hp
      · refine ⟨v, hget, fun hv => ?_⟩
        simp [loadedMembers, hload hv]
      · obtain ⟨u, hu, hlookup⟩ := htail p hp
        refine ⟨u, hu, fun hr => ?_⟩
        have hne : (p.name == q.name) = false := by
          rw [beq_eq_false_iff_ne]
          intro heq
          exact hnodup.1 (heq ▸ List.mem_map_of_mem hp)
        simp only [loadedMembers, hw, Option.map_some, Option.toList_some, List.cons_append,
          List.nil_append, List.lookup_cons, hne]
        exact hlookup hr

/-! ## The round trip -/

/-- Whatever {lit}`zcmdJStringToStruct` accepts, {lit}`zcmdStructToJString` prints an
object with exactly the schema's names in which every representable parameter has
the value it had in the request. -/
theorem zcmdStructToJString_zcmdJStringToStruct (target64 : Bool) (jc : JsonC)
    (obj : ObjInfo) (jstr objStruct : List UInt8)
    (h : zcmdJStringToStruct target64 jc obj jstr = .ok objStruct) :
    ∃ jobj members,
      jc.tokenerParse jstr = some jobj ∧
      zcmdStructToJString target64 jc obj objStruct = jc.toJsonString (.object members) ∧
      members.map (·.1) = obj.params.map (·.name) ∧
      ∀ p ∈ obj.params, ∃ v, jsonObjectObjectGet jobj p.name = some v ∧
        (Representable p v → jsonObjectObjectGet (.object members) p.name = some v) := by
  unfold zcmdJStringToStruct at h
  split at h
  · cases h
  · rename_i jobj hparse
    have hfits : endPos target64 .start obj.params ≤ (List.replicate obj.size (0 : UInt8)).length := by
      rw [List.length_replicate]
      exact (endPos_le_endOffset target64 obj.wellTyped Cursor.start_tight le_rfl).trans
        obj.structFits
    obtain ⟨-, hkept⟩ := fillStruct_collectMembers obj.wellTyped hfits h
    have hmembers := collectMembers_eq obj.wellTyped target64 objStruct .start []
      (by simpa using obj.namesNodup)
    refine ⟨jobj, loadedMembers target64 objStruct .start obj.params, hparse, ?_,
      loadedMembers_names obj.wellTyped target64 objStruct .start, ?_⟩
    · rw [zcmdStructToJString, zcmdStructToJObject, hmembers, List.nil_append]
    · intro p hp
      obtain ⟨v, hget, hlookup⟩ :=
        lookup_loadedMembers obj.wellTyped obj.namesNodup hkept p hp
      refine ⟨v, hget, fun hv => ?_⟩
      have hfound := hlookup hv
      cases v with
      | null => cases hv
      | boolean | int | string | object | other => simp only [jsonObjectObjectGet, hfound]

/-- The bytes of an ASCII text. -/
def ascii (s : String) : List UInt8 :=
  s.toList.map fun ch => UInt8.ofNat ch.toNat

/-- A request for the object with an enable flag and a port. -/
def portRequest : List UInt8 :=
  ascii "\x7b \"Enable\": true, \"Port\": 80 \x7d"

/-- json-c on that request: it parses to the two members, and their object prints as
the same text. -/
def portJsonC : JsonC where
  tokenerParse s :=
    if s = portRequest then
      some (.object [("Enable", .boolean true), ("Port", .int 80)])
    else none
  toJsonString _ := portRequest
  parseInt64 _ := none

/-- The port request is stored as four bytes and comes back with both values. -/
theorem portRequest_roundTrip :
    zcmdJStringToStruct true portJsonC shortAfterBoolean portRequest = .ok [1, 80, 0, 0] ∧
    ∃ jobj members,
      portJsonC.tokenerParse portRequest = some jobj ∧
      zcmdStructToJString true portJsonC shortAfterBoolean [1, 80, 0, 0] =
        portJsonC.toJsonString (.object members) ∧
      members.map (·.1) = shortAfterBoolean.params.map (·.name) ∧
      ∀ p ∈ shortAfterBoolean.params, ∃ v, jsonObjectObjectGet jobj p.name = some v ∧
        (Representable p v → jsonObjectObjectGet (.object members) p.name = some v) :=
  ⟨rfl, zcmdStructToJString_zcmdJStringToStruct true portJsonC shortAfterBoolean
    portRequest [1, 80, 0, 0] rfl⟩

end ZcmdTool
end ZyxelRouter
