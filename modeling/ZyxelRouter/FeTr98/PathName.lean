import Mathlib.Data.List.Nodup
import ZyxelRouter.FeString.ObjName

/-!
# TR-098 path names

The TR-098 objects have names with placeholders and are numbered in a static table.
{lit}`zcfgFe98SeqnumToName` puts the indices of an instance in place of the placeholders;
{lit}`zcfgFe98NameToSeqnum` reads a path character by character, takes the numbers out and looks for
the name in the table.

Main results:

- Theorem {lit}`parseLoop_components`: the reader works on components, and of two numbers in a row it
  keeps the second as it is.
- Theorem {lit}`tr98Name_roundTrip`: a written name is read back.
-/

namespace ZyxelRouter
namespace FeTr98

open Lib FeString

/-! ## The static name table -/

/-- The names in {lit}`tr98NameObjList`, in the order of their sequence numbers. -/
abbrev NameTable := List (List Char)

/-- {lit}`e_TR98_START`. -/
def eTr98Start : Nat := 100

/-- {lit}`e_TR98_LAST`, one more than the last sequence number. -/
def eTr98Last (table : NameTable) : Nat :=
  eTr98Start + table.length

/-- {lit}`IS_SEQNUM_RIGHT`. -/
def isSeqnumRight (table : NameTable) (seqnum : Nat) : Bool :=
  decide (eTr98Start ≤ seqnum) && decide (seqnum ≤ eTr98Last table)

/-- {lit}`ARRAY_SEQNUM`. -/
def arraySeqnum (seqnum : Nat) : Nat :=
  seqnum - eTr98Start

/-- {lit}`TR98_MAX_OBJ_NAME_LENGTH`. -/
def tr98MaxObjNameLength : Nat := 257

/-- Set one index of an object index. -/
def setIdx (objIid : ObjIndex) (level : Nat) (value : UInt8) : ObjIndex :=
  { objIid with
    idx := objIid.idx.set level value
    idx_length := objIid.length_set level value }

/-! ## From names to sequence numbers -/

/-- The local variables of {lit}`zcfgFe98NameToSeqnum`. -/
structure ParseState where
  subpathname : Bool
  instNumStr : List Char
  pathName : List Char
  pathNameLen : Nat
  level : Nat
  objIid : ObjIndex

/-- {lit}`pathName[pathNameLen++] = c`. -/
def ParseState.put (st : ParseState) (c : Char) : ParseState :=
  { st with
    pathName := writeAt st.pathName st.pathNameLen [c]
    pathNameLen := st.pathNameLen + 1 }

/-- {lit}`strcat` behind the string at a position of a buffer. -/
def strcatAt (buf : List Char) (pos : Nat) (str : List Char) : List Char :=
  buf.take pos ++ strcat (buf.drop pos) str

/-- Whether the next character is a digit; behind the last one is the terminator. -/
def nextIsDigit (rest : List Char) : Bool :=
  rest.head?.any Char.isDigit

/-- One character of the path, with what follows it. -/
def parseChar (st : ParseState) (c : Char) (rest : List Char) : Option ParseState :=
  if c = '.' then
    some ({ st with subpathname := nextIsDigit rest && !st.subpathname }.put c)
  else if st.subpathname then
    if c.isDigit then
      let st := if st.instNumStr = [] then st.put 'i' else st
      let instNumStr := st.instNumStr ++ [c]
      if 5 ≤ instNumStr.length + 1 then none else some { st with instNumStr }
    else if st.instNumStr ≠ [] ∧ st.pathName.getD (st.pathNameLen - 1) nul = 'i' then
      some
        { st with
          subpathname := false
          pathName := strcatAt st.pathName (st.pathNameLen - 1) st.instNumStr
          pathNameLen := st.pathNameLen + (st.instNumStr.length - 1)
          instNumStr := [] }
    else some ({ st with subpathname := false }.put c)
  else some (st.put c)

/-- {lit}`(idx = atoi(instNumStr)) > 255 ? 255 : idx`. -/
def clampIdx (instNumStr : List Char) : UInt8 :=
  if 255 < atoi instNumStr then 255 else UInt8.ofNat (atoi instNumStr).toNat

/-- Store a number as the index of a level, if there is such a level. -/
def storeIdx (objIid : ObjIndex) (level : Nat) (instNumStr : List Char) : ObjIndex :=
  if level < supportedIndexLevel then setIdx objIid level (clampIdx instNumStr) else objIid

/-- The test at the end of a round: a number that is complete is stored. -/
def flushNumber (st : ParseState) (rest : List Char) : ParseState :=
  if (st.subpathname = false ∧ st.instNumStr ≠ []) ∨ (rest = [] ∧ st.instNumStr ≠ []) then
    { st with
      objIid := storeIdx st.objIid st.level st.instNumStr
      level := st.level + 1
      instNumStr := [] }
  else st

/-- The loop over the path. -/
def parseLoop : List Char → ParseState → Option ParseState
  | [], st => some st
  | c :: rest, st =>
      match parseChar st c rest with
      | none => none
      | some st' => parseLoop rest (flushNumber st' rest)

/-- The variables before the loop. -/
def parseInit : ParseState where
  subpathname := false
  instNumStr := []
  pathName := List.replicate tr98MaxObjNameLength nul
  pathNameLen := 0
  level := 0
  objIid := ObjIndex.zero

/-- {lit}`zcfgFe98NameToSeqnum`: the result, {lit}`seqnum` and {lit}`tr98ObjIid`. -/
def zcfgFe98NameToSeqnum (table : NameTable) (tr98PathName : List Char) :
    ZcfgRet × Nat × ObjIndex :=
  if tr98PathName = [] then (.internalError, 0, ObjIndex.zero)
  else
    match parseLoop tr98PathName parseInit with
    | none => (.noSuchObject, 0, ObjIndex.zero)
    | some st =>
        if supportedIndexLevel ≤ st.level then (.noSuchObject, 0, ObjIndex.zero)
        else
          match table.findIdx? (· = stringOf st.pathName) with
          | none => (.noSuchObject, 0, ObjIndex.zero)
          | some n =>
              if isSeqnumRight table (eTr98Start + n) = false then
                (.noSuchObject, 0, ObjIndex.zero)
              else
                (.success, eTr98Start + n, { st.objIid with level := UInt8.ofNat st.level })

/-! ## From sequence numbers to names -/

/-- The loop of {lit}`zcfgFe98SeqnumToName`: the rounds left, the character in front, {lit}`level`,
{lit}`tr98PathNameLen`, the buffer and the rest of the name. -/
def seqnumToNameLoop (objIid : ObjIndex) :
    Nat → Option Char → Nat → Nat → List Char → List Char → Nat × Nat × List Char
  | 0, _, level, len, buf, _ => (level, len, buf)
  | _, _, level, len, buf, [] => (level, len, buf)
  | n + 1, prev, level, len, buf, c :: rest =>
      if level < supportedIndexLevel ∧ isPlaceholder prev c rest = true then
        let instNumStr := decimal (objIid.idx.getD level 0).toNat
        seqnumToNameLoop objIid n (some c) (level + 1) (len + instNumStr.length)
          (strcat buf instNumStr) rest
      else
        seqnumToNameLoop objIid n (some c) level (len + 1) (writeAt buf len [c]) rest

/-- {lit}`zcfgFe98SeqnumToName`: the result and the buffer.  For {lit}`e_TR98_LAST` itself the source
reads behind the table; here this is an error. -/
def zcfgFe98SeqnumToName (table : NameTable) (seqnum : Nat) (objIid : ObjIndex)
    (tr98PathName : List Char) : ZcfgRet × List Char :=
  if isSeqnumRight table seqnum = false then (.internalError, tr98PathName)
  else
    match table[arraySeqnum seqnum]? with
    | none => (.internalError, tr98PathName)
    | some name =>
        let (level, len, buf) :=
          seqnumToNameLoop objIid (tr98MaxObjNameLength - 1) none 0 0 tr98PathName name
        let buf := writeAt buf len [nul]
        if supportedIndexLevel ≤ level then (.noSuchObject, buf) else (.success, buf)

/-- {lit}`zcfgFeTr98ClassNameGet`: the class name, with {lit}`i` for every token of digits behind the
first.  The length of a token is a {lit}`uint16_t`. -/
def zcfgFeTr98ClassNameGet (objName : List Char) : Option (List Char) :=
  if objName.getLast? = some '.' then none
  else
    match tokens objName with
    | [] => none
    | token :: rest =>
        some (token ++ (rest.map (fun token =>
          if allDigits token then placeholder else token)).flatMap ('.' :: ·))

/-! ## The reader on components -/

/-- The state with {lit}`out` read so far and zeros behind it. -/
def ParseState.of (out : List Char) (m : Nat) (subpathname : Bool) (instNumStr : List Char)
    (level : Nat) (objIid : ObjIndex) : ParseState where
  subpathname := subpathname
  instNumStr := instNumStr
  pathName := out ++ List.replicate m nul
  pathNameLen := out.length
  level := level
  objIid := objIid

section Reader

variable {out rest : List Char} {m level : Nat} {sub : Bool} {inst : List Char} {objIid : ObjIndex}

theorem put_of (c : Char) : (ParseState.of out m sub inst level objIid).put c =
    ParseState.of (out ++ [c]) (m - 1) sub inst level objIid := by
  simp only [ParseState.put, ParseState.of, writeAt_zeros, List.length_append, List.length_singleton]

theorem flushNumber_nil (rest : List Char) :
    flushNumber (ParseState.of out m sub [] level objIid) rest =
      ParseState.of out m sub [] level objIid := by
  simp [flushNumber, ParseState.of]

/-- Outside of a number, characters are copied up to the next dot. -/
theorem parseLoop_copy :
    ∀ (c out : List Char) (m : Nat),
      '.' ∉ c →
      parseLoop (c ++ rest) (ParseState.of out m false [] level objIid) =
        parseLoop rest (ParseState.of (out ++ c) (m - c.length) false [] level objIid) := by
  intro c
  induction c with
  | nil =>
      intro out m _
      rw [List.nil_append, List.append_nil, List.length_nil, Nat.sub_zero]
  | cons x c ih =>
      intro out m hdot
      rw [List.mem_cons, not_or] at hdot
      have hx : x ≠ '.' := fun heq => hdot.1 heq.symm
      have hstep : parseChar (ParseState.of out m false [] level objIid) x (c ++ rest) =
          some (ParseState.of (out ++ [x]) (m - 1) false [] level objIid) := by
        rw [parseChar, if_neg hx, if_neg (by simp [ParseState.of]), put_of]
      simp only [List.cons_append, parseLoop, hstep, flushNumber_nil]
      rw [ih _ _ hdot.2, List.append_assoc, List.singleton_append, List.length_cons, Nat.sub_sub,
        Nat.add_comm 1]

/-- A dot behind a component that is no number. -/
theorem parseLoop_dot :
    parseLoop ('.' :: rest) (ParseState.of out m false [] level objIid) =
      parseLoop rest (ParseState.of (out ++ ['.']) (m - 1) (nextIsDigit rest) [] level objIid) := by
  have hstep : parseChar (ParseState.of out m false [] level objIid) '.' rest =
      some (ParseState.of (out ++ ['.']) (m - 1) (nextIsDigit rest) [] level objIid) := by
    rw [parseChar, if_pos rfl, ← put_of]
    simp [ParseState.of]
  simp only [parseLoop, hstep, flushNumber_nil]

/-- A dot behind a number: the number is stored, and the next component is no number any more. -/
theorem parseLoop_dot_number (hinst : inst ≠ []) :
    parseLoop ('.' :: rest) (ParseState.of out m true inst level objIid) =
      parseLoop rest (ParseState.of (out ++ ['.']) (m - 1) false [] (level + 1)
        (storeIdx objIid level inst)) := by
  have hstep : parseChar (ParseState.of out m true inst level objIid) '.' rest =
      some (ParseState.of (out ++ ['.']) (m - 1) false inst level objIid) := by
    rw [parseChar, if_pos rfl, ← put_of]
    simp [ParseState.of]
  have hflush : flushNumber (ParseState.of (out ++ ['.']) (m - 1) false inst level objIid) rest =
      ParseState.of (out ++ ['.']) (m - 1) false [] (level + 1) (storeIdx objIid level inst) := by
    rw [flushNumber, if_pos (.inl ⟨rfl, hinst⟩)]
    rfl
  simp only [parseLoop, hstep, hflush]

/-- The digits behind the first one of a number. -/
theorem parseLoop_digits :
    ∀ (ds inst : List Char),
      inst ≠ [] →
      inst.length < 4 →
      (∀ d ∈ ds, d.isDigit = true) →
      (ds = [] → rest ≠ []) →
      parseLoop (ds ++ rest) (ParseState.of out m true inst level objIid) =
        if 4 ≤ (inst ++ ds).length then none
        else if rest = [] then
          some (ParseState.of out m true [] (level + 1) (storeIdx objIid level (inst ++ ds)))
        else parseLoop rest (ParseState.of out m true (inst ++ ds) level objIid) := by
  intro ds
  induction ds with
  | nil =>
      intro inst _ hlen _ hrest
      rw [List.append_nil, List.nil_append, if_neg (by omega), if_neg (hrest rfl)]
  | cons d ds ih =>
      intro inst hinst hlen hds _
      have hd : d.isDigit = true := hds d List.mem_cons_self
      have hdot : d ≠ '.' := by
        rintro rfl
        exact absurd hd (by decide)
      have hstep : parseChar (ParseState.of out m true inst level objIid) d (ds ++ rest) =
          if 4 ≤ (inst ++ [d]).length then none
          else some (ParseState.of out m true (inst ++ [d]) level objIid) := by
        rw [parseChar, if_neg hdot, if_pos (show (ParseState.of out m true inst level objIid).subpathname
          = true from rfl), if_pos hd]
        have hnot : ¬ (ParseState.of out m true inst level objIid).instNumStr = [] := hinst
        simp only [if_neg hnot]
        by_cases hfour : 4 ≤ (inst ++ [d]).length
        · rw [if_pos hfour]
          exact if_pos (Nat.succ_le_succ hfour)
        · rw [if_neg hfour]
          exact if_neg (fun h => hfour (Nat.le_of_succ_le_succ h))
      have hassoc : inst ++ d :: ds = (inst ++ [d]) ++ ds := by simp
      simp only [List.cons_append, parseLoop, hstep]
      by_cases hfour : 4 ≤ (inst ++ [d]).length
      · have hall : 4 ≤ (inst ++ d :: ds).length := by
          rw [hassoc, List.length_append]
          omega
        rw [if_pos hfour, if_pos hall]
      · rw [if_neg hfour, hassoc]
        by_cases hend : ds ++ rest = []
        · obtain ⟨rfl, rfl⟩ := List.append_eq_nil_iff.mp hend
          have hflush : flushNumber (ParseState.of out m true (inst ++ [d]) level objIid) [] =
              ParseState.of out m true [] (level + 1) (storeIdx objIid level (inst ++ [d])) := by
            rw [flushNumber, if_pos (.inr ⟨rfl, by simp [ParseState.of]⟩)]
            rfl
          rw [@List.append_nil _ (inst ++ [d]), if_neg hfour, if_pos rfl]
          simp only [List.append_nil, hflush, parseLoop]
        · have hflush : flushNumber (ParseState.of out m true (inst ++ [d]) level objIid)
              (ds ++ rest) = ParseState.of out m true (inst ++ [d]) level objIid := by
            rw [flushNumber, if_neg]
            rintro (⟨hsub, -⟩ | ⟨hnil, -⟩)
            · cases hsub
            · exact hend hnil
          simp only [hflush]
          apply ih _ (by simp) (by omega) (fun x hx => hds x (List.mem_cons_of_mem d hx))
          rintro rfl rfl
          exact hend rfl

/-- A number. -/
theorem parseLoop_number {ds : List Char} (hne : ds ≠ []) (hds : ∀ d ∈ ds, d.isDigit = true) :
    parseLoop (ds ++ rest) (ParseState.of out m true [] level objIid) =
      if 4 ≤ ds.length then none
      else if rest = [] then
        some (ParseState.of (out ++ ['i']) (m - 1) true [] (level + 1) (storeIdx objIid level ds))
      else parseLoop rest (ParseState.of (out ++ ['i']) (m - 1) true ds level objIid) := by
  obtain ⟨d, ds, rfl⟩ := List.exists_cons_of_ne_nil hne
  have hd : d.isDigit = true := hds d List.mem_cons_self
  have hdot : d ≠ '.' := by
    rintro rfl
    exact absurd hd (by decide)
  have hstep : parseChar (ParseState.of out m true [] level objIid) d (ds ++ rest) =
      some (ParseState.of (out ++ ['i']) (m - 1) true [d] level objIid) := by
    rw [parseChar, if_neg hdot, if_pos (show (ParseState.of out m true [] level objIid).subpathname
      = true from rfl), if_pos hd]
    have hnil : (ParseState.of out m true [] level objIid).instNumStr = [] := rfl
    simp only [if_pos hnil, put_of]
    exact if_neg (by simp [ParseState.of])
  simp only [List.cons_append, parseLoop, hstep]
  by_cases hend : ds ++ rest = []
  · obtain ⟨rfl, rfl⟩ := List.append_eq_nil_iff.mp hend
    have hflush : flushNumber (ParseState.of (out ++ ['i']) (m - 1) true [d] level objIid) [] =
        ParseState.of (out ++ ['i']) (m - 1) true [] (level + 1) (storeIdx objIid level [d]) := by
      rw [flushNumber, if_pos (.inr ⟨rfl, by simp [ParseState.of]⟩)]
      rfl
    rw [if_neg (by simp), if_pos rfl]
    simp only [List.append_nil, hflush, parseLoop]
  · have hflush : flushNumber (ParseState.of (out ++ ['i']) (m - 1) true [d] level objIid)
        (ds ++ rest) = ParseState.of (out ++ ['i']) (m - 1) true [d] level objIid := by
      rw [flushNumber, if_neg]
      rintro (⟨hsub, -⟩ | ⟨hnil, -⟩)
      · cases hsub
      · exact hend hnil
    simp only [hflush]
    rw [parseLoop_digits ds [d] (by simp) (by simp) (fun x hx => hds x (List.mem_cons_of_mem d hx))]
    · rfl
    · rintro rfl rfl
      exact hend rfl

end Reader

/-! ## Components -/

/-- A component of digits only. -/
def isNumber (c : List Char) : Bool :=
  c ≠ [] && c.all Char.isDigit

/-- Whether a component starts with a digit. -/
def startsWithDigit (c : List Char) : Bool :=
  c.head?.any Char.isDigit

/-- What the reader makes of components that are numbers or start with another character: the
components of the name and the numbers taken out.  Behind a number, the next component is kept. -/
def scan : Bool → List (List Char) → Option (List (List Char) × List (List Char))
  | _, [] => some ([], [])
  | afterNumber, c :: cs =>
      if isNumber c && !afterNumber then
        if 4 ≤ c.length then none
        else (scan true cs).map (fun r => (placeholder :: r.1, c :: r.2))
      else (scan false cs).map (fun r => (c :: r.1, r.2))

/-- Store numbers as the indices from a level on. -/
def storeAll (objIid : ObjIndex) : Nat → List (List Char) → ObjIndex
  | _, [] => objIid
  | level, n :: ns => storeAll (storeIdx objIid level n) (level + 1) ns

/-- Components with a dot in front of each. -/
def dotted (cs : List (List Char)) : List Char :=
  cs.flatMap ('.' :: ·)

theorem dotted_cons (c : List Char) (cs : List (List Char)) :
    dotted (c :: cs) = '.' :: (c ++ dotted cs) := by
  rw [dotted, List.flatMap_cons]
  rfl

theorem dotted_eq_nil {cs : List (List Char)} : dotted cs = [] ↔ cs = [] := by
  cases cs with
  | nil => simp [dotted]
  | cons c cs => simp [dotted_cons]

theorem dotted_boundary (cs : List (List Char)) :
    dotted cs = [] ∨ (dotted cs).head? = some '.' := by
  cases cs with
  | nil => exact .inl rfl
  | cons d ds =>
      rw [dotted_cons]
      exact .inr rfl

/-- A component that can be told from a number by its first character. -/
structure Plain (c : List Char) : Prop where
  dotless : '.' ∉ c
  nulless : nul ∉ c
  number_or : isNumber c = true ∨ startsWithDigit c = false

/-- What the loop has found out at its end. -/
def ParseState.found (st : ParseState) : List Char × Nat × ObjIndex :=
  (stringOf st.pathName, st.level, st.objIid)

theorem found_of {out : List Char} (hout : nul ∉ out) (m level : Nat) (sub : Bool) (inst : List Char)
    (objIid : ObjIndex) :
    (ParseState.of out m sub inst level objIid).found = (out, level, objIid) := by
  rw [ParseState.found]
  exact congrArg (·, level, objIid) (takeWhile_zeros hout m)

theorem isNumber_iff {c : List Char} :
    isNumber c = true ↔ c ≠ [] ∧ ∀ d ∈ c, d.isDigit = true := by
  simp [isNumber]

theorem nextIsDigit_append {c : List Char} (hc : Plain c) (cs : List (List Char)) :
    nextIsDigit (c ++ dotted cs) = isNumber c := by
  cases c with
  | nil =>
      cases cs with
      | nil => rfl
      | cons d ds =>
          rw [dotted_cons]
          rfl
  | cons x c =>
      have hnext : nextIsDigit (x :: c ++ dotted cs) = x.isDigit := rfl
      rw [hnext]
      rcases hc.number_or with hnum | hstart
      · rw [hnum]
        exact (isNumber_iff.mp hnum).2 x List.mem_cons_self
      · have hx : x.isDigit = false := hstart
        simp [isNumber, hx]

/-- The reader works on components: at the start of one, either outside of a number or right behind
one. -/
theorem parseLoop_components :
    ∀ (cs : List (List Char)),
      (∀ c ∈ cs, Plain c) →
      (∀ out m level objIid, nul ∉ out →
        (parseLoop (dotted cs) (ParseState.of out m false [] level objIid)).map ParseState.found =
          (scan false cs).map (fun r =>
            (out ++ dotted r.1, level + r.2.length, storeAll objIid level r.2))) ∧
      (cs ≠ [] → ∀ out m inst level objIid, nul ∉ out → inst ≠ [] →
        (parseLoop (dotted cs) (ParseState.of out m true inst level objIid)).map ParseState.found =
          (scan true cs).map (fun r =>
            (out ++ dotted r.1, level + 1 + r.2.length,
              storeAll (storeIdx objIid level inst) (level + 1) r.2))) := by
  intro cs
  induction cs with
  | nil =>
      intro _
      refine ⟨fun out m level objIid hout => ?_, fun hne => absurd rfl hne⟩
      simp [parseLoop, dotted, scan, storeAll, found_of hout]
  | cons c cs ih =>
      intro hplain
      obtain ⟨hidle, hbehind⟩ := ih (fun d hd => hplain d (List.mem_cons_of_mem c hd))
      have hc := hplain c List.mem_cons_self
      have hdot : nul ≠ '.' := by decide
      have hi : nul ≠ 'i' := by decide
      constructor
      · intro out m level objIid hout
        rw [dotted_cons, parseLoop_dot, nextIsDigit_append hc, scan, Bool.not_false, Bool.and_true]
        cases hnum : isNumber c with
        | true =>
            obtain ⟨hne, hds⟩ := isNumber_iff.mp hnum
            have hout' : nul ∉ (out ++ ['.']) ++ ['i'] := by simp [hout, hdot, hi]
            rw [parseLoop_number hne hds, if_pos rfl]
            by_cases hfour : 4 ≤ c.length
            · rw [if_pos hfour, if_pos hfour]
              rfl
            · rw [if_neg hfour, if_neg hfour]
              by_cases hend : cs = []
              · subst hend
                rw [if_pos (dotted_eq_nil.mpr rfl), Option.map_some, found_of hout']
                simp [dotted, scan, storeAll, placeholder]
              · rw [if_neg (fun h => hend (dotted_eq_nil.mp h)), hbehind hend _ _ _ _ _ hout' hne,
                  Option.map_map]
                congr 1
                funext r
                simp [dotted_cons, placeholder, storeAll, Nat.add_assoc, Nat.add_comm 1]
        | false =>
            have hout' : nul ∉ (out ++ ['.']) ++ c := by simp [hout, hdot, hc.nulless]
            rw [parseLoop_copy c _ _ hc.dotless, hidle _ _ _ _ hout', if_neg (by simp),
              Option.map_map]
            congr 1
            funext r
            simp [dotted_cons]
      · intro _ out m inst level objIid hout hinst
        have hout' : nul ∉ (out ++ ['.']) ++ c := by simp [hout, hdot, hc.nulless]
        rw [dotted_cons, parseLoop_dot_number hinst, parseLoop_copy c _ _ hc.dotless,
          hidle _ _ _ _ hout', scan, Bool.not_true, Bool.and_false, if_neg (by simp), Option.map_map]
        congr 1
        funext r
        simp [dotted_cons]

theorem join_eq_dotted (first : List Char) (cs : List (List Char)) :
    join (first :: cs) = first ++ dotted cs :=
  join_cons first cs

/-- What is found in a path. -/
theorem parseLoop_path {first : List Char} {cs : List (List Char)} (hdot : '.' ∉ first)
    (hnul : nul ∉ first)
    (hplain : ∀ c ∈ cs, Plain c) :
    (parseLoop (join (first :: cs)) parseInit).map ParseState.found =
      (scan false cs).map (fun r =>
        (join (first :: r.1), r.2.length, storeAll ObjIndex.zero 0 r.2)) := by
  have hinit : parseInit = ParseState.of [] tr98MaxObjNameLength false [] 0 ObjIndex.zero := rfl
  rw [join_eq_dotted, hinit, parseLoop_copy first _ _ hdot, List.nil_append,
    (parseLoop_components cs hplain).1 _ _ _ _ hnul]
  simp only [join_eq_dotted, Nat.zero_add]

/-! ## Stored indices -/

theorem idx_storeIdx (objIid : ObjIndex) {level : Nat} (hlevel : level < supportedIndexLevel)
    (n : List Char) : (storeIdx objIid level n).idx = objIid.idx.set level (clampIdx n) := by
  rw [storeIdx, if_pos hlevel]
  rfl

/-- The numbers go to the levels in their order. -/
theorem idx_storeAll :
    ∀ (ns : List (List Char)) (level : Nat) (objIid : ObjIndex),
      level + ns.length ≤ supportedIndexLevel →
      (storeAll objIid level ns).idx =
        objIid.idx.take level ++ ns.map clampIdx ++ objIid.idx.drop (level + ns.length) := by
  intro ns
  induction ns with
  | nil =>
      intro level objIid _
      simp [storeAll]
  | cons n ns ih =>
      intro level objIid hlen
      rw [List.length_cons] at hlen
      have hlt : level < objIid.idx.length := by
        rw [objIid.idx_length]
        omega
      rw [storeAll, ih _ _ (by omega), idx_storeIdx objIid (by omega), List.take_set,
        List.drop_set, if_pos (by omega), List.length_cons, List.map_cons]
      have htake : (objIid.idx.take (level + 1)).set level (clampIdx n) =
          objIid.idx.take level ++ [clampIdx n] := by
        rw [List.take_succ_eq_append_getElem hlt, List.set_append_right _ _ (by simp)]
        simp [Nat.min_eq_left (Nat.le_of_lt hlt)]
      rw [htake]
      simp [Nat.add_assoc, Nat.add_comm 1]

theorem clampIdx_decimal (x : UInt8) : clampIdx (decimal x.toNat) = x := by
  have hlt := x.toNat_lt
  have hvalue : atoi (decimal x.toNat) = x.toNat := by
    rw [atoi_digits (decimal_ne_nil _) (fun c hc => isDigit_of_mem_decimal hc), digitsValue_decimal]
  rw [clampIdx, hvalue, if_neg (by omega), Int.toNat_natCast, UInt8.ofNat_toNat]

/-! ## The writer on components -/

/-- The placeholders of a name. -/
def countPlaceholders : Option Char → List Char → Nat
  | _, [] => 0
  | prev, c :: rest =>
      (if isPlaceholder prev c rest then 1 else 0) + countPlaceholders (some c) rest

/-- As long as there are enough levels, the loop is that of {lit}`zcfgFeObjIdToName`. -/
theorem seqnumToNameLoop_eq (objIid : ObjIndex) :
    ∀ (rest : List Char) (n : Nat) (prev : Option Char) (level len : Nat) (buf : List Char),
      rest.length ≤ n →
      level + countPlaceholders prev rest ≤ supportedIndexLevel →
      seqnumToNameLoop objIid n prev level len buf rest =
        (level + countPlaceholders prev rest, idToNameLoop objIid prev level len buf rest) := by
  intro rest
  induction rest with
  | nil =>
      intro n prev level len buf _ _
      cases n <;> rfl
  | cons c rest ih =>
      intro n prev level len buf hlen hlevel
      obtain ⟨n, rfl⟩ : ∃ k, n = k + 1 := ⟨n - 1, by rw [List.length_cons] at hlen; omega⟩
      have hlen' : rest.length ≤ n := Nat.le_of_succ_le_succ hlen
      simp only [countPlaceholders] at hlevel ⊢
      by_cases hplace : isPlaceholder prev c rest = true
      · rw [if_pos hplace] at hlevel ⊢
        rw [seqnumToNameLoop, if_pos ⟨by omega, hplace⟩, idToNameLoop, if_pos hplace]
        simp only
        rw [ih n (some c) (level + 1) _ _ hlen' (by omega), Nat.add_assoc]
      · rw [if_neg hplace] at hlevel ⊢
        rw [seqnumToNameLoop, if_neg (fun h => hplace h.2), idToNameLoop, if_neg hplace]
        rw [ih n (some c) level _ _ hlen' (by omega), Nat.zero_add]

theorem countPlaceholders_dot (prev : Option Char) (rest : List Char) :
    countPlaceholders prev ('.' :: rest) = countPlaceholders (some '.') rest := by
  simp [countPlaceholders, isPlaceholder]

theorem countPlaceholders_inner {cs : List (List Char)} :
    ∀ (c : List Char) (prev : Option Char),
      '.' ∉ c →
      prev ≠ some '.' →
      countPlaceholders prev (c ++ dotted cs) = countPlaceholders none (dotted cs) := by
  intro c
  induction c with
  | nil =>
      intro prev _ _
      cases cs with
      | nil => rfl
      | cons d ds => rw [List.nil_append, dotted_cons, countPlaceholders_dot, countPlaceholders_dot]
  | cons x c ih =>
      intro prev hdot hprev
      rw [List.mem_cons, not_or] at hdot
      have hx : some x ≠ some '.' := fun heq => hdot.1 (Option.some.inj heq).symm
      rw [List.cons_append, countPlaceholders, ih (some x) hdot.2 hx,
        if_neg (by simp [isPlaceholder, hprev]), Nat.zero_add]

/-- The placeholders are the components behind a dot that are just an {lit}`i`. -/
theorem countPlaceholders_dotted :
    ∀ (cs : List (List Char)),
      (∀ c ∈ cs, c ≠ []) →
      (∀ c ∈ cs, '.' ∉ c) →
      countPlaceholders none (dotted cs) = placeholders cs := by
  intro cs
  induction cs with
  | nil =>
      intro _ _
      rfl
  | cons c cs ih =>
      intro hne hdot
      have ih' := ih (fun d hd => hne d (List.mem_cons_of_mem c hd))
        (fun d hd => hdot d (List.mem_cons_of_mem c hd))
      have hboundary := dotted_boundary cs
      obtain ⟨x, c, rfl⟩ := List.exists_cons_of_ne_nil (hne c List.mem_cons_self)
      have hcdot := hdot _ List.mem_cons_self
      rw [List.mem_cons, not_or] at hcdot
      have hx : some x ≠ some '.' := fun heq => hcdot.1 (Option.some.inj heq).symm
      rw [dotted_cons, countPlaceholders_dot, List.cons_append, countPlaceholders,
        countPlaceholders_inner c _ hcdot.2 hx, ih', placeholders, placeholders, List.count_cons,
        Nat.add_comm]
      congr 1
      by_cases hplace : x :: c = placeholder
      · obtain ⟨rfl, rfl⟩ := List.cons.inj hplace
        have htest : isPlaceholder (some '.') 'i' ([] ++ dotted cs) = true := by
          rcases hboundary with hnil | hhead
          · rw [hnil]
            decide
          · simp [isPlaceholder, hhead]
        rw [if_pos htest, if_pos (by rw [hplace]; exact beq_self_eq_true _)]
      · have htest : ¬ isPlaceholder (some '.') x (c ++ dotted cs) = true := by
          cases c with
          | nil =>
              have hi : x ≠ 'i' := fun heq => hplace (by rw [heq]; rfl)
              simp [isPlaceholder, hi]
          | cons y c =>
              have hy : y ≠ '.' := fun heq => hcdot.2 (heq ▸ List.mem_cons_self)
              simp [isPlaceholder, hy]
        rw [if_neg htest, if_neg (by simpa using hplace)]

/-- The characters written for components behind a dot. -/
theorem expand_dotted (objIid : ObjIndex) :
    ∀ (cs : List (List Char)) (level : Nat),
      (∀ c ∈ cs, c ≠ []) →
      (∀ c ∈ cs, '.' ∉ c) →
      expand objIid none level (dotted cs) = dotted (instantiate objIid level cs) := by
  intro cs
  induction cs with
  | nil =>
      intro level _ _
      rfl
  | cons c cs ih =>
      intro level hne hdot
      have ih' := fun l => ih l (fun d hd => hne d (List.mem_cons_of_mem c hd))
        (fun d hd => hdot d (List.mem_cons_of_mem c hd))
      have hboundary := dotted_boundary cs
      rw [dotted_cons, expand, if_neg (by simp [isPlaceholder]),
        expand_component objIid level (hne c List.mem_cons_self) (hdot c List.mem_cons_self) hboundary,
        ih', ih']
      by_cases hplace : c = placeholder
      · rw [if_pos hplace, hplace, instantiate_placeholder, dotted_cons]
      · rw [if_neg hplace, instantiate_other objIid level hplace, dotted_cons]

/-! ## Tables -/

/-- A name of components that do not start with a digit, without two placeholders in a row behind the
first component. -/
structure NameComponents (first : List Char) (cs : List (List Char)) : Prop where
  nonempty : ∀ c ∈ first :: cs, c ≠ []
  dotless : ∀ c ∈ first :: cs, '.' ∉ c
  nulless : ∀ c ∈ first :: cs, nul ∉ c
  noDigit : ∀ c ∈ first :: cs, startsWithDigit c = false
  apart : cs.IsChain (fun c d => ¬ (c = placeholder ∧ d = placeholder))

/-- The names of a table are different and consist of such components. -/
structure WellNamedTable (table : NameTable) : Prop where
  distinct : table.Nodup
  components : ∀ name ∈ table, ∃ first cs, NameComponents first cs ∧ name = join (first :: cs)

/-- The number of placeholders of a name: components {lit}`i` behind a dot. -/
def levels (name : List Char) : Nat :=
  placeholders (tokens name).tail

theorem NameComponents.tokens {first : List Char} {cs : List (List Char)}
    (h : NameComponents first cs) : FeString.tokens (join (first :: cs)) = first :: cs :=
  tokens_join (by simp) h.nonempty h.dotless

theorem NameComponents.levels {first : List Char} {cs : List (List Char)}
    (h : NameComponents first cs) : FeTr98.levels (join (first :: cs)) = placeholders cs := by
  rw [FeTr98.levels, h.tokens]
  rfl

/-- The only object with a name is found. -/
theorem findIdx?_eq {table : NameTable} (hdistinct : table.Nodup) {n : Nat} {name : List Char}
    (hname : table[n]? = some name) : table.findIdx? (· = name) = some n := by
  obtain ⟨hlt, heq⟩ := List.getElem?_eq_some_iff.mp hname
  rw [List.findIdx?_eq_some_iff_getElem]
  refine ⟨hlt, by simpa using heq, fun j hj => ?_⟩
  have hne : table[j] ≠ table[n] := by
    intro h
    have := (List.Nodup.getElem_inj_iff hdistinct).mp h
    omega
  rw [heq] at hne
  simpa using hne

theorem isSeqnumRight_of_lt {table : NameTable} {n : Nat} (h : n < table.length) :
    isSeqnumRight table (eTr98Start + n) = true := by
  rw [isSeqnumRight, eTr98Last, Bool.and_eq_true]
  exact ⟨decide_eq_true (Nat.le_add_right _ _), decide_eq_true (Nat.add_le_add_left h.le _)⟩

/-- What {lit}`zcfgFe98SeqnumToName` writes into a buffer of zeros that is long enough. -/
theorem zcfgFe98SeqnumToName_eq {table : NameTable} {n : Nat} {first : List Char}
    {cs : List (List Char)}
    (hname : table[n]? = some (join (first :: cs)))
    (hcomps : NameComponents first cs)
    (hlevels : placeholders cs < supportedIndexLevel)
    (hshort : (join (first :: cs)).length < tr98MaxObjNameLength) (objIid : ObjIndex) {m : Nat}
    (hm : (join (first :: instantiate objIid 0 cs)).length < m) :
    ∃ buf, zcfgFe98SeqnumToName table (eTr98Start + n) objIid (List.replicate m nul) =
        (.success, buf) ∧
      stringOf buf = join (first :: instantiate objIid 0 cs) := by
  have hne : ∀ c ∈ cs, c ≠ [] := fun c hc => hcomps.nonempty c (List.mem_cons_of_mem first hc)
  have hdot : ∀ c ∈ cs, '.' ∉ c := fun c hc => hcomps.dotless c (List.mem_cons_of_mem first hc)
  have hfirst := hcomps.dotless first List.mem_cons_self
  have hnul : nul ∉ join (first :: instantiate objIid 0 cs) := by
    apply nul_notMem_join
    intro d hd
    rcases List.mem_cons.mp hd with rfl | hd
    · exact hcomps.nulless d List.mem_cons_self
    · rcases mem_instantiate objIid cs 0 hd with hd | ⟨x, rfl⟩
      · exact hcomps.nulless d (List.mem_cons_of_mem first hd)
      · exact nul_notMem_decimal _
  have hcount : countPlaceholders none (join (first :: cs)) = placeholders cs := by
    rw [join_eq_dotted, countPlaceholders_inner first none hfirst (by simp),
      countPlaceholders_dotted cs hne hdot]
  have hexpand : expand objIid none 0 (join (first :: cs)) =
      join (first :: instantiate objIid 0 cs) := by
    obtain ⟨prev, heq⟩ := expand_inner objIid 0 (dotted cs) first none hfirst (by simp)
    rw [join_eq_dotted, heq, expand_boundary objIid prev none 0 (dotted_boundary cs),
      expand_dotted objIid cs 0 hne hdot, join_eq_dotted]
  have hloop := idToNameLoop_eq objIid (join (first :: cs)) none 0 [] m (by simp)
    (nul_notMem_join hcomps.nulless) (by rw [hexpand]; exact hm)
  rw [hexpand, List.nil_append, List.nil_append, List.length_nil] at hloop
  have hlt : n < table.length := (List.getElem?_eq_some_iff.mp hname).1
  have harray : arraySeqnum (eTr98Start + n) = n := Nat.add_sub_cancel_left _ _
  refine ⟨writeAt (join (first :: instantiate objIid 0 cs) ++
    List.replicate (m - (join (first :: instantiate objIid 0 cs)).length) nul)
    (join (first :: instantiate objIid 0 cs)).length [nul], ?_, ?_⟩
  · rw [zcfgFe98SeqnumToName, isSeqnumRight_of_lt hlt, if_neg (by decide), harray, hname]
    simp only
    rw [seqnumToNameLoop_eq objIid _ _ none 0 0 _ (by omega) (by omega), hloop, hcount]
    simp only
    rw [if_neg (by omega)]
  · rw [stringOf, writeAt_zeros, List.append_assoc]
    have hzeros : ∀ k, [nul] ++ List.replicate k nul = List.replicate (k + 1) nul := fun k => rfl
    rw [hzeros, takeWhile_zeros hnul]

/-- What {lit}`zcfgFe98NameToSeqnum` makes of a path. -/
theorem zcfgFe98NameToSeqnum_eq (table : NameTable) {first : List Char} {cs : List (List Char)}
    (hpath : join (first :: cs) ≠ [])
    (hdot : '.' ∉ first)
    (hnul : nul ∉ first)
    (hplain : ∀ c ∈ cs, Plain c) :
    zcfgFe98NameToSeqnum table (join (first :: cs)) =
      match scan false cs with
      | none => (.noSuchObject, 0, ObjIndex.zero)
      | some (out, ns) =>
          if supportedIndexLevel ≤ ns.length then (.noSuchObject, 0, ObjIndex.zero)
          else
            match table.findIdx? (· = join (first :: out)) with
            | none => (.noSuchObject, 0, ObjIndex.zero)
            | some n =>
                (.success, eTr98Start + n,
                  { storeAll ObjIndex.zero 0 ns with level := UInt8.ofNat ns.length }) := by
  have hparse := parseLoop_path hdot hnul hplain
  rw [zcfgFe98NameToSeqnum, if_neg hpath]
  cases hscan : scan false cs with
  | none =>
      rw [hscan, Option.map_none, Option.map_eq_none_iff] at hparse
      rw [hparse]
  | some r =>
      obtain ⟨out, ns⟩ := r
      rw [hscan, Option.map_some, Option.map_eq_some_iff] at hparse
      obtain ⟨st, hst, hfound⟩ := hparse
      simp only [ParseState.found, Prod.mk.injEq] at hfound
      obtain ⟨hname, hlevel, hiid⟩ := hfound
      rw [hst]
      simp only [hname, hlevel, hiid]
      split
      · rfl
      · split
        · rfl
        · rename_i n hfind
          have hlt : n < table.length := (List.findIdx?_eq_some_iff_getElem.mp hfind).1
          rw [isSeqnumRight_of_lt hlt, if_neg (by decide)]

/-! ## A written name is read back -/

theorem isNumber_decimal (x : UInt8) : isNumber (decimal x.toNat) = true :=
  isNumber_iff.mpr ⟨decimal_ne_nil _, fun _ hd => isDigit_of_mem_decimal hd⟩

theorem plain_decimal (x : UInt8) : Plain (decimal x.toNat) := by
  refine ⟨fun h => ?_, nul_notMem_decimal _, .inl (isNumber_decimal x)⟩
  exact absurd (isDigit_of_mem_decimal h) (by decide)

theorem isNumber_of_startsWithDigit {c : List Char} (h : startsWithDigit c = false) :
    isNumber c = false := by
  cases c with
  | nil => rfl
  | cons x c =>
      have hx : x.isDigit = false := h
      simp [isNumber, hx]

/-- The indices in the places of the placeholders are found again. -/
theorem scan_instantiate (objIid : ObjIndex) :
    ∀ (cs : List (List Char)) (level : Nat) (afterNumber : Bool),
      (∀ c ∈ cs, startsWithDigit c = false) →
      cs.IsChain (fun c d => ¬ (c = placeholder ∧ d = placeholder)) →
      (afterNumber = true → cs.head? ≠ some placeholder) →
      scan afterNumber (instantiate objIid level cs) =
        some (cs, (List.range' level (placeholders cs)).map
          (fun l => decimal (objIid.idx.getD l 0).toNat)) := by
  intro cs
  induction cs with
  | nil =>
      intro level afterNumber _ _ _
      rfl
  | cons c cs ih =>
      intro level afterNumber hdigit hapart hafter
      have hdigit' : ∀ d ∈ cs, startsWithDigit d = false :=
        fun d hd => hdigit d (List.mem_cons_of_mem c hd)
      have hapart' := hapart.of_cons
      by_cases hplace : c = placeholder
      · subst hplace
        have hnot : afterNumber = false := by
          cases afterNumber with
          | false => rfl
          | true => exact absurd rfl (hafter rfl)
        have hnext : cs.head? ≠ some placeholder := by
          intro hhead
          cases cs with
          | nil => cases hhead
          | cons d ds =>
              have hd : d = placeholder := Option.some.inj hhead
              exact (List.isChain_cons_cons.mp hapart).1 ⟨rfl, hd⟩
        have hshort := length_decimal_le (objIid.idx.getD level 0)
        have hcount : placeholders (placeholder :: cs) = placeholders cs + 1 :=
          List.count_cons_self
        rw [instantiate_placeholder, scan, hnot, isNumber_decimal, Bool.not_false, Bool.and_true,
          if_pos rfl, if_neg (by omega), ih (level + 1) true hdigit' hapart' (fun _ => hnext),
          hcount, List.range'_succ]
        rfl
      · have hnum := isNumber_of_startsWithDigit (hdigit c List.mem_cons_self)
        have hcount : placeholders (c :: cs) = placeholders cs := List.count_cons_of_ne hplace
        rw [instantiate_other objIid level hplace, scan, hnum, Bool.false_and, if_neg (by decide),
          ih level false hdigit' hapart' (fun h => by cases h), hcount]
        rfl

theorem map_clampIdx_range (objIid : ObjIndex) {k : Nat} (hk : k ≤ supportedIndexLevel) :
    ((List.range' 0 k).map (fun l => decimal (objIid.idx.getD l 0).toNat)).map clampIdx =
      objIid.idx.take k := by
  have hlen : objIid.idx.length = supportedIndexLevel := objIid.idx_length
  rw [List.map_map]
  apply List.ext_getElem
  · simp only [List.length_map, List.length_range', List.length_take]
    omega
  · intro i hi _
    simp only [List.length_map, List.length_range'] at hi
    rw [List.getElem_map, List.getElem_range', List.getElem_take, Function.comp_apply,
      clampIdx_decimal, Nat.zero_add, Nat.one_mul, List.getD_eq_getElem _ _ (by omega)]

/-- The name with the indices in the places of the placeholders. -/
def substituted (name : List Char) (objIid : ObjIndex) : List Char :=
  match tokens name with
  | [] => []
  | first :: cs => join (first :: instantiate objIid 0 cs)

theorem NameComponents.substituted {first : List Char} {cs : List (List Char)}
    (h : NameComponents first cs) (objIid : ObjIndex) :
    FeTr98.substituted (join (first :: cs)) objIid = join (first :: instantiate objIid 0 cs) := by
  rw [FeTr98.substituted, h.tokens]

theorem length_dotted_le (objIid : ObjIndex) :
    ∀ (cs : List (List Char)) (level : Nat),
      (dotted cs).length ≤ (dotted (instantiate objIid level cs)).length := by
  intro cs
  induction cs with
  | nil =>
      intro level
      exact le_refl _
  | cons c cs ih =>
      intro level
      by_cases hplace : c = placeholder
      · have hpos := List.length_pos_of_ne_nil (decimal_ne_nil (objIid.idx.getD level 0).toNat)
        have hrest := ih (level + 1)
        rw [hplace, instantiate_placeholder, dotted_cons, dotted_cons]
        simp only [List.length_cons, List.length_append, placeholder, List.length_nil]
        omega
      · have hrest := ih level
        rw [instantiate_other objIid level hplace, dotted_cons, dotted_cons]
        simp only [List.length_cons, List.length_append]
        omega

/-- The components of a written name are plain. -/
theorem NameComponents.plain {first : List Char} {cs : List (List Char)}
    (h : NameComponents first cs) (objIid : ObjIndex) :
    ∀ c ∈ instantiate objIid 0 cs, Plain c := by
  intro c hc
  rcases mem_instantiate objIid cs 0 hc with hc | ⟨x, rfl⟩
  · have hmem := List.mem_cons_of_mem first hc
    exact ⟨h.dotless c hmem, h.nulless c hmem, .inr (h.noDigit c hmem)⟩
  · exact plain_decimal x

/-- Unused indices are zero, so storing the used ones gives back the object index. -/
theorem storeAll_range (objIid : ObjIndex) {k : Nat} (hk : k < supportedIndexLevel)
    (hlevel : objIid.level.toNat = k)
    (hunused : ∀ i ∈ objIid.idx.drop k, i = 0) :
    { storeAll ObjIndex.zero 0 ((List.range' 0 k).map (fun l => decimal (objIid.idx.getD l 0).toNat))
      with level := UInt8.ofNat k } = objIid := by
  have hidx := idx_storeAll ((List.range' 0 k).map (fun l => decimal (objIid.idx.getD l 0).toNat)) 0
    ObjIndex.zero (by simp; omega)
  have hrest : objIid.idx.drop k = List.replicate (supportedIndexLevel - k) 0 := by
    rw [List.eq_replicate_iff]
    exact ⟨by rw [List.length_drop, objIid.idx_length], hunused⟩
  have hzero : ObjIndex.zero.idx.drop k = List.replicate (supportedIndexLevel - k) 0 :=
    List.drop_replicate
  rw [map_clampIdx_range objIid hk.le, List.take_zero, List.nil_append, List.length_map,
    List.length_range', Nat.zero_add, hzero, ← hrest, List.take_append_drop] at hidx
  have hlevel' : UInt8.ofNat k = objIid.level := by
    rw [← hlevel, UInt8.ofNat_toNat]
  obtain ⟨level, idx, hlen⟩ := objIid
  simp only [ObjIndex.mk.injEq]
  exact ⟨hlevel', hidx⟩

/-- The name written for an instance is resolved to the object and the indices. -/
theorem tr98Name_roundTrip (table : NameTable) (n : Nat) (name : List Char) (objIid : ObjIndex)
    (bufSize : Nat)
    (htable : WellNamedTable table)
    (hname : table[n]? = some name)
    (hlevels : levels name < supportedIndexLevel)
    (hlevel : objIid.level.toNat = levels name)
    (hunused : ∀ i ∈ objIid.idx.drop (levels name), i = 0)
    (hshort : (substituted name objIid).length ≤ 256)
    (hbuf : (substituted name objIid).length < bufSize) :
    ∃ buf, zcfgFe98SeqnumToName table (eTr98Start + n) objIid (List.replicate bufSize nul) =
        (.success, buf) ∧
      zcfgFe98NameToSeqnum table (stringOf buf) = (.success, eTr98Start + n, objIid) := by
  obtain ⟨first, cs, hcomps, rfl⟩ := htable.components name (List.mem_of_getElem? hname)
  rw [hcomps.levels] at hlevels hlevel hunused
  rw [hcomps.substituted] at hshort hbuf
  have hle := length_dotted_le objIid cs 0
  have hnameShort : (join (first :: cs)).length < tr98MaxObjNameLength := by
    rw [join_eq_dotted, List.length_append] at hshort ⊢
    rw [tr98MaxObjNameLength]
    omega
  obtain ⟨buf, hwrite, hstring⟩ :=
    zcfgFe98SeqnumToName_eq hname hcomps hlevels hnameShort objIid hbuf
  refine ⟨buf, hwrite, ?_⟩
  have hdigit : ∀ c ∈ cs, startsWithDigit c = false :=
    fun c hc => hcomps.noDigit c (List.mem_cons_of_mem first hc)
  have hpath : join (first :: instantiate objIid 0 cs) ≠ [] := by
    rw [join_eq_dotted]
    simp [hcomps.nonempty first List.mem_cons_self]
  rw [hstring, zcfgFe98NameToSeqnum_eq table hpath
    (hcomps.dotless first List.mem_cons_self) (hcomps.nulless first List.mem_cons_self)
    (hcomps.plain objIid), scan_instantiate objIid cs 0 false hdigit hcomps.apart (fun h => by cases h)]
  simp only [List.length_map, List.length_range']
  rw [if_neg (by omega), findIdx?_eq htable.distinct hname, storeAll_range objIid hlevels hlevel hunused]

/-- A table of one object with one placeholder. -/
def smallTable : NameTable := [['X', '.', 'i']]

theorem smallTable_wellNamed : WellNamedTable smallTable where
  distinct := List.nodup_singleton _
  components := by
    intro name hname
    rw [List.mem_singleton.mp hname]
    refine ⟨['X'], [placeholder], ?_, rfl⟩
    constructor <;> simp <;> decide

/-- The name of the instance 7 is written and read back. -/
theorem tr98Name_roundTrip_small :
    ∃ buf, zcfgFe98SeqnumToName smallTable (eTr98Start + 0)
        { level := 1, idx := [7, 0, 0, 0, 0, 0], idx_length := rfl } (List.replicate 257 nul) =
          (.success, buf) ∧
      zcfgFe98NameToSeqnum smallTable (stringOf buf) =
        (.success, eTr98Start + 0,
          { level := 1, idx := [7, 0, 0, 0, 0, 0], idx_length := rfl }) :=
  tr98Name_roundTrip smallTable 0 ['X', '.', 'i'] _ 257 smallTable_wellNamed rfl (by decide)
    (by decide) (by decide +kernel) (by decide) (by decide)

end FeTr98
end ZyxelRouter
