import Mathlib.Data.List.Pairwise
import ZyxelRouter.FeDal.Common
import ZyxelRouter.Lib.Survivors

/-!
# The white list of hardware addresses

{lit}`zcfgFeDalMACFilter` numbers the entries that it lists.  The array of a {lit}`PUT` request deletes, edits
and adds entries one after the other, and each index is looked up in the table as the actions before have left
it.

Main results:

- Theorem {lit}`convert_own_iff`: an index still leads to its entry exactly if no smaller one has been deleted.
- Theorem {lit}`macFilterLoop_step`: what one action does when it fits, and that otherwise it is not carried out as
  it should be.
- Theorem {lit}`macBatch_iff`: when each action of a request is applied to its own entry, and what is listed then.
-/

namespace ZyxelRouter
namespace FeDal

open Lib

/-! ## The table -/

/-- The parameters of {lit}`RDM_OID_ZY_MAC_FILTER_WHITE_LIST`. -/
structure MacEntry where
  enable : Bool
  hostName : List Char
  macAddress : List Char
deriving DecidableEq

/-- The entries in the order in which {lit}`zcfgFeObjJsonGetNextWithoutUpdate` goes through them. -/
abbrev MacTable := KeyedTable InstNum MacEntry

/-- {lit}`RDM_OID_ZY_MAC_FILTER` and the white list. -/
structure MacFilter where
  enable : Bool
  restrict : Bool
  whiteList : MacTable

/-- What the store decides when an entry is added: its instance, and how many entries are listed behind it. -/
structure MacStore where
  newInstance : MacTable → Except ZcfgRet (InstNum × Nat)
  initial : MacEntry
  fresh : ∀ table place, newInstance table = .ok place → place.1 ∉ table.rows.map Prod.fst

/-- An entry as it is listed. -/
structure ListedEntry where
  index : Int
  entry : MacEntry

/-- {lit}`zcfgFeDal_MAC_Filter_Get`: the entries of {lit}`whitelist`. -/
def zcfgFeDalMACFilterGet (filter : MacFilter) : List ListedEntry :=
  filter.whiteList.rows.mapIdx (fun n row => { index := n + 1, entry := row.2 })

/-! ## Requests -/

/-- An object of the array of a request, behind the first one. -/
structure MacItem where
  action : Option (List Char)
  index : Int
  listEnable : Option Bool
  hostName : Option (List Char)
  macAddress : Option (List Char)

/-- {lit}`!strcmp(action, ...)`. -/
def MacItem.isAction (item : MacItem) (action : String) : Bool :=
  item.action = some action.toList

/-- The fields of an object over those of an entry. -/
def MacItem.over (item : MacItem) (entry : MacEntry) : MacEntry where
  enable := item.listEnable.getD entry.enable
  hostName := item.hostName.getD entry.hostName
  macAddress := item.macAddress.getD entry.macAddress

/-! ## The loop -/

/-- A call to the store that changes the table. -/
inductive MacCall where
  | del (iid : InstNum)
  | add (iid : InstNum) (behind : Nat)
  | set (iid : InstNum) (entry : MacEntry)
deriving DecidableEq

/-- How the loop ends: behind the last object, with a {lit}`return`, or where {lit}`action` is a null pointer. -/
inductive MacEnd where
  | finished
  | returned
  | nullRead
deriving DecidableEq

/-- The loop: how it ends, {lit}`ret` and the reply, the table, and the calls that were made for each object. -/
structure MacRun where
  how : MacEnd
  ret : ZcfgRet
  reply : DalReply
  table : MacTable
  trace : List (List MacCall)

/-- Calls in front of the others. -/
def MacRun.after (run : MacRun) (calls : List MacCall) : MacRun :=
  { run with trace := calls :: run.trace }

/-- {lit}`dalcmdParamCheck`: another entry has the value. -/
def macParamTaken (table : MacTable) (iid : Option InstNum) (key : MacEntry → List Char)
    (param : List Char) : Bool :=
  table.rows.any (fun row => param = key row.2 && some row.1 ≠ iid)

/-- The checks of the two texts of an object; the reply if one is taken. -/
def macDuplicate (table : MacTable) (iid : Option InstNum) (item : MacItem) (reply : DalReply) :
    Option DalReply :=
  if item.hostName.any (macParamTaken table iid MacEntry.hostName) then
    some { reply.cat "HostName is duplicate." with
      multiLangReplyMsg := some "zylang.Common.duplicate_name".toList }
  else if item.macAddress.any (macParamTaken table iid MacEntry.macAddress) then
    some { reply.cat "MACAddress is duplicate." with
      multiLangReplyMsg := some "zylang.Common.duplicate_mac".toList }
  else none

/-- The loop of {lit}`zcfgFeDal_MAC_Filter_Edit` over the array, with calls that succeed but for the addition of
an instance. -/
def macFilterLoop (store : MacStore) : List MacItem → ZcfgRet → DalReply → MacTable → MacRun
  | [], ret, reply, table => ⟨.finished, ret, reply, table, []⟩
  | item :: rest, ret, reply, table =>
      if item.action = none then ⟨.nullRead, ret, reply, table, []⟩
      else if item.isAction "DELE" then
        match convertIndextoIid table item.index reply with
        | .error (ret, reply) => ⟨.returned, ret, reply, table, []⟩
        | .ok iid => (macFilterLoop store rest .success reply (table.del iid)).after [.del iid]
      else if item.isAction "ADD" then
        match macDuplicate table none item reply with
        | some reply => ⟨.returned, .invalidParamValue, reply, table, []⟩
        | none =>
            match h : store.newInstance table with
            | .error ret => (macFilterLoop store rest ret reply table).after []
            | .ok place =>
                (macFilterLoop store rest .success reply
                  ((table.insert place.2 place.1 store.initial (store.fresh table place h)).put place.1
                    (item.over store.initial))).after
                  [.add place.1 place.2, .set place.1 (item.over store.initial)]
      else if item.isAction "EDIT" then
        match convertIndextoIid table item.index reply with
        | .error (ret, reply) => ⟨.returned, ret, reply, table, []⟩
        | .ok iid =>
            match macDuplicate table (some iid) item reply with
            | some reply => ⟨.returned, .invalidParamValue, reply, table, []⟩
            | none =>
                match table.get iid with
                | none => (macFilterLoop store rest .noSuchObject reply table).after []
                | some old =>
                    (macFilterLoop store rest .success reply (table.put iid (item.over old))).after
                      [.set iid (item.over old)]
      else (macFilterLoop store rest .notFound reply table).after []

/-- {lit}`zcfgFeDal_MAC_Filter_Edit` for an array: the loop, and {lit}`setMACFilterEnable` behind it with the
{lit}`Filter_Enable` and {lit}`Restrict` of the first object. -/
def zcfgFeDalMACFilterEdit (store : MacStore) (filter : MacFilter) (first : Option (Bool × Bool))
    (items : List MacItem) (reply : DalReply) : MacRun × MacFilter :=
  let run := macFilterLoop store items .success reply filter.whiteList
  match run.how, first with
  | .finished, some (filterEnable, restrictMode) =>
      (run, { enable := filterEnable, restrict := restrictMode, whiteList := run.table })
  | _, _ => (run, { filter with whiteList := run.table })

/-! ## What a request stands for -/

/-- An object about a listed entry. -/
def MacItem.touches (item : MacItem) : Bool :=
  item.isAction "DELE" || item.isAction "EDIT"

/-- Two objects are not about one listed entry. -/
def MacItem.Apart (item other : MacItem) : Prop :=
  item.touches = true → other.touches = true → item.index ≠ other.index

instance : Std.Symm MacItem.Apart where
  symm _ _ h htouch htouch' heq := h htouch' htouch heq.symm

/-- The indices of a request are listed, each at most once. -/
structure ListedIndices (table : MacTable) (items : List MacItem) : Prop where
  listed : ∀ item ∈ items, item.touches = true → ∃ row, atIndex table.rows item.index = some row
  once : items.Pairwise MacItem.Apart

/-- The calls for an object are those for the listed entry with its index; a new entry is the last one. -/
def OwnCalls (initial : MacEntry) (listed : List (InstNum × MacEntry)) (item : MacItem)
    (calls : List MacCall) : Prop :=
  if item.isAction "DELE" then
    ∃ row, atIndex listed item.index = some row ∧ calls = [.del row.1]
  else if item.isAction "EDIT" then
    ∃ row, atIndex listed item.index = some row ∧ calls = [.set row.1 (item.over row.2)]
  else if item.isAction "ADD" then
    ∃ iid, calls = [.add iid 0, .set iid (item.over initial)]
  else calls = []

/-- Each action of a request is applied to the entry that was listed with its index. -/
def AppliesEach (initial : MacEntry) (listed : List (InstNum × MacEntry)) (items : List MacItem)
    (trace : List (List MacCall)) : Prop :=
  List.Forall₂ (OwnCalls initial listed) items trace

/-- What becomes of the entry that is listed with a number. -/
def actedOn (items : List MacItem) (n : Nat) (row : InstNum × MacEntry) :
    Option (InstNum × MacEntry) :=
  match items.find? (fun item => item.touches && item.index = (n : Int)) with
  | none => some row
  | some item => if item.isAction "DELE" then none else some (row.1, item.over row.2)

/-- The entries that a request adds. -/
def addedEntries (initial : MacEntry) (items : List MacItem) : List MacEntry :=
  (items.filter (fun item => item.isAction "ADD")).map (fun item => item.over initial)

/-- The listed entries with their actions applied, and the added ones behind them. -/
def batchEntries (initial : MacEntry) (table : MacTable) (items : List MacItem) : List MacEntry :=
  (survivors (actedOn items) 1 table.rows).map Prod.snd ++ addedEntries initial items

/-! ## When it is met -/

/-- The table with one action applied to the listed entry with its index. -/
def ownStep (store : MacStore) (listed : List (InstNum × MacEntry)) (table : MacTable)
    (item : MacItem) : MacTable :=
  if item.isAction "DELE" then
    match atIndex listed item.index with
    | none => table
    | some row => table.del row.1
  else if item.isAction "EDIT" then
    match atIndex listed item.index with
    | none => table
    | some row => table.put row.1 (item.over row.2)
  else if item.isAction "ADD" then
    match h : store.newInstance table with
    | .error _ => table
    | .ok place => table.add place.1 (item.over store.initial) (store.fresh table place h)
  else table

/-- The table with the actions of some objects applied to the listed entries with their indices. -/
def ownTable (store : MacStore) (table : MacTable) (items : List MacItem) : MacTable :=
  items.foldl (ownStep store table.rows) table

/-- An object has the host name or the address of an entry. -/
def MacItem.Collides (item : MacItem) (entry : MacEntry) : Prop :=
  item.hostName = some entry.hostName ∨ item.macAddress = some entry.macAddress

/-- The condition on an object behind others: it has an action; no smaller index than its own has been deleted;
no other entry, as they are to be then, has its host name or address; and a new entry gets an instance that is
listed last. -/
structure ItemFits (store : MacStore) (table : MacTable) (front : List MacItem) (item : MacItem) :
    Prop where
  action : item.action ≠ none
  ahead : item.touches = true → ∀ earlier ∈ front, earlier.isAction "DELE" = true →
    item.index < earlier.index
  edited : item.isAction "EDIT" = true → ∀ own, atIndex table.rows item.index = some own →
    ∀ row ∈ (ownTable store table front).rows, row.1 ≠ own.1 → ¬ item.Collides row.2
  added : item.isAction "ADD" = true →
    (∀ row ∈ (ownTable store table front).rows, ¬ item.Collides row.2) ∧
      ∃ iid, store.newInstance (ownTable store table front) = .ok (iid, 0)

/-- The condition on a request. -/
def BatchFits (store : MacStore) (table : MacTable) (items : List MacItem) : Prop :=
  ∀ front item back, items = front ++ item :: back → ItemFits store table front item

/-! ## Listed entries -/

variable {store : MacStore} {table current : MacTable} {items front rest : List MacItem}
  {item : MacItem} {row : InstNum × MacEntry}

/-- An index is the one that {lit}`GET` has listed. -/
theorem macGet_find? (filter : MacFilter) (index : Int) :
    ((zcfgFeDalMACFilterGet filter).find? (fun listed => listed.index = index)).map ListedEntry.entry =
      (atIndex filter.whiteList.rows index).map Prod.snd := by
  rw [zcfgFeDalMACFilterGet, find?_numbered ListedEntry.index index _ _ 1 (by simp), atIndex]
  by_cases hpos : index ≤ 0
  · rw [if_pos (by omega), if_pos hpos]
    rfl
  · rw [if_neg (by omega), if_neg hpos, Option.map_map]
    rfl

theorem MacItem.touches_of_dele (h : item.isAction "DELE" = true) : item.touches = true := by
  rw [MacItem.touches, h, Bool.true_or]

theorem MacItem.touches_of_edit (h : item.isAction "EDIT" = true) : item.touches = true := by
  rw [MacItem.touches, h, Bool.or_true]

/-- Without an object about an entry, it is left as it is. -/
theorem actedOn_untouched {n : Nat}
    (h : ∀ earlier ∈ front, earlier.touches = true → earlier.index ≠ n) :
    actedOn front n row = some row := by
  have hfind : front.find? (fun item => item.touches && item.index = (n : Int)) = none := by
    rw [List.find?_eq_none]
    intro earlier hmem hfound
    rw [Bool.and_eq_true, decide_eq_true_eq] at hfound
    exact h earlier hmem hfound.1 hfound.2
  rw [actedOn, hfind]

/-- The entry with the index of the last object. -/
theorem actedOn_concat_own {n : Nat} (htouch : item.touches = true) (hindex : item.index = n)
    (h : ∀ earlier ∈ front, earlier.touches = true → earlier.index ≠ n) :
    actedOn (front ++ [item]) n row =
      if item.isAction "DELE" then none else some (row.1, item.over row.2) := by
  have hfind : front.find? (fun item => item.touches && item.index = (n : Int)) = none := by
    rw [List.find?_eq_none]
    intro earlier hmem hfound
    rw [Bool.and_eq_true, decide_eq_true_eq] at hfound
    exact h earlier hmem hfound.1 hfound.2
  have hown : [item].find? (fun item => item.touches && item.index = (n : Int)) = some item := by
    rw [List.find?_singleton, if_pos (by simp [htouch, hindex])]
  rw [actedOn, List.find?_append, hfind, Option.none_or, hown]

/-- The other entries. -/
theorem actedOn_concat_other {n : Nat} (h : ¬ (item.touches = true ∧ item.index = n)) :
    actedOn (front ++ [item]) n row = actedOn front n row := by
  have hown : [item].find? (fun item => item.touches && item.index = (n : Int)) = none := by
    rw [List.find?_singleton, if_neg (by simpa using h)]
  rw [actedOn, List.find?_append, hown, Option.or_none, actedOn]

/-- An entry is dropped exactly if an object deletes it. -/
theorem actedOn_isSome_iff {n : Nat}
    (honce : front.Pairwise MacItem.Apart) :
    (actedOn front n row).isSome = true ↔
      ∀ earlier ∈ front, earlier.isAction "DELE" = true → earlier.index ≠ n := by
  rw [actedOn]
  cases hfind : front.find? (fun item => item.touches && item.index = (n : Int)) with
  | none =>
      refine iff_of_true rfl ?_
      intro earlier hmem hdele hindex
      have hnot := List.find?_eq_none.mp hfind earlier hmem
      exact hnot (by rw [MacItem.touches_of_dele hdele, hindex]; simp)
  | some found =>
      have hfound := List.find?_some hfind
      rw [Bool.and_eq_true, decide_eq_true_eq] at hfound
      have hmem := List.mem_of_find?_eq_some hfind
      simp only
      by_cases hdele : found.isAction "DELE" = true
      · rw [if_pos hdele]
        refine iff_of_false (by simp) ?_
        intro h
        exact h found hmem hdele hfound.2
      · rw [if_neg hdele]
        refine iff_of_true rfl ?_
        intro earlier hearlier hdele' hindex
        have hne : earlier ≠ found := fun heq => hdele (heq ▸ hdele')
        exact honce.forall hearlier hmem hne (MacItem.touches_of_dele hdele') hfound.1 (hindex.trans hfound.2.symm)

/-! ## Where an entry stands -/

/-- The table when the actions of some objects have been applied to their own entries. -/
def Batched (initial : MacEntry) (table : MacTable) (front : List MacItem) (current : MacTable) :
    Prop :=
  ∃ added, current.rows = survivors (actedOn front) 1 table.rows ++ added ∧
    added.map Prod.snd = addedEntries initial front

theorem batched_nil (initial : MacEntry) (table : MacTable) : Batched initial table [] table := by
  refine ⟨[], ?_, rfl⟩
  have hall : actedOn [] = fun _ row => some row := rfl
  rw [hall, survivors_some, List.append_nil]

theorem Batched.entries {initial : MacEntry} (h : Batched initial table items current) :
    current.rows.map Prod.snd = batchEntries initial table items := by
  obtain ⟨added, hrows, hadded⟩ := h
  rw [hrows, List.map_append, hadded, batchEntries]

/-- The objects in front of one that is about an entry are not about it. -/
theorem ListedIndices.untouched (h : ListedIndices table (front ++ item :: rest))
    (htouch : item.touches = true) {n : Nat} (hindex : item.index = n) :
    ∀ earlier ∈ front, earlier.touches = true → earlier.index ≠ n := by
  intro earlier hearlier htouch'
  have hapart := (List.pairwise_append.mp h.once).2.2 earlier hearlier item List.mem_cons_self
  exact hindex ▸ hapart htouch' htouch

/-- The listed entry of an object is still there, as it was. -/
theorem Batched.own_mem {initial : MacEntry} (hbatched : Batched initial table front current)
    (h : ListedIndices table (front ++ item :: rest)) (htouch : item.touches = true)
    (hrow : atIndex table.rows item.index = some row) : row ∈ current.rows := by
  obtain ⟨added, hrows, -⟩ := hbatched
  obtain ⟨n, hindex, hn⟩ := atIndex_eq_some_iff.mp hrow
  have hindex' : item.index = ((1 + n : Nat) : Int) := by omega
  rw [hrows]
  refine List.mem_append_left _ (mem_survivors_iff.mpr ⟨n, row, hn, ?_⟩)
  exact actedOn_untouched (h.untouched htouch hindex')

/-- An index still leads to its entry exactly if no smaller one has been deleted. -/
theorem convert_own_iff {initial : MacEntry} (hbatched : Batched initial table front current)
    (h : ListedIndices table (front ++ item :: rest)) (htouch : item.touches = true)
    (hrow : atIndex table.rows item.index = some row) (reply : DalReply) :
    convertIndextoIid current item.index reply = .ok row.1 ↔
      ∀ earlier ∈ front, earlier.isAction "DELE" = true → item.index < earlier.index := by
  have hmem := hbatched.own_mem h htouch hrow
  obtain ⟨added, hrows, -⟩ := hbatched
  obtain ⟨n, hindex, hn⟩ := atIndex_eq_some_iff.mp hrow
  have hindex' : item.index = ((1 + n : Nat) : Int) := by omega
  have huntouched := h.untouched htouch hindex'
  have honce := (List.pairwise_append.mp h.once).1
  have hnodup : (survivors (actedOn front) 1 table.rows ++ added).Nodup := by
    rw [← hrows]
    exact List.Nodup.of_map Prod.fst current.nodup
  have hat := getElem?_survivors_iff hn (actedOn_untouched huntouched) hnodup
  rw [← hrows] at hat
  have hok : convertIndextoIid current item.index reply = .ok row.1 ↔ current.rows[n]? = some row := by
    rw [hindex, convertIndextoIid_succ]
    cases hfound : current.rows[n]? with
    | none => simp
    | some found =>
        simp only [Except.ok.injEq, Option.some.injEq]
        constructor
        · intro hkey
          have hmem' : (row.1, found.2) ∈ current.rows := hkey ▸ List.mem_of_getElem? hfound
          have hvalue : found.2 = row.2 := KeyedTable.eq_of_mem hmem' hmem
          exact Prod.ext hkey hvalue
        · intro heq
          rw [heq]
  rw [hok, hat]
  constructor
  · intro hkept earlier hearlier hdele
    obtain ⟨row', hrow'⟩ := h.listed earlier (List.mem_append_left _ hearlier)
      (MacItem.touches_of_dele hdele)
    obtain ⟨j, hj, hj'⟩ := atIndex_eq_some_iff.mp hrow'
    have hne := huntouched earlier hearlier (MacItem.touches_of_dele hdele)
    by_contra hle
    have hsome := hkept j (by omega) row' hj'
    exact (actedOn_isSome_iff honce).mp hsome earlier hearlier hdele (by omega)
  · intro hahead j hjn row' hj'
    rw [actedOn_isSome_iff honce]
    intro earlier hearlier hdele heq
    have hlt := hahead earlier hearlier hdele
    omega

/-! ## One action -/

/-- An object has one action. -/
theorem MacItem.isAction_unique {action action' : String} (h : item.isAction action = true)
    (h' : item.isAction action' = true) : action.toList = action'.toList := by
  rw [MacItem.isAction, decide_eq_true_eq] at h h'
  exact Option.some.inj (h.symm.trans h')

theorem MacItem.action_ne_none {action : String} (h : item.isAction action = true) :
    item.action ≠ none := by
  rw [MacItem.isAction, decide_eq_true_eq] at h
  simp [h]

theorem MacItem.not_touches_of_add (h : item.isAction "ADD" = true) : item.touches ≠ true := by
  intro htouch
  rw [MacItem.touches, Bool.or_eq_true] at htouch
  rcases htouch with hdele | hedit
  · exact absurd (MacItem.isAction_unique h hdele) (by decide)
  · exact absurd (MacItem.isAction_unique h hedit) (by decide)

/-- No text of an object is taken exactly if it collides with no other entry. -/
theorem macDuplicate_eq_none_iff {iid : Option InstNum} {reply : DalReply} :
    macDuplicate current iid item reply = none ↔
      ∀ row ∈ current.rows, some row.1 ≠ iid → ¬ item.Collides row.2 := by
  have htaken : ∀ (key : MacEntry → List Char) (param : Option (List Char)),
      param.any (macParamTaken current iid key) = true ↔
        ∃ row ∈ current.rows, some row.1 ≠ iid ∧ param = some (key row.2) := by
    intro key param
    cases param with
    | none => simp
    | some text =>
        rw [Option.any_some, macParamTaken, List.any_eq_true]
        simp only [Bool.and_eq_true, decide_eq_true_eq, Option.some.injEq]
        exact exists_congr fun row => and_congr_right fun _ => and_comm
  rw [macDuplicate]
  split
  · rename_i hname
    obtain ⟨row, hrow, hne, heq⟩ := (htaken _ _).mp hname
    exact iff_of_false (by simp) (fun h => h row hrow hne (Or.inl heq))
  · rename_i hname
    split
    · rename_i hmac
      obtain ⟨row, hrow, hne, heq⟩ := (htaken _ _).mp hmac
      exact iff_of_false (by simp) (fun h => h row hrow hne (Or.inr heq))
    · rename_i hmac
      refine iff_of_true rfl ?_
      rintro row hrow hne (heq | heq)
      · exact hname ((htaken _ _).mpr ⟨row, hrow, hne, heq⟩)
      · exact hmac ((htaken _ _).mpr ⟨row, hrow, hne, heq⟩)

/-- What an object does to the rows, if it is about one of them. -/
def actOnRow (item : MacItem) (row other : InstNum × MacEntry) : Option (InstNum × MacEntry) :=
  if other.1 = row.1 then
    if item.isAction "DELE" then none else some (row.1, item.over row.2)
  else some other

theorem del_rows (hdele : item.isAction "DELE" = true) :
    (current.del row.1).rows = current.rows.filterMap (actOnRow item row) := by
  have hguard : actOnRow item row = Option.guard (fun other => other.1 ≠ row.1) := by
    funext other
    by_cases hkey : other.1 = row.1 <;> simp [actOnRow, hdele, hkey, Option.guard]
  rw [hguard, List.filterMap_eq_filter]
  rfl

theorem put_rows (hdele : item.isAction "DELE" ≠ true) :
    (current.put row.1 (item.over row.2)).rows = current.rows.filterMap (actOnRow item row) := by
  have hsome : actOnRow item row =
      some ∘ fun other => if other.1 = row.1 then (other.1, item.over row.2) else other := by
    funext other
    by_cases hkey : other.1 = row.1 <;> simp [actOnRow, hdele, hkey]
  rw [hsome, List.filterMap_eq_map]
  rfl

theorem actedOn_fst {n : Nat} {other : InstNum × MacEntry}
    (h : actedOn front n row = some other) : other.1 = row.1 := by
  rw [actedOn] at h
  split at h
  · exact (Option.some.inj h) ▸ rfl
  · split at h
    · exact absurd h (by simp)
    · exact (Option.some.inj h) ▸ rfl

theorem addedEntries_concat (initial : MacEntry) (front : List MacItem) (item : MacItem) :
    addedEntries initial (front ++ [item]) =
      addedEntries initial front ++ if item.isAction "ADD" then [item.over initial] else [] := by
  rw [addedEntries, List.filter_append, List.map_append, List.filter_singleton, addedEntries]
  cases item.isAction "ADD" <;> rfl

/-- Acting on its own row, an object keeps the table as it is to be. -/
theorem Batched.touched {initial : MacEntry} (hbatched : Batched initial table front current)
    (h : ListedIndices table (front ++ item :: rest)) (htouch : item.touches = true)
    (hrow : atIndex table.rows item.index = some row) {next : MacTable}
    (hnext : next.rows = current.rows.filterMap (actOnRow item row)) :
    Batched initial table (front ++ [item]) next := by
  obtain ⟨n, hindex, hn⟩ := atIndex_eq_some_iff.mp hrow
  have hindex' : item.index = ((1 + n : Nat) : Int) := by omega
  have huntouched := h.untouched htouch hindex'
  obtain ⟨added, hrows, hadded⟩ := hbatched
  refine ⟨added, ?_, ?_⟩
  · have hkept : ∀ other ∈ added, actOnRow item row other = some other := by
      intro other hother
      have hnodup := current.nodup
      rw [hrows, List.map_append, List.nodup_append] at hnodup
      have hown : row ∈ survivors (actedOn front) 1 table.rows :=
        mem_survivors_iff.mpr ⟨n, row, hn, actedOn_untouched huntouched⟩
      have hne := hnodup.2.2 row.1 (List.mem_map_of_mem hown) other.1 (List.mem_map_of_mem hother)
      rw [actOnRow, if_neg (Ne.symm hne)]
    have hsame : added.filterMap (actOnRow item row) = added := by
      rw [List.filterMap_congr hkept, List.filterMap_some]
    rw [hnext, hrows, List.filterMap_append, filterMap_survivors, hsame]
    congr 1
    refine survivors_congr (fun k other hk => ?_)
    by_cases hkn : k = n
    · subst hkn
      obtain rfl : row = other := Option.some.inj (hn.symm.trans hk)
      rw [actedOn_untouched huntouched, Option.bind_some, actOnRow, if_pos rfl,
        actedOn_concat_own htouch hindex' huntouched]
    · rw [actedOn_concat_other (by omega)]
      cases hacted : actedOn front (1 + k) other with
      | none => rfl
      | some left =>
          have hkey : other.1 ≠ row.1 := by
            intro heq
            have hk' : (table.rows.map Prod.fst)[k]? = some row.1 := by
              rw [List.getElem?_map, hk, Option.map_some, heq]
            have hn' : (table.rows.map Prod.fst)[n]? = some row.1 := by
              rw [List.getElem?_map, hn, Option.map_some]
            obtain ⟨hlt, -⟩ := List.getElem?_eq_some_iff.mp hk'
            exact hkn ((List.getElem?_inj hlt table.nodup).mp (hk'.trans hn'.symm))
          rw [Option.bind_some, actOnRow, if_neg (by rw [actedOn_fst hacted]; exact hkey)]
  · have hadd : item.isAction "ADD" = false := by
      rw [Bool.eq_false_iff]
      exact fun hadd => MacItem.not_touches_of_add hadd htouch
    rw [addedEntries_concat, hadd, hadded]
    simp

/-- An object that is about no listed entry leaves them as they are. -/
theorem survivors_concat (htouch : item.touches ≠ true) :
    survivors (actedOn (front ++ [item])) 1 table.rows = survivors (actedOn front) 1 table.rows :=
  survivors_congr (fun _ _ _ => actedOn_concat_other (fun h => htouch h.1))

theorem Batched.appended {initial : MacEntry} (hbatched : Batched initial table front current)
    (hadd : item.isAction "ADD" = true) {iid : InstNum} (hfresh : iid ∉ current.rows.map Prod.fst) :
    Batched initial table (front ++ [item]) (current.add iid (item.over initial) hfresh) := by
  obtain ⟨added, hrows, hadded⟩ := hbatched
  refine ⟨added ++ [(iid, item.over initial)], ?_, ?_⟩
  · change current.rows ++ [(iid, item.over initial)] = _
    rw [hrows, survivors_concat (MacItem.not_touches_of_add hadd), List.append_assoc]
  · rw [addedEntries_concat, if_pos hadd, List.map_append, hadded]
    rfl

theorem Batched.skipped {initial : MacEntry} (hbatched : Batched initial table front current)
    (htouch : item.touches ≠ true) (hadd : item.isAction "ADD" ≠ true) :
    Batched initial table (front ++ [item]) current := by
  obtain ⟨added, hrows, hadded⟩ := hbatched
  refine ⟨added, ?_, ?_⟩
  · rw [hrows, survivors_concat htouch]
  · rw [addedEntries_concat, if_neg hadd, hadded, List.append_nil]

/-! ## The loop takes one object -/

variable {ret : ZcfgRet} {reply : DalReply}

theorem macFilterLoop_dele (hdele : item.isAction "DELE" = true) :
    macFilterLoop store (item :: rest) ret reply current =
      match convertIndextoIid current item.index reply with
      | .error (ret, reply) => ⟨.returned, ret, reply, current, []⟩
      | .ok iid => (macFilterLoop store rest .success reply (current.del iid)).after [.del iid] := by
  rw [macFilterLoop, if_neg (MacItem.action_ne_none hdele), if_pos hdele]

theorem macFilterLoop_edit (hedit : item.isAction "EDIT" = true) :
    macFilterLoop store (item :: rest) ret reply current =
      match convertIndextoIid current item.index reply with
      | .error (ret, reply) => ⟨.returned, ret, reply, current, []⟩
      | .ok iid =>
          match macDuplicate current (some iid) item reply with
          | some reply => ⟨.returned, .invalidParamValue, reply, current, []⟩
          | none =>
              match current.get iid with
              | none => (macFilterLoop store rest .noSuchObject reply current).after []
              | some old =>
                  (macFilterLoop store rest .success reply (current.put iid (item.over old))).after
                    [.set iid (item.over old)] := by
  have hdele : item.isAction "DELE" ≠ true :=
    fun hdele => absurd (MacItem.isAction_unique hedit hdele) (by decide)
  have hadd : item.isAction "ADD" ≠ true :=
    fun hadd => absurd (MacItem.isAction_unique hedit hadd) (by decide)
  rw [macFilterLoop, if_neg (MacItem.action_ne_none hedit), if_neg hdele, if_neg hadd, if_pos hedit]

theorem macFilterLoop_add_duplicate (hadd : item.isAction "ADD" = true) {reply' : DalReply}
    (hdup : macDuplicate current none item reply = some reply') :
    macFilterLoop store (item :: rest) ret reply current =
      ⟨.returned, .invalidParamValue, reply', current, []⟩ := by
  have hdele : item.isAction "DELE" ≠ true :=
    fun hdele => absurd (MacItem.isAction_unique hadd hdele) (by decide)
  rw [macFilterLoop, if_neg (MacItem.action_ne_none hadd), if_neg hdele, if_pos hadd, hdup]

theorem macFilterLoop_add (store : MacStore) (rest : List MacItem) (ret : ZcfgRet)
    (hadd : item.isAction "ADD" = true)
    (hdup : macDuplicate current none item reply = none) :
    (∃ failed, store.newInstance current = .error failed ∧
      macFilterLoop store (item :: rest) ret reply current =
        (macFilterLoop store rest failed reply current).after []) ∨
    ∃ place, ∃ h : store.newInstance current = .ok place,
      macFilterLoop store (item :: rest) ret reply current =
        (macFilterLoop store rest .success reply
          ((current.insert place.2 place.1 store.initial (store.fresh current place h)).put place.1
            (item.over store.initial))).after
          [.add place.1 place.2, .set place.1 (item.over store.initial)] := by
  have hdele : item.isAction "DELE" ≠ true :=
    fun hdele => absurd (MacItem.isAction_unique hadd hdele) (by decide)
  rw [macFilterLoop, if_neg (MacItem.action_ne_none hadd), if_neg hdele, if_pos hadd, hdup]
  simp only
  split
  · rename_i failed hfailed
    exact Or.inl ⟨failed, hfailed, rfl⟩
  · rename_i place hplace
    exact Or.inr ⟨place, hplace, rfl⟩

theorem macFilterLoop_other (hsome : item.action ≠ none) (htouch : item.touches ≠ true)
    (hadd : item.isAction "ADD" ≠ true) :
    macFilterLoop store (item :: rest) ret reply current =
      (macFilterLoop store rest .notFound reply current).after [] := by
  rw [macFilterLoop, if_neg hsome, if_neg (fun h => htouch (MacItem.touches_of_dele h)), if_neg hadd,
    if_neg (fun h => htouch (MacItem.touches_of_edit h))]

/-! ## Own calls by action -/

theorem ownCalls_dele {initial : MacEntry} {listed : List (InstNum × MacEntry)}
    {calls : List MacCall} (hdele : item.isAction "DELE" = true) :
    OwnCalls initial listed item calls ↔
      ∃ row, atIndex listed item.index = some row ∧ calls = [.del row.1] := by
  rw [OwnCalls, if_pos hdele]

theorem ownCalls_edit {initial : MacEntry} {listed : List (InstNum × MacEntry)}
    {calls : List MacCall} (hedit : item.isAction "EDIT" = true) :
    OwnCalls initial listed item calls ↔
      ∃ row, atIndex listed item.index = some row ∧ calls = [.set row.1 (item.over row.2)] := by
  have hdele : item.isAction "DELE" ≠ true :=
    fun hdele => absurd (MacItem.isAction_unique hedit hdele) (by decide)
  rw [OwnCalls, if_neg hdele, if_pos hedit]

theorem ownCalls_add {initial : MacEntry} {listed : List (InstNum × MacEntry)}
    {calls : List MacCall} (hadd : item.isAction "ADD" = true) :
    OwnCalls initial listed item calls ↔
      ∃ iid, calls = [.add iid 0, .set iid (item.over initial)] := by
  have htouch := MacItem.not_touches_of_add hadd
  rw [OwnCalls, if_neg (fun h => htouch (MacItem.touches_of_dele h)),
    if_neg (fun h => htouch (MacItem.touches_of_edit h)), if_pos hadd]

theorem ownCalls_other {initial : MacEntry} {listed : List (InstNum × MacEntry)}
    {calls : List MacCall} (htouch : item.touches ≠ true) (hadd : item.isAction "ADD" ≠ true) :
    OwnCalls initial listed item calls ↔ calls = [] := by
  rw [OwnCalls, if_neg (fun h => htouch (MacItem.touches_of_dele h)),
    if_neg (fun h => htouch (MacItem.touches_of_edit h)), if_neg hadd]

/-! ## One step -/

/-- The loop has stopped in front of an object. -/
theorem not_applies_nil {initial : MacEntry} {listed : List (InstNum × MacEntry)} :
    ¬ AppliesEach initial listed (item :: rest) [] :=
  fun h => absurd h (by simp [AppliesEach])

theorem itemFits_of_dele (hbatched : Batched store.initial table front current)
    (h : ListedIndices table (front ++ item :: rest)) (hdele : item.isAction "DELE" = true)
    (happlies : AppliesEach store.initial table.rows (item :: rest)
      (macFilterLoop store (item :: rest) ret reply current).trace) :
    ItemFits store table front item := by
  have htouch := MacItem.touches_of_dele hdele
  obtain ⟨row, hrow⟩ := h.listed item (by simp) htouch
  rw [macFilterLoop_dele hdele] at happlies
  cases hindex : convertIndextoIid current item.index reply with
  | error failed =>
      rw [hindex] at happlies
      exact absurd happlies not_applies_nil
  | ok iid =>
      rw [hindex] at happlies
      obtain ⟨hcalls, -⟩ := List.forall₂_cons.mp happlies
      obtain ⟨own, hown, heq⟩ := (ownCalls_dele hdele).mp hcalls
      obtain rfl : row = own := Option.some.inj (hrow.symm.trans hown)
      obtain rfl : iid = row.1 := by simpa using heq
      exact
        { action := MacItem.action_ne_none hdele
          ahead := fun _ => (convert_own_iff hbatched h htouch hrow reply).mp hindex
          edited := fun hedit => absurd (MacItem.isAction_unique hdele hedit) (by decide)
          added := fun hadd => absurd htouch (MacItem.not_touches_of_add hadd) }

theorem itemFits_of_edit (hbatched : Batched store.initial table front current)
    (hcurrent : current = ownTable store table front)
    (h : ListedIndices table (front ++ item :: rest)) (hedit : item.isAction "EDIT" = true)
    (happlies : AppliesEach store.initial table.rows (item :: rest)
      (macFilterLoop store (item :: rest) ret reply current).trace) :
    ItemFits store table front item := by
  have htouch := MacItem.touches_of_edit hedit
  obtain ⟨row, hrow⟩ := h.listed item (by simp) htouch
  rw [macFilterLoop_edit hedit] at happlies
  cases hindex : convertIndextoIid current item.index reply with
  | error failed =>
      rw [hindex] at happlies
      exact absurd happlies not_applies_nil
  | ok iid =>
      rw [hindex] at happlies
      simp only at happlies
      cases hdup : macDuplicate current (some iid) item reply with
      | some reply' =>
          rw [hdup] at happlies
          exact absurd happlies not_applies_nil
      | none =>
          obtain ⟨old, hold⟩ := convertIndextoIid_get hindex
          rw [hdup] at happlies
          simp only [hold] at happlies
          obtain ⟨hcalls, -⟩ := List.forall₂_cons.mp happlies
          obtain ⟨own, hown, heq⟩ := (ownCalls_edit hedit).mp hcalls
          obtain rfl : row = own := Option.some.inj (hrow.symm.trans hown)
          obtain ⟨rfl, -⟩ : iid = row.1 ∧ item.over old = item.over row.2 := by simpa using heq
          refine
            { action := MacItem.action_ne_none hedit
              ahead := fun _ => (convert_own_iff hbatched h htouch hrow reply).mp hindex
              edited := ?_
              added := fun hadd => absurd htouch (MacItem.not_touches_of_add hadd) }
          intro _ own' hown' other hother hne
          obtain rfl : row = own' := Option.some.inj (hrow.symm.trans hown')
          rw [← hcurrent] at hother
          exact macDuplicate_eq_none_iff.mp hdup other hother (fun heq => hne (Option.some.inj heq))

theorem itemFits_of_add (hcurrent : current = ownTable store table front)
    (hadd : item.isAction "ADD" = true)
    (happlies : AppliesEach store.initial table.rows (item :: rest)
      (macFilterLoop store (item :: rest) ret reply current).trace) :
    ItemFits store table front item := by
  have htouch := MacItem.not_touches_of_add hadd
  cases hdup : macDuplicate current none item reply with
  | some reply' =>
      rw [macFilterLoop_add_duplicate hadd hdup] at happlies
      exact absurd happlies not_applies_nil
  | none =>
      rcases macFilterLoop_add store rest ret hadd hdup with
        ⟨failed, -, hloop⟩ | ⟨place, hplace, hloop⟩
      · rw [hloop] at happlies
        obtain ⟨hcalls, -⟩ := List.forall₂_cons.mp happlies
        obtain ⟨iid, heq⟩ := (ownCalls_add hadd).mp hcalls
        exact absurd heq (by simp)
      · rw [hloop] at happlies
        obtain ⟨hcalls, -⟩ := List.forall₂_cons.mp happlies
        obtain ⟨iid, heq⟩ := (ownCalls_add hadd).mp hcalls
        obtain ⟨-, hbehind⟩ : place.1 = iid ∧ place.2 = 0 := by
          simp only [List.cons.injEq, MacCall.add.injEq] at heq
          exact heq.1
        refine
          { action := MacItem.action_ne_none hadd
            ahead := fun h => absurd h htouch
            edited := fun hedit => absurd (MacItem.touches_of_edit hedit) htouch
            added := fun _ => ⟨?_, place.1, ?_⟩ }
        · intro other hother
          rw [← hcurrent] at hother
          exact macDuplicate_eq_none_iff.mp hdup other hother (by simp)
        · rw [← hcurrent, hplace, ← hbehind]

/-- An object whose calls are its own fits. -/
theorem itemFits_of_applies (hbatched : Batched store.initial table front current)
    (hcurrent : current = ownTable store table front)
    (h : ListedIndices table (front ++ item :: rest))
    (happlies : AppliesEach store.initial table.rows (item :: rest)
      (macFilterLoop store (item :: rest) ret reply current).trace) :
    ItemFits store table front item := by
  by_cases hdele : item.isAction "DELE" = true
  · exact itemFits_of_dele hbatched h hdele happlies
  by_cases hedit : item.isAction "EDIT" = true
  · exact itemFits_of_edit hbatched hcurrent h hedit happlies
  by_cases hadd : item.isAction "ADD" = true
  · exact itemFits_of_add hcurrent hadd happlies
  have htouch : item.touches ≠ true := by simp [MacItem.touches, hdele, hedit]
  refine
    { action := ?_
      ahead := fun h => absurd h htouch
      edited := fun h => absurd h hedit
      added := fun h => absurd h hadd }
  intro hnone
  rw [macFilterLoop, if_pos hnone] at happlies
  exact absurd happlies not_applies_nil

/-- An object makes its own calls, and leaves the table as it is to be. -/
def TakesStep (store : MacStore) (table : MacTable) (front : List MacItem) (current : MacTable)
    (item : MacItem) (reply : DalReply) : Prop :=
  ∃ ret' calls, OwnCalls store.initial table.rows item calls ∧
    Batched store.initial table (front ++ [item]) (ownStep store table.rows current item) ∧
    ∀ rest ret, macFilterLoop store (item :: rest) ret reply current =
      (macFilterLoop store rest ret' reply (ownStep store table.rows current item)).after calls

theorem takesStep_dele (hbatched : Batched store.initial table front current)
    (h : ListedIndices table (front ++ item :: rest)) (hfits : ItemFits store table front item)
    (hdele : item.isAction "DELE" = true) (reply : DalReply) :
    TakesStep store table front current item reply := by
  have htouch := MacItem.touches_of_dele hdele
  obtain ⟨row, hrow⟩ := h.listed item (by simp) htouch
  have hstep : ownStep store table.rows current item = current.del row.1 := by
    rw [ownStep, if_pos hdele, hrow]
  have hindex := (convert_own_iff hbatched h htouch hrow reply).mpr (hfits.ahead htouch)
  refine ⟨.success, [.del row.1], (ownCalls_dele hdele).mpr ⟨row, hrow, rfl⟩, ?_, fun rest ret => ?_⟩
  · rw [hstep]
    exact hbatched.touched h htouch hrow (del_rows hdele)
  · rw [macFilterLoop_dele hdele, hindex, hstep]

theorem takesStep_edit (hbatched : Batched store.initial table front current)
    (hcurrent : current = ownTable store table front)
    (h : ListedIndices table (front ++ item :: rest)) (hfits : ItemFits store table front item)
    (hedit : item.isAction "EDIT" = true) (reply : DalReply) :
    TakesStep store table front current item reply := by
  have htouch := MacItem.touches_of_edit hedit
  have hdele : item.isAction "DELE" ≠ true :=
    fun hdele => absurd (MacItem.isAction_unique hedit hdele) (by decide)
  obtain ⟨row, hrow⟩ := h.listed item (by simp) htouch
  have hstep : ownStep store table.rows current item = current.put row.1 (item.over row.2) := by
    rw [ownStep, if_neg hdele, if_pos hedit, hrow]
  have hindex := (convert_own_iff hbatched h htouch hrow reply).mpr (hfits.ahead htouch)
  have hold : current.get row.1 = some row.2 :=
    KeyedTable.get_eq_some_iff.mpr (hbatched.own_mem h htouch hrow)
  have hdup : macDuplicate current (some row.1) item reply = none := by
    rw [macDuplicate_eq_none_iff]
    intro other hother hne
    rw [hcurrent] at hother
    exact hfits.edited hedit row hrow other hother (fun heq => hne (congrArg some heq))
  refine ⟨.success, [.set row.1 (item.over row.2)], (ownCalls_edit hedit).mpr ⟨row, hrow, rfl⟩,
    ?_, fun rest ret => ?_⟩
  · rw [hstep]
    exact hbatched.touched h htouch hrow (put_rows hdele)
  · rw [macFilterLoop_edit hedit, hindex]
    simp only [hdup, hold, hstep]

theorem takesStep_add (hbatched : Batched store.initial table front current)
    (hcurrent : current = ownTable store table front) (hfits : ItemFits store table front item)
    (hadd : item.isAction "ADD" = true) (reply : DalReply) :
    TakesStep store table front current item reply := by
  have htouch := MacItem.not_touches_of_add hadd
  obtain ⟨hfree, iid, hnew⟩ := hfits.added hadd
  rw [← hcurrent] at hfree hnew
  have hdup : macDuplicate current none item reply = none :=
    macDuplicate_eq_none_iff.mpr (fun other hother _ => hfree other hother)
  have hstep : ownStep store table.rows current item =
      current.add iid (item.over store.initial) (store.fresh current (iid, 0) hnew) := by
    rw [ownStep, if_neg (fun h => htouch (MacItem.touches_of_dele h)),
      if_neg (fun h => htouch (MacItem.touches_of_edit h)), if_pos hadd]
    split
    · rename_i failed hfailed
      exact absurd (hnew.symm.trans hfailed) (by simp)
    · rename_i place hplace
      obtain rfl : (iid, 0) = place := Except.ok.inj (hnew.symm.trans hplace)
      rfl
  refine ⟨.success, [.add iid 0, .set iid (item.over store.initial)],
    (ownCalls_add hadd).mpr ⟨iid, rfl⟩, ?_, fun rest ret => ?_⟩
  · rw [hstep]
    exact hbatched.appended hadd _
  · rcases macFilterLoop_add store rest ret hadd hdup with
      ⟨failed, hfailed, -⟩ | ⟨place, hplace, hloop⟩
    · exact absurd (hnew.symm.trans hfailed) (by simp)
    · obtain rfl : (iid, 0) = place := Except.ok.inj (hnew.symm.trans hplace)
      rw [hloop, hstep, KeyedTable.insert_zero, KeyedTable.put_add]

/-- An object that fits makes its own calls. -/
theorem macFilterLoop_step (hbatched : Batched store.initial table front current)
    (hcurrent : current = ownTable store table front)
    (h : ListedIndices table (front ++ item :: rest)) (hfits : ItemFits store table front item)
    (reply : DalReply) : TakesStep store table front current item reply := by
  by_cases hdele : item.isAction "DELE" = true
  · exact takesStep_dele hbatched h hfits hdele reply
  by_cases hedit : item.isAction "EDIT" = true
  · exact takesStep_edit hbatched hcurrent h hfits hedit reply
  by_cases hadd : item.isAction "ADD" = true
  · exact takesStep_add hbatched hcurrent hfits hadd reply
  have htouch : item.touches ≠ true := by simp [MacItem.touches, hdele, hedit]
  have hstep : ownStep store table.rows current item = current := by
    rw [ownStep, if_neg hdele, if_neg hedit, if_neg hadd]
  refine ⟨.notFound, [], (ownCalls_other htouch hadd).mpr rfl, ?_, fun rest ret => ?_⟩
  · rw [hstep]
    exact hbatched.skipped htouch hadd
  · rw [macFilterLoop_other hfits.action htouch hadd, hstep]

/-! ## All objects -/

/-- What holds of each element behind those in front of it. -/
theorem forall_split_cons {α : Type} {P : List α → α → Prop} {a : α} {l : List α} :
    (∀ front x back, a :: l = front ++ x :: back → P front x) ↔
      P [] a ∧ ∀ front x back, l = front ++ x :: back → P (a :: front) x := by
  constructor
  · intro h
    refine ⟨h [] a l rfl, ?_⟩
    rintro front x back rfl
    exact h (a :: front) x back rfl
  · rintro ⟨hhead, htail⟩ front x back heq
    cases front with
    | nil =>
        obtain ⟨rfl, -⟩ := List.cons.inj heq
        exact hhead
    | cons b front =>
        obtain ⟨rfl, heq'⟩ := List.cons.inj heq
        exact htail front x back heq'

theorem ownTable_concat (front : List MacItem) (item : MacItem) :
    ownTable store table (front ++ [item]) =
      ownStep store table.rows (ownTable store table front) item := by
  rw [ownTable, List.foldl_append]
  rfl

/-- The loop over the rest of a request, when the objects in front have been applied to their own entries. -/
theorem macFilterLoop_applies_iff (store : MacStore) (table : MacTable) (items : List MacItem) :
    ∀ {front : List MacItem} {current : MacTable} (ret : ZcfgRet) (reply : DalReply),
      Batched store.initial table front current → current = ownTable store table front →
      ListedIndices table (front ++ items) →
      (AppliesEach store.initial table.rows items (macFilterLoop store items ret reply current).trace ↔
        ∀ front' item back, items = front' ++ item :: back →
          ItemFits store table (front ++ front') item) ∧
      (AppliesEach store.initial table.rows items (macFilterLoop store items ret reply current).trace →
        Batched store.initial table (front ++ items) (macFilterLoop store items ret reply current).table) := by
  induction items with
  | nil =>
      intro front current ret reply hbatched _ _
      refine ⟨iff_of_true .nil (fun front' item back heq => absurd heq (by simp)), fun _ => ?_⟩
      rw [List.append_nil]
      exact hbatched
  | cons item rest ih =>
      intro front current ret reply hbatched hcurrent h
      rw [forall_split_cons, List.append_nil]
      by_cases hfits : ItemFits store table front item
      · obtain ⟨ret', calls, hcalls, hbatched', hloop⟩ :=
          macFilterLoop_step hbatched hcurrent h hfits reply
        have happend : front ++ item :: rest = (front ++ [item]) ++ rest := by simp
        have hcurrent' : ownStep store table.rows current item =
            ownTable store table (front ++ [item]) := by
          rw [ownTable_concat, hcurrent]
        rw [happend] at h
        obtain ⟨hiff, htable⟩ := ih ret' reply hbatched' hcurrent' h
        rw [hloop rest ret, happend]
        have hcons : AppliesEach store.initial table.rows (item :: rest)
            ((macFilterLoop store rest ret' reply (ownStep store table.rows current item)).after calls).trace ↔
            AppliesEach store.initial table.rows rest
              (macFilterLoop store rest ret' reply (ownStep store table.rows current item)).trace :=
          List.forall₂_cons.trans (and_iff_right hcalls)
        rw [hcons]
        refine ⟨?_, htable⟩
        rw [and_iff_right hfits, hiff]
        have hassoc : ∀ front', (front ++ [item]) ++ front' = front ++ item :: front' := by simp
        simp only [hassoc]
      · have hnot : ¬ AppliesEach store.initial table.rows (item :: rest)
            (macFilterLoop store (item :: rest) ret reply current).trace :=
          fun happlies => hfits (itemFits_of_applies hbatched hcurrent h happlies)
        exact ⟨iff_of_false hnot (fun hall => hfits hall.1), fun happlies => absurd happlies hnot⟩

/-- Each action of a request is applied to the entry that was listed with its index exactly if all objects fit,
and then the listed entries with their actions applied are left, and the added ones behind them. -/
theorem macBatch_iff (store : MacStore) (filter : MacFilter) (first : Option (Bool × Bool))
    (items : List MacItem) (reply : DalReply) (h : ListedIndices filter.whiteList items) :
    (AppliesEach store.initial filter.whiteList.rows items
        (zcfgFeDalMACFilterEdit store filter first items reply).1.trace ↔
      BatchFits store filter.whiteList items) ∧
    (AppliesEach store.initial filter.whiteList.rows items
        (zcfgFeDalMACFilterEdit store filter first items reply).1.trace →
      (zcfgFeDalMACFilterGet (zcfgFeDalMACFilterEdit store filter first items reply).2).map
          ListedEntry.entry =
        batchEntries store.initial filter.whiteList items) := by
  have hrun : (zcfgFeDalMACFilterEdit store filter first items reply).1 =
      macFilterLoop store items .success reply filter.whiteList := by
    unfold zcfgFeDalMACFilterEdit
    simp only
    split <;> rfl
  have hlist : (zcfgFeDalMACFilterEdit store filter first items reply).2.whiteList =
      (macFilterLoop store items .success reply filter.whiteList).table := by
    unfold zcfgFeDalMACFilterEdit
    simp only
    split <;> rfl
  obtain ⟨hiff, htable⟩ := macFilterLoop_applies_iff store filter.whiteList items
    .success reply (batched_nil store.initial filter.whiteList) rfl h
  rw [hrun]
  refine ⟨hiff, fun happlies => ?_⟩
  have hentries : ∀ other : MacFilter,
      (zcfgFeDalMACFilterGet other).map ListedEntry.entry = other.whiteList.rows.map Prod.snd := by
    intro other
    apply List.ext_getElem?
    intro n
    rw [zcfgFeDalMACFilterGet, List.getElem?_map, List.getElem?_mapIdx, List.getElem?_map,
      Option.map_map]
    rfl
  rw [hentries, hlist]
  exact (htable happlies).entries

/-- A store that gives a new entry the first free number and lists entries by their numbers. -/
def MacStore.firstFree (initial : MacEntry) : MacStore where
  newInstance table :=
    ((InstanceStore.firstFree initial).newInstance table).map
      (fun n => (n, table.rows.countP (fun row => n.toInt < row.1.toInt)))
  initial := initial
  fresh := by
    intro table place h
    cases hnew : (InstanceStore.firstFree initial).newInstance table with
    | error ret =>
        rw [hnew] at h
        exact absurd h (by simp [Except.map])
    | ok n =>
        rw [hnew] at h
        obtain rfl := Except.ok.inj h
        exact (InstanceStore.firstFree initial).fresh table n hnew

/-- An entry as it is created. -/
def blankEntry : MacEntry where
  enable := false
  hostName := []
  macAddress := []

/-- Three entries. -/
def threeHosts : MacFilter where
  enable := true
  restrict := false
  whiteList :=
    { rows :=
        [(⟨1, InstNum.one_ne⟩, ⟨true, "a".toList, "00:00:00:00:00:01".toList⟩),
          (⟨2, InstNum.two_ne⟩, ⟨true, "b".toList, "00:00:00:00:00:02".toList⟩),
          (⟨3, InstNum.three_ne⟩, ⟨true, "c".toList, "00:00:00:00:00:03".toList⟩)]
      nodup := by decide }

/-- An object that deletes an entry. -/
def deleItem (index : Int) : MacItem where
  action := some "DELE".toList
  index := index
  listEnable := none
  hostName := none
  macAddress := none

theorem threeHosts_indices {i j : Int} (hi : 1 ≤ i ∧ i ≤ 3) (hj : 1 ≤ j ∧ j ≤ 3) (hne : i ≠ j) :
    ListedIndices threeHosts.whiteList [deleItem i, deleItem j] := by
  have hrow : ∀ k : Int, 1 ≤ k ∧ k ≤ 3 → ∃ row, atIndex threeHosts.whiteList.rows k = some row := by
    intro k hk
    have hlt : (k - 1).toNat < threeHosts.whiteList.rows.length := by
      change (k - 1).toNat < 3
      omega
    exact ⟨_, atIndex_eq_some_iff.mpr ⟨(k - 1).toNat, by omega, List.getElem?_eq_getElem hlt⟩⟩
  constructor
  · intro item hitem _
    rcases List.mem_pair.mp hitem with rfl | rfl
    · exact hrow i hi
    · exact hrow j hj
  · rw [List.pairwise_pair]
    exact fun _ _ heq => hne heq

/-- The last entry is deleted in front of the first one. -/
theorem macBatch_descending :
    (AppliesEach blankEntry threeHosts.whiteList.rows [deleItem 3, deleItem 1]
        (zcfgFeDalMACFilterEdit (.firstFree blankEntry) threeHosts none
          [deleItem 3, deleItem 1] .empty).1.trace ↔
      BatchFits (.firstFree blankEntry) threeHosts.whiteList [deleItem 3, deleItem 1]) ∧
    (AppliesEach blankEntry threeHosts.whiteList.rows [deleItem 3, deleItem 1]
        (zcfgFeDalMACFilterEdit (.firstFree blankEntry) threeHosts none
          [deleItem 3, deleItem 1] .empty).1.trace →
      (zcfgFeDalMACFilterGet (zcfgFeDalMACFilterEdit (.firstFree blankEntry) threeHosts none
          [deleItem 3, deleItem 1] .empty).2).map ListedEntry.entry =
        batchEntries blankEntry threeHosts.whiteList [deleItem 3, deleItem 1]) :=
  macBatch_iff (.firstFree blankEntry) threeHosts none [deleItem 3, deleItem 1] .empty
    (threeHosts_indices (by decide) (by decide) (by decide))

/-- The first two entries are to be deleted, and the first and the third are. -/
theorem third_host_deleted :
    ¬ ∀ (store : MacStore) (filter : MacFilter) (first : Option (Bool × Bool)) (items : List MacItem)
      (reply : DalReply), ListedIndices filter.whiteList items →
      (zcfgFeDalMACFilterGet (zcfgFeDalMACFilterEdit store filter first items reply).2).map
          ListedEntry.entry =
        batchEntries store.initial filter.whiteList items := by
  intro hall
  have hlisted := hall (.firstFree blankEntry) threeHosts none [deleItem 1, deleItem 2] .empty
    (threeHosts_indices (by decide) (by decide) (by decide))
  exact absurd hlisted (by decide +kernel)

end FeDal
end ZyxelRouter
