import ZyxelRouter.Lib.StepRuns
import ZyxelRouter.FeDal.AddressText

/-!
# Address mapping

Rules that map local addresses to global ones: one to one, many to one or many to many.
{lit}`zcfgFeDalNatAddrMappingEdit` checks the addresses of the merged rule by its type;
{lit}`zcfgFeDalNatAddrMappingAdd` stores what the request holds.

Main results:

- Theorem {lit}`validateMapping_ok_iff`: when a rule that passes the checks is well-formed.
- Theorem {lit}`addrStep_ok_iff`: the requests after which all rules are well-formed.
- Theorem {lit}`addrMapping_run_iff`: the same for runs, and the addresses that {lit}`ip4Compare` orders.
-/

namespace ZyxelRouter
namespace FeDal

open Lib

/-! ## The table -/

/-- The parameters of {lit}`RDM_OID_NAT_ADDR_MAPPING`. -/
structure AddrMapping where
  type : List Char
  localStartIP : List Char
  localEndIP : List Char
  globalStartIP : List Char
  globalEndIP : List Char
  mappingRuleName : List Char
  interface : List Char
  autoDetectWanStatus : Bool
deriving DecidableEq

/-- The rules of the store. -/
abbrev AddrTable := KeyedTable InstNum AddrMapping

/-- The fields of {lit}`NAT_ADDR_MAPPING_param` in a request, and {lit}`iid`. -/
structure AddrFields where
  iid : Option (List Int)
  index : Option Int
  type : Option (List Char)
  localStartIP : Option (List Char)
  localEndIP : Option (List Char)
  globalStartIP : Option (List Char)
  globalEndIP : Option (List Char)
  mappingRuleName : Option (List Char)
  interface : Option (List Char)
  autoDetectWanStatus : Option Bool

/-! ## The types of rules -/

/-- The values of {lit}`Type`. -/
inductive MappingType where
  | oneToOne
  | manyToOne
  | manyToMany
deriving DecidableEq

/-- The text of a type. -/
def MappingType.text : MappingType → List Char
  | .oneToOne => "One-to-One".toList
  | .manyToOne => "Many-to-One".toList
  | .manyToMany => "Many-to-Many".toList

/-- The comparisons of {lit}`Type`. -/
def MappingType.ofText (text : List Char) : Option MappingType :=
  [.oneToOne, .manyToOne, .manyToMany].find? (fun t : MappingType => t.text = text)

/-- The addresses of a rule. -/
inductive AddressField where
  | localStartIP
  | localEndIP
  | globalStartIP
  | globalEndIP
deriving DecidableEq

/-- The name of an address. -/
def AddressField.name : AddressField → String
  | .localStartIP => "LocalStartIP"
  | .localEndIP => "LocalEndIP"
  | .globalStartIP => "GlobalStartIP"
  | .globalEndIP => "GlobalEndIP"

/-- An address of a rule. -/
def AddrMapping.address (rule : AddrMapping) : AddressField → List Char
  | .localStartIP => rule.localStartIP
  | .localEndIP => rule.localEndIP
  | .globalStartIP => rule.globalStartIP
  | .globalEndIP => rule.globalEndIP

/-- The addresses of a type, in the order in which they are checked. -/
def MappingType.used : MappingType → List AddressField
  | .oneToOne => [.localStartIP, .globalStartIP]
  | .manyToOne => [.localStartIP, .localEndIP, .globalStartIP]
  | .manyToMany => [.localStartIP, .localEndIP, .globalStartIP, .globalEndIP]

/-- A range: its name, its first and its last address. -/
structure AddressRange where
  name : String
  first : AddressField
  last : AddressField

/-- {lit}`LocalStartIP` to {lit}`LocalEndIP`. -/
def localRange : AddressRange := ⟨"Local", .localStartIP, .localEndIP⟩

/-- {lit}`GlobalStartIP` to {lit}`GlobalEndIP`. -/
def globalRange : AddressRange := ⟨"Global", .globalStartIP, .globalEndIP⟩

/-- The ranges of a type. -/
def MappingType.ranges : MappingType → List AddressRange
  | .oneToOne => []
  | .manyToOne => [localRange]
  | .manyToMany => [localRange, globalRange]

/-- The end addresses that a type does not use are made empty. -/
def MappingType.clear : MappingType → AddrMapping → AddrMapping
  | .oneToOne, rule => { rule with localEndIP := [], globalEndIP := [] }
  | .manyToOne, rule => { rule with globalEndIP := [] }
  | .manyToMany, rule => rule

/-! ## The operations -/

/-- The fields of a request over those of a rule. -/
def overlaid (old : AddrMapping) (req : AddrFields) : AddrMapping where
  type := req.type.getD old.type
  localStartIP := req.localStartIP.getD old.localStartIP
  localEndIP := req.localEndIP.getD old.localEndIP
  globalStartIP := req.globalStartIP.getD old.globalStartIP
  globalEndIP := req.globalEndIP.getD old.globalEndIP
  mappingRuleName := req.mappingRuleName.getD old.mappingRuleName
  interface := req.interface.getD old.interface
  autoDetectWanStatus := req.interface = some []

/-- {lit}`zcfgFeDalNatAddrMappingAdd`. -/
def zcfgFeDalNatAddrMappingAdd (store : InstanceStore AddrMapping) (results : StoreResults)
    (table : AddrTable) (req : AddrFields) (reply : DalReply) : TableResult AddrTable :=
  match h : store.newInstance table with
  | .error ret => (ret, reply, table)
  | .ok objIid =>
      let added := table.add objIid store.initial (store.fresh table objIid h)
      if results.get ≠ .success then (results.get, reply, added)
      else
        match results.zcfgFeObjJsonSet added objIid (overlaid store.initial req) with
        | (.success, stored) =>
            (.success, { reply with replyMsg :=
              '[' :: (decimal objIid.val.toNat ++ ",0,0,0,0,0]".toList) }, stored)
        | (ret, stored) => (ret, reply, stored)

/-- The instance that {lit}`iid` or else {lit}`Index` names. -/
def namedInstance (req : AddrFields) : Option InstNum :=
  match req.iid, req.index with
  | some idx, _ =>
      if (idx.drop 1).take 5 |>.all (fun i => UInt8.ofInt i = 0) then
        InstNum.ofIndex (idx.headD 0)
      else none
  | none, some index => InstNum.ofIndex index
  | none, none => none

/-- {lit}`paramModified`; {lit}`Index` is still there if {lit}`iid` is. -/
def paramModified (req : AddrFields) : Bool :=
  (req.iid.isSome && req.index.isSome) || req.type.isSome || req.localStartIP.isSome ||
    req.localEndIP.isSome || req.globalStartIP.isSome || req.globalEndIP.isSome ||
    req.mappingRuleName.isSome || req.interface.isSome || req.autoDetectWanStatus.isSome

/-- The ranges are compared one after the other: {lit}`none` if a buffer is too small, or else the first
range that is not in order. -/
def rangeError (rule : AddrMapping) : List AddressRange → Option (Option AddressRange)
  | [] => some none
  | range :: rest =>
      match ip4Compare (rule.address range.first) (rule.address range.last) with
      | none => none
      | some order => if order ≠ 1 then some (some range) else rangeError rule rest

/-- The checks of {lit}`zcfgFeDalNatAddrMappingEdit`: the rule that is stored, or the reply; {lit}`none` if a
buffer is too small. -/
def validateMapping (rule : AddrMapping) (reply : DalReply) : Option (Except DalReply AddrMapping) :=
  match MappingType.ofText rule.type with
  | none => some (.error (reply.cat "Type error"))
  | some type =>
      let cleared := type.clear rule
      if !type.used.all (fun field => validateIPv4 (cleared.address field)) then
        some (.error (reply.cat "(ipv4 format error)"))
      else
        match type.used.find? (fun field => cleared.address field = "0.0.0.0".toList) with
        | some field => some (.error (reply.cat (field.name ++ " error")))
        | none =>
            match rangeError cleared type.ranges with
            | none => none
            | some (some range) => some (.error (reply.cat (range.name ++ " IP range is invalid")))
            | some none => some (.ok cleared)

/-- {lit}`zcfgFeDalNatAddrMappingEdit`; {lit}`none` if a buffer is too small. -/
def zcfgFeDalNatAddrMappingEdit (results : StoreResults) (table : AddrTable) (req : AddrFields)
    (reply : DalReply) : Option (TableResult AddrTable) :=
  if req.iid.isNone && req.index.isNone then
    some (.internalError, reply.cat "internal error", table)
  else
    match namedInstance req with
    | none => some (.noSuchObject, reply, table)
    | some objIid =>
        match table.get objIid with
        | none => some (.noSuchObject, reply, table)
        | some old =>
            if results.get ≠ .success then some (results.get, reply, table)
            else if !paramModified req then some (.success, reply, table)
            else
              match validateMapping (overlaid old req) reply with
              | none => none
              | some (.error reply) => some (.invalidParamValue, reply, table)
              | some (.ok rule) =>
                  match results.zcfgFeObjJsonSet table objIid rule with
                  | (.success, stored) => some (.success, reply, stored)
                  | (ret, stored) => some (ret, reply.cat "Internal error", stored)

/-- {lit}`zcfgFeDalNatAddrMappingDelete`.  With {lit}`iid` the result of the store is not looked at. -/
def zcfgFeDalNatAddrMappingDelete (results : StoreResults) (table : AddrTable) (req : AddrFields)
    (reply : DalReply) : TableResult AddrTable :=
  if req.iid.isNone && req.index.isNone then (.internalError, reply.cat "internal error", table)
  else
    let deleted :=
      match (namedInstance req).filter (fun objIid => (table.get objIid).isSome) with
      | none => (ZcfgRet.noSuchObject, table)
      | some objIid => results.zcfgFeObjJsonDel table objIid
    if req.iid.isSome then (.success, reply, deleted.2)
    else
      match deleted with
      | (.success, stored) => (.success, reply, stored)
      | (_, stored) => (.internalError, reply.cat "internal error", stored)

/-- The calls that change the table. -/
inductive AddrRequest where
  | add (req : AddrFields)
  | edit (req : AddrFields)
  | delete (req : AddrFields)

/-- What a call does when no call to the store fails but the addition of an instance. -/
def addrStep (store : InstanceStore AddrMapping) (table : AddrTable) :
    AddrRequest → Option (TableResult AddrTable)
  | .add req => some (zcfgFeDalNatAddrMappingAdd store .succeed table req .empty)
  | .edit req => zcfgFeDalNatAddrMappingEdit .succeed table req .empty
  | .delete req => some (zcfgFeDalNatAddrMappingDelete .succeed table req .empty)

/-- The table after a call. -/
def addrNext (store : InstanceStore AddrMapping) (table : AddrTable) (request : AddrRequest) :
    AddrTable :=
  match addrStep store table request with
  | none => table
  | some (_, _, stored) => stored

/-- {lit}`parseValidateParameter` with {lit}`NAT_ADDR_MAPPING_param`: texts have no bounds, and {lit}`Interface` is
empty or the path of an interface by then. -/
def acceptedMapping : AddrRequest → Bool
  | .add req | .edit req | .delete req =>
      req.type.all (fun text => (MappingType.ofText text).isSome) &&
        req.interface.all acceptedInterface

/-! ## Well-formed rules -/

/-- A rule that is well-formed for a type. -/
structure WellFormedFor (type : MappingType) (rule : AddrMapping) : Prop where
  quads : ∀ field ∈ type.used, IsQuad (rule.address field)
  nonzero : ∀ field ∈ type.used, quadValue (rule.address field) ≠ 0
  ranges : ∀ range ∈ type.ranges,
    quadValue (rule.address range.first) < quadValue (rule.address range.last)
  unused : ∀ field ∈ [AddressField.localEndIP, .globalEndIP], field ∉ type.used →
    rule.address field = []

/-- A rule that is well-formed for its type. -/
def WellFormed (rule : AddrMapping) : Prop :=
  ∃ type, MappingType.ofText rule.type = some type ∧ WellFormedFor type rule

/-- All rules of a table are well-formed. -/
def AllWellFormed (table : AddrTable) : Prop :=
  ∀ row ∈ table.rows, WellFormed row.2

/-- The checks that look at one address at a time. -/
structure AddressesPass (type : MappingType) (rule : AddrMapping) : Prop where
  formats : ∀ field ∈ type.used, validateIPv4 (rule.address field) = true
  notZero : ∀ field ∈ type.used, rule.address field ≠ "0.0.0.0".toList

theorem clear_type (type : MappingType) (rule : AddrMapping) :
    (type.clear rule).type = rule.type := by
  cases type <;> rfl

theorem clear_unused (type : MappingType) (rule : AddrMapping) {field : AddressField}
    (hend : field ∈ [AddressField.localEndIP, .globalEndIP]) (hunused : field ∉ type.used) :
    (type.clear rule).address field = [] := by
  cases type <;> cases field <;> simp_all [MappingType.used, MappingType.clear, AddrMapping.address]

theorem ranges_used {type : MappingType} {range : AddressRange} (h : range ∈ type.ranges) :
    range.first ∈ type.used ∧ range.last ∈ type.used := by
  cases type <;> simp_all [MappingType.ranges, MappingType.used] <;>
    rcases h with rfl | rfl <;> simp [localRange, globalRange]

theorem rangeError_ok_iff {rule : AddrMapping} {ranges : List AddressRange} :
    rangeError rule ranges = some none ↔
      ∀ range ∈ ranges, ip4Compare (rule.address range.first) (rule.address range.last) = some 1 := by
  induction ranges with
  | nil => simp [rangeError]
  | cons range rest ih =>
      rw [rangeError]
      cases hcompare : ip4Compare (rule.address range.first) (rule.address range.last) with
      | none => simp [hcompare]
      | some order =>
          by_cases horder : order = 1
          · simp [hcompare, horder, ih]
          · simp [hcompare, horder]

theorem orderCode_eq_one_iff {a b : Nat} : orderCode a b = 1 ↔ a < b := by
  unfold orderCode
  split
  · simp_all
  · split <;> simp_all

/-- Ranges that {lit}`ip4Compare` finds in order are in order. -/
theorem range_lt_of_compare {ip1 ip2 : List Char} (h1 : validateIPv4 ip1 = true)
    (h2 : validateIPv4 ip2 = true) (hcompare : ip4Compare ip1 ip2 = some 1) :
    quadValue ip1 < quadValue ip2 := by
  rw [ip4Compare_accepted h1 h2] at hcompare
  split at hcompare
  · exact orderCode_eq_one_iff.mp (by simpa using hcompare)
  · exact absurd hcompare (by simp)

/-- A rule that comes through the checks is well-formed exactly if no address has a number that has been
cut, and none is 0 in another spelling. -/
theorem wellFormed_clear_iff {type : MappingType} {rule : AddrMapping}
    (htype : MappingType.ofText rule.type = some type)
    (hpass : AddressesPass type (type.clear rule))
    (hranges : rangeError (type.clear rule) type.ranges = some none) :
    WellFormed (type.clear rule) ↔
      ∀ field ∈ type.used, ¬ CutNumber ((type.clear rule).address field) ∧
        quadValue ((type.clear rule).address field) ≠ 0 := by
  have hquad : ∀ field ∈ type.used, (IsQuad ((type.clear rule).address field) ↔
      ¬ CutNumber ((type.clear rule).address field)) := by
    intro field hfield
    exact (validateIPv4_iff.mp (hpass.formats field hfield)).isQuad_iff
  constructor
  · rintro ⟨type', htype', hwell⟩ field hfield
    obtain rfl : type = type' := by simpa [clear_type, htype] using htype'
    exact ⟨(hquad field hfield).mp (hwell.quads field hfield), hwell.nonzero field hfield⟩
  · intro hplain
    refine ⟨type, by rw [clear_type, htype], ?_⟩
    refine ⟨fun field hfield => (hquad field hfield).mpr (hplain field hfield).1,
      fun field hfield => (hplain field hfield).2, ?_, fun field => clear_unused type rule⟩
    intro range hrange
    obtain ⟨hfirst, hlast⟩ := ranges_used hrange
    exact range_lt_of_compare (hpass.formats _ hfirst) (hpass.formats _ hlast)
      (rangeError_ok_iff.mp hranges range hrange)

/-- The checks as a whole: a rule is rejected, or its addresses pass and the ranges decide. -/
theorem validateMapping_cases (rule : AddrMapping) (reply : DalReply) :
    ((∃ reply', validateMapping rule reply = some (.error reply')) ∧
      ∀ type, MappingType.ofText rule.type = some type → AddressesPass type (type.clear rule) →
        ∃ range, rangeError (type.clear rule) type.ranges = some (some range)) ∨
    ∃ type, MappingType.ofText rule.type = some type ∧ AddressesPass type (type.clear rule) ∧
      (rangeError (type.clear rule) type.ranges = none ∧ validateMapping rule reply = none ∨
        rangeError (type.clear rule) type.ranges = some none ∧
          validateMapping rule reply = some (.ok (type.clear rule))) := by
  rw [validateMapping]
  cases htype : MappingType.ofText rule.type with
  | none => exact Or.inl ⟨⟨_, rfl⟩, by simp⟩
  | some type =>
      simp only
      by_cases hformats :
          type.used.all (fun field => validateIPv4 ((type.clear rule).address field)) = true
      · rw [if_neg (by simp [hformats])]
        cases hzero : type.used.find?
            (fun field => (type.clear rule).address field = "0.0.0.0".toList) with
        | some field =>
            refine Or.inl ⟨⟨_, rfl⟩, ?_⟩
            intro type' heq hpass
            obtain rfl := Option.some.inj heq
            have hmem := List.mem_of_find?_eq_some hzero
            have hfound := List.find?_some hzero
            exact absurd (of_decide_eq_true hfound) (hpass.notZero field hmem)
        | none =>
            have hpass : AddressesPass type (type.clear rule) := by
              refine ⟨List.all_eq_true.mp hformats, ?_⟩
              intro field hfield heq
              exact List.find?_eq_none.mp hzero field hfield (decide_eq_true heq)
            cases hranges : rangeError (type.clear rule) type.ranges with
            | none => exact Or.inr ⟨type, rfl, hpass, Or.inl ⟨hranges, rfl⟩⟩
            | some failed =>
                cases failed with
                | none => exact Or.inr ⟨type, rfl, hpass, Or.inr ⟨hranges, rfl⟩⟩
                | some range =>
                    refine Or.inl ⟨⟨_, rfl⟩, ?_⟩
                    intro type' heq _
                    obtain rfl := Option.some.inj heq
                    exact ⟨range, hranges⟩
      · rw [if_pos (by simpa using hformats)]
        refine Or.inl ⟨⟨_, rfl⟩, ?_⟩
        intro type' heq hpass
        obtain rfl := Option.some.inj heq
        exact absurd (List.all_eq_true.mpr hpass.formats) hformats

/-! ## Calls and runs -/

/-- After a call all rules are well-formed; nothing is written over the end of a buffer. -/
def AddrStepOk (store : InstanceStore AddrMapping) (table : AddrTable) (request : AddrRequest) :
    Prop :=
  ∃ result, addrStep store table request = some result ∧ AllWellFormed result.2.2

/-- The condition on an edit that comes to the comparison of its ranges: it stays in the buffers, and if
it lets the rule pass then no address has a number that has been cut, or is 0 in another spelling. -/
structure MappingFits (type : MappingType) (rule : AddrMapping) : Prop where
  buffers : rangeError rule type.ranges ≠ none
  plain : rangeError rule type.ranges = some none → ∀ field ∈ type.used,
    ¬ CutNumber (rule.address field) ∧ quadValue (rule.address field) ≠ 0

/-- The condition on a call: an addition that succeeds has the fields of a well-formed rule, and an edit
whose addresses pass one by one fits. -/
def AddrFits (store : InstanceStore AddrMapping) (table : AddrTable) : AddrRequest → Prop
  | .add req =>
      (∀ ret, store.newInstance table ≠ .error ret) → WellFormed (overlaid store.initial req)
  | .edit req =>
      ∀ objIid old, namedInstance req = some objIid → table.get objIid = some old →
        paramModified req = true →
        ∀ type, MappingType.ofText (overlaid old req).type = some type →
          AddressesPass type (type.clear (overlaid old req)) →
          MappingFits type (type.clear (overlaid old req))
  | .delete _ => True

/-- The rules of the table and a new one. -/
theorem allWellFormed_add_iff {table : AddrTable} (h : AllWellFormed table) {objIid : InstNum}
    {rule : AddrMapping} {hfresh : objIid ∉ table.rows.map Prod.fst} :
    AllWellFormed (table.add objIid rule hfresh) ↔ WellFormed rule := by
  constructor
  · intro hall
    exact hall (objIid, rule) (KeyedTable.mem_add_iff.mpr (Or.inr rfl))
  · intro hrule row hrow
    rcases KeyedTable.mem_add_iff.mp hrow with hrow | rfl
    · exact h row hrow
    · exact hrule

theorem allWellFormed_put_iff {table : AddrTable} (h : AllWellFormed table) {objIid : InstNum}
    {old : AddrMapping} (hold : (objIid, old) ∈ table.rows) (rule : AddrMapping) :
    AllWellFormed (table.put objIid rule) ↔ WellFormed rule := by
  constructor
  · intro hall
    exact hall (objIid, rule) (KeyedTable.mem_put_iff.mpr (Or.inr ⟨rfl, old, hold⟩))
  · intro hrule row hrow
    rcases KeyedTable.mem_put_iff.mp hrow with ⟨hrow, -⟩ | ⟨rfl, -⟩
    · exact h row hrow
    · exact hrule

theorem addStep_ok_iff {store : InstanceStore AddrMapping} {table : AddrTable} {req : AddrFields}
    (h : AllWellFormed table) :
    AddrStepOk store table (.add req) ↔ AddrFits store table (.add req) := by
  have hok : AddrStepOk store table (.add req) ↔
      AllWellFormed (zcfgFeDalNatAddrMappingAdd store .succeed table req .empty).2.2 := by
    simp [AddrStepOk, addrStep]
  rw [hok, AddrFits, zcfgFeDalNatAddrMappingAdd]
  split
  · rename_i ret hnew
    exact iff_of_true h (fun hadds => absurd hnew (hadds ret))
  · rename_i objIid hnew
    have hfresh := store.fresh table objIid hnew
    have hadds : ∀ ret, store.newInstance table ≠ .error ret := by simp [hnew]
    rw [if_neg (by simp [StoreResults.succeed]), StoreResults.set_of_success rfl]
    simp only [KeyedTable.put_add, hadds, ne_eq, not_false_eq_true, implies_true, true_implies]
    exact allWellFormed_add_iff h

/-- An edit of a rule that is there. -/
theorem addrEdit_found {table : AddrTable} {req : AddrFields} {objIid : InstNum} {old : AddrMapping}
    (hnamed : namedInstance req = some objIid) (hold : table.get objIid = some old)
    (hmodified : paramModified req = true) :
    zcfgFeDalNatAddrMappingEdit .succeed table req .empty =
      match validateMapping (overlaid old req) .empty with
      | none => none
      | some (.error reply) => some (.invalidParamValue, reply, table)
      | some (.ok rule) => some (.success, .empty, table.put objIid rule) := by
  have hsome : (req.iid.isNone && req.index.isNone) = false := by
    cases hiid : req.iid with
    | some idx => rfl
    | none =>
        cases hindex : req.index with
        | some index => rfl
        | none => simp [namedInstance, hiid, hindex] at hnamed
  rw [zcfgFeDalNatAddrMappingEdit, if_neg (by simp [hsome]), hnamed]
  simp only [hold, hmodified, StoreResults.succeed, ne_eq, not_true, if_false, Bool.not_true,
    Bool.false_eq_true, StoreResults.zcfgFeObjJsonSet, if_true]

/-- Other edits leave the table. -/
theorem addrEdit_other {table : AddrTable} {req : AddrFields}
    (h : ∀ objIid old, namedInstance req = some objIid → table.get objIid = some old →
      paramModified req = false) :
    ∃ ret reply, zcfgFeDalNatAddrMappingEdit .succeed table req .empty =
      some (ret, reply, table) := by
  unfold zcfgFeDalNatAddrMappingEdit
  by_cases hnone : (req.iid.isNone && req.index.isNone) = true
  · rw [if_pos hnone]
    exact ⟨_, _, rfl⟩
  rw [if_neg hnone]
  cases hnamed : namedInstance req with
  | none => exact ⟨_, _, rfl⟩
  | some objIid =>
      cases hget : table.get objIid with
      | none => exact ⟨.noSuchObject, .empty, by simp only [hget]⟩
      | some old =>
          refine ⟨.success, .empty, ?_⟩
          simp [hget, StoreResults.succeed, h objIid old hnamed hget]

theorem editStep_ok_iff {store : InstanceStore AddrMapping} {table : AddrTable} {req : AddrFields}
    (h : AllWellFormed table) :
    AddrStepOk store table (.edit req) ↔ AddrFits store table (.edit req) := by
  by_cases hreached : ∃ objIid old, namedInstance req = some objIid ∧
      table.get objIid = some old ∧ paramModified req = true
  · obtain ⟨objIid, old, hnamed, hget, hmodified⟩ := hreached
    have hfits : AddrFits store table (.edit req) ↔
        ∀ type, MappingType.ofText (overlaid old req).type = some type →
          AddressesPass type (type.clear (overlaid old req)) →
          MappingFits type (type.clear (overlaid old req)) := by
      rw [AddrFits]
      constructor
      · intro hall
        exact hall objIid old hnamed hget hmodified
      · intro hall objIid' old' hnamed' hget' _
        obtain rfl : objIid = objIid' := by simpa [hnamed] using hnamed'
        obtain rfl : old = old' := by simpa [hget] using hget'
        exact hall
    rw [hfits, AddrStepOk, addrStep, addrEdit_found hnamed hget hmodified]
    rcases validateMapping_cases (overlaid old req) .empty with
      ⟨⟨reply, herror⟩, hrange⟩ | ⟨type, htype, hpass, hranges⟩
    · rw [herror]
      refine iff_of_true ⟨_, rfl, h⟩ ?_
      intro type htype hpass
      obtain ⟨range, hfailed⟩ := hrange type htype hpass
      exact ⟨by simp [hfailed], by simp [hfailed]⟩
    · simp only [htype, Option.some.injEq, forall_eq']
      rcases hranges with ⟨hnone, hvalidate⟩ | ⟨hok, hvalidate⟩
      · rw [hvalidate]
        refine iff_of_false (by simp) ?_
        intro hall
        exact (hall hpass).buffers hnone
      · rw [hvalidate]
        have hput := allWellFormed_put_iff h (KeyedTable.get_eq_some_iff.mp hget)
          (type.clear (overlaid old req))
        simp only [Option.some.injEq, exists_eq_left', hput, wellFormed_clear_iff htype hpass hok]
        constructor
        · intro hplain _
          exact ⟨by simp [hok], fun _ => hplain⟩
        · intro hall
          exact (hall hpass).plain hok
  · have hother : ∀ objIid old, namedInstance req = some objIid → table.get objIid = some old →
        paramModified req = false := by
      intro objIid old hnamed hget
      by_contra hmodified
      exact hreached ⟨objIid, old, hnamed, hget, by simpa using hmodified⟩
    obtain ⟨ret, reply, hedit⟩ := addrEdit_other hother
    refine iff_of_true ⟨_, hedit, h⟩ ?_
    intro objIid old hnamed hget hmodified
    exact absurd hmodified (by simp [hother objIid old hnamed hget])

/-- A deletion removes a rule or leaves the table. -/
theorem addrDelete_cases (table : AddrTable) (req : AddrFields) (reply : DalReply) :
    (zcfgFeDalNatAddrMappingDelete .succeed table req reply).2.2 = table ∨
    ∃ objIid, (zcfgFeDalNatAddrMappingDelete .succeed table req reply).2.2 = table.del objIid := by
  unfold zcfgFeDalNatAddrMappingDelete
  by_cases hnone : (req.iid.isNone && req.index.isNone) = true
  · rw [if_pos hnone]
    exact Or.inl rfl
  rw [if_neg hnone]
  cases (namedInstance req).filter (fun objIid => (table.get objIid).isSome) with
  | none =>
      left
      by_cases hiid : req.iid.isSome = true
      · simp only [hiid, if_true]
      · simp [hiid]
  | some objIid =>
      right
      refine ⟨objIid, ?_⟩
      simp only [StoreResults.del_of_success (show StoreResults.succeed.del = .success from rfl)]
      split <;> rfl

/-- A call is as expected exactly under the condition. -/
theorem addrStep_ok_iff {store : InstanceStore AddrMapping} {table : AddrTable}
    {request : AddrRequest} (h : AllWellFormed table) :
    AddrStepOk store table request ↔ AddrFits store table request := by
  cases request with
  | add req => exact addStep_ok_iff h
  | edit req => exact editStep_ok_iff h
  | delete req =>
      refine iff_of_true ⟨_, rfl, ?_⟩ trivial
      rcases addrDelete_cases table req .empty with hsame | ⟨objIid, hdel⟩
      · rw [hsame]
        exact h
      · rw [hdel]
        intro row hrow
        exact h row (KeyedTable.mem_del_iff.mp hrow).1

theorem addrNext_allWellFormed {store : InstanceStore AddrMapping} {table : AddrTable}
    {request : AddrRequest} (h : AddrStepOk store table request) :
    AllWellFormed (addrNext store table request) := by
  obtain ⟨result, hstep, hall⟩ := h
  rw [addrNext, hstep]
  exact hall

/-- From the empty table, all rules are well-formed after every call of a run exactly if every call meets
the condition in the table it comes to; and {lit}`ip4Compare` orders two accepted addresses by their values
exactly if they fit into its buffers. -/
theorem addrMapping_run_iff (store : InstanceStore AddrMapping) (requests : List AddrRequest) :
    (EveryStep (addrNext store) (AddrStepOk store) .empty requests ↔
      EveryStep (addrNext store) (AddrFits store) .empty requests) ∧
    ∀ ip1 ip2, validateIPv4 ip1 = true → validateIPv4 ip2 = true →
      (ip4Compare ip1 ip2 = some (orderCode (quadValue ip1) (quadValue ip2)) ↔
        ip1.length < ipaddrSize ∧ ip2.length < ipaddrSize) := by
  constructor
  · have hempty : AllWellFormed .empty := fun row hrow => absurd hrow (by simp [KeyedTable.empty])
    apply everyStep_congr (I := AllWellFormed) _ _ hempty
    · intro table request _ hok
      exact addrNext_allWellFormed hok
    · intro table request h
      exact addrStep_ok_iff h
  · intro ip1 ip2 h1 h2
    rw [ip4Compare_accepted h1 h2]
    split
    · rename_i hfit
      exact iff_of_true rfl hfit
    · rename_i hfit
      exact iff_of_false (by simp) hfit

/-- An addition from 10.0.0.9 down to 10.0.0.1. -/
def descendingMapping : AddrFields where
  iid := none
  index := none
  type := some "Many-to-One".toList
  localStartIP := some "10.0.0.9".toList
  localEndIP := some "10.0.0.1".toList
  globalStartIP := some "1.2.3.4".toList
  globalEndIP := none
  mappingRuleName := some "web".toList
  interface := some []
  autoDetectWanStatus := none

/-- A store with rules that are empty at first. -/
def mappingStore : InstanceStore AddrMapping :=
  .firstFree ⟨[], [], [], [], [], [], [], false⟩

/-- The addition stores a range that ends in front of its start. -/
theorem addrMapping_run_fails :
    ¬ ∀ (store : InstanceStore AddrMapping) (requests : List AddrRequest),
      (∀ request ∈ requests, acceptedMapping request = true) →
      EveryStep (addrNext store) (AddrStepOk store) .empty requests := by
  intro h
  have hall := h mappingStore [.add descendingMapping] (by decide +kernel)
  have hfits := (addStep_ok_iff (fun row hrow => absurd hrow (by simp [KeyedTable.empty]))).mp
    (everyStep_cons.mp hall).1
  have hadds : ∀ ret, mappingStore.newInstance .empty ≠ .error ret := by
    have hnew : mappingStore.newInstance .empty = .ok ⟨1, by decide⟩ := by decide +kernel
    simp [hnew]
  obtain ⟨type, htype, hwell⟩ := hfits hadds
  have hmany : MappingType.ofText (overlaid mappingStore.initial descendingMapping).type =
      some .manyToOne := by decide +kernel
  obtain rfl : type = .manyToOne := by simpa [htype] using hmany
  exact absurd (hwell.ranges localRange (by simp [MappingType.ranges])) (by decide +kernel)

end FeDal
end ZyxelRouter
