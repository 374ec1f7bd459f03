import ZyxelRouter.FeString.ObjName
import ZyxelRouter.FeDal.Common

/-!
# Port forwarding rules

{lit}`zcfgFeDalNatPortMapping` adds, edits and deletes rules that forward external ports.  Before a rule is
stored, its external ports are compared with those of the other rules for the same originating
address, and its description with their descriptions.

Main results:

- Theorem {lit}`rangeCheck_success_iff`: what the comparison of ports accepts.
- Theorem {lit}`add_inOrder`: new rules keep the table in order.
- Theorem {lit}`edit_inOrder_iff`: which edits keep the table in order.
- Theorem {lit}`portMapping_run_iff`: the runs in which every table is in order.
-/

namespace ZyxelRouter
namespace FeDal

open Lib FeString

/-! ## The table -/

/-- The parameters of {lit}`RDM_OID_NAT_PORT_MAPPING` that are read or written here. -/
structure PortMapping where
  enable : Bool
  interface : List Char
  autoDetectWanStatus : Bool
  externalPort : Int
  externalPortEndRange : Int
  internalPort : Int
  internalPortEndRange : Int
  setOriginatingIP : Bool
  originatingIpAddress : List Char
  protocol : List Char
  internalClient : List Char
  description : List Char
deriving DecidableEq

/-- The rules in the order in which {lit}`zcfgFeObjJsonGetNextWithoutUpdate` goes through them. -/
abbrev PortMappingTable := KeyedTable InstNum PortMapping

/-- What the store decides when an instance is added: its number, which is a new one, and its values.
A string without a default is empty. -/
structure PortMappingStore where
  newInstance : PortMappingTable → Except ZcfgRet InstNum
  initial : PortMapping
  fresh : ∀ table n, newInstance table = .ok n → n ∉ table.rows.map Prod.fst
  initial_address : initial.originatingIpAddress = []

/-- {lit}`!strncmp(description, "APP:", 4)`. -/
def isApp (description : List Char) : Bool :=
  "APP:".toList.isPrefixOf description

/-! ## Requests -/

/-- The object of a {lit}`POST` request; the fields marked {lit}`dal_Add` are there. -/
structure PostRequest where
  description : List Char
  enable : Option Bool
  interface : List Char
  autoDetectWanStatus : Option Bool
  externalPortStart : Int
  externalPortEnd : Int
  internalPortStart : Int
  internalPortEnd : Int
  setOriginatingIP : Bool
  originatingIpAddress : Option (List Char)
  protocol : List Char
  internalClient : List Char

/-- The object of a {lit}`PUT` request. -/
structure PutRequest where
  index : Int
  description : Option (List Char)
  enable : Option Bool
  interface : List Char
  autoDetectWanStatus : Option Bool
  externalPortStart : Option Int
  externalPortEnd : Option Int
  internalPortStart : Option Int
  internalPortEnd : Option Int
  setOriginatingIP : Option Bool
  originatingIpAddress : Option (List Char)
  protocol : Option (List Char)
  internalClient : Option (List Char)

/-- The reply about equal ports.  {lit}`sizeof(replyMsg)` is the size of a pointer, so that eight
characters of the text are appended. -/
def DalReply.portDuplicate (reply : DalReply) : DalReply where
  replyMsg := reply.replyMsg ++ "Port is duplicate.".toList.take 8
  multiLangReplyMsg := some "zylang.NAT.PortForwarding.error.port_duplicate".toList

/-! ## The operations -/

/-- Whether {lit}`zcfgFeDalNATPortRangeCheck` stops at a rule. -/
def rangeClash (index portStart portEnd : Int) (newOriginatingIpAddress : List Char)
    (row : InstNum × PortMapping) : Bool :=
  if index = row.1.toInt then false
  else if row.2.originatingIpAddress = newOriginatingIpAddress then
    if portStart = row.2.externalPort then true
    else !(portStart > row.2.externalPortEndRange || portEnd < row.2.externalPort)
  else false

/-- {lit}`zcfgFeDalNATPortRangeCheck`; an address that is not given is compared as the empty text. -/
def zcfgFeDalNATPortRangeCheck (table : PortMappingTable) (index portStart portEnd : Int)
    (newOriginatingIpAddress : Option (List Char)) (reply : DalReply) : ZcfgRet × DalReply :=
  if table.rows.any (rangeClash index portStart portEnd (newOriginatingIpAddress.getD [])) then
    (.invalidParamValue, reply.portDuplicate)
  else (.success, reply)

/-- The new rule of a {lit}`POST` request. -/
def addedRule (initial : PortMapping) (req : PostRequest) : PortMapping :=
  let autoDetectWanStatus := if req.interface = [] then true else req.autoDetectWanStatus.getD false
  { enable := req.enable.getD initial.enable
    interface := req.interface
    autoDetectWanStatus :=
      if req.autoDetectWanStatus.isSome then autoDetectWanStatus else initial.autoDetectWanStatus
    externalPort := req.externalPortStart
    externalPortEndRange := req.externalPortEnd
    internalPort := req.internalPortStart
    internalPortEndRange := req.internalPortEnd
    setOriginatingIP := req.setOriginatingIP
    originatingIpAddress := req.originatingIpAddress.getD initial.originatingIpAddress
    protocol := req.protocol
    internalClient := req.internalClient
    description := req.description }

/-- {lit}`zcfgFeDalNatPortMappingAdd` behind the checks: an instance is added, and deleted again if one
of the port ranges is empty. -/
def addInstance (store : PortMappingStore) (table : PortMappingTable) (req : PostRequest)
    (reply : DalReply) : ZcfgRet × DalReply × PortMappingTable :=
  match h : store.newInstance table with
  | .error ret => (ret, reply, table)
  | .ok objIid =>
      let added := table.add objIid store.initial (store.fresh table objIid h)
      if req.internalPortStart > req.internalPortEnd then
        (.invalidParamValue, reply.copy "Internal port range is invalid.", added.del objIid)
      else if req.externalPortStart > req.externalPortEnd then
        (.invalidParamValue, reply.copy "External port range is invalid.", added.del objIid)
      else (.success, reply, added.put objIid (addedRule store.initial req))

/-- {lit}`zcfgFeDalNatPortMappingAdd`. -/
def zcfgFeDalNatPortMappingAdd (store : PortMappingStore) (table : PortMappingTable)
    (req : PostRequest) (reply : DalReply) : ZcfgRet × DalReply × PortMappingTable :=
  if isApp req.description then
    (.requestReject, reply.copy "Invalid NatPortFwd Description.", table)
  else if table.rows.any (fun row => row.2.description = req.description) then
    (.invalidParamValue, reply.cat "Description is duplicate.", table)
  else
    match zcfgFeDalNATPortRangeCheck table 0 req.externalPortStart req.externalPortEnd
        req.originatingIpAddress reply with
    | (.success, reply) => addInstance store table req reply
    | (ret, reply) => (ret, reply, table)

/-- The stored rule of a {lit}`PUT` request: the fields of the request over those of the old rule. -/
def mergedRule (old : PortMapping) (req : PutRequest) : PortMapping where
  enable := req.enable.getD old.enable
  interface := req.interface
  autoDetectWanStatus :=
    if req.autoDetectWanStatus.isSome then req.interface = [] else old.autoDetectWanStatus
  externalPort := req.externalPortStart.getD old.externalPort
  externalPortEndRange := req.externalPortEnd.getD old.externalPortEndRange
  internalPort := req.internalPortStart.getD old.internalPort
  internalPortEndRange := req.internalPortEnd.getD old.internalPortEndRange
  setOriginatingIP := req.setOriginatingIP.getD old.setOriginatingIP
  originatingIpAddress := req.originatingIpAddress.getD old.originatingIpAddress
  protocol := req.protocol.getD old.protocol
  internalClient := req.internalClient.getD old.internalClient
  description := req.description.getD old.description

/-- Whether another rule than that of the request has the description of the request. -/
def descriptionTaken (table : PortMappingTable) (req : PutRequest) : Bool :=
  match req.description with
  | none => false
  | some description =>
      !isApp description &&
        table.rows.any (fun row => row.2.description = description && row.1.toInt ≠ req.index)

/-- The rule of a request: {lit}`found`, with the rule. -/
def findRule (table : PortMappingTable) (index : Int) : Option (InstNum × PortMapping) :=
  match InstNum.ofIndex index with
  | none => none
  | some objIid =>
      match table.get objIid with
      | none => none
      | some old => if isApp old.description then none else some (objIid, old)

/-- {lit}`zcfgFeDalNatPortMappingEdit`.  The ports and the address that are compared are those of the
request. -/
def zcfgFeDalNatPortMappingEdit (table : PortMappingTable) (req : PutRequest) (reply : DalReply) :
    ZcfgRet × DalReply × PortMappingTable :=
  if descriptionTaken table req then
    (.invalidParamValue, reply.cat "Description is duplicate.", table)
  else
    match findRule table req.index with
    | none => (.notFound, reply.copy "Can not find the rule.", table)
    | some (objIid, old) =>
        if req.description.any isApp then
          (.requestReject, reply.copy "Invalid NatPortFwd Description", table)
        else
          let merged := mergedRule old req
          if merged.internalPort > merged.internalPortEndRange then
            (.invalidParamValue, reply.copy "Internal port range is invalid.", table)
          else if merged.externalPort > merged.externalPortEndRange then
            (.invalidParamValue, reply.copy "External port range is invalid.", table)
          else
            match zcfgFeDalNATPortRangeCheck table req.index (req.externalPortStart.getD 0)
                (req.externalPortEnd.getD 0) req.originatingIpAddress reply with
            | (.success, reply) => (.success, reply, table.put objIid merged)
            | (ret, reply) => (ret, reply, table)

/-- {lit}`zcfgFeDalNatPortMappingDelete`. -/
def zcfgFeDalNatPortMappingDelete (table : PortMappingTable) (index : Int) (reply : DalReply) :
    ZcfgRet × DalReply × PortMappingTable :=
  match findRule table index with
  | none => (.notFound, reply.copy "Can't find rule", table)
  | some (objIid, _) => (.success, reply, table.del objIid)

/-- The requests that change the table. -/
inductive PortRequest where
  | post (req : PostRequest)
  | put (req : PutRequest)
  | delete (index : Int)

/-- {lit}`zcfgFeDalNatPortMapping` for objects. -/
def zcfgFeDalNatPortMapping (store : PortMappingStore) (table : PortMappingTable)
    (request : PortRequest) (reply : DalReply) : ZcfgRet × DalReply × PortMappingTable :=
  match request with
  | .post req => zcfgFeDalNatPortMappingAdd store table req reply
  | .put req => zcfgFeDalNatPortMappingEdit table req reply
  | .delete index => zcfgFeDalNatPortMappingDelete table index reply

/-- The table after a request. -/
def portStep (store : PortMappingStore) (table : PortMappingTable) (request : PortRequest) :
    PortMappingTable :=
  (zcfgFeDalNatPortMapping store table request { replyMsg := [], multiLangReplyMsg := none }).2.2

/-- The table after requests. -/
def portRun (store : PortMappingStore) (table : PortMappingTable) (requests : List PortRequest) :
    PortMappingTable :=
  requests.foldl (portStep store) table

/-! ## Accepted requests -/

/-- {lit}`validateIPv4`. -/
def validateIPv4 (ipStr : List Char) : Bool :=
  ipStr.all (fun c => c.isDigit || c = '.') && ipStr.count '.' = 3 &&
    (ipStr.splitOn '.').all (fun cp => cp ≠ [] && 0 ≤ atoiInt cp && atoiInt cp ≤ 255)

/-- {lit}`dalType_v4Addr`. -/
def acceptedAddress (text : List Char) : Bool := text = [] || validateIPv4 text

/-- {lit}`dalType_int` with the bounds of a port. -/
def acceptedPort (port : Int) : Bool := 1 ≤ port && port ≤ 65535

/-- {lit}`dalType_string` with the bounds of {lit}`Description`. -/
def acceptedDescription (text : List Char) : Bool := 1 ≤ text.length && text.length ≤ 256

/-- {lit}`dalType_string` with the values of {lit}`Protocol`. -/
def acceptedProtocol (text : List Char) : Bool :=
  text ∈ ["TCP".toList, "UDP".toList, "ALL".toList]

/-- {lit}`dalType_LanRtWanWWan`, behind the replacement of a name by the path of the interface. -/
def acceptedInterface (text : List Char) : Bool :=
  text = [] || "IP.Interface.".toList.isPrefixOf text

/-- {lit}`parseValidateParameter` with {lit}`NatPortFwd_param`. -/
def parseValidateParameter : PortRequest → Bool
  | .post req =>
      acceptedDescription req.description && acceptedInterface req.interface &&
      acceptedPort req.externalPortStart && acceptedPort req.externalPortEnd &&
      acceptedPort req.internalPortStart && acceptedPort req.internalPortEnd &&
      req.originatingIpAddress.all acceptedAddress && acceptedProtocol req.protocol &&
      acceptedAddress req.internalClient
  | .put req =>
      req.description.all acceptedDescription && acceptedInterface req.interface &&
      req.externalPortStart.all acceptedPort && req.externalPortEnd.all acceptedPort &&
      req.internalPortStart.all acceptedPort && req.internalPortEnd.all acceptedPort &&
      req.originatingIpAddress.all acceptedAddress && req.protocol.all acceptedProtocol &&
      req.internalClient.all acceptedAddress
  | .delete _ => true

/-! ## Tables in order -/

/-- A port that a rule forwards. -/
def InRange (rule : PortMapping) (port : Int) : Prop :=
  rule.externalPort ≤ port ∧ port ≤ rule.externalPortEndRange

/-- Two rules of a table. -/
structure Compatible (a b : PortMapping) : Prop where
  ports : a.originatingIpAddress = b.originatingIpAddress → ∀ port, ¬ (InRange a port ∧ InRange b port)
  descriptions : isApp a.description = false → isApp b.description = false →
    a.description ≠ b.description

/-- No range is empty, and any two rules have no port or no address in common and, apart from the rules
of applications, different descriptions. -/
structure InOrder (table : PortMappingTable) : Prop where
  ordered : ∀ row ∈ table.rows, row.2.externalPort ≤ row.2.externalPortEndRange
  compatible : table.AllPairs Compatible

theorem Compatible.symm {a b : PortMapping} (h : Compatible a b) : Compatible b a := by
  constructor
  · intro haddress port hport
    exact h.ports haddress.symm port hport.symm
  · intro hb ha heq
    exact h.descriptions ha hb heq.symm

theorem disjoint_iff {a b : PortMapping} (ha : a.externalPort ≤ a.externalPortEndRange)
    (hb : b.externalPort ≤ b.externalPortEndRange) :
    (∀ port, ¬ (InRange a port ∧ InRange b port)) ↔
      b.externalPortEndRange < a.externalPort ∨ a.externalPortEndRange < b.externalPort := by
  simp only [InRange]
  constructor
  · intro h
    by_contra hnone
    -- the larger of the two first ports is in both ranges
    have hmax := h (max a.externalPort b.externalPort)
    omega
  · intro h port hport
    omega

/-! ## The comparison of ports -/

theorem rangeClash_eq_false_iff {index portStart portEnd : Int} {address : List Char}
    {row : InstNum × PortMapping} :
    rangeClash index portStart portEnd address row = false ↔
      (index ≠ row.1.toInt → row.2.originatingIpAddress = address →
        portStart ≠ row.2.externalPort ∧
          (row.2.externalPortEndRange < portStart ∨ portEnd < row.2.externalPort)) := by
  unfold rangeClash
  by_cases hindex : index = row.1.toInt
  · simp [hindex]
  · by_cases haddress : row.2.originatingIpAddress = address
    · by_cases hstart : portStart = row.2.externalPort
      · simp [hindex, haddress, hstart]
      · rw [if_neg hindex, if_pos haddress, if_neg hstart, Bool.not_eq_false', Bool.or_eq_true,
          decide_eq_true_eq, decide_eq_true_eq]
        simp [hindex, haddress, hstart]
    · simp [hindex, haddress]

theorem rangeCheck_success_iff {table : PortMappingTable} {index portStart portEnd : Int}
    {newOriginatingIpAddress : Option (List Char)} {reply : DalReply} :
    (zcfgFeDalNATPortRangeCheck table index portStart portEnd newOriginatingIpAddress reply).1 =
        .success ↔
      ∀ row ∈ table.rows, index ≠ row.1.toInt →
        row.2.originatingIpAddress = newOriginatingIpAddress.getD [] →
        portStart ≠ row.2.externalPort ∧
          (row.2.externalPortEndRange < portStart ∨ portEnd < row.2.externalPort) := by
  simp only [← rangeClash_eq_false_iff]
  unfold zcfgFeDalNATPortRangeCheck
  by_cases hany : table.rows.any
      (rangeClash index portStart portEnd (newOriginatingIpAddress.getD [])) = true
  · rw [if_pos hany]
    obtain ⟨row, hmem, hclash⟩ := List.any_eq_true.mp hany
    constructor
    · intro h
      simp at h
    · intro h
      rw [h row hmem] at hclash
      exact absurd hclash (by decide)
  · rw [if_neg hany]
    constructor
    · intro _ row hmem
      by_contra hclash
      exact hany (List.any_eq_true.mpr ⟨row, hmem, by simpa using hclash⟩)
    · intro _
      rfl

/-- For a rule whose range is not empty the comparison is exact. -/
theorem rangeCheck_rule_iff {table : PortMappingTable} {rule : PortMapping} {index : Int}
    {reply : DalReply}
    (hordered : ∀ row ∈ table.rows, row.2.externalPort ≤ row.2.externalPortEndRange)
    (hrule : rule.externalPort ≤ rule.externalPortEndRange) :
    (zcfgFeDalNATPortRangeCheck table index rule.externalPort rule.externalPortEndRange
        (some rule.originatingIpAddress) reply).1 = .success ↔
      ∀ row ∈ table.rows, index ≠ row.1.toInt →
        rule.originatingIpAddress = row.2.originatingIpAddress →
        ∀ port, ¬ (InRange rule port ∧ InRange row.2 port) := by
  rw [rangeCheck_success_iff]
  constructor
  · intro h row hrow hindex haddress
    rw [disjoint_iff hrule (hordered row hrow)]
    exact (h row hrow hindex haddress.symm).2
  · intro h row hrow hindex haddress
    have hdisjoint := (disjoint_iff hrule (hordered row hrow)).mp (h row hrow hindex haddress.symm)
    have hrange := hordered row hrow
    exact ⟨by omega, hdisjoint⟩

/-- What is left of the reply by the comparison. -/
theorem rangeCheck_cases (table : PortMappingTable) (index portStart portEnd : Int)
    (newOriginatingIpAddress : Option (List Char)) (reply : DalReply) :
    zcfgFeDalNATPortRangeCheck table index portStart portEnd newOriginatingIpAddress reply =
        (.success, reply) ∨
      zcfgFeDalNATPortRangeCheck table index portStart portEnd newOriginatingIpAddress reply =
        (.invalidParamValue, reply.portDuplicate) := by
  unfold zcfgFeDalNATPortRangeCheck
  split
  · exact Or.inr rfl
  · exact Or.inl rfl

/-! ## New rules -/

theorem addInstance_cases (store : PortMappingStore) (table : PortMappingTable) (req : PostRequest)
    (reply : DalReply) :
    (addInstance store table req reply).2.2 = table ∨
    ∃ objIid, ∃ hfresh : objIid ∉ table.rows.map Prod.fst,
      req.externalPortStart ≤ req.externalPortEnd ∧
      (addInstance store table req reply).2.2 =
        table.add objIid (addedRule store.initial req) hfresh := by
  unfold addInstance
  split
  · exact Or.inl rfl
  · rename_i objIid hnew
    have hfresh := store.fresh table objIid hnew
    by_cases hinternal : req.internalPortStart > req.internalPortEnd
    · rw [if_pos hinternal]
      exact Or.inl (KeyedTable.del_add hfresh)
    rw [if_neg hinternal]
    by_cases hexternal : req.externalPortStart > req.externalPortEnd
    · rw [if_pos hexternal]
      exact Or.inl (KeyedTable.del_add hfresh)
    rw [if_neg hexternal]
    exact Or.inr ⟨objIid, hfresh, by omega, KeyedTable.put_add hfresh⟩

/-- What {lit}`zcfgFeDalNatPortMappingAdd` does to the table. -/
theorem add_cases (store : PortMappingStore) (table : PortMappingTable) (req : PostRequest)
    (reply : DalReply) :
    (zcfgFeDalNatPortMappingAdd store table req reply).2.2 = table ∨
    ∃ objIid, ∃ hfresh : objIid ∉ table.rows.map Prod.fst,
      (∀ row ∈ table.rows, row.2.description ≠ req.description) ∧
      req.externalPortStart ≤ req.externalPortEnd ∧
      (zcfgFeDalNATPortRangeCheck table 0 req.externalPortStart req.externalPortEnd
        req.originatingIpAddress reply).1 = .success ∧
      (zcfgFeDalNatPortMappingAdd store table req reply).2.2 =
        table.add objIid (addedRule store.initial req) hfresh := by
  unfold zcfgFeDalNatPortMappingAdd
  by_cases happ : isApp req.description = true
  · rw [if_pos happ]
    exact Or.inl rfl
  rw [if_neg happ]
  by_cases htaken : table.rows.any (fun row => row.2.description = req.description) = true
  · rw [if_pos htaken]
    exact Or.inl rfl
  rw [if_neg htaken]
  rcases rangeCheck_cases table 0 req.externalPortStart req.externalPortEnd req.originatingIpAddress
    reply with hcheck | hcheck
  · rw [hcheck]
    rcases addInstance_cases store table req reply with hsame | ⟨objIid, hfresh, hrange, hadded⟩
    · exact Or.inl hsame
    · refine Or.inr ⟨objIid, hfresh, ?_, hrange, rfl, hadded⟩
      intro row hrow heq
      exact htaken (List.any_eq_true.mpr ⟨row, hrow, by simpa using heq⟩)
  · rw [hcheck]
    exact Or.inl rfl

/-- New rules keep the table in order. -/
theorem add_inOrder {store : PortMappingStore} {table : PortMappingTable} {req : PostRequest}
    {reply : DalReply} (h : InOrder table) :
    InOrder (zcfgFeDalNatPortMappingAdd store table req reply).2.2 := by
  rcases add_cases store table req reply with heq | ⟨objIid, hfresh, hdescr, hrange, hcheck, heq⟩
  · rw [heq]
    exact h
  rw [heq]
  have haddress : (addedRule store.initial req).originatingIpAddress =
      req.originatingIpAddress.getD [] := by
    rw [addedRule, store.initial_address]
  have hports := rangeCheck_success_iff.mp hcheck
  constructor
  · intro row hrow
    rcases KeyedTable.mem_add_iff.mp hrow with hrow | rfl
    · exact h.ordered row hrow
    · exact hrange
  · apply h.compatible.add (fun a b => Compatible.symm) hfresh
    intro row hrow
    constructor
    · intro hsame
      rw [disjoint_iff hrange (h.ordered row hrow)]
      exact (hports row hrow (InstNum.toInt_ne_zero row.1) (by rw [← hsame, haddress])).2
    · intro _ _ heq
      exact hdescr row hrow heq.symm

/-! ## Edited rules -/

theorem findRule_eq_some {table : PortMappingTable} {index : Int} {objIid : InstNum}
    {old : PortMapping} (h : findRule table index = some (objIid, old)) :
    InstNum.ofIndex index = some objIid ∧ (objIid, old) ∈ table.rows ∧
      isApp old.description = false := by
  unfold findRule at h
  split at h
  · exact absurd h (by simp)
  · rename_i n hn
    split at h
    · exact absurd h (by simp)
    · rename_i rule hrule
      split at h
      · exact absurd h (by simp)
      · rename_i happ
        obtain ⟨rfl, rfl⟩ : n = objIid ∧ rule = old := by simpa using h
        exact ⟨hn, KeyedTable.get_eq_some_iff.mp hrule, by simpa using happ⟩

/-- The checks of {lit}`zcfgFeDalNatPortMappingEdit` on a rule that has been found. -/
structure EditPasses (table : PortMappingTable) (req : PutRequest) (old : PortMapping) : Prop where
  descriptionFree : descriptionTaken table req = false
  noApp : req.description.any isApp = false
  internal : (mergedRule old req).internalPort ≤ (mergedRule old req).internalPortEndRange
  external : (mergedRule old req).externalPort ≤ (mergedRule old req).externalPortEndRange
  ports : ∀ reply, (zcfgFeDalNATPortRangeCheck table req.index (req.externalPortStart.getD 0)
    (req.externalPortEnd.getD 0) req.originatingIpAddress reply).1 = .success

/-- What {lit}`zcfgFeDalNatPortMappingEdit` does to the table. -/
theorem edit_cases (table : PortMappingTable) (req : PutRequest) (reply : DalReply) :
    ((zcfgFeDalNatPortMappingEdit table req reply).2.2 = table ∧
      ∀ objIid old, findRule table req.index = some (objIid, old) → ¬ EditPasses table req old) ∨
    ∃ objIid old, findRule table req.index = some (objIid, old) ∧ EditPasses table req old ∧
      (zcfgFeDalNatPortMappingEdit table req reply).2.2 =
        table.put objIid (mergedRule old req) := by
  unfold zcfgFeDalNatPortMappingEdit
  by_cases htaken : descriptionTaken table req = true
  · rw [if_pos htaken]
    refine Or.inl ⟨rfl, fun objIid old _ hpass => ?_⟩
    exact absurd htaken (by simp [hpass.descriptionFree])
  rw [if_neg htaken]
  cases hfind : findRule table req.index with
  | none => exact Or.inl ⟨rfl, by simp⟩
  | some found =>
      obtain ⟨objIid, old⟩ := found
      simp only
      -- every check that fails is one of those the rule would have to pass
      have hfails : ∀ {result : ZcfgRet × DalReply × PortMappingTable}, result.2.2 = table →
          ¬ EditPasses table req old →
          (result.2.2 = table ∧ ∀ objIid' old', some (objIid, old) = some (objIid', old') →
            ¬ EditPasses table req old') := by
        intro result hresult hnot
        refine ⟨hresult, ?_⟩
        intro objIid' old' heq
        obtain ⟨-, rfl⟩ : objIid = objIid' ∧ old = old' := by simpa using heq
        exact hnot
      by_cases happ : req.description.any isApp = true
      · rw [if_pos happ]
        exact Or.inl (hfails rfl (fun hpass => absurd happ (by simp [hpass.noApp])))
      rw [if_neg happ]
      by_cases hinternal :
          (mergedRule old req).internalPort > (mergedRule old req).internalPortEndRange
      · rw [if_pos hinternal]
        exact Or.inl (hfails rfl (fun hpass => absurd hpass.internal (by omega)))
      rw [if_neg hinternal]
      by_cases hexternal :
          (mergedRule old req).externalPort > (mergedRule old req).externalPortEndRange
      · rw [if_pos hexternal]
        exact Or.inl (hfails rfl (fun hpass => absurd hpass.external (by omega)))
      rw [if_neg hexternal]
      rcases rangeCheck_cases table req.index (req.externalPortStart.getD 0)
        (req.externalPortEnd.getD 0) req.originatingIpAddress reply with hcheck | hcheck
      · rw [hcheck]
        refine Or.inr ⟨objIid, old, rfl, ⟨by simpa using htaken, by simpa using happ, by omega,
          by omega, fun reply' => ?_⟩, rfl⟩
        have hsuccess : (zcfgFeDalNATPortRangeCheck table req.index (req.externalPortStart.getD 0)
            (req.externalPortEnd.getD 0) req.originatingIpAddress reply).1 = .success := by
          rw [hcheck]
        exact rangeCheck_success_iff.mpr (rangeCheck_success_iff.mp hsuccess)
      · rw [hcheck]
        refine Or.inl (hfails rfl (fun hpass => ?_))
        have hsuccess := hpass.ports reply
        rw [hcheck] at hsuccess
        exact absurd hsuccess (by simp)

/-- The description of an edited rule stays different from the others. -/
theorem merged_description {table : PortMappingTable} {req : PutRequest} {objIid : InstNum}
    {old : PortMapping} (h : InOrder table)
    (hfind : findRule table req.index = some (objIid, old))
    (hpass : EditPasses table req old) {row : InstNum × PortMapping} (hrow : row ∈ table.rows)
    (hne : row.1 ≠ objIid) (happ : isApp row.2.description = false) :
    (mergedRule old req).description ≠ row.2.description := by
  obtain ⟨hindex, hold, holdApp⟩ := findRule_eq_some hfind
  rw [mergedRule]
  cases hdescr : req.description with
  | none => exact (h.compatible (objIid, old) hold row hrow hne.symm).descriptions holdApp happ
  | some description =>
      intro heq
      have hfree := hpass.descriptionFree
      have hnoApp := hpass.noApp
      rw [hdescr, Option.any_some] at hnoApp
      rw [descriptionTaken, hdescr] at hfree
      simp only [hnoApp, Bool.not_false, Bool.true_and, List.any_eq_false] at hfree
      have hsame : row.1.toInt = req.index := by
        simpa [← heq] using hfree row hrow
      rw [← hsame, InstNum.ofIndex_toInt] at hindex
      exact hne (Option.some.inj hindex)

/-- A rule that a request would edit has no port in common with another rule for its address: the
comparison with the ports and the address of the merged rule succeeds too. -/
def MergedFits (table : PortMappingTable) (req : PutRequest) : Prop :=
  ∀ objIid old, findRule table req.index = some (objIid, old) → EditPasses table req old →
    (zcfgFeDalNATPortRangeCheck table objIid.toInt (mergedRule old req).externalPort
      (mergedRule old req).externalPortEndRange (some (mergedRule old req).originatingIpAddress)
      { replyMsg := [], multiLangReplyMsg := none }).1 = .success

/-- A merged rule is stored into a table in order. -/
theorem put_merged_inOrder_iff {table : PortMappingTable} {req : PutRequest} {objIid : InstNum}
    {old : PortMapping} {reply : DalReply} (h : InOrder table)
    (hfind : findRule table req.index = some (objIid, old))
    (hpass : EditPasses table req old) :
    InOrder (table.put objIid (mergedRule old req)) ↔
      (zcfgFeDalNATPortRangeCheck table objIid.toInt (mergedRule old req).externalPort
        (mergedRule old req).externalPortEndRange (some (mergedRule old req).originatingIpAddress)
        reply).1 = .success := by
  have hold := (findRule_eq_some hfind).2.1
  rw [rangeCheck_rule_iff h.ordered hpass.external]
  constructor
  · intro hin row hrow hindex haddress
    have hne : row.1 ≠ objIid := fun heq => hindex (InstNum.toInt_inj.mpr heq.symm)
    have hall := (KeyedTable.allPairs_put_iff h.compatible (fun a b => Compatible.symm) hold).mp
      hin.compatible row hrow hne
    exact hall.ports haddress
  · intro hports
    constructor
    · intro row hrow
      rcases KeyedTable.mem_put_iff.mp hrow with ⟨hrow, -⟩ | ⟨rfl, -⟩
      · exact h.ordered row hrow
      · exact hpass.external
    · rw [KeyedTable.allPairs_put_iff h.compatible (fun a b => Compatible.symm) hold]
      intro row hrow hne
      constructor
      · intro haddress
        exact hports row hrow (fun heq => hne (InstNum.toInt_inj.mp heq).symm) haddress
      · intro _ happ
        exact merged_description h hfind hpass hrow hne happ

/-- An edit keeps the table in order exactly if the merged rule fits. -/
theorem edit_inOrder_iff {table : PortMappingTable} {req : PutRequest} {reply : DalReply}
    (h : InOrder table) :
    InOrder (zcfgFeDalNatPortMappingEdit table req reply).2.2 ↔ MergedFits table req := by
  rcases edit_cases table req reply with ⟨heq, hfails⟩ | ⟨objIid, old, hfind, hpass, heq⟩
  · rw [heq]
    constructor
    · intro _ objIid old hfind hpass
      exact absurd hpass (hfails objIid old hfind)
    · intro _
      exact h
  · rw [heq, put_merged_inOrder_iff h hfind hpass]
    constructor
    · intro hports objIid' old' hfind' _
      rw [hfind, Option.some.injEq, Prod.mk.injEq] at hfind'
      obtain ⟨rfl, rfl⟩ := hfind'
      exact hports
    · intro hfits
      exact hfits objIid old hfind hpass

/-! ## Runs -/

theorem delete_inOrder {table : PortMappingTable} {index : Int} {reply : DalReply}
    (h : InOrder table) : InOrder (zcfgFeDalNatPortMappingDelete table index reply).2.2 := by
  unfold zcfgFeDalNatPortMappingDelete
  split
  · exact h
  · constructor
    · intro row hrow
      exact h.ordered row (KeyedTable.mem_del_iff.mp hrow).1
    · exact h.compatible.del _

/-- The condition on a request and the table it meets. -/
def RequestFits (table : PortMappingTable) : PortRequest → Prop
  | .post _ => True
  | .put req => MergedFits table req
  | .delete _ => True

theorem portStep_inOrder_iff {store : PortMappingStore} {table : PortMappingTable}
    {request : PortRequest} (h : InOrder table) :
    InOrder (portStep store table request) ↔ RequestFits table request := by
  cases request with
  | post req => exact iff_of_true (add_inOrder h) trivial
  | put req => exact edit_inOrder_iff h
  | delete index => exact iff_of_true (delete_inOrder h) trivial

/-- Every request of a run fits the table it meets. -/
def RunFits (store : PortMappingStore) : PortMappingTable → List PortRequest → Prop
  | _, [] => True
  | table, request :: requests =>
      RequestFits table request ∧ RunFits store (portStep store table request) requests

/-- From a table in order, all tables of a run are in order exactly if the merged rules of its edits
fit. -/
theorem portMapping_run_iff (store : PortMappingStore) (table : PortMappingTable)
    (requests : List PortRequest) (hstart : InOrder table) :
    (∀ n, InOrder (portRun store table (requests.take n))) ↔ RunFits store table requests := by
  induction requests generalizing table with
  | nil =>
      simp only [List.take_nil, RunFits, iff_true]
      intro _
      exact hstart
  | cons request requests ih =>
      rw [RunFits, ← portStep_inOrder_iff hstart]
      constructor
      · intro hall
        have hstep : InOrder (portStep store table request) := hall 1
        exact ⟨hstep, (ih _ hstep).mp (fun n => hall (n + 1))⟩
      · rintro ⟨hstep, hrest⟩ n
        cases n with
        | zero => exact hstart
        | succ n => exact (ih _ hstep).mpr hrest n

/-- A store that gives out the lowest free number. -/
def lowestFree : PortMappingStore where
  newInstance := fun table =>
    match ((List.range 256).filterMap (fun n => InstNum.ofIndex n)).find?
        (fun n => n ∉ table.rows.map Prod.fst) with
    | none => .error .internalError
    | some n => .ok n
  initial :=
    { enable := false, interface := [], autoDetectWanStatus := false, externalPort := 0
      externalPortEndRange := 0, internalPort := 0, internalPortEndRange := 0
      setOriginatingIP := false, originatingIpAddress := [], protocol := "TCP".toList
      internalClient := [], description := [] }
  fresh := by
    intro table n h
    split at h
    · exact absurd h (by simp)
    · rename_i m hm
      obtain rfl : m = n := by simpa using h
      simpa using List.find?_some hm
  initial_address := rfl

/-- A request for a range of ports. -/
def portsOf (description : String) (first last : Int) : PostRequest where
  description := description.toList
  enable := some true
  interface := []
  autoDetectWanStatus := none
  externalPortStart := first
  externalPortEnd := last
  internalPortStart := first
  internalPortEnd := last
  setOriginatingIP := false
  originatingIpAddress := none
  protocol := "TCP".toList
  internalClient := "192.168.1.33".toList

/-- A request for another first external port of rule 2. -/
def startOnly (first : Int) : PutRequest where
  index := 2
  description := none
  enable := none
  interface := []
  autoDetectWanStatus := none
  externalPortStart := some first
  externalPortEnd := none
  internalPortStart := none
  internalPortEnd := none
  setOriginatingIP := none
  originatingIpAddress := none
  protocol := none
  internalClient := none

/-- The empty table. -/
def noRules : PortMappingTable := ⟨[], List.nodup_nil⟩

theorem noRules_inOrder : InOrder noRules := by
  constructor
  · intro row hrow
    exact absurd hrow List.not_mem_nil
  · intro row hrow
    exact absurd hrow List.not_mem_nil

/-- Two new rules and an edit that fits. -/
theorem portMapping_run_small :
    InOrder noRules ∧
    ∀ n, InOrder (portRun lowestFree noRules
      ([.post (portsOf "a" 80 90), .post (portsOf "b" 100 110), .put (startOnly 95)].take n)) := by
  refine ⟨noRules_inOrder, (portMapping_run_iff lowestFree noRules _ noRules_inOrder).mpr ?_⟩
  refine ⟨trivial, trivial, ?_, trivial⟩
  intro objIid old hfind _
  have hrule : findRule (portRun lowestFree noRules
      [.post (portsOf "a" 80 90), .post (portsOf "b" 100 110)]) 2 =
      some (⟨2, by decide⟩, addedRule lowestFree.initial (portsOf "b" 100 110)) := by
    decide +kernel
  obtain ⟨rfl, rfl⟩ := Prod.mk.injEq .. ▸ Option.some.inj (hrule.symm.trans hfind)
  decide +kernel

/-- A first port alone is compared with an end of 0, and the merged range covers that of another
rule. -/
theorem portMapping_run_fails :
    ¬ ∀ (store : PortMappingStore) (table : PortMappingTable) (requests : List PortRequest),
      InOrder table → (∀ request ∈ requests, parseValidateParameter request = true) →
      InOrder (portRun store table requests) := by
  intro h
  have hin := h lowestFree noRules
    [.post (portsOf "a" 80 90), .post (portsOf "b" 100 110), .put (startOnly 85)] noRules_inOrder
    (by simp only [List.forall_mem_cons]; decide +kernel)
  have hrows : (portRun lowestFree noRules
      [.post (portsOf "a" 80 90), .post (portsOf "b" 100 110), .put (startOnly 85)]).rows =
      [(⟨1, by decide⟩, addedRule lowestFree.initial (portsOf "a" 80 90)),
        (⟨2, by decide⟩,
          mergedRule (addedRule lowestFree.initial (portsOf "b" 100 110)) (startOnly 85))] := by
    decide +kernel
  have hpair := hin.compatible (⟨1, by decide⟩, _) (by rw [hrows]; exact List.mem_cons_self)
    (⟨2, by decide⟩, _) (by rw [hrows]; exact List.mem_cons_of_mem _ List.mem_cons_self) (by decide)
  exact hpair.ports rfl 85 ⟨⟨by decide, by decide⟩, by decide, by decide⟩

end FeDal
end ZyxelRouter
