import ZyxelRouter.Lib.Decimal
import ZyxelRouter.Lib.UndoLog
import ZyxelRouter.FeDal.Common

/-!
# Firewall rules by index

{lit}`zcfgFeDalFirewallACL` lists the rules of the firewall chains with numbers that count up from 1.
{lit}`PUT` takes the number of a request for the number of an instance, {lit}`DELETE` looks it up in the
list.

Main results:

- Theorem {lit}`aclFields_set_iff`: an edited rule has the fields of the request exactly if no two of them
  stand for different values of one parameter.
- Theorem {lit}`aclPut_agrees_iff`, {lit}`aclDelete_agrees_iff`: when a request meets the listed rule.
-/

namespace ZyxelRouter
namespace FeDal

open Lib UndoLog

/-! ## Rules -/

/-- Fields of a request that are parameters of the rule as they stand. -/
inductive PlainField where
  | order | target | sourceIPExclude | destIPExclude | protocolExclude | sourceMask | destMask
  | destPortExclude | destPort | destPortRangeMax | sourcePortExclude | sourcePort
  | sourcePortRangeMax | tcpFlagComp | tcpFlagMask | scheduleRule
deriving DecidableEq

/-- Fields of a request whose parameter has a name that starts with {lit}`X_ZYXEL_`. -/
inductive RenamedField where
  | direction | ipv6header | ipv6headertypes | icmpType | icmpTypeCode | limitRate | limitRateUnit
deriving DecidableEq

/-- The parameters of {lit}`RDM_OID_FIREWALL_CHAIN_RULE` that requests can set. -/
inductive AclParam where
  | enable | description | ipVersion | protocol | macAddress | sourceIP | destIP | serviceIndex
  | plain (field : PlainField)
  | renamed (field : RenamedField)
deriving DecidableEq

inductive AclValue where
  | bool (b : Bool)
  | int (n : Int)
  | text (t : List Char)
deriving DecidableEq

/-- A rule with the values of its parameters. -/
abbrev AclRule := AclParam → AclValue

/-- The instance of a rule: its chain and its number there. -/
abbrev AclIid := InstNum × InstNum

/-- What the handler reads: levels with name and chain, groups of services, and the rules of all
chains, in the order of {lit}`zcfgFeObjJsonGetNextWithoutUpdate`. -/
structure FirewallState where
  levels : List (List Char × List Char)
  serviceGroups : List UInt8
  chainRules : KeyedTable AclIid AclRule

/-! ## Requests -/

inductive IpVersion where
  | ipv4 | ipv6
deriving DecidableEq

inductive AclProtocol where
  | all | tcp | udp | tcpudp | icmp | icmpv6
deriving DecidableEq

/-- {lit}`dalType_IPPrefix`: {lit}`AnyIP` or an address and the length of a prefix. -/
inductive IpPrefix where
  | anyIP
  | net (ip mask : List Char)
deriving DecidableEq

/-- {lit}`dalType_PortRange`: one port or the first and the last. -/
inductive PortRange where
  | single (port : Int)
  | range (startPort endPort : Int)
deriving DecidableEq

/-- The object of a {lit}`PUT` request; {lit}`ICMPv6Type` has been replaced by {lit}`ICMPType` and
{lit}`ICMPTypeCode`. -/
structure AclPut where
  index : Int
  enable : Option Bool
  name : Option (List Char)
  ipVersion : Option IpVersion
  protocol : Option AclProtocol
  tcpFlag : Option (List Char)
  macAddress : Option (List Char)
  sourceIP : Option (List Char)
  destIP : Option (List Char)
  sourceIPPrefix : Option IpPrefix
  destIPPrefix : Option IpPrefix
  sourcePortRange : Option PortRange
  destPortRange : Option PortRange
  serviceIndex : Option Int
  plain : PlainField → Option AclValue
  renamed : RenamedField → Option AclValue

/-! ## Values of parameters -/

def IpVersion.text : IpVersion → List Char
  | .ipv4 => "IPv4".toList
  | .ipv6 => "IPv6".toList

def IpVersion.number : IpVersion → Int
  | .ipv4 => 4
  | .ipv6 => 6

def AclProtocol.text : AclProtocol → List Char
  | .all => "ALL".toList
  | .tcp => "TCP".toList
  | .udp => "UDP".toList
  | .tcpudp => "TCPUDP".toList
  | .icmp => "ICMP".toList
  | .icmpv6 => "ICMPv6".toList

def AclProtocol.number : AclProtocol → Int
  | .all => -1
  | .tcp => 6
  | .udp => 17
  | .tcpudp => -2
  | .icmp => 1
  | .icmpv6 => 58

/-- {lit}`sscanf(charVal, "%s", MACAddress)` and {lit}`str_replace(MACAddress, "-", ":")`. -/
def macText (text : List Char) : List Char :=
  ((text.dropWhile isSpace).takeWhile (fun c => !isSpace c)).map (fun c => if c = '-' then ':' else c)

/-- The address of a prefix. -/
def IpPrefix.ip : IpPrefix → List Char
  | .anyIP => []
  | .net ip _ => ip

/-- The mask of a prefix. -/
def IpPrefix.mask : IpPrefix → List Char
  | .anyIP => ['0']
  | .net _ mask => mask

/-- The buffers {lit}`ip` and {lit}`mask` hold 63 and 7 characters. -/
def IpPrefix.fits : IpPrefix → Bool
  | .anyIP => true
  | .net ip mask => ip.length ≤ 63 && mask.length ≤ 7

/-- The first port of a range. -/
def PortRange.startPort : PortRange → Int
  | .single port => port
  | .range startPort _ => startPort

/-- The last port of a range, or -1. -/
def PortRange.endPort : PortRange → Int
  | .single _ => -1
  | .range startPort endPort => if startPort = -1 then -1 else endPort

/-- {lit}`convertIndextoIid` for the groups of services: where the loop has stopped, or 0. -/
def serviceIid (serviceGroups : List UInt8) (index : Int) : Int :=
  ((serviceGroups.take index.toNat).getLast?.getD 0).toNat

/-- Lists all fields of their kind. -/
def PlainField.all : List PlainField :=
  [.order, .target, .sourceIPExclude, .destIPExclude, .protocolExclude, .sourceMask, .destMask,
    .destPortExclude, .destPort, .destPortRangeMax, .sourcePortExclude, .sourcePort,
    .sourcePortRangeMax, .tcpFlagComp, .tcpFlagMask, .scheduleRule]

/-- Lists all fields of their kind, in the order in which they are written. -/
def RenamedField.all : List RenamedField :=
  [.direction, .ipv6header, .ipv6headertypes, .icmpType, .icmpTypeCode, .limitRate, .limitRateUnit]

/-! ## The handler -/

/-- {lit}`sscanf(chain, "Firewall.Chain.%hhu", ...)`. -/
def scanChain (chain : List Char) : Option UInt8 :=
  let number := (chain.drop "Firewall.Chain.".length).dropWhile isSpace
  let digits := match number with
    | '-' :: rest => rest
    | '+' :: rest => rest
    | rest => rest
  if "Firewall.Chain.".toList.isPrefixOf chain && digits.head?.any Char.isDigit then
    some (UInt8.ofInt (atoi number))
  else none

/-- {lit}`getChainRuleIid`: the chain of the level {lit}`LEVEL_NAME_UD`. -/
def getChainRuleIid (levels : List (List Char × List Char)) : Option UInt8 :=
  match levels.find? (fun level => level.1 = "UserDefined".toList) with
  | none => none
  | some level => scanChain level.2

/-- The instance with a number in a chain, or {lit}`none` if one of the numbers is 0. -/
def aclIidOf (chain : Int) (index : Int) : Option AclIid :=
  match InstNum.ofIndex chain, InstNum.ofIndex index with
  | some c, some n => some (c, n)
  | _, _ => none

/-- {lit}`dalcmdParamCheck` for an edit: another rule has the name. -/
def nameTaken (state : FirewallState) (aclIid : Option AclIid) (name : List Char) : Bool :=
  state.chainRules.rows.any
    (fun row => row.2 .description = .text name && some row.1 ≠ aclIid)

/-- One parameter for a field, if the request has the field. -/
def member {α : Type} (param : AclParam) (value : α → AclValue) (field : Option α) :
    List (AclParam × AclValue) :=
  (field.map (fun a => (param, value a))).toList

/-- Fields that are parameters as they stand. -/
def plainMembers (req : AclPut) : List (AclParam × AclValue) :=
  PlainField.all.flatMap (fun f => member (.plain f) id (req.plain f))

/-- Fields that are parameters under another name. -/
def renamedMembers (req : AclPut) : List (AclParam × AclValue) :=
  RenamedField.all.flatMap (fun f => member (.renamed f) id (req.renamed f))

/-- {lit}`TCPFlag` stands for the mask and what is compared. -/
def tcpFlagMembers (req : AclPut) : List (AclParam × AclValue) :=
  member (.plain .tcpFlagMask) .text req.tcpFlag ++ member (.plain .tcpFlagComp) .text req.tcpFlag

/-- A prefix stands for an address and a mask. -/
def prefixMembers (ip mask : AclParam) (field : Option IpPrefix) : List (AclParam × AclValue) :=
  member ip (fun p => .text p.ip) field ++ member mask (fun p => .text p.mask) field

/-- A range stands for its first and last port. -/
def portMembers (first last : AclParam) (field : Option PortRange) : List (AclParam × AclValue) :=
  member first (fun p => .int p.startPort) field ++ member last (fun p => .int p.endPort) field

/-- The members of the request that have the name of a parameter, copied as they are. -/
def copiedMembers (req : AclPut) : List (AclParam × AclValue) :=
  member .enable .bool req.enable ++ member .ipVersion (fun v => .text v.text) req.ipVersion ++
  member .protocol (fun p => .text p.text) req.protocol ++ member .macAddress .text req.macAddress ++
  member .sourceIP .text req.sourceIP ++ member .destIP .text req.destIP ++
  member .serviceIndex .int req.serviceIndex ++ plainMembers req

/-- {lit}`AnyIP` is written as the empty address. -/
def anyMember (param : AclParam) (field : Option (List Char)) : List (AclParam × AclValue) :=
  member param (fun _ => .text []) (field.filter (fun t => t = "AnyIP".toList))

/-- The value of {lit}`MACAddress`. -/
def macValue (text : List Char) : AclValue :=
  if text = "AnyMACAddress".toList then .text [] else .text (macText text)

/-- The parameters that are written behind the copy; writes to one parameter are in the order of the
source. -/
def convertedMembers (serviceGroups : List UInt8) (req : AclPut) : List (AclParam × AclValue) :=
  member .ipVersion (fun v => .int v.number) req.ipVersion ++ tcpFlagMembers req ++
  member .protocol (fun p => .int p.number) req.protocol ++
  prefixMembers .sourceIP (.plain .sourceMask) req.sourceIPPrefix ++
  member .macAddress macValue req.macAddress ++
  prefixMembers .destIP (.plain .destMask) req.destIPPrefix ++
  portMembers (.plain .destPort) (.plain .destPortRangeMax) req.destPortRange ++
  portMembers (.plain .sourcePort) (.plain .sourcePortRangeMax) req.sourcePortRange ++
  renamedMembers req ++ anyMember .sourceIP req.sourceIP ++ anyMember .destIP req.destIP ++
  member .enable .bool req.enable ++ member .description .text req.name ++
  member .serviceIndex (fun n => .int (serviceIid serviceGroups n)) req.serviceIndex

/-- The rule that is stored. -/
def editedRule (serviceGroups : List UInt8) (req : AclPut) (old : AclRule) : AclRule :=
  assign old (copiedMembers req ++ convertedMembers serviceGroups req)

/-- Whether a {lit}`TCPFlag` goes with the protocol of the request; {lit}`none` if there is no protocol to
compare. -/
def tcpFlagFits (req : AclPut) : Option Bool :=
  match req.tcpFlag with
  | none => some true
  | some _ => req.protocol.map (fun p => p = .tcp || p = .tcpudp)

/-- The texts of the request fit into the buffers they are scanned into. -/
def buffersFit (req : AclPut) : Bool :=
  req.sourceIPPrefix.all IpPrefix.fits && req.destIPPrefix.all IpPrefix.fits &&
    req.macAddress.all
      (fun t => t = "AnyMACAddress".toList || (macText t).length ≤ 17)

/-- The result of a handler: what is returned, the reply and the call to the store. -/
abbrev HandlerResult (I R : Type) := ZcfgRet × DalReply × StoreCall I R

/-- {lit}`zcfgFeDal_Firewall_ACL_Edit`, or {lit}`none` if it reads a null pointer or writes behind a
buffer. -/
def zcfgFeDalFirewallACLEdit (state : FirewallState) (req : AclPut) (reply : DalReply) :
    Option (HandlerResult AclIid AclRule) :=
  match getChainRuleIid state.levels with
  | none => some (.notFound, reply, .none)
  | some chain =>
      let aclIid := aclIidOf chain.toNat req.index
      if req.name.any (nameTaken state aclIid) then
        some (.invalidParamValue,
          { reply.cat "Name is duplicate." with
            multiLangReplyMsg := some "zylang.Common.duplicate_name".toList }, .none)
      else
        match aclIid, aclIid.bind state.chainRules.get with
        | some iid, some old =>
            match tcpFlagFits req with
            | none => none
            | some false =>
                some (.invalidParamValue,
                  reply.copy "TCP flag should choose Protocol TCP or TCP/UDP.", .none)
            | some true =>
                if buffersFit req then
                  some (.success, reply, .set iid (editedRule state.serviceGroups req old))
                else none
        | _, _ => some (.noSuchObject, reply, .none)

/-- An entry of the list; the members that repeat parameters of the rule stand for the rule. -/
structure AclEntry where
  index : Int
  idx : InstNum
  rule : AclRule

/-- {lit}`zcfgFeDal_Firewall_ACL_Get`. -/
def zcfgFeDalFirewallACLGet (state : FirewallState) : List AclEntry :=
  state.chainRules.rows.mapIdx
    (fun n row => { index := n + 1, idx := row.1.2, rule := row.2 })

/-- The first chain. -/
def firstChain : InstNum := ⟨1, InstNum.one_ne⟩

/-- {lit}`zcfgFeDal_Firewall_ACL_Delete`; the chain is always the first. -/
def zcfgFeDalFirewallACLDelete (state : FirewallState) (index : Int) (reply : DalReply) :
    HandlerResult AclIid AclRule :=
  match getChainRuleIid state.levels with
  | none => (.notFound, reply, .none)
  | some _ =>
      match (zcfgFeDalFirewallACLGet state).find? (fun entry => entry.index = index) with
      | none => (.noSuchObject, reply, .none)
      | some entry =>
          match state.chainRules.get (firstChain, entry.idx) with
          | none => (.noSuchObject, reply, .none)
          | some _ => (.success, reply, .del (firstChain, entry.idx))

/-! ## What a request stands for -/

/-- The value of an address. -/
def addressValue (text : List Char) : AclValue :=
  if text = "AnyIP".toList then .text [] else .text text

/-- The parameters that the fields of a request stand for. -/
def fieldValues (serviceGroups : List UInt8) (req : AclPut) : List (AclParam × AclValue) :=
  member .enable .bool req.enable ++ member .description .text req.name ++
  member .ipVersion (fun v => .int v.number) req.ipVersion ++
  member .protocol (fun p => .int p.number) req.protocol ++ tcpFlagMembers req ++
  member .macAddress macValue req.macAddress ++ member .sourceIP addressValue req.sourceIP ++
  member .destIP addressValue req.destIP ++
  prefixMembers .sourceIP (.plain .sourceMask) req.sourceIPPrefix ++
  prefixMembers .destIP (.plain .destMask) req.destIPPrefix ++
  portMembers (.plain .sourcePort) (.plain .sourcePortRangeMax) req.sourcePortRange ++
  portMembers (.plain .destPort) (.plain .destPortRangeMax) req.destPortRange ++
  member .serviceIndex (fun n => .int (serviceIid serviceGroups n)) req.serviceIndex ++
  plainMembers req ++ renamedMembers req

/-- A rule has the fields of a request. -/
def AclFieldsSet (serviceGroups : List UInt8) (req : AclPut) (rule : AclRule) : Prop :=
  ∀ w ∈ fieldValues serviceGroups req, rule w.1 = w.2

/-- No two fields of a request stand for different values of one parameter. -/
def AclConsistent (serviceGroups : List UInt8) (req : AclPut) : Prop :=
  ∀ w ∈ fieldValues serviceGroups req, ∀ w' ∈ fieldValues serviceGroups req, w.1 = w'.1 →
    w.2 = w'.2

section Written

variable {serviceGroups : List UInt8} {req : AclPut} {w : AclParam × AclValue} {param : AclParam}
  {field : Option (List Char)}

theorem mem_member {α : Type} {value : α → AclValue} {field : Option α} :
    w ∈ member param value field ↔ ∃ a, field = some a ∧ (param, value a) = w := by
  simp [member]

theorem mem_address_of_any (h : w ∈ anyMember param field) : w ∈ member param addressValue field := by
  obtain ⟨t, ht, rfl⟩ := mem_member.mp h
  obtain ⟨hfield, hany⟩ := Option.filter_eq_some_iff.mp ht
  refine mem_member.mpr ⟨t, hfield, ?_⟩
  rw [addressValue, if_pos (by simpa using hany)]

theorem mem_text_or_any_of_address (h : w ∈ member param addressValue field) :
    w ∈ member param .text field ∨ w ∈ anyMember param field := by
  obtain ⟨t, ht, rfl⟩ := mem_member.mp h
  by_cases hany : t = "AnyIP".toList
  · right
    refine mem_member.mpr ⟨t, Option.filter_eq_some_iff.mpr ⟨ht, by simpa using hany⟩, ?_⟩
    rw [addressValue, if_pos hany]
  · left
    refine mem_member.mpr ⟨t, ht, ?_⟩
    rw [addressValue, if_neg hany]

/-- What is written behind the copy stands for a field. -/
theorem mem_fieldValues_of_converted (h : w ∈ convertedMembers serviceGroups req) :
    w ∈ fieldValues serviceGroups req := by
  have hsource := @mem_address_of_any w .sourceIP req.sourceIP
  have hdest := @mem_address_of_any w .destIP req.destIP
  simp only [convertedMembers, fieldValues, List.mem_append] at h ⊢
  grind only

/-- Every field is among what is written. -/
theorem mem_written_of_fieldValues (h : w ∈ fieldValues serviceGroups req) :
    w ∈ copiedMembers req ++ convertedMembers serviceGroups req := by
  have hsource := @mem_text_or_any_of_address w .sourceIP req.sourceIP
  have hdest := @mem_text_or_any_of_address w .destIP req.destIP
  simp only [copiedMembers, convertedMembers, fieldValues, List.mem_append] at h ⊢
  grind only

theorem fst_mem_member {α : Type} {value : α → AclValue} {field : Option α}
    (h : w ∈ member param value field) (value' : α → AclValue) :
    w.1 ∈ (member param value' field).map Prod.fst := by
  obtain ⟨a, ha, rfl⟩ := mem_member.mp h
  exact List.mem_map.mpr ⟨(param, value' a), mem_member.mpr ⟨a, ha, rfl⟩, rfl⟩

theorem mem_address_or_any_of_text (h : w ∈ member param .text field) :
    w ∈ member param addressValue field ∨ w.1 ∈ (anyMember param field).map Prod.fst := by
  obtain ⟨t, ht, rfl⟩ := mem_member.mp h
  by_cases hany : t = "AnyIP".toList
  · right
    have hfilter : field.filter (fun t => t = "AnyIP".toList) = some t :=
      Option.filter_eq_some_iff.mpr ⟨ht, decide_eq_true hany⟩
    exact List.mem_map.mpr ⟨(param, .text []), mem_member.mpr ⟨t, hfilter, rfl⟩, rfl⟩
  · left
    refine mem_member.mpr ⟨t, ht, ?_⟩
    rw [addressValue, if_neg hany]

/-- A copied member stands for a field, or its parameter is written again. -/
theorem copied_settled (h : w ∈ copiedMembers req) :
    w ∈ fieldValues serviceGroups req ∨
      w.1 ∈ (convertedMembers serviceGroups req).map Prod.fst := by
  have hsource := @mem_address_or_any_of_text w .sourceIP req.sourceIP
  have hdest := @mem_address_or_any_of_text w .destIP req.destIP
  have hversion := fun hw => @fst_mem_member w .ipVersion _ (fun v => .text v.text) req.ipVersion hw
    (fun v => .int v.number)
  have hprotocol := fun hw => @fst_mem_member w .protocol _ (fun p => .text p.text) req.protocol hw
    (fun p => .int p.number)
  have hmac := fun hw => @fst_mem_member w .macAddress _ .text req.macAddress hw macValue
  have hservice := fun hw => @fst_mem_member w .serviceIndex _ .int req.serviceIndex hw
    (fun n => .int (serviceIid serviceGroups n))
  simp only [copiedMembers, convertedMembers, fieldValues, List.map_append, List.mem_append] at h ⊢
  grind only

/-- The parameters of a field have a value that a field stands for. -/
theorem editedRule_mem {old : AclRule} (h : w ∈ fieldValues serviceGroups req) :
    (w.1, editedRule serviceGroups req old w.1) ∈ fieldValues serviceGroups req := by
  rw [editedRule, assign_append]
  by_cases hconverted : w.1 ∈ (convertedMembers serviceGroups req).map Prod.fst
  · exact mem_fieldValues_of_converted (assign_mem hconverted)
  · rw [assign_of_notMem hconverted]
    have hwritten : w.1 ∈ (copiedMembers req ++ convertedMembers serviceGroups req).map Prod.fst :=
      List.mem_map_of_mem (mem_written_of_fieldValues h)
    rw [List.map_append, List.mem_append] at hwritten
    have hcopied : (w.1, assign old (copiedMembers req) w.1) ∈ copiedMembers req :=
      assign_mem (hwritten.resolve_right hconverted)
    exact (copied_settled hcopied).resolve_right hconverted

/-- An edited rule has the fields of the request exactly if they do not contradict each other. -/
theorem aclFields_set_iff (serviceGroups : List UInt8) (req : AclPut) (old : AclRule) :
    AclFieldsSet serviceGroups req (editedRule serviceGroups req old) ↔
      AclConsistent serviceGroups req := by
  constructor
  · intro hset w hw w' hw' heq
    rw [← hset w hw, ← hset w' hw', heq]
  · intro hconsistent w hw
    exact hconsistent _ (editedRule_mem hw) w hw rfl

end Written

/-! ## Agreement with the list -/

/-- The rule that is listed with a number. -/
def listedAcl (state : FirewallState) (index : Int) : Option AclIid :=
  (atIndex state.chainRules.rows index).map Prod.fst

/-- An edit meets the listed rule. -/
def AclPutAgrees (state : FirewallState) (req : AclPut) : Prop :=
  ∃ ret reply call, zcfgFeDalFirewallACLEdit state req { replyMsg := [], multiLangReplyMsg := none } =
      some (ret, reply, call) ∧
    PutAgrees (listedAcl state req.index) (AclFieldsSet state.serviceGroups req) ret call

/-- A request whose name is free finds a rule with the number of the request as its number in the
chain of the user. -/
def AclReached (state : FirewallState) (req : AclPut) (iid : AclIid) (old : AclRule) : Prop :=
  ∃ chain, getChainRuleIid state.levels = some chain ∧ aclIidOf chain.toNat req.index = some iid ∧
    state.chainRules.get iid = some old ∧ req.name.any (nameTaken state (some iid)) = false

/-- The condition for an edit that finds a rule: the protocol is given along with a TCP flag and, if it
goes with the flag, that rule is the listed one, no fields contradict each other, and the texts fit
into the buffers. -/
def AclPutFits (state : FirewallState) (req : AclPut) : Prop :=
  ∀ iid old, AclReached state req iid old →
    tcpFlagFits req ≠ none ∧
    (tcpFlagFits req = some true → listedAcl state req.index = some iid ∧
      AclConsistent state.serviceGroups req ∧ buffersFit req = true)

theorem aclEdit_reached {state : FirewallState} {req : AclPut} {iid : AclIid} {old : AclRule}
    (h : AclReached state req iid old) (reply : DalReply) :
    zcfgFeDalFirewallACLEdit state req reply =
      match tcpFlagFits req with
      | none => none
      | some false =>
          some (.invalidParamValue, reply.copy "TCP flag should choose Protocol TCP or TCP/UDP.",
            .none)
      | some true =>
          if buffersFit req then
            some (.success, reply, .set iid (editedRule state.serviceGroups req old))
          else none := by
  obtain ⟨chain, hchain, hiid, hold, hname⟩ := h
  have hnot : ¬ req.name.any (nameTaken state (some iid)) = true := by simp [hname]
  simp only [zcfgFeDalFirewallACLEdit, hchain, hiid, if_neg hnot, Option.bind_some, hold]

theorem aclEdit_not_reached {state : FirewallState} {req : AclPut}
    (h : ∀ iid old, ¬ AclReached state req iid old) (reply : DalReply) :
    ∃ ret reply', ret ≠ .success ∧
      zcfgFeDalFirewallACLEdit state req reply = some (ret, reply', .none) := by
  unfold zcfgFeDalFirewallACLEdit
  split
  · exact ⟨.notFound, reply, by decide, rfl⟩
  · rename_i chain hchain
    simp only
    split
    · exact ⟨.invalidParamValue, _, by decide, rfl⟩
    · rename_i hname
      split
      · rename_i iid old hiid hold
        rw [hiid, Option.bind_some] at hold
        rw [hiid] at hname
        exact absurd ⟨chain, hchain, hiid, hold, by simpa using hname⟩ (h iid old)
      · exact ⟨.noSuchObject, reply, by decide, rfl⟩

/-- Edits meet the listed rule exactly under the condition. -/
theorem aclPut_agrees_iff (state : FirewallState) (req : AclPut) :
    AclPutAgrees state req ↔ AclPutFits state req := by
  by_cases hreached : ∃ iid old, AclReached state req iid old
  · obtain ⟨iid, old, hreach⟩ := hreached
    have hfits : AclPutFits state req ↔ tcpFlagFits req ≠ none ∧
        (tcpFlagFits req = some true → listedAcl state req.index = some iid ∧
          AclConsistent state.serviceGroups req ∧ buffersFit req = true) := by
      constructor
      · intro h
        exact h iid old hreach
      · rintro h iid' old' ⟨chain', hchain', hiid', -⟩
        obtain ⟨chain, hchain, hiid, -⟩ := hreach
        obtain rfl : chain = chain' := by
          rw [hchain] at hchain'
          exact Option.some.inj hchain'
        obtain rfl : iid = iid' := by
          rw [hiid] at hiid'
          exact Option.some.inj hiid'
        exact h
    rw [hfits, AclPutAgrees, aclEdit_reached hreach]
    cases htcp : tcpFlagFits req with
    | none => simp
    | some fits =>
        cases fits with
        | false =>
            refine iff_of_true ⟨_, _, _, rfl, putAgrees_of_failed (by decide)⟩ ?_
            exact ⟨by simp, by simp⟩
        | true =>
            simp only
            by_cases hbuffers : buffersFit req = true
            · rw [if_pos hbuffers]
              simp only [Option.some.injEq, Prod.mk.injEq, ne_eq, reduceCtorEq, not_false_eq_true,
                true_and, forall_const, hbuffers, and_true]
              rw [← aclFields_set_iff state.serviceGroups req old, ← putAgrees_success_iff]
              constructor
              · rintro ⟨ret, reply, call, ⟨rfl, -, rfl⟩, hagrees⟩
                exact hagrees
              · intro hagrees
                exact ⟨_, _, _, ⟨rfl, rfl, rfl⟩, hagrees⟩
            · rw [if_neg hbuffers]
              simp [hbuffers]
  · have hnone : ∀ iid old, ¬ AclReached state req iid old :=
      fun iid old hreach => hreached ⟨iid, old, hreach⟩
    obtain ⟨ret, reply, hret, hedit⟩ := aclEdit_not_reached hnone
      { replyMsg := [], multiLangReplyMsg := none }
    refine iff_of_true ⟨ret, reply, .none, hedit, putAgrees_of_failed hret⟩ ?_
    intro iid old hreach
    exact absurd hreach (hnone iid old)

/-- A deletion meets the listed rule. -/
def AclDeleteAgrees (state : FirewallState) (index : Int) : Prop :=
  let result :=
    zcfgFeDalFirewallACLDelete state index { replyMsg := [], multiLangReplyMsg := none }
  DeleteAgrees (listedAcl state index) result.1 result.2.2

/-- The condition for a deletion: a listed rule of another chain has no namesake in the first. -/
def AclDeleteFits (state : FirewallState) (index : Int) : Prop :=
  ∀ iid, getChainRuleIid state.levels ≠ none → listedAcl state index = some iid →
    state.chainRules.get (firstChain, iid.2) ≠ none → iid.1 = firstChain

theorem aclGet_find? (state : FirewallState) (index : Int) :
    (zcfgFeDalFirewallACLGet state).find? (fun entry => entry.index = index) =
      (atIndex state.chainRules.rows index).map
        (fun row => { index := (index - 1).toNat + 1, idx := row.1.2, rule := row.2 }) := by
  rw [zcfgFeDalFirewallACLGet, find?_numbered AclEntry.index index _ _ 1 (by simp), atIndex]
  by_cases hpos : index ≤ 0
  · rw [if_pos (by omega), if_pos hpos]
    rfl
  · rw [if_neg (by omega), if_neg hpos]
    rfl

/-- Deletions meet the listed rule exactly under the condition. -/
theorem aclDelete_agrees_iff (state : FirewallState) (index : Int) :
    AclDeleteAgrees state index ↔ AclDeleteFits state index := by
  unfold AclDeleteAgrees AclDeleteFits zcfgFeDalFirewallACLDelete
  cases hchain : getChainRuleIid state.levels with
  | none => exact iff_of_true (deleteAgrees_of_failed (by simp)) (by simp)
  | some chain =>
      rw [aclGet_find?, listedAcl]
      cases hrow : atIndex state.chainRules.rows index with
      | none => exact iff_of_true (deleteAgrees_of_failed (by simp)) (by simp)
      | some row =>
          simp only [Option.map_some]
          cases hget : state.chainRules.get (firstChain, row.1.2) with
          | none =>
              refine iff_of_true (deleteAgrees_of_failed (by simp)) ?_
              intro iid _ hiid hnone
              obtain rfl := Option.some.inj hiid
              exact absurd hget hnone
          | some old =>
              rw [deleteAgrees_success_iff]
              constructor
              · intro hsame iid _ hiid _
                obtain rfl := Option.some.inj hiid
                exact congrArg Prod.fst (Option.some.inj hsame)
              · intro hfits
                have hfirst := hfits row.1 (by simp) rfl (by rw [hget]; simp)
                rw [← hfirst]

end FeDal
end ZyxelRouter
