import ZyxelRouter.FeDal.AddTraces
import ZyxelRouter.FeDal.ParamLanguages

/-!
# Prefixes of firewall rules

{lit}`zcfgFeDal_Firewall_ACL_Add` and {lit}`zcfgFeDal_Firewall_ACL_Edit` scan the prefixes of a request one after
the other into the same two buffers, and the hardware address into a third one.  What the texts look like has
been checked before, but not how long they are.

Main results:

- Theorem {lit}`scanPrefix_accepted`: an accepted prefix fills both buffers, whatever was in them.
- Theorem {lit}`readPrefixes_eq`: accepted texts are read as what they stand for, or do not fit.
- Theorem {lit}`aclEditText_refines`, {lit}`aclAddText_refines`: with what has been read the handlers are those of
  requests whose prefixes are taken apart.
- Theorem {lit}`aclCopies_iff`: when the texts of an accepted request are stored as they should be.
-/

namespace ZyxelRouter
namespace FeDal

open Lib FeString UndoLog

/-! ## Requests -/

/-- The object of a request; the prefixes are texts. -/
structure AclRequest where
  index : Int
  enable : Option Bool
  name : Option (List Char)
  ipVersion : Option IpVersion
  protocol : Option AclProtocol
  tcpFlag : Option (List Char)
  macAddress : Option (List Char)
  sourceIP : Option (List Char)
  destIP : Option (List Char)
  sourceIPPrefix : Option (List Char)
  destIPPrefix : Option (List Char)
  sourcePortRange : Option PortRange
  destPortRange : Option PortRange
  serviceIndex : Option Int
  plain : PlainField → Option AclValue
  renamed : RenamedField → Option AclValue

/-- The request with its prefixes taken apart. -/
def AclRequest.withPrefixes (req : AclRequest) (source dest : Option IpPrefix) : AclPut where
  index := req.index
  enable := req.enable
  name := req.name
  ipVersion := req.ipVersion
  protocol := req.protocol
  tcpFlag := req.tcpFlag
  macAddress := req.macAddress
  sourceIP := req.sourceIP
  destIP := req.destIP
  sourceIPPrefix := source
  destIPPrefix := dest
  sourcePortRange := req.sourcePortRange
  destPortRange := req.destPortRange
  serviceIndex := req.serviceIndex
  plain := req.plain
  renamed := req.renamed

/-- {lit}`findInList` with the separator of {lit}`FIREWALL_ACL_param`. -/
def findInList (list target : List Char) : Bool :=
  (strtok '|' list).any (fun ptr => ptr = target)

/-- {lit}`dalType_IPPrefix` with the enumeration of {lit}`FIREWALL_ACL_param`. -/
def checkAclPrefix (inet : Inet) (text : List Char) : Option Bool :=
  if findInList "AnyIP".toList text then some true else checkIpPrefix inet text

/-- {lit}`dalType_MacAddrHyphen` with the enumeration of {lit}`FIREWALL_ACL_param`. -/
def checkAclMac (text : List Char) : Option Bool :=
  if text = [] then some true
  else if findInList "AnyMACAddress".toList text then some true
  else validateMacAddr1 text '-'

/-- {lit}`parseValidateParameter` accepts the prefixes and the hardware address of a request. -/
structure AclAccepted (inet : Inet) (req : AclRequest) : Prop where
  source : ∀ text, req.sourceIPPrefix = some text → checkAclPrefix inet text = some true
  mac : ∀ text, req.macAddress = some text → checkAclMac text = some true
  dest : ∀ text, req.destIPPrefix = some text → checkAclPrefix inet text = some true

/-! ## The handlers -/

/-- How a call ends: it returns, it reads a null pointer, or it writes behind a buffer. -/
inductive AclOutcome (α : Type) where
  | returned (result : α)
  | nullRead
  | overrun

/-- What a call returns, if it does. -/
def AclOutcome.result {α : Type} : AclOutcome α → Option α
  | .returned result => some result
  | _ => none

/-- What is in the buffers {lit}`ip` and {lit}`mask`. -/
structure PrefixBuffers where
  ip : List Char
  mask : List Char

/-- The buffers have 64 and 8 bytes. -/
def PrefixBuffers.fits (buffers : PrefixBuffers) : Bool :=
  buffers.ip.length ≤ 63 && buffers.mask.length ≤ 7

/-- {lit}`sscanf(charVal, "%[^/]/%s", ip, mask)`; a conversion that finds nothing leaves its buffer alone. -/
def scanPrefix (buffers : PrefixBuffers) (charVal : List Char) : PrefixBuffers :=
  let ip := charVal.takeWhile (fun c => c ≠ '/')
  let behind := (charVal.dropWhile (fun c => c ≠ '/')).tail
  let mask := (behind.dropWhile isSpace).takeWhile (fun c => !isSpace c)
  if ip = [] then buffers else { ip := ip, mask := if mask = [] then buffers.mask else mask }

/-- What a prefix is written as, and the buffers behind it; {lit}`none` if one is too small. -/
def readPrefix (buffers : PrefixBuffers) :
    Option (List Char) → Option (Option IpPrefix × PrefixBuffers)
  | none => some (none, buffers)
  | some charVal =>
      if charVal = "AnyIP".toList then some (some .anyIP, buffers)
      else
        let scanned := scanPrefix buffers charVal
        if scanned.fits then some (some (.net scanned.ip scanned.mask), scanned) else none

/-- The buffer {lit}`MACAddress` has 18 bytes. -/
def macFits (text : List Char) : Bool :=
  text = "AnyMACAddress".toList || (macText text).length ≤ 17

/-- The three members that are scanned, one after the other; {lit}`none` if a buffer is too small. -/
def readPrefixes (req : AclRequest) : Option AclPut :=
  match readPrefix { ip := [], mask := [] } req.sourceIPPrefix with
  | none => none
  | some (source, buffers) =>
      if req.macAddress.all macFits then
        match readPrefix buffers req.destIPPrefix with
        | none => none
        | some (dest, _) => some (req.withPrefixes source dest)
      else none

/-- {lit}`zcfgFeDal_Firewall_ACL_Edit`. -/
def aclEditText (state : FirewallState) (req : AclRequest) (reply : DalReply) :
    AclOutcome (HandlerResult AclIid AclRule) :=
  match getChainRuleIid state.levels with
  | none => .returned (.notFound, reply, .none)
  | some chain =>
      let aclIid := aclIidOf chain.toNat req.index
      if req.name.any (nameTaken state aclIid) then
        .returned (.invalidParamValue,
          { reply.cat "Name is duplicate." with
            multiLangReplyMsg := some "zylang.Common.duplicate_name".toList }, .none)
      else
        match aclIid, aclIid.bind state.chainRules.get with
        | some iid, some old =>
            match tcpFlagFits (req.withPrefixes none none) with
            | none => .nullRead
            | some false =>
                .returned (.invalidParamValue,
                  reply.copy "TCP flag should choose Protocol TCP or TCP/UDP.", .none)
            | some true =>
                match readPrefixes req with
                | none => .overrun
                | some put =>
                    .returned (.success, reply, .set iid (editedRule state.serviceGroups put old))
        | _, _ => .returned (.noSuchObject, reply, .none)

/-- {lit}`dalcmdParamCheck` for a new rule: a rule has the name; {lit}`none` if there is a rule, but no name to
compare. -/
def addNameTaken (state : FirewallState) : Option (List Char) → Option Bool
  | some name => some (nameTaken state none name)
  | none => if state.chainRules.rows = [] then some false else none

/-- {lit}`zcfgFeDal_Firewall_ACL_Add`; the new rule is there when it is set. -/
def aclAddText (results : StoreResults) (store : AclStore) (state : FirewallState)
    (req : AclRequest) (reply : DalReply) : AclOutcome (HandlerResult AclIid AclRule) :=
  match addNameTaken state req.name with
  | none => .nullRead
  | some true =>
      .returned (.invalidParamValue,
        { reply.cat "Name is duplicate." with
          multiLangReplyMsg := some "zylang.Common.duplicate_name".toList }, .none)
  | some false =>
      match getChainRuleIid state.levels with
      | none => .returned (.success, reply, .none)
      | some chain =>
          match store.newInstance state.chainRules chain with
          | .error ret => .returned (ret, reply, .none)
          | .ok aclIid =>
              if results.get ≠ .success then .returned (results.get, reply, .none)
              else
                match tcpFlagFits (req.withPrefixes none none) with
                | none => .nullRead
                | some false =>
                    .returned (.invalidParamValue,
                      reply.copy "TCP flag should choose Protocol TCP or TCP/UDP.", .none)
                | some true =>
                    match readPrefixes req with
                    | none => .overrun
                    | some put =>
                        .returned (results.set, reply,
                          .set aclIid (addedAclRule state.serviceGroups store.initial put))

/-! ## What they are for -/

/-- What an accepted text of a prefix stands for. -/
inductive StandsFor : List Char → IpPrefix → Prop where
  | anyIP : StandsFor "AnyIP".toList .anyIP
  | net {address number : List Char} (hslash : '/' ∉ address) :
      StandsFor (address ++ '/' :: number) (.net address number)

/-- The two parameters of a prefix have its address and its length. -/
def PrefixStored (field : Option (List Char)) (ip mask : AclParam) (rule : AclRule) : Prop :=
  ∀ text p, field = some text → StandsFor text p →
    rule ip = .text p.ip ∧ rule mask = .text p.mask

/-- A call writes behind no buffer, and a rule that it sets has the prefixes of the request. -/
def CopiesRight (req : AclRequest) : AclOutcome (HandlerResult AclIid AclRule) → Prop
  | .returned (_, _, .set _ rule) =>
      PrefixStored req.sourceIPPrefix .sourceIP (.plain .sourceMask) rule ∧
        PrefixStored req.destIPPrefix .destIP (.plain .destMask) rule
  | .overrun => False
  | _ => True

/-! ## When they do it -/

/-- The texts fit into the buffers. -/
structure TextsFit (req : AclRequest) : Prop where
  source : ∀ text p, req.sourceIPPrefix = some text → StandsFor text p → p.fits = true
  mac : ∀ text, req.macAddress = some text → text ≠ "AnyMACAddress".toList → text.length ≤ 17
  dest : ∀ text p, req.destIPPrefix = some text → StandsFor text p → p.fits = true

/-- No other member of the request overwrites the address of a prefix. -/
def NotOverwritten (field address : Option (List Char)) : Prop :=
  ∀ text, field = some text → address = some "AnyIP".toList → text = "AnyIP".toList

/-- The condition on a request. -/
structure AclTextsFit (req : AclRequest) : Prop where
  fits : TextsFit req
  source : NotOverwritten req.sourceIPPrefix req.sourceIP
  dest : NotOverwritten req.destIPPrefix req.destIP

/-- An edit comes to the prefixes. -/
def AclEditReaches (state : FirewallState) (req : AclRequest) : Prop :=
  (∃ iid old, AclReached state (req.withPrefixes none none) iid old) ∧
    tcpFlagFits (req.withPrefixes none none) = some true

/-- An addition comes to the prefixes. -/
def AclAddReaches (results : StoreResults) (store : AclStore) (state : FirewallState)
    (req : AclRequest) : Prop :=
  addNameTaken state req.name = some false ∧
    (∃ chain aclIid, getChainRuleIid state.levels = some chain ∧
      store.newInstance state.chainRules chain = .ok aclIid) ∧
    results.get = .success ∧ tcpFlagFits (req.withPrefixes none none) = some true

/-! ## Texts that are accepted -/

variable {inet : Inet} {text address number : List Char} {p : IpPrefix} {req : AclRequest}

/-- A list without a separator has only itself in it. -/
theorem findInList_iff {list : List Char} (hne : list ≠ []) (h : '|' ∉ list) {target : List Char} :
    findInList list target = true ↔ target = list := by
  rw [findInList, strtok_of_notMem hne h]
  simp [eq_comm]

theorem slash_notMem_anyIP : '/' ∉ "AnyIP".toList := by decide

/-- A text stands for one prefix. -/
theorem StandsFor.unique {q : IpPrefix} (hp : StandsFor text p) (hq : StandsFor text q) : p = q := by
  generalize htext : text = other at hq
  cases hp with
  | anyIP =>
      cases hq with
      | anyIP => rfl
      | net hslash =>
          have hmem : '/' ∈ "AnyIP".toList := htext ▸ (by simp)
          exact absurd hmem slash_notMem_anyIP
  | @net address number hslash =>
      cases hq with
      | anyIP =>
          have hmem : '/' ∈ "AnyIP".toList := htext ▸ (by simp)
          exact absurd hmem slash_notMem_anyIP
      | net hslash' =>
          have hcut : cutAt '/' (address ++ '/' :: number) = some (address, number) :=
            cutAt_eq_some_iff.mpr ⟨rfl, hslash⟩
          rw [htext, cutAt_eq_some_iff.mpr ⟨rfl, hslash'⟩] at hcut
          obtain ⟨rfl, rfl⟩ := Prod.mk.inj (Option.some.inj hcut)
          rfl

/-- An accepted text that is not in the enumeration has an address, a slash and digits. -/
theorem checkIpPrefix_accepted (h : checkIpPrefix inet text = some true) :
    ∃ address number, text = address ++ '/' :: number ∧ '/' ∉ address ∧ address ≠ [] ∧
      DigitText number := by
  rw [checkIpPrefix] at h
  cases hcut : cutAt '/' text with
  | none => simp [hcut] at h
  | some parts =>
      obtain ⟨address, number⟩ := parts
      obtain ⟨htext, hslash⟩ := cutAt_eq_some_iff.mp hcut
      simp only [hcut] at h
      split at h
      · simp at h
      · rename_i hnumber
        rw [Bool.not_eq_true, Bool.or_eq_false_iff, decide_eq_false_iff_not, Bool.not_eq_false',
          List.all_eq_true] at hnumber
        refine ⟨address, number, htext, hslash, ?_, ⟨hnumber.1, hnumber.2⟩⟩
        rintro rfl
        split at h
        · rename_i hcolon
          simp at hcolon
        · split at h
          · simp at h
          · have hreads := validateIPv4_iff.mp (Option.some.inj h)
            exact absurd hreads.four (by simp)

/-- An accepted prefix fills both buffers, whatever was in them. -/
theorem scanPrefix_accepted (buffers : PrefixBuffers) (hslash : '/' ∉ address) (hne : address ≠ [])
    (hnumber : DigitText number) :
    scanPrefix buffers (address ++ '/' :: number) = { ip := address, mask := number } := by
  have hfront : ∀ c ∈ address, decide (c ≠ '/') = true := by
    intro c hc
    exact decide_eq_true (fun heq => hslash (heq ▸ hc))
  have hip : (address ++ '/' :: number).takeWhile (fun c => c ≠ '/') = address := by
    rw [List.takeWhile_append_of_pos hfront]
    simp
  have hbehind : ((address ++ '/' :: number).dropWhile (fun c => c ≠ '/')).tail = number := by
    rw [List.dropWhile_append_of_pos hfront]
    simp
  have hspace : ∀ c ∈ number, isSpace c = false :=
    fun c hc => (not_isSpace_of_isDigit (hnumber.digits c hc)).1
  have hdrop : number.dropWhile isSpace = number := by
    rw [List.dropWhile_eq_self_iff]
    intro hlen
    simp [hspace _ (List.getElem_mem hlen)]
  have hmask : number.takeWhile (fun c => !isSpace c) = number := by
    rw [List.takeWhile_eq_self_iff]
    intro c hc
    simp [hspace c hc]
  unfold scanPrefix
  simp only [hip, hbehind, hdrop, hmask, if_neg hne, if_neg hnumber.nonempty]

/-- An accepted text stands for a prefix, which is read if it fits into the buffers. -/
theorem readPrefix_accepted (h : checkAclPrefix inet text = some true) :
    ∃ p, StandsFor text p ∧ (p.ip = [] → text = "AnyIP".toList) ∧ ∀ buffers,
      (p.fits = true → ∃ behind, readPrefix buffers (some text) = some (some p, behind)) ∧
      (p.fits ≠ true → readPrefix buffers (some text) = none) := by
  by_cases hany : text = "AnyIP".toList
  · subst hany
    refine ⟨.anyIP, .anyIP, fun _ => rfl, fun buffers => ⟨fun _ => ⟨buffers, ?_⟩, ?_⟩⟩
    · rw [readPrefix, if_pos rfl]
    · exact fun hfits => absurd rfl hfits
  · rw [checkAclPrefix, if_neg (fun hfind => hany ((findInList_iff (by decide) (by decide)).mp hfind))] at h
    obtain ⟨address, number, rfl, hslash, hne, hnumber⟩ := checkIpPrefix_accepted h
    refine ⟨.net address number, .net hslash, fun hip => absurd hip hne, fun buffers => ?_⟩
    rw [readPrefix, if_neg hany]
    simp only [scanPrefix_accepted buffers hslash hne hnumber]
    constructor
    · intro hfits
      exact ⟨_, if_pos hfits⟩
    · intro hfits
      exact if_neg hfits

theorem not_isSpace_of_isHexDigit {c : Char} (h : isHexDigit c = true) : isSpace c = false := by
  rw [Bool.eq_false_iff]
  intro hspace
  simp only [isSpace, Bool.or_eq_true, Bool.and_eq_true, decide_eq_true_eq] at hspace
  have hsmall : c.toNat ≤ 32 := by
    rcases hspace with rfl | ⟨-, hle⟩
    · decide
    · omega
  simp only [isHexDigit, Char.isDigit, Bool.or_eq_true, Bool.and_eq_true, decide_eq_true_eq] at h
  rcases h with (⟨hlo, -⟩ | ⟨hlo, -⟩) | ⟨hlo, -⟩
  · have hge : '0'.toNat ≤ c.toNat := hlo
    exact absurd (hge.trans hsmall) (by decide)
  · have hge : 'a'.toNat ≤ c.toNat := hlo
    exact absurd (hge.trans hsmall) (by decide)
  · have hge : 'A'.toNat ≤ c.toNat := hlo
    exact absurd (hge.trans hsmall) (by decide)

/-- The characters of an accepted hardware address. -/
theorem macText_length (h : checkAclMac text = some true) (hany : text ≠ "AnyMACAddress".toList) :
    (macText text).length = text.length := by
  have hspace : ∀ c ∈ text, isSpace c = false := by
    intro c hc
    rw [checkAclMac, if_neg (List.ne_nil_of_mem hc),
      if_neg (fun hfind => hany ((findInList_iff (by decide) (by decide)).mp hfind)),
      validateMacAddr1] at h
    split at h
    · have hsix := sixPairs_iff_macLoop.mp (Option.some.inj h)
      by_cases hhyphen : c = '-'
      · subst hhyphen
        decide
      · obtain ⟨piece, hpiece, hin⟩ := (mem_iff_splitOn hhyphen).mp hc
        have htoken : piece ∈ strtok '-' text := by
          rw [strtok, List.mem_filter]
          exact ⟨hpiece, by simpa using List.ne_nil_of_mem hin⟩
        obtain ⟨x, y, rfl, hx, hy⟩ := hsix.pairs piece htoken
        rcases List.mem_pair.mp hin with rfl | rfl
        · exact not_isSpace_of_isHexDigit hx
        · exact not_isSpace_of_isHexDigit hy
    · exact absurd h (by simp)
  have hdrop : text.dropWhile isSpace = text := by
    rw [List.dropWhile_eq_self_iff]
    intro hlen
    simp [hspace _ (List.getElem_mem hlen)]
  have htake : text.takeWhile (fun c => !isSpace c) = text := by
    rw [List.takeWhile_eq_self_iff]
    intro c hc
    simp [hspace c hc]
  rw [macText, hdrop, htake, List.length_map]

/-! ## Members that are accepted -/

/-- What a member of an accepted request stands for. -/
structure FieldStands (field : Option (List Char)) (q : Option IpPrefix) : Prop where
  missing : field = none → q = none
  given : ∀ text, field = some text →
    ∃ p, q = some p ∧ StandsFor text p ∧ (p.ip = [] → text = "AnyIP".toList)

/-- A member is read as what it stands for if that fits into the buffers. -/
theorem exists_fieldStands {field : Option (List Char)}
    (h : ∀ text, field = some text → checkAclPrefix inet text = some true) :
    ∃ q, FieldStands field q ∧ ∀ buffers,
      (q.all IpPrefix.fits = true → ∃ behind, readPrefix buffers field = some (q, behind)) ∧
      (q.all IpPrefix.fits ≠ true → readPrefix buffers field = none) := by
  cases field with
  | none =>
      refine ⟨none, ⟨fun _ => rfl, fun text htext => absurd htext (by simp)⟩, fun buffers => ?_⟩
      exact ⟨fun _ => ⟨buffers, rfl⟩, fun hfits => absurd rfl hfits⟩
  | some text =>
      obtain ⟨p, hp, hempty, hread⟩ := readPrefix_accepted (h text rfl)
      refine ⟨some p, ⟨fun hnone => absurd hnone (by simp), ?_⟩, hread⟩
      intro text' htext'
      obtain rfl := Option.some.inj htext'
      exact ⟨p, rfl, hp, hempty⟩

/-- Accepted members are read as what they stand for, or do not fit. -/
theorem readPrefixes_eq (h : AclAccepted inet req) :
    ∃ source dest, FieldStands req.sourceIPPrefix source ∧ FieldStands req.destIPPrefix dest ∧
      readPrefixes req =
        if buffersFit (req.withPrefixes source dest) then some (req.withPrefixes source dest)
        else none := by
  obtain ⟨source, hsource, hreadSource⟩ := exists_fieldStands h.source
  obtain ⟨dest, hdest, hreadDest⟩ := exists_fieldStands h.dest
  refine ⟨source, dest, hsource, hdest, ?_⟩
  have hbuffers : buffersFit (req.withPrefixes source dest) =
      (source.all IpPrefix.fits && dest.all IpPrefix.fits && req.macAddress.all macFits) := rfl
  rw [readPrefixes, hbuffers]
  by_cases hfitsSource : source.all IpPrefix.fits = true
  · obtain ⟨buffers, hread⟩ := (hreadSource { ip := [], mask := [] }).1 hfitsSource
    rw [hread, hfitsSource, Bool.true_and]
    simp only
    by_cases hmac : req.macAddress.all macFits = true
    · rw [if_pos hmac, hmac, Bool.and_true]
      by_cases hfitsDest : dest.all IpPrefix.fits = true
      · obtain ⟨behind, hread'⟩ := (hreadDest buffers).1 hfitsDest
        rw [hread', if_pos hfitsDest]
      · rw [(hreadDest buffers).2 hfitsDest, if_neg hfitsDest]
    · rw [if_neg hmac, if_neg (by simp [hmac])]
  · rw [(hreadSource { ip := [], mask := [] }).2 hfitsSource, if_neg (by simp [hfitsSource])]

theorem FieldStands.all_iff {field : Option (List Char)} {q : Option IpPrefix}
    (h : FieldStands field q) :
    q.all IpPrefix.fits = true ↔
      ∀ text p, field = some text → StandsFor text p → p.fits = true := by
  cases hfield : field with
  | none =>
      rw [h.missing hfield]
      simp
  | some text =>
      obtain ⟨p, rfl, hp, -⟩ := h.given text hfield
      constructor
      · intro hfits text' p' htext' hp'
        obtain rfl := Option.some.inj htext'
        exact hp.unique hp' ▸ hfits
      · intro hall
        exact hall text p rfl hp

/-- The buffers are large enough exactly for short texts. -/
theorem buffersFit_iff (h : AclAccepted inet req) {source dest : Option IpPrefix}
    (hsource : FieldStands req.sourceIPPrefix source) (hdest : FieldStands req.destIPPrefix dest) :
    buffersFit (req.withPrefixes source dest) = true ↔ TextsFit req := by
  have hbuffers : buffersFit (req.withPrefixes source dest) =
      (source.all IpPrefix.fits && dest.all IpPrefix.fits && req.macAddress.all macFits) := rfl
  have hmac : req.macAddress.all macFits = true ↔ ∀ text, req.macAddress = some text →
      text ≠ "AnyMACAddress".toList → text.length ≤ 17 := by
    rw [Option.all_eq_true]
    refine forall_congr' fun text => forall_congr' fun htext => ?_
    rw [macFits, Bool.or_eq_true, decide_eq_true_eq, decide_eq_true_eq, Classical.or_iff_not_imp_left]
    refine forall_congr' fun hany => ?_
    rw [macText_length (h.mac text htext) hany]
  rw [hbuffers, Bool.and_eq_true, Bool.and_eq_true, hsource.all_iff, hdest.all_iff, hmac]
  exact ⟨fun ⟨⟨hs, hd⟩, hm⟩ => ⟨hs, hm, hd⟩, fun hfits => ⟨⟨hfits.source, hfits.dest⟩, hfits.mac⟩⟩

/-! ## Values that are stored -/

section Stored

variable {α : Type} {old : AclRule} {param other : AclParam} {serviceGroups : List UInt8}
  {put : AclPut}

/-- Writing one member. -/
theorem assign_member (value : α → AclValue) (field : Option α) :
    assign old (member param value field) other =
      if other = param then (field.map value).getD (old other) else old other := by
  cases field with
  | none =>
      simp only [member, Option.map_none, Option.toList_none, Option.getD_none, ite_self]
      rfl
  | some a =>
      have hone : assign old (member param value (some a)) = Function.update old param (value a) := rfl
      rw [hone, Function.update_apply, Option.map_some, Option.getD_some]

theorem assign_renamedMembers (h : ∀ field, other ≠ .renamed field) :
    assign old (renamedMembers put) other = old other := by
  apply assign_of_notMem
  intro hmem
  obtain ⟨w, hw, rfl⟩ := List.mem_map.mp hmem
  obtain ⟨field, -, hfield⟩ := List.mem_flatMap.mp hw
  obtain ⟨a, -, rfl⟩ := mem_member.mp hfield
  exact h field rfl

/-- An edited rule has the prefixes of the request, unless an address is given again. -/
theorem editedRule_prefixes (p : IpPrefix) :
    (put.sourceIPPrefix = some p →
      editedRule serviceGroups put old (.plain .sourceMask) = .text p.mask ∧
      editedRule serviceGroups put old .sourceIP =
        if put.sourceIP = some "AnyIP".toList then .text [] else .text p.ip) ∧
    (put.destIPPrefix = some p →
      editedRule serviceGroups put old (.plain .destMask) = .text p.mask ∧
      editedRule serviceGroups put old .destIP =
        if put.destIP = some "AnyIP".toList then .text [] else .text p.ip) := by
  have hfilter : ∀ (address : Option (List Char)) (value : AclValue),
      ((address.filter (fun t => t = "AnyIP".toList)).map (fun _ => AclValue.text [])).getD value =
        if address = some "AnyIP".toList then .text [] else value := by
    intro address value
    cases address with
    | none => rfl
    | some t =>
        by_cases ht : t = "AnyIP".toList
        · rw [if_pos (congrArg some ht), Option.filter_some_pos (by simpa using ht)]
          rfl
        · rw [if_neg (fun heq => ht (Option.some.inj heq)), Option.filter_some_neg (by simpa using ht)]
          rfl
  refine ⟨fun hp => ⟨?_, ?_⟩, fun hp => ⟨?_, ?_⟩⟩ <;>
    simp only [editedRule, convertedMembers, prefixMembers, portMembers, tcpFlagMembers, anyMember,
      assign_append, assign_member, ne_eq, reduceCtorEq, not_false_eq_true, implies_true,
      assign_renamedMembers, AclParam.plain.injEq, if_false, if_true, hp, Option.map_some,
      Option.getD_some, hfilter]

/-- The ports of an added rule do not touch its prefixes. -/
theorem addedAclRule_eq (h : ∀ field, other = .plain field → field ≠ .destPort ∧
    field ≠ .destPortRangeMax ∧ field ≠ .sourcePort ∧ field ≠ .sourcePortRangeMax) :
    addedAclRule serviceGroups old put other = editedRule serviceGroups put old other := by
  have hports : ∀ (first last : PlainField) (range : Option PortRange) (rule : AclRule),
      other ≠ .plain first → other ≠ .plain last →
      assign rule (missingPorts first last put range) other = rule other := by
    intro first last range rule hfirst hlast
    apply assign_of_notMem
    rw [missingPorts]
    split
    · simp [hfirst, hlast]
    · simp
  rw [addedAclRule, assign_append, assign_append, hports, hports, editedRule]
  · exact fun heq => (h _ heq).1 rfl
  · exact fun heq => (h _ heq).2.1 rfl
  · exact fun heq => (h _ heq).2.2.1 rfl
  · exact fun heq => (h _ heq).2.2.2 rfl

/-- A prefix is stored as it should be exactly if its address is not overwritten. -/
theorem prefixStored_iff {field address : Option (List Char)} {q : Option IpPrefix}
    (hstands : FieldStands field q) {ip mask : AclParam} {rule : AclRule}
    (hrule : ∀ p, q = some p → rule mask = .text p.mask ∧
      rule ip = if address = some "AnyIP".toList then .text [] else .text p.ip) :
    PrefixStored field ip mask rule ↔ NotOverwritten field address := by
  cases hfield : field with
  | none =>
      apply iff_of_true
      · intro text p htext
        exact absurd htext (by simp)
      · intro text htext
        exact absurd htext (by simp)
  | some text =>
      obtain ⟨p, rfl, hp, hempty⟩ := hstands.given text hfield
      obtain ⟨hmask, hip⟩ := hrule p rfl
      by_cases haddress : address = some "AnyIP".toList
      · rw [if_pos haddress] at hip
        constructor
        · intro hstored text' htext' _
          obtain rfl := Option.some.inj htext'
          have heq := (hstored text p rfl hp).1
          rw [hip] at heq
          exact hempty (AclValue.text.inj heq).symm
        · intro hnot text' p' htext' hp'
          obtain rfl := Option.some.inj htext'
          obtain rfl := hp.unique hp'
          obtain rfl : p = .anyIP := hp.unique (hnot text rfl haddress ▸ .anyIP)
          exact ⟨hip, hmask⟩
      · rw [if_neg haddress] at hip
        apply iff_of_true
        · intro text' p' htext' hp'
          obtain rfl := Option.some.inj htext'
          obtain rfl := hp.unique hp'
          exact ⟨hip, hmask⟩
        · exact fun _ _ hany => absurd hany haddress

end Stored

/-! ## The handlers -/

variable {state : FirewallState} {reply : DalReply}

/-- What is read is written as it should be exactly under the condition. -/
theorem copiesRight_read_iff (h : AclAccepted inet req) (ret : ZcfgRet) (reply : DalReply)
    (aclIid : AclIid) {rule : AclPut → AclRule}
    (hrule : ∀ put p, (put.sourceIPPrefix = some p →
        rule put (.plain .sourceMask) = .text p.mask ∧
        rule put .sourceIP =
          if put.sourceIP = some "AnyIP".toList then .text [] else .text p.ip) ∧
      (put.destIPPrefix = some p →
        rule put (.plain .destMask) = .text p.mask ∧
        rule put .destIP = if put.destIP = some "AnyIP".toList then .text [] else .text p.ip)) :
    CopiesRight req
        (match readPrefixes req with
        | none => .overrun
        | some put => .returned (ret, reply, .set aclIid (rule put))) ↔
      AclTextsFit req := by
  obtain ⟨source, dest, hsource, hdest, hread⟩ := readPrefixes_eq h
  rw [hread]
  by_cases hbuffers : buffersFit (req.withPrefixes source dest) = true
  · rw [if_pos hbuffers]
    have hfits := (buffersFit_iff h hsource hdest).mp hbuffers
    have hstoredSource := prefixStored_iff hsource
      (fun p hp => (hrule (req.withPrefixes source dest) p).1 hp)
    have hstoredDest := prefixStored_iff hdest
      (fun p hp => (hrule (req.withPrefixes source dest) p).2 hp)
    simp only [CopiesRight]
    rw [hstoredSource, hstoredDest]
    exact ⟨fun hboth => ⟨hfits, hboth.1, hboth.2⟩, fun hall => ⟨hall.source, hall.dest⟩⟩
  · rw [if_neg hbuffers]
    apply iff_of_false
    · exact fun hright => hright
    · exact fun hall => hbuffers ((buffersFit_iff h hsource hdest).mpr hall.fits)

/-- An edit copies as it should exactly if it does not come to the prefixes or the condition holds. -/
theorem aclEditText_iff (h : AclAccepted inet req) :
    CopiesRight req (aclEditText state req reply) ↔
      (AclEditReaches state req → AclTextsFit req) := by
  unfold aclEditText
  split
  · rename_i hchain
    refine iff_of_true trivial ?_
    rintro ⟨⟨iid, old, chain, hsome, -⟩, -⟩
    exact absurd (hchain.symm.trans hsome) (by simp)
  · rename_i chain hchain
    simp only
    split
    · rename_i htaken
      refine iff_of_true trivial ?_
      rintro ⟨⟨iid, old, chain', hsome, hiid, -, hname⟩, -⟩
      obtain rfl := Option.some.inj (hchain.symm.trans hsome)
      have hindex : aclIidOf chain.toNat req.index = some iid := hiid
      have hfree : req.name.any (nameTaken state (some iid)) = false := hname
      rw [hindex, hfree] at htaken
      exact absurd htaken (by simp)
    · rename_i hname
      split
      · rename_i iid old hiid hold
        have hreached : ∃ iid old, AclReached state (req.withPrefixes none none) iid old := by
          refine ⟨iid, old, chain, hchain, hiid, ?_, ?_⟩
          · rwa [hiid, Option.bind_some] at hold
          · rw [hiid] at hname
            exact Bool.eq_false_iff.mpr hname
        split
        · rename_i htcp
          exact iff_of_true trivial (fun hreach => absurd (htcp.symm.trans hreach.2) (by simp))
        · rename_i htcp
          exact iff_of_true trivial (fun hreach => absurd (htcp.symm.trans hreach.2) (by simp))
        · rename_i htcp
          rw [forall_prop_of_true ⟨hreached, htcp⟩]
          exact copiesRight_read_iff h .success reply iid (fun put p => editedRule_prefixes p)
      · rename_i hnone
        refine iff_of_true trivial ?_
        rintro ⟨⟨iid, old, chain', hsome, hiid, hold, -⟩, -⟩
        obtain rfl := Option.some.inj (hchain.symm.trans hsome)
        have hindex : aclIidOf chain.toNat req.index = some iid := hiid
        refine (hnone iid old hindex ?_).elim
        rw [hindex]
        exact hold

/-- An addition copies as it should exactly if it does not come to the prefixes or the condition holds. -/
theorem aclAddText_iff (results : StoreResults) (store : AclStore) (h : AclAccepted inet req) :
    CopiesRight req (aclAddText results store state req reply) ↔
      (AclAddReaches results store state req → AclTextsFit req) := by
  unfold aclAddText
  split
  · rename_i hname
    exact iff_of_true trivial (fun hreach => absurd (hname.symm.trans hreach.1) (by simp))
  · rename_i hname
    exact iff_of_true trivial (fun hreach => absurd (hname.symm.trans hreach.1) (by simp))
  · rename_i hname
    split
    · rename_i hchain
      refine iff_of_true trivial ?_
      rintro ⟨-, ⟨chain, aclIid, hsome, -⟩, -⟩
      exact absurd (hchain.symm.trans hsome) (by simp)
    · rename_i chain hchain
      split
      · rename_i ret hnew
        refine iff_of_true trivial ?_
        rintro ⟨-, ⟨chain', aclIid, hsome, hok⟩, -⟩
        obtain rfl := Option.some.inj (hchain.symm.trans hsome)
        exact absurd (hnew.symm.trans hok) (by simp)
      · rename_i aclIid hnew
        by_cases hget : results.get = .success
        · rw [if_neg (not_not.mpr hget)]
          split
          · rename_i htcp
            exact iff_of_true trivial
              (fun hreach => absurd (htcp.symm.trans hreach.2.2.2) (by simp))
          · rename_i htcp
            exact iff_of_true trivial
              (fun hreach => absurd (htcp.symm.trans hreach.2.2.2) (by simp))
          · rename_i htcp
            rw [forall_prop_of_true ⟨hname, ⟨chain, aclIid, hchain, hnew⟩, hget, htcp⟩]
            refine copiesRight_read_iff h results.set reply aclIid (fun put p => ?_)
            rw [addedAclRule_eq (by simp), addedAclRule_eq (by simp), addedAclRule_eq (by simp),
              addedAclRule_eq (by simp)]
            exact editedRule_prefixes p
        · rw [if_pos hget]
          exact iff_of_true trivial (fun hreach => absurd hreach.2.2.1 hget)

/-! ## Requests whose prefixes are taken apart -/

/-- What is read has fitted into the buffers. -/
theorem readPrefix_fits {buffers behind : PrefixBuffers} {field : Option (List Char)}
    {q : Option IpPrefix} (h : readPrefix buffers field = some (q, behind)) :
    q.all IpPrefix.fits = true := by
  cases field with
  | none =>
      obtain ⟨rfl, -⟩ := Prod.mk.inj (Option.some.inj h)
      rfl
  | some charVal =>
      rw [readPrefix] at h
      split at h
      · obtain ⟨rfl, -⟩ := Prod.mk.inj (Option.some.inj h)
        rfl
      · simp only at h
        split at h
        · rename_i hfits
          obtain ⟨rfl, -⟩ := Prod.mk.inj (Option.some.inj h)
          exact hfits
        · exact absurd h (by simp)

theorem readPrefixes_some {put : AclPut} (h : readPrefixes req = some put) :
    (∃ source dest, put = req.withPrefixes source dest) ∧ buffersFit put = true := by
  unfold readPrefixes at h
  split at h
  · exact absurd h (by simp)
  · rename_i source buffers hsource
    split at h
    · rename_i hmac
      split at h
      · exact absurd h (by simp)
      · rename_i dest behind hdest
        obtain rfl := Option.some.inj h
        refine ⟨⟨source, dest, rfl⟩, ?_⟩
        have hbuffers : buffersFit (req.withPrefixes source dest) =
            (source.all IpPrefix.fits && dest.all IpPrefix.fits && req.macAddress.all macFits) := rfl
        rw [hbuffers, readPrefix_fits hsource, readPrefix_fits hdest, hmac]
        rfl
    · exact absurd h (by simp)

/-- With what has been read, an edit is that of the request whose prefixes are taken apart. -/
theorem aclEditText_refines {put : AclPut} (hread : readPrefixes req = some put) :
    zcfgFeDalFirewallACLEdit state put reply = (aclEditText state req reply).result := by
  obtain ⟨⟨source, dest, rfl⟩, hfits⟩ := readPrefixes_some hread
  have htcp : tcpFlagFits (req.withPrefixes source dest) =
      tcpFlagFits (req.withPrefixes none none) := rfl
  have hindex : (req.withPrefixes source dest).index = req.index := rfl
  have hname : (req.withPrefixes source dest).name = req.name := rfl
  unfold zcfgFeDalFirewallACLEdit aclEditText
  simp only [htcp, hread, hfits, if_true, hindex, hname]
  cases getChainRuleIid state.levels with
  | none => rfl
  | some chain =>
      simp only
      by_cases htaken : req.name.any (nameTaken state (aclIidOf chain.toNat req.index)) = true
      · rw [if_pos htaken, if_pos htaken]
        rfl
      · rw [if_neg htaken, if_neg htaken]
        cases aclIidOf chain.toNat req.index with
        | none => rfl
        | some iid =>
            rw [Option.bind_some]
            cases state.chainRules.get iid with
            | none => rfl
            | some old =>
                cases tcpFlagFits (req.withPrefixes none none) with
                | none => rfl
                | some fits => cases fits <;> rfl

/-- With what has been read, an addition is that of the request whose prefixes are taken apart, and the rule
that it sets is there behind it. -/
theorem aclAddText_refines (results : StoreResults) (store : AclStore) {put : AclPut}
    (hread : readPrefixes req = some put) (hfields : hasAddFields put = true) :
    ((zcfgFeDalFirewallACLAdd results store state ⟨put, hfields⟩ reply).map
        (fun returned => (returned.1, returned.2.1)) =
      (aclAddText results store state req reply).result.map
        (fun returned => (returned.1, returned.2.1))) ∧
    ∀ ret reply' iid rule, (aclAddText results store state req reply).result =
        some (ret, reply', .set iid rule) → results.set = .success →
      ∃ table, zcfgFeDalFirewallACLAdd results store state ⟨put, hfields⟩ reply =
        some (.success, reply', table) ∧ table.get iid = some rule := by
  obtain ⟨⟨source, dest, rfl⟩, hfits⟩ := readPrefixes_some hread
  have htcp : tcpFlagFits (req.withPrefixes source dest) =
      tcpFlagFits (req.withPrefixes none none) := rfl
  have hname : (req.withPrefixes source dest).name = req.name := rfl
  have hgiven : req.name.isSome = true := by
    simp only [hasAddFields, Bool.and_eq_true] at hfields
    exact hfields.1.1.1.1.1.1.2
  obtain ⟨name, hsome⟩ := Option.isSome_iff_exists.mp hgiven
  unfold zcfgFeDalFirewallACLAdd aclAddText
  simp only [hname, hsome, addNameTaken, Option.any_some]
  cases htaken : nameTaken state none name with
  | true => exact ⟨rfl, fun _ _ _ _ h => absurd h (by simp [AclOutcome.result])⟩
  | false =>
      simp only [Bool.false_eq_true, if_false]
      cases getChainRuleIid state.levels with
      | none => exact ⟨rfl, fun _ _ _ _ h => absurd h (by simp [AclOutcome.result])⟩
      | some chain =>
          simp only
          split
          · rename_i ret hnew
            rw [hnew]
            exact ⟨rfl, fun _ _ _ _ h => absurd h (by simp [AclOutcome.result])⟩
          · rename_i aclIid hnew
            simp only [hnew, setAddedAcl, htcp, hread, hfits, if_true]
            by_cases hget : results.get = .success
            · rw [if_neg (not_not.mpr hget), if_neg (not_not.mpr hget)]
              cases tcpFlagFits (req.withPrefixes none none) with
              | none => exact ⟨rfl, fun _ _ _ _ h => absurd h (by simp [AclOutcome.result])⟩
              | some fits =>
                  cases fits with
                  | false => exact ⟨rfl, fun _ _ _ _ h => absurd h (by simp [AclOutcome.result])⟩
                  | true =>
                      constructor
                      · by_cases hset : results.set = .success
                        · simp only [StoreResults.set_of_success hset, AclOutcome.result,
                            Option.map_some, hset]
                        · simp only [StoreResults.set_of_failed hset, AclOutcome.result,
                            Option.map_some]
                      · intro ret reply' iid rule hresult hset
                        simp only [AclOutcome.result, Option.some.injEq, Prod.mk.injEq,
                          StoreCall.set.injEq] at hresult
                        obtain ⟨-, rfl, rfl, rfl⟩ := hresult
                        refine ⟨_, by rw [StoreResults.set_of_success hset], ?_⟩
                        rw [KeyedTable.put_add, KeyedTable.get_add]
            · rw [if_pos hget, if_pos hget]
              exact ⟨rfl, fun _ _ _ _ h => absurd h (by simp [AclOutcome.result])⟩

/-! ## Both handlers -/

/-- The prefixes and the hardware address of an accepted request are copied as they should be exactly if, once
the handler comes to them, the texts fit into the buffers and no address of a prefix is given again as
{lit}`AnyIP`. -/
theorem aclCopies_iff (inet : Inet) (results : StoreResults) (store : AclStore)
    (state : FirewallState) (req : AclRequest) (reply : DalReply) (h : AclAccepted inet req) :
    (CopiesRight req (aclAddText results store state req reply) ↔
      (AclAddReaches results store state req → AclTextsFit req)) ∧
    (CopiesRight req (aclEditText state req reply) ↔
      (AclEditReaches state req → AclTextsFit req)) :=
  ⟨aclAddText_iff results store h, aclEditText_iff h⟩

/-- A request that gives a prefix for the source. -/
def sourceRequest (sourceIPPrefix : String) : AclRequest where
  index := 1
  enable := none
  name := none
  ipVersion := none
  protocol := none
  tcpFlag := none
  macAddress := none
  sourceIP := none
  destIP := none
  sourceIPPrefix := some sourceIPPrefix.toList
  destIPPrefix := some "AnyIP".toList
  sourcePortRange := none
  destPortRange := none
  serviceIndex := none
  plain := fun _ => none
  renamed := fun _ => none

theorem sourceRequest_accepted {sourceIPPrefix : String}
    (h : checkAclPrefix quadInet sourceIPPrefix.toList = some true) :
    AclAccepted quadInet (sourceRequest sourceIPPrefix) where
  source text htext := by
    obtain rfl := Option.some.inj htext
    exact h
  mac text htext := absurd htext (by simp [sourceRequest])
  dest text htext := by
    obtain rfl := Option.some.inj htext
    decide +kernel

/-- A firewall whose user-defined chain has one rule. -/
def oneRule : FirewallState where
  levels := emptyChain.levels
  serviceGroups := []
  chainRules := ⟨[((firstChain, firstChain), emptyRule)], by simp⟩

theorem sourceRequest_reaches (sourceIPPrefix : String) :
    AclEditReaches oneRule (sourceRequest sourceIPPrefix) :=
  ⟨⟨(firstChain, firstChain), emptyRule, 1, by decide +kernel, rfl, rfl, rfl⟩, rfl⟩

/-- A network and any destination. -/
theorem aclCopies_network :
    (CopiesRight (sourceRequest "10.0.0.0/24")
        (aclAddText .succeed (aclFirstFree emptyRule) oneRule (sourceRequest "10.0.0.0/24") .empty) ↔
      (AclAddReaches .succeed (aclFirstFree emptyRule) oneRule (sourceRequest "10.0.0.0/24") →
        AclTextsFit (sourceRequest "10.0.0.0/24"))) ∧
    (CopiesRight (sourceRequest "10.0.0.0/24")
        (aclEditText oneRule (sourceRequest "10.0.0.0/24") .empty) ↔
      (AclEditReaches oneRule (sourceRequest "10.0.0.0/24") →
        AclTextsFit (sourceRequest "10.0.0.0/24"))) :=
  aclCopies_iff quadInet .succeed (aclFirstFree emptyRule) oneRule (sourceRequest "10.0.0.0/24") .empty
    (sourceRequest_accepted (by decide +kernel))

/-- The length of a prefix with zeros in front of it is accepted, and written behind the buffer. -/
theorem long_mask_overruns :
    ¬ ∀ (inet : Inet) (state : FirewallState) (req : AclRequest) (reply : DalReply),
      AclAccepted inet req → CopiesRight req (aclEditText state req reply) := by
  intro hall
  have haccepted : AclAccepted quadInet (sourceRequest "10.0.0.0/00000024") :=
    sourceRequest_accepted (by decide +kernel)
  have hcopies := hall quadInet oneRule (sourceRequest "10.0.0.0/00000024") .empty haccepted
  have hfits := (aclEditText_iff haccepted).mp hcopies (sourceRequest_reaches _)
  have hslash : '/' ∉ "10.0.0.0".toList := by decide
  have hnet := hfits.fits.source _ (.net "10.0.0.0".toList "00000024".toList) rfl (.net hslash)
  exact absurd hnet (by decide)

end FeDal
end ZyxelRouter
