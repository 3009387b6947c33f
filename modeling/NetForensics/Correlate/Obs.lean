import NetForensics.Flow.Entry

/-!
# Flow observations

`nf_flow_obs_t` is the common shape of what a CPE reports about a connection it translates and what
a core router exports about a flow. An observation is filled from one or the other and printed as
one line.

The parsers of both inputs are libraries of their own. What the code takes from them comes in as a
parameter: the flow key of a data record, and the forensics tuple of a conntrack event.
-/

namespace NetForensics

/-- `nf_flow_obs_t`. The field `wan_dst_ip6`, which is written and never read, is left out. -/
structure NfFlowObs where
  tsMs : UInt64
  srcIp : UInt32
  dstIp : UInt32
  srcPort : UInt16
  dstPort : UInt16
  protocol : UInt8
  wanSrcIp : UInt32
  wanSrcPort : UInt16
  srcIp6 : In6Addr
  dstIp6 : In6Addr
  wanSrcIp6 : In6Addr
  routerId : CStr
  fromCpe : Bool
  isIpv6 : Bool
  isDestroy : Bool
  hasCtId : Bool
  ctId : UInt32
  event : CStr

/-- The observation after `memset(out, 0, sizeof(*out))`. -/
def NfFlowObs.zero : NfFlowObs :=
  ⟨0, 0, 0, 0, 0, 0, 0, 0, fun _ ↦ 0, fun _ ↦ 0, fun _ ↦ 0, [], false, false, false, false, 0, []⟩

/-- The text `strncpy` leaves in `router_id`; a null pointer leaves it empty. -/
def obsRouterId (routerId : Option CStr) : CStr := copyStr 64 (routerId.getD [])

/-! ## From an exported record -/

/-- `ipfix_flow_key_t` -/
structure IpfixFlowKey where
  srcIpv4 : UInt32
  dstIpv4 : UInt32
  srcPort : UInt16
  dstPort : UInt16
  protocol : UInt8
  hasStartMs : Bool
  flowStartMs : UInt64
  has5tuple : Bool

/-- `nf_obs_from_ipfix`; `key` is what `ipfix_record_flow_key` finds in the record, if it does not
fail. An observation without a 5-tuple is filled in and refused all the same. -/
def nfObsFromIpfix (key : Option IpfixFlowKey) (routerId : Option CStr) (fallbackTsMs : UInt64) :
    Option NfFlowObs :=
  key.bind fun key ↦
    if key.has5tuple then
      some { NfFlowObs.zero with
        srcIp := key.srcIpv4
        dstIp := key.dstIpv4
        srcPort := key.srcPort
        dstPort := key.dstPort
        protocol := key.protocol
        tsMs := if key.hasStartMs then key.flowStartMs else fallbackTsMs
        routerId := obsRouterId routerId }
    else none

/-! ## From a conntrack event -/

/-- What `nfct_event_forensics_tuple` and its IPv6 twin return. -/
structure ForensicsTuple (addr : Type) where
  lanIp : addr
  lanPort : UInt16
  wanIp : addr
  wanPort : UInt16
  protocol : UInt8

/-- The forensics tuples of an event, where the library finds them. -/
structure ForensicsLib where
  /-- `nfct_event_forensics_tuple` -/
  tuple : NfctEvent → Option (ForensicsTuple UInt32)
  /-- `nfct_event_forensics_tuple_v6` -/
  tupleV6 : NfctEvent → Option (ForensicsTuple In6Addr)

/-- The name `nf_obs_from_nfct` gives an event. -/
def obsEventName : NfctEventType → CStr
  | .new => ascii "NEW"
  | .update => ascii "UPDATE"
  | .destroy => ascii "DESTROY"
  | .other => ascii "PARTIAL"

/-- The part of the observation `nf_obs_from_nfct` fills in before it looks at the addresses. -/
def obsHeader (ev : NfctEvent) (routerId : Option CStr) (tsMs : UInt64) : NfFlowObs :=
  { NfFlowObs.zero with
    tsMs := tsMs
    fromCpe := true
    isDestroy := ev.isDestroy || ev.type == .destroy
    hasCtId := ev.hasId
    ctId := ev.id
    event := obsEventName ev.type
    routerId := obsRouterId routerId }

/-- `nf_obs_from_nfct` -/
def nfObsFromNfct (lib : ForensicsLib) (ev : NfctEvent) (routerId : Option CStr) (tsMs : UInt64) :
    Option NfFlowObs :=
  let out := obsHeader ev routerId tsMs
  -- a DESTROY may carry nothing but the id
  if out.isDestroy && !ev.hasLan && !ev.hasWan && ev.hasId then some out
  else if ev.isIpv6 then
    (lib.tupleV6 ev).map fun t ↦
      { out with
        isIpv6 := true
        srcIp6 := t.lanIp
        wanSrcIp6 := t.wanIp
        dstIp6 := ev.lanDstIp6
        srcPort := t.lanPort
        wanSrcPort := t.wanPort
        dstPort := ev.lanDstPort
        protocol := t.protocol }
  else
    (lib.tuple ev).map fun t ↦
      { out with
        srcIp := t.lanIp
        srcPort := t.lanPort
        dstIp := ev.lanDstIp
        dstPort := ev.lanDstPort
        wanSrcIp := t.wanIp
        wanSrcPort := t.wanPort
        protocol := t.protocol }

/-! ## The line of an observation -/

/-- `%02x` of a byte. -/
def hex2 (b : UInt8) : CStr := zeroPad 2 (hex b.toNat)

theorem length_hex2 (b : UInt8) : (hex2 b).length = 2 := by
  have hhex : (hex b.toNat).length ≤ 2 := by
    rw [hex, numeral, List.length_map, Nat.length_toDigits_le_iff (by norm_num) (by norm_num)]
    have := b.toNat_lt
    omega
  exact length_zeroPad hhex

/-- `ipv6_hex`: eight groups, none left out, in a buffer of 48 bytes. -/
def ipv6Hex (a : In6Addr) : CStr :=
  copyStr 48 (List.intercalate [58] ((List.finRange 8).map fun (i : Fin 8) ↦
    hex2 (a ⟨2 * i.val, highByte_lt i⟩) ++ hex2 (a ⟨2 * i.val + 1, lowByte_lt i⟩)))

/-- `a.b.c.d:port` -/
def endpoint4 (ip : UInt32) (port : UInt16) : CStr := inetNtop4 ip ++ 58 :: decimal port.toNat

/-- `[address]:port` -/
def endpoint6 (ip : In6Addr) (port : UInt16) : CStr :=
  91 :: ipv6Hex ip ++ 93 :: 58 :: decimal port.toNat

/-- The members of the line, in the order they are printed. -/
def obsMembers (obs : NfFlowObs) : List (String × CStr) :=
  if obs.fromCpe then
    if obs.isDestroy && obs.srcPort == 0 && obs.wanSrcPort == 0 && obs.hasCtId then
      [("type", quoted (ascii "cpe_nat")),
       ("event", quoted (ascii "DESTROY")),
       ("router", quoted obs.routerId),
       ("ts", decimal obs.tsMs.toNat),
       ("ct_id", decimal obs.ctId.toNat)]
    else
      [("type", quoted (ascii "cpe_nat")),
       ("event", quoted (if obs.event ≠ [] then obs.event else ascii "NEW")),
       ("router", quoted obs.routerId),
       ("ts", decimal obs.tsMs.toNat),
       ("ip_version", decimal (if obs.isIpv6 then 6 else 4)),
       ("lan", quoted (if obs.isIpv6 then endpoint6 obs.srcIp6 obs.srcPort
          else endpoint4 obs.srcIp obs.srcPort)),
       ("wan", quoted (if obs.isIpv6 then endpoint6 obs.wanSrcIp6 obs.wanSrcPort
          else endpoint4 obs.wanSrcIp obs.wanSrcPort)),
       ("proto", decimal obs.protocol.toNat)] ++
      if obs.hasCtId then [("ct_id", decimal obs.ctId.toNat)] else []
  else
    [("type", quoted (ascii "ipfix")),
     ("router", quoted obs.routerId),
     ("ts", decimal obs.tsMs.toNat),
     ("flow", quoted (endpoint4 obs.srcIp obs.srcPort ++ 62 :: endpoint4 obs.dstIp obs.dstPort)),
     ("proto", decimal obs.protocol.toNat)]

/-- `nf_obs_format`: what does not fit the buffer is cut off, without a word. -/
def nfObsFormat (obs : NfFlowObs) (buflen : ℕ) : Option CStr :=
  if buflen < 32 then none else some (copyStr buflen (object (obsMembers obs)))

end NetForensics
