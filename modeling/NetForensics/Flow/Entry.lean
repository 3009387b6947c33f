import NetForensics.Agent.Clock
import NetForensics.Inet.Addr

/-!
# Flow records

A conntrack event as the parser delivers it, the record the flow table keeps for a flow, the
conversion from one to the other, and the `cpe_flow` line printed for a record.

Rates are doubles, as the rationals they stand for.
-/

namespace NetForensics

/-- `nfct_event_type_t`; everything that is not one of the three known types prints as `OTHER`. -/
inductive NfctEventType where
  | new | update | destroy | other
  deriving DecidableEq

/-- `nfct_event_t`, with the fields flow accounting reads. IPv4 addresses are in host order. -/
structure NfctEvent where
  type : NfctEventType
  isDestroy : Bool
  protocol : UInt8
  hasLan : Bool
  hasWan : Bool
  isIpv6 : Bool
  lanSrcIp : UInt32
  lanDstIp : UInt32
  wanSrcIp : UInt32
  lanSrcIp6 : In6Addr
  lanDstIp6 : In6Addr
  wanSrcIp6 : In6Addr
  lanSrcPort : UInt16
  lanDstPort : UInt16
  wanSrcPort : UInt16
  hasId : Bool
  id : UInt32
  hasCounters : Bool
  origPackets : UInt64
  origBytes : UInt64
  replyPackets : UInt64
  replyBytes : UInt64

def NfctEvent.blank : NfctEvent :=
  ⟨.other, false, 0, false, false, false, 0, 0, 0, fun _ ↦ 0, fun _ ↦ 0, fun _ ↦ 0, 0, 0, 0, false,
    0, false, 0, 0, 0, 0⟩

/-- `cpe_flow_entry_t` -/
structure CpeFlowEntry where
  flowId : CStr
  ctId : UInt32
  hasCtId : Bool
  proto : UInt8
  ipVersion : UInt8
  lanIp : CStr
  lanPort : UInt16
  wanIp : CStr
  wanPort : UInt16
  remoteIp : CStr
  remotePort : UInt16
  origPkts : UInt64
  origBytes : UInt64
  replyPkts : UInt64
  replyBytes : UInt64
  bytesUp : UInt64
  bytesDown : UInt64
  bytesUpDelta : UInt64
  bytesDownDelta : UInt64
  rateUpBps : ℚ
  rateDownBps : ℚ
  firstSeenMs : UInt64
  lastSeenMs : UInt64
  state : CStr
  alive : Bool
  used : Bool
  deriving DecidableEq

/-- The record after `memset(e, 0, sizeof(*e))`. -/
def CpeFlowEntry.zero : CpeFlowEntry :=
  ⟨[], 0, false, 0, 0, [], 0, [], 0, [], 0, 0, 0, 0, 0, 0, 0, 0, 0, 0, 0, 0, 0, [], false, false⟩

/-- The identity a record is looked up by when the conntrack id does not decide. -/
def CpeFlowEntry.tuple (e : CpeFlowEntry) : UInt8 × CStr × UInt16 × CStr × UInt16 :=
  (e.proto, e.lanIp, e.lanPort, e.remoteIp, e.remotePort)

def CpeFlowEntry.bytes (e : CpeFlowEntry) : UInt64 × UInt64 × UInt64 × UInt64 :=
  (e.origBytes, e.replyBytes, e.bytesUp, e.bytesDown)

/-! ## From event to record -/

/-- `ipv4_str`: the dotted quad, in a buffer of `n` bytes. -/
def ipv4Str (hostOrder : UInt32) (n : ℕ) : CStr :=
  (fitText n (inetNtop4 hostOrder)).getD (copyStr n (ascii "0.0.0.0"))

/-- `ipv6_str` -/
def ipv6Str (addr : In6Addr) (n : ℕ) : CStr :=
  (fitText n (inetNtop6 addr)).getD (copyStr n (ascii "::"))

/-- `fnv1a`; a zero state restarts from the offset basis. -/
def fnv1a (data : List UInt8) (h : UInt32) : UInt32 :=
  data.foldl (fun h b ↦ (h ^^^ b.toUInt32) * 16777619) (if h = 0 then 2166136261 else h)

/-- The bytes of a machine word in memory, least significant first. -/
def littleEndian : ℕ → ℕ → List UInt8
  | 0, _ => []
  | k + 1, n => UInt8.ofNat n :: littleEndian k (n / 256)

/-- `make_flow_id` -/
def makeFlowId (e : CpeFlowEntry) : CStr :=
  let h := fnv1a e.lanIp 0
  let h := fnv1a (littleEndian 2 e.lanPort.toNat) h
  let h := fnv1a e.remoteIp h
  let h := fnv1a (littleEndian 2 e.remotePort.toNat) h
  let h := fnv1a [e.proto] h
  let h := if e.hasCtId then fnv1a (littleEndian 4 e.ctId.toNat) h else h
  copyStr 20 (zeroPad 8 (hex h.toNat))

/-- `event_name` -/
def eventName : NfctEventType → CStr
  | .new => ascii "NEW"
  | .update => ascii "UPDATE"
  | .destroy => ascii "DESTROY"
  | .other => ascii "OTHER"

/-- `entry_from_event`. The addresses are printed whether or not the event carries them. -/
def entryFromEvent (ev : NfctEvent) (nowMs : UInt64) : CpeFlowEntry :=
  let e := { CpeFlowEntry.zero with
    used := true
    alive := decide (ev.type ≠ NfctEventType.destroy)
    proto := ev.protocol
    firstSeenMs := nowMs
    lastSeenMs := nowMs
    state := copyStr 24 (eventName ev.type)
    ctId := if ev.hasId then ev.id else 0
    hasCtId := ev.hasId
    ipVersion := if ev.isIpv6 then 6 else 4
    lanIp := if ev.isIpv6 then ipv6Str ev.lanSrcIp6 48 else ipv4Str ev.lanSrcIp 48
    remoteIp := if ev.isIpv6 then ipv6Str ev.lanDstIp6 48 else ipv4Str ev.lanDstIp 48
    wanIp := if ev.isIpv6 then ipv6Str ev.wanSrcIp6 48 else ipv4Str ev.wanSrcIp 48
    lanPort := ev.lanSrcPort
    remotePort := ev.lanDstPort
    wanPort := ev.wanSrcPort }
  let e := if ev.hasCounters then
      { e with
        origPkts := ev.origPackets
        origBytes := ev.origBytes
        replyPkts := ev.replyPackets
        replyBytes := ev.replyBytes
        bytesUp := ev.origBytes
        bytesDown := ev.replyBytes }
    else e
  { e with flowId := makeFlowId e }

/-! ## The line of a record -/

/-- The members of a `cpe_flow` line, in the order they are printed. -/
def flowMembers (ts routerId event : CStr) (e : CpeFlowEntry) : List (String × CStr) :=
  [("type", quoted (ascii "cpe_flow")),
   ("ts", quoted ts),
   ("router_id", quoted routerId),
   ("event", quoted event),
   ("flow_id", quoted (if e.flowId ≠ [] then e.flowId else ascii "0")),
   ("ct_id", decimal (if e.hasCtId then e.ctId.toNat else 0)),
   ("proto", decimal e.proto.toNat),
   ("ip_version", decimal e.ipVersion.toNat),
   ("lan_ip", quoted e.lanIp),
   ("lan_port", decimal e.lanPort.toNat),
   ("wan_ip", quoted e.wanIp),
   ("wan_port", decimal e.wanPort.toNat),
   ("remote_ip", quoted e.remoteIp),
   ("remote_port", decimal e.remotePort.toNat),
   ("orig_bytes", decimal e.origBytes.toNat),
   ("reply_bytes", decimal e.replyBytes.toNat),
   ("orig_pkts", decimal e.origPkts.toNat),
   ("reply_pkts", decimal e.replyPkts.toNat),
   ("bytes_up", decimal e.bytesUp.toNat),
   ("bytes_down", decimal e.bytesDown.toNat),
   ("bytes_up_delta", decimal e.bytesUpDelta.toNat),
   ("bytes_down_delta", decimal e.bytesDownDelta.toNat),
   ("rate_up_bps", fixed0 e.rateUpBps),
   ("rate_down_bps", fixed0 e.rateDownBps),
   ("duration_ms", decimal (if e.firstSeenMs < e.lastSeenMs then
      (e.lastSeenMs - e.firstSeenMs).toNat else 0)),
   ("state", quoted (if e.state ≠ [] then e.state else ascii "UNKNOWN")),
   ("path_id", ascii "null")]

/-- `cpe_flow_format_ndjson`: the line, if it fits `buflen` bytes with its NUL. -/
def cpeFlowFormatNdjson (clock : Option WallClock) (routerId event : CStr) (e : CpeFlowEntry)
    (buflen : ℕ) : Option CStr :=
  if buflen < 64 then none
  else fitText buflen (object (flowMembers (copyStr 40 (isoNow clock)) routerId event e))

end NetForensics
