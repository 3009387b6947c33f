import NetForensics.Agent.Clock
import NetForensics.Tcp.Packet
import NetForensics.Util.CountTable

/-!
# TCP control-plane statistics

`cpe_tcp_state_t` and the accounting of one packet: the global totals, the record of the remote
end, the record of its prefix, and the window of recent SYNs that tells retransmissions apart.

The two record tables are the leading parts of fixed arrays, kept here as lists; `remote_count` and
`prefix_count` are their lengths. Both are the same bounded table, with the same eviction rule.
Addresses are in host order.
-/

namespace NetForensics

/-- `CPE_TCP_REMOTE_MAX` -/
def cpeTcpRemoteMax : ℕ := 256
/-- `CPE_TCP_PREFIX_MAX` -/
def cpeTcpPrefixMax : ℕ := 128

/-- The counters kept, with the same meaning, in total, for each remote and for each prefix. -/
structure TcpCounters where
  synCount : UInt32 := 0
  finCount : UInt32 := 0
  rstCount : UInt32 := 0
  pktCount : UInt32 := 0
  synRetrans : UInt32 := 0
  bytesEst : UInt64 := 0
  deriving DecidableEq

/-- `cpe_tcp_remote_t` -/
structure CpeTcpRemote extends TcpCounters where
  remoteIp : CStr
  localIp : CStr := []
  remotePort : UInt16 := 0
  localPort : UInt16 := 0
  lastSeenMs : UInt64 := 0
  deriving DecidableEq

/-- `cpe_tcp_prefix_t` -/
structure CpeTcpPrefix extends TcpCounters where
  pfx : CStr
  remoteCount : UInt32 := 0
  deriving DecidableEq

/-- `cpe_tcp_snapshot_t`; `total` holds `syn_total` up to `bytes_total`. -/
structure CpeTcpSnapshot where
  nflogGroup : UInt32 := 0
  total : TcpCounters := {}
  pktsParsed : UInt64 := 0
  pktsNonTcp : UInt64 := 0
  pktsParseFail : UInt64 := 0
  prefixLen : UInt8 := 0
  tsIso : CStr := []
  remotes : List CpeTcpRemote := []
  prefixes : List CpeTcpPrefix := []

/-- A remembered SYN. -/
structure SynFlow where
  sip : UInt32 := 0
  dip : UInt32 := 0
  sport : UInt16 := 0
  dport : UInt16 := 0
  seq : UInt32 := 0
  used : Bool := false
  deriving DecidableEq

/-- The `flows` array of `cpe_tcp_state_t` with its write position. -/
structure SynWindow where
  flows : Fin 64 → SynFlow := fun _ ↦ {}
  flowI : Fin 64 := 0

/-- `cpe_tcp_state_t`. A closed descriptor is `none`. -/
structure CpeTcpState where
  fd : Option ℕ
  group : UInt16
  copyRange : UInt32
  enabled : Bool
  openOk : Bool
  openErr : CStr
  prefixLen : UInt8
  emitIntervalMs : UInt32
  emitTopN : UInt32
  lastEmitMs : UInt64
  snap : CpeTcpSnapshot
  syns : SynWindow

/-- `cpe_tcp_state_init` -/
def cpeTcpStateInit : CpeTcpState where
  fd := none
  group := 5
  copyRange := 60
  enabled := false
  openOk := false
  openErr := []
  prefixLen := 24
  emitIntervalMs := 10000
  emitTopN := 20
  lastEmitMs := 0
  snap := { nflogGroup := 5, prefixLen := 24 }
  syns := {}

/-! ## The remote end of a packet -/

/-- `is_private_v4` -/
def isPrivateV4 (a : UInt32) : Bool :=
  a &&& 0xff000000 == 0x0a000000 || a &&& 0xfff00000 == 0xac100000 ||
    a &&& 0xffff0000 == 0xc0a80000 || a &&& 0xff000000 == 0x7f000000 ||
    a &&& 0xffff0000 == 0xa9fe0000

/-- `ip4_parse`: zero for anything that is not a dotted quad. -/
def ip4Parse (s : CStr) : UInt32 := (inetPton4 s).getD 0

/-- The two ends of a packet as `apply_packet` orders them. -/
structure Endpoints where
  localIp : CStr
  remoteIp : CStr
  lport : UInt16
  rport : UInt16

/-- Source is local, destination is remote. -/
def outbound (p : CpeTcpPacket) : Endpoints :=
  ⟨copyStr 48 p.srcIp, copyStr 48 p.dstIp, p.srcPort, p.dstPort⟩

/-- Destination is local, source is remote. -/
def inbound (p : CpeTcpPacket) : Endpoints :=
  ⟨copyStr 48 p.dstIp, copyStr 48 p.srcIp, p.dstPort, p.srcPort⟩

/-- The choice of the remote end: the public side when one side is private. -/
def endpoints (p : CpeTcpPacket) : Endpoints :=
  let sip := ip4Parse p.srcIp
  let dip := ip4Parse p.dstIp
  if !p.isIpv6 && sip != 0 && dip != 0 then
    if isPrivateV4 sip && !isPrivateV4 dip then outbound p
    else if isPrivateV4 dip && !isPrivateV4 sip then inbound p
    else outbound p
  else outbound p

/-- The mask of the leading `plen` bits. -/
def prefixMask (plen : UInt8) : UInt32 :=
  if plen = 32 then 0xffffffff else 0xffffffff <<< UInt32.ofNat (32 - plen.toNat)

/-- `prefix_from_ip4`: the network of an address as text, in a buffer of `outSz` bytes. -/
def prefixFromIp4 (addr : UInt32) (plen : UInt8) (outSz : ℕ) : CStr :=
  let plen := if plen = 0 ∨ 32 < plen then 24 else plen
  let net := inetNtop4 (addr &&& prefixMask plen)
  if net.length + 4 < outSz then
    net ++ copyStr (outSz - net.length) (47 :: decimal plen.toNat)
  else net

/-! ## The record tables -/

/-- A cleared record for a remote. -/
def freshRemote (remoteIp : CStr) : CpeTcpRemote := { remoteIp := copyStr 48 remoteIp }

/-- `remote_index` -/
def remoteIndex (remotes : List CpeTcpRemote) (remoteIp : CStr) : List CpeTcpRemote × ℕ :=
  CountTable.index CpeTcpRemote.remoteIp (fun r ↦ r.pktCount) freshRemote cpeTcpRemoteMax
    remotes remoteIp

/-- A cleared record for a prefix. -/
def freshPrefix (pfx : CStr) : CpeTcpPrefix := { pfx := copyStr 64 pfx }

/-- `prefix_index` -/
def prefixIndex (prefixes : List CpeTcpPrefix) (pfx : CStr) : List CpeTcpPrefix × ℕ :=
  CountTable.index CpeTcpPrefix.pfx (fun p ↦ p.pktCount) freshPrefix cpeTcpPrefixMax prefixes pfx

/-! ## The SYN window -/

/-- `flow_is_retrans`: whether the four-tuple is remembered, and the window afterwards. -/
def flowIsRetrans (w : SynWindow) (sip dip : UInt32) (sport dport : UInt16) (seq : UInt32) :
    SynWindow × Bool :=
  let known := (List.finRange 64).find? fun i ↦
    let f := w.flows i
    f.used && f.sip == sip && f.dip == dip && f.sport == sport && f.dport == dport
  match known with
  | some i => ({ w with flows := Function.update w.flows i { w.flows i with seq := seq } }, true)
  | none =>
    ({ flows := Function.update w.flows w.flowI ⟨sip, dip, sport, dport, seq, true⟩,
       flowI := w.flowI + 1 }, false)

/-! ## One packet -/

/-- The flags of a packet that are counted. -/
structure PacketBits where
  isSyn : Bool
  isFin : Bool
  isRst : Bool
  retrans : Bool

def hasFlag (flags flag : UInt8) : Bool := flags &&& flag != 0

/-- `is_syn`: a SYN-ACK counts as well. -/
def isSyn (p : CpeTcpPacket) : Bool :=
  let syn := hasFlag p.flags cpeTcpFlagSyn && !hasFlag p.flags cpeTcpFlagAck
  if !syn && hasFlag p.flags cpeTcpFlagSyn then true else syn

/-- The SYN window after a packet, and whether the packet repeats a SYN. -/
def noteSyn (w : SynWindow) (p : CpeTcpPacket) : SynWindow × Bool :=
  let sip := ip4Parse p.srcIp
  let dip := ip4Parse p.dstIp
  if isSyn p && !p.isIpv6 && sip != 0 && dip != 0 then
    flowIsRetrans w sip dip p.srcPort p.dstPort p.seq
  else (w, false)

def packetBits (p : CpeTcpPacket) (retrans : Bool) : PacketBits where
  isSyn := isSyn p
  isFin := hasFlag p.flags cpeTcpFlagFin
  isRst := hasFlag p.flags cpeTcpFlagRst
  retrans := retrans

/-- The increments every level of counters receives for a packet. -/
def TcpCounters.bump (c : TcpCounters) (b : PacketBits) (ipLen : UInt16) : TcpCounters where
  synCount := if b.isSyn then c.synCount + 1 else c.synCount
  finCount := if b.isFin then c.finCount + 1 else c.finCount
  rstCount := if b.isRst then c.rstCount + 1 else c.rstCount
  pktCount := c.pktCount + 1
  synRetrans := if b.retrans then c.synRetrans + 1 else c.synRetrans
  bytesEst := c.bytesEst + ipLen.toUInt64

def bumpRemote (p : CpeTcpPacket) (retrans : Bool) (nowMs : UInt64) (r : CpeTcpRemote) :
    CpeTcpRemote :=
  { toTcpCounters := r.toTcpCounters.bump (packetBits p retrans) p.ipLen
    remoteIp := r.remoteIp
    localIp := copyStr 48 (endpoints p).localIp
    remotePort := (endpoints p).rport
    localPort := (endpoints p).lport
    lastSeenMs := nowMs }

/-- The update of the prefix's record; `firstTouch` is the test `pkt_count == 1` on the remote. -/
def bumpPrefix (p : CpeTcpPacket) (retrans firstTouch : Bool) (x : CpeTcpPrefix) :
    CpeTcpPrefix :=
  { toTcpCounters := x.toTcpCounters.bump (packetBits p retrans) p.ipLen
    pfx := x.pfx
    remoteCount := if firstTouch then x.remoteCount + 1 else x.remoteCount }

/-- The address whose prefix is counted, if any: an IPv4 remote other than `0.0.0.0`. -/
def prefixAddr (p : CpeTcpPacket) : Option UInt32 :=
  if p.isIpv6 then none
  else
    let raddr := ip4Parse (endpoints p).remoteIp
    if raddr = 0 then none else some raddr

def CpeTcpState.plen (st : CpeTcpState) : UInt8 := if st.prefixLen = 0 then 24 else st.prefixLen

/-- `apply_packet`; `nowMs` is the monotonic clock, `clock` the wall clock. -/
def applyPacket (st : CpeTcpState) (p : CpeTcpPacket) (nowMs : UInt64)
    (clock : Option WallClock) : CpeTcpState :=
  let (syns, retrans) := noteSyn st.syns p
  let s := st.snap
  let (remotes, ri) := remoteIndex s.remotes (endpoints p).remoteIp
  let remotes := remotes.modify ri (bumpRemote p retrans nowMs)
  let prefixes :=
    match prefixAddr p with
    | none => s.prefixes
    | some raddr =>
      let (prefixes, pi) := prefixIndex s.prefixes (prefixFromIp4 raddr st.plen 64)
      let firstTouch := remotes[ri]?.any fun r ↦ r.pktCount == 1
      prefixes.modify pi (bumpPrefix p retrans firstTouch)
  { st with
    syns := syns
    snap := { s with
      total := s.total.bump (packetBits p retrans) p.ipLen
      remotes := remotes
      prefixes := prefixes
      tsIso := copyStr 40 (isoNow clock) } }

/-- Everything a packet does: the remote's record is touched, the prefix's record is touched if the
remote has one, and the totals are bumped. -/
theorem touched_applyPacket (st : CpeTcpState) (p : CpeTcpPacket) (nowMs : UInt64)
    (clock : Option WallClock) :
    ∃ r, CountTable.Touched CpeTcpRemote.remoteIp freshRemote cpeTcpRemoteMax st.snap.remotes
        (endpoints p).remoteIp (bumpRemote p (noteSyn st.syns p).2 nowMs)
        (applyPacket st p nowMs clock).snap.remotes r ∧
      ((prefixAddr p = none ∧ (applyPacket st p nowMs clock).snap.prefixes = st.snap.prefixes) ∨
        ∃ a x, prefixAddr p = some a ∧
          CountTable.Touched CpeTcpPrefix.pfx freshPrefix cpeTcpPrefixMax st.snap.prefixes
            (prefixFromIp4 a st.plen 64)
            (bumpPrefix p (noteSyn st.syns p).2 (r.pktCount == 1))
            (applyPacket st p nowMs clock).snap.prefixes x) := by
  unfold applyPacket
  dsimp only
  generalize hri : remoteIndex st.snap.remotes (endpoints p).remoteIp = res
  obtain ⟨remotes, ri⟩ := res
  obtain ⟨r, hget, hr⟩ := CountTable.touched_index CpeTcpRemote.remoteIp _ freshRemote
    (by decide) _ _ (bumpRemote p (noteSyn st.syns p).2 nowMs) hri
  refine ⟨r, hr, ?_⟩
  cases hpa : prefixAddr p with
  | none => exact Or.inl ⟨rfl, rfl⟩
  | some a =>
    refine Or.inr ⟨a, ?_⟩
    dsimp only
    rw [hget]
    generalize hpi : prefixIndex st.snap.prefixes (prefixFromIp4 a st.plen 64) = res
    obtain ⟨prefixes, pi⟩ := res
    obtain ⟨x, -, hx⟩ := CountTable.touched_index CpeTcpPrefix.pfx _ freshPrefix
      (by decide) _ _ (bumpPrefix p (noteSyn st.syns p).2 (r.pktCount == 1)) hpi
    exact ⟨x, rfl, hx⟩

/-- A repeated SYN is a SYN. -/
theorem isSyn_of_noteSyn {w : SynWindow} {p : CpeTcpPacket} (h : (noteSyn w p).2 = true) :
    isSyn p = true := by
  rw [noteSyn] at h
  split at h
  · rename_i hsyn
    simp only [Bool.and_eq_true] at hsyn
    exact hsyn.1.1.1
  · exact absurd h Bool.false_ne_true

/-! ## Entry points -/

/-- The classification of an unparsable payload in `on_nflog_payload`. -/
def looksNonTcp (payload : List UInt8) : Bool :=
  let ver := (byteAt payload 0).toNat / 16
  decide (1 ≤ payload.length) &&
    ((ver == 4 && decide (10 ≤ payload.length) && byteAt payload 9 != ipprotoTcp) ||
      (ver == 6 && decide (7 ≤ payload.length) && byteAt payload 6 != ipprotoTcp))

namespace CpeTcpState

/-- `pkts_parsed++` -/
def countParsed (st : CpeTcpState) : CpeTcpState :=
  { st with snap := { st.snap with pktsParsed := st.snap.pktsParsed + 1 } }

/-- `pkts_non_tcp++` -/
def countNonTcp (st : CpeTcpState) : CpeTcpState :=
  { st with snap := { st.snap with pktsNonTcp := st.snap.pktsNonTcp + 1 } }

/-- `pkts_parse_fail++` -/
def countParseFail (st : CpeTcpState) : CpeTcpState :=
  { st with snap := { st.snap with pktsParseFail := st.snap.pktsParseFail + 1 } }

end CpeTcpState

/-- `on_nflog_payload` -/
def onNflogPayload (st : CpeTcpState) (payload : List UInt8) (nowMs : UInt64)
    (clock : Option WallClock) : CpeTcpState :=
  match cpeTcpParseIpPacket payload with
  | some p => applyPacket st.countParsed p nowMs clock
  | none =>
    if looksNonTcp payload then st.countParsed.countNonTcp else st.countParsed.countParseFail

/-- `cpe_agent_tcp_feed_payload`, with its return value. -/
def cpeAgentTcpFeedPayload (st : CpeTcpState) (pkt : List UInt8) (nowMs : UInt64)
    (clock : Option WallClock) : CpeTcpState × ℤ :=
  if pkt = [] then (st, -1)
  else
    match cpeTcpParseIpPacket pkt with
    | some p => (applyPacket st.countParsed p nowMs clock, 0)
    | none => (st.countParsed.countParseFail, -1)

/-- `cpe_agent_tcp_reset` -/
def cpeAgentTcpReset (st : CpeTcpState) (clock : Option WallClock) : CpeTcpState :=
  { st with
    snap := { nflogGroup := st.snap.nflogGroup, prefixLen := st.snap.prefixLen,
              tsIso := copyStr 40 (isoNow clock) }
    syns := {} }

end NetForensics
