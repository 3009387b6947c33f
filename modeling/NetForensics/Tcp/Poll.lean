import NetForensics.Agent.Apply
import NetForensics.Tcp.Line

/-!
# Reading and printing the TCP collector

`cpe_agent_tcp_poll` reads datagrams from the NFLOG socket; `cpe_agent_tcp_emit` prints the totals
and the busiest rows into the spool. The payloads in the datagrams are inputs.
-/

namespace NetForensics

/-- `CPE_TCP_NDJSON_MAX` -/
def cpeTcpNdjsonMax : ℕ := 640

/-- A payload as `on_nflog_payload` gets it, with the clocks at that moment. -/
structure NflogPayload where
  bytes : List UInt8
  nowMs : UInt64
  clock : Option WallClock

/-- Outcomes of the calls `cpe_agent_tcp_poll` makes. -/
structure TcpPollEnv where
  /-- `nflog_netlink_open`, if the socket is not open yet -/
  nflogOpen : OpenResult
  /-- the payloads of each datagram, and what `nflog_netlink_walk` returns for it -/
  datagrams : List (List NflogPayload × ℤ)

namespace CpeAgent

/-- The loop of `cpe_agent_tcp_poll`. -/
def readDatagrams (a : CpeAgent) (ds : List (List NflogPayload × ℤ)) : CpeAgent × ℤ :=
  ds.foldl (fun (res : CpeAgent × ℤ) d ↦
    ({ res.1 with
        tcp := d.1.foldl (fun st p ↦ onNflogPayload st p.bytes p.nowMs p.clock) res.1.tcp },
      if 0 < d.2 then res.2 + d.2 else res.2)) (a, 0)

/-- `cpe_agent_tcp_poll` -/
def tcpPoll (a : CpeAgent) (maxMsgs : UInt32) (env : TcpPollEnv) : CpeAgent × ℤ :=
  if !a.tcp.enabled then (a, 0)
  else
    let (st, rc) :=
      if a.tcp.fd.isNone then cpeAgentTcpOpen a.cfg a.tcp env.nflogOpen else (a.tcp, 0)
    let a := { a with tcp := st }
    if rc ≠ 0 then (a, 0)
    else if st.fd.isNone then (a, 0)
    else a.readDatagrams (env.datagrams.take (if maxMsgs ≠ 0 then maxMsgs.toNat else 64))

/-- The lines of some rows: a row that does not fit is left out, and a push that fails is not
counted. -/
def pushRows (a : CpeAgent) (lines : List (Option CStr)) : CpeAgent × ℤ :=
  lines.foldl (fun (res : CpeAgent × ℤ) line ↦
    match line with
    | none => res
    | some line =>
      ((res.1.spoolPushLine line).1,
        if (res.1.spoolPushLine line).2 = 0 then res.2 + 1 else res.2)) (a, 0)

/-- `cpe_agent_tcp_emit`. The rows are those with the most packets; `qsort` does not say in which
order it leaves rows that are equal, and here they keep theirs. -/
def tcpEmit (a : CpeAgent) (topN : UInt32) (clock : Option WallClock) (nowMs : UInt64) :
    CpeAgent × ℤ :=
  let a := { a with tcp := { a.tcp with
    snap := { a.tcp.snap with tsIso := copyStr 40 (isoNow clock) } } }
  let snap := a.tcp.snap
  let rid := a.cfg.routerId
  match cpeTcpFormatNdjson rid (ascii "summary") snap none none cpeTcpNdjsonMax with
  | none => (a, -1)
  | some line =>
    let (a, summary) := a.pushRows [some line]
    let remotes := snap.remotes.mergeSort fun r s ↦ s.pktCount ≤ r.pktCount
    let prefixes := snap.prefixes.mergeSort fun x y ↦ y.pktCount ≤ x.pktCount
    let topN := if topN = 0 then (if a.tcp.emitTopN ≠ 0 then a.tcp.emitTopN else 20) else topN
    let topN := min topN.toNat remotes.length
    let (a, rows) := a.pushRows ((remotes.take topN).map fun r ↦
      cpeTcpFormatNdjson rid (ascii "remote") snap (some r) none cpeTcpNdjsonMax)
    let (a, prows) := a.pushRows ((prefixes.take topN).map fun x ↦
      cpeTcpFormatNdjson rid (ascii "prefix") snap none (some x) cpeTcpNdjsonMax)
    ({ a with tcp := { a.tcp with lastEmitMs := nowMs } }, summary + rows + prows)

/-- `cpe_agent_tcp_remote` -/
def tcpRemote (a : CpeAgent) (remoteIp : CStr) : Option CpeTcpRemote :=
  a.tcp.snap.remotes.find? fun r ↦ r.remoteIp = remoteIp

/-- `cpe_agent_tcp_prefix` -/
def tcpPrefix (a : CpeAgent) (pfx : CStr) : Option CpeTcpPrefix :=
  a.tcp.snap.prefixes.find? fun x ↦ x.pfx = pfx

end CpeAgent

end NetForensics
