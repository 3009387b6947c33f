import NetForensics.Agent.Clock
import NetForensics.Agent.Config
import NetForensics.Inet.Addr
import NetForensics.Json.Line

/-!
# Performance samples

`cpe_perf_sample_t`, the formatter of `cpe_perf` lines, and the probes that produce samples: ping,
arping and traceroute, each in a live and in a demo version. What a probe sees of the network, and
the statistics of the diagnostics library, are inputs.

A sample carries the target of its probe as the configuration or the caller gave it. Only the live
probes parse it as an IPv4 address first.
-/

namespace NetForensics

/-- `CPE_PERF_TARGET_MAX` -/
def cpePerfTargetMax : ℕ := 64

/-- `CPE_PERF_META_MAX` -/
def cpePerfMetaMax : ℕ := 128

/-- `CPE_PERF_TS_MAX` -/
def cpePerfTsMax : ℕ := 40

/-- `CPE_TRACE_HOP_MAX` -/
def cpeTraceHopMax : ℕ := 32

/-- `cpe_perf_sample_t`; times and losses are never negative. -/
structure CpePerfSample where
  probe : CStr
  target : CStr
  rttMs : ℚ
  loss : ℚ
  tsIso : CStr
  /-- `meta`: a small object, already printed -/
  metaText : CStr

/-- The members of a `cpe_perf` line that come from the sample alone. -/
def CpePerfSample.members (s : CpePerfSample) : List (String × CStr) :=
  [("probe", quoted (if s.probe ≠ [] then s.probe else ascii "ping")),
   ("target", quoted s.target),
   ("rtt_ms", fixed 3 s.rttMs),
   ("loss", fixed 4 s.loss),
   ("meta", if s.metaText ≠ [] then s.metaText else ascii "{}")]

/-- `cpe_perf_format_ndjson` -/
def cpePerfFormatNdjson (routerId : CStr) (s : CpePerfSample) (buflen : ℕ) : Option CStr :=
  if buflen < 32 then none
  else fitText buflen (object
    ([("type", quoted (ascii "cpe_perf")),
      ("ts", quoted (if s.tsIso ≠ [] then s.tsIso else ascii "1970-01-01T00:00:00.000Z"))] ++
     ("router_id", quoted (if routerId ≠ [] then routerId else ascii "unknown")) :: s.members))

/-! ## Ping -/

/-- The part of `netdiag_stats_t` that is read. -/
structure NetdiagStats where
  avgLatencyMs : UInt32
  lossPct : ℚ
  replies : UInt32
  timeouts : UInt32

/-- The sample of `cpe_agent_demo_ping_tick`. -/
def demoPingSample (cfg : CpeAgentConfig) (clock : Option WallClock) (st : NetdiagStats) :
    CpePerfSample where
  probe := ascii "ping"
  target := copyStr cpePerfTargetMax cfg.demoTarget
  rttMs := if st.avgLatencyMs ≠ 0 then st.avgLatencyMs.toNat else 5
  loss := st.lossPct / 100
  tsIso := copyStr cpePerfTsMax (isoNow clock)
  metaText := copyStr cpePerfMetaMax (object
    [("replies", decimal st.replies.toNat), ("timeouts", decimal st.timeouts.toNat),
     ("demo", Json.boolText true)])

/-- The sample of `cpe_agent_live_ping_tick`; `rtt` is the time to the reply, if one came. -/
def livePingSample (cfg : CpeAgentConfig) (clock : Option WallClock) (rtt : Option ℚ)
    (isRaw : Bool) : CpePerfSample where
  probe := ascii "ping"
  target := copyStr cpePerfTargetMax cfg.demoTarget
  rttMs := rtt.getD 0
  loss := if rtt.isSome then 0 else 1
  tsIso := copyStr cpePerfTsMax (isoNow clock)
  metaText := copyStr cpePerfMetaMax (object
    [("replies", decimal rtt.isSome.toNat), ("timeouts", decimal (!rtt.isSome).toNat),
     ("demo", Json.boolText false), ("raw", Json.boolText isRaw)])

/-! ## Arping -/

/-- `mac_fmt` -/
def macFmt (mac : Fin 6 → UInt8) : CStr :=
  zeroPad 2 (hex (mac 0).toNat) ++ 58 :: (zeroPad 2 (hex (mac 1).toNat) ++
    58 :: (zeroPad 2 (hex (mac 2).toNat) ++ 58 :: (zeroPad 2 (hex (mac 3).toNat) ++
    58 :: (zeroPad 2 (hex (mac 4).toNat) ++ 58 :: zeroPad 2 (hex (mac 5).toNat)))))

/-- `emit_arping_sample` up to the formatter, for a demo. -/
def demoArpingSample (clock : Option WallClock) (target : CStr) (rttMs : ℚ)
    (mac : Fin 6 → UInt8) : CpePerfSample where
  probe := ascii "arping"
  target := copyStr cpePerfTargetMax target
  rttMs := rttMs
  loss := 0
  tsIso := copyStr cpePerfTsMax (isoNow clock)
  metaText := copyStr cpePerfMetaMax (object
    [("replies", decimal 1), ("timeouts", decimal 0), ("demo", Json.boolText true),
     ("mac", quoted (macFmt mac))])

/-- The members of the `meta` of a live arping before the interface. -/
def arpingMembers (replied : Bool) (macStr : CStr) : List (String × CStr) :=
  [("replies", decimal replied.toNat), ("timeouts", decimal (!replied).toNat),
   ("demo", Json.boolText false), ("mac", quoted macStr)]

/-- `emit_arping_sample` up to the formatter, for a live probe; the reply comes with the address of
its sender. -/
def arpingSample (clock : Option WallClock) (target : CStr)
    (reply : Option (ℚ × (Fin 6 → UInt8))) (ifname : CStr) : CpePerfSample where
  probe := ascii "arping"
  target := copyStr cpePerfTargetMax target
  rttMs := (reply.map Prod.fst).getD 0
  loss := if reply.isSome then 0 else 1
  tsIso := copyStr cpePerfTsMax (isoNow clock)
  metaText := copyStr cpePerfMetaMax (object
    (arpingMembers reply.isSome ((reply.map fun r ↦ macFmt r.2).getD []) ++
      [("if", quoted ifname)]))

/-! ## Traceroute -/

/-- `cpe_trace_hop_t`, without the statistics that no sample carries. -/
structure CpeTraceHop where
  hop : ℕ
  addr : CStr := []
  sent : UInt32 := 0
  replies : UInt32 := 0
  timeouts : UInt32 := 0
  lastRttMs : ℚ := 0
  loss : ℚ := 0
  reachedDest : Bool := false

/-- `cpe_trace_result_t` -/
structure CpeTraceResult where
  target : CStr
  tsIso : CStr
  method : CStr
  probesPerHop : ℕ
  reached : Bool := false
  destRttMs : ℚ := 0
  hops : List CpeTraceHop := []

/-- What one probe of a trace brings back: nothing, an answer from on the way, or one from the
destination. The address is missing when it was not IPv4. -/
inductive TraceReply where
  | lost
  | hop (addr : Option UInt32) (rttMs : ℚ)
  | dest (addr : Option UInt32) (rttMs : ℚ)

namespace CpeTraceHop

/-- `hop_record` with a timeout. -/
def recordLost (h : CpeTraceHop) : CpeTraceHop :=
  { h with
    sent := h.sent + 1
    timeouts := h.timeouts + 1
    loss := ((h.timeouts + 1).toNat : ℚ) / (h.sent + 1).toNat }

/-- `hop_record` with a reply. -/
def recordReply (h : CpeTraceHop) (addr : CStr) (rttMs : ℚ) (reachedDest : Bool) : CpeTraceHop :=
  { h with
    sent := h.sent + 1
    replies := h.replies + 1
    addr := if addr ≠ [] then copyStr cpePerfTargetMax addr else h.addr
    lastRttMs := rttMs
    reachedDest := reachedDest || h.reachedDest
    loss := (h.timeouts.toNat : ℚ) / (h.sent + 1).toNat }

end CpeTraceHop

def replyAddr (addr : Option UInt32) : CStr := (addr.map inetNtop4).getD []

/-- One probe of `run_trace`. -/
def traceProbe (target : CStr) : CpeTraceResult × CpeTraceHop → TraceReply →
    CpeTraceResult × CpeTraceHop
  | (tr, h), .lost => (tr, h.recordLost)
  | (tr, h), .hop addr rttMs => (tr, h.recordReply (replyAddr addr) rttMs false)
  | (tr, h), .dest addr rttMs =>
    ({ tr with reached := true, destRttMs := rttMs },
      h.recordReply (if replyAddr addr ≠ [] then replyAddr addr else target) rttMs true)

/-- The loop of `run_trace` over the TTLs from `ttl` on, `left` of them at most. -/
def traceLoop (target : CStr) (reply : ℕ → ℕ → TraceReply) :
    ℕ → ℕ → CpeTraceResult → CpeTraceResult
  | _, 0, tr => tr
  | ttl, left + 1, tr =>
    let (tr, h) := (List.range tr.probesPerHop).foldl
      (fun th p ↦ traceProbe target th (reply ttl p)) (tr, { hop := ttl })
    let tr := { tr with hops := tr.hops ++ [h] }
    if h.reachedDest then tr else traceLoop target reply (ttl + 1) left tr

/-- `run_trace` up to its result; zero stands for the values that mean the default. -/
def runTrace (clock : Option WallClock) (target : CStr) (maxTtl probesPerHop : ℕ) (udp : Bool)
    (reply : ℕ → ℕ → TraceReply) : CpeTraceResult :=
  let maxTtl := min (if maxTtl = 0 then 30 else maxTtl) cpeTraceHopMax
  let probesPerHop := min (if probesPerHop = 0 then 1 else probesPerHop) 16
  traceLoop target reply 1 maxTtl
    { target := copyStr cpePerfTargetMax target
      tsIso := copyStr cpePerfTsMax (isoNow clock)
      method := if udp then ascii "udp" else ascii "icmp"
      probesPerHop := probesPerHop }

namespace CpeTraceResult

/-- The summary of `emit_summary`. -/
def summarySample (tr : CpeTraceResult) (probeName : String) : CpePerfSample :=
  let (rtt, loss) :=
    if tr.reached ∧ 0 < tr.destRttMs then (tr.destRttMs, (0 : ℚ))
    else
      match tr.hops.getLast? with
      | some last => (last.lastRttMs, last.loss)
      | none => (0, 1)
  { probe := ascii probeName
    target := copyStr cpePerfTargetMax tr.target
    rttMs := rtt
    loss := loss
    tsIso := copyStr cpePerfTsMax tr.tsIso
    metaText := copyStr cpePerfMetaMax (object
      [("hops", decimal tr.hops.length), ("reached", Json.boolText tr.reached),
       ("method", quoted tr.method), ("probes", decimal tr.probesPerHop),
       ("demo", Json.boolText false)]) }

/-- The sample of a hop in `emit_summary`; left out when its `meta` does not fit. -/
def hopSample (tr : CpeTraceResult) (probeName : String) (h : CpeTraceHop) :
    Option CpePerfSample :=
  (fitText cpePerfMetaMax (object
    [("hop", decimal h.hop), ("sent", decimal h.sent.toNat), ("replies", decimal h.replies.toNat),
     ("dest", Json.boolText h.reachedDest), ("path", quoted tr.target)])).map fun text ↦
    { probe := ascii probeName ++ ascii "_hop"
      target := if h.addr ≠ [] then copyStr cpePerfTargetMax h.addr else ascii "*"
      rttMs := h.lastRttMs
      loss := h.loss
      tsIso := copyStr cpePerfTsMax tr.tsIso
      metaText := text }

end CpeTraceResult

/-- The sample of `cpe_agent_demo_traceroute`; the destination is its last hop. -/
def demoTraceSample (clock : Option WallClock) (target : CStr) (maxTtl : ℕ) : CpePerfSample :=
  let hops := min (min (if maxTtl = 0 then 5 else maxTtl) cpeTraceHopMax) 4
  { probe := ascii "traceroute"
    target := copyStr cpePerfTargetMax target
    rttMs := hops
    loss := 0
    tsIso := copyStr cpePerfTsMax (isoNow clock)
    metaText := copyStr cpePerfMetaMax (object
      [("hops", decimal hops), ("reached", Json.boolText true), ("method", quoted (ascii "demo")),
       ("probes", decimal 1), ("demo", Json.boolText true)]) }

/-! ## The probes -/

/-- A run of a probe, with what it sees. An optional argument that is left out is empty. -/
inductive Probe where
  | demoPing (st : NetdiagStats)
  | livePing (rtt : Option ℚ) (isRaw : Bool)
  | demoArping (ipv4Opt : CStr) (avgLatencyMs : UInt32)
  | arping (ipv4Opt ifnameOpt picked : CStr) (reply : Option (ℚ × (Fin 6 → UInt8)))
  | trace (mtr : Bool) (targetOpt : CStr) (maxTtl probesPerHop : ℕ) (udp : Bool)
      (reply : ℕ → ℕ → TraceReply)
  | demoTraceroute (targetOpt : CStr) (maxTtl : ℕ)

/-- The target of a probe: the argument, or else the configured one. -/
def probeTarget (cfg : CpeAgentConfig) (opt : CStr) : CStr :=
  if opt ≠ [] then opt else cfg.demoTarget

/-- The interface of an arping: the argument, the configured one, or the one found. -/
def arpingIfname (cfg : CpeAgentConfig) (ifnameOpt picked : CStr) : CStr :=
  copyStr 32 (if ifnameOpt ≠ [] then ifnameOpt else if cfg.arpingIf ≠ [] then cfg.arpingIf
    else picked)

/-- The demo address of an arping. -/
def demoMac : Fin 6 → UInt8 := ![2, 0, 0, 0, 0, 1]

/-- The samples a probe formats into lines. A live probe whose target is not an IPv4 address ends
without any. -/
def Probe.samples (cfg : CpeAgentConfig) (clock : Option WallClock) : Probe → List CpePerfSample
  | .demoPing st => [demoPingSample cfg clock st]
  | .livePing rtt isRaw =>
    if (inetPton4 cfg.demoTarget).isNone then [] else [livePingSample cfg clock rtt isRaw]
  | .demoArping ipv4Opt avg =>
    let target := probeTarget cfg ipv4Opt
    if target = [] then []
    else [demoArpingSample clock target (if avg ≠ 0 then avg.toNat else 1) demoMac]
  | .arping ipv4Opt ifnameOpt picked reply =>
    let target := probeTarget cfg ipv4Opt
    if (inetPton4 target).isNone then []
    else [arpingSample clock target reply (arpingIfname cfg ifnameOpt picked)]
  | .trace mtr targetOpt maxTtl probesPerHop udp reply =>
    let target := probeTarget cfg targetOpt
    let probeName := if mtr then "mtr" else "traceroute"
    let probes := if mtr then (if probesPerHop = 0 then 3 else probesPerHop) else 1
    if cpePerfTargetMax ≤ target.length ∨ (inetPton4 target).isNone then []
    else
      let tr := runTrace clock target maxTtl probes udp reply
      tr.summarySample probeName :: tr.hops.filterMap (tr.hopSample probeName)
  | .demoTraceroute targetOpt maxTtl =>
    let target := probeTarget cfg targetOpt
    [demoTraceSample clock (if target ≠ [] then target else ascii "1.1.1.1") maxTtl]

end NetForensics
