import NetForensics.Util.Text

/-!
# Configuration of the CPE agent

`cpe_agent_config_t` with its defaults and the structural validation that every candidate passes
through before it is applied. The record is kept field for field; validation and normalization
return the messages the program reports.
-/

namespace NetForensics

/-- `CPE_CFG_SPOOL_DEFAULT` -/
def cpeCfgSpoolDefault : ℕ := 256

/-- `CPE_SPOOL_MAX_LINES_HARD` -/
def cpeSpoolMaxLinesHard : ℕ := 1024

/-- `cpe_agent_config_t` -/
structure CpeAgentConfig where
  routerId : CStr
  /-- `stdout`, `spool`, `http` or `https`; any text before validation. -/
  emitMode : CStr
  spoolPath : CStr
  spoolMaxLines : ℕ
  demoTarget : CStr
  arpingIf : CStr
  wifiIf : CStr
  demoIntervalMs : UInt32
  sampleIntervalMs : UInt32
  probeTimeoutMs : UInt32
  demoMode : Bool
  httpsUrl : CStr
  egressUser : CStr
  egressPassword : CStr
  tlsCaFile : CStr
  tlsCertFile : CStr
  tlsKeyFile : CStr
  egressTlsInsecure : Bool
  tcpStatsEnabled : Bool
  tcpNflogGroup : UInt16
  tcpNflogSize : UInt32
  tcpEmitIntervalMs : UInt32
  tcpEmitTopN : UInt32
  tcpPrefixLen : UInt8
  flowAcctEnabled : Bool
  flowJoinUpdate : Bool
  flowEmitDestroy : Bool
  flowEmitNew : Bool
  flowPollIntervalMs : UInt32
  flowDumpIntervalMs : UInt32
  flowSampleEmitMs : UInt32
  flowSampleTopN : UInt32
  flowMaxFlows : UInt32
  ipcSocket : CStr
  openaiProxyUrl : CStr
  postgresProxyUrl : CStr
  /-- Counted up by every successful apply; never loaded. -/
  generation : UInt64
  deriving DecidableEq

/-- `cpe_agent_config_defaults` -/
def cpeAgentConfigDefaults : CpeAgentConfig where
  routerId := ascii "cpe-lab-1"
  emitMode := ascii "stdout"
  spoolPath := ascii "/var/spool/netforensics/cpe_perf.ndjson"
  spoolMaxLines := cpeCfgSpoolDefault
  demoTarget := ascii "1.1.1.1"
  arpingIf := []
  wifiIf := []
  demoIntervalMs := 5000
  sampleIntervalMs := 5000
  probeTimeoutMs := 1000
  demoMode := true
  httpsUrl := []
  egressUser := []
  egressPassword := []
  tlsCaFile := []
  tlsCertFile := []
  tlsKeyFile := []
  egressTlsInsecure := true
  tcpStatsEnabled := false
  tcpNflogGroup := 5
  tcpNflogSize := 60
  tcpEmitIntervalMs := 10000
  tcpEmitTopN := 20
  tcpPrefixLen := 24
  flowAcctEnabled := false
  flowJoinUpdate := true
  flowEmitDestroy := true
  flowEmitNew := false
  flowPollIntervalMs := 200
  flowDumpIntervalMs := 200
  flowSampleEmitMs := 2000
  flowSampleTopN := 32
  flowMaxFlows := 1024
  ipcSocket := ascii "/var/run/netforensics/cpe_agent.sock"
  openaiProxyUrl := []
  postgresProxyUrl := []
  generation := 0

/-- `cpe_agent_config_validate`: the message of the first constraint that fails, if any. -/
def cpeAgentConfigValidate (c : CpeAgentConfig) : Option CStr :=
  if c.routerId = [] then some (ascii "router_id empty")
  else if c.emitMode ≠ ascii "stdout" ∧ c.emitMode ≠ ascii "spool" ∧
      c.emitMode ≠ ascii "http" ∧ c.emitMode ≠ ascii "https" then
    some (ascii "emit.mode must be stdout|spool|http|https")
  else if c.emitMode = ascii "spool" ∧ c.spoolPath = [] then
    some (ascii "emit.mode=spool requires emit.path")
  else if (c.emitMode = ascii "http" ∨ c.emitMode = ascii "https") ∧ c.httpsUrl = [] then
    some (ascii "emit.mode=" ++ c.emitMode ++ ascii " requires egress.url")
  else if c.spoolMaxLines = 0 then some (ascii "spool_max_lines must be > 0")
  else if cpeSpoolMaxLinesHard < c.spoolMaxLines then
    some (ascii "spool_max_lines exceeds hard cap " ++ decimal cpeSpoolMaxLinesHard)
  else if c.demoIntervalMs = 0 ∧ c.sampleIntervalMs = 0 then
    some (ascii "interval_ms must be > 0")
  else if c.demoTarget = [] then some (ascii "probe target empty")
  else none

/-- The zero-means-default rewriting that `cpe_agent_apply_config` performs on its private copy
before it validates. -/
def normalizeConfig (c : CpeAgentConfig) : CpeAgentConfig :=
  let sample := if c.sampleIntervalMs = 0 then
      (if c.demoIntervalMs ≠ 0 then c.demoIntervalMs else 5000) else c.sampleIntervalMs
  { c with
    spoolMaxLines := if c.spoolMaxLines = 0 then cpeCfgSpoolDefault else c.spoolMaxLines
    sampleIntervalMs := sample
    demoIntervalMs := if c.demoIntervalMs = 0 then sample else c.demoIntervalMs
    probeTimeoutMs := if c.probeTimeoutMs = 0 then 1000 else c.probeTimeoutMs }

/-- Every default passes the validation it is the default of. -/
theorem cpeAgentConfigValidate_defaults :
    cpeAgentConfigValidate cpeAgentConfigDefaults = none := by
  decide

/-- What an accepted configuration promises about the ring: it has room, within the hard cap. -/
theorem spoolMaxLines_of_validate {c : CpeAgentConfig} (h : cpeAgentConfigValidate c = none) :
    0 < c.spoolMaxLines ∧ c.spoolMaxLines ≤ cpeSpoolMaxLinesHard := by
  by_contra hcon
  rw [cpeAgentConfigValidate] at h
  split_ifs at h with h1 h2 h3 h4 h5 h6 h7 h8
  omega

end NetForensics
