import NetForensics.Agent.Config

/-!
# Loading a configuration from YAML

`config_yaml.c`. The program asks the YAML library for one path after the other, in the order of a
table, and applies each scalar it gets to the record of defaults. Several paths write the same
field, so that the table decides which of them wins.

The library itself is not modelled: a document is the scalars it finds, or the error it reports.
-/

namespace NetForensics

/-! ## Scalars -/

/-- `parse_bool` -/
def parseBool (s : CStr) : Option Bool :=
  if s = ascii "1" ∨ s = ascii "true" ∨ s = ascii "True" ∨ s = ascii "yes" ∨ s = ascii "on" then
    some true
  else if s = ascii "0" ∨ s = ascii "false" ∨ s = ascii "False" ∨ s = ascii "no" ∨
      s = ascii "off" then
    some false
  else none

/-- `isspace` -/
def isSpace (b : UInt8) : Bool := b == 32 || (9 ≤ b && b ≤ 13)

/-- `isdigit` -/
def isDigit (b : UInt8) : Bool := 48 ≤ b && b ≤ 57

/-- The sign `strtoull` accepts before the digits. -/
def takeSign : CStr → Bool × CStr
  | 45 :: s => (true, s)
  | 43 :: s => (false, s)
  | s => (false, s)

/-- `strtoull(s, &end, 10)`, and `strtoul` where `unsigned long` has 64 bits: the number and what
`end` points to, or `none` if there are no digits. A number out of range becomes the largest one; a
negative one wraps around. -/
def strtoull (s : CStr) : Option (ℕ × CStr) :=
  let (neg, t) := takeSign (s.dropWhile isSpace)
  let digits := t.takeWhile isDigit
  if digits = [] then none
  else
    let n := digits.foldl (fun n b ↦ 10 * n + (b.toNat - 48)) 0
    some (if 2 ^ 64 ≤ n then 2 ^ 64 - 1 else if neg then (2 ^ 64 - n) % 2 ^ 64 else n,
      t.dropWhile isDigit)

/-- `parse_u32` -/
def parseU32 (s : CStr) : Option UInt32 :=
  (strtoull s).bind fun (v, rest) ↦
    if rest ≠ [] ∨ 0xffffffff < v then none else some (UInt32.ofNat v)

/-- `parse_size` -/
def parseSize (s : CStr) : Option ℕ :=
  (strtoull s).bind fun (v, rest) ↦ if rest ≠ [] then none else some v

/-! ## One scalar -/

/-- `FAIL(msg)` -/
def scalarErr (key msg : String) : CStr := ascii key ++ ascii ": " ++ ascii msg

/-- A text, through `copy_str` into a field of the given size. -/
def applyText (key : String) (size : ℕ) (val : CStr) (set : CStr → CpeAgentConfig) :
    Except CStr CpeAgentConfig :=
  if size < val.length + 1 then .error (scalarErr key "too long") else .ok (set val)

/-- A boolean. -/
def applyBool (key : String) (val : CStr) (set : Bool → CpeAgentConfig) :
    Except CStr CpeAgentConfig :=
  match parseBool val with
  | none => .error (scalarErr key "invalid bool")
  | some b => .ok (set b)

/-- A 32-bit number in the given range. -/
def applyU32 (key : String) (val : CStr) (lo hi : UInt32) (set : UInt32 → CpeAgentConfig) :
    Except CStr CpeAgentConfig :=
  match parseU32 val with
  | none => .error (scalarErr key "invalid")
  | some n => if n < lo ∨ hi < n then .error (scalarErr key "invalid") else .ok (set n)

/-- A positive size. -/
def applySize (key : String) (val : CStr) (set : ℕ → CpeAgentConfig) : Except CStr CpeAgentConfig :=
  match parseSize val with
  | none => .error (scalarErr key "invalid")
  | some n => if n = 0 then .error (scalarErr key "invalid") else .ok (set n)

/-- `UINT32_MAX` -/
def u32Max : UInt32 := 0xffffffff

/-- `apply_scalar` -/
def applyScalar (c : CpeAgentConfig) (key : String) (val : CStr) : Except CStr CpeAgentConfig :=
  if key = "router_id" then applyText key 64 val fun s ↦ { c with routerId := s }
  else if key = "emit.mode" ∨ key = "emit_mode" then
    applyText key 16 val fun s ↦ { c with emitMode := s }
  else if key = "emit.path" ∨ key = "spool.path" ∨ key = "spool_path" then
    applyText key 256 val fun s ↦ { c with spoolPath := s }
  else if key = "spool.max_lines" ∨ key = "spool_max_lines" then
    applySize key val fun n ↦ { c with spoolMaxLines := n }
  else if key = "demo.target" ∨ key = "demo_target" then
    applyText key 64 val fun s ↦ { c with demoTarget := s }
  else if key = "arping.if" ∨ key = "arping_if" ∨ key = "arping.iface" ∨ key = "iface" then
    applyText key 32 val fun s ↦ { c with arpingIf := s }
  else if key = "wifi.if" ∨ key = "wifi_if" ∨ key = "wifi.iface" then
    applyText key 32 val fun s ↦ { c with wifiIf := s }
  else if key = "demo.interval_ms" ∨ key = "demo_interval_ms" ∨ key = "sample.interval_ms" ∨
      key = "sample_interval_ms" then
    applyU32 key val 1 u32Max fun n ↦ { c with demoIntervalMs := n, sampleIntervalMs := n }
  else if key = "demo.enabled" ∨ key = "demo_mode" then
    applyBool key val fun b ↦ { c with demoMode := b }
  else if key = "demo.timeout_ms" ∨ key = "probe.timeout_ms" ∨ key = "probe_timeout_ms" then
    applyU32 key val 1 u32Max fun n ↦ { c with probeTimeoutMs := n }
  else if key = "egress.url" ∨ key = "https_url" then
    applyText key 256 val fun s ↦ { c with httpsUrl := s }
  else if key = "egress.username" ∨ key = "egress.user" ∨ key = "egress_user" then
    applyText key 64 val fun s ↦ { c with egressUser := s }
  else if key = "egress.password" ∨ key = "egress_password" then
    applyText key 128 val fun s ↦ { c with egressPassword := s }
  else if key = "egress.ca_file" ∨ key = "tls_ca_file" then
    -- a CA file turns verification on, unless a later key turns it off
    applyText key 256 val fun s ↦
      { c with
        tlsCaFile := s
        egressTlsInsecure := if s ≠ [] then false else c.egressTlsInsecure }
  else if key = "egress.cert_file" ∨ key = "tls_cert_file" then
    applyText key 256 val fun s ↦ { c with tlsCertFile := s }
  else if key = "egress.key_file" ∨ key = "tls_key_file" then
    applyText key 256 val fun s ↦ { c with tlsKeyFile := s }
  else if key = "egress.tls_insecure" ∨ key = "egress.insecure" then
    applyBool key val fun b ↦ { c with egressTlsInsecure := b }
  else if key = "tcp_stats.enabled" ∨ key = "tcp_stats_enabled" then
    applyBool key val fun b ↦ { c with tcpStatsEnabled := b }
  else if key = "tcp_stats.nflog_group" ∨ key = "tcp_nflog_group" then
    applyU32 key val 1 65535 fun n ↦ { c with tcpNflogGroup := n.toUInt16 }
  else if key = "tcp_stats.nflog_size" ∨ key = "tcp_nflog_size" then
    applyU32 key val 1 u32Max fun n ↦ { c with tcpNflogSize := n }
  else if key = "tcp_stats.emit_interval_ms" ∨ key = "tcp_emit_interval_ms" then
    applyU32 key val 1 u32Max fun n ↦ { c with tcpEmitIntervalMs := n }
  else if key = "tcp_stats.emit_top_n" ∨ key = "tcp_emit_top_n" then
    applyU32 key val 1 u32Max fun n ↦ { c with tcpEmitTopN := n }
  else if key = "flow_acct.enabled" ∨ key = "flow_acct_enabled" then
    applyBool key val fun b ↦ { c with flowAcctEnabled := b }
  else if key = "flow_acct.join_update" then
    applyBool key val fun b ↦ { c with flowJoinUpdate := b }
  else if key = "flow_acct.emit_destroy" then
    applyBool key val fun b ↦ { c with flowEmitDestroy := b }
  else if key = "flow_acct.emit_new" then applyBool key val fun b ↦ { c with flowEmitNew := b }
  else if key = "flow_acct.poll_interval_ms" then
    applyU32 key val 1 u32Max fun n ↦ { c with flowPollIntervalMs := n }
  else if key = "flow_acct.dump_interval_ms" then
    applyU32 key val 0 u32Max fun n ↦ { c with flowDumpIntervalMs := n }
  else if key = "flow_acct.sample_emit_ms" then
    applyU32 key val 1 u32Max fun n ↦ { c with flowSampleEmitMs := n }
  else if key = "flow_acct.sample_top_n" then
    applyU32 key val 1 u32Max fun n ↦ { c with flowSampleTopN := n }
  else if key = "flow_acct.max_flows" then
    applyU32 key val 1 u32Max fun n ↦ { c with flowMaxFlows := n }
  else if key = "tcp_stats.prefix_len" ∨ key = "tcp_prefix_len" then
    applyU32 key val 1 32 fun n ↦ { c with tcpPrefixLen := n.toUInt8 }
  else if key = "ipc.socket" ∨ key = "ipc_socket" ∨ key = "ipc.path" then
    applyText key 256 val fun s ↦ { c with ipcSocket := s }
  else if key = "proxies.openai_url" ∨ key = "openai_proxy_url" then
    applyText key 256 val fun s ↦ { c with openaiProxyUrl := s }
  else if key = "proxies.postgres_url" ∨ key = "postgres_proxy_url" then
    applyText key 256 val fun s ↦ { c with postgresProxyUrl := s }
  else .ok c

/-! ## A document -/

/-- `g_paths` -/
def gPaths : List String :=
  ["router_id", "emit.mode", "emit_mode", "emit.path", "spool.path", "spool_path",
    "spool.max_lines", "spool_max_lines", "demo.target", "demo_target", "arping.if", "arping_if",
    "arping.iface", "iface", "wifi.if", "wifi_if", "wifi.iface", "demo.interval_ms",
    "demo_interval_ms", "sample.interval_ms", "sample_interval_ms", "demo.enabled", "demo_mode",
    "demo.timeout_ms", "probe.timeout_ms", "probe_timeout_ms", "egress.url", "https_url",
    "egress.username", "egress.user", "egress_user", "egress.password", "egress_password",
    "egress.ca_file", "tls_ca_file", "egress.cert_file", "tls_cert_file", "egress.key_file",
    "tls_key_file", "egress.tls_insecure", "egress.insecure", "tcp_stats.enabled",
    "tcp_stats_enabled", "tcp_stats.nflog_group", "tcp_nflog_group", "tcp_stats.nflog_size",
    "tcp_nflog_size", "tcp_stats.emit_interval_ms", "tcp_emit_interval_ms",
    "tcp_stats.emit_top_n", "tcp_emit_top_n", "tcp_stats.prefix_len", "tcp_prefix_len",
    "flow_acct.enabled", "flow_acct_enabled", "flow_acct.join_update", "flow_acct.emit_destroy",
    "flow_acct.emit_new", "flow_acct.poll_interval_ms", "flow_acct.dump_interval_ms",
    "flow_acct.sample_emit_ms", "flow_acct.sample_top_n", "flow_acct.max_flows", "ipc.socket",
    "ipc_socket", "ipc.path", "proxies.openai_url", "openai_proxy_url", "proxies.postgres_url",
    "postgres_proxy_url"]

/-- What the YAML library makes of a file: the message of an error event, and the scalars with their
paths, in the order of the file. No path is bound twice. -/
structure YamlDoc where
  error : Option CStr
  scalars : List (String × CStr)
  nodup : (scalars.map Prod.fst).Nodup

namespace YamlDoc

/-- `lookup`, over `yaml_lookup_scalar`: an empty scalar counts as absent, and the program reads the
others up to a NUL. -/
def lookup (d : YamlDoc) (path : String) : Option CStr :=
  (d.scalars.lookup path).bind fun v ↦ if v = [] then none else some (v.takeWhile (· ≠ 0))

/-- One turn of the loop of `load_from_ctx`. -/
def loadPath (d : YamlDoc) (c : CpeAgentConfig) (path : String) : Except CStr CpeAgentConfig :=
  match d.lookup path with
  | none => .ok c
  | some val => applyScalar c path val

/-- `load_from_ctx` -/
def loadFromCtx (d : YamlDoc) (c : CpeAgentConfig) : Except CStr CpeAgentConfig :=
  match d.error with
  | some msg => .error (ascii "yaml parse: " ++ if msg ≠ [] then msg else ascii "error")
  | none => gPaths.foldlM d.loadPath c

/-- `cpe_agent_config_load_yaml_buf`, once the library has taken the file. -/
def cpeAgentConfigLoadYamlBuf (d : YamlDoc) : Except CStr CpeAgentConfig :=
  d.loadFromCtx cpeAgentConfigDefaults

end YamlDoc

end NetForensics
