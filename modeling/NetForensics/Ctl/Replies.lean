import NetForensics.Ctl.Agree

/-!
# The answers one by one

For each operation whose answer has an object in it: the members as the handler prints them, and
what has to hold of the strings among them that come from the configuration, from a probe or from
the system, so that the client gets all of them.
-/

namespace NetForensics

open Json Printed

/-! ## Objects without strings that come from outside -/

def counterItems (c : TcpCounters) : List (String × Printed) :=
  [("syn", number (decimal c.synCount.toNat)),
   ("fin", number (decimal c.finCount.toNat)),
   ("rst", number (decimal c.rstCount.toNat)),
   ("syn_retrans", number (decimal c.synRetrans.toNat)),
   ("pkts", number (decimal c.pktCount.toNat)),
   ("bytes", number (decimal c.bytesEst.toNat))]

theorem fine_counterItems (c : TcpCounters) : ∀ i ∈ counterItems c, i.2.Fine := by
  simp only [counterItems, List.forall_mem_cons]
  exact ⟨fine_decimal _, fine_decimal _, fine_decimal _, fine_decimal _, fine_decimal _,
    fine_decimal _, List.forall_mem_nil _⟩

theorem noExcess_nil : NoExcess [] := fun p hp ↦ by
  rw [List.prefix_nil.mp hp]
  exact le_rfl

theorem agrees_of_raws_nil {items : List (String × Printed)}
    (hnames : FieldNames (items.map Prod.fst)) (hfine : ∀ i ∈ items, i.2.Fine)
    (hfollowed : Followed items) (hne : items ≠ []) (hraws : raws items = [])
    (hexposed : exposed items = []) {verb : IpcVerb} {reply : IpcReply} {text : CStr}
    (htext : reply.render = some text) (hreply : reply.text = okText verb (object (texts items)))
    (hrep : ∀ res, Represents res reply ↔
      ∃ fields, res = .ok (.table fields) ∧ HasMembers fields (texts items)) :
    Agrees text reply := by
  refine (received_render_iff hnames hfine hfollowed hne htext hreply hrep).mpr ⟨?_, ?_⟩
  · rw [hraws]
    exact List.forall_mem_nil _
  · rw [hexposed]
    exact noExcess_nil

/-- `tcp_stats` -/
def tcpStatsItems (snap : CpeTcpSnapshot) : List (String × Printed) :=
  ("nflog_group", number (decimal snap.nflogGroup.toNat)) :: counterItems snap.total ++
  [("remotes", number (decimal snap.remotes.length)),
   ("prefixes", number (decimal snap.prefixes.length)),
   ("prefix_len", number (decimal snap.prefixLen.toNat)),
   ("loss_hint", number (fixed 4 snap.total.lossHint)),
   ("ts", word snap.tsIso),
   ("pkts_parsed", number (decimal snap.pktsParsed.toNat))]

/-- `append_remote_json` -/
def remoteItems (r : CpeTcpRemote) : List (String × Printed) :=
  [("remote_ip", word r.remoteIp),
   ("local_ip", word r.localIp),
   ("remote_port", number (decimal r.remotePort.toNat)),
   ("local_port", number (decimal r.localPort.toNat))] ++
  counterItems r.toTcpCounters ++ [("loss_hint", number (fixed 4 r.toTcpCounters.lossHint))]

/-- `append_prefix_json` -/
def prefixItems (x : CpeTcpPrefix) : List (String × Printed) :=
  [("prefix", word x.pfx),
   ("remotes", number (decimal x.remoteCount.toNat))] ++
  counterItems x.toTcpCounters ++ [("loss_hint", number (fixed 4 x.toTcpCounters.lossHint))]

theorem agrees_tcpStats {snap : CpeTcpSnapshot} (hts : Word snap.tsIso)
    (hlen : snap.tsIso.length ≤ 255) {text : CStr}
    (htext : (IpcReply.fields .tcpStats (tcpStatsMembers snap)).render = some text) :
    Agrees text (.fields .tcpStats (tcpStatsMembers snap)) := by
  have hnames : FieldNames ((tcpStatsItems snap).map Prod.fst) :=
    (by decide : FieldNames ["nflog_group", "syn", "fin", "rst", "syn_retrans", "pkts", "bytes",
      "remotes", "prefixes", "prefix_len", "loss_hint", "ts", "pkts_parsed"])
  refine agrees_of_raws_nil hnames ?_ ?_ (List.cons_ne_nil _ _)
    rfl rfl htext rfl fun _ ↦ Iff.rfl
  · simp only [tcpStatsItems, List.cons_append, List.forall_mem_cons, List.forall_mem_append]
    exact ⟨fine_decimal _, fine_counterItems _, fine_decimal _, fine_decimal _, fine_decimal _,
      fine_fixed 4 _, fine_word hts hlen, fine_decimal _, List.forall_mem_nil _⟩
  · trivial

theorem agrees_remoteRow {r : CpeTcpRemote} (h : Word r.remoteIp ∧ Word r.localIp)
    (hlen : r.remoteIp.length ≤ 255 ∧ r.localIp.length ≤ 255) {text : CStr}
    (htext : (IpcReply.row .tcpByIp (remoteRow r)).render = some text) :
    Agrees text (.row .tcpByIp (remoteRow r)) := by
  have hnames : FieldNames ((remoteItems r).map Prod.fst) :=
    (by decide : FieldNames ["remote_ip", "local_ip", "remote_port", "local_port", "syn", "fin",
      "rst", "syn_retrans", "pkts", "bytes", "loss_hint"])
  refine agrees_of_raws_nil hnames ?_ ?_ (List.cons_ne_nil _ _)
    rfl rfl htext rfl fun _ ↦ Iff.rfl
  · simp only [remoteItems, List.forall_mem_cons, List.forall_mem_append]
    exact ⟨⟨⟨fine_word h.1 hlen.1, fine_word h.2 hlen.2, fine_decimal _, fine_decimal _,
      List.forall_mem_nil _⟩, fine_counterItems _⟩, fine_fixed 4 _, List.forall_mem_nil _⟩
  · trivial

theorem agrees_prefixRow {x : CpeTcpPrefix} (h : Word x.pfx) (hlen : x.pfx.length ≤ 255)
    {text : CStr} (htext : (IpcReply.row .tcpByPrefix (prefixRow x)).render = some text) :
    Agrees text (.row .tcpByPrefix (prefixRow x)) := by
  have hnames : FieldNames ((prefixItems x).map Prod.fst) :=
    (by decide : FieldNames ["prefix", "remotes", "syn", "fin", "rst", "syn_retrans", "pkts",
      "bytes", "loss_hint"])
  refine agrees_of_raws_nil hnames ?_ ?_ (List.cons_ne_nil _ _)
    rfl rfl htext rfl fun _ ↦ Iff.rfl
  · simp only [prefixItems, List.forall_mem_cons, List.forall_mem_append]
    exact ⟨⟨⟨fine_word h hlen, fine_decimal _, List.forall_mem_nil _⟩, fine_counterItems _⟩,
      fine_fixed 4 _, List.forall_mem_nil _⟩
  · trivial

theorem agrees_counted {verb : IpcVerb} {field : String} (hfield : FieldNames [field])
    (msg : String) (n : ℤ) {text : CStr}
    (htext : (IpcState.counted verb field msg n).render = some text) :
    Agrees text (IpcState.counted verb field msg n) := by
  rw [IpcState.counted] at htext ⊢
  split
  · exact fun _ _ ↦ trivial
  · rename_i hn
    rw [if_neg hn] at htext
    have hnames : FieldNames ([(field, number (intText n))].map Prod.fst) := hfield
    refine agrees_of_raws_nil hnames ?_ ?_ (List.cons_ne_nil _ _) rfl rfl htext rfl fun _ ↦ Iff.rfl
    · simp only [List.forall_mem_cons]
      exact ⟨fine_intText n, List.forall_mem_nil _⟩
    · trivial

theorem agrees_spool (a : CpeAgent) {text : CStr}
    (htext : (IpcReply.fields .spool
      [("depth", sizeText a.spoolDepth), ("drops", sizeText a.spoolDrops)]).render = some text) :
    Agrees text (.fields .spool
      [("depth", sizeText a.spoolDepth), ("drops", sizeText a.spoolDrops)]) := by
  have hnames : FieldNames ([("depth", number (sizeText a.spoolDepth)),
      ("drops", number (sizeText a.spoolDrops))].map Prod.fst) :=
    (by decide : FieldNames ["depth", "drops"])
  refine agrees_of_raws_nil hnames ?_ ?_ (List.cons_ne_nil _ _) rfl rfl htext rfl fun _ ↦ Iff.rfl
  · simp only [List.forall_mem_cons]
    exact ⟨fine_decimal _, fine_decimal _, List.forall_mem_nil _⟩
  · trivial

/-! ## Objects with strings that come from outside -/

theorem word_emitMode {cfg : CpeAgentConfig} (h : cpeAgentConfigValidate cfg = none) :
    Word cfg.emitMode ∧ cfg.emitMode.length ≤ 255 := by
  rw [cpeAgentConfigValidate] at h
  split_ifs at h with hrouter hmode
  rw [Classical.not_and_iff_not_or_not, Classical.not_and_iff_not_or_not,
    Classical.not_and_iff_not_or_not] at hmode
  simp only [not_not] at hmode
  rcases hmode with heq | heq | heq | heq <;> rw [heq] <;> decide

/-- `status` -/
def statusItems (a : CpeAgent) : List (String × Printed) :=
  [("router_id", raw a.cfg.routerId),
   ("emit_mode", word a.cfg.emitMode),
   ("egress_url", raw a.cfg.httpsUrl),
   ("openai_proxy_url", raw a.cfg.openaiProxyUrl),
   ("demo", truth a.cfg.demoMode),
   ("tcp_stats", truth a.cfg.tcpStatsEnabled),
   ("tcp_nflog_group", number (decimal a.cfg.tcpNflogGroup.toNat)),
   ("flow_acct", truth a.cfg.flowAcctEnabled),
   ("spool_depth", number (sizeText a.spoolDepth)),
   ("spool_drops", number (sizeText a.spoolDrops)),
   ("generation", number (decimal a.cfg.generation.toNat))]

/-- `config` -/
def configItems (cfg : CpeAgentConfig) : List (String × Printed) :=
  [("router_id", raw cfg.routerId),
   ("emit_mode", word cfg.emitMode),
   ("target", raw cfg.demoTarget),
   ("interval_ms", number (decimal cfg.demoIntervalMs.toNat)),
   ("timeout_ms", number (decimal cfg.probeTimeoutMs.toNat)),
   ("demo", truth cfg.demoMode),
   ("tcp_stats", truth cfg.tcpStatsEnabled),
   ("tcp_nflog_group", number (decimal cfg.tcpNflogGroup.toNat)),
   ("tcp_prefix_len", number (decimal cfg.tcpPrefixLen.toNat)),
   ("egress_url", raw cfg.httpsUrl),
   ("openai_proxy_url", raw cfg.openaiProxyUrl),
   ("ipc_socket", raw cfg.ipcPath)]

theorem agrees_status_iff {a : CpeAgent} (h : a.Sane) {text : CStr}
    (htext : (IpcReply.fields .status (statusMembers a)).render = some text) :
    Agrees text (.fields .status (statusMembers a)) ↔
      Undisturbed [a.cfg.routerId, a.cfg.httpsUrl, a.cfg.openaiProxyUrl] := by
  have hnames : FieldNames ((statusItems a).map Prod.fst) :=
    (by decide : FieldNames ["router_id", "emit_mode", "egress_url", "openai_proxy_url", "demo",
      "tcp_stats", "tcp_nflog_group", "flow_acct", "spool_depth", "spool_drops", "generation"])
  have hmode := word_emitMode h.cfg
  have hrouter := h.sized.routerId
  have hurl := h.sized.httpsUrl
  have hproxy := h.sized.openaiProxyUrl
  refine agrees_fields_iff hnames ?_ ?_ (List.cons_ne_nil _ _) htext
  · simp only [statusItems, List.forall_mem_cons]
    exact ⟨fine_raw (by omega), fine_word hmode.1 hmode.2, fine_raw (by omega), fine_raw (by omega),
      fine_truth _, fine_truth _, fine_decimal _, fine_truth _, fine_decimal _, fine_decimal _,
      fine_decimal _, List.forall_mem_nil _⟩
  · simp [statusItems, Followed, Printed.value, truth, word, number]

theorem CpeAgentConfig.Sized.ipcPath {cfg : CpeAgentConfig} (h : cfg.Sized) :
    cfg.ipcPath.length ≤ 255 := by
  have hsocket := h.ipcSocket
  rw [CpeAgentConfig.ipcPath]
  split
  · omega
  · decide

/-- Of the last string of `config` the last byte is of no account. -/
theorem agrees_config_iff {a : CpeAgent} (h : a.Sane) {text : CStr}
    (htext : (IpcReply.fields .config (configMembers a.cfg)).render = some text) :
    Agrees text (.fields .config (configMembers a.cfg)) ↔
      (∀ s ∈ [a.cfg.routerId, a.cfg.demoTarget, a.cfg.httpsUrl, a.cfg.openaiProxyUrl,
        a.cfg.ipcPath], Clear s) ∧
      NoExcess ([a.cfg.routerId, a.cfg.demoTarget, a.cfg.httpsUrl, a.cfg.openaiProxyUrl].flatten ++
        a.cfg.ipcPath.dropLast) := by
  have hnames : FieldNames ((configItems a.cfg).map Prod.fst) :=
    (by decide : FieldNames ["router_id", "emit_mode", "target", "interval_ms", "timeout_ms",
      "demo", "tcp_stats", "tcp_nflog_group", "tcp_prefix_len", "egress_url", "openai_proxy_url",
      "ipc_socket"])
  have hmode := word_emitMode h.cfg
  have hrouter := h.sized.routerId
  have htarget := h.sized.demoTarget
  have hurl := h.sized.httpsUrl
  have hproxy := h.sized.openaiProxyUrl
  have hexposed : exposed (configItems a.cfg)
      = [a.cfg.routerId, a.cfg.demoTarget, a.cfg.httpsUrl, a.cfg.openaiProxyUrl].flatten ++
        a.cfg.ipcPath.dropLast := by
    simp [configItems, exposed, word, number, truth]
  rw [← hexposed]
  refine agrees_fields_iff hnames ?_ ?_ (List.cons_ne_nil _ _) htext
  · simp only [configItems, List.forall_mem_cons]
    exact ⟨fine_raw (by omega), fine_word hmode.1 hmode.2, fine_raw (by omega), fine_decimal _,
      fine_decimal _, fine_truth _, fine_truth _, fine_decimal _, fine_decimal _,
      fine_raw (by omega), fine_raw (by omega), fine_raw h.sized.ipcPath, List.forall_mem_nil _⟩
  · simp [configItems, Followed, Printed.value, truth, word, number]

/-- `latency` once there is a sample. -/
def latencyItems (cfg : CpeAgentConfig) (x : CpePerfSample) : List (String × Printed) :=
  [("available", truth true),
   ("router_id", raw cfg.routerId),
   ("probe", word x.probe),
   ("target", raw x.target),
   ("rtt_ms", number (fixed 3 x.rttMs)),
   ("loss", number (fixed 4 x.loss)),
   ("ts", word x.tsIso)]

theorem agrees_latency_iff {a : CpeAgent} (h : a.Sane) {x : CpePerfSample} (hx : x.Sane)
    {text : CStr} (htext : (IpcReply.fields .latency (latencyMembers a.cfg (some x))).render
      = some text) :
    Agrees text (.fields .latency (latencyMembers a.cfg (some x))) ↔
      Undisturbed [a.cfg.routerId, x.target] := by
  have hnames : FieldNames ((latencyItems a.cfg x).map Prod.fst) :=
    (by decide : FieldNames ["available", "router_id", "probe", "target", "rtt_ms", "loss", "ts"])
  have hrouter := h.sized.routerId
  have htarget := hx.target_lt
  have hprobe := hx.probe_lt
  have hts := hx.tsIso_lt
  have hmembers : latencyMembers a.cfg (some x) = texts (latencyItems a.cfg x) := by
    rw [latencyMembers, if_pos (routerId_ne_nil_of_validate h.cfg)]
    rfl
  rw [hmembers] at htext ⊢
  refine agrees_fields_iff hnames ?_ ?_ (List.cons_ne_nil _ _) htext
  · simp only [latencyItems, List.forall_mem_cons]
    exact ⟨fine_truth _, fine_raw (by omega), fine_word hx.probe (by omega), fine_raw (by omega),
      fine_fixed 3 _, fine_fixed 4 _, fine_word hx.tsIso (by omega), List.forall_mem_nil _⟩
  · simp [latencyItems, Followed, Printed.value, truth, word, number]

theorem agrees_latency_none {a : CpeAgent} {text : CStr}
    (htext : (IpcReply.fields .latency (latencyMembers a.cfg none)).render = some text) :
    Agrees text (.fields .latency (latencyMembers a.cfg none)) := by
  have hnames : FieldNames ([("available", truth false)].map Prod.fst) := by decide
  refine agrees_of_raws_nil hnames ?_ trivial (List.cons_ne_nil _ _) rfl rfl htext rfl
    fun _ ↦ Iff.rfl
  simp only [List.forall_mem_cons]
  exact ⟨fine_truth false, List.forall_mem_nil _⟩

/-- `last_sample`, when the `meta` of the sample is harmless. -/
def sampleItems (x : CpePerfSample) (ms : List (String × CStr)) : List (String × Printed) :=
  [("probe", word x.probe),
   ("target", raw x.target),
   ("rtt_ms", number (fixed 3 x.rttMs)),
   ("loss", number (fixed 4 x.loss)),
   ("ts", word x.tsIso),
   ("meta", inner (object ms))]

theorem sampleMembers_eq {x : CpePerfSample} {ms : List (String × CStr)}
    (hmeta : x.metaText = object ms) :
    sampleMembers x = [("probe", quoted x.probe), ("target", quoted x.target),
      ("rtt_ms", fixed 3 x.rttMs), ("loss", fixed 4 x.loss), ("ts", quoted x.tsIso),
      ("meta", object ms)] := by
  have hne : object ms ≠ [] := List.cons_ne_nil _ _
  rw [sampleMembers, hmeta, if_pos hne]

theorem agrees_sample_iff {x : CpePerfSample} (hx : x.Sane) {ms : List (String × CStr)}
    (hmeta : x.metaText = object ms) (hms : ∀ m ∈ ms, Tidy m) {text : CStr}
    (htext : (IpcReply.fields .lastSample (sampleMembers x)).render = some text) :
    Agrees text (.fields .lastSample (sampleMembers x)) ↔ Undisturbed [x.target] := by
  have hnames : FieldNames ((sampleItems x ms).map Prod.fst) :=
    (by decide : FieldNames ["probe", "target", "rtt_ms", "loss", "ts", "meta"])
  have htarget := hx.target_lt
  have hprobe := hx.probe_lt
  have hts := hx.tsIso_lt
  have hmembers : sampleMembers x = texts (sampleItems x ms) := sampleMembers_eq hmeta
  rw [hmembers] at htext ⊢
  refine agrees_fields_iff hnames ?_ ?_ (List.cons_ne_nil _ _) htext
  · simp only [sampleItems, List.forall_mem_cons]
    exact ⟨fine_word hx.probe (by omega), fine_raw (by omega), fine_fixed 3 _, fine_fixed 4 _,
      fine_word hx.tsIso (by omega), fine_object hms, List.forall_mem_nil _⟩
  · simp [sampleItems, Followed, Printed.value, word, number, Printed.inner]

/-- `flow_stats`, when the socket could not be opened. -/
def flowStatsItems (a : CpeAgent) (snap : CpeFlowSnapshot) : List (String × Printed) :=
  [("enabled", truth a.cfg.flowAcctEnabled),
   ("flow_count", number (decimal snap.flows.length)),
   ("events_in", number (decimal snap.eventsIn.toNat)),
   ("destroys_emitted", number (decimal snap.destroysEmitted.toNat)),
   ("samples_emitted", number (decimal snap.samplesEmitted.toNat)),
   ("dumps", number (decimal snap.dumps.toNat)),
   ("open_ok", truth snap.openOk),
   ("open_err", raw snap.openErr),
   ("event_fd", number (fdText a.flow.fd)),
   ("dump_fd", number (fdText a.flow.dumpFd)),
   ("ts", word snap.tsIso)]

theorem length_openErr_lt (a : CpeAgent) (clock : Option WallClock) :
    (a.flowSnapshot clock).openErr.length < 96 :=
  length_copyStr_lt (by decide) _

theorem word_flowTs (a : CpeAgent) (clock : Option WallClock) :
    Word (a.flowSnapshot clock).tsIso ∧ (a.flowSnapshot clock).tsIso.length < 40 :=
  ⟨(word_isoNow clock).copyStr 40, length_copyStr_lt (by decide) _⟩

theorem agrees_flowStats_iff {a : CpeAgent} {clock : Option WallClock}
    (herr : (a.flowSnapshot clock).openErr ≠ []) {text : CStr}
    (htext : (IpcReply.fields .flowStats (flowStatsMembers a (a.flowSnapshot clock))).render
      = some text) :
    Agrees text (.fields .flowStats (flowStatsMembers a (a.flowSnapshot clock))) ↔
      Undisturbed [(a.flowSnapshot clock).openErr] := by
  have hnames : FieldNames ((flowStatsItems a (a.flowSnapshot clock)).map Prod.fst) :=
    (by decide : FieldNames ["enabled", "flow_count", "events_in", "destroys_emitted",
      "samples_emitted", "dumps", "open_ok", "open_err", "event_fd", "dump_fd", "ts"])
  have hlen := length_openErr_lt a clock
  obtain ⟨hts, htslen⟩ := word_flowTs a clock
  have hmembers : flowStatsMembers a (a.flowSnapshot clock)
      = texts (flowStatsItems a (a.flowSnapshot clock)) := by
    rw [flowStatsMembers, if_pos herr]
    rfl
  rw [hmembers] at htext ⊢
  refine agrees_fields_iff hnames ?_ ?_ (List.cons_ne_nil _ _) htext
  · simp only [flowStatsItems, List.forall_mem_cons]
    exact ⟨fine_truth _, fine_decimal _, fine_decimal _, fine_decimal _, fine_decimal _,
      fine_decimal _, fine_truth _, fine_raw (by omega), fine_intText _, fine_intText _,
      fine_word hts (by omega), List.forall_mem_nil _⟩
  · simp [flowStatsItems, Followed, Printed.value, truth, word, number]

/-! ## `flow_list` -/

theorem tidy_flowRow {e : CpeFlowEntry} (h : e.Worded) : ∀ m ∈ flowRow e, Tidy m := by
  have hword : ∀ {s : CStr}, Token s → Word s := fun hs ↦ word_of_token hs
  simp only [flowRow, List.forall_mem_cons]
  exact ⟨tidy_quoted (by decide) (hword h.flowId), tidy_decimal (by decide) _,
    tidy_quoted (by decide) (word_endText h.lanIp _),
    tidy_quoted (by decide) (word_endText h.remoteIp _),
    tidy_quoted (by decide) (word_endText h.wanIp _), tidy_decimal (by decide) _,
    tidy_decimal (by decide) _, tidy_decimal (by decide) _, tidy_decimal (by decide) _,
    tidy_quoted (by decide) h.state, List.forall_mem_nil _⟩

theorem agrees_flows {rows : List (List (String × CStr))} (h : ∀ ms ∈ rows, ∀ m ∈ ms, Tidy m)
    (count : ℕ) {text : CStr} (htext : (IpcReply.flows rows count).render = some text) :
    Agrees text (.flows rows count) := by
  have hnames : FieldNames ([("flows", inner (array (rows.map object))),
      ("count", number (decimal count))].map Prod.fst) :=
    (by decide : FieldNames ["flows", "count"])
  refine agrees_of_raws_nil hnames ?_ trivial (List.cons_ne_nil _ _) rfl rfl htext rfl
    fun _ ↦ Iff.rfl
  simp only [List.forall_mem_cons]
  exact ⟨fine_rows h, fine_decimal _, List.forall_mem_nil _⟩

theorem agrees_hint_iff {hint : CStr} (hlen : hint.length ≤ 255) {text : CStr}
    (htext : (IpcReply.fields .flowList (hintMembers hint)).render = some text) :
    Agrees text (.fields .flowList (hintMembers hint)) ↔ Clear hint ∧ NoExcess hint.dropLast := by
  have hnames : FieldNames ([("flows", inner (array [])), ("count", number (decimal 0)),
      ("hint", raw hint)].map Prod.fst) :=
    (by decide : FieldNames ["flows", "count", "hint"])
  have hrows : ∀ ms ∈ ([] : List (List (String × CStr))), ∀ m ∈ ms, Tidy m :=
    fun ms hms ↦ absurd hms List.not_mem_nil
  have hiff := agrees_fields_iff hnames ?_ ?_ (List.cons_ne_nil _ _) htext
  · refine hiff.trans (and_congr_left' ?_)
    exact List.forall_mem_singleton
  · simp only [List.forall_mem_cons]
    exact ⟨fine_rows hrows, fine_decimal 0, fine_raw hlen, List.forall_mem_nil _⟩
  · exact ⟨Or.inl rfl, trivial⟩

end NetForensics
