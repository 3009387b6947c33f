import NetForensics.Ctl.Gaps

/-!
# Which answers the client reads back

For every run and every request with a successful answer: the table the client makes of it has what
it should if and only if the answer is no array with elements, `open_err` is not null, and the
strings that are printed as they are can be read back. Only of the name of an interface inside the
`meta` of a sample it is just shown that it does no harm when it can be read back.
-/

namespace NetForensics

open Json Printed

/-! ## The sample of an arping -/

/-- The name of the interface in the sample, if there is one, can be read back. -/
def CpePerfSample.NamesUndisturbed (x : CpePerfSample) : Prop :=
  ∀ ifname, x.PrintsInterface ifname → Undisturbed [ifname]

theorem undisturbed_singleton {s : CStr} : Undisturbed [s] ↔ Clear s ∧ NoExcess s := by
  rw [Undisturbed, List.forall_mem_singleton, List.flatten_singleton]

theorem noExcess_of_unbracketed {s : CStr} (h : Unbracketed s) : NoExcess s := by
  intro p hp
  have hclose : p.countP isClosing = 0 :=
    List.countP_eq_zero.mpr fun b hb ↦ by simp [(h b (hp.subset hb)).2]
  omega

theorem undisturbed_of_word {s : CStr} (h : Word s) : Undisturbed [s] :=
  undisturbed_singleton.mpr ⟨clear_of_word h, noExcess_of_unbracketed (unbracketed_of_word h)⟩

theorem agrees_arpingSample {x : CpePerfSample} (hx : x.Sane) (htarget : Word x.target)
    {ifname : CStr} (hmeta : x.PrintsInterface ifname) (hif : Undisturbed [ifname]) {text : CStr}
    (htext : (IpcReply.fields .lastSample (sampleMembers x)).render = some text) :
    Agrees text (.fields .lastSample (sampleMembers x)) := by
  obtain ⟨replied, mac, hmac, hmeta⟩ := hmeta
  obtain ⟨hclear, hexcess⟩ := undisturbed_singleton.mp hif
  have hprobe := hx.probe_lt
  have hlen := hx.target_lt
  have hts := hx.tsIso_lt
  have hnames : FieldNames ([("probe", word x.probe), ("target", word x.target),
      ("rtt_ms", number (fixed 3 x.rttMs)), ("loss", number (fixed 4 x.loss)),
      ("ts", word x.tsIso)].map Prod.fst ++ ["meta"]) :=
    (by decide : FieldNames ["probe", "target", "rtt_ms", "loss", "ts", "meta"])
  have hms : ∀ m ∈ arpingMembers replied mac, Tidy m := by
    simp only [arpingMembers, List.forall_mem_cons]
    exact ⟨tidy_decimal (by decide) _, tidy_decimal (by decide) _, tidy_bool (by decide) _,
      tidy_quoted (by decide) hmac, List.forall_mem_nil _⟩
  rw [sampleMembers_eq hmeta] at htext ⊢
  refine agrees_nested hnames ?_ rfl (List.cons_ne_nil _ _) (List.cons_ne_nil _ _) hms
    (by decide) hclear hexcess htext
  simp only [List.forall_mem_cons]
  exact ⟨fine_word hx.probe (by omega), fine_word htarget (by omega), fine_fixed 3 _,
    fine_fixed 4 _, fine_word hx.tsIso (by omega), List.forall_mem_nil _⟩

theorem agrees_lastSample {x : CpePerfSample} (hx : x.Sane) (hkept : x.Kept) {text : CStr}
    (htext : (IpcReply.fields .lastSample (sampleMembers x)).render = some text) :
    (Undisturbed [x.target] ∧ x.NamesUndisturbed →
      Agrees text (.fields .lastSample (sampleMembers x))) ∧
    (x.NamesUndisturbed → Agrees text (.fields .lastSample (sampleMembers x)) →
      Undisturbed [x.target]) := by
  cases hkept with
  | tidy ms hmeta hms =>
    have hiff := agrees_sample_iff hx hmeta hms htext
    exact ⟨fun h ↦ hiff.mpr h.1, fun _ ↦ hiff.mp⟩
  | arping ifname hmeta htarget =>
    exact ⟨fun h ↦ agrees_arpingSample hx htarget hmeta (h.2 ifname hmeta) htext,
      fun _ _ ↦ undisturbed_of_word htarget⟩

/-! ## The hints of `flow_list` -/

theorem noExcess_between {s t : CStr} (hs : Unbracketed s) (ht : Unbracketed t) (u : CStr) :
    NoExcess (s ++ u ++ t) ↔ NoExcess u := by
  rw [← depthAfter_one_iff, ← depthAfter_one_iff, List.append_assoc, depthAfter_append,
    hs.level 1 one_pos, Option.bind_some, depthAfter_append]
  cases hcase : depthAfter 1 u with
  | none => rfl
  | some d =>
    rw [Option.bind_some, ht.level d (depthAfter_pos one_pos hcase)]

theorem clear_between {s t : CStr} (hs : Clear s) (ht : Clear t) (u : CStr) :
    Clear (s ++ u ++ t) ↔ Clear u := by
  rw [Clear, List.forall_mem_append, List.forall_mem_append]
  exact ⟨fun h ↦ h.1.2, fun h ↦ ⟨⟨hs, h⟩, ht⟩⟩

theorem agrees_hintDisabled {text : CStr}
    (htext : (IpcReply.fields .flowList (hintMembers hintDisabled)).render = some text) :
    Agrees text (.fields .flowList (hintMembers hintDisabled)) := by
  have hplain : Unbracketed hintDisabled.dropLast := by decide
  exact (agrees_hint_iff (by decide) htext).mpr
    ⟨by decide, noExcess_of_unbracketed hplain⟩

theorem agrees_hintClosed_iff {err : CStr} (hlen : err.length < 96) {text : CStr}
    (htext : (IpcReply.fields .flowList (hintMembers (hintClosed err))).render = some text) :
    Agrees text (.fields .flowList (hintMembers (hintClosed err))) ↔ Undisturbed [err] := by
  have hwords : hintClosed err = ascii "conntrack netlink open failed: " ++
      (if err ≠ [] then err else ascii "unknown") ++ ascii " (need CAP_NET_ADMIN / root)" := rfl
  have hhint : (hintClosed err).length ≤ 255 := by
    rw [hwords, List.length_append, List.length_append]
    have hfirst : (ascii "conntrack netlink open failed: ").length = 31 := by decide
    have hlast : (ascii " (need CAP_NET_ADMIN / root)").length = 28 := by decide
    have hunknown : (ascii "unknown").length = 7 := by decide
    split <;> omega
  have hdrop : (hintClosed err).dropLast = ascii "conntrack netlink open failed: " ++
      (if err ≠ [] then err else ascii "unknown") ++
        (ascii " (need CAP_NET_ADMIN / root)").dropLast := by
    rw [hwords, List.dropLast_append_of_ne_nil (by decide)]
  rw [agrees_hint_iff hhint htext, hdrop, hwords, clear_between (by decide) (by decide),
    noExcess_between (by decide) (by decide), ← undisturbed_singleton]
  split
  · rfl
  · rename_i hnil
    rw [not_not.mp hnil]
    exact iff_of_true (undisturbed_of_word (by decide)) (undisturbed_of_word word_nil)

/-! ## All answers -/

namespace IpcState

/-- What has to hold so that the client reads the answer to an operation back. The flows and the
error are those after the tick that the request itself makes. -/
def ReadsBackOf (s : IpcState) (env : IpcEnv) (req : CStr) : IpcVerb → Prop
  | .help => False
  | .status => Undisturbed [s.agent.cfg.routerId, s.agent.cfg.httpsUrl, s.agent.cfg.openaiProxyUrl]
  | .config =>
    (∀ t ∈ [s.agent.cfg.routerId, s.agent.cfg.demoTarget, s.agent.cfg.httpsUrl,
      s.agent.cfg.openaiProxyUrl, s.agent.cfg.ipcPath], Clear t) ∧
    NoExcess ([s.agent.cfg.routerId, s.agent.cfg.demoTarget, s.agent.cfg.httpsUrl,
      s.agent.cfg.openaiProxyUrl].flatten ++ s.agent.cfg.ipcPath.dropLast)
  | .lastSample => ∀ x ∈ s.last, Undisturbed [x.target] ∧ x.NamesUndisturbed
  | .latency => ∀ x ∈ s.last, Undisturbed [s.agent.cfg.routerId, x.target]
  | .flowStats =>
    let snap := (s.agent.flowTick env.flow).1.flowSnapshot env.clock
    snap.openErr ≠ [] ∧ Undisturbed [snap.openErr]
  | .flowList =>
    let snap := (s.agent.flowTick env.flow).1.flowSnapshot env.clock
    s.agent.cfg.flowAcctEnabled = true → snap.openOk = false → Undisturbed [snap.openErr]
  | .tcpByIp => requestField req "ip" 48 = [] → s.agent.tcp.snap.remotes = []
  | .tcpByPrefix => requestField req "prefix" 64 = [] → s.agent.tcp.snap.prefixes = []
  | .ping | .spool | .emit | .tcpPoll | .tcpStats | .flowTick | .tcpEmit | .tcpReset => True

/-- The same for a request. -/
def ReadsBack (s : IpcState) (env : IpcEnv) (req : CStr) : Prop :=
  ∀ verb ∈ IpcVerb.find (requestOp req), s.ReadsBackOf env req verb

/-- The answer is not an error. -/
def Succeeds (s : IpcState) (env : IpcEnv) (req : CStr) : Prop :=
  ∀ op msg, (s.answer env req).2 ≠ .error op msg

theorem Succeeds.exists_verb {s : IpcState} {env : IpcEnv} {req : CStr} (h : s.Succeeds env req) :
    ∃ verb, IpcVerb.find (requestOp req) = some verb ∧
      s.answer env req = s.serve env req verb := by
  rw [Succeeds] at h
  unfold answer at h ⊢
  split
  · rename_i hop
    rw [if_pos hop] at h
    exact absurd rfl (h _ _)
  · rename_i hop
    rw [if_neg hop] at h
    cases hfind : IpcVerb.find (requestOp req) with
    | none =>
      rw [hfind] at h
      exact absurd rfl (h _ _)
    | some verb => exact ⟨verb, rfl, rfl⟩

theorem agrees_value {verb : IpcVerb} {data : CStr} (h : data.head? ≠ some 91) (text : CStr) :
    Agrees text (.value verb data) := by
  rintro chunks - ss rfl
  exact absurd rfl h

theorem agrees_flowList_iff {a : CpeAgent} (ha : a.Sane) {clock : Option WallClock} {limit : ℕ}
    {text : CStr} (htext : (flowList a (a.flowSnapshot clock) limit).render = some text) :
    Agrees text (flowList a (a.flowSnapshot clock) limit) ↔
      (a.cfg.flowAcctEnabled = true → (a.flowSnapshot clock).openOk = false →
        Undisturbed [(a.flowSnapshot clock).openErr]) := by
  rw [flowList] at htext ⊢
  cases henabled : a.cfg.flowAcctEnabled with
  | false =>
    rw [henabled, if_pos (by decide)] at htext
    rw [if_pos (by decide)]
    exact iff_of_true (agrees_hintDisabled htext) fun h ↦ absurd h (by simp)
  | true =>
    rw [henabled, if_neg (by decide)] at htext
    rw [if_neg (by decide)]
    cases hopen : (a.flowSnapshot clock).openOk with
    | false =>
      rw [hopen, if_pos (by decide)] at htext
      rw [if_pos (by decide), agrees_hintClosed_iff (length_openErr_lt a clock) htext]
      exact ⟨fun h _ _ ↦ h, fun h ↦ h rfl rfl⟩
    | true =>
      rw [hopen, if_neg (by decide)] at htext
      rw [if_neg (by decide)]
      refine iff_of_true (agrees_flows ?_ _ htext) fun _ h ↦ absurd h (by simp)
      intro ms hms
      obtain ⟨e, he, rfl⟩ := List.mem_map.mp hms
      exact tidy_flowRow (worded_of_mem_flows ha.flow (List.mem_of_mem_take he))

theorem agrees_tcpByIp_iff {a : CpeAgent} (hworded : a.tcp.snap.Worded) (hfiled : a.tcp.snap.Filed)
    {ip text : CStr} (htext : (tcpByIp a ip).render = some text) :
    Agrees text (tcpByIp a ip) ↔ (ip = [] → a.tcp.snap.remotes = []) := by
  rw [tcpByIp] at htext ⊢
  by_cases hip : ip = []
  · rw [if_neg (not_not.mpr hip)] at htext ⊢
    rw [imp_iff_right hip, agrees_rows_iff htext]
    simp
  · rw [if_pos hip] at htext ⊢
    refine iff_of_true ?_ fun h ↦ absurd h hip
    cases hfind : a.tcpRemote ip with
    | none => exact agrees_value (by decide) text
    | some r =>
      rw [hfind] at htext
      have hr : r ∈ a.tcp.snap.remotes := List.mem_of_find?_eq_some hfind
      have hlen := hfiled.remotes r hr
      exact agrees_remoteRow (hworded.remotes r hr) ⟨by omega, by omega⟩ htext

theorem agrees_tcpByPrefix_iff {a : CpeAgent} (hworded : a.tcp.snap.Worded)
    (hfiled : a.tcp.snap.Filed) {pfx text : CStr}
    (htext : (tcpByPrefix a pfx).render = some text) :
    Agrees text (tcpByPrefix a pfx) ↔ (pfx = [] → a.tcp.snap.prefixes = []) := by
  rw [tcpByPrefix] at htext ⊢
  by_cases hpfx : pfx = []
  · rw [if_neg (not_not.mpr hpfx)] at htext ⊢
    rw [imp_iff_right hpfx, agrees_rows_iff htext]
    simp
  · rw [if_pos hpfx] at htext ⊢
    refine iff_of_true ?_ fun h ↦ absurd h hpfx
    cases hfind : a.tcpPrefix pfx with
    | none => exact agrees_value (by decide) text
    | some x =>
      rw [hfind] at htext
      have hx : x ∈ a.tcp.snap.prefixes := List.mem_of_find?_eq_some hfind
      have hlen := hfiled.prefixes x hx
      exact agrees_prefixRow (hworded.prefixes x hx) (by omega) htext

theorem agrees_latency {s : IpcState} (hs : s.Sane) (hok : ∀ op msg, s.latency ≠ .error op msg)
    {text : CStr} (htext : s.latency.render = some text) :
    Agrees text s.latency ↔ ∀ x ∈ s.last, Undisturbed [s.agent.cfg.routerId, x.target] := by
  rw [latency] at hok htext ⊢
  by_cases hlen : (object (latencyMembers s.agent.cfg s.last)).length < 256
  · rw [if_pos hlen] at htext ⊢
    cases hlast : s.last with
    | none =>
      rw [hlast] at htext
      exact iff_of_true (agrees_latency_none htext) (by simp)
    | some x =>
      rw [hlast] at htext
      rw [agrees_latency_iff hs.agent (hs.last x hlast) htext]
      simp
  · rw [if_neg hlen] at hok
    exact absurd rfl (hok _ _)

theorem agrees_serve_iff {s : IpcState} (hs : s.Sane) (hfiled : s.agent.tcp.snap.Filed)
    {env : IpcEnv} {req : CStr} {verb : IpcVerb} (hverb : verb ≠ .lastSample)
    (hok : ∀ op msg, (s.serve env req verb).2 ≠ .error op msg) {text : CStr}
    (htext : (s.serve env req verb).2.render = some text) :
    Agrees text (s.serve env req verb).2 ↔ s.ReadsBackOf env req verb := by
  have hticked : (s.agent.flowTick env.flow).1.Sane := hs.agent.flowTick env.flow
  cases verb with
  | lastSample => exact absurd rfl hverb
  | ping | tcpReset => exact iff_of_true (agrees_value (by decide) text) trivial
  | help =>
    have hnames : helpNames.map (fun n ↦ quoted (ascii n))
        = (helpNames.map ascii).map quoted := by rw [List.map_map]; rfl
    rw [serve, hnames]
    exact iff_of_false (not_agrees_strings (by decide) text) id
  | status => exact agrees_status_iff hs.agent htext
  | config => exact agrees_config_iff hs.agent htext
  | latency => exact agrees_latency hs hok htext
  | spool => exact iff_of_true (agrees_spool s.agent htext) trivial
  | emit | tcpPoll | flowTick | tcpEmit =>
    rw [serve] at htext ⊢
    exact iff_of_true (agrees_counted (by decide) _ _ htext) trivial
  | tcpStats =>
    have hts := hfiled.tsIso
    exact iff_of_true (agrees_tcpStats hs.agent.tcp.tsIso (by omega) htext) trivial
  | flowStats =>
    by_cases herr : ((s.agent.flowTick env.flow).1.flowSnapshot env.clock).openErr = []
    · exact iff_of_false (not_agrees_flowStats herr htext) fun h ↦ h.1 herr
    · exact (agrees_flowStats_iff herr htext).trans (and_iff_right herr).symm
  | flowList =>
    have hiff := agrees_flowList_iff hticked htext
    rw [CpeAgent.flowTick_cfg] at hiff
    exact hiff
  | tcpByIp => exact agrees_tcpByIp_iff hs.agent.tcp hfiled htext
  | tcpByPrefix => exact agrees_tcpByPrefix_iff hs.agent.tcp hfiled htext

theorem agrees_serve_lastSample {s : IpcState} (hs : s.Sane) (hkept : ∀ x ∈ s.last, x.Kept)
    {env : IpcEnv} {req text : CStr} (htext : (s.serve env req .lastSample).2.render = some text) :
    (s.ReadsBackOf env req .lastSample → Agrees text (s.serve env req .lastSample).2) ∧
    ((∀ x ∈ s.last, x.NamesUndisturbed) → Agrees text (s.serve env req .lastSample).2 →
      s.ReadsBackOf env req .lastSample) := by
  rw [serve] at htext ⊢
  rw [ReadsBackOf]
  cases hlast : s.last with
  | none =>
    exact ⟨fun _ ↦ agrees_value (by decide) text, fun _ _ x hx ↦ absurd hx (by simp)⟩
  | some x =>
    rw [hlast] at htext
    obtain ⟨hback, hconv⟩ := agrees_lastSample (hs.last x hlast) (hkept x hlast) htext
    refine ⟨fun h ↦ hback (h x rfl), fun hnames hagrees y hy ↦ ?_⟩
    obtain rfl := Option.some_inj.mp hy
    exact ⟨hconv (hnames x rfl) hagrees, hnames x rfl⟩

end IpcState

/-- For every run and every request with a successful answer: what the client makes of the answer
represents its data if the answer reads back, and, unless the sample asked for names an interface
that cannot be read back, only if it does. -/
theorem ipcCall_agrees_iff (ops : List HostOp) (env : IpcEnv) (req : CStr) {text : CStr} :
    let s := IpcState.create.hostRun ops
    s.Succeeds env req → (s.handleRequest env req).2 = some text →
      (s.ReadsBack env req → Agrees text (s.answer env req).2) ∧
      ((requestOp req = ascii "last_sample" → ∀ x ∈ s.last, x.NamesUndisturbed) →
        Agrees text (s.answer env req).2 → s.ReadsBack env req) := by
  intro s hok htext
  have hs : s.Sane := IpcState.sane_hostRun ops
  obtain ⟨verb, hfind, hserve⟩ := hok.exists_verb
  have hback : s.ReadsBack env req ↔ s.ReadsBackOf env req verb := by
    rw [IpcState.ReadsBack, hfind]
    exact ⟨fun h ↦ h verb rfl, fun h v hv ↦ Option.some_inj.mp hv ▸ h⟩
  rw [IpcState.handleRequest, hserve] at htext
  rw [IpcState.Succeeds, hserve] at hok
  rw [hback, hserve]
  by_cases hverb : verb = .lastSample
  · subst hverb
    have hop : requestOp req = ascii "last_sample" := IpcVerb.eq_name_of_find hfind
    obtain ⟨hif, honly⟩ := IpcState.agrees_serve_lastSample hs (IpcState.kept_hostRun ops) htext
    exact ⟨hif, fun hnames ↦ honly (hnames hop)⟩
  · have hiff := IpcState.agrees_serve_iff hs (IpcState.filed_hostRun ops) hverb hok htext
    exact ⟨hiff.mpr, fun _ ↦ hiff.mp⟩

/-- With one remote host seen and the defaults of the configuration, `status` is read back. -/
theorem ipcCall_agrees_status :
    let s := IpcState.create.hostRun (seenHosts 1)
    ∃ text, (s.handleRequest quietEnv (bareRequest "status")).2 = some text ∧
      Agrees text (s.answer quietEnv (bareRequest "status")).2 := by
  intro s
  have hprinted : (s.handleRequest quietEnv (bareRequest "status")).2.isSome = true := by
    decide +kernel
  obtain ⟨text, htext⟩ := Option.isSome_iff_exists.mp hprinted
  refine ⟨text, htext, (ipcCall_agrees_iff (seenHosts 1) quietEnv (bareRequest "status")
    (fun op msg ↦ nofun) htext).1 fun verb hverb ↦ ?_⟩
  obtain rfl : verb = .status := Option.some_inj.mp (hverb.symm.trans (by decide))
  have hplain : ∀ t ∈ [s.agent.cfg.routerId, s.agent.cfg.httpsUrl, s.agent.cfg.openaiProxyUrl],
      Clear t := by decide +kernel
  have hlevel : Unbracketed
      [s.agent.cfg.routerId, s.agent.cfg.httpsUrl, s.agent.cfg.openaiProxyUrl].flatten := by
    decide +kernel
  exact ⟨hplain, noExcess_of_unbracketed hlevel⟩

/-- With one remote host seen, `tcp_by_ip` has an array with a row, and the client makes a table
without elements of it. -/
theorem ipcCall_misses_rows :
    let s := IpcState.create.hostRun (seenHosts 1)
    s.agent.tcp.snap.remotes.length = 1 ∧ s.Succeeds quietEnv (bareRequest "tcp_by_ip") ∧
      ∃ text, (s.handleRequest quietEnv (bareRequest "tcp_by_ip")).2 = some text ∧
        ¬ Agrees text (s.answer quietEnv (bareRequest "tcp_by_ip")).2 := by
  intro s
  have hcount : s.agent.tcp.snap.remotes.length = 1 := by decide +kernel
  have hprinted : (s.handleRequest quietEnv (bareRequest "tcp_by_ip")).2.isSome = true := by
    decide +kernel
  obtain ⟨text, htext⟩ := Option.isSome_iff_exists.mp hprinted
  have hrows : (s.agent.tcp.snap.remotes.take 64).map remoteRow ≠ [] := by
    rw [← List.length_pos_iff, List.length_map, List.length_take, hcount]
    decide
  exact ⟨hcount, fun op msg ↦ nofun, text, htext, not_agrees_rows hrows text⟩

end NetForensics
