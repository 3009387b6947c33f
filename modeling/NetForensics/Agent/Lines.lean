import NetForensics.Agent.Reach
import NetForensics.Perf.Sample

/-!
# What is spooled is one object a line

The three formatters print the router id between quotes as it was configured, and the formatter of
samples prints the target of the probe in the same way. Whether a line is an object with the
configured router id in it depends on these strings alone.
-/

namespace NetForensics

open Json

theorem routerId_ne_nil_of_validate {cfg : CpeAgentConfig}
    (h : cpeAgentConfigValidate cfg = none) : cfg.routerId ≠ [] := by
  intro hnil
  rw [cpeAgentConfigValidate, if_pos hnil] at h
  exact absurd h (by simp)

theorem sound_head {type ts : CStr} (htype : Safe type) (hts : Safe ts) :
    (∀ m ∈ [("type", quoted type), ("ts", quoted ts)], Sound m) ∧
      ∀ m ∈ [("type", quoted type), ("ts", quoted ts)], ascii m.1 ≠ ascii "router_id" := by
  simp only [List.forall_mem_cons]
  exact ⟨⟨sound_safe (by decide) htype, sound_safe (by decide) hts, List.forall_mem_nil _⟩,
    by decide, by decide, List.forall_mem_nil _⟩

theorem carries_routerId_iff_of_sound {type ts rid : CStr} (htype : Safe type) (hts : Safe ts)
    {next : String} {v : CStr} {rest : List (String × CStr)} (hnext : Lettered next)
    (hsound : ∀ m ∈ (next, v) :: rest, Sound m)
    (hkeys : ∀ m ∈ (next, v) :: rest, ascii m.1 ≠ ascii "router_id") :
    Carries (object ([("type", quoted type), ("ts", quoted ts)] ++
        ("router_id", quoted rid) :: (next, v) :: rest)) "router_id" rid ↔
      Plain rid ∧ ValidUtf8 rid := by
  obtain ⟨hhead, hnames⟩ := sound_head htype hts
  rw [carries_iff hhead (List.cons_ne_nil _ _) hnames (by decide) hnext]
  exact ⟨fun h ↦ ⟨h.1, h.2.1⟩, fun h ↦ ⟨h.1, h.2, lacks_of_sound hsound hkeys⟩⟩

/-! ## Flow and TCP lines -/

theorem sound_flowMembers {e : CpeFlowEntry} (h : e.Legible) {event : CStr} (hevent : Safe event)
    (ts routerId : CStr) : ∀ m ∈ (flowMembers ts routerId event e).drop 3, Sound m := by
  have hid : Safe (if e.flowId ≠ [] then e.flowId else ascii "0") := by
    rw [if_pos h.flowId_ne]
    exact safe_of_token h.flowId
  have hstate : Safe (if e.state ≠ [] then e.state else ascii "UNKNOWN") := by
    split
    · exact h.state
    · decide
  have hdec : ∀ (name : String), Safe (ascii name) → ∀ n, Sound (name, decimal n) :=
    fun _ hname n ↦ sound_decimal hname n
  simp only [flowMembers, List.drop_succ_cons, List.drop_zero, List.forall_mem_cons, fixed0]
  exact ⟨sound_safe (by decide) hevent, sound_safe (by decide) hid, hdec _ (by decide) _,
    hdec _ (by decide) _, hdec _ (by decide) _, sound_safe (by decide) (safe_of_token h.lanIp),
    hdec _ (by decide) _, sound_safe (by decide) (safe_of_token h.wanIp), hdec _ (by decide) _,
    sound_safe (by decide) (safe_of_token h.remoteIp), hdec _ (by decide) _, hdec _ (by decide) _,
    hdec _ (by decide) _, hdec _ (by decide) _, hdec _ (by decide) _, hdec _ (by decide) _,
    hdec _ (by decide) _, hdec _ (by decide) _, hdec _ (by decide) _, hdec _ (by decide) _,
    hdec _ (by decide) _, hdec _ (by decide) _, sound_safe (by decide) hstate,
    sound_null (by decide), List.forall_mem_nil _⟩

theorem carries_flowLine_iff {e : CpeFlowEntry} (h : e.Legible) {event : CStr}
    (hevent : Safe event) {clock : Option WallClock} {rid : CStr} {buflen : ℕ} {line : CStr}
    (hline : cpeFlowFormatNdjson clock rid event e buflen = some line) :
    Carries line "router_id" rid ↔ Plain rid ∧ ValidUtf8 rid := by
  rw [cpeFlowFormatNdjson] at hline
  by_cases hbuf : buflen < 64
  · rw [if_pos hbuf] at hline
    exact absurd hline (by simp)
  · rw [if_neg hbuf] at hline
    rw [eq_of_fitText hline]
    refine carries_routerId_iff_of_sound (by decide) ((safe_isoNow clock).copyStr 40) (by decide)
      (sound_flowMembers h hevent (copyStr 40 (isoNow clock)) rid) ?_
    simp only [List.forall_mem_cons]
    decide

theorem carries_tcpLine_iff {snap : CpeTcpSnapshot} (h : snap.Legible) {scope : CStr}
    {remote : Option CpeTcpRemote} (hremote : ∀ r ∈ remote, r ∈ snap.remotes)
    {pfx : Option CpeTcpPrefix} (hpfx : ∀ x ∈ pfx, x ∈ snap.prefixes) {rid : CStr}
    (hrid : rid ≠ []) {buflen : ℕ} {line : CStr}
    (hline : cpeTcpFormatNdjson rid scope snap remote pfx buflen = some line) :
    Carries line "router_id" rid ↔ Plain rid ∧ ValidUtf8 rid := by
  obtain ⟨⟨v, rest, heq⟩, hsound, hkeys⟩ := tcpMembers_spec h scope hremote hpfx
  rw [cpeTcpFormatNdjson] at hline
  by_cases hbuf : buflen < 64
  · rw [if_pos hbuf] at hline
    exact absurd hline (by simp)
  · rw [if_neg hbuf] at hline
    rw [eq_of_fitText hline, if_pos hrid, heq]
    rw [heq] at hsound hkeys
    refine carries_routerId_iff_of_sound (by decide) ?_ (by decide) hsound hkeys
    split
    · exact h.tsIso
    · decide

/-! ## Samples -/

theorem carries_perfLine_iff {s : CpePerfSample} (hts : Safe s.tsIso) {rid : CStr} (hrid : rid ≠ [])
    {buflen : ℕ} {line : CStr} (hline : cpePerfFormatNdjson rid s buflen = some line) :
    Carries line "router_id" rid ↔
      Plain rid ∧ ValidUtf8 rid ∧ Lacks (object s.members) "router_id" := by
  have hstamp : Safe (if s.tsIso ≠ [] then s.tsIso else ascii "1970-01-01T00:00:00.000Z") := by
    split
    · exact hts
    · decide
  rw [cpePerfFormatNdjson] at hline
  by_cases hbuf : buflen < 32
  · rw [if_pos hbuf] at hline
    exact absurd hline (by simp)
  · rw [if_neg hbuf] at hline
    rw [eq_of_fitText hline, if_pos hrid]
    obtain ⟨hhead, hnames⟩ := sound_head (by decide : Safe (ascii "cpe_perf")) hstamp
    have hprobe : Lettered "probe" := by decide
    exact carries_iff hhead (List.cons_ne_nil _ _) hnames (by decide) hprobe

theorem members_eq {s : CpePerfSample} (hprobe : s.probe ≠ []) {ms : List (String × CStr)}
    (hmeta : s.metaText = object ms) :
    s.members = [("probe", quoted s.probe), ("target", quoted s.target),
      ("rtt_ms", fixed 3 s.rttMs), ("loss", fixed 4 s.loss), ("meta", object ms)] := by
  have hne : object ms ≠ [] := List.cons_ne_nil _ _
  rw [CpePerfSample.members, if_pos hprobe, hmeta, if_pos hne]

/-- What the probes have in common: a fixed word, a time stamp and a printed object. -/
structure Formed (s : CpePerfSample) (ms : List (String × CStr)) : Prop where
  probe : Safe s.probe
  probe_ne : s.probe ≠ []
  tsIso : Safe s.tsIso
  metaText : s.metaText = object ms

section

variable {s : CpePerfSample} {ms : List (String × CStr)} (h : Formed s ms)

include h

theorem sound_probe : ∀ m ∈ [("probe", quoted s.probe)], Sound m := by
  simp only [List.forall_mem_cons]
  exact ⟨sound_safe (by decide) h.probe, List.forall_mem_nil _⟩

theorem lacks_of_formed (hms : ∀ m ∈ ms, Sound m) (htarget : Safe s.target) :
    Lacks (object s.members) "router_id" := by
  rw [members_eq h.probe_ne h.metaText]
  refine lacks_of_sound ?_ ?_
  · simp only [List.forall_mem_cons]
    exact ⟨sound_safe (by decide) h.probe, sound_safe (by decide) htarget,
      sound_fixed (by decide) 3 _, sound_fixed (by decide) 4 _, sound_object (by decide) hms,
      List.forall_mem_nil _⟩
  · simp only [List.forall_mem_cons]
    decide

theorem lacks_iff_of_target (hms : ∀ m ∈ ms, Sound m) :
    Lacks (object s.members) "router_id" ↔
      Clean s.target ∧ Resumes "router_id" [([], ascii "target")] s.target := by
  have hnames : ∀ m ∈ [("probe", quoted s.probe)], ascii m.1 ≠ ascii "router_id" := by
    simp only [List.forall_mem_cons]
    decide
  have happ := lacks_append_iff (sound_probe h) hnames (List.cons_ne_nil _ _)
    (List.cons_ne_nil ("target", quoted s.target)
      [("rtt_ms", fixed 3 s.rttMs), ("loss", fixed 4 s.loss), ("meta", object ms)])
  rw [members_eq h.probe_ne h.metaText]
  refine happ.trans (lacks_raw_iff (by decide) ?_ ?_ ?_)
  · exact (by decide : Lettered "rtt_ms")
  · simp only [List.forall_mem_cons]
    exact ⟨sound_fixed (by decide) 3 _, sound_fixed (by decide) 4 _, sound_object (by decide) hms,
      List.forall_mem_nil _⟩
  · simp only [List.forall_mem_cons]
    decide

end

/-! ## The `meta` objects fit -/

theorem copyStr_object {ms : List (String × CStr)} (hne : ms ≠ [])
    (h : (ms.map fun m ↦ m.1.toList.length + m.2.length + 4).sum < 127) :
    copyStr cpePerfMetaMax (object ms) = object ms := by
  apply copyStr_of_length_lt
  rw [length_object hne, cpePerfMetaMax]
  omega

theorem length_boolText (b : Bool) : (boolText b).length ≤ 5 := by
  cases b <;> decide

theorem length_decimal_uint32 (n : UInt32) : (decimal n.toNat).length ≤ 10 :=
  length_decimal_le (by decide) (n.toNat_lt.trans (by decide))

theorem length_decimal_bool (b : Bool) : (decimal b.toNat).length ≤ 1 := by
  cases b <;> decide

theorem token_macFmt (mac : Fin 6 → UInt8) : Token (macFmt mac) := by
  have hpart : ∀ n, Token (zeroPad 2 (hex n)) := fun n ↦ token_zeroPad (token_hex n)
  have hcolon : isToken 58 = true := by decide
  rw [macFmt]
  refine (hpart _).append (.cons hcolon ((hpart _).append (.cons hcolon ?_)))
  refine (hpart _).append (.cons hcolon ((hpart _).append (.cons hcolon ?_)))
  exact (hpart _).append (.cons hcolon (hpart _))

theorem length_macFmt (mac : Fin 6 → UInt8) : (macFmt mac).length = 17 := by
  have hfin : ∀ n : Fin 256, (zeroPad 2 (hex n)).length = 2 := by decide +kernel
  have hpart : ∀ b : UInt8, (zeroPad 2 (hex b.toNat)).length = 2 := fun b ↦
    hfin ⟨b.toNat, b.toNat_lt⟩
  rw [macFmt]
  simp only [List.length_append, List.length_cons, hpart]

/-! ## Each probe -/

theorem formed_of_word {s : CpePerfSample} {word : String} (hsafe : Safe (ascii word))
    (hne : ascii word ≠ []) (hprobe : s.probe = ascii word) (hts : Safe s.tsIso)
    {ms : List (String × CStr)} (hms : ms ≠ [])
    (hmeta : s.metaText = copyStr cpePerfMetaMax (object ms))
    (hlen : (ms.map fun m ↦ m.1.toList.length + m.2.length + 4).sum < 127) : Formed s ms :=
  ⟨hprobe ▸ hsafe, hprobe ▸ hne, hts, hmeta.trans (copyStr_object hms hlen)⟩

theorem formed_demoPing (cfg : CpeAgentConfig) (clock : Option WallClock) (st : NetdiagStats) :
    Formed (demoPingSample cfg clock st)
      [("replies", decimal st.replies.toNat), ("timeouts", decimal st.timeouts.toNat),
       ("demo", boolText true)] := by
  refine formed_of_word (by decide) (by decide) rfl ((safe_isoNow clock).copyStr _) (by simp) rfl ?_
  have hr := length_decimal_uint32 st.replies
  have ht := length_decimal_uint32 st.timeouts
  have hb := length_boolText true
  simp only [List.map_cons, List.map_nil, List.sum_cons, List.sum_nil, String.reduceToList,
    List.length_cons, List.length_nil]
  omega

theorem formed_livePing (cfg : CpeAgentConfig) (clock : Option WallClock) (rtt : Option ℚ)
    (isRaw : Bool) :
    Formed (livePingSample cfg clock rtt isRaw)
      [("replies", decimal rtt.isSome.toNat), ("timeouts", decimal (!rtt.isSome).toNat),
       ("demo", boolText false), ("raw", boolText isRaw)] := by
  refine formed_of_word (by decide) (by decide) rfl ((safe_isoNow clock).copyStr _) (by simp) rfl ?_
  have hr := length_decimal_bool rtt.isSome
  have ht := length_decimal_bool (!rtt.isSome)
  have hb := length_boolText false
  have hraw := length_boolText isRaw
  simp only [List.map_cons, List.map_nil, List.sum_cons, List.sum_nil, String.reduceToList,
    List.length_cons, List.length_nil]
  omega

theorem formed_demoArping (clock : Option WallClock) (target : CStr) (rttMs : ℚ)
    (mac : Fin 6 → UInt8) :
    Formed (demoArpingSample clock target rttMs mac)
      [("replies", decimal 1), ("timeouts", decimal 0), ("demo", boolText true),
       ("mac", quoted (macFmt mac))] := by
  refine formed_of_word (by decide) (by decide) rfl ((safe_isoNow clock).copyStr _) (by simp) rfl ?_
  have hr : (decimal 1).length = 1 := by decide
  have ht : (decimal 0).length = 1 := by decide
  have hb := length_boolText true
  simp only [List.map_cons, List.map_nil, List.sum_cons, List.sum_nil, String.reduceToList,
    List.length_cons, List.length_nil, length_quoted, length_macFmt]
  omega

theorem formed_arping (clock : Option WallClock) (target : CStr)
    (reply : Option (ℚ × (Fin 6 → UInt8))) {ifname : CStr} (hif : ifname.length < 32) :
    Formed (arpingSample clock target reply ifname)
      (arpingMembers reply.isSome ((reply.map fun r ↦ macFmt r.2).getD []) ++
        [("if", quoted ifname)]) := by
  refine formed_of_word (by decide) (by decide) rfl ((safe_isoNow clock).copyStr _) (by simp) rfl ?_
  have hr := length_decimal_bool reply.isSome
  have ht := length_decimal_bool (!reply.isSome)
  have hb := length_boolText false
  have hmac : ((reply.map fun r ↦ macFmt r.2).getD []).length ≤ 17 := by
    cases reply with
    | none => exact Nat.zero_le 17
    | some r => exact (length_macFmt r.2).le
  simp only [arpingMembers, List.cons_append, List.nil_append, List.map_cons, List.map_nil,
    List.sum_cons, List.sum_nil, String.reduceToList, List.length_cons, List.length_nil,
    length_quoted]
  omega

theorem formed_demoTrace (clock : Option WallClock) (target : CStr) (maxTtl : ℕ) :
    ∃ hops, Formed (demoTraceSample clock target maxTtl)
      [("hops", decimal hops), ("reached", boolText true), ("method", quoted (ascii "demo")),
       ("probes", decimal 1), ("demo", boolText true)] := by
  rw [demoTraceSample]
  have hhops : min (min (if maxTtl = 0 then 5 else maxTtl) cpeTraceHopMax) 4 ≤ 4 :=
    Nat.min_le_right _ _
  generalize min (min (if maxTtl = 0 then 5 else maxTtl) cpeTraceHopMax) 4 = hops at hhops ⊢
  refine ⟨hops, formed_of_word (by decide) (by decide) rfl ((safe_isoNow clock).copyStr _) ?_ rfl
    ?_⟩
  · simp
  · have hh : (decimal hops).length ≤ 1 := length_decimal_le (by decide) (by omega)
    have hone : (decimal 1).length = 1 := by decide
    have hdemo : (ascii "demo").length = 4 := by decide
    have hb := length_boolText true
    simp only [List.map_cons, List.map_nil, List.sum_cons, List.sum_nil, String.reduceToList,
      List.length_cons, List.length_nil, length_quoted]
    omega

/-! ## Traces -/

/-- The strings and sizes of a trace. -/
structure CpeTraceResult.Ok (tr : CpeTraceResult) : Prop where
  target : Safe tr.target
  tsIso : Safe tr.tsIso
  method : Safe tr.method
  method_le : tr.method.length ≤ 4
  probes_le : tr.probesPerHop ≤ 16
  hops : ∀ h ∈ tr.hops, Safe h.addr

theorem safe_replyAddr (addr : Option UInt32) : Safe (replyAddr addr) := by
  cases addr with
  | none => exact safe_nil
  | some a => exact safe_of_token (token_inetNtop4 a)

theorem safe_recordReply {h : CpeTraceHop} (hh : Safe h.addr) {addr : CStr} (haddr : Safe addr)
    (rttMs : ℚ) (reached : Bool) : Safe (h.recordReply addr rttMs reached).addr := by
  rw [CpeTraceHop.recordReply]
  dsimp only
  split
  · exact haddr.copyStr _
  · exact hh

theorem traceProbe_ok {target : CStr} (htarget : Safe target) {th : CpeTraceResult × CpeTraceHop}
    (hok : th.1.Ok ∧ Safe th.2.addr) (reply : TraceReply) :
    (traceProbe target th reply).1.Ok ∧ Safe (traceProbe target th reply).2.addr := by
  obtain ⟨tr, h⟩ := th
  cases reply with
  | lost => exact hok
  | hop addr rttMs => exact ⟨hok.1, safe_recordReply hok.2 (safe_replyAddr addr) _ _⟩
  | dest addr rttMs =>
    refine ⟨{ hok.1 with }, safe_recordReply hok.2 ?_ _ _⟩
    split
    · exact safe_replyAddr addr
    · exact htarget

theorem traceProbe_hops {target : CStr} (th : CpeTraceResult × CpeTraceHop) (reply : TraceReply) :
    (traceProbe target th reply).1.hops = th.1.hops := by
  obtain ⟨tr, h⟩ := th
  cases reply <;> rfl

theorem traceLoop_ok {target : CStr} (htarget : Safe target) (reply : ℕ → ℕ → TraceReply)
    (ttl left : ℕ) {tr : CpeTraceResult} (hok : tr.Ok) :
    (traceLoop target reply ttl left tr).Ok ∧
      (traceLoop target reply ttl left tr).hops.length ≤ tr.hops.length + left := by
  induction left generalizing ttl tr with
  | zero => exact ⟨hok, le_rfl⟩
  | succ left ih =>
    have hprobe : ∀ (th : CpeTraceResult × CpeTraceHop) (p : ℕ),
        th.1.Ok ∧ Safe th.2.addr ∧ th.1.hops = tr.hops →
        (traceProbe target th (reply ttl p)).1.Ok ∧
          Safe (traceProbe target th (reply ttl p)).2.addr ∧
          (traceProbe target th (reply ttl p)).1.hops = tr.hops := by
      intro th p h
      obtain ⟨hres, haddr⟩ := traceProbe_ok htarget ⟨h.1, h.2.1⟩ (reply ttl p)
      exact ⟨hres, haddr, (traceProbe_hops th _).trans h.2.2⟩
    obtain ⟨hres, haddr, hhops⟩ := foldl_invariant
      (P := fun th : CpeTraceResult × CpeTraceHop ↦
        th.1.Ok ∧ Safe th.2.addr ∧ th.1.hops = tr.hops)
      hprobe (s := (tr, { hop := ttl })) ⟨hok, safe_nil, rfl⟩ (List.range tr.probesPerHop)
    rw [traceLoop]
    generalize (List.range tr.probesPerHop).foldl
      (fun th p ↦ traceProbe target th (reply ttl p)) (tr, { hop := ttl }) = th
      at hres haddr hhops ⊢
    obtain ⟨tr', h⟩ := th
    dsimp only at hres haddr hhops ⊢
    have hnext : CpeTraceResult.Ok { tr' with hops := tr'.hops ++ [h] } := by
      refine { hres with hops := fun h' hh' ↦ ?_ }
      rcases List.mem_append.mp hh' with hmem | hmem
      · exact hres.hops h' hmem
      · rw [List.mem_singleton.mp hmem]
        exact haddr
    have hlen : (tr'.hops ++ [h]).length = tr.hops.length + 1 := by
      rw [List.length_append, List.length_singleton, hhops]
    split
    · exact ⟨hnext, by dsimp only; omega⟩
    · obtain ⟨hih, hle⟩ := ih (ttl + 1) hnext
      dsimp only at hle
      exact ⟨hih, by omega⟩

theorem runTrace_ok (clock : Option WallClock) {target : CStr} (htarget : Safe target)
    (maxTtl probesPerHop : ℕ) (udp : Bool) (reply : ℕ → ℕ → TraceReply) :
    (runTrace clock target maxTtl probesPerHop udp reply).Ok ∧
      (runTrace clock target maxTtl probesPerHop udp reply).hops.length ≤ cpeTraceHopMax := by
  rw [runTrace]
  have hmethod : Safe (if udp then ascii "udp" else ascii "icmp") ∧
      (if udp then ascii "udp" else ascii "icmp").length ≤ 4 := by
    cases udp <;> decide
  obtain ⟨hok, hlen⟩ := traceLoop_ok htarget reply 1
    (min (if maxTtl = 0 then 30 else maxTtl) cpeTraceHopMax)
    (⟨htarget.copyStr _, (safe_isoNow clock).copyStr _, hmethod.1, hmethod.2,
      Nat.min_le_right _ _, List.forall_mem_nil _⟩ : CpeTraceResult.Ok
        { target := copyStr cpePerfTargetMax target
          tsIso := copyStr cpePerfTsMax (isoNow clock)
          method := if udp then ascii "udp" else ascii "icmp"
          probesPerHop := min (if probesPerHop = 0 then 1 else probesPerHop) 16 })
  refine ⟨hok, hlen.trans ?_⟩
  rw [List.length_nil, Nat.zero_add]
  exact Nat.min_le_right _ _

theorem formed_summarySample {tr : CpeTraceResult} (h : tr.Ok)
    (hlen : tr.hops.length ≤ cpeTraceHopMax) {probeName : String}
    (hname : Safe (ascii probeName)) (hne : ascii probeName ≠ []) :
    Formed (tr.summarySample probeName)
      [("hops", decimal tr.hops.length), ("reached", boolText tr.reached),
       ("method", quoted tr.method), ("probes", decimal tr.probesPerHop),
       ("demo", boolText false)] := by
  refine formed_of_word hname hne rfl (h.tsIso.copyStr _) (by simp) rfl ?_
  have hhops : (decimal tr.hops.length).length ≤ 2 := by
    rw [cpeTraceHopMax] at hlen
    exact length_decimal_le (by decide) (by omega)
  have hprobes : (decimal tr.probesPerHop).length ≤ 2 :=
    length_decimal_le (by decide) (lt_of_le_of_lt h.probes_le (by decide))
  have hreached := length_boolText tr.reached
  have hdemo := length_boolText false
  have hmethod := h.method_le
  simp only [List.map_cons, List.map_nil, List.sum_cons, List.sum_nil, String.reduceToList,
    List.length_cons, List.length_nil, length_quoted]
  omega

theorem lacks_summarySample {tr : CpeTraceResult} (h : tr.Ok)
    (hlen : tr.hops.length ≤ cpeTraceHopMax) {probeName : String}
    (hname : Safe (ascii probeName)) (hne : ascii probeName ≠ []) :
    Safe (tr.summarySample probeName).tsIso ∧
      Lacks (object (tr.summarySample probeName).members) "router_id" := by
  have hform := formed_summarySample h hlen hname hne
  refine ⟨hform.tsIso, lacks_of_formed hform ?_ (h.target.copyStr _)⟩
  simp only [List.forall_mem_cons]
  exact ⟨sound_decimal (by decide) _, sound_bool (by decide) _, sound_safe (by decide) h.method,
    sound_decimal (by decide) _, sound_bool (by decide) _, List.forall_mem_nil _⟩

theorem lacks_hopSample {tr : CpeTraceResult} (h : tr.Ok) {probeName : String}
    (hname : Safe (ascii probeName)) {hop : CpeTraceHop} (hhop : hop ∈ tr.hops) {s : CpePerfSample}
    (hs : tr.hopSample probeName hop = some s) :
    Safe s.tsIso ∧ Lacks (object s.members) "router_id" := by
  obtain ⟨text, htext, rfl⟩ := Option.map_eq_some_iff.mp hs
  refine ⟨h.tsIso.copyStr _, lacks_of_formed ⟨hname.append (by decide), ?_, h.tsIso.copyStr _,
    eq_of_fitText htext⟩ ?_ ?_⟩
  · exact List.append_ne_nil_of_right_ne_nil _ (by decide)
  · simp only [List.forall_mem_cons]
    exact ⟨sound_decimal (by decide) _, sound_decimal (by decide) _, sound_decimal (by decide) _,
      sound_bool (by decide) _, sound_safe (by decide) h.target, List.forall_mem_nil _⟩
  · dsimp only
    split
    · exact (h.hops hop hhop).copyStr _
    · decide

/-! ## The condition on a probe -/

def EmbedsTarget (target : CStr) : Prop :=
  let text := copyStr cpePerfTargetMax target
  Clean text ∧ Resumes "router_id" [([], ascii "target")] text

/-- The members of the `meta` of a live arping before the interface, as they are read. -/
def arpingValues (replied : Bool) (macStr : CStr) : List (CStr × Json) :=
  [(ascii "replies", .num (decimal replied.toNat)),
   (ascii "timeouts", .num (decimal (!replied).toNat)),
   (ascii "demo", .bool false), (ascii "mac", .str macStr)]

/-- What a probe prints as it got it does not break the line. Nothing is demanded of the probes that
have parsed their target as an address. -/
def Probe.Embeds (cfg : CpeAgentConfig) : Probe → Prop
  | .demoPing _ => EmbedsTarget cfg.demoTarget
  | .demoArping ipv4Opt _ => EmbedsTarget (probeTarget cfg ipv4Opt)
  | .demoTraceroute targetOpt _ =>
    let target := probeTarget cfg targetOpt
    EmbedsTarget (if target ≠ [] then target else ascii "1.1.1.1")
  | .arping _ ifnameOpt picked reply =>
    let ifname := arpingIfname cfg ifnameOpt picked
    Clean ifname ∧ Resumes "router_id"
      [(arpingValues reply.isSome ((reply.map fun r ↦ macFmt r.2).getD []), ascii "if"),
        ([], ascii "meta")] ifname
  | .livePing _ _ | .trace .. => True

theorem embedsTarget_of_plain {target : CStr} (hplain : Plain target)
    (hutf8 : ValidUtf8 (copyStr cpePerfTargetMax target)) : EmbedsTarget target := by
  have hcut : Plain (copyStr cpePerfTargetMax target) := hplain.take _
  refine ⟨⟨hutf8, fun b hb ↦ (hcut b hb).1⟩, resumes_of_plain hcut ?_⟩
  rintro o ho
  obtain rfl := Option.some_inj.mp ho
  exact ⟨by decide, List.forall_mem_nil _⟩

theorem arping_iff (clock : Option WallClock) {target : CStr} (htarget : Safe target)
    (reply : Option (ℚ × (Fin 6 → UInt8))) {ifname : CStr} (hif : ifname.length < 32) :
    Lacks (object (arpingSample clock target reply ifname).members) "router_id" ↔
      Clean ifname ∧ Resumes "router_id"
        [(arpingValues reply.isSome ((reply.map fun r ↦ macFmt r.2).getD []), ascii "if"),
          ([], ascii "meta")] ifname := by
  have hform := formed_arping clock target reply hif
  have hmac : Safe ((reply.map fun r ↦ macFmt r.2).getD []) := by
    cases reply with
    | none => exact safe_nil
    | some r => exact safe_of_token (token_macFmt r.2)
  generalize (reply.map fun r ↦ macFmt r.2).getD [] = mac at hform hmac ⊢
  have hinner : ∀ m ∈ arpingMembers reply.isSome mac, Sound m := by
    simp only [arpingMembers, List.forall_mem_cons]
    exact ⟨sound_decimal (by decide) _, sound_decimal (by decide) _, sound_bool (by decide) _,
      sound_safe (by decide) hmac, List.forall_mem_nil _⟩
  have hreads : List.Forall₂ MemberReads (arpingMembers reply.isSome mac)
      (arpingValues reply.isSome mac) :=
    .cons (memberReads (by decide) (reads_decimal _)) (.cons (memberReads (by decide)
      (reads_decimal _)) (.cons (memberReads (by decide) (reads_boolText false))
      (.cons (memberReads (by decide) (reads_quoted hmac.plain)) .nil)))
  generalize hsample : arpingSample clock target reply ifname = s at hform ⊢
  have htext : Safe s.target := hsample ▸ htarget.copyStr _
  -- everything before the `meta` is sound
  have happ : Lacks (object ([("probe", quoted s.probe), ("target", quoted s.target),
        ("rtt_ms", fixed 3 s.rttMs), ("loss", fixed 4 s.loss)] ++
        [("meta", object (arpingMembers reply.isSome mac ++ [("if", quoted ifname)]))]))
        "router_id" ↔
      Lacks (object [("meta", object (arpingMembers reply.isSome mac ++ [("if", quoted ifname)]))])
        "router_id" := by
    refine lacks_append_iff ?_ ?_ (List.cons_ne_nil _ _) (List.cons_ne_nil _ _)
    · simp only [List.forall_mem_cons]
      exact ⟨sound_safe (by decide) hform.probe, sound_safe (by decide) htext,
        sound_fixed (by decide) 3 _, sound_fixed (by decide) 4 _, List.forall_mem_nil _⟩
    · simp only [List.forall_mem_cons]
      decide
  rw [members_eq hform.probe_ne hform.metaText]
  exact happ.trans (lacks_raw_nested_iff (by decide) (by decide) hinner (by simp [arpingMembers])
    hreads)

/-- What a sample of a probe prints of its own completes a line exactly when the probe embeds its
strings. -/
theorem lacks_samples_iff {cfg : CpeAgentConfig} {clock : Option WallClock} {p : Probe}
    {s : CpePerfSample} (hs : s ∈ p.samples cfg clock) :
    Safe s.tsIso ∧ (Lacks (object s.members) "router_id" ↔ p.Embeds cfg) := by
  cases p with
  | demoPing st =>
    obtain rfl := List.mem_singleton.mp hs
    refine ⟨(safe_isoNow clock).copyStr _, lacks_iff_of_target (formed_demoPing cfg clock st) ?_⟩
    simp only [List.forall_mem_cons]
    exact ⟨sound_decimal (by decide) _, sound_decimal (by decide) _, sound_bool (by decide) _,
      List.forall_mem_nil _⟩
  | livePing rtt isRaw =>
    rw [Probe.samples] at hs
    split at hs
    · exact absurd hs List.not_mem_nil
    · rename_i haddr
      rw [Bool.not_eq_true, Option.isNone_eq_false_iff] at haddr
      obtain rfl := List.mem_singleton.mp hs
      have htarget : Safe (livePingSample cfg clock rtt isRaw).target :=
        (safe_of_token (token_of_inetPton4 haddr)).copyStr _
      refine ⟨(safe_isoNow clock).copyStr _,
        iff_of_true (lacks_of_formed (formed_livePing cfg clock rtt isRaw) ?_ htarget) trivial⟩
      simp only [List.forall_mem_cons]
      exact ⟨sound_decimal (by decide) _, sound_decimal (by decide) _, sound_bool (by decide) _,
        sound_bool (by decide) _, List.forall_mem_nil _⟩
  | demoArping ipv4Opt avg =>
    rw [Probe.samples] at hs
    split at hs
    · exact absurd hs List.not_mem_nil
    · obtain rfl := List.mem_singleton.mp hs
      refine ⟨(safe_isoNow clock).copyStr _,
        lacks_iff_of_target (formed_demoArping clock _ _ demoMac) ?_⟩
      simp only [List.forall_mem_cons]
      exact ⟨sound_decimal (by decide) _, sound_decimal (by decide) _, sound_bool (by decide) _,
        sound_safe (by decide) (safe_of_token (token_macFmt _)), List.forall_mem_nil _⟩
  | arping ipv4Opt ifnameOpt picked reply =>
    rw [Probe.samples] at hs
    split at hs
    · exact absurd hs List.not_mem_nil
    · rename_i haddr
      rw [Bool.not_eq_true, Option.isNone_eq_false_iff] at haddr
      obtain rfl := List.mem_singleton.mp hs
      exact ⟨(safe_isoNow clock).copyStr _, arping_iff clock
        (safe_of_token (token_of_inetPton4 haddr)) reply (length_copyStr_lt (by decide) _)⟩
  | trace mtr targetOpt maxTtl probesPerHop udp reply =>
    rw [Probe.samples] at hs
    split at hs
    · exact absurd hs List.not_mem_nil
    · rename_i haddr
      rw [not_or, Bool.not_eq_true, Option.isNone_eq_false_iff] at haddr
      have hname : Safe (ascii (if mtr then "mtr" else "traceroute")) ∧
          ascii (if mtr then "mtr" else "traceroute") ≠ [] := by
        cases mtr <;> decide
      obtain ⟨hok, hlen⟩ := runTrace_ok clock (safe_of_token (token_of_inetPton4 haddr.2)) maxTtl
        (if mtr then (if probesPerHop = 0 then 3 else probesPerHop) else 1) udp reply
      rcases List.mem_cons.mp hs with rfl | hmem
      · obtain ⟨hts, hlacks⟩ := lacks_summarySample hok hlen hname.1 hname.2
        exact ⟨hts, iff_of_true hlacks trivial⟩
      · obtain ⟨hop, hhop, hsome⟩ := List.mem_filterMap.mp hmem
        obtain ⟨hts, hlacks⟩ := lacks_hopSample hok hname.1 hhop hsome
        exact ⟨hts, iff_of_true hlacks trivial⟩
  | demoTraceroute targetOpt maxTtl =>
    rw [Probe.samples] at hs
    obtain rfl := List.mem_singleton.mp hs
    obtain ⟨hops, hform⟩ := formed_demoTrace clock
      (if probeTarget cfg targetOpt ≠ [] then probeTarget cfg targetOpt else ascii "1.1.1.1") maxTtl
    refine ⟨hform.tsIso, lacks_iff_of_target hform ?_⟩
    simp only [List.forall_mem_cons]
    exact ⟨sound_decimal (by decide) _, sound_bool (by decide) _,
      sound_safe (by decide) (by decide), sound_decimal (by decide) _, sound_bool (by decide) _,
      List.forall_mem_nil _⟩

/-! ## Every line -/

/-- A flow record the agent has in its hands: in a slot, or while it handles an event. -/
def CpeAgent.HoldsFlow (a : CpeAgent) (e : CpeFlowEntry) : Prop :=
  ∃ i, ((a.flow.table i).used = true ∧ e = a.flow.table i) ∨
    ∃ ev nowMs, e = storeEvent (a.flow.table i) ev nowMs ∨
      e = (storeEvent (a.flow.table i) ev nowMs).destroyed

/-- A snapshot the agent has in its hands: the current one, also with the time brought up to date
for printing. -/
def CpeAgent.HoldsSnapshot (a : CpeAgent) (snap : CpeTcpSnapshot) : Prop :=
  snap = a.tcp.snap ∨ ∃ clock, snap = { a.tcp.snap with tsIso := copyStr 40 (isoNow clock) }

theorem legible_of_holdsFlow {a : CpeAgent} (h : a.Legible) {e : CpeFlowEntry}
    (he : a.HoldsFlow e) : e.Legible := by
  obtain ⟨i, ⟨hused, rfl⟩ | ⟨ev, nowMs, hstore⟩⟩ := he
  · exact h.flow i hused
  · have hprint := printable_storeEvent (fun hused ↦ (h.flow i hused).toPrintable) ev nowMs
    rcases hstore with rfl | rfl
    · exact ⟨hprint, (word_state_storeEvent _ _ _).safe⟩
    · exact ⟨hprint.destroyed, Safe.copyStr (by decide) 24⟩

theorem legible_of_holdsSnapshot {a : CpeAgent} (h : a.Legible) {snap : CpeTcpSnapshot}
    (hsnap : a.HoldsSnapshot snap) : snap.Legible := by
  rcases hsnap with rfl | ⟨clock, rfl⟩
  · exact h.tcp
  · exact { h.tcp with tsIso := (safe_isoNow clock).copyStr 40 }

/-- For every accepted configuration and every run of the agent: a line that was formatted is one
object on one line with the configured router id in it if and only if the router id is UTF-8
without quotes, backslashes and control characters and, for a sample, the probe embeds the strings
it prints as they are. -/
theorem spooledLine_carries_iff (cfg : CpeAgentConfig) (hcfg : cpeAgentConfigValidate cfg = none)
    (ops : List AgentOp) :
    (∀ (clock : Option WallClock) (p : Probe), ∀ s ∈ p.samples cfg clock, ∀ buflen line,
      cpePerfFormatNdjson cfg.routerId s buflen = some line →
      (Carries line "router_id" cfg.routerId ↔
        Plain cfg.routerId ∧ ValidUtf8 cfg.routerId ∧ p.Embeds cfg)) ∧
    (∀ snap, (CpeAgent.create.agentRun ops).HoldsSnapshot snap →
      ∀ (scope : CStr) (remote : Option CpeTcpRemote) (pfx : Option CpeTcpPrefix),
      (∀ r ∈ remote, r ∈ snap.remotes) → (∀ x ∈ pfx, x ∈ snap.prefixes) → ∀ buflen line,
      cpeTcpFormatNdjson cfg.routerId scope snap remote pfx buflen = some line →
      (Carries line "router_id" cfg.routerId ↔ Plain cfg.routerId ∧ ValidUtf8 cfg.routerId)) ∧
    (∀ e, (CpeAgent.create.agentRun ops).HoldsFlow e →
      ∀ event ∈ ["new", "sample", "destroy"], ∀ (clock : Option WallClock) (buflen : ℕ) line,
      cpeFlowFormatNdjson clock cfg.routerId (ascii event) e buflen = some line →
      (Carries line "router_id" cfg.routerId ↔ Plain cfg.routerId ∧ ValidUtf8 cfg.routerId)) := by
  have hrid := routerId_ne_nil_of_validate hcfg
  have hlegible := (CpeAgent.worded_agentRun CpeAgent.worded_create ops).legible
  refine ⟨?_, ?_, ?_⟩
  · intro clock p s hs buflen line hline
    obtain ⟨hts, hlacks⟩ := lacks_samples_iff hs
    rw [carries_perfLine_iff hts hrid hline, hlacks]
  · intro snap hsnap scope remote pfx hremote hpfx buflen line hline
    exact carries_tcpLine_iff (legible_of_holdsSnapshot hlegible hsnap) hremote hpfx hrid hline
  · intro e he event hevent clock buflen line hline
    have hsafe : ∀ event ∈ ["new", "sample", "destroy"], Safe (ascii event) := by decide
    exact carries_flowLine_iff (legible_of_holdsFlow hlegible he) (hsafe event hevent) hline

/-- Statistics of a probe that has seen nothing yet. -/
def idleStats : NetdiagStats := ⟨0, 0, 0, 0⟩

/-- The sample of a demo ping with the default configuration. -/
theorem spooledLine_carries_default : ∃ line,
    cpePerfFormatNdjson cpeAgentConfigDefaults.routerId
      (demoPingSample cpeAgentConfigDefaults none idleStats) 768 = some line ∧
    Carries line "router_id" (ascii "cpe-lab-1") := by
  obtain ⟨line, hline⟩ : ∃ line, cpePerfFormatNdjson cpeAgentConfigDefaults.routerId
      (demoPingSample cpeAgentConfigDefaults none idleStats) 768 = some line :=
    Option.isSome_iff_exists.mp (by decide +kernel)
  have hascii : ∀ s : CStr, (∀ b ∈ s, b < 128) → ValidUtf8 s := fun s ↦ validUtf8_of_ascii
  refine ⟨line, hline, ?_⟩
  exact ((spooledLine_carries_iff cpeAgentConfigDefaults cpeAgentConfigValidate_defaults []).1 none
    (.demoPing idleStats) _ List.mem_cons_self 768 line hline).mpr
    ⟨by decide, hascii _ (by decide), embedsTarget_of_plain (by decide) (hascii _ (by decide))⟩

/-- The default configuration with a quote in the router id. -/
def quotedConfig : CpeAgentConfig := { cpeAgentConfigDefaults with routerId := ascii "a\"b" }

/-- A quote in an accepted router id breaks the line. -/
theorem spooledLine_broken_by_quote :
    cpeAgentConfigValidate quotedConfig = none ∧
      demoPingSample quotedConfig none idleStats
        ∈ (Probe.demoPing idleStats).samples quotedConfig none ∧
      ∃ line, cpePerfFormatNdjson quotedConfig.routerId
          (demoPingSample quotedConfig none idleStats) 768 = some line ∧
        ¬ Carries line "router_id" quotedConfig.routerId := by
  obtain ⟨line, hline⟩ : ∃ line, cpePerfFormatNdjson quotedConfig.routerId
      (demoPingSample quotedConfig none idleStats) 768 = some line :=
    Option.isSome_iff_exists.mp (by decide +kernel)
  refine ⟨by decide, List.mem_cons_self, line, hline, fun hcarries ↦ ?_⟩
  have hts : Safe (demoPingSample quotedConfig none idleStats).tsIso :=
    (safe_isoNow none).copyStr _
  have hplain := ((carries_perfLine_iff hts (by decide) hline).mp hcarries).1
  exact absurd hplain (by decide)

end NetForensics
