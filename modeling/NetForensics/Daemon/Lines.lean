import NetForensics.Agent.Lines
import NetForensics.Daemon.Schedule
import NetForensics.Egress.Gateway
import NetForensics.Flow.DestroyLine
import NetForensics.Ipc.Render

/-!
# What a daemon emits

The router id and the target of the demo probe are printed into lines as they are configured. While
they can stand between quotes (`CpeAgentConfig.Clear`), every line in the ring is one object on one
line, with a router id in it that was configured when it was printed, and so is everything that is
ever handed on. `CpeAgent.Tidy` is the invariant: besides the ring it speaks of the strings the
lines are made of.
-/

namespace NetForensics

open Json

/-! ## Rings of lines -/

namespace CpeAgent

/-- There is no ring to put lines into, or it stands for a queue of lines that satisfy `Q`. -/
def Stocked (Q : CStr → Prop) (a : CpeAgent) : Prop :=
  (¬ a.Spools ∧ a.spool.ring.cnt = 0) ∨ ∃ cap q, a.Represents cap q ∧ ∀ line ∈ q.items, Q line

variable {Q : CStr → Prop} {a b : CpeAgent}

theorem Stocked.congr (h : a.Stocked Q) (hspool : b.spool = a.spool) : b.Stocked Q := by
  rcases h with hnone | ⟨cap, q, hrep, hlines⟩
  · left
    rw [Spools, hspool]
    exact hnone
  · refine .inr ⟨cap, q, ⟨?_, ?_, ?_, ?_⟩, hlines⟩
    · exact hspool ▸ hrep.mem
    · exact hspool ▸ hrep.cap_eq
    · exact hspool ▸ hrep.holds
    · exact hspool ▸ hrep.drops_eq

theorem Stocked.lines (h : a.Stocked Q) : ∀ line ∈ a.spool.ring.contents, Q line := by
  rcases h with hnone | ⟨cap, q, hrep, hlines⟩
  · have hnil : a.spool.ring.contents = [] := List.length_eq_zero_iff.mp
      (a.spool.ring.length_contents.trans hnone.2)
    rw [hnil]
    exact List.forall_mem_nil _
  · rw [hrep.holds.contents_eq]
    exact hlines

/-- What one operation on the spool leaves, and what it hands on. -/
theorem Stocked.spoolStep (h : a.Stocked Q) {op : SpoolOp} (hop : ∀ l ∈ pushedLines [op], Q l) :
    (a.spoolStep op).1.Stocked Q ∧ ∀ l ∈ (a.spoolStep op).2, Q l := by
  rcases h with hnone | ⟨cap, q, hrep, hlines⟩
  · have hstay : a.spoolStep op = (a, []) := by
      cases op with
      | push line => rw [CpeAgent.spoolStep, spoolPushLine_of_not_spools hnone.1]
      | flush sink =>
        rw [CpeAgent.spoolStep, spoolFlush, hnone.2]
        dsimp only [flushLoop]
        split_ifs <;> rfl
      | post accepts => rw [CpeAgent.spoolStep, emitHttp, if_pos hnone.2]
    rw [hstay]
    exact ⟨.inl hnone, List.forall_mem_nil _⟩
  · obtain ⟨hnext, hout⟩ := hrep.step op
    refine ⟨.inr ⟨cap, _, hnext, fun l hl ↦ ?_⟩, ?_⟩
    · exact (mem_items_spoolSpec hl).elim (hlines l) (hop l)
    · rw [hout]
      cases op with
      | push line => exact List.forall_mem_nil _
      | flush sink => exact fun l hl ↦ hlines l (List.mem_of_mem_take hl)
      | post accepts =>
        rw [spoolSpec]
        split
        · exact fun l hl ↦ hlines l (List.mem_of_mem_take hl)
        · exact List.forall_mem_nil _

theorem Stocked.pushLine (h : a.Stocked Q) {line : CStr} (hlen : line.length ≤ 767) (hq : Q line) :
    (a.spoolPushLine line).1.Stocked Q := by
  have hkept : ∀ l ∈ pushedLines [.push line], Q l := by
    intro l hl
    obtain rfl : l = line.take 767 := List.mem_singleton.mp hl
    rwa [List.take_of_length_le hlen]
  exact (h.spoolStep hkept).1

/-- `cpe_agent_emit_flush` is one of the other two operations, or it fails before it does
anything. -/
theorem emitFlush_cases (a : CpeAgent) (env : EmitEnv) :
    ((a.emitFlush env).1 = a ∧ (a.emitFlush env).2.2 = []) ∨
      ∃ op, pushedLines [op] = [] ∧ (a.emitFlush env).1 = (a.spoolStep op).1 ∧
        (a.emitFlush env).2.2 = (a.spoolStep op).2 := by
  unfold emitFlush
  split
  · exact .inr ⟨.post env.post, rfl, rfl, rfl⟩
  · split
    · unfold emitFile
      split_ifs
      · exact .inl ⟨rfl, rfl⟩
      · exact .inl ⟨rfl, rfl⟩
      · refine .inr ⟨.flush env.sink, rfl, ?_⟩
        dsimp only
        split <;> exact ⟨rfl, rfl⟩
    · exact .inr ⟨.flush env.sink, rfl, rfl, rfl⟩

theorem Stocked.emitFlush (h : a.Stocked Q) (env : EmitEnv) :
    (a.emitFlush env).1.Stocked Q ∧ ∀ l ∈ (a.emitFlush env).2.2, Q l := by
  rcases a.emitFlush_cases env with ⟨hagent, hout⟩ | ⟨op, hop, hagent, hout⟩
  · rw [hagent, hout]
    exact ⟨h, List.forall_mem_nil _⟩
  · rw [hagent, hout]
    exact h.spoolStep (by rw [hop]; exact List.forall_mem_nil _)

/-- A configuration leaves the ring alone, replaces it by an empty one, or releases it. -/
theorem Stocked.applyConfig (h : a.Stocked Q) (cfg : CpeAgentConfig) (env : ApplyEnv) :
    (a.applyConfig cfg env).1.Stocked Q := by
  rcases a.applyConfig_cases cfg env with ⟨err, -, hres⟩ | ⟨-, -, -, bytes, hres⟩ |
    ⟨-, -, hres⟩ | ⟨-, -, -, cap, slots, hres⟩
  · rw [hres]
    exact h.congr (eqPush_spool _ _ _ _ _)
  · have hnone : a.freeSpool.Stocked Q := .inl ⟨fun hspools ↦ hspools.2 rfl, rfl⟩
    rw [hres]
    exact hnone.congr (by rw [eqPush_spool, eqPush_spool])
  · rw [hres, installConfig]
    exact h.congr (eqPush_spool _ _ _ _ _)
  · have hblank : Stocked Q
        { a with spool := ⟨true, Ring.blank [] cap, a.spool.drops⟩, slots := slots } := by
      rcases Nat.eq_zero_or_pos cap with rfl | hcap
      · exact .inl ⟨fun hspools ↦ hspools.2 rfl, rfl⟩
      · exact .inr ⟨cap, ⟨[], a.spool.drops⟩, ⟨rfl, rfl, Ring.holds_nil _ hcap, rfl⟩,
          List.forall_mem_nil _⟩
    rw [hres, installConfig]
    exact hblank.congr (eqPush_spool _ _ _ _ _)

end CpeAgent

/-! ## The lines -/

/-- A line that is kept as it is: one object on one line, with a router id of some kind in it. -/
structure Tagged (R : CStr → Prop) (line : CStr) : Prop where
  length_le : line.length ≤ 767
  carries : ∃ rid, R rid ∧ Carries line "router_id" rid

/-- What is printed as it is configured can stand between quotes. The target of the probe is printed
so only in demo mode; the other one has parsed it as an address. -/
structure CpeAgentConfig.Clear (c : CpeAgentConfig) : Prop where
  plain : Plain c.routerId
  utf8 : ValidUtf8 c.routerId
  demoTarget : c.demoMode = true → EmbedsTarget c.demoTarget

theorem length_lt_of_fitText {n : ℕ} {s line : CStr} (h : fitText n s = some line) :
    line.length < n := by
  obtain ⟨hlt, rfl⟩ := fitText_eq_some_iff.mp h
  exact hlt

namespace CpeAgent

/-- The ring holds tagged lines; the strings that the next ones are made of are in order. -/
structure Tidy (R : CStr → Prop) (a : CpeAgent) : Prop extends a.Worded where
  clear : a.cfg.Clear
  named : R a.cfg.routerId
  stocked : a.Stocked (Tagged R)

variable {R : CStr → Prop} {a b : CpeAgent}

theorem Worded.alike (h : a.Worded) (hab : a.Alike b) : b.Worded where
  cfg := hab.cfg ▸ h.cfg
  tcp := hab.snap ▸ h.tcp
  flow := by
    rw [CpeFlowState.Worded, hab.table]
    exact h.flow

theorem Tidy.alike (h : a.Tidy R) (hab : a.Alike b) (hstocked : b.Stocked (Tagged R)) :
    b.Tidy R where
  toWorded := h.toWorded.alike hab
  clear := hab.cfg ▸ h.clear
  named := hab.cfg ▸ h.named
  stocked := hstocked

theorem Tidy.congr (h : a.Tidy R) (hab : a.Alike b) (hspool : b.spool = a.spool) : b.Tidy R :=
  h.alike hab (h.stocked.congr hspool)

theorem Tidy.pushLine (h : a.Tidy R) {line : CStr} (hline : Tagged R line) :
    (a.spoolPushLine line).1.Tidy R :=
  h.alike (alike_spoolPushLine a line) (h.stocked.pushLine hline.length_le hline)

theorem Tidy.pushRows (h : a.Tidy R) {lines : List (Option CStr)}
    (hlines : ∀ line, some line ∈ lines → Tagged R line) : (a.pushRows lines).1.Tidy R := by
  rw [CpeAgent.pushRows]
  refine List.foldlRecOn lines _ (motive := fun res : CpeAgent × ℤ ↦ res.1.Tidy R) h ?_
  intro res hres line hmem
  cases line with
  | none => exact hres
  | some line => exact hres.pushLine (hlines line hmem)

section

variable (h : a.Tidy R)

include h

theorem Tidy.routerId_ne : a.cfg.routerId ≠ [] := routerId_ne_nil_of_validate h.cfg

theorem Tidy.tagged_flowLine {e : CpeFlowEntry} (he : a.HoldsFlow e) {event : String}
    (hevent : event ∈ ["new", "sample", "destroy"]) {clock : Option WallClock} {line : CStr}
    (hline : a.flowLine clock event e = some line) : Tagged R line where
  length_le := by
    rw [flowLine, cpeFlowFormatNdjson] at hline
    exact Nat.le_of_lt_succ (length_lt_of_fitText (Option.ite_none_left_eq_some.mp hline).2)
  carries := by
    have hsafe : ∀ event ∈ ["new", "sample", "destroy"], Safe (ascii event) := by decide
    exact ⟨_, h.named, (carries_flowLine_iff (legible_of_holdsFlow h.toWorded.legible he)
      (hsafe event hevent) hline).mpr ⟨h.clear.plain, h.clear.utf8⟩⟩

theorem Tidy.tagged_tcpLine {snap : CpeTcpSnapshot} (hsnap : a.HoldsSnapshot snap) {scope : CStr}
    {remote : Option CpeTcpRemote} (hremote : ∀ r ∈ remote, r ∈ snap.remotes)
    {pfx : Option CpeTcpPrefix} (hpfx : ∀ x ∈ pfx, x ∈ snap.prefixes) {line : CStr}
    (hline : cpeTcpFormatNdjson a.cfg.routerId scope snap remote pfx cpeTcpNdjsonMax = some line) :
    Tagged R line where
  length_le := by
    rw [cpeTcpFormatNdjson] at hline
    have hlt := length_lt_of_fitText (Option.ite_none_left_eq_some.mp hline).2
    rw [cpeTcpNdjsonMax] at hlt
    omega
  carries := ⟨_, h.named, (carries_tcpLine_iff (legible_of_holdsSnapshot h.toWorded.legible hsnap)
    hremote hpfx h.routerId_ne hline).mpr ⟨h.clear.plain, h.clear.utf8⟩⟩

theorem Tidy.tagged_perfLine {clock : Option WallClock} {p : Probe} {x : CpePerfSample}
    (hx : x ∈ p.samples a.cfg clock) (hp : p.Embeds a.cfg) {line : CStr}
    (hline : cpePerfFormatNdjson a.cfg.routerId x cpeNdjsonLineMax = some line) :
    Tagged R line where
  length_le := by
    rw [cpePerfFormatNdjson] at hline
    exact Nat.le_of_lt_succ (length_lt_of_fitText (Option.ite_none_left_eq_some.mp hline).2)
  carries := by
    obtain ⟨hts, hlacks⟩ := lacks_samples_iff hx
    exact ⟨_, h.named, (carries_perfLine_iff hts h.routerId_ne hline).mpr
      ⟨h.clear.plain, h.clear.utf8, hlacks.mpr hp⟩⟩

end

/-! ## The flow table -/

/-- What an event does to the ring: nothing, or it puts one line there. -/
theorem applyEvent_spool_cases (a : CpeAgent) (x : FlowInput) :
    (a.applyEvent x).1.spool = a.spool ∨
      ∃ e event line, a.HoldsFlow e ∧ event ∈ ["new", "sample", "destroy"] ∧
        a.flowLine x.clock event e = some line ∧
        (a.applyEvent x).1.spool = (a.spoolPushLine line).1.spool := by
  cases htarget : a.flow.target x.ev x.nowMs with
  | none =>
    left
    rw [applyEvent_of_target_none htarget]
    split
    · rfl
    · exact a.warnNoAcct_spool x.ev
  | some i =>
    have hstore := a.retabled_stored i x
    have hspool : ((a.warnNoAcct x.ev).storeInSlot i x).spool = a.spool := a.warnNoAcct_spool x.ev
    have hcfg : ((a.warnNoAcct x.ev).storeInSlot i x).cfg = a.cfg := a.warnNoAcct_cfg x.ev
    rw [applyEvent_of_target htarget]
    generalize (a.warnNoAcct x.ev).storeInSlot i x = b at hstore hspool hcfg ⊢
    have hslot : b.flow.table i = storeEvent (a.flow.table i) x.ev x.nowMs := by
      rw [hstore.table_eq, Function.update_self]
    split
    · -- a teardown: the slot is printed as it is marked
      have hprint := emitDestroyLine_spool (a := a) (b := b.setSlot i (b.flow.table i).destroyed)
        hspool hcfg x.clock (b.flow.table i).destroyed
      rw [teardown, releaseSlot_spool, setSlot_table_self]
      cases hline : a.flowLine x.clock "destroy" (b.flow.table i).destroyed with
      | none =>
        rw [hline] at hprint
        exact .inl hprint
      | some line =>
        rw [hline] at hprint
        exact .inr ⟨_, "destroy", line, ⟨i, .inr ⟨x.ev, x.nowMs, .inr (by rw [hslot])⟩⟩,
          by decide, hline, hprint⟩
    · split
      · have hsame : b.flowLine x.clock "new" (b.flow.table i)
            = a.flowLine x.clock "new" (b.flow.table i) := by rw [flowLine, flowLine, hcfg]
        rw [emitNewLine, hsame]
        cases hline : a.flowLine x.clock "new" (b.flow.table i) with
        | none => exact .inl hspool
        | some line =>
          exact .inr ⟨_, "new", line, ⟨i, .inr ⟨x.ev, x.nowMs, .inl hslot⟩⟩, by decide, hline,
            spoolPushLine_spool_congr hspool line⟩
      · exact .inl hspool

theorem Tidy.applyEvent (h : a.Tidy R) (x : FlowInput) : (a.applyEvent x).1.Tidy R where
  toWorded := h.toWorded.agentStep (.flow x)
  clear := (keepsRest_applyEvent a x).1 ▸ h.clear
  named := (keepsRest_applyEvent a x).1 ▸ h.named
  stocked := by
    rcases a.applyEvent_spool_cases x with hsame | ⟨e, event, line, he, hevent, hline, hpush⟩
    · exact h.stocked.congr hsame
    · exact (h.pushLine (h.tagged_flowLine he hevent hline)).stocked.congr hpush

theorem Tidy.emitSample (h : a.Tidy R) (clock : Option WallClock) {i : FlowSlot}
    (hused : (a.flow.table i).used = true) : (a.emitSample clock i).1.Tidy R := by
  unfold CpeAgent.emitSample
  split
  · exact h
  · rename_i line hline
    have hpush := h.pushLine (h.tagged_flowLine ⟨i, .inl ⟨hused, rfl⟩⟩ (by decide) hline)
    dsimp only
    split
    · exact hpush.congr ⟨rfl, rfl, rfl⟩ rfl
    · exact hpush

theorem Tidy.emitTopSamples (h : a.Tidy R) (now : UInt64) (clock : FlowSlot → Option WallClock) :
    (a.emitTopSamples now clock).1.Tidy R := by
  unfold CpeAgent.emitTopSamples
  split
  · have hstart : Tidy R { a with flow := { a.flow with lastSampleMs := now } } :=
      h.congr ⟨rfl, rfl, rfl⟩ rfl
    refine (List.foldlRecOn a.flow.sampleSlots _ (motive := fun res : CpeAgent × ℤ ↦
      res.1.Tidy R ∧ res.1.flow.table = a.flow.table) ⟨hstart, rfl⟩ ?_).1
    intro res hres i hi
    have hused := (CpeFlowState.alive_of_mem_sampleSlots hi).1
    rw [← hres.2] at hused
    exact ⟨hres.1.emitSample (clock i) hused,
      (alike_emitSample res.1 (clock i) i).table.trans hres.2⟩
  · exact h

theorem Tidy.setFlow (h : a.Tidy R) {st : CpeFlowState} (hst : st.table = a.flow.table) :
    Tidy R { a with flow := st } :=
  h.congr ⟨rfl, rfl, hst⟩ rfl

theorem Tidy.drainFd (h : a.Tidy R) (events : Option (List FlowInput)) :
    (a.drainFd events).1.Tidy R := by
  cases events with
  | none => exact h
  | some xs =>
    rw [CpeAgent.drainFd]
    refine foldl_invariant (P := fun res : CpeAgent × ℤ ↦ res.1.Tidy R) ?_ h xs
    exact fun res x hres ↦ hres.applyEvent x

theorem Tidy.flowPoll (h : a.Tidy R) (env : FlowTickEnv) : (a.flowPoll env).1.Tidy R := by
  have hopen := h.setFlow (flowOpen_table a.flow env.nfctOpen env.nfctOpenDump)
  unfold CpeAgent.flowPoll
  split
  · exact h
  · split
    · dsimp only
      split
      · exact hopen
      · exact hopen.drainFd _
    · exact h.drainFd _

theorem Tidy.maybeDump (h : a.Tidy R) (env : FlowTickEnv) : (a.maybeDump env).1.Tidy R := by
  have hmark : Tidy R { a with flow := { a.flow with
      lastDumpMs := env.now, dumps := a.flow.dumps + 1 } } := h.setFlow rfl
  unfold CpeAgent.maybeDump
  split_ifs
  · exact h
  · exact h
  · exact h
  · exact h
  · exact hmark.drainFd _

theorem Tidy.flowPass (h : a.Tidy R) (env : FlowTickEnv) : (a.flowPass env).1.Tidy R := by
  have hstart : Tidy R { a with flow := { a.flow with lastTickMs := env.now } } := h.setFlow rfl
  exact ((hstart.flowPoll env).maybeDump env).emitTopSamples env.now env.clock

theorem Tidy.flowTick (h : a.Tidy R) (env : FlowTickEnv) : (a.flowTick env).1.Tidy R := by
  have hopen := h.setFlow (flowOpen_table a.flow env.nfctOpen env.nfctOpenDump)
  unfold CpeAgent.flowTick
  split
  · exact h.flowPass env
  · split
    · dsimp only
      split
      · exact hopen
      · exact hopen.flowPass env
    · exact h

/-! ## The TCP collector -/

theorem Tidy.setTcp (h : a.Tidy R) {st : CpeTcpState} (hst : st.snap.Worded) :
    Tidy R { a with tcp := st } :=
  ⟨⟨h.cfg, hst, h.flow⟩, h.clear, h.named, h.stocked.congr rfl⟩

theorem Tidy.tcpPoll (h : a.Tidy R) (maxMsgs : UInt32) (env : TcpPollEnv) :
    (a.tcpPoll maxMsgs env).1.Tidy R := by
  obtain ⟨st, heq, hst⟩ := stable_tcpPoll tcpStable_worded h.tcp maxMsgs env
  rw [heq]
  exact h.setTcp hst

theorem Tidy.tcpEmit (h : a.Tidy R) (topN : UInt32) (clock : Option WallClock) (nowMs : UInt64) :
    (a.tcpEmit topN clock nowMs).1.Tidy R := by
  have hstamp : Tidy R { a with tcp := { a.tcp with
      snap := { a.tcp.snap with tsIso := copyStr 40 (isoNow clock) } } } :=
    h.setTcp (tcpStable_worded.stamp clock h.tcp)
  unfold CpeAgent.tcpEmit
  dsimp only
  split
  · exact hstamp
  · -- all lines are printed of the snapshot as it is before the first of them is pushed
    rename_i summary hsummary
    have hfirst := hstamp.tagged_tcpLine (.inl rfl) (by simp) (by simp) hsummary
    have hremotes : ∀ n line, some line ∈ ((a.tcp.snap.remotes.mergeSort fun r s ↦
        decide (s.pktCount ≤ r.pktCount)).take n).map (fun r ↦ cpeTcpFormatNdjson a.cfg.routerId
          (ascii "remote") { a.tcp.snap with tsIso := copyStr 40 (isoNow clock) } (some r) none
          cpeTcpNdjsonMax) → Tagged R line := by
      intro n line hmem
      obtain ⟨r, hr, hline⟩ := List.mem_map.mp hmem
      have hrow : r ∈ a.tcp.snap.remotes := List.mem_mergeSort.mp (List.mem_of_mem_take hr)
      exact hstamp.tagged_tcpLine (.inl rfl) (by simpa using hrow) (by simp) hline
    have hprefixes : ∀ n line, some line ∈ ((a.tcp.snap.prefixes.mergeSort fun x y ↦
        decide (y.pktCount ≤ x.pktCount)).take n).map (fun x ↦ cpeTcpFormatNdjson a.cfg.routerId
          (ascii "prefix") { a.tcp.snap with tsIso := copyStr 40 (isoNow clock) } none (some x)
          cpeTcpNdjsonMax) → Tagged R line := by
      intro n line hmem
      obtain ⟨x, hx, hline⟩ := List.mem_map.mp hmem
      have hrow : x ∈ a.tcp.snap.prefixes := List.mem_mergeSort.mp (List.mem_of_mem_take hx)
      exact hstamp.tagged_tcpLine (.inl rfl) (by simp) (by simpa using hrow) hline
    have hsummary : ∀ line, some line ∈ [some summary] → Tagged R line := by simpa using hfirst
    exact (((hstamp.pushRows hsummary).pushRows (hremotes _)).pushRows (hprefixes _)).congr
      ⟨rfl, rfl, rfl⟩ rfl

end CpeAgent

/-! ## The operations -/

/-- A configuration that can be found says nothing that cannot stand between quotes. -/
def DaemonOp.Clear : DaemonOp → Prop
  | .reload file _ => ∀ cfg ∈ file, cfg.Clear
  | .drain | .sample _ | .tcp .. | .flow _ | .request .. | .flush _ => True

/-- The router id that is given on the command line can stand between quotes. -/
def CpeAgentRunOpts.Clear (opts : CpeAgentRunOpts) : Prop :=
  opts.routerIdOverride ≠ [] → Plain opts.routerIdOverride ∧ ValidUtf8 opts.routerIdOverride

theorem clear_settle {opts : CpeAgentRunOpts} (hopts : opts.Clear) {cfg : CpeAgentConfig}
    (hcfg : cfg.Clear) {file : Option CpeAgentConfig} (hfile : ∀ found ∈ file, found.Clear)
    (rc : ℤ) : (opts.settle cfg (.reload (opts.found file) rc)).Clear := by
  have hfound : ∀ base : CpeAgentConfig, base.Clear →
      (if opts.routerIdOverride = [] then base
        else { base with routerId := opts.routerIdOverride }).Clear := by
    intro base hbase
    split
    · exact hbase
    · rename_i hne
      exact ⟨(hopts hne).1, (hopts hne).2, hbase.demoTarget⟩
  have hwanted : (opts.wanted cfg (opts.found file)).Clear := by
    unfold CpeAgentRunOpts.wanted CpeAgentRunOpts.found
    refine hfound _ ?_
    split_ifs
    · cases file with
      | none => exact hcfg
      | some found => exact hfile found rfl
    · exact hcfg
  rw [CpeAgentRunOpts.settle]
  split
  · exact hcfg
  · exact { hwanted with }

namespace CpeAgent

variable {R : CStr → Prop} {a : CpeAgent}

theorem Tidy.emitFlush (h : a.Tidy R) (env : EmitEnv) : (a.emitFlush env).1.Tidy R :=
  h.alike (alike_emitFlush a env) (h.stocked.emitFlush env).1

theorem alike_drainEvents (a : CpeAgent) (n : ℕ) : a.Alike (a.drainEvents n) := by
  induction n generalizing a with
  | zero => exact ⟨rfl, rfl, rfl⟩
  | succ n ih =>
    have hnext : a.Alike a.nextEvent.1 := by
      rw [nextEvent]
      split <;> exact ⟨rfl, rfl, rfl⟩
    exact hnext.trans (ih a.nextEvent.1)

theorem Tidy.drainEvents (h : a.Tidy R) (n : ℕ) : (a.drainEvents n).Tidy R :=
  h.congr (alike_drainEvents a n) (drainEvents_eq a n).1

theorem Tidy.eqPush (h : a.Tidy R) (t : CpeAgentEventType) (r : CStr) (n k : ℕ) :
    (a.eqPush t r n k).Tidy R :=
  h.congr ⟨eqPush_cfg _ _ _ _ _, by rw [eqPush_tcp], by rw [eqPush_flow]⟩ (eqPush_spool _ _ _ _ _)

theorem Tidy.tcpTick (h : a.Tidy R) (env : TcpPollEnv) (clock : Option WallClock)
    (now emitNow : UInt64) : (a.tcpTick env clock now emitNow).1.Tidy R := by
  rw [CpeAgent.tcpTick]
  split
  · exact h
  · have hset : Tidy R { a with tcp := tcpTickSettings a.cfg a.tcp } :=
      h.setTcp (tcpStable_worded.numbers h.tcp rfl rfl rfl)
    dsimp only
    split
    · exact (hset.tcpPoll 128 env).tcpEmit _ clock emitNow
    · exact hset.tcpPoll 128 env

theorem Tidy.reloadConfig (h : a.Tidy R) {opts : CpeAgentRunOpts} (hopts : opts.Clear)
    {file : Option CpeAgentConfig} (hfile : ∀ found ∈ file, found.Clear) (env : ApplyEnv)
    (hnamed : R (a.reloadConfig (opts.found file) opts.routerIdOverride env).1.cfg.routerId) :
    (a.reloadConfig (opts.found file) opts.routerIdOverride env).1.Tidy R where
  toWorded := by
    rw [CpeAgent.reloadConfig]
    split
    · exact h.toWorded
    · exact h.toWorded.agentStep (.configure _ env)
  clear := by
    rw [a.reloadConfig_settle opts]
    exact clear_settle hopts h.clear hfile _
  named := hnamed
  stocked := by
    rw [CpeAgent.reloadConfig]
    split
    · exact h.stocked
    · exact h.stocked.applyConfig _ env

end CpeAgent

namespace IpcState

variable {R : CStr → Prop} {s : IpcState}

theorem tidy_spoolSample (h : s.agent.Tidy R) {clock : Option WallClock} {p : Probe}
    {x : CpePerfSample} (hx : x ∈ p.samples s.agent.cfg clock) (hp : p.Embeds s.agent.cfg) :
    (s.spoolSample x).1.agent.Tidy R := by
  rw [spoolSample]
  split
  · exact h
  · rename_i line hline
    exact h.pushLine (h.tagged_perfLine hx hp hline)

theorem tidy_sampleTick (h : s.agent.Tidy R) (env : SampleEnv) :
    (s.sampleTick env).1.agent.Tidy R := by
  rw [sampleTick]
  split
  · rename_i hdemo
    rw [demoPingTick]
    split
    · exact h
    · rename_i st _
      have hmem : demoPingSample s.agent.cfg env.clock st
          ∈ (Probe.demoPing st).samples s.agent.cfg env.clock := List.mem_cons_self
      have hspooled := tidy_spoolSample (s := { s with last := some (demoPingSample s.agent.cfg
        env.clock st) }) h hmem (h.clear.demoTarget hdemo)
      dsimp only
      split
      · exact hspooled
      · exact hspooled.eqPush _ _ _ _
  · rw [livePingTick]
    split_ifs with hnil haddr
    · exact h
    · exact h
    · split
      · exact h
      · rename_i rtt isRaw _
        have hpushed := h.eqPush .sampleReady (ascii "sample") 0 0
        have hcfg := s.agent.eqPush_cfg .sampleReady (ascii "sample") 0 0
        have hmem : livePingSample s.agent.cfg env.clock rtt isRaw
            ∈ (Probe.livePing rtt isRaw).samples
              (s.agent.eqPush .sampleReady (ascii "sample") 0 0).cfg env.clock := by
          rw [Probe.samples, hcfg, if_neg haddr]
          exact List.mem_cons_self
        exact tidy_spoolSample hpushed hmem trivial

theorem tidy_serve (h : s.agent.Tidy R) (env : IpcEnv) (req : CStr) (verb : IpcVerb) :
    (s.serve env req verb).1.agent.Tidy R := by
  cases verb with
  | emit => exact h.emitFlush env.emit
  | tcpPoll => exact h.tcpPoll _ env.tcp
  | flowTick | flowStats | flowList => exact h.flowTick env.flow
  | tcpEmit => exact h.tcpEmit _ _ _
  | tcpReset => exact h.setTcp (tcpStable_worded.reset _ env.clock)
  | lastSample =>
    rw [serve]
    split <;> exact h
  | ping | help | status | config | latency | spool | tcpStats | tcpByIp | tcpByPrefix => exact h

theorem tidy_handleRequest (h : s.agent.Tidy R) (env : IpcEnv) (req : CStr) :
    (s.handleRequest env req).1.agent.Tidy R := by
  rw [handleRequest]
  dsimp only
  unfold answer
  split
  · exact h
  · split
    · exact h
    · exact tidy_serve h env req _

theorem tidy_daemonStep (h : s.agent.Tidy R) {opts : CpeAgentRunOpts} (hopts : opts.Clear)
    {op : DaemonOp} (hop : op.Clear) (hnamed : R (s.daemonStep opts op).1.agent.cfg.routerId) :
    (s.daemonStep opts op).1.agent.Tidy R ∧ ∀ line ∈ (s.daemonStep opts op).2, Tagged R line := by
  cases op with
  | reload file env => exact ⟨h.reloadConfig hopts hop env hnamed, List.forall_mem_nil _⟩
  | drain => exact ⟨h.drainEvents _, List.forall_mem_nil _⟩
  | sample env => exact ⟨tidy_sampleTick h env, List.forall_mem_nil _⟩
  | tcp env clock now emitNow => exact ⟨h.tcpTick env clock now emitNow, List.forall_mem_nil _⟩
  | flow env => exact ⟨h.flowTick env, List.forall_mem_nil _⟩
  | request env req =>
    refine ⟨tidy_handleRequest h env req, ?_⟩
    rw [daemonStep, requestHands]
    split
    · exact (h.stocked.emitFlush env.emit).2
    · exact List.forall_mem_nil _
  | flush env => exact ⟨h.emitFlush env, (h.stocked.emitFlush env).2⟩

theorem tidy_daemonRun (h : s.agent.Tidy R) (opts : CpeAgentRunOpts) (hopts : opts.Clear)
    (ops : List DaemonOp) (hops : ∀ op ∈ ops, op.Clear)
    (hnamed : ∀ ops', ops' <+: ops → R (s.daemonRun opts ops').1.agent.cfg.routerId) :
    (s.daemonRun opts ops).1.agent.Tidy R ∧ ∀ line ∈ (s.daemonRun opts ops).2, Tagged R line := by
  induction ops using List.reverseRecOn with
  | nil => exact ⟨h, List.forall_mem_nil _⟩
  | append_singleton ops op ih =>
    obtain ⟨htidy, hlines⟩ := ih (fun o ho ↦ hops o (List.mem_append_left _ ho))
      fun ops' hops' ↦ hnamed ops' (hops'.trans (List.prefix_append ops [op]))
    have hlast := hnamed (ops ++ [op]) (List.prefix_refl _)
    rw [daemonRun_concat] at hlast ⊢
    obtain ⟨hnext, hhanded⟩ := tidy_daemonStep htidy hopts
      (hops op (List.mem_append_right _ (List.mem_singleton_self op))) hlast
    exact ⟨hnext, fun line hl ↦ (List.mem_append.mp hl).elim (hlines line) (hhanded line)⟩

end IpcState

/-! ## The loops -/

/-- At every point of the run, all lines in the ring and all that were handed on are objects, each
with a router id in it that was in force at that point or before. -/
def IpcState.EmitsObjects (opts : CpeAgentRunOpts) (s : IpcState) (ops : List DaemonOp) : Prop :=
  ∀ ops', ops' <+: ops → ∀ line ∈ (s.daemonRun opts ops').1.agent.spool.ring.contents ++
      (s.daemonRun opts ops').2,
    ∃ ops'', ops'' <+: ops' ∧
      Carries line "router_id" (s.daemonRun opts ops'').1.agent.cfg.routerId

theorem CpeAgent.stocked_create (Q : CStr → Prop) : create.Stocked Q :=
  .inr ⟨256, ⟨[], 0⟩, ⟨rfl, rfl, Ring.holds_nil _ (by decide), rfl⟩, List.forall_mem_nil _⟩

theorem tidy_cpeAgentMain {opts : CpeAgentRunOpts} {forceDemo : Bool} {file : Option CpeAgentConfig}
    {load force : ApplyEnv} {host : IpcState} {R : CStr → Prop}
    (h : cpeAgentMain opts forceDemo file load force = some host) (hclear : host.agent.cfg.Clear)
    (hnamed : R host.agent.cfg.routerId) : host.agent.Tidy R := by
  -- both hold of a new agent, and configurations keep them
  have hkept : host.agent.Worded ∧ host.agent.Stocked (Tagged R) := by
    have happly : ∀ (a : CpeAgent) (cfg : CpeAgentConfig) (env : ApplyEnv),
        a.Worded ∧ a.Stocked (Tagged R) →
          (a.applyConfig cfg env).1.Worded ∧ (a.applyConfig cfg env).1.Stocked (Tagged R) :=
      fun a cfg env ha ↦ ⟨ha.1.agentStep (.configure cfg env), ha.2.applyConfig cfg env⟩
    have hdrain : ∀ a : CpeAgent, a.Worded ∧ a.Stocked (Tagged R) →
        (LoopState.drained ⟨a, none⟩).agent.Worded ∧
          (LoopState.drained ⟨a, none⟩).agent.Stocked (Tagged R) :=
      fun a ha ↦ ⟨ha.1.alike (CpeAgent.alike_drainEvents a _),
        ha.2.congr (CpeAgent.drainEvents_eq a _).1⟩
    have hload : ∀ file, (CpeAgent.create.reloadConfig file opts.routerIdOverride load).1.Worded ∧
        (CpeAgent.create.reloadConfig file opts.routerIdOverride load).1.Stocked (Tagged R) := by
      intro file
      rw [CpeAgent.reloadConfig]
      split
      · exact ⟨CpeAgent.worded_create, CpeAgent.stocked_create _⟩
      · exact happly _ _ _ ⟨CpeAgent.worded_create, CpeAgent.stocked_create _⟩
    have hloaded := hload (opts.found file)
    unfold cpeAgentMain at h
    generalize CpeAgent.create.reloadConfig (opts.found file) opts.routerIdOverride load = res
      at hloaded h
    obtain ⟨-, h⟩ := Option.ite_none_left_eq_some.mp h
    split at h
    · obtain ⟨-, h⟩ := Option.ite_none_left_eq_some.mp h
      exact Option.some_inj.mp h ▸ hdrain _ (happly _ _ _ hloaded)
    · exact Option.some_inj.mp h ▸ hdrain _ hloaded
  exact ⟨hkept.1, hclear, hnamed, hkept.2⟩

namespace LoopState

theorem clear_requests (reqs : List (IpcEnv × CStr)) :
    ∀ op ∈ reqs.map fun r ↦ DaemonOp.request r.1 r.2, op.Clear := by
  intro op hop
  obtain ⟨r, -, rfl⟩ := List.mem_map.mp hop
  exact trivial

theorem clear_turnOps {env : LoopEnv} (henv : ∀ cfg ∈ env.file, cfg.Clear) (serves : Bool)
    (s : LoopState) (t : TurnPc) : ∀ op ∈ s.turnOps serves env t, op.Clear := by
  have hnil : ∀ op ∈ ([] : List DaemonOp), op.Clear := List.forall_mem_nil _
  have hflush : ∀ op ∈ [DaemonOp.flush env.emit], op.Clear :=
    List.forall_mem_singleton.mpr trivial
  cases t with
  | check | take => exact hnil
  | reload => exact List.forall_mem_cons.mpr ⟨henv, List.forall_mem_singleton.mpr trivial⟩
  | sample =>
    refine List.forall_mem_cons.mpr ⟨trivial, ?_⟩
    split
    · exact hflush
    · exact hnil
  | tcp =>
    rw [turnOps]
    split
    · refine List.forall_mem_cons.mpr ⟨trivial, ?_⟩
      split
      · exact hflush
      · exact hnil
    · exact hnil
  | poll =>
    rw [turnOps]
    split
    · exact clear_requests env.requests
    · exact hnil
  | drain => exact List.forall_mem_singleton.mpr trivial

theorem clear_sliceOps (env : LoopEnv) (s : LoopState) : ∀ op ∈ s.sliceOps env, op.Clear := by
  rw [sliceOps]
  refine List.forall_mem_append.mpr ⟨clear_requests env.requests, ?_⟩
  split
  · refine List.forall_mem_cons.mpr ⟨trivial, ?_⟩
    split
    · exact List.forall_mem_singleton.mpr trivial
    · exact List.forall_mem_nil _
  · exact List.forall_mem_nil _

end LoopState

/-- Whatever a daemon does that finds nothing but clear configurations: all it has in its ring and
all it hands on, to whatever transport and at whatever moment, are objects with its router id. -/
theorem loops_emit_objects {opts : CpeAgentRunOpts} {forceDemo : Bool}
    {file : Option CpeAgentConfig} {load force : ApplyEnv} {host : IpcState}
    (h : cpeAgentMain opts forceDemo file load force = some host)
    (hclear : host.agent.cfg.Clear) :
    (∀ inputs : List PollInput, (∀ env, .step env ∈ inputs → ∀ cfg ∈ env.file, cfg.Clear) →
      (PollLoop.run opts host inputs).1.host
          = (host.daemonRun opts (PollLoop.ops opts host inputs)).1 ∧
        host.EmitsObjects opts (PollLoop.ops opts host inputs)) ∧
    ∀ inputs : List UvInput, (∀ env, .step env ∈ inputs → ∀ cfg ∈ env.file, cfg.Clear) →
      (UvLoop.run opts host inputs).1.host
          = (host.daemonRun opts (UvLoop.ops opts host inputs)).1 ∧
        host.EmitsObjects opts (UvLoop.ops opts host inputs) := by
  have hopts : opts.Clear := by
    intro hne
    have hrid := (fits_cpeAgentMain h).routerId hne
    exact hrid ▸ ⟨hclear.plain, hclear.utf8⟩
  have hemits : ∀ ops : List DaemonOp, (∀ op ∈ ops, op.Clear) → host.EmitsObjects opts ops := by
    intro ops hops ops' hops' line hline
    have htidy := IpcState.tidy_daemonRun (R := fun rid ↦ ∃ ops'', ops'' <+: ops' ∧
      (host.daemonRun opts ops'').1.agent.cfg.routerId = rid)
      (tidy_cpeAgentMain h hclear ⟨[], List.nil_prefix, rfl⟩) opts hopts ops'
      (fun op hop ↦ hops op (hops'.subset hop)) fun ops'' hops'' ↦ ⟨ops'', hops'', rfl⟩
    have htagged : Tagged _ line := (List.mem_append.mp hline).elim (htidy.1.stocked.lines line)
      (htidy.2 line)
    obtain ⟨-, rid, ⟨ops'', hops'', rfl⟩, hcarries⟩ := htagged
    exact ⟨ops'', hops'', hcarries⟩
  refine ⟨fun inputs hfiles ↦ ⟨PollLoop.run_host opts host inputs, hemits _ ?_⟩,
    fun inputs hfiles ↦ ⟨UvLoop.run_host opts host inputs, hemits _ ?_⟩⟩
  · refine forall_mem_schedule (fun s i hi ↦ ?_) _
    cases i with
    | hup | stop => exact List.forall_mem_nil _
    | step env =>
      rw [PollLoop.stepOps]
      split
      · exact LoopState.clear_turnOps (hfiles env hi) true _ _
      · exact LoopState.clear_sliceOps env _
      all_goals exact List.forall_mem_nil _
  · refine forall_mem_schedule (fun s i hi ↦ ?_) _
    cases i with
    | hup | stop | onTimer | onIpcTimer | iterated => exact List.forall_mem_nil _
    | step env =>
      rw [UvLoop.stepOps]
      split
      · exact LoopState.clear_turnOps (hfiles env hi) false _ _
      · exact LoopState.clear_sliceOps env _
      all_goals exact List.forall_mem_nil _

/-- Nothing but a sample, and a stream that cannot be written to. -/
def sampledEnv : LoopEnv where
  file := none
  apply := bareApply
  sample := ⟨some idleStats, none, none⟩
  emit := ⟨fun _ ↦ false, false, ⟨fun _ ↦ false, false, false⟩⟩
  tcp := ⟨.error [], []⟩
  flow := ⟨.error [], .error [], 0, none, false, none, fun _ ↦ none⟩
  clock := none
  now := 0
  emitNow := 0
  requests := []

def sampledInputs : List PollInput := List.replicate 4 (.step sampledEnv)

theorem loops_emit_objects_named : ∃ host line,
    cpeAgentMain namedOpts true none bareApply bareApply = some host ∧
      (PollLoop.run namedOpts host sampledInputs).1.host.agent.spool.ring.contents = [line] ∧
      ∃ rid, Carries line "router_id" rid := by
  obtain ⟨host, hhost⟩ := Option.isSome_iff_exists.mp
    (by decide : (cpeAgentMain namedOpts true none bareApply bareApply).isSome = true)
  have hcount : (cpeAgentMain namedOpts true none bareApply bareApply).map (fun host ↦
      (PollLoop.run namedOpts host sampledInputs).1.host.agent.spool.ring.cnt) = some 1 := by
    decide +kernel
  have htexts : (cpeAgentMain namedOpts true none bareApply bareApply).map (fun host ↦
      (host.agent.cfg.routerId, host.agent.cfg.demoTarget))
        = some (ascii "cpe-7", ascii "1.1.1.1") := by decide +kernel
  rw [hhost, Option.map_some, Option.some_inj] at hcount htexts
  obtain ⟨hrid, htarget⟩ : host.agent.cfg.routerId = ascii "cpe-7" ∧
      host.agent.cfg.demoTarget = ascii "1.1.1.1" := Prod.ext_iff.mp htexts
  have hascii : ∀ s : CStr, (∀ b ∈ s, b < 128) → ValidUtf8 s := fun s ↦ validUtf8_of_ascii
  have hclear : host.agent.cfg.Clear := by
    refine ⟨?_, ?_, fun _ ↦ ?_⟩
    · exact hrid ▸ (by decide : Plain (ascii "cpe-7"))
    · exact hrid ▸ hascii (ascii "cpe-7") (by decide)
    · exact htarget ▸ embedsTarget_of_plain (by decide) (hascii _ (by decide))
  have hemits := (loops_emit_objects hhost hclear).1 sampledInputs fun env henv ↦ by
    obtain rfl : env = sampledEnv := PollInput.step.inj (List.eq_of_mem_replicate henv)
    exact fun _ hcfg ↦ absurd hcfg (by simp [sampledEnv])
  obtain ⟨line, hline⟩ := List.length_eq_one_iff.mp
    ((Ring.length_contents _).trans hcount)
  obtain ⟨ops'', -, hcarries⟩ := hemits.2 _ (List.prefix_refl _) line
    (List.mem_append_left _ (by rw [← hemits.1, hline]; exact List.mem_singleton_self line))
  exact ⟨host, line, hhost, hline, _, hcarries⟩

end NetForensics
