import NetForensics.Agent.Lines
import NetForensics.Ipc.Lists
import NetForensics.Tcp.GroupBy
import NetForensics.Util.Top

/-!
# Top talkers

`cpe_agent_tcp_emit` spools a line with the totals and one for each of the remotes and prefixes with
the most packets. Whatever the run, every line fits its buffer, so that no row is skipped. But the
limit is cut to the number of remotes before the prefixes are counted, and there can be more
prefixes than remotes: after a change of the prefix length an address belongs to two.
-/

namespace NetForensics

open Json

/-! ## Lines that fit -/

theorem length_decimal_uint64 (n : UInt64) : (decimal n.toNat).length ≤ 20 :=
  length_decimal_le (by decide) (n.toNat_lt.trans (by decide))

theorem length_decimal_uint16 (n : UInt16) : (decimal n.toNat).length ≤ 5 :=
  length_decimal_le (by decide) (n.toNat_lt.trans (by decide))

theorem lossHint_le_one (c : TcpCounters) : c.lossHint ≤ 1 := by
  rw [TcpCounters.lossHint, cpeTcpLossHint]
  split
  · exact zero_le_one
  · exact min_le_left _ _

theorem length_fixed_le {q : ℚ} {n d k : ℕ} (h : q ≤ n) (hn : n < 10 ^ d) (hd : 0 < d)
    (hk : 0 < k) : (fixed k q).length ≤ d + 1 + k := by
  have hround : roundHalfEven (q * 10 ^ k) ≤ n * 10 ^ k := by
    refine roundHalfEven_le ?_
    push_cast
    exact mul_le_mul_of_nonneg_right h (by positivity)
  have hwhole : (decimal (roundHalfEven (q * 10 ^ k) / 10 ^ k)).length ≤ d :=
    length_decimal_le hd ((Nat.div_le_of_le_mul (hround.trans_eq (mul_comm _ _))).trans_lt hn)
  have hpart : (decimal (roundHalfEven (q * 10 ^ k) % 10 ^ k)).length ≤ k :=
    length_decimal_le hk (Nat.mod_lt _ (by positivity))
  rw [fixed, List.length_append, List.length_cons, zeroPad, List.length_append,
    List.length_replicate]
  omega

/-- A hint has one digit before the point and four behind it. -/
theorem length_fixed_lossHint (c : TcpCounters) : (fixed 4 c.lossHint).length ≤ 6 := by
  have hone : c.lossHint ≤ (1 : ℕ) := by
    rw [Nat.cast_one]
    exact lossHint_le_one c
  exact length_fixed_le (d := 1) hone (by decide) Nat.one_pos (by decide)

section Lines

variable {snap : CpeTcpSnapshot} {rid : CStr}

theorem format_of_length (hts : snap.tsIso.length < 40) (hrid : rid.length < 64) {scope : CStr}
    {remote : Option CpeTcpRemote} {pfx : Option CpeTcpPrefix}
    (h : ((tcpMembers scope snap remote pfx).map fun m ↦ m.1.toList.length + m.2.length + 4).sum
      < 497) :
    ∃ line, cpeTcpFormatNdjson rid scope snap remote pfx cpeTcpNdjsonMax = some line ∧
      line.length < cpeTcpNdjsonMax := by
  have hstamp : (if snap.tsIso ≠ [] then snap.tsIso
      else ascii "1970-01-01T00:00:00.000Z").length < 40 := by
    split
    · exact hts
    · decide
  have hname : (if rid ≠ [] then rid else ascii "unknown").length < 64 := by
    split
    · exact hrid
    · decide
  have htype : (quoted (ascii "cpe_tcp")).length = 9 := rfl
  have hmax : cpeTcpNdjsonMax = 640 := rfl
  have hfit : (object
      ([("type", quoted (ascii "cpe_tcp")),
        ("ts", quoted (if snap.tsIso ≠ [] then snap.tsIso
          else ascii "1970-01-01T00:00:00.000Z"))] ++
       ("router_id", quoted (if rid ≠ [] then rid else ascii "unknown")) ::
         tcpMembers scope snap remote pfx)).length < cpeTcpNdjsonMax := by
    rw [length_object (by simp)]
    simp only [List.cons_append, List.nil_append, List.map_cons, List.sum_cons, htype,
      length_quoted, String.reduceToList, List.length_cons, List.length_nil]
    omega
  refine ⟨_, ?_, hfit⟩
  rw [cpeTcpFormatNdjson, if_neg (by decide), fitText_of_lt hfit]

theorem length_counters (c : TcpCounters) :
    (c.members.map fun m ↦ m.1.toList.length + m.2.length + 4).sum ≤ 123 := by
  have hsyn := length_decimal_uint32 c.synCount
  have hfin := length_decimal_uint32 c.finCount
  have hrst := length_decimal_uint32 c.rstCount
  have hretrans := length_decimal_uint32 c.synRetrans
  have hpkts := length_decimal_uint32 c.pktCount
  have hbytes := length_decimal_uint64 c.bytesEst
  simp only [TcpCounters.members, List.map_cons, List.map_nil, List.sum_cons, List.sum_nil,
    String.reduceToList, List.length_cons, List.length_nil]
  omega

theorem format_summary (hsnap : snap.Filed) (hrid : rid.length < 64) :
    ∃ line, cpeTcpFormatNdjson rid (ascii "summary") snap none none cpeTcpNdjsonMax = some line ∧
      line.length < cpeTcpNdjsonMax := by
  have hmembers : tcpMembers (ascii "summary") snap none none = summaryMembers snap := rfl
  refine format_of_length hsnap.tsIso hrid ?_
  have hcounters := length_counters snap.total
  have hremotes : (decimal snap.remotes.length).length ≤ 3 :=
    length_decimal_le (by decide) (hsnap.remotes_le.trans_lt (by decide))
  have hprefixes : (decimal snap.prefixes.length).length ≤ 3 :=
    length_decimal_le (by decide) (hsnap.prefixes_le.trans_lt (by decide))
  have hhint := length_fixed_lossHint snap.total
  have hlen := length_decimal_octet snap.prefixLen
  have hgroup := length_decimal_uint32 snap.nflogGroup
  have hparsed := length_decimal_uint64 snap.pktsParsed
  have hnon := length_decimal_uint64 snap.pktsNonTcp
  have hfail := length_decimal_uint64 snap.pktsParseFail
  have hscope : (quoted (ascii "summary")).length = 9 := rfl
  rw [hmembers]
  simp only [summaryMembers, List.cons_append, List.map_append, List.sum_append, List.map_cons,
    List.map_nil, List.sum_cons, List.sum_nil, hscope, String.reduceToList, List.length_cons,
    List.length_nil]
  omega

theorem format_remote (hsnap : snap.Filed) (hrid : rid.length < 64) {r : CpeTcpRemote}
    (hr : r ∈ snap.remotes) :
    ∃ line, cpeTcpFormatNdjson rid (ascii "remote") snap (some r) none cpeTcpNdjsonMax = some line ∧
      line.length < cpeTcpNdjsonMax := by
  have hmembers : tcpMembers (ascii "remote") snap (some r) none = remoteMembers snap r := rfl
  refine format_of_length hsnap.tsIso hrid ?_
  obtain ⟨hremote, hlocal⟩ := hsnap.remotes r hr
  have hcounters := length_counters r.toTcpCounters
  have hrport := length_decimal_uint16 r.remotePort
  have hlport := length_decimal_uint16 r.localPort
  have hhint := length_fixed_lossHint r.toTcpCounters
  have hgroup := length_decimal_uint32 snap.nflogGroup
  have hscope : (quoted (ascii "remote")).length = 8 := rfl
  rw [hmembers]
  simp only [remoteMembers, List.map_append, List.sum_append, List.map_cons, List.map_nil,
    List.sum_cons, List.sum_nil, hscope, length_quoted, String.reduceToList, List.length_cons,
    List.length_nil]
  omega

theorem format_prefix (hsnap : snap.Filed) (hrid : rid.length < 64) {x : CpeTcpPrefix}
    (hx : x ∈ snap.prefixes) :
    ∃ line, cpeTcpFormatNdjson rid (ascii "prefix") snap none (some x) cpeTcpNdjsonMax = some line ∧
      line.length < cpeTcpNdjsonMax := by
  have hmembers : tcpMembers (ascii "prefix") snap none (some x) = prefixMembers snap x := rfl
  refine format_of_length hsnap.tsIso hrid ?_
  have hpfx := hsnap.prefixes x hx
  have hcounters := length_counters x.toTcpCounters
  have hcount := length_decimal_uint32 x.remoteCount
  have hhint := length_fixed_lossHint x.toTcpCounters
  have hgroup := length_decimal_uint32 snap.nflogGroup
  have hscope : (quoted (ascii "prefix")).length = 8 := rfl
  rw [hmembers]
  simp only [prefixMembers, List.map_append, List.sum_append, List.map_cons, List.map_nil,
    List.sum_cons, List.sum_nil, hscope, length_quoted, String.reduceToList, List.length_cons,
    List.length_nil]
  omega

end Lines

/-! ## What is pushed -/

namespace CpeAgent

theorem pushRows_concat (a : CpeAgent) (lines : List (Option CStr)) (line : CStr) :
    a.pushRows (lines ++ [some line])
      = (((a.pushRows lines).1.spoolPushLine line).1,
          if ((a.pushRows lines).1.spoolPushLine line).2 = 0 then (a.pushRows lines).2 + 1
          else (a.pushRows lines).2) := by
  rw [pushRows, List.foldl_append]
  rfl

/-- Rows that have been formatted are all pushed and counted. -/
theorem pushRows_some {a : CpeAgent} (h : a.Spools) (lines : List CStr) :
    a.pushRows (lines.map some) = (a.pushLines lines, (lines.length : ℤ)) := by
  induction lines using List.reverseRecOn with
  | nil => rfl
  | append_singleton lines line ih =>
    have hok := (spoolPushLine_of_spools (spools_pushLines h lines) line).1
    rw [List.map_append, List.map_singleton, pushRows_concat, ih, if_pos hok, pushLines_append,
      List.length_append, List.length_singleton]
    push_cast
    rfl

theorem spoolPushLine_setTcp (a : CpeAgent) (st : CpeTcpState) (line : CStr) :
    ({ a with tcp := st }.spoolPushLine line).1
      = { (a.spoolPushLine line).1 with tcp := st } := by
  unfold spoolPushLine
  dsimp only
  split
  · rfl
  · dsimp only
    split
    · unfold eqPush
      dsimp only
      split <;> rfl
    · rfl

theorem pushLines_setTcp (a : CpeAgent) (st : CpeTcpState) (lines : List CStr) :
    { a with tcp := st }.pushLines lines = { a.pushLines lines with tcp := st } := by
  induction lines generalizing a with
  | nil => rfl
  | cons line lines ih =>
    have hcons : ∀ b : CpeAgent,
        b.pushLines (line :: lines) = (b.spoolPushLine line).1.pushLines lines := fun _ ↦ rfl
    rw [hcons, hcons, spoolPushLine_setTcp, ih]

theorem pushLines_tcp (a : CpeAgent) (lines : List CStr) : (a.pushLines lines).tcp = a.tcp :=
  foldl_invariant (P := fun b : CpeAgent ↦ b.tcp = a.tcp)
    (fun b line hb ↦ (spoolPushLine_tcp b line).trans hb) rfl lines

/-! ## The report -/

/-- The limit of an emission, before it is cut to what there is. -/
def emitLimit (a : CpeAgent) (topN : UInt32) : ℕ :=
  (if topN = 0 then (if a.tcp.emitTopN ≠ 0 then a.tcp.emitTopN else 20) else topN).toNat

/-- The snapshot an emission prints: that of the collector, with a new time stamp. -/
def emitSnapshot (a : CpeAgent) (clock : Option WallClock) : CpeTcpSnapshot :=
  { a.tcp.snap with tsIso := copyStr 40 (isoNow clock) }

def stamped (a : CpeAgent) (clock : Option WallClock) : CpeAgent :=
  { a with tcp := { a.tcp with snap := a.emitSnapshot clock } }

def emitLine (a : CpeAgent) (clock : Option WallClock) (scope : String)
    (remote : Option CpeTcpRemote) (pfx : Option CpeTcpPrefix) : Option CStr :=
  cpeTcpFormatNdjson a.cfg.routerId (ascii scope) (a.emitSnapshot clock) remote pfx cpeTcpNdjsonMax

/-- The collector after an emission: of the snapshot, only the time stamp is new. -/
def emittedTcp (a : CpeAgent) (clock : Option WallClock) (nowMs : UInt64) : CpeTcpState :=
  { a.tcp with snap := a.emitSnapshot clock, lastEmitMs := nowMs }

/-- What an emission does when it spools one line for the totals and one for each of the given
remotes and prefixes, and counts them. -/
def Emits (a : CpeAgent) (topN : UInt32) (clock : Option WallClock) (nowMs : UInt64)
    (rs : List CpeTcpRemote) (ps : List CpeTcpPrefix) : Prop :=
  ∃ summary rlines plines, a.emitLine clock "summary" none none = some summary ∧
    (rs.map fun r ↦ a.emitLine clock "remote" (some r) none) = rlines.map some ∧
    (ps.map fun x ↦ a.emitLine clock "prefix" none (some x)) = plines.map some ∧
    a.tcpEmit topN clock nowMs
      = ({ a.pushLines (summary :: (rlines ++ plines)) with tcp := a.emittedTcp clock nowMs },
          ((1 + rs.length + ps.length : ℕ) : ℤ))

/-- The remotes and the prefixes of an emission are those with the most packets, as many of each as
the limit allows. -/
def ReportsTop (a : CpeAgent) (topN : UInt32) (clock : Option WallClock) (nowMs : UInt64) : Prop :=
  ∃ rs ps, a.Emits topN clock nowMs rs ps ∧
    IsTop (fun r : CpeTcpRemote ↦ r.pktCount.toNat) rs a.tcp.snap.remotes ∧
    rs.length = min (a.emitLimit topN) a.tcp.snap.remotes.length ∧
    (rs.map CpeTcpRemote.remoteIp).Nodup ∧
    IsTop (fun x : CpeTcpPrefix ↦ x.pktCount.toNat) ps a.tcp.snap.prefixes ∧
    ps.length = min (a.emitLimit topN) a.tcp.snap.prefixes.length ∧
    (ps.map CpeTcpPrefix.pfx).Nodup

variable {a : CpeAgent}

theorem formatted_rows {α : Type*} (f : α → Option CStr) (rows : List α)
    (h : ∀ x ∈ rows, ∃ line, f x = some line) :
    ∃ lines : List CStr, rows.map f = lines.map some := by
  induction rows with
  | nil => exact ⟨[], rfl⟩
  | cons x rows ih =>
    obtain ⟨line, hline⟩ := h x List.mem_cons_self
    obtain ⟨lines, hlines⟩ := ih fun y hy ↦ h y (List.mem_cons_of_mem x hy)
    exact ⟨line :: lines, by rw [List.map_cons, hline, hlines, List.map_cons]⟩

/-- An emission whose first line can be formatted: three batches, and a limit that the number of
remotes cuts for the prefixes as well. -/
theorem tcpEmit_of_summary {topN : UInt32} {clock : Option WallClock} {nowMs : UInt64}
    {summary : CStr} (h : a.emitLine clock "summary" none none = some summary) :
    a.tcpEmit topN clock nowMs =
      let remotes := a.tcp.snap.remotes.mergeSort fun r s ↦ s.pktCount ≤ r.pktCount
      let prefixes := a.tcp.snap.prefixes.mergeSort fun x y ↦ y.pktCount ≤ x.pktCount
      let first := (a.stamped clock).pushRows [some summary]
      let limit := min (first.1.emitLimit topN) remotes.length
      let second := first.1.pushRows ((remotes.take limit).map fun r ↦
        a.emitLine clock "remote" (some r) none)
      let third := second.1.pushRows ((prefixes.take limit).map fun x ↦
        a.emitLine clock "prefix" none (some x))
      ({ third.1 with tcp := { third.1.tcp with lastEmitMs := nowMs } },
        first.2 + second.2 + third.2) := by
  rw [emitLine, emitSnapshot] at h
  unfold tcpEmit
  dsimp only at h ⊢
  rw [h]
  rfl

/-- What an emission reports: the limit for the prefixes is cut to the number of remotes. -/
theorem emits_tcpEmit (hspool : a.Spools) (hsnap : a.tcp.snap.Filed)
    (hrid : a.cfg.routerId.length < 64) (topN : UInt32) (clock : Option WallClock)
    (nowMs : UInt64) :
    a.Emits topN clock nowMs
      ((a.tcp.snap.remotes.mergeSort fun r s ↦ s.pktCount ≤ r.pktCount).take
        (min (a.emitLimit topN) a.tcp.snap.remotes.length))
      ((a.tcp.snap.prefixes.mergeSort fun x y ↦ y.pktCount ≤ x.pktCount).take
        (min (a.emitLimit topN) a.tcp.snap.remotes.length)) := by
  have hfiled : (a.emitSnapshot clock).Filed := tcpStable_filed.stamp clock hsnap
  have hstamped : (a.stamped clock).Spools := hspool
  obtain ⟨summary, hsummary, -⟩ := format_summary hfiled hrid
  obtain ⟨rlines, hrlines⟩ := formatted_rows (fun r ↦ a.emitLine clock "remote" (some r) none)
    ((a.tcp.snap.remotes.mergeSort fun r s ↦ s.pktCount ≤ r.pktCount).take
      (min (a.emitLimit topN) a.tcp.snap.remotes.length)) fun r hr ↦ by
      obtain ⟨line, hline, -⟩ := format_remote hfiled hrid
        (List.mem_mergeSort.mp (List.mem_of_mem_take hr))
      exact ⟨line, hline⟩
  obtain ⟨plines, hplines⟩ := formatted_rows (fun x ↦ a.emitLine clock "prefix" none (some x))
    ((a.tcp.snap.prefixes.mergeSort fun x y ↦ y.pktCount ≤ x.pktCount).take
      (min (a.emitLimit topN) a.tcp.snap.remotes.length)) fun x hx ↦ by
      obtain ⟨line, hline, -⟩ := format_prefix hfiled hrid
        (List.mem_mergeSort.mp (List.mem_of_mem_take hx))
      exact ⟨line, hline⟩
  refine ⟨summary, rlines, plines, hsummary, hrlines, hplines, ?_⟩
  -- the three batches, one after the other
  have hfirst := pushRows_some hstamped [summary]
  have hsecond := pushRows_some (spools_pushLines hstamped [summary]) rlines
  have hthird := pushRows_some (spools_pushLines (spools_pushLines hstamped [summary]) rlines)
    plines
  have hlimit : ((a.stamped clock).pushLines [summary]).emitLimit topN = a.emitLimit topN := by
    rw [emitLimit, pushLines_tcp]
    rfl
  have hrlen := congrArg List.length hrlines
  have hplen := congrArg List.length hplines
  rw [List.length_map, List.length_map] at hrlen hplen
  rw [tcpEmit_of_summary hsummary]
  dsimp only
  rw [← List.map_singleton, hfirst, hlimit, List.length_mergeSort, hrlines, hsecond, hplines,
    hthird, ← pushLines_append, ← pushLines_append, hrlen, hplen, stamped, pushLines_setTcp,
    List.length_singleton]
  push_cast
  rfl

theorem reportsTop_iff_of_filed (hspool : a.Spools) (hsnap : a.tcp.snap.Filed)
    (hrid : a.cfg.routerId.length < 64) (topN : UInt32) (clock : Option WallClock)
    (nowMs : UInt64) :
    a.ReportsTop topN clock nowMs ↔
      min (a.emitLimit topN) a.tcp.snap.prefixes.length ≤ a.tcp.snap.remotes.length := by
  have hemits := emits_tcpEmit hspool hsnap hrid topN clock nowMs
  have hrtop := isTop_take_mergeSort (fun r : CpeTcpRemote ↦ r.pktCount.toNat) a.tcp.snap.remotes
    (min (a.emitLimit topN) a.tcp.snap.remotes.length)
  have hptop := isTop_take_mergeSort (fun x : CpeTcpPrefix ↦ x.pktCount.toNat) a.tcp.snap.prefixes
    (min (a.emitLimit topN) a.tcp.snap.remotes.length)
  simp only [← UInt32.le_iff_toNat_le] at hrtop hptop
  constructor
  · -- the return value tells how many prefixes there were
    rintro ⟨rs, ps, ⟨_, _, _, -, -, -, hcount⟩, -, hrlen, -, -, hplen, -⟩
    obtain ⟨_, _, _, -, -, -, hcount'⟩ := hemits
    have heq := (congrArg Prod.snd hcount).symm.trans (congrArg Prod.snd hcount')
    dsimp only at heq
    rw [hrlen, hplen, List.length_take, List.length_take, List.length_mergeSort,
      List.length_mergeSort] at heq
    omega
  · intro h
    refine ⟨_, _, hemits, hrtop, ?_, hrtop.nodup_map hsnap.remotes_nodup, hptop, ?_,
      hptop.nodup_map hsnap.prefixes_nodup⟩
    · rw [List.length_take, List.length_mergeSort]
      omega
    · rw [List.length_take, List.length_mergeSort]
      omega

/-- For every run: an emission reports the top talkers of both tables if and only if there are at
least as many remotes as prefixes are wanted. -/
theorem reportsTop_iff (ops : List HostOp) (topN : UInt32) (clock : Option WallClock)
    (nowMs : UInt64) (hspool : (IpcState.create.hostRun ops).agent.Spools) :
    let a := (IpcState.create.hostRun ops).agent
    a.ReportsTop topN clock nowMs ↔
      min (a.emitLimit topN) a.tcp.snap.prefixes.length ≤ a.tcp.snap.remotes.length :=
  reportsTop_iff_of_filed hspool (IpcState.filed_hostRun ops)
    (IpcState.sane_hostRun ops).agent.sized.routerId topN clock nowMs

/-- With two remotes and no prefix, an emission reports them all. -/
theorem reportsTop_two :
    (IpcState.create.hostRun (seenHosts 2)).agent.ReportsTop 0 none 0 :=
  (reportsTop_iff (seenHosts 2) 0 none 0 (by decide +kernel)).mpr (by decide +kernel)

def hostPrefixes : SizedConfig :=
  ⟨{ cpeAgentConfigDefaults with tcpStatsEnabled := true, tcpPrefixLen := 32 }, by
    constructor <;> decide⟩

/-- One remote is seen before and after a change of the prefix length. -/
def regrouped : List HostOp :=
  [.tcp (.feed (synBytes 0x0a000002 0x08080808) 0 none),
   .configure hostPrefixes ⟨true, .ok 3, .ok 4, .ok 5⟩,
   .tcp (.feed (synBytes 0x0a000002 0x08080808) 0 none)]

/-- Its two prefixes are wanted, and one is reported. -/
theorem tcpEmit_omits_prefix :
    ¬ ∀ (ops : List HostOp) (topN : UInt32) (clock : Option WallClock) (nowMs : UInt64),
      (IpcState.create.hostRun ops).agent.Spools →
        (IpcState.create.hostRun ops).agent.ReportsTop topN clock nowMs := by
  intro h
  have hspool : (IpcState.create.hostRun regrouped).agent.Spools := by decide +kernel
  have htop := h regrouped 0 none 0 hspool
  have hle := (reportsTop_iff_of_filed hspool (IpcState.filed_hostRun regrouped)
    (IpcState.sane_hostRun regrouped).agent.sized.routerId 0 none 0).mp htop
  exact absurd hle (by decide +kernel)

end CpeAgent

end NetForensics
