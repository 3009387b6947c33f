import NetForensics.Ipc.Reach
import NetForensics.Ipc.Render

/-!
# Queries that list rows

`tcp_by_ip`, `tcp_by_prefix` and `flow_list` print one object for each row, up to a number of rows
that is fixed without regard to their size. Whatever the run, the rows can be read back, so that the
query is answered with all of them exactly when they fit the line. When they do not, the handler
fails: it neither prints fewer rows nor says what was wrong.
-/

namespace NetForensics

open Json

/-! ## Requests for an operation -/

theorem IpcVerb.find_name (verb : IpcVerb) : find (ascii verb.name) = some verb := by
  cases verb <;> decide

theorem IpcVerb.eq_name_of_find {op : CStr} {verb : IpcVerb} (h : find op = some verb) :
    op = ascii verb.name :=
  of_decide_eq_true (List.find?_some (p := fun v : IpcVerb ↦ decide (op = ascii v.name)) h)

theorem IpcState.answer_of_op {req : CStr} {verb : IpcVerb} (h : requestOp req = ascii verb.name)
    (env : IpcEnv) (s : IpcState) : s.answer env req = s.serve env req verb := by
  have hne : ascii verb.name ≠ [] := by cases verb <;> decide
  rw [IpcState.answer, h, if_neg hne, IpcVerb.find_name]

/-! ## The rows -/

theorem sound_remoteRow {r : CpeTcpRemote} (h : Word r.remoteIp ∧ Word r.localIp) :
    ∀ m ∈ remoteRow r, Sound m := by
  simp only [remoteRow, List.forall_mem_append, List.forall_mem_cons]
  exact ⟨⟨⟨sound_safe (by decide) h.1.safe, sound_safe (by decide) h.2.safe,
    sound_decimal (by decide) _, sound_decimal (by decide) _, List.forall_mem_nil _⟩,
    sound_counters _⟩, sound_fixed (by decide) 4 _, List.forall_mem_nil _⟩

theorem sound_prefixRow {x : CpeTcpPrefix} (h : Word x.pfx) : ∀ m ∈ prefixRow x, Sound m := by
  simp only [prefixRow, List.forall_mem_append, List.forall_mem_cons]
  exact ⟨⟨⟨sound_safe (by decide) h.safe, sound_decimal (by decide) _, List.forall_mem_nil _⟩,
    sound_counters _⟩, sound_fixed (by decide) 4 _, List.forall_mem_nil _⟩

theorem word_endText {ip : CStr} (h : Token ip) (port : UInt16) : Word (endText ip port) :=
  (word_of_token h).append (.cons (by decide) (word_of_token (token_decimal _)))

theorem sound_flowRow {e : CpeFlowEntry} (h : e.Worded) : ∀ m ∈ flowRow e, Sound m := by
  have hend : ∀ {ip : CStr} (port : UInt16), Token ip → Safe (endText ip port) := fun port hip ↦
    (word_endText hip port).safe
  simp only [flowRow, List.forall_mem_cons]
  exact ⟨sound_safe (by decide) (safe_of_token h.flowId), sound_decimal (by decide) _,
    sound_safe (by decide) (hend _ h.lanIp), sound_safe (by decide) (hend _ h.remoteIp),
    sound_safe (by decide) (hend _ h.wanIp), sound_decimal (by decide) _,
    sound_decimal (by decide) _, sound_decimal (by decide) _, sound_decimal (by decide) _,
    sound_safe (by decide) h.state.safe, List.forall_mem_nil _⟩

theorem worded_of_mem_flows {a : CpeAgent} (h : a.flow.Worded) {clock : Option WallClock}
    {e : CpeFlowEntry} (he : e ∈ (a.flowSnapshot clock).flows) : e.Worded := by
  obtain ⟨i, hi, rfl⟩ := List.mem_map.mp he
  exact h i (List.mem_filter.mp hi).2

theorem sound_remoteRows {snap : CpeTcpSnapshot} (h : snap.Worded) (n : ℕ) :
    ∀ ms ∈ (snap.remotes.take n).map remoteRow, ∀ m ∈ ms, Sound m := by
  intro ms hms
  obtain ⟨r, hr, rfl⟩ := List.mem_map.mp hms
  exact sound_remoteRow (h.remotes r (List.mem_of_mem_take hr))

theorem sound_prefixRows {snap : CpeTcpSnapshot} (h : snap.Worded) (n : ℕ) :
    ∀ ms ∈ (snap.prefixes.take n).map prefixRow, ∀ m ∈ ms, Sound m := by
  intro ms hms
  obtain ⟨x, hx, rfl⟩ := List.mem_map.mp hms
  exact sound_prefixRow (h.prefixes x (List.mem_of_mem_take hx))

theorem sound_flowRows {a : CpeAgent} (h : a.flow.Worded) (clock : Option WallClock) (n : ℕ) :
    ∀ ms ∈ ((a.flowSnapshot clock).flows.take n).map flowRow, ∀ m ∈ ms, Sound m := by
  intro ms hms
  obtain ⟨e, he, rfl⟩ := List.mem_map.mp hms
  exact sound_flowRow (worded_of_mem_flows h (List.mem_of_mem_take he))

/-! ## Their size -/

/-- The bytes of the rows, with one more for each. -/
def rowsSize (rows : List (List (String × CStr))) : ℕ :=
  (rows.map fun ms ↦ (object ms).length + 1).sum

theorem length_rows (rows : List (List (String × CStr))) :
    (array (rows.map object)).length = max (rowsSize rows) 1 + 1 := by
  have hcomma : ∀ rs : List (List (String × CStr)),
      (commaRows (rs.map object)).length = rowsSize rs := by
    intro rs
    rw [commaRows, List.length_flatMap, List.map_map, rowsSize]
    rfl
  have helems : (elemList (rows.map object)).length + 1 = max (rowsSize rows) 1 := by
    cases rows with
    | nil => rfl
    | cons ms rows =>
      have hsum : rowsSize (ms :: rows) = (object ms).length + 1 + rowsSize rows := List.sum_cons
      rw [List.map_cons, elemList_cons, List.length_append, hcomma, hsum]
      omega
  rw [array, List.length_append, List.length_cons, helems, List.length_singleton]

theorem length_okText (verb : IpcVerb) (data : CStr) :
    (okText verb data).length = (okOpen verb).length + data.length + 1 := by
  rw [okText_eq, List.length_append, List.length_append, List.length_singleton, Nat.add_assoc]

/-! ## The answers -/

theorem isJsonLine_okText (verb : IpcVerb) {data : CStr} {v : Json} (hv : Reads data v)
    (hclean : Clean data) :
    IsJsonLine (okText verb data)
      (.obj [(ascii "ok", .bool true), (ascii "op", .str (ascii verb.name)),
        (ascii "data", v)]) := by
  have hname : Safe (ascii verb.name) := by cases verb <;> decide
  refine ⟨(clean_object_iff _).mpr (clean_memberList ?_), (reads_object ?_).parse⟩
  · simp only [List.forall_mem_cons]
    exact ⟨⟨clean_of_printable (by decide), clean_of_printable (by decide)⟩,
      ⟨clean_of_printable (by decide), (clean_quoted_iff _).mpr hname.clean⟩,
      ⟨clean_of_printable (by decide), hclean⟩, List.forall_mem_nil _⟩
  · exact .cons (memberReads (by decide) reads_true)
      (.cons (memberReads (by decide) (reads_quoted hname.plain))
      (.cons (memberReads (by decide) hv) .nil))

/-- The answer is there, it says `ok`, and its data is an array with so many entries. -/
def ListsRows (resp : Option CStr) (n : ℕ) : Prop :=
  ∃ line ms vs, resp = some line ∧ IsJsonLine line (.obj ms) ∧
    membersOf (ascii "ok") (.obj ms) = [.bool true] ∧
    membersOf (ascii "data") (.obj ms) = [.arr vs] ∧ vs.length = n

/-- The same for the array `flows` of the data. -/
def ListsFlows (resp : Option CStr) (n : ℕ) : Prop :=
  ∃ line ms ds vs, resp = some line ∧ IsJsonLine line (.obj ms) ∧
    membersOf (ascii "ok") (.obj ms) = [.bool true] ∧
    membersOf (ascii "data") (.obj ms) = [.obj ds] ∧
    membersOf (ascii "flows") (.obj ds) = [.arr vs] ∧ vs.length = n

theorem listsRows_iff (verb : IpcVerb) {rows : List (List (String × CStr))}
    (h : ∀ ms ∈ rows, ∀ m ∈ ms, Sound m) :
    ListsRows (IpcReply.rows verb rows).render rows.length ↔
      (okOpen verb).length + rowsSize rows + 2 ≤ cpeIpcLineMax - 2 := by
  have hopen := length_okOpen_lt verb
  have hlen : (okText verb (array (rows.map object))).length
      = (okOpen verb).length + max (rowsSize rows) 1 + 2 := by
    rw [length_okText, length_rows, ← Nat.add_assoc]
  have hmax : cpeIpcLineMax = 8192 := rfl
  rw [IpcReply.render_eq, IpcReply.room, IpcReply.text]
  constructor
  · rintro ⟨line, ms, vs, hresp, -⟩
    have hfit := (fitText_eq_some_iff.mp hresp).1
    rw [hlen] at hfit
    omega
  · intro hfit
    obtain ⟨vs, hvs, hcount⟩ := reads_rows h
    refine ⟨_, _, vs, fitText_of_lt ?_, isJsonLine_okText verb hvs (clean_rows h), ?_, ?_, hcount⟩
    · rw [hlen]
      omega
    · rfl
    · rfl

theorem listsFlows_iff {rows : List (List (String × CStr))} (count : ℕ)
    (h : ∀ ms ∈ rows, ∀ m ∈ ms, Sound m) :
    ListsFlows (IpcReply.flows rows count).render rows.length ↔
      max (rowsSize rows) 1 + (decimal count).length ≤ 8135 := by
  have hopen : (okOpen .flowList).length = 35 := by decide
  have hlen : (okText .flowList (object [("flows", array (rows.map object)),
        ("count", decimal count)])).length
      = max (rowsSize rows) 1 + (decimal count).length + 56 := by
    rw [length_okText, hopen, length_object (List.cons_ne_nil _ _)]
    simp only [List.map_cons, List.map_nil, List.sum_cons, List.sum_nil, String.reduceToList,
      List.length_cons, List.length_nil, length_rows]
    omega
  have hmax : cpeIpcLineMax = 8192 := rfl
  rw [IpcReply.render_eq, IpcReply.room, IpcReply.text]
  constructor
  · rintro ⟨line, ms, ds, vs, hresp, -⟩
    have hfit := (fitText_eq_some_iff.mp hresp).1
    rw [hlen] at hfit
    omega
  · intro hfit
    obtain ⟨vs, hvs, hcount⟩ := reads_rows h
    have hreads : Reads (object [("flows", array (rows.map object)), ("count", decimal count)])
        (.obj [(ascii "flows", .arr vs), (ascii "count", .num (decimal count))]) :=
      reads_object (.cons (memberReads (by decide) hvs)
        (.cons (memberReads (by decide) (reads_decimal count)) .nil))
    have hclean : Clean (object [("flows", array (rows.map object)),
        ("count", decimal count)]) := by
      refine (clean_object_iff _).mpr (clean_memberList ?_)
      simp only [List.forall_mem_cons]
      exact ⟨⟨clean_of_printable (by decide), clean_rows h⟩,
        ⟨clean_of_printable (by decide), clean_of_token (token_decimal count)⟩,
        List.forall_mem_nil _⟩
    refine ⟨_, _, [(ascii "flows", .arr vs), (ascii "count", .num (decimal count))], vs,
      fitText_of_lt ?_, isJsonLine_okText .flowList hreads hclean, ?_, ?_, ?_, hcount⟩
    · rw [hlen]
      omega
    · rfl
    · rfl
    · rfl

theorem length_flows_le (a : CpeAgent) (clock : Option WallClock) :
    (a.flowSnapshot clock).flows.length ≤ cpeFlowMax := by
  rw [CpeAgent.flowSnapshot, List.length_map]
  refine (List.length_filter_le _ _).trans ?_
  rw [scanned, List.length_map, List.length_finRange]
  exact Nat.min_le_right _ _

/-- For every run: a list query is answered with as many rows as it asks for exactly when these
rows, with a byte for each, come to no more than what the envelope leaves of the line. The flows
are those after the tick that the query itself makes. -/
theorem listQuery_answers_iff (ops : List HostOp) (env : IpcEnv) (req : CStr) :
    let s := IpcState.create.hostRun ops
    let resp := (s.handleRequest env req).2
    let remotes := s.agent.tcp.snap.remotes
    let prefixes := s.agent.tcp.snap.prefixes
    let ticked := (s.agent.flowTick env.flow).1
    let flows := (ticked.flowSnapshot env.clock).flows
    (requestOp req = ascii "tcp_by_ip" → requestField req "ip" 48 = [] →
      (ListsRows resp (min 64 remotes.length) ↔
        rowsSize ((remotes.take 64).map remoteRow) ≤ 8153)) ∧
    (requestOp req = ascii "tcp_by_prefix" → requestField req "prefix" 64 = [] →
      (ListsRows resp (min 64 prefixes.length) ↔
        rowsSize ((prefixes.take 64).map prefixRow) ≤ 8149)) ∧
    (requestOp req = ascii "flow_list" → s.agent.cfg.flowAcctEnabled = true →
      ticked.flow.openOk = true →
      (ListsFlows resp (min (flowLimit req) flows.length) ↔
        rowsSize ((flows.take (flowLimit req)).map flowRow) + (decimal flows.length).length
          ≤ 8135)) := by
  intro s resp remotes prefixes ticked flows
  have hsane : s.Sane := IpcState.sane_hostRun ops
  have hresp : ∀ verb : IpcVerb, requestOp req = ascii verb.name →
      resp = (s.serve env req verb).2.render := fun verb hop ↦
    congrArg (fun r : IpcState × IpcReply ↦ r.2.render) (IpcState.answer_of_op hop env s)
  have hmax : cpeIpcLineMax = 8192 := rfl
  refine ⟨?_, ?_, ?_⟩
  · intro hop hip
    have hopen : (okOpen .tcpByIp).length = 35 := by decide
    have hserve : (s.serve env req .tcpByIp).2
        = .rows .tcpByIp ((remotes.take 64).map remoteRow) := by
      rw [IpcState.serve, IpcState.tcpByIp, hip]
      rfl
    have hsound : ∀ ms ∈ (remotes.take 64).map remoteRow, ∀ m ∈ ms, Sound m :=
      sound_remoteRows hsane.agent.tcp 64
    have hiff := listsRows_iff .tcpByIp hsound
    rw [List.length_map, List.length_take, hopen] at hiff
    rw [hresp .tcpByIp hop, hserve, hiff]
    omega
  · intro hop hpfx
    have hopen : (okOpen .tcpByPrefix).length = 39 := by decide
    have hserve : (s.serve env req .tcpByPrefix).2
        = .rows .tcpByPrefix ((prefixes.take 64).map prefixRow) := by
      rw [IpcState.serve, IpcState.tcpByPrefix, hpfx]
      rfl
    have hsound : ∀ ms ∈ (prefixes.take 64).map prefixRow, ∀ m ∈ ms, Sound m :=
      sound_prefixRows hsane.agent.tcp 64
    have hiff := listsRows_iff .tcpByPrefix hsound
    rw [List.length_map, List.length_take, hopen] at hiff
    rw [hresp .tcpByPrefix hop, hserve, hiff]
    omega
  · intro hop henabled hopenOk
    have hticked : ticked.Sane := hsane.agent.flowTick env.flow
    have hserve : (s.serve env req .flowList).2
        = .flows ((flows.take (flowLimit req)).map flowRow) flows.length := by
      have hcfg : ticked.cfg.flowAcctEnabled = true := by
        rw [CpeAgent.flowTick_cfg]
        exact henabled
      have hsnap : (ticked.flowSnapshot env.clock).openOk = true := hopenOk
      rw [IpcState.serve]
      dsimp only
      rw [IpcState.flowList, hcfg, hsnap]
      rfl
    have hcount : (decimal flows.length).length ≤ 4 :=
      length_decimal_le (by decide) (lt_of_le_of_lt (length_flows_le ticked env.clock) (by decide))
    have hsound : ∀ ms ∈ (flows.take (flowLimit req)).map flowRow, ∀ m ∈ ms, Sound m :=
      sound_flowRows hticked.flow env.clock (flowLimit req)
    have hiff := listsFlows_iff flows.length hsound
    rw [List.length_map, List.length_take] at hiff
    rw [hresp .flowList hop, hserve, hiff]
    omega

/-! ## Runs that meet the limit, and runs that do not -/

/-- No datagram and no event arrives, and everything that is tried succeeds. -/
def quietEnv : IpcEnv where
  emit := ⟨fun _ ↦ true, true, ⟨fun _ ↦ true, true, true⟩⟩
  tcp := ⟨.ok 3, []⟩
  flow := ⟨.ok 4, .ok 5, 1, some [], true, some [], fun _ ↦ none⟩
  clock := none
  now := 1

def bareRequest (op : String) : CStr := object [("op", quoted (ascii op))]

/-- A FIN from `fe80::1` to a remote host, port 80 on both sides. -/
def finTo (host : UInt8) : List UInt8 :=
  [0x60, 0, 0, 0, 0, 20, 6, 64, 0xfe, 0x80, 0, 0, 0, 0, 0, 0, 0, 0, 0, 0, 0, 0, 0, 1,
   host, 1, 0, 0, 0, 0, 0, 0, 0, 0, 0, 0, 0, 0, 0, 1,
   0, 80, 0, 80, 0, 0, 0, 0, 0, 0, 0, 0, 0x50, 1, 0, 0, 0, 0, 0, 0]

def seenHosts (n : ℕ) : List HostOp :=
  (List.range n).map fun k ↦ .tcp (.feed (finTo (UInt8.ofNat (k + 11))) 0 none)

/-- With two remote hosts, `tcp_by_ip` lists both. -/
theorem listQuery_answers_two :
    let s := IpcState.create.hostRun (seenHosts 2)
    s.agent.tcp.snap.remotes.length = 2 ∧
      ListsRows (s.handleRequest quietEnv (bareRequest "tcp_by_ip")).2 2 := by
  have hcount : (IpcState.create.hostRun (seenHosts 2)).agent.tcp.snap.remotes.length = 2 := by
    decide +kernel
  have hiff := (listQuery_answers_iff (seenHosts 2) quietEnv (bareRequest "tcp_by_ip")).1
    (by decide) (by decide)
  rw [hcount] at hiff
  exact ⟨hcount, hiff.mpr (by decide +kernel)⟩

theorem length_remoteRow_ge (r : CpeTcpRemote) : 134 ≤ (object (remoteRow r)).length := by
  have hpos : ∀ n, 1 ≤ (decimal n).length := fun n ↦
    List.length_pos_iff.mpr (decimal_ne_nil n)
  have hhint : 1 ≤ (fixed 4 r.toTcpCounters.lossHint).length := by
    rw [fixed, List.length_append, List.length_cons]
    omega
  rw [length_object (by simp [remoteRow]), remoteRow, TcpCounters.members]
  simp only [List.cons_append, List.nil_append, List.map_cons, List.map_nil, List.sum_cons,
    List.sum_nil, String.reduceToList, List.length_cons, List.length_nil, length_quoted]
  have hports := hpos r.remotePort.toNat
  have hlocal := hpos r.localPort.toNat
  have hsyn := hpos r.synCount.toNat
  have hfin := hpos r.finCount.toNat
  have hrst := hpos r.rstCount.toNat
  have hretrans := hpos r.synRetrans.toNat
  have hpkts := hpos r.pktCount.toNat
  have hbytes := hpos r.bytesEst.toNat
  omega

/-- Rows of remotes have a size below which they cannot come, whatever they count. -/
theorem rowsSize_remotes_ge (rs : List CpeTcpRemote) :
    135 * rs.length ≤ rowsSize (rs.map remoteRow) := by
  rw [rowsSize, List.map_map]
  induction rs with
  | nil => exact le_rfl
  | cons r rs ih =>
    have hrow := length_remoteRow_ge r
    rw [List.map_cons, List.sum_cons, List.length_cons, Function.comp_apply]
    omega

/-- With 64 remote hosts, however short their rows, `tcp_by_ip` fails. -/
theorem tcpByIp_refused_with_64_remotes :
    let s := IpcState.create.hostRun (seenHosts 64)
    s.agent.tcp.snap.remotes.length = 64 ∧
      (s.handleRequest quietEnv (bareRequest "tcp_by_ip")).2 = none ∧
      ¬ ListsRows (s.handleRequest quietEnv (bareRequest "tcp_by_ip")).2 (min 64 64) := by
  have hcount : (IpcState.create.hostRun (seenHosts 64)).agent.tcp.snap.remotes.length = 64 := by
    decide +kernel
  generalize IpcState.create.hostRun (seenHosts 64) = s at hcount
  have hop : requestOp (bareRequest "tcp_by_ip") = ascii IpcVerb.tcpByIp.name := by decide
  have hserve : (s.serve quietEnv (bareRequest "tcp_by_ip") .tcpByIp).2
      = .rows .tcpByIp ((s.agent.tcp.snap.remotes.take 64).map remoteRow) := rfl
  have hsize := rowsSize_remotes_ge (s.agent.tcp.snap.remotes.take 64)
  rw [List.length_take, hcount] at hsize
  have hnone : (s.handleRequest quietEnv (bareRequest "tcp_by_ip")).2 = none := by
    rw [IpcState.handleRequest, IpcState.answer_of_op hop, hserve, IpcReply.render_eq,
      IpcReply.room, IpcReply.text]
    apply fitText_of_le
    have hmax : cpeIpcLineMax = 8192 := rfl
    rw [length_okText, length_rows]
    omega
  refine ⟨hcount, hnone, ?_⟩
  rintro ⟨line, ms, vs, hresp, -⟩
  exact absurd (hnone.symm.trans hresp) (by simp)

end NetForensics
