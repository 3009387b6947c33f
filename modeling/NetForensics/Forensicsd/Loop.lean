import NetForensics.Forensicsd.Lines
import NetForensics.Netlink.Batch
import NetForensics.Util.Exchange

/-!
# The loop of forensicsd

`run_netlink` listens for conntrack messages on one socket and every so often asks another one for
the stations of a Wi-Fi interface. It reads the answer until a message says that the dump is done,
or nothing is there. All requests have the same sequence number, and nobody looks at it.

Whatever the two sockets do, what is printed shows the bindings of the conntrack events, in the
order in which they were received, up to 32 of a buffer. The stations do not always belong to the
dump that prints them. When the end of an answer is not there yet, the rest of it is read by the
next dump, and so on: no later dump catches up.

A buffer has 8192 bytes, and a `size_t` 64 bits.
-/

namespace NetForensics

open Exchange

/-- What of a datagram fits the buffer of the daemon. -/
def recvBuf (datagram : List UInt8) : List UInt8 := datagram.take 8192

/-! ## A dump of the stations -/

/-- Whether one of the messages in a buffer is `NLMSG_DONE`. -/
def dumpDone (buf : List UInt8) : Bool :=
  match loop (dumpStep .w64 buf) (buf.length + 1) ⟨0, []⟩ with
  | some (.stop s) => s.slices.any fun m ↦ readLe buf (m.1 + 4) 2 == some 3
  | _ => false

theorem Batch.length_le {buf : List UInt8} {o e : ℕ} {ms : List (ℕ × ℕ)} (h : Batch buf o ms e)
    (ho : o ≤ buf.length + 3) : 16 * ms.length + o ≤ buf.length + 3 := by
  induction h with
  | done =>
    rw [List.length_nil]
    omega
  | @message o n e ms hfits _ ih =>
    have hheader := hfits.header
    have hroom := hfits.room
    have halign := le_nflogNlaAlign n
    have hnext : o + nflogNlaAlign n ≤ buf.length + 3 := by
      rw [nflogNlaAlign]
      omega
    have hrest := ih hnext
    rw [List.length_cons]
    omega

theorem loop_dumpStep {buf : List UInt8} (hlen : buf.length < 2 ^ 31) {o e : ℕ}
    {ms : List (ℕ × ℕ)} (h : Batch buf o ms e) (ho : o ≤ buf.length + 3) (past : List (ℕ × ℕ)) :
    loop (dumpStep .w64 buf) (ms.length + 1) ⟨o, past⟩ = some (.stop ⟨e, past ++ ms⟩) := by
  induction h generalizing past with
  | @done o hnone =>
    have hwrap : NoWrap .w64 buf o := fun n _ hread ↦ by
      have hlt : n < 2 ^ 32 := lt_of_readLe hread
      simp only [WordSize.bits]
      omega
    rw [List.append_nil]
    exact loop_of_stop (splitStep_of_not_fits hlen ho hnone hwrap) 0
  | @message o n e ms hfits _ ih =>
    have hstay : (readLe buf (o + 4) 2).map (fun _ ↦ false) = some false :=
      leavesWith_dump o n hfits
    have hstep := splitStep_of_fits .w64 (fun off _ ↦ (readLe buf (off + 4) 2).map fun _ ↦ false)
      (s := ⟨o, past⟩) hlen hfits
    dsimp only at hstep
    rw [hstay] at hstep
    have hroom := hfits.room
    have hnext : o + nflogNlaAlign n ≤ buf.length + 3 := by
      rw [nflogNlaAlign]
      omega
    rw [List.length_cons, dumpStep, loop_of_go hstep, ← dumpStep, ih hnext, List.append_assoc]
    rfl

/-- A dump is done when one of the messages that fit says so. -/
theorem dumpDone_iff {buf : List UInt8} (hlen : buf.length < 2 ^ 31) {e : ℕ} {ms : List (ℕ × ℕ)}
    (h : Batch buf 0 ms e) : dumpDone buf = true ↔ ∃ m ∈ ms, readLe buf (m.1 + 4) 2 = some 3 := by
  have hle := h.length_le (Nat.zero_le _)
  have hloop := loop_add (loop_dumpStep hlen h (Nat.zero_le _) []) (buf.length - ms.length)
  rw [show ms.length + 1 + (buf.length - ms.length) = buf.length + 1 from by omega] at hloop
  rw [dumpDone, hloop]
  simp only [List.nil_append, List.any_eq_true, beq_iff_eq]

/-- The reading of a dump ends with such a datagram. `recv` returns 0 for an empty one, as it does
where nothing is there. -/
def endsDump (datagram : List UInt8) : Bool := datagram.isEmpty || dumpDone (recvBuf datagram)

/-- What happens around `wifi_dump_once`: the answer to the request, and what of it can be read in
time, unless the request is not sent; and the clock, at each datagram. -/
structure DumpEnv where
  sent : Option (Round (List UInt8))
  clock : ℕ → UInt64

/-- The second socket, with the dumps that have been made. -/
structure WifiSide where
  /-- `wifi_interval_ms` -/
  interval : ℕ
  lastMs : UInt64
  channel : Channel (List UInt8)
  /-- what each dump has read -/
  dumps : List (List (ℕ × List UInt8))

def stationLines (lib : ForensicsdLib) (routerId : CStr) (clock : ℕ → UInt64)
    (read : List (ℕ × List UInt8)) : List CStr :=
  read.zipIdx.flatMap fun x ↦
    if x.1.2 = [] then [] else emitWifiEvents routerId (clock x.2) (lib.stations (recvBuf x.1.2))

/-- `wifi_dump_once` -/
def WifiSide.dumpOnce (w : WifiSide) (lib : ForensicsdLib) (routerId : CStr) (env : DumpEnv) :
    WifiSide × List CStr :=
  match env.sent with
  | none => (w, [])
  | some r =>
    let (channel, read) := w.channel.round endsDump r
    ({ w with channel := channel, dumps := w.dumps ++ [read] },
      stationLines lib routerId env.clock read)

/-! ## The loop -/

/-- The state of the loop. -/
structure Forensicsd where
  /-- the queue of the conntrack parser -/
  nfct : List NfctEvent
  /-- unless the daemon runs without Wi-Fi -/
  wifi : Option WifiSide
  /-- `g_stop` -/
  stop : Bool
  /-- the lines on standard output -/
  printed : List CStr
  /-- what has been fed to the conntrack parser, with the time it is printed with -/
  fed : List (List UInt8 × UInt64)

/-- What `recv` does on the conntrack socket where it does not return 0. -/
inductive NfctRecv where
  | datagram (bytes : List UInt8) (tsMs : UInt64)
  | failed

/-- What `poll` returns. -/
inductive PollReturn where
  | interrupted
  | failed
  | timedOut
  /-- the events of the conntrack socket -/
  | ready (hangup readable : Bool)

/-- What happens in one turn of the loop. -/
structure ForensicsdTurn where
  /-- a signal has been caught when the turn begins -/
  signalled : Bool
  /-- the clock when the timeout is computed -/
  topMs : UInt64
  poll : ℕ → PollReturn
  /-- the clock after `poll` -/
  nowMs : UInt64
  dump : DumpEnv
  received : List NfctRecv

namespace Forensicsd

def start (wifi : Option WifiSide) : Forensicsd := ⟨[], wifi, false, [], []⟩

/-- The timeout for `poll`. -/
def pollTimeout (s : Forensicsd) (topMs : UInt64) : ℕ :=
  match s.wifi with
  | none => 1000
  | some w =>
    let elapsed := (topMs - w.lastMs).toNat
    if w.interval ≤ elapsed then 0 else min (w.interval - elapsed) 1000

def dumpDue (s : Forensicsd) (lib : ForensicsdLib) (routerId : CStr) (t : ForensicsdTurn) :
    Forensicsd :=
  match s.wifi with
  | none => s
  | some w =>
    if w.interval ≤ (t.nowMs - w.lastMs).toNat then
      let (w, lines) := w.dumpOnce lib routerId t.dump
      { s with wifi := some { w with lastMs := t.nowMs }, printed := s.printed ++ lines }
    else s

def feed (s : Forensicsd) (lib : ForensicsdLib) (routerId : CStr) (buf : List UInt8)
    (tsMs : UInt64) : Forensicsd :=
  { s with
    nfct := []
    printed := s.printed ++
      emitNfctEvents lib routerId tsMs (nfctFeedInput lib.nfct s.nfct buf)
    fed := s.fed ++ [(buf, tsMs)] }

/-- The inner loop, until nothing is there. For an empty datagram `nfct_netlink_recv` fails. -/
def drain (lib : ForensicsdLib) (routerId : CStr) : Forensicsd → List NfctRecv → Forensicsd
  | s, [] => s
  | s, .failed :: _ => { s with stop := true }
  | s, .datagram bytes tsMs :: rest =>
    if bytes = [] then { s with stop := true }
    else drain lib routerId (s.feed lib routerId (recvBuf bytes) tsMs) rest

def turn (lib : ForensicsdLib) (routerId : CStr) (s : Forensicsd) (t : ForensicsdTurn) :
    Turn Forensicsd :=
  if t.signalled || s.stop then .stop s
  else
    match t.poll (s.pollTimeout t.topMs) with
    | .interrupted => .go s
    | .failed => .stop s
    | .timedOut => .go (s.dumpDue lib routerId t)
    | .ready hangup readable =>
      let s := s.dumpDue lib routerId t
      if hangup then .stop s
      else if readable then .go (drain lib routerId s t.received)
      else .go s

/-- `run_netlink`, for some turns. -/
def run (lib : ForensicsdLib) (routerId : CStr) : Forensicsd → List ForensicsdTurn → Forensicsd
  | s, [] => s
  | s, t :: ts =>
    match s.turn lib routerId t with
    | .stop s => s
    | .go s => run lib routerId s ts

/-! ## What every turn keeps -/

/-- What a turn can leave: the state as it was, with a dump, or with a dump and messages. -/
def Leaves (lib : ForensicsdLib) (routerId : CStr) (s : Forensicsd) (t : ForensicsdTurn)
    (s' : Forensicsd) : Prop :=
  s' = s ∨ s' = s.dumpDue lib routerId t ∨
    s' = drain lib routerId (s.dumpDue lib routerId t) t.received

theorem turn_leaves (lib : ForensicsdLib) (routerId : CStr) (s : Forensicsd)
    (t : ForensicsdTurn) : ∃ s', Leaves lib routerId s t s' ∧
      (s.turn lib routerId t = .stop s' ∨ s.turn lib routerId t = .go s') := by
  rw [turn]
  by_cases hend : (t.signalled || s.stop) = true
  · exact ⟨s, .inl rfl, .inl (if_pos hend)⟩
  · rw [if_neg hend]
    cases t.poll (s.pollTimeout t.topMs) with
    | interrupted => exact ⟨_, .inl rfl, .inr rfl⟩
    | failed => exact ⟨_, .inl rfl, .inl rfl⟩
    | timedOut => exact ⟨_, .inr (.inl rfl), .inr rfl⟩
    | ready hangup readable =>
      cases hangup with
      | true => exact ⟨_, .inr (.inl rfl), .inl rfl⟩
      | false =>
        cases readable with
        | true => exact ⟨_, .inr (.inr rfl), .inr rfl⟩
        | false => exact ⟨_, .inr (.inl rfl), .inr rfl⟩

/-- A run goes on from what its first turn leaves, or ends there. -/
theorem run_cons (lib : ForensicsdLib) (routerId : CStr) (s : Forensicsd) (t : ForensicsdTurn)
    (ts : List ForensicsdTurn) : ∃ s', Leaves lib routerId s t s' ∧
      (s.run lib routerId (t :: ts) = s' ∨
        s.run lib routerId (t :: ts) = s'.run lib routerId ts) := by
  obtain ⟨s', hs', hturn⟩ := turn_leaves lib routerId s t
  refine ⟨s', hs', ?_⟩
  rw [run]
  rcases hturn with hturn | hturn
  · exact .inl (by rw [hturn])
  · exact .inr (by rw [hturn])

section Keeps

variable {lib : ForensicsdLib} {routerId : CStr} {P : Forensicsd → Prop}

theorem drain_keeps (hfeed : ∀ s buf tsMs, P s → P (s.feed lib routerId buf tsMs))
    (hstop : ∀ s, P s → P { s with stop := true }) {s : Forensicsd} (hs : P s)
    (received : List NfctRecv) : P (drain lib routerId s received) := by
  fun_induction drain lib routerId s received with
  | case1 s => exact hs
  | case2 s rest => exact hstop s hs
  | case3 s tsMs rest => exact hstop s hs
  | case4 s bytes tsMs rest hbytes ih => exact ih (hfeed s _ tsMs hs)

theorem run_keeps (hfeed : ∀ s buf tsMs, P s → P (s.feed lib routerId buf tsMs))
    (hstop : ∀ s, P s → P { s with stop := true }) {s : Forensicsd} (hs : P s)
    {ts : List ForensicsdTurn} (hdump : ∀ s, ∀ t ∈ ts, P s → P (s.dumpDue lib routerId t)) :
    P (s.run lib routerId ts) := by
  induction ts generalizing s with
  | nil => exact hs
  | cons t ts ih =>
    have hdue := hdump s t List.mem_cons_self hs
    obtain ⟨s', hs', hrun⟩ := run_cons lib routerId s t ts
    have hkeep : P s' := by
      rcases hs' with rfl | rfl | rfl
      · exact hs
      · exact hdue
      · exact drain_keeps hfeed hstop hdue t.received
    rcases hrun with hrun | hrun
    · exact hrun ▸ hkeep
    · exact hrun ▸ ih hkeep fun s t' ht' ↦ hdump s t' (List.mem_cons_of_mem t ht')

end Keeps

/-! ## The bindings -/

variable {lib : ForensicsdLib} {routerId : CStr}

/-- The bindings that are due for what has been fed. -/
def dueBindings (lib : ForensicsdLib) (routerId : CStr) (fed : List (List UInt8 × UInt64)) :
    List NatBinding :=
  fed.flatMap fun d ↦
    ((lib.nfct.decode d.1).take nfctMaxQ).filterMap (shownBinding lib routerId d.2)

/-- The queue is empty between two messages, and what has been printed shows the bindings. -/
structure Shows (lib : ForensicsdLib) (routerId : CStr) (s : Forensicsd) : Prop where
  nfct : s.nfct = []
  printed : s.printed.filterMap readNatLine = dueBindings lib routerId s.fed

theorem Shows.feed (hlib : lib.Sound routerId) {s : Forensicsd} (h : Shows lib routerId s)
    (buf : List UInt8) (tsMs : UInt64) : Shows lib routerId (s.feed lib routerId buf tsMs) where
  nfct := rfl
  printed := by
    have hlines : ∀ queue, (emitNfctEvents lib routerId tsMs queue).filterMap readNatLine
        = queue.filterMap (shownBinding lib routerId tsMs) := fun queue ↦ by
      have hmap := congrArg (List.filterMap id) (map_emitNfctEvents hlib tsMs queue)
      rwa [List.filterMap_map, List.filterMap_map] at hmap
    rw [Forensicsd.feed, dueBindings, List.flatMap_append, List.flatMap_singleton, ← dueBindings,
      List.filterMap_append, h.printed, hlines, h.nfct, nfctFeedInput, List.nil_append]

theorem readNatLine_of_mem_stationLines (hrid : Json.Plain routerId) {clock : ℕ → UInt64}
    {read : List (ℕ × List UInt8)} {line : CStr}
    (hline : line ∈ stationLines lib routerId clock read) : readNatLine line = none := by
  obtain ⟨x, -, hx⟩ := List.mem_flatMap.mp hline
  split at hx
  · exact absurd hx List.not_mem_nil
  · exact readNatLine_of_mem_emitWifiEvents hrid hx

theorem Shows.dumpDue (hlib : lib.Sound routerId) {s : Forensicsd} (h : Shows lib routerId s)
    (t : ForensicsdTurn) : Shows lib routerId (s.dumpDue lib routerId t) := by
  rw [Forensicsd.dumpDue]
  split
  · exact h
  · split
    · rename_i w _ _
      refine ⟨h.nfct, ?_⟩
      have hlines : ∀ line ∈ (w.dumpOnce lib routerId t.dump).2, readNatLine line = none := by
        rw [WifiSide.dumpOnce]
        split
        · exact fun line hline ↦ absurd hline List.not_mem_nil
        · exact fun line hline ↦ readNatLine_of_mem_stationLines hlib.router hline
      change (s.printed ++ (w.dumpOnce lib routerId t.dump).2).filterMap readNatLine = _
      rw [List.filterMap_append, List.filterMap_eq_nil_iff.mpr hlines, List.append_nil]
      exact h.printed
    · exact h

/-! What is fed comes from the socket, in order. -/

def NfctRecv.fed? : NfctRecv → Option (List UInt8 × UInt64)
  | .datagram bytes tsMs => some (recvBuf bytes, tsMs)
  | .failed => none

def heard (ts : List ForensicsdTurn) : List (List UInt8 × UInt64) :=
  ts.flatMap fun t ↦ t.received.filterMap NfctRecv.fed?

/-- Between two states, only datagrams of a list have been fed. -/
def FeedsFrom (l : List (List UInt8 × UInt64)) (s s' : Forensicsd) : Prop :=
  ∃ fed, s'.fed = s.fed ++ fed ∧ fed.Sublist l

theorem feedsFrom_of_eq {l : List (List UInt8 × UInt64)} {s s' : Forensicsd} (h : s'.fed = s.fed) :
    FeedsFrom l s s' := ⟨[], by rw [h, List.append_nil], List.nil_sublist l⟩

variable (lib routerId) in
theorem feedsFrom_drain (s : Forensicsd) (received : List NfctRecv) :
    FeedsFrom (received.filterMap NfctRecv.fed?) s (drain lib routerId s received) := by
  fun_induction drain lib routerId s received with
  | case1 s => exact feedsFrom_of_eq rfl
  | case2 s rest => exact feedsFrom_of_eq rfl
  | case3 s tsMs rest => exact feedsFrom_of_eq rfl
  | case4 s bytes tsMs rest _ ih =>
    obtain ⟨fed, hfed, hsub⟩ := ih
    exact ⟨(recvBuf bytes, tsMs) :: fed, hfed.trans (List.append_assoc _ _ _), hsub.cons_cons _⟩

theorem fed_dumpDue (s : Forensicsd) (t : ForensicsdTurn) :
    (s.dumpDue lib routerId t).fed = s.fed := by
  rw [dumpDue]
  split
  · rfl
  · split <;> rfl

variable (lib routerId) in
theorem feedsFrom_run (s : Forensicsd) (ts : List ForensicsdTurn) :
    FeedsFrom (heard ts) s (s.run lib routerId ts) := by
  induction ts generalizing s with
  | nil => exact feedsFrom_of_eq rfl
  | cons t ts ih =>
    obtain ⟨s', hs', hrun⟩ := run_cons lib routerId s t ts
    have hturn : FeedsFrom (t.received.filterMap NfctRecv.fed?) s s' := by
      rcases hs' with rfl | rfl | rfl
      · exact feedsFrom_of_eq rfl
      · exact feedsFrom_of_eq (fed_dumpDue s t)
      · have hdrain := feedsFrom_drain lib routerId (s.dumpDue lib routerId t) t.received
        rwa [FeedsFrom, fed_dumpDue, ← FeedsFrom] at hdrain
    obtain ⟨fed, hfed, hsub⟩ := hturn
    rw [heard, List.flatMap_cons, ← heard]
    rcases hrun with hrun | hrun <;> rw [hrun]
    · exact ⟨fed, hfed, hsub.trans (List.sublist_append_left _ _)⟩
    · obtain ⟨fed', hfed', hsub'⟩ := ih s'
      exact ⟨fed ++ fed', by rw [← List.append_assoc, ← hfed, hfed'], hsub.append hsub'⟩

/-- In every run, a reader of the lines on standard output gets the bindings of the events in what
has been received on the conntrack socket, in order and each once: of at most 32 events for each
datagram, those that are printed with their addresses. -/
theorem run_shows_bindings (hlib : lib.Sound routerId) (wifi : Option WifiSide)
    (ts : List ForensicsdTurn) :
    ((start wifi).run lib routerId ts).printed.filterMap readNatLine
        = dueBindings lib routerId ((start wifi).run lib routerId ts).fed ∧
      ((start wifi).run lib routerId ts).fed.Sublist (heard ts) := by
  have hkeep : Shows lib routerId ((start wifi).run lib routerId ts) :=
    run_keeps (fun s buf tsMs h ↦ h.feed hlib buf tsMs) (fun s h ↦ ⟨h.nfct, h.printed⟩)
      ⟨rfl, rfl⟩ (fun s t _ h ↦ h.dumpDue hlib t)
  obtain ⟨fed, hfed, hsub⟩ := feedsFrom_run lib routerId (start wifi) ts
  rw [start, List.nil_append] at hfed
  exact ⟨hkeep.printed, hfed ▸ hsub⟩

/-- The library of the examples, with an event for each 20 bytes. -/
def plainForensicsd : ForensicsdLib where
  nfct := sameBinding
  eventText _ := ascii "partial"
  stations _ := []

theorem sound_plainForensicsd : plainForensicsd.Sound (ascii "cpe-demo-001") where
  faithful := faithful_plainForensics
  eventText _ := (by decide : Json.Plain (ascii "partial"))
  router := by decide

def oneMessage : ForensicsdTurn where
  signalled := false
  topMs := 0
  poll _ := .ready false true
  nowMs := 1000
  dump := ⟨none, fun _ ↦ 0⟩
  received := [.datagram (List.replicate 20 0) 1000]

/-- Two turns in which a message is there. -/
theorem run_shows_bindings_two :
    ((start none).run plainForensicsd (ascii "cpe-demo-001")
        [oneMessage, oneMessage]).printed.filterMap readNatLine
      = [natBinding (natEvent .new 6 40000) 1000, natBinding (natEvent .new 6 40000) 1000] :=
  (run_shows_bindings sound_plainForensicsd none [oneMessage, oneMessage]).1

/-! ## The stations -/

def Dumped (left : List (List UInt8)) (ts : List ForensicsdTurn) (s : Forensicsd) : Prop :=
  ∃ w, s.wifi = some w ∧ ∃ rs : List (Round (List UInt8)),
    (∀ r ∈ rs, ∃ t ∈ ts, t.dump.sent = some r) ∧
    (w.channel, w.dumps) = (Channel.startWith left).rounds endsDump rs

theorem Dumped.dumpDue {left : List (List UInt8)} {ts : List ForensicsdTurn} {s : Forensicsd}
    (h : Dumped left ts s) {t : ForensicsdTurn} (ht : t ∈ ts) :
    Dumped left ts (s.dumpDue lib routerId t) := by
  obtain ⟨w, hw, rs, hrs, hrounds⟩ := h
  rw [Forensicsd.dumpDue, hw]
  dsimp only
  split
  · rw [WifiSide.dumpOnce]
    cases hsent : t.dump.sent with
    | none => exact ⟨_, rfl, rs, hrs, hrounds⟩
    | some r =>
      refine ⟨_, rfl, rs ++ [r], ?_, ?_⟩
      · intro r' hr'
        rcases List.mem_append.mp hr' with hr' | hr'
        · exact hrs r' hr'
        · exact ⟨t, ht, List.mem_singleton.mp hr' ▸ hsent⟩
      · rw [rounds_concat, ← hrounds]
  · exact ⟨w, hw, rs, hrs, hrounds⟩

/-- In every run in which each request is answered with datagrams of which the last says that the
dump is done, a dump reads of the answer to the request whose number is that of the earlier dumps
that have read such an end. It is its own only as long as all of them have, and as long as this is
so for all dumps, and no longer, nothing is left on the socket. Nothing is lost and nothing is read
twice.

What is on the socket before the first dump, as the acknowledgement of the request for the family
is, counts as part of the first answer. -/
theorem run_dumps_lag (lib : ForensicsdLib) (routerId : CStr) (interval : ℕ) (lastMs : UInt64)
    {left : List (List UInt8)} (hleft : ∀ d ∈ left, endsDump d = false) (ts : List ForensicsdTurn)
    (hanswer : ∀ t ∈ ts, ∀ r ∈ t.dump.sent, IsAnswer endsDump r.answer) :
    ∃ w, ((start (some ⟨interval, lastMs, .startWith left, []⟩)).run lib routerId ts).wifi
        = some w ∧
      (∃ rs : List (Round (List UInt8)), (∀ r ∈ rs, ∃ t ∈ ts, t.dump.sent = some r) ∧
        w.dumps.flatten ++ w.channel.pending
          = left.map (0, ·) ++ rs.zipIdx.flatMap fun r ↦ r.1.answer.map (r.2, ·)) ∧
      (∀ i read, w.dumps[i]? = some read → ∀ x ∈ read,
        x.1 = answered endsDump (w.dumps.take i) ∧
          (x.1 = i ↔ ∀ read' ∈ w.dumps.take i, Complete endsDump read')) ∧
      (w.dumps ≠ [] ∨ left = [] →
        (w.channel.pending = [] ↔ ∀ read ∈ w.dumps, Complete endsDump read)) := by
  obtain ⟨w, hw, rs, hrs, hrounds⟩ :
      Dumped left ts ((start (some ⟨interval, lastMs, .startWith left, []⟩)).run lib routerId ts) :=
    run_keeps (fun s buf tsMs h ↦ h) (fun s h ↦ h)
      ⟨_, rfl, [], fun r hr ↦ absurd hr List.not_mem_nil, rfl⟩ (fun s t ht h ↦ h.dumpDue ht)
  cases rs with
  | nil =>
    have hchannel : w.channel = .startWith left := congrArg Prod.fst hrounds
    have hdumps : w.dumps = [] := congrArg Prod.snd hrounds
    refine ⟨w, hw, ⟨[], hrs, ?_⟩, fun i read hread ↦ ?_, fun hnone ↦ ?_⟩
    · rw [hchannel, hdumps]
      exact (List.append_nil _).symm
    · rw [hdumps, List.getElem?_nil] at hread
      contradiction
    · obtain rfl := hnone.resolve_left fun h ↦ h hdumps
      rw [hchannel, hdumps]
      exact iff_of_true rfl fun read h ↦ absurd h List.not_mem_nil
  | cons r rs =>
    have hanswers : ∀ r' ∈ r :: rs, IsAnswer endsDump r'.answer := by
      intro r' hr'
      obtain ⟨t, ht, hsent⟩ := hrs r' hr'
      exact hanswer t ht r' hsent
    have hall : ∀ r' ∈ ⟨left ++ r.answer, r.ready⟩ :: rs, IsAnswer endsDump r'.answer := by
      intro r' hr'
      rcases List.mem_cons.mp hr' with rfl | hr'
      · exact (hanswers r List.mem_cons_self).append_left hleft
      · exact hanswers r' (List.mem_cons_of_mem r hr')
    rw [startWith_rounds_cons] at hrounds
    have happend := @rounds_append _ endsDump (⟨left ++ r.answer, r.ready⟩ :: rs)
    have hnil := pending_eq_nil_iff hall
    rw [← hrounds] at happend hnil
    refine ⟨w, hw, ⟨r :: rs, hrs, ?_⟩, fun i read hread x hx ↦ ?_, fun _ ↦ hnil⟩
    · rw [happend, List.zipIdx_cons, List.zipIdx_cons, List.flatMap_cons, List.flatMap_cons,
        List.map_append, List.append_assoc]
    · have hi : i < w.dumps.length := (List.getElem?_eq_some_iff.mp hread).1
      have hdumps : w.dumps
          = (Channel.start.rounds endsDump (⟨left ++ r.answer, r.ready⟩ :: rs)).2 :=
        congrArg Prod.snd hrounds
      have hnumber : x.1 = answered endsDump (w.dumps.take i) := by
        rw [hdumps] at hread ⊢
        exact eq_answered_of_mem hall hread x hx
      exact ⟨hnumber, hnumber ▸ answered_take_eq_iff endsDump hi.le⟩

def dumpMessage (type : UInt8) : List UInt8 := [16, 0, 0, 0, type, 0, 0, 0, 2, 0, 0, 0, 0, 0, 0, 0]

/-- A turn with a dump, of whose answer, in two datagrams, one or more can be read in time. -/
def lateDump (ready : ℕ) (nowMs : UInt64) : ForensicsdTurn where
  signalled := false
  topMs := nowMs
  poll _ := .timedOut
  nowMs := nowMs
  dump := ⟨some ⟨[dumpMessage 19, dumpMessage 3], ready⟩, fun _ ↦ nowMs⟩
  received := []

/-- The first dump only reads what was there before it, and so the third prints the stations of the
second. -/
theorem run_dumps_lag_late :
    ∃ w, ((start (some ⟨5000, 0, .startWith [dumpMessage 2], []⟩)).run plainForensicsd
        (ascii "cpe-demo-001") [lateDump 1 5000, lateDump 4 10000, lateDump 4 15000]).wifi
          = some w ∧
      w.dumps.map (·.map Prod.fst) = [[0], [0, 0], [1, 1]] ∧ w.channel.pending ≠ [] := by
  have hleft : ∀ d ∈ [dumpMessage 2], endsDump d = false := by decide
  have hanswer : ∀ t ∈ [lateDump 1 5000, lateDump 4 10000, lateDump 4 15000],
      ∀ r ∈ t.dump.sent, IsAnswer endsDump r.answer := by
    intro t ht r hr
    simp only [List.mem_cons, List.not_mem_nil, or_false] at ht
    rcases ht with rfl | rfl | rfl <;> rw [← Option.mem_some.mp hr] <;>
      exact ⟨[dumpMessage 19], dumpMessage 3, rfl, by decide, by decide⟩
  obtain ⟨w, hw, -, -, hpending⟩ :=
    run_dumps_lag plainForensicsd (ascii "cpe-demo-001") 5000 0 hleft _ hanswer
  have hdumps : ((start (some ⟨5000, 0, .startWith [dumpMessage 2], []⟩)).run plainForensicsd
      (ascii "cpe-demo-001") [lateDump 1 5000, lateDump 4 10000, lateDump 4 15000]).wifi.map
        (fun w ↦ (w.dumps.map (·.map Prod.fst), decide (∀ read ∈ w.dumps, Complete endsDump read)))
      = some ([[0], [0, 0], [1, 1]], false) := by decide
  rw [hw, Option.map_some, Option.some_inj, Prod.mk.injEq, decide_eq_false_iff_not] at hdumps
  have hsome : w.dumps ≠ [] := by
    intro hnil
    rw [hnil] at hdumps
    exact nomatch hdumps.1
  exact ⟨w, hw, hdumps.1, (hpending (Or.inl hsome)).not.mpr hdumps.2⟩

end Forensicsd

end NetForensics
