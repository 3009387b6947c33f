import NetForensics.Tcp.Stats

/-!
# Invariants of the TCP tables

What holds of the snapshot after any sequence of payloads and resets, evictions included, as long as
fewer than 2³² calls were made: the tables are bounded and their keys distinct, every record is
consistent in itself, and the global counters agree with what was classified.

`SnapshotOk` carries, next to these, the number of calls that bounds every counter; that is what
keeps the 32-bit counters from wrapping.
-/

namespace NetForensics

/-! ## Counters -/

namespace TcpCounters

/-- The counters after at most `n` packets: no flag is counted more often than the packets, no
retransmission that is not a SYN, and no packet with more bytes than its length field can say. -/
structure Bounded (n : ℕ) (c : TcpCounters) : Prop where
  pkt_le : c.pktCount.toNat ≤ n
  syn_le : c.synCount.toNat ≤ c.pktCount.toNat
  fin_le : c.finCount.toNat ≤ c.pktCount.toNat
  rst_le : c.rstCount.toNat ≤ c.pktCount.toNat
  retrans_le : c.synRetrans.toNat ≤ c.synCount.toNat
  bytes_le : c.bytesEst.toNat ≤ 65535 * n

theorem bounded_zero (n : ℕ) : Bounded n {} :=
  ⟨Nat.zero_le _, le_rfl, le_rfl, le_rfl, le_rfl, Nat.zero_le _⟩

theorem Bounded.mono {n m : ℕ} {c : TcpCounters} (h : c.Bounded n) (hnm : n ≤ m) : c.Bounded m :=
  { h with
    pkt_le := h.pkt_le.trans hnm
    bytes_le := h.bytes_le.trans (Nat.mul_le_mul_left 65535 hnm) }

theorem toNat_ite_add_one {x : UInt32} (b : Bool) (h : x.toNat + 1 < 2 ^ 32) :
    (if b then x + 1 else x).toNat = x.toNat + b.toNat := by
  cases b with
  | false => rfl
  | true =>
    rw [if_pos rfl, UInt32.toNat_add]
    exact Nat.mod_eq_of_lt h

section Bump

variable {n : ℕ} {c : TcpCounters} (h : c.Bounded n) (hn : n + 1 < 2 ^ 32) (b : PacketBits)
  (ipLen : UInt16)
include h hn

theorem bump_pktCount : (c.bump b ipLen).pktCount.toNat = c.pktCount.toNat + 1 := by
  have := h.pkt_le
  exact toNat_ite_add_one true (by omega)

theorem bump_synCount :
    (c.bump b ipLen).synCount.toNat = c.synCount.toNat + b.isSyn.toNat := by
  have := h.pkt_le
  have := h.syn_le
  exact toNat_ite_add_one b.isSyn (by omega)

theorem bump_finCount :
    (c.bump b ipLen).finCount.toNat = c.finCount.toNat + b.isFin.toNat := by
  have := h.pkt_le
  have := h.fin_le
  exact toNat_ite_add_one b.isFin (by omega)

theorem bump_rstCount :
    (c.bump b ipLen).rstCount.toNat = c.rstCount.toNat + b.isRst.toNat := by
  have := h.pkt_le
  have := h.rst_le
  exact toNat_ite_add_one b.isRst (by omega)

theorem bump_synRetrans :
    (c.bump b ipLen).synRetrans.toNat = c.synRetrans.toNat + b.retrans.toNat := by
  have := h.pkt_le
  have := h.syn_le
  have := h.retrans_le
  exact toNat_ite_add_one b.retrans (by omega)

theorem bump_bytesEst :
    (c.bump b ipLen).bytesEst.toNat = c.bytesEst.toNat + ipLen.toNat := by
  have hbytes := h.bytes_le
  have hlen := ipLen.toNat_lt
  have hsum : (c.bytesEst + ipLen.toUInt64).toNat = (c.bytesEst.toNat + ipLen.toNat) % 2 ^ 64 :=
    UInt64.toNat_add _ _
  exact hsum.trans (Nat.mod_eq_of_lt (by omega))

theorem Bounded.bump (hb : b.retrans = true → b.isSyn = true) :
    (c.bump b ipLen).Bounded (n + 1) := by
  have hp := bump_pktCount h hn b ipLen
  have hs := bump_synCount h hn b ipLen
  have hf := bump_finCount h hn b ipLen
  have hr := bump_rstCount h hn b ipLen
  have ht := bump_synRetrans h hn b ipLen
  have hl := bump_bytesEst h hn b ipLen
  have hlen := ipLen.toNat_lt
  have hretrans : b.retrans.toNat ≤ b.isSyn.toNat := by
    cases hrb : b.retrans with
    | false => exact Nat.zero_le _
    | true => rw [hb hrb]
  have hsyn := Bool.toNat_le b.isSyn
  have hfin := Bool.toNat_le b.isFin
  have hrst := Bool.toNat_le b.isRst
  obtain ⟨h₁, h₂, h₃, h₄, h₅, h₆⟩ := h
  exact ⟨by omega, by omega, by omega, by omega, by omega, by omega⟩

end Bump

end TcpCounters

/-- The counted bits of a packet under the window it meets: a repeated SYN is a SYN. -/
theorem packetBits_retrans (w : SynWindow) (p : CpeTcpPacket) :
    (packetBits p (noteSyn w p).2).retrans = true →
      (packetBits p (noteSyn w p).2).isSyn = true :=
  isSyn_of_noteSyn

/-! ## Keys -/

theorem endpoints_remoteIp_length (p : CpeTcpPacket) : (endpoints p).remoteIp.length < 48 := by
  have hpos : 0 < 48 := by decide
  unfold endpoints
  dsimp only
  split
  · split
    · exact length_copyStr_lt hpos _
    · split <;> exact length_copyStr_lt hpos _
  · exact length_copyStr_lt hpos _

theorem freshRemote_remoteIp (p : CpeTcpPacket) :
    (freshRemote (endpoints p).remoteIp).remoteIp = (endpoints p).remoteIp :=
  copyStr_of_length_lt (endpoints_remoteIp_length p)

/-- The network of an address, with its length behind a slash. -/
theorem prefixFromIp4_eq (a : UInt32) {l : UInt8} (hl : 1 ≤ l.toNat ∧ l.toNat ≤ 32) :
    prefixFromIp4 a l 64 = inetNtop4 (a &&& prefixMask l) ++ 47 :: decimal l.toNat := by
  have hin : ¬ (l = 0 ∨ 32 < l) := by
    rintro (h | h)
    · rw [h] at hl
      exact absurd hl.1 (by decide)
    · have := UInt8.lt_iff_toNat_lt.mp h
      have h32 : (32 : UInt8).toNat = 32 := rfl
      omega
  rw [prefixFromIp4]
  simp only [if_neg hin]
  generalize a &&& prefixMask l = net
  have hnet := length_inetNtop4_le net
  have hdec := length_decimal_octet l
  have hfit : (47 :: decimal l.toNat).length < 64 - (inetNtop4 net).length := by
    rw [List.length_cons]
    omega
  rw [if_pos (by omega), copyStr_of_length_lt hfit]

/-- `prefix_from_ip4` puts its default in the place of a length out of range. -/
theorem prefixFromIp4_default (a : UInt32) (l : UInt8) :
    ∃ l' : UInt8, (1 ≤ l'.toNat ∧ l'.toNat ≤ 32) ∧
      prefixFromIp4 a l 64 = prefixFromIp4 a l' 64 := by
  by_cases hout : l = 0 ∨ 32 < l
  · refine ⟨24, by decide, ?_⟩
    rw [prefixFromIp4, prefixFromIp4]
    simp only [if_pos hout]
    rfl
  · refine ⟨l, ?_, rfl⟩
    rw [not_or, UInt8.not_lt, UInt8.le_iff_toNat_le] at hout
    have h0 : l.toNat ≠ 0 := fun h ↦ hout.1 (UInt8.toNat_inj.mp h)
    have h32 : (32 : UInt8).toNat = 32 := rfl
    omega

theorem length_prefixFromIp4_lt (a : UInt32) (l : UInt8) : (prefixFromIp4 a l 64).length < 64 := by
  obtain ⟨l', hl', heq⟩ := prefixFromIp4_default a l
  rw [heq, prefixFromIp4_eq a hl', List.length_append, List.length_cons]
  have hdec := length_decimal_octet l'
  have hnet := length_inetNtop4_le (a &&& prefixMask l')
  omega

theorem freshPrefix_pfx (a : UInt32) (l : UInt8) :
    (freshPrefix (prefixFromIp4 a l 64)).pfx = prefixFromIp4 a l 64 :=
  copyStr_of_length_lt (length_prefixFromIp4_lt a l)

/-! ## The snapshot -/

/-- The snapshot is well formed: bounded tables with distinct keys, records that are consistent in
themselves, and totals that agree with the tables and with the classification. -/
structure CpeTcpSnapshot.WellFormed (s : CpeTcpSnapshot) : Prop where
  remotes_le : s.remotes.length ≤ 256
  prefixes_le : s.prefixes.length ≤ 128
  remotes_nodup : (s.remotes.map CpeTcpRemote.remoteIp).Nodup
  prefixes_nodup : (s.prefixes.map CpeTcpPrefix.pfx).Nodup
  remotes_ok : ∀ r ∈ s.remotes, 1 ≤ r.pktCount.toNat ∧ r.synCount.toNat ≤ r.pktCount.toNat ∧
    r.finCount.toNat ≤ r.pktCount.toNat ∧ r.rstCount.toNat ≤ r.pktCount.toNat ∧
    r.synRetrans.toNat ≤ r.synCount.toNat
  prefixes_ok : ∀ x ∈ s.prefixes, 1 ≤ x.pktCount.toNat ∧ x.synCount.toNat ≤ x.pktCount.toNat ∧
    x.finCount.toNat ≤ x.pktCount.toNat ∧ x.rstCount.toNat ≤ x.pktCount.toNat ∧
    x.synRetrans.toNat ≤ x.synCount.toNat
  remotes_sum_le : (s.remotes.map fun r ↦ r.pktCount.toNat).sum ≤ s.total.pktCount.toNat
  parsed_eq : s.pktsParsed.toNat
    = s.total.pktCount.toNat + s.pktsNonTcp.toNat + s.pktsParseFail.toNat

/-- A record after at most `n` packets, at least one of them its own. -/
def TcpCounters.Alive (n : ℕ) (c : TcpCounters) : Prop := 1 ≤ c.pktCount.toNat ∧ c.Bounded n

/-- The invariant of the tables and totals, after at most `n` packets. -/
structure TablesOk (n : ℕ) (s : CpeTcpSnapshot) : Prop where
  remotes_le : s.remotes.length ≤ cpeTcpRemoteMax
  prefixes_le : s.prefixes.length ≤ cpeTcpPrefixMax
  remotes_nodup : (s.remotes.map CpeTcpRemote.remoteIp).Nodup
  prefixes_nodup : (s.prefixes.map CpeTcpPrefix.pfx).Nodup
  remotes_ok : ∀ r ∈ s.remotes, r.toTcpCounters.Alive n
  prefixes_ok : ∀ x ∈ s.prefixes, x.toTcpCounters.Alive n
  total_ok : s.total.Bounded n
  remotes_sum_le : (s.remotes.map fun r ↦ r.pktCount.toNat).sum ≤ s.total.pktCount.toNat

/-- The invariant of the whole snapshot, after `n` calls. -/
structure SnapshotOk (n : ℕ) (s : CpeTcpSnapshot) : Prop extends TablesOk n s where
  parsed_eq : s.pktsParsed.toNat
    = s.total.pktCount.toNat + s.pktsNonTcp.toNat + s.pktsParseFail.toNat
  parsed_le : s.pktsParsed.toNat ≤ n

theorem SnapshotOk.wellFormed {n : ℕ} {s : CpeTcpSnapshot} (h : SnapshotOk n s) : s.WellFormed where
  remotes_le := h.remotes_le
  prefixes_le := h.prefixes_le
  remotes_nodup := h.remotes_nodup
  prefixes_nodup := h.prefixes_nodup
  remotes_ok r hr := by
    obtain ⟨hpos, hb⟩ := h.remotes_ok r hr
    exact ⟨hpos, hb.syn_le, hb.fin_le, hb.rst_le, hb.retrans_le⟩
  prefixes_ok x hx := by
    obtain ⟨hpos, hb⟩ := h.prefixes_ok x hx
    exact ⟨hpos, hb.syn_le, hb.fin_le, hb.rst_le, hb.retrans_le⟩
  remotes_sum_le := h.remotes_sum_le
  parsed_eq := h.parsed_eq

def CpeTcpSnapshot.Cleared (s : CpeTcpSnapshot) : Prop :=
  s.total = {} ∧ s.pktsParsed = 0 ∧ s.pktsNonTcp = 0 ∧ s.pktsParseFail = 0 ∧ s.remotes = [] ∧
    s.prefixes = []

theorem tablesOk_of_cleared {s : CpeTcpSnapshot} (h : s.Cleared) (n : ℕ) : TablesOk n s := by
  obtain ⟨htotal, -, -, -, hrem, hpre⟩ := h
  constructor
  · rw [hrem]
    exact Nat.zero_le _
  · rw [hpre]
    exact Nat.zero_le _
  · rw [hrem]
    exact List.nodup_nil
  · rw [hpre]
    exact List.nodup_nil
  · rw [hrem]
    exact fun r hr ↦ absurd hr List.not_mem_nil
  · rw [hpre]
    exact fun x hx ↦ absurd hx List.not_mem_nil
  · rw [htotal]
    exact TcpCounters.bounded_zero n
  · rw [hrem]
    exact Nat.zero_le _

theorem snapshotOk_of_cleared {s : CpeTcpSnapshot} (h : s.Cleared) (n : ℕ) : SnapshotOk n s where
  toTablesOk := tablesOk_of_cleared h n
  parsed_eq := by
    rw [h.1, h.2.1, h.2.2.1, h.2.2.2.1]
    rfl
  parsed_le := by
    rw [h.2.1]
    exact Nat.zero_le n

theorem TcpCounters.Alive.mono {n m : ℕ} {c : TcpCounters} (h : c.Alive n) (hnm : n ≤ m) :
    c.Alive m :=
  ⟨h.1, h.2.mono hnm⟩

theorem TcpCounters.Alive.bump {n : ℕ} {c : TcpCounters} (h : c.Bounded n) (hn : n + 1 < 2 ^ 32)
    {b : PacketBits} (hb : b.retrans = true → b.isSyn = true) (ipLen : UInt16) :
    (c.bump b ipLen).Alive (n + 1) :=
  ⟨by rw [TcpCounters.bump_pktCount h hn]; omega, h.bump hn b ipLen hb⟩

theorem TablesOk.mono {n m : ℕ} {s : CpeTcpSnapshot} (h : TablesOk n s) (hnm : n ≤ m) :
    TablesOk m s :=
  { h with
    remotes_ok := fun r hr ↦ (h.remotes_ok r hr).mono hnm
    prefixes_ok := fun x hx ↦ (h.prefixes_ok x hx).mono hnm
    total_ok := h.total_ok.mono hnm }

/-! ## One call -/

theorem toNat_add_one_of_lt {x : UInt64} {n : ℕ} (hx : x.toNat ≤ n) (hn : n + 1 < 2 ^ 32) :
    (x + 1).toNat = x.toNat + 1 := by
  rw [UInt64.toNat_add]
  exact Nat.mod_eq_of_lt (by
    have h1 : (1 : UInt64).toNat = 1 := rfl
    omega)

section Step

variable {n : ℕ} {st : CpeTcpState} (hn : n + 1 < 2 ^ 32) (h : TablesOk n st.snap)
include hn h

theorem prefixes_applyPacket (p : CpeTcpPacket) (nowMs : UInt64) (clock : Option WallClock) :
    (applyPacket st p nowMs clock).snap.prefixes.length ≤ cpeTcpPrefixMax ∧
      ((applyPacket st p nowMs clock).snap.prefixes.map CpeTcpPrefix.pfx).Nodup ∧
      ∀ x ∈ (applyPacket st p nowMs clock).snap.prefixes, x.toTcpCounters.Alive (n + 1) := by
  obtain ⟨r, -, ⟨-, heq⟩ | ⟨a, x, -, htouch⟩⟩ := touched_applyPacket st p nowMs clock
  · rw [heq]
    refine ⟨h.prefixes_le, h.prefixes_nodup, fun x hx ↦ ?_⟩
    exact (h.prefixes_ok x hx).mono (Nat.le_succ n)
  · refine ⟨htouch.length_le h.prefixes_le,
      htouch.nodup (freshPrefix_pfx a _) (fun _ ↦ rfl) h.prefixes_nodup, ?_⟩
    refine htouch.forall_mem (fun y hy ↦ (h.prefixes_ok y hy).mono (Nat.le_succ n))
      (fun y hy _ ↦ ?_) ?_
    · exact TcpCounters.Alive.bump (h.prefixes_ok y hy).2 hn (packetBits_retrans st.syns p) _
    · exact TcpCounters.Alive.bump (TcpCounters.bounded_zero n) hn (packetBits_retrans st.syns p) _

theorem remotes_applyPacket (p : CpeTcpPacket) (nowMs : UInt64) (clock : Option WallClock) :
    (applyPacket st p nowMs clock).snap.remotes.length ≤ cpeTcpRemoteMax ∧
      ((applyPacket st p nowMs clock).snap.remotes.map CpeTcpRemote.remoteIp).Nodup ∧
      (∀ r ∈ (applyPacket st p nowMs clock).snap.remotes, r.toTcpCounters.Alive (n + 1)) ∧
      ((applyPacket st p nowMs clock).snap.remotes.map fun r ↦ r.pktCount.toNat).sum
        ≤ (st.snap.remotes.map fun r ↦ r.pktCount.toNat).sum + 1 := by
  obtain ⟨r, htouch, -⟩ := touched_applyPacket st p nowMs clock
  have hbits := packetBits_retrans st.syns p
  refine ⟨htouch.length_le h.remotes_le,
    htouch.nodup (freshRemote_remoteIp p) (fun _ ↦ rfl) h.remotes_nodup, ?_, ?_⟩
  · refine htouch.forall_mem (fun y hy ↦ (h.remotes_ok y hy).mono (Nat.le_succ n))
      (fun y hy _ ↦ ?_) ?_
    · exact TcpCounters.Alive.bump (h.remotes_ok y hy).2 hn hbits _
    · exact TcpCounters.Alive.bump (TcpCounters.bounded_zero n) hn hbits _
  · refine htouch.sum_le (fun a ha ↦ ?_) ?_
    · exact (TcpCounters.bump_pktCount (h.remotes_ok a ha).2 hn _ _).le
    · exact (TcpCounters.bump_pktCount (TcpCounters.bounded_zero n) hn _ _).le

/-- A packet keeps the invariant of the tables. -/
theorem tablesOk_applyPacket (p : CpeTcpPacket) (nowMs : UInt64) (clock : Option WallClock) :
    TablesOk (n + 1) (applyPacket st p nowMs clock).snap := by
  obtain ⟨hrlen, hrnd, hrok, hrsum⟩ := remotes_applyPacket hn h p nowMs clock
  obtain ⟨hplen, hpnd, hpok⟩ := prefixes_applyPacket hn h p nowMs clock
  have htotal := TcpCounters.bump_pktCount h.total_ok hn (packetBits p (noteSyn st.syns p).2)
    p.ipLen
  exact
    { remotes_le := hrlen
      prefixes_le := hplen
      remotes_nodup := hrnd
      prefixes_nodup := hpnd
      remotes_ok := hrok
      prefixes_ok := hpok
      total_ok := h.total_ok.bump hn _ p.ipLen (packetBits_retrans st.syns p)
      remotes_sum_le :=
        hrsum.trans ((Nat.add_le_add_right h.remotes_sum_le 1).trans_eq htotal.symm) }

end Step

section Call

variable {n : ℕ} {st : CpeTcpState} (hn : n + 1 < 2 ^ 32) (h : SnapshotOk n st.snap)
include hn h

/-- A packet keeps the invariant of the snapshot, together with the call that delivered it. -/
theorem snapshotOk_applyPacket (p : CpeTcpPacket) (nowMs : UInt64) (clock : Option WallClock) :
    SnapshotOk (n + 1) (applyPacket st.countParsed p nowMs clock).snap := by
  have htables : TablesOk n st.countParsed.snap := { h.toTablesOk with }
  have htotal := TcpCounters.bump_pktCount h.total_ok hn (packetBits p (noteSyn st.syns p).2)
    p.ipLen
  have hparsed := toNat_add_one_of_lt h.parsed_le hn
  have hcount := h.parsed_eq
  have hsum : (st.snap.pktsParsed + 1).toNat
      = (st.snap.total.bump (packetBits p (noteSyn st.syns p).2) p.ipLen).pktCount.toNat
        + st.snap.pktsNonTcp.toNat + st.snap.pktsParseFail.toNat := by omega
  exact
    { tablesOk_applyPacket hn htables p nowMs clock with
      parsed_eq := hsum
      parsed_le := hparsed.trans_le (Nat.succ_le_succ h.parsed_le) }

/-- A payload that is not counted as a packet is counted as one of the other two kinds. -/
theorem snapshotOk_unparsed {parsed nonTcp fail : UInt64}
    (hparsed : parsed = st.snap.pktsParsed + 1)
    (hkind : nonTcp = st.snap.pktsNonTcp + 1 ∧ fail = st.snap.pktsParseFail ∨
      nonTcp = st.snap.pktsNonTcp ∧ fail = st.snap.pktsParseFail + 1) :
    SnapshotOk (n + 1) { st.snap with
      pktsParsed := parsed, pktsNonTcp := nonTcp, pktsParseFail := fail } := by
  have hcount := h.parsed_eq
  have hle := h.parsed_le
  have hp := toNat_add_one_of_lt h.parsed_le hn
  have hnon : (st.snap.pktsNonTcp + 1).toNat = st.snap.pktsNonTcp.toNat + 1 :=
    toNat_add_one_of_lt (n := n) (by omega) hn
  have hfail : (st.snap.pktsParseFail + 1).toNat = st.snap.pktsParseFail.toNat + 1 :=
    toNat_add_one_of_lt (n := n) (by omega) hn
  have hsum : parsed.toNat = st.snap.total.pktCount.toNat + nonTcp.toNat + fail.toNat := by
    rcases hkind with ⟨rfl, rfl⟩ | ⟨rfl, rfl⟩
    · rw [hparsed]
      omega
    · rw [hparsed]
      omega
  exact
    { h.toTablesOk.mono (Nat.le_succ n) with
      parsed_eq := hsum
      parsed_le := by
        rw [hparsed, hp]
        omega }

end Call

/-! ## Runs -/

/-- A call: a payload from either entry point, or a reset. -/
inductive TcpOp where
  | feed (pkt : List UInt8) (nowMs : UInt64) (clock : Option WallClock)
  | nflog (payload : List UInt8) (nowMs : UInt64) (clock : Option WallClock)
  | reset (clock : Option WallClock)

namespace CpeTcpState

def tcpStep (st : CpeTcpState) : TcpOp → CpeTcpState
  | .feed pkt nowMs clock => (cpeAgentTcpFeedPayload st pkt nowMs clock).1
  | .nflog payload nowMs clock => onNflogPayload st payload nowMs clock
  | .reset clock => cpeAgentTcpReset st clock

def tcpRun (st : CpeTcpState) (ops : List TcpOp) : CpeTcpState := ops.foldl tcpStep st

end CpeTcpState

theorem cleared_reset (st : CpeTcpState) (clock : Option WallClock) :
    (cpeAgentTcpReset st clock).snap.Cleared :=
  ⟨rfl, rfl, rfl, rfl, rfl, rfl⟩

theorem snapshotOk_tcpStep {n : ℕ} {st : CpeTcpState} (hn : n + 1 < 2 ^ 32)
    (h : SnapshotOk n st.snap) (op : TcpOp) : SnapshotOk (n + 1) (st.tcpStep op).snap := by
  cases op with
  | feed pkt nowMs clock =>
    rw [CpeTcpState.tcpStep, cpeAgentTcpFeedPayload]
    split
    · exact { h.toTablesOk.mono (Nat.le_succ n) with
        parsed_eq := h.parsed_eq
        parsed_le := h.parsed_le.trans (Nat.le_succ n) }
    · split
      · exact snapshotOk_applyPacket hn h _ nowMs clock
      · exact snapshotOk_unparsed hn h rfl (Or.inr ⟨rfl, rfl⟩)
  | nflog payload nowMs clock =>
    rw [CpeTcpState.tcpStep, onNflogPayload]
    split
    · exact snapshotOk_applyPacket hn h _ nowMs clock
    · split
      · exact snapshotOk_unparsed hn h rfl (Or.inl ⟨rfl, rfl⟩)
      · exact snapshotOk_unparsed hn h rfl (Or.inr ⟨rfl, rfl⟩)
  | reset clock => exact snapshotOk_of_cleared (cleared_reset st clock) _

theorem snapshotOk_tcpRun {n : ℕ} {st : CpeTcpState} (h : SnapshotOk n st.snap) (ops : List TcpOp)
    (hn : n + ops.length < 2 ^ 32) : SnapshotOk (n + ops.length) (st.tcpRun ops).snap := by
  induction ops generalizing n st with
  | nil => exact h
  | cons op ops ih =>
    rw [List.length_cons] at hn ⊢
    -- the bound counts the calls made so far
    have hstep := snapshotOk_tcpStep (by omega) h op
    have hrun := ih hstep (by omega)
    rw [Nat.add_assoc, Nat.add_comm 1] at hrun
    exact hrun

/-- After any sequence of fewer than 2³² calls on a cleared snapshot, it is well formed. -/
theorem wellFormed_tcpRun (st : CpeTcpState) (hst : st.snap.Cleared) (ops : List TcpOp)
    (hops : ops.length < 2 ^ 32) : (st.tcpRun ops).snap.WellFormed :=
  (snapshotOk_tcpRun (snapshotOk_of_cleared hst 0) ops (by omega)).wellFormed

/-- A SYN to one of many hosts, each in a network of its own. -/
def synTo (k : ℕ) : List UInt8 :=
  [0x45, 0, 0, 40, 0, 0, 0, 0, 64, 6, 0, 0, 10, 0, 0, 1, 8, UInt8.ofNat (k / 256), UInt8.ofNat k, 8,
    0, 80, 0, 80, 0, 0, 0, 0, 0, 0, 0, 0, 0x50, 2, 0, 0, 0, 0, 0, 0]

/-- One host more than there is room for, and twice as many networks, behind a truncated packet and
a reset. -/
theorem wellFormed_tcpRun_init :
    (cpeTcpStateInit.tcpRun (.feed [0x45, 0] 0 none :: .reset none ::
      (List.range 257).map fun k ↦ .nflog (synTo k) 1 none)).snap.WellFormed := by
  refine wellFormed_tcpRun cpeTcpStateInit ⟨rfl, rfl, rfl, rfl, rfl, rfl⟩ _ ?_
  rw [List.length_cons, List.length_cons, List.length_map, List.length_range]
  decide

end NetForensics
